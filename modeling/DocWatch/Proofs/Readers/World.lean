import DocWatch.Proofs.History
import DocWatch.Proofs.Readers.Program
import DocWatch.Proofs.Service
import DocWatch.Proofs.Update.Publication
import DocWatch.Proofs.Update.Turns

/-!
# Readers beside updates

Here any number of readers are at work while the documents are updated. Every access of
a reader is an event of its own, so between any two of them there may be any number of
events of updates, publications among them, and of other readers.

A published value stays in memory as long as somebody refers to it, be it the slot that
readers take it from or a reader, and may be gone afterwards. That readers come to no harm
by this is the first invariant, `Sound`: what the slot and the readers refer to is there.
The second one, `Account`, follows one reader whose program takes one reference: the moment
when it does so settles its answer, and what happens later cannot reach it any more.
-/

namespace DocWatch.Readers

open Update (System)

/-- A reader at work. -/
structure Reader where
  program : Program Answer
  /-- What it has left to do. -/
  rest : Program Answer
  /-- The references that it has taken; it drops them when it has its answer. -/
  held : List Nat
  answer : Option Answer

/-- A service and its readers. Every value that was ever published has a place in memory,
which is empty if the value is gone, and the slot refers to the one that is published. -/
structure World where
  service : Service
  memory : List (Option Published)
  slot : Nat
  readers : List Reader

/-- What may happen. -/
inductive Event where
  /-- An event of the updates. -/
  | update (e : Update.Event)
  /-- A reader comes. -/
  | arrive (program : Program Answer)
  /-- A reader makes its next access, or has its answer. -/
  | access (reader : Nat)
  /-- A value that nobody refers to is gone. -/
  | free (reference : Nat)

/-- A reader after its next access; it can only look at what it has a reference to. -/
def Reader.next? (value? : Nat → Option Published) (slot : Nat) (r : Reader) : Option Reader :=
  match r.answer, r.rest with
  | some _, _ => none
  | none, .done x => some { r with held := [], answer := some x }
  | none, .take next => some { r with rest := next slot, held := slot :: r.held }
  | none, .look reference next =>
      if reference ∈ r.held then (value? reference).map fun p => { r with rest := next p }
      else none

/-- Whether an event of the updates puts a new value into the slot. -/
def publishes : Update.Event → Bool
  | .act _ (.publish _) => true
  | _ => false

namespace World

/-- A service without readers. -/
def start (s : Service) : World :=
  ⟨s, [some s.published], 0, []⟩

/-- What a reference refers to, if it is still there. -/
def value? (w : World) (reference : Nat) : Option Published :=
  w.memory[reference]?.join

/-- Whether a reader refers to a value. -/
def isHeld (w : World) (reference : Nat) : Bool :=
  w.readers.any fun r => r.held.contains reference

/-- Goes on with another state of the updates. -/
def withSystem (w : World) (system : System) : World :=
  { w with service := { w.service with updates := { w.service.updates with system } } }

/-- Goes on with another state of the updates, whose published value is new. -/
def swap (w : World) (system : System) : World :=
  { w.withSystem system with
    memory := w.memory ++ [some system.published]
    slot := w.memory.length }

/-- The state after an event, if the event can happen. -/
def step? (w : World) : Event → Option World
  | .update e =>
      (w.service.updates.system.step? w.service.updates.settings e).map fun system =>
        if publishes e then w.swap system else w.withSystem system
  | .arrive program => some { w with readers := w.readers ++ [⟨program, program, [], none⟩] }
  | .access k =>
      w.readers[k]?.bind fun r =>
        (r.next? w.value? w.slot).map fun r' => { w with readers := w.readers.set k r' }
  | .free reference =>
      if reference = w.slot ∨ w.isHeld reference then none
      else some { w with memory := w.memory.set reference none }

/-- The state after a history, if the history can happen. -/
def run? (w : World) (history : List Event) : Option World :=
  history.foldlM step? w

end World

/-! ## What one event can do -/

/-- The ways in which a reader goes on. -/
inductive Reader.Next (w : World) (r : Reader) : Reader → Prop where
  | done {x : Answer} (hrest : r.rest = .done x) : Next w r { r with held := [], answer := some x }
  | take {next : Nat → Program Answer} (hrest : r.rest = .take next) :
      Next w r { r with rest := next w.slot, held := w.slot :: r.held }
  | look {reference : Nat} {next : Published → Program Answer} {p : Published}
      (hrest : r.rest = .look reference next) (hheld : reference ∈ r.held)
      (hvalue : w.value? reference = some p) : Next w r { r with rest := next p }

theorem Reader.next_of_next? {w : World} {r r' : Reader}
    (h : r.next? w.value? w.slot = some r') : r.answer = none ∧ r.Next w r' := by
  unfold Reader.next? at h
  split at h
  · cases h
  · rename_i x hanswer hrest
    cases h
    exact ⟨hanswer, .done hrest⟩
  · rename_i next hanswer hrest
    cases h
    exact ⟨hanswer, .take hrest⟩
  · rename_i reference next hanswer hrest
    split at h
    · rename_i hheld
      obtain ⟨p, hvalue, rfl⟩ := Option.map_eq_some_iff.1 h
      exact ⟨hanswer, .look hrest hheld hvalue⟩
    · cases h

namespace World

variable {s : Service} {u w : World} {e : Event} {history : List Event} {k : Nat} {r : Reader}
  {p : Published} {reference : Nat}

/-- What an event makes of the world. -/
inductive Step (w : World) : Event → World → Prop where
  | settle {e : Update.Event} {system : System} (hsame : system.published = w.service.published) :
      Step w (.update e) (w.withSystem system)
  | swap (e : Update.Event) (system : System) : Step w (.update e) (w.swap system)
  | arrive (program : Program Answer) :
      Step w (.arrive program) { w with readers := w.readers ++ [⟨program, program, [], none⟩] }
  | access {k : Nat} {r r' : Reader} (hr : w.readers[k]? = some r) (hopen : r.answer = none)
      (hnext : r.Next w r') : Step w (.access k) { w with readers := w.readers.set k r' }
  | free {reference : Nat} (hslot : reference ≠ w.slot)
      (hheld : ∀ r ∈ w.readers, reference ∉ r.held) :
      Step w (.free reference) { w with memory := w.memory.set reference none }

theorem step_of_step? (h : u.step? e = some w) : Step u e w := by
  cases e with
  | update e =>
      obtain ⟨system, hsystem, rfl⟩ := Option.map_eq_some_iff.1 h
      split
      · exact .swap e system
      · rename_i hno
        rcases (System.step_of_step? hsystem).published with ⟨hsame, -, -⟩ |
          ⟨id, now, -, -, -, rfl, -⟩
        · exact .settle hsame
        · exact absurd rfl hno
  | arrive program =>
      cases h
      exact .arrive program
  | access k =>
      obtain ⟨r, hr, h⟩ := Option.bind_eq_some_iff.1 h
      obtain ⟨r', hnext, rfl⟩ := Option.map_eq_some_iff.1 h
      obtain ⟨hopen, hnext⟩ := Reader.next_of_next? hnext
      exact .access hr hopen hnext
  | free reference =>
      rw [step?] at h
      split at h
      · cases h
      · rename_i hno
        cases h
        rw [not_or] at hno
        refine .free hno.1 fun r hr hheld => hno.2 ?_
        exact List.any_eq_true.2 ⟨r, hr, List.contains_iff_mem.2 hheld⟩

theorem run?_concat (h : w.run? (history ++ [e]) = some u) :
    ∃ v, w.run? history = some v ∧ Step v e u := by
  obtain ⟨v, hv, hstep⟩ := foldlM_concat_eq_some.1 h
  exact ⟨v, hv, step_of_step? hstep⟩

theorem run?_append {before after : List Event} (hbefore : w.run? before = some u) :
    w.run? (before ++ after) = u.run? after := by
  rw [run?, List.foldlM_append, ← run?, hbefore]
  rfl

/-! ## What is referred to is there -/

theorem lt_of_value? (h : w.value? reference = some p) : reference < w.memory.length := by
  obtain ⟨hlt, -⟩ := List.getElem?_eq_some_iff.1 (Option.join_eq_some_iff.1 h)
  exact hlt

theorem value?_append (h : w.value? reference = some p) (more : List (Option Published)) :
    ({ w with memory := w.memory ++ more } : World).value? reference = some p := by
  rw [value?, List.getElem?_append_left (lt_of_value? h)]
  exact h

/-- What the slot and the readers refer to is there. -/
structure Sound (w : World) : Prop where
  slot : w.value? w.slot = some w.service.published
  held : ∀ r ∈ w.readers, ∀ reference ∈ r.held, ∃ p, w.value? reference = some p

theorem sound_start (s : Service) : (start s).Sound :=
  ⟨rfl, nofun⟩

/-- An event leaves what a reader refers to as it is. -/
theorem Step.value?_of_held (h : Step u e w) (hr : r ∈ u.readers) (hheld : reference ∈ r.held)
    (hvalue : u.value? reference = some p) : w.value? reference = some p := by
  cases h with
  | settle | arrive | access => exact hvalue
  | swap e system => exact value?_append hvalue _
  | @free gone hslot hfree =>
      have hne : gone ≠ reference := by
        rintro rfl
        exact hfree r hr hheld
      rw [value?, List.getElem?_set_ne hne]
      exact hvalue

theorem Step.sound (h : Step u e w) (hsound : u.Sound) : w.Sound := by
  have hkept : ∀ r ∈ u.readers, ∀ reference ∈ r.held, ∃ p, w.value? reference = some p := by
    intro r hr reference hheld
    obtain ⟨p, hvalue⟩ := hsound.held r hr reference hheld
    exact ⟨p, h.value?_of_held hr hheld hvalue⟩
  cases h with
  | settle hsame => exact ⟨hsound.slot.trans (congrArg some hsame.symm), hkept⟩
  | swap e system => exact ⟨by simp [value?, World.swap, withSystem, Service.published], hkept⟩
  | arrive program =>
      refine ⟨hsound.slot, fun r hr => ?_⟩
      rcases List.mem_append.1 hr with hr | hr
      · exact hkept r hr
      · obtain rfl := List.mem_singleton.1 hr
        exact nofun
  | @access k r r' hr hopen hnext =>
      refine ⟨hsound.slot, fun q hq => ?_⟩
      have hmem := List.mem_of_getElem? hr
      rcases List.mem_or_eq_of_mem_set hq with hq | rfl
      · exact hkept q hq
      · cases hnext with
        | done => exact nofun
        | look => exact hkept r hmem
        | take =>
            intro reference hheld
            rcases List.mem_cons.1 hheld with rfl | hheld
            · exact ⟨_, hsound.slot⟩
            · exact hkept r hmem reference hheld
  | @free reference hslot hfree =>
      refine ⟨?_, hkept⟩
      rw [value?, List.getElem?_set_ne hslot]
      exact hsound.slot

theorem sound_of_run (h : (start s).run? history = some w) : w.Sound :=
  foldlM_induction (sound_start s) (fun hstep hsound => (step_of_step? hstep).sound hsound) h

/-! ## One reader -/

/-- At some moment of a history the service is in a state, and a reader has come by then
and has no answer yet. -/
def During (w : World) (history : List Event) (k : Nat) (s : Service) : Prop :=
  ∃ before after u r, history = before ++ after ∧ w.run? before = some u ∧
    u.readers[k]? = some r ∧ r.answer = none ∧ u.service = s

theorem During.concat (h : During w history k s) (e : Event) : During w (history ++ [e]) k s := by
  obtain ⟨before, after, u, r, rfl, hrun, hr, hopen, hs⟩ := h
  exact ⟨before, after ++ [e], u, r, List.append_assoc _ _ _, hrun, hr, hopen, hs⟩

/-- How far a reader has come whose answer is to be what `f` makes of one state. -/
inductive Account (f : Service → Answer) (during : Service → Prop) (w : World) : Reader → Prop where
  /-- It has done nothing yet. -/
  | fresh {program : Program Answer} (hwhole : program.Whole f) :
      Account f during w ⟨program, program, [], none⟩
  /-- It has taken its reference, and its answer is settled. -/
  | underway {r : Reader} {reference : Nat} {s : Service} (hduring : during s)
      (hheld : reference ∈ r.held) (hvalue : w.value? reference = some s.published)
      (hrest : r.rest.Through reference s.published (f s)) (hopen : r.answer = none) :
      Account f during w r
  | answered {r : Reader} {s : Service} (hduring : during s) (hanswer : r.answer = some (f s)) :
      Account f during w r

variable {f : Service → Answer} {during during' : Service → Prop} {r' : Reader}

/-- What does not move a reader leaves its account as it is. -/
theorem Account.carry (h : Account f during u r) (hduring : ∀ s, during s → during' s)
    (hkept : ∀ reference ∈ r.held, ∀ p, u.value? reference = some p →
      w.value? reference = some p) : Account f during' w r := by
  cases h with
  | fresh hwhole => exact .fresh hwhole
  | underway hs hheld hvalue hrest hopen =>
      exact .underway (hduring _ hs) hheld (hkept _ hheld _ hvalue) hrest hopen
  | answered hs hanswer => exact .answered (hduring _ hs) hanswer

/-- An access settles the answer or leaves it settled. -/
theorem Account.next (h : Account f during u r) (hnext : r.Next u r') (hopen : r.answer = none)
    (hslot : u.value? u.slot = some u.service.published) (hduring : ∀ s, during s → during' s)
    (hnow : during' u.service) (hkept : ∀ reference p, u.value? reference = some p →
      w.value? reference = some p) : Account f during' w r' := by
  cases h with
  | answered hs hanswer =>
      rw [hopen] at hanswer
      cases hanswer
  | @fresh program hwhole =>
      cases hnext with
      | look hrest hheld => cases hheld
      | done hrest =>
          obtain rfl : program = _ := hrest
          exact .answered hnow (congrArg some (hwhole _))
      | take hrest =>
          obtain rfl : program = _ := hrest
          exact .underway hnow List.mem_cons_self (hkept _ _ hslot) (hwhole _ _) rfl
  | @underway _ reference s hs hheld hvalue hrest _ =>
      cases hnext with
      | take htake =>
          -- what is left goes through the reference that it has
          rw [htake] at hrest
          cases hrest
      | done hdone =>
          rw [hdone] at hrest
          exact .answered (hduring _ hs) (congrArg some hrest)
      | @look reference' next p hlook _ hseen =>
          rw [hlook] at hrest
          obtain ⟨rfl, hrest⟩ := hrest
          obtain rfl : p = s.published := Option.some.inj (hseen.symm.trans hvalue)
          exact .underway (hduring _ hs) hheld (hkept _ _ hvalue) hrest hopen

theorem account_of_run (h : (start s).run? history = some w) (hr : w.readers[k]? = some r)
    (hwhole : r.program.Whole f) : Account f (During (start s) history k) w r := by
  induction history using List.reverseRecOn generalizing w r with
  | nil =>
      cases h
      cases hr
  | append_singleton history e ih =>
      obtain ⟨v, hrun, hstep⟩ := run?_concat h
      -- a reader that the event does not move
      have hcarry : v.readers[k]? = some r →
          Account f (During (start s) (history ++ [e]) k) w r := fun hv =>
        (ih hrun hv hwhole).carry (fun _ hs => hs.concat e) fun _ hheld _ hvalue =>
          hstep.value?_of_held (List.mem_of_getElem? hv) hheld hvalue
      cases hstep with
      | settle | swap | free => exact hcarry hr
      | arrive program =>
          rcases Nat.lt_or_ge k v.readers.length with hlt | hge
          · exact hcarry (by rwa [List.getElem?_append_left hlt] at hr)
          · rw [List.getElem?_append_right hge] at hr
            obtain rfl := List.mem_singleton.1 (List.mem_of_getElem? hr)
            exact .fresh hwhole
      | @access j q q' hq hopen hnext =>
          by_cases hj : j = k
          · subst hj
            obtain rfl : q' = r := by
              rw [List.getElem?_set_self (List.getElem?_eq_some_iff.1 hq).1] at hr
              exact Option.some.inj hr
            have hprogram : q'.program = q.program := by cases hnext <;> rfl
            refine (ih hrun hq (hprogram ▸ hwhole)).next hnext hopen (sound_of_run hrun).slot
              (fun _ hs => hs.concat _) ?_ fun _ _ hvalue => hvalue
            exact ⟨history, [_], v, q, rfl, hrun, hq, hopen, rfl⟩
          · exact hcarry (by rwa [List.getElem?_set_ne hj] at hr)

/-- A request for documents that has no answer yet can go on: what it looks at next is
there. -/
theorem access_isSome (h : (start s).run? history = some w) (hr : w.readers[k]? = some r)
    (hwhole : r.program.Whole f) (hopen : r.answer = none) :
    (w.step? (.access k)).isSome := by
  suffices hnext : (r.next? w.value? w.slot).isSome by
    obtain ⟨r', hr'⟩ := Option.isSome_iff_exists.1 hnext
    rw [step?, hr, Option.bind_some, hr']
    rfl
  cases account_of_run h hr hwhole with
  | answered _ hanswer =>
      rw [hopen] at hanswer
      cases hanswer
  | @fresh program hwhole =>
      cases program with
      | done x => rfl
      | take next => rfl
      | look reference next => cases hwhole
  | @underway _ reference s _ hheld hvalue hrest _ =>
      rw [Reader.next?, hopen]
      cases hleft : r.rest with
      | done x => rfl
      | take next =>
          rw [hleft] at hrest
          cases hrest
      | look reference' next =>
          rw [hleft] at hrest
          obtain ⟨rfl, -⟩ := hrest
          dsimp only
          rw [if_pos hheld, hvalue]
          rfl

/-! ## What is still referred to has not changed -/

/-- Memory has not lost a place, and what is still there is as it was. -/
def Keeps (u w : World) : Prop :=
  u.memory.length ≤ w.memory.length ∧
    ∀ reference < u.memory.length, w.value? reference = u.value? reference ∨
      w.value? reference = none

theorem Keeps.refl (w : World) : w.Keeps w :=
  ⟨Nat.le_refl _, fun _ _ => .inl rfl⟩

theorem Keeps.trans {v : World} (h : u.Keeps v) (h' : v.Keeps w) : u.Keeps w := by
  refine ⟨Nat.le_trans h.1 h'.1, fun reference hlt => ?_⟩
  rcases h'.2 reference (Nat.lt_of_lt_of_le hlt h.1) with hsame | hnone
  · rw [hsame]
    exact h.2 reference hlt
  · exact .inr hnone

theorem Step.keeps (h : Step u e w) : u.Keeps w := by
  cases h with
  | settle | arrive | access => exact .refl u
  | swap e system =>
      refine ⟨by simp [World.swap], fun reference hlt => .inl ?_⟩
      change (u.memory ++ [some system.published])[reference]?.join = _
      rw [List.getElem?_append_left hlt]
      rfl
  | @free gone hslot hfree =>
      refine ⟨by simp, fun reference hlt => ?_⟩
      by_cases hgone : gone = reference
      · subst hgone
        exact .inr (by simp [value?, hlt])
      · left
        rw [value?, List.getElem?_set_ne hgone]
        rfl

theorem keeps_of_run (h : u.run? history = some w) : u.Keeps w := by
  induction history using List.reverseRecOn generalizing w with
  | nil =>
      cases h
      exact .refl _
  | append_singleton history e ih =>
      obtain ⟨v, hrun, hstep⟩ := run?_concat h
      exact (ih hrun).trans hstep.keeps

/-- However events of updates and readers follow one another: a request for documents is
answered as one state of the service has it, in which the service was after the request
came and before it was answered. And what somebody refers to answers, as long as somebody
does, as it did before, a search in whatever order it goes over its maps. -/
theorem answered_from_one_state (h : (start s).run? history = some w) :
    (∀ k r request answer, w.readers[k]? = some r → r.program = Request.program request →
      r.answer = some answer →
        ∃ service, During (start s) history k service ∧ answer = request.answer service) ∧
    ∀ before after u, history = before ++ after → (start s).run? before = some u →
      ∀ reader ∈ u.readers, ∀ reader' ∈ w.readers, ∀ reference ∈ reader.held,
        reference ∈ reader'.held →
          ∃ p p', u.value? reference = some p ∧ w.value? reference = some p' ∧
            p'.snapshot.file? = p.snapshot.file? ∧
            p'.snapshot.fileNames = p.snapshot.fileNames ∧
            p'.snapshot.search = p.snapshot.search ∧
            ∀ orders, searchIn orders p'.snapshot = searchIn orders p.snapshot := by
  constructor
  · intro k r request answer hr hprogram hanswer
    have hwhole : r.program.Whole fun s => request.answer s := hprogram ▸ request.whole_program
    cases account_of_run h hr hwhole with
    | fresh => cases hanswer
    | underway _ _ _ _ hopen =>
        rw [hopen] at hanswer
        cases hanswer
    | answered hduring hsettled =>
        exact ⟨_, hduring, Option.some.inj (hanswer.symm.trans hsettled)⟩
  · rintro before after u rfl hbefore reader hreader reader' hreader' reference hheld hheld'
    obtain ⟨p, hp⟩ := (sound_of_run hbefore).held reader hreader reference hheld
    obtain ⟨p', hp'⟩ := (sound_of_run h).held reader' hreader' reference hheld'
    rw [run?_append hbefore] at h
    rcases (keeps_of_run h).2 reference (lt_of_value? hp) with hsame | hnone
    · obtain rfl : p = p' := Option.some.inj (hp.symm.trans (hsame.symm.trans hp'))
      exact ⟨p, p, hp, hp', rfl, rfl, rfl, fun _ => rfl⟩
    · rw [hnone] at hp'
      cases hp'

/-- A service in which an update is about to publish that no documents are left. -/
def aboutToPublish (documents : Snapshot) : Service :=
  { Service.offline [] with
    updates := { (Service.offline []).updates with
      system := { System.start (.ofSnapshot documents "a") with
        calls := [⟨0, .cleared "b" 0 .empty⟩] } } }

/-- A reader asks for the state of the server and takes its reference. -/
def untilTaken : List Event :=
  [.arrive Request.health.program, .access 0]

/-- The update publishes, and the reader reads what it refers to. -/
def fromSwap : List Event :=
  [.update (.act 0 (.publish ⟨0, 0⟩)), .access 0, .access 0]

/-- With a swap right behind the reference, the answer is that of the state before, and
the document that is no longer published is still there for the reader. -/
theorem answered_from_one_state_across_swap : ∃ documents,
    Snapshot.build System.shortTree = .ok documents ∧
    (∃ w, (start (aboutToPublish documents)).run? (untilTaken ++ fromSwap ++ [.access 0]) =
        some w ∧
      w.service.published.commit = "b" ∧
      ∃ service,
        During (start (aboutToPublish documents)) (untilTaken ++ fromSwap ++ [.access 0]) 0
          service ∧
        Request.health.answer (aboutToPublish documents) = Request.health.answer service) ∧
    ∃ u w p p', (start (aboutToPublish documents)).run? untilTaken = some u ∧
      (start (aboutToPublish documents)).run? (untilTaken ++ fromSwap) = some w ∧
      w.service.published.snapshot.fileNames = [] ∧
      u.value? 0 = some p ∧ w.value? 0 = some p' ∧
      p.snapshot.fileNames = ["a.md"] ∧ p'.snapshot.fileNames = p.snapshot.fileNames := by
  obtain ⟨documents, hdocuments⟩ := System.build_shortTree
  refine ⟨documents, hdocuments, ?_, ?_⟩
  · obtain ⟨w, hrun, hcommit, r, hr, hprogram, hanswer⟩ :
        ∃ w, (start (aboutToPublish documents)).run? (untilTaken ++ fromSwap ++ [.access 0]) =
            some w ∧
          w.service.published.commit = "b" ∧ ∃ r, w.readers[0]? = some r ∧
          r.program = Request.health.program ∧
          r.answer = some (Request.health.answer (aboutToPublish documents)) :=
      ⟨_, rfl, rfl, _, rfl, rfl, rfl⟩
    exact ⟨w, hrun, hcommit,
      (answered_from_one_state hrun).1 0 r .health _ hr hprogram hanswer⟩
  · obtain ⟨u, hu, hslot, reader, hreader, hheld⟩ :
        ∃ u, (start (aboutToPublish documents)).run? untilTaken = some u ∧
          u.value? 0 = some (.ofSnapshot documents "a") ∧
          ∃ reader ∈ u.readers, 0 ∈ reader.held :=
      ⟨_, rfl, rfl, _, List.mem_cons_self, List.mem_cons_self⟩
    obtain ⟨w, hw, hgone, reader', hreader', hheld'⟩ :
        ∃ w, (start (aboutToPublish documents)).run? (untilTaken ++ fromSwap) = some w ∧
          w.service.published.snapshot.fileNames = [] ∧
          ∃ reader ∈ w.readers, 0 ∈ reader.held :=
      ⟨_, rfl, rfl, _, List.mem_cons_self, List.mem_cons_self⟩
    obtain ⟨p, p', hp, hp', -, hnames, -⟩ := (answered_from_one_state hw).2 untilTaken fromSwap u
      rfl hu reader hreader reader' hreader' 0 hheld hheld'
    obtain rfl : p = .ofSnapshot documents "a" := Option.some.inj (hp.symm.trans hslot)
    have hnamed : documents.fileNames = ["a.md"] := Snapshot.fileNames_of_build hdocuments
    exact ⟨u, w, _, p', hu, hw, hgone, hp, hp', hnamed, hnames⟩

end World

end DocWatch.Readers
