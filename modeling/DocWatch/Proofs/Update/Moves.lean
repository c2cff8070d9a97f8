import DocWatch.Update.System

/-!
# What one event can do

Every law of the update follows from what a single event can do, and this file
says that once. `Move` lists the ways in which a call goes on, with the guard of
each and its effect on the system; `Fails` lists the ways in which a turn ends
with a fault. `Step` lifts them to the system, where a call is the only one that
an action moves.

Two facts carry nearly all that follows. A call comes to its turn in one way
only, by reaching for it while nobody has it. And what is published changes in
one way only, by a call that has been cleared, which then returns at once.
-/

namespace DocWatch.Update

/-- The ways in which a turn ends with a fault, by the phase that it ends in. -/
inductive Phase.Fails (c : Settings) (v : Sight) :
    Phase → Action → Stage → Fault → Prop where
  | listing {tracked : String} {answer : Except Fault Refs} {fault : Fault}
      (h : (answer.bind fun refs => refs.latest c.branch) = .error fault) :
      Fails c v (.listing tracked) (.listed answer) .checkingRemote fault
  | fetching {latest : String} {fault : Fault} :
      Fails c v (.fetching latest) (.fetched (.error fault)) .downloading fault
  | extracting {latest : String} {body : Archive.Feed} {cut : Option Nat}
      {fault : Fault} (early : cut.isSome → v.cancelled = true)
      (h : Archive.extract c.filter (body.cutAt cut) = .error fault) :
      Fails c v (.extracting latest body) (.extracted cut) (stageOf fault) fault
  | timedOut {latest : String} {body : Archive.Feed} :
      Fails c v (.extracting latest body) .timedOut .downloading
        (timeoutFault c.timeoutMillis)
  | interrupted {latest : String} {body : Archive.Feed}
      (h : v.cancelled = true) :
      Fails c v (.extracting latest body) .interrupted .downloading .cancelled
  | extractionCrashed {latest : String} {body : Archive.Feed} {why : String} :
      Fails c v (.extracting latest body) (.crashed why) .extracting
        (.malformedArchive (.unreadable ("extraction task failed: " ++ why)))
  | indexing {latest : String} {tree : Tree} {fault : Fault}
      (h : Snapshot.build tree = .error fault) :
      Fails c v (.indexing latest tree) .built .indexing fault
  | indexingCrashed {latest : String} {tree : Tree} {why : String} :
      Fails c v (.indexing latest tree) (.crashed why) .indexing
        (.indexBuild (.stated ("indexing task failed: " ++ why)))
  | publishing {latest : String} {files : Nat} {snapshot : Snapshot}
      (h : v.cancelled = true) :
      Fails c v (.publishing latest files snapshot) .look .publishing .cancelled

/-- The ways in which a call goes on, each with its effect. -/
inductive Phase.Move (c : Settings) (v : Sight) :
    Phase → Action → Phase → Effect → Prop where
  | giveUp (h : v.cancelled = true) :
      Move c v .waiting .look
        (.returned (.error ⟨.checkingRemote, .cancelled⟩)) .nothing
  | look (h : v.cancelled = false) : Move c v .waiting .look .ready .nothing
  | wait (h : v.busy = true) : Move c v .ready .acquire .waiting .nothing
  | acquire (h : v.busy = false) :
      Move c v .ready .acquire (.listing v.commit) (.request .refs)
  | settle {tracked : String} {refs : Refs}
      (h : refs.latest c.branch = .ok tracked) :
      Move c v (.listing tracked) (.listed (.ok refs))
        (.returned (.ok (.upToDate tracked))) .nothing
  | pursue {tracked latest : String} {refs : Refs}
      (h : refs.latest c.branch = .ok latest) (hne : latest ≠ tracked) :
      Move c v (.listing tracked) (.listed (.ok refs)) (.fetching latest)
        (.request (.archive c.archiveUrl))
  | receive {latest : String} {body : Archive.Feed} :
      Move c v (.fetching latest) (.fetched (.ok body)) (.extracting latest body)
        .nothing
  | extract {latest : String} {body : Archive.Feed} {cut : Option Nat}
      {tree : Tree} (early : cut.isSome → v.cancelled = true)
      (h : Archive.extract c.filter (body.cutAt cut) = .ok tree) :
      Move c v (.extracting latest body) (.extracted cut) (.indexing latest tree)
        .nothing
  | build {latest : String} {tree : Tree} {snapshot : Snapshot}
      (h : Snapshot.build tree = .ok snapshot) :
      Move c v (.indexing latest tree) .built
        (.publishing latest tree.size snapshot) .nothing
  | clear {latest : String} {files : Nat} {snapshot : Snapshot}
      (h : v.cancelled = false) :
      Move c v (.publishing latest files snapshot) .look
        (.cleared latest files snapshot) .nothing
  | publish {latest : String} {files : Nat} {snapshot : Snapshot}
      {now : Time.Instant} :
      Move c v (.cleared latest files snapshot) (.publish now)
        (.returned (.ok (.updated v.commit latest files)))
        (.publication ⟨snapshot, latest, some now⟩)
  | fail {phase : Phase} {action : Action} {stage : Stage} {fault : Fault}
      (h : Fails c v phase action stage fault) :
      Move c v phase action (.returned (.error ⟨stage, fault⟩)) .failure
  | drop {phase : Phase} (h : phase.awaits = true) :
      Move c v phase .drop .dropped .nothing

namespace Phase

variable {c : Settings} {v : Sight} {p p' : Phase} {a : Action} {e : Effect}

theorem move_of_listed {tracked : String} {answer : Except Fault Refs}
    (h : listed c tracked answer = (p', e)) :
    Move c v (.listing tracked) (.listed answer) p' e := by
  unfold listed at h
  split at h
  · rename_i fault hfault
    cases h
    exact .fail (.listing hfault)
  · rename_i latest hlatest
    cases answer with
    | error fault => cases hlatest
    | ok refs =>
        split at h
        · rename_i hsame
          subst hsame
          cases h
          exact .settle hlatest
        · rename_i hnew
          cases h
          exact .pursue hlatest hnew

theorem move_of_fetched {latest : String} {answer : Except Fault Archive.Feed}
    (h : fetched latest answer = (p', e)) :
    Move c v (.fetching latest) (.fetched answer) p' e := by
  cases answer with
  | error fault => cases h; exact .fail .fetching
  | ok body => cases h; exact .receive

theorem move_of_extracted {latest : String} {body : Archive.Feed}
    {cut : Option Nat} (early : cut.isSome → v.cancelled = true)
    (h : extracted latest (Archive.extract c.filter (body.cutAt cut)) = (p', e)) :
    Move c v (.extracting latest body) (.extracted cut) p' e := by
  cases hx : Archive.extract c.filter (body.cutAt cut) with
  | error fault =>
      rw [hx] at h
      cases h
      exact .fail (.extracting early hx)
  | ok tree =>
      rw [hx] at h
      cases h
      exact .extract early hx

theorem move_of_built {latest : String} {tree : Tree}
    (h : built latest tree = (p', e)) :
    Move c v (.indexing latest tree) .built p' e := by
  unfold built at h
  split at h
  · rename_i fault hfault
    cases h
    exact .fail (.indexing hfault)
  · rename_i snapshot hsnapshot
    cases h
    exact .build hsnapshot

theorem move_of_next? (h : p.next? c v a = some (p', e)) : Move c v p a p' e := by
  unfold next? at h
  split at h
  · split at h <;> rename_i hc <;> cases h
    · exact .giveUp hc
    · exact .look (by simpa using hc)
  · split at h <;> rename_i hb <;> cases h
    · exact .wait hb
    · exact .acquire (by simpa using hb)
  · exact move_of_listed (Option.some.inj h)
  · exact move_of_fetched (Option.some.inj h)
  · split at h <;> rename_i hcut
    · cases h
    · refine move_of_extracted (fun hsome => ?_) (Option.some.inj h)
      simpa [hsome] using hcut
  · cases h
    exact .fail .timedOut
  · split at h <;> rename_i hc <;> cases h
    exact .fail (.interrupted hc)
  · cases h
    exact .fail .extractionCrashed
  · exact move_of_built (Option.some.inj h)
  · cases h
    exact .fail .indexingCrashed
  · split at h <;> rename_i hc <;> cases h
    · exact .fail (.publishing hc)
    · exact .clear (by simpa using hc)
  · cases h
    exact .publish
  · split at h <;> rename_i ha <;> cases h
    exact .drop ha
  · cases h

theorem Fails.hasTurn {stage : Stage} {fault : Fault}
    (h : Fails c v p a stage fault) : p.hasTurn = true := by
  cases h <;> rfl

theorem Move.turn_before (h : Move c v p a p' e) (ht : p'.hasTurn = true) :
    p.hasTurn = true ∨ (p = .ready ∧ a = .acquire ∧ v.busy = false) := by
  cases h with
  | acquire hb => exact Or.inr ⟨rfl, rfl, hb⟩
  | giveUp | look | wait | settle | publish | fail | drop => cases ht
  | pursue | receive | extract | build | clear => exact Or.inl rfl

/-- A call goes no further. -/
def ended : Phase → Bool
  | .returned _ | .dropped => true
  | _ => false

theorem hasTurn_of_ended (h : p.ended = true) : p.hasTurn = false := by
  cases p <;> first | rfl | cases h

theorem Move.not_ended (h : Move c v p a p' e) : p.ended = false := by
  cases h with
  | fail hf => cases hf <;> rfl
  | drop ha => cases p <;> first | rfl | cases ha
  | _ => rfl

theorem Move.turn_after (h : Move c v p a p' e) (ht : p.hasTurn = true) :
    p'.hasTurn = true ∨ p'.ended = true := by
  cases h with
  | giveUp | look | wait | acquire => cases ht
  | settle | publish | fail | drop => exact Or.inr rfl
  | pursue | receive | extract | build | clear => exact Or.inl rfl

theorem Move.publication {next : Published}
    (h : Move c v p a p' (.publication next)) :
    ∃ latest files snapshot now,
      p = .cleared latest files snapshot ∧ a = .publish now ∧
      p' = .returned (.ok (.updated v.commit latest files)) ∧
      next = ⟨snapshot, latest, some now⟩ := by
  cases h with
  | publish => exact ⟨_, _, _, _, rfl, rfl, rfl, rfl⟩

theorem Move.of_publish {now : Time.Instant} (h : Move c v p (.publish now) p' e) :
    ∃ latest files snapshot,
      p = .cleared latest files snapshot ∧
      p' = .returned (.ok (.updated v.commit latest files)) ∧
      e = .publication ⟨snapshot, latest, some now⟩ := by
  cases h with
  | publish => exact ⟨_, _, _, rfl, rfl, rfl⟩
  | fail hf => cases hf

end Phase

/-! ## The system

An action moves one call and leaves the others where they are; a further call
takes the next number. -/

namespace System

variable {c : Settings} {s t : System}

/-- What an event makes of a system. -/
inductive Step (c : Settings) (s : System) : Event → System → Prop where
  | call (token : Nat) :
      Step c s (.call token) { s with calls := s.calls ++ [⟨token, .waiting⟩] }
  | cancel (token : Nat) :
      Step c s (.cancel token) { s with cancelled := token :: s.cancelled }
  | act {id : Nat} {action : Action} {call : Call} {phase : Phase}
      {effect : Effect} (hc : s.calls[id]? = some call)
      (hm : call.phase.Move c (s.sight call) action phase effect) :
      Step c s (.act id action) (s.advance id call phase effect)

theorem step_of_step? {e : Event} (h : s.step? c e = some t) : Step c s e t := by
  cases e with
  | call token => cases h; exact .call token
  | cancel token => cases h; exact .cancel token
  | act id action =>
      simp only [step?, act?] at h
      split at h
      · cases h
      · rename_i call hc
        split at h
        · cases h
        · rename_i phase effect hn
          cases h
          exact .act hc (Phase.move_of_next? hn)

def HasTurn (s : System) (id : Nat) : Prop :=
  ∃ phase, s.phase? id = some phase ∧ phase.hasTurn = true

theorem phase?_of_getElem? {id : Nat} {call : Call}
    (h : s.calls[id]? = some call) : s.phase? id = some call.phase := by
  rw [phase?, h]
  rfl

theorem HasTurn.hasTurn {id : Nat} {p : Phase} (h : s.HasTurn id)
    (hp : s.phase? id = some p) : p.hasTurn = true := by
  obtain ⟨phase, hphase, ht⟩ := h
  rw [hp] at hphase
  cases hphase
  exact ht

theorem busy_eq_false_iff : s.busy = false ↔ ∀ id, ¬ s.HasTurn id := by
  rw [busy, List.any_eq_false]
  constructor
  · rintro h id ⟨phase, hp, ht⟩
    rw [phase?, Option.map_eq_some_iff] at hp
    obtain ⟨call, hc, rfl⟩ := hp
    exact h call (List.mem_of_getElem? hc) ht
  · intro h call hmem ht
    obtain ⟨id, hc⟩ := List.getElem?_of_mem hmem
    exact h id ⟨call.phase, phase?_of_getElem? hc, ht⟩

theorem phase?_advance_self {id : Nat} {call : Call} {phase : Phase}
    {effect : Effect} (h : s.calls[id]? = some call) :
    (s.advance id call phase effect).phase? id = some phase := by
  obtain ⟨hlt, -⟩ := List.getElem?_eq_some_iff.1 h
  simp [phase?, advance, hlt]

theorem step?_of_next? {id : Nat} {a : Action} {call : Call} {phase : Phase}
    {effect : Effect} (hc : s.calls[id]? = some call)
    (h : call.phase.next? c (s.sight call) a = some (phase, effect)) :
    s.step? c (.act id a) = some (s.advance id call phase effect) := by
  simp only [step?, act?, hc, h]

end System
end DocWatch.Update
