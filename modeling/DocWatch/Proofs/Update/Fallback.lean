import DocWatch.Baseline
import DocWatch.Proofs.Remote.Refs
import DocWatch.Proofs.Update.Concurrent

/-!
# Starting without documents

Where the archive that comes with the program cannot be used, the program starts with no
documents and the empty commit, and the first update is meant to bring some. For that a branch must
never seem to stand at the empty commit, and three parts that know nothing of each other see to it:
the start gives the commit that is to be told from all others, a listing gives none but hashes, and
a call compares the two.

Nothing in this wears off. A cycle that fails publishes nothing, so the next one starts from the
empty commit as well, however many have failed. It is over when a call returns an update, and from
then on the published commit is a hash and there are documents.
-/

namespace DocWatch

theorem Baseline.startWith_of_load {f : Archive.Filter} {archive : Archive.Feed} {commit : String}
    {fault : Fault} (h : load f archive commit = .error fault) :
    startWith f archive commit = .nothing := by
  rw [startWith, h]

namespace Update

/-- All refs that a remote answers with in a history have been read from listings. -/
def FromListings (history : List Event) : Prop :=
  ∀ id refs, .act id (.listed (.ok refs)) ∈ history → ∃ listing, Refs.parse listing = .ok refs

namespace System

variable {c : Settings} {s t u w : System} {history before after : List Event} {id : Nat}

/-! ## What is published -/

/-- What is published is what it was at the start, or a listing gave its commit and an
archive its documents. -/
theorem source_of_run (idle : s.Idle) (h : s.run? c history = some t) :
    (publishers history = [] ∧ t.published = s.published) ∨
    ∃ id refs tree, .act id (.listed (.ok refs)) ∈ history ∧
      refs.latest c.branch = .ok t.published.commit ∧ tree.size ≠ 0 ∧
      Snapshot.build tree = .ok t.published.snapshot := by
  refine run?_induction (P := fun history t =>
    (publishers history = [] ∧ t.published = s.published) ∨
    ∃ id refs tree, .act id (.listed (.ok refs)) ∈ history ∧
      refs.latest c.branch = .ok t.published.commit ∧ tree.size ≠ 0 ∧
      Snapshot.build tree = .ok t.published.snapshot) (Or.inl ⟨rfl, rfl⟩) ?_ h
  intro history w e t hrun ih hstep
  replace hstep := step_of_step? hstep
  rcases hstep.published with
    ⟨hsame, -, hno⟩ | ⟨j, now, latest, files, snapshot, rfl, hcleared, -, hpub, -⟩
  · rw [publishers_concat_other hno, hsame]
    refine ih.imp_right ?_
    rintro ⟨id, refs, tree, hlisted, hsource⟩
    exact ⟨id, refs, tree, List.mem_append_left _ hlisted, hsource⟩
  · right
    rw [phase?, Option.map_eq_some_iff] at hcleared
    obtain ⟨call, hcall, hphase⟩ := hcleared
    have hcourse := (course_of_run idle hrun hcall).1
    rw [hphase] at hcourse
    obtain ⟨waits, refs, body, tree, -, hown, hlatest, htree, hsnapshot, -⟩ := hcourse.of_cleared
    have hlisted : .listed (.ok refs) ∈ actionsOf j history := by
      rw [hown]
      exact List.mem_append_right _ List.mem_cons_self
    rw [hpub]
    exact ⟨j, refs, tree, List.mem_append_left _ (mem_actionsOf.1 hlisted), hlatest,
      Archive.size_ne_zero_of_extract htree, hsnapshot⟩

/-- Behind an update the published commit is a hash, and there are documents. -/
theorem published_of_listings (idle : s.Idle) (h : s.run? c history = some t)
    (hrefs : FromListings history) (hsome : publishers history ≠ []) :
    Refs.isHash t.published.commit.toList = true ∧ 1 ≤ t.published.snapshot.size := by
  rcases source_of_run idle h with ⟨hnone, -⟩ |
    ⟨id, refs, tree, hlisted, hlatest, hsize, hsnapshot⟩
  · exact absurd hnone hsome
  · obtain ⟨listing, hparse⟩ := hrefs id refs hlisted
    rw [Snapshot.size_of_build hsnapshot]
    exact ⟨Refs.isHash_of_latest hparse hlatest, Nat.one_le_iff_ne_zero.2 hsize⟩

/-! ## What a call makes of a listing -/

/-- Before the first update no listing settles anything: an answer that has the branch
tells of another commit than the empty one. -/
theorem behind_nothing {listing : List Char} {refs : Refs} {latest : String}
    (hparse : Refs.parse listing = .ok refs) (hlatest : refs.latest c.branch = .ok latest) :
    Behind c Published.nothing.commit (.ok refs) :=
  ⟨refs, latest, rfl, hlatest, Refs.ne_empty_of_isHash (Refs.isHash_of_latest hparse hlatest)⟩

theorem Step.listed_fails {answer : Except Fault Refs} {fault : Fault}
    (h : Step c s (.act id (.listed answer)) t)
    (hfault : (answer.bind fun refs => refs.latest c.branch) = .error fault) :
    t.result? id = some (.error ⟨.checkingRemote, fault⟩) := by
  rw [result?_eq_some]
  cases h with
  | @act _ _ call phase effect hc hm =>
      rw [phase?_advance_self hc]
      generalize call.phase = p at hm
      cases hm with
      | settle hlatest | pursue hlatest =>
          have hok := hfault.symm.trans hlatest
          cases hok
      | fail hf =>
          cases hf with
          | listing hfault' =>
              rw [hfault] at hfault'
              cases hfault'
              rfl

/-- A call that has its listing while no documents are published asks for the archive,
or has failed with the listing. -/
theorem pursued_of_nothing {answer : Except Fault Refs} (idle : s.Idle)
    (h : s.run? c (before ++ .act id (.listed answer) :: after) = some t)
    (hrefs : FromListings (before ++ .act id (.listed answer) :: after))
    (hu : s.run? c before = some u) (hnothing : u.published = .nothing) :
    t.requestsOf id = [.refs, .archive c.archiveUrl] ∨
    ∃ fault, t.result? id = some (.error ⟨.checkingRemote, fault⟩) := by
  cases hlatest : answer.bind fun refs => refs.latest c.branch with
  | ok latest =>
      left
      cases answer with
      | error fault => cases hlatest
      | ok refs =>
          obtain ⟨listing, hparse⟩ := hrefs id refs (List.mem_append_right _ List.mem_cons_self)
          refine ((asksOnce_of_run idle h).listed before _ after u rfl hu).1 ?_
          rw [hnothing]
          exact behind_nothing hparse hlatest
  | error fault =>
      right
      have hrest := run?_rest hu h
      rw [run?] at hrest
      split at hrest
      · cases hrest
      · rename_i w hw
        exact ⟨fault, result?_of_run hrest ((step_of_step? hw).listed_fails hlatest)⟩

/-- Nothing counts as up to date before the first update. -/
theorem not_upToDate_of_nothing {commit : String} (idle : s.Idle)
    (h : s.run? c history = some t) (hrefs : FromListings history)
    (hs : s.published = .nothing) (hno : publishers history = []) :
    t.result? id ≠ some (.ok (.upToDate commit)) := by
  refine run?_induction (P := fun history t => FromListings history → publishers history = [] →
    t.result? id ≠ some (.ok (.upToDate commit))) ?_ ?_ h hrefs hno
  · intro _ _ hr
    rw [result?_eq_some, idle.phase?] at hr
    cases hr
  · intro history w e t hrun ih hstep hrefs hno hr
    rw [publishers_append, List.append_eq_nil_iff] at hno
    rcases (step_of_step? hstep).of_phase? (result?_eq_some.1 hr) with ⟨hw, -⟩ | ⟨-, hwait, -⟩ |
      ⟨a, call, effect, rfl, hphase, hm⟩
    · exact ih (fun id refs hlisted => hrefs id refs (List.mem_append_left _ hlisted)) hno.1
        (result?_eq_some.2 hw)
    · cases hwait
    · generalize call.phase = p at hphase hm
      cases hm with
      | @settle tracked refs hlatest =>
          -- The commit that it tracks is the published one, which is empty.
          have htracked : commit = w.published.commit := fresh_of_run idle hrun hphase
          rw [published_of_no_publisher hrun hno.1, hs] at htracked
          obtain ⟨listing, hparse⟩ :=
            hrefs id refs (List.mem_append_right _ (List.mem_singleton.2 rfl))
          exact Refs.ne_empty_of_isHash (Refs.isHash_of_latest hparse hlatest) htracked

/-- A program that could not use its archive, whatever the branch it follows, whatever its
filter lets through and whatever listings say: as long as no call has returned an update,
nothing is published, no call has found that there is nothing new, and every call that has got
its listing has asked for the archive or failed at that stage. Once a call has returned an update,
the published commit is a hash and there are documents. -/
theorem fetches_until_updated {f : Archive.Filter} {archive : Archive.Feed} {commit : String}
    {fault : Fault} (hfell : Baseline.load f archive commit = .error fault) (idle : s.Idle)
    (hs : s.published = Baseline.startWith f archive commit)
    (h : s.run? c history = some t) (hrefs : FromListings history) :
    (t.NoneUpdated → t.published = .ofSnapshot .empty "" ∧
      ∀ id commit, t.result? id ≠ some (.ok (.upToDate commit))) ∧
    (∀ id before answer after u, history = before ++ .act id (.listed answer) :: after →
      s.run? c before = some u → u.NoneUpdated →
      t.requestsOf id = [.refs, .archive c.archiveUrl] ∨
      ∃ fault, t.result? id = some (.error ⟨.checkingRemote, fault⟩)) ∧
    (¬ t.NoneUpdated →
      Refs.isHash t.published.commit.toList = true ∧ 1 ≤ t.published.snapshot.size) := by
  rw [Baseline.startWith_of_load hfell] at hs
  refine ⟨fun hnone => ?_, ?_, fun hsome => ?_⟩
  · have hno := (noneUpdated_iff idle h).1 hnone
    exact ⟨(published_of_no_publisher h hno).trans hs,
      fun id commit => not_upToDate_of_nothing idle h hrefs hs hno⟩
  · rintro id before answer after u rfl hu hnone
    have hno := (noneUpdated_iff idle hu).1 hnone
    exact pursued_of_nothing idle h hrefs hu ((published_of_no_publisher hu hno).trans hs)
  · exact published_of_listings idle h hrefs fun hno => hsome ((noneUpdated_iff idle h).2 hno)

def printedRefs : List Char :=
  "b0\trefs/heads/main\n\nc1\trefs/heads/next\n".toList

theorem parse_printedRefs :
    Refs.parse printedRefs = .ok [("refs/heads/main", "b0"), ("refs/heads/next", "c1")] := by
  decide +kernel

/-- A complaint in the place of the refs fails the first call, and the second one asks. -/
def complaintFirst : List Event :=
  [.call 0, .act 0 .look, .act 0 .acquire,
    .act 0 (.listed (.error (.remoteQuery (.lineWithoutTab "fatal: not found")))), .call 0,
    .act 1 .look, .act 1 .acquire]

/-- The second call goes its way to the end. -/
def thenUpdated : List Event :=
  [.act 1 (.listed (.ok [("refs/heads/main", "b0"), ("refs/heads/next", "c1")])),
    .act 1 (.fetched (.ok Archive.shortArchive)), .act 1 (.extracted none), .act 1 .built,
    .act 1 .look, .act 1 (.publish ⟨0, 0⟩)]

theorem fromListings_thenUpdated : FromListings (complaintFirst ++ thenUpdated) := by
  intro id refs hlisted
  simp only [complaintFirst, thenUpdated, List.cons_append, List.nil_append, List.mem_cons,
    List.not_mem_nil, Event.act.injEq, Action.listed.injEq, Except.ok.injEq, reduceCtorEq,
    and_false, or_false, false_or] at hlisted
  obtain ⟨-, rfl⟩ := hlisted
  exact ⟨printedRefs, parse_printedRefs⟩

theorem run_thenUpdated : ∃ t, (System.start (Baseline.initial .standard)).run? .ofMain
    (complaintFirst ++ thenUpdated) = some t ∧
    t.result? 1 = some (.ok (.updated "" "b0" shortTree.size)) := by
  obtain ⟨snapshot, hsnapshot⟩ := build_shortTree
  obtain ⟨u, hu, hcall, hlook, hcommit⟩ : ∃ u,
      (System.start (Baseline.initial .standard)).run? .ofMain
        (complaintFirst ++ thenUpdated.take 2) = some u ∧
      u.calls[1]? = some ⟨0, .extracting "b0" Archive.shortArchive⟩ ∧
      u.isCancelled 0 = false ∧ u.published.commit = "" :=
    ⟨_, rfl, rfl, rfl, rfl⟩
  obtain ⟨t, ht, -, hr, -⟩ := publishes_of_body ⟨0, 0⟩ hcall hlook extract_shortTree hsnapshot
  have hsplit : complaintFirst ++ thenUpdated =
      (complaintFirst ++ thenUpdated.take 2) ++ thenUpdated.drop 2 :=
    rfl
  rw [hcommit] at hr
  rw [hsplit]
  exact ⟨t, run?_append_eq_some.2 ⟨u, hu, ht⟩, hr⟩

theorem fetches_until_updated_after_complaint : ∃ fault t,
    Baseline.load .standard Baseline.archive Baseline.commit = .error fault ∧
    (System.start (Baseline.initial .standard)).run? .ofMain
      (complaintFirst ++ thenUpdated) = some t ∧
    t.result? 1 = some (.ok (.updated "" "b0" 1)) ∧
    (t.requestsOf 1 = [.refs, .archive "https://host/main.tar.gz"] ∨
      ∃ fault, t.result? 1 = some (.error ⟨.checkingRemote, fault⟩)) ∧
    Refs.isHash t.published.commit.toList = true ∧ 1 ≤ t.published.snapshot.size := by
  obtain ⟨fault, hfell⟩ : ∃ fault,
      Baseline.load .standard Baseline.archive Baseline.commit = .error fault :=
    ⟨_, rfl⟩
  obtain ⟨t, ht, hr⟩ := run_thenUpdated
  obtain ⟨u, hu⟩ : ∃ u,
      (System.start (Baseline.initial .standard)).run? .ofMain complaintFirst = some u :=
    ⟨_, rfl⟩
  obtain ⟨-, hpursued, hupdated⟩ :=
    fetches_until_updated hfell (idle_start _) rfl ht fromListings_thenUpdated
  refine ⟨fault, t, hfell, ht, hr, ?_, hupdated fun hnone => hnone 1 _ _ _ hr⟩
  exact hpursued 1 complaintFirst _ _ u rfl hu ((noneUpdated_iff (idle_start _) hu).2 rfl)

end System
end Update
end DocWatch
