import DocWatch.Proofs.Tree
import DocWatch.Snapshot
import Mathlib.Algebra.GroupWithZero.Nat

/-!
# What is left of a sequence of insertions

A tree is made by insertions one after the other, and what can be seen of them in the end
is what came last under each path. Neither the order of different paths nor anything that
was replaced leaves a trace: the files are sorted, so there is one way to hold them, and
the number of bytes, though it is only ever adjusted, is the right one for the files after
every insertion. So two sequences that agree on what came last give one and the same tree,
and whatever is computed from it is the same too.
-/

namespace DocWatch.Tree

variable {ds ds' : List Document} {path : String}

/-- The contents that were put last under a path. -/
def lastData (ds : List Document) (path : String) : Option Bytes :=
  (ds.filter fun d => d.path = path).getLast?.map Document.data

theorem lastData_concat (ds : List Document) (d : Document) (path : String) :
    lastData (ds ++ [d]) path = if path = d.path then some d.data else lastData ds path := by
  rw [lastData, List.filter_append]
  split
  · rename_i hpath
    simp [hpath]
  · rename_i hpath
    simp [lastData, Ne.symm hpath]

theorem ofDocuments_concat (ds : List Document) (d : Document) :
    ofDocuments (ds ++ [d]) = (ofDocuments ds).insert d := by
  rw [ofDocuments, List.foldl_append]
  rfl

theorem get?_ofDocuments (ds : List Document) (path : String) :
    (ofDocuments ds).get? path = lastData ds path := by
  induction ds using List.reverseRecOn with
  | nil => rfl
  | append_singleton ds d ih =>
      rw [ofDocuments_concat, (sound_ofDocuments ds).get?_insert, lastData_concat, ih]

theorem mem_paths_ofDocuments : path ∈ (ofDocuments ds).paths ↔ path ∈ ds.map Document.path := by
  induction ds using List.reverseRecOn with
  | nil => rfl
  | append_singleton ds d ih =>
      rw [ofDocuments_concat, mem_paths_insert, ih, List.map_append, List.mem_append, or_comm]
      simp

theorem held_eq_sum (t : Tree) : t.held = (t.documents.map fun d => d.data.length).sum := by
  rw [held, documents, List.map_map]
  rfl

theorem ofDocuments_eq_iff :
    ofDocuments ds = ofDocuments ds' ↔ ∀ path, lastData ds path = lastData ds' path := by
  constructor
  · intro h path
    rw [← get?_ofDocuments, ← get?_ofDocuments, h]
  · intro h
    refine (sound_ofDocuments ds).eq_of_get? (sound_ofDocuments ds') fun path => ?_
    rw [get?_ofDocuments, get?_ofDocuments, h path]

/-- A tree holds what came last under each path that was given, in order of path. Its bytes
are counted right after every insertion, and what one replaces can be taken from them. Two
sequences of insertions that agree on what came last give the same tree and the same
snapshot. -/
theorem last_insertions_kept (ds : List Document) :
    (ofDocuments ds).paths.Pairwise (· < ·) ∧
    (∀ path, path ∈ (ofDocuments ds).paths ↔ path ∈ ds.map Document.path) ∧
    (∀ path, (ofDocuments ds).get? path = lastData ds path) ∧
    (∀ n, (ofDocuments (ds.take n)).totalBytes =
      ((ofDocuments (ds.take n)).documents.map fun d => d.data.length).sum) ∧
    (∀ n d, ds[n]? = some d → (((ofDocuments (ds.take n)).get? d.path).map List.length).getD 0 ≤
      (ofDocuments (ds.take n)).totalBytes) ∧
    ∀ ds', (∀ path, lastData ds path = lastData ds' path) →
      ofDocuments ds = ofDocuments ds' ∧
      Snapshot.build (ofDocuments ds) = Snapshot.build (ofDocuments ds') ∧
      ∀ s s', Snapshot.build (ofDocuments ds) = .ok s → Snapshot.build (ofDocuments ds') = .ok s' →
        s = s' ∧ s.fingerprint = s'.fingerprint := by
  refine ⟨(sound_ofDocuments ds).ascending, fun path => mem_paths_ofDocuments,
    get?_ofDocuments ds, fun n => ?_, fun n d _ => (sound_ofDocuments _).replaced_le d.path,
    fun ds' hlast => ?_⟩
  · rw [(sound_ofDocuments _).totalBytes_eq, held_eq_sum]
  · have htree := ofDocuments_eq_iff.2 hlast
    refine ⟨htree, by rw [htree], fun s s' hs hs' => ?_⟩
    rw [htree, hs', Except.ok.injEq] at hs
    exact ⟨hs.symm, by rw [hs]⟩

/-- A document that is put in, followed by another one, and put in again. -/
def revised : List Document :=
  [⟨"b.md", Text.encode "draft".toList⟩, ⟨"a.md", Text.encode "one".toList⟩,
    ⟨"b.md", Text.encode "two".toList⟩]

/-- The documents that are left of it. -/
def final : List Document :=
  [⟨"a.md", Text.encode "one".toList⟩, ⟨"b.md", Text.encode "two".toList⟩]

theorem last_insertions_kept_of_revised :
    (((ofDocuments (revised.take 2)).get? "b.md").map List.length).getD 0 ≤
      (ofDocuments (revised.take 2)).totalBytes ∧
    ofDocuments revised = ofDocuments final ∧
    ∃ s, Snapshot.build (ofDocuments revised) = .ok s ∧
      Snapshot.build (ofDocuments final) = .ok s := by
  obtain ⟨-, -, -, -, hreplaced, hsame⟩ := last_insertions_kept revised
  have hlast : ∀ path, lastData revised path = lastData final path := by
    intro path
    by_cases ha : "a.md" = path
    · subst ha
      rfl
    · by_cases hb : "b.md" = path
      · subst hb
        rfl
      · simp [lastData, revised, final, ha, hb]
  obtain ⟨htree, hbuild, -⟩ := hsame final hlast
  obtain ⟨s, hs⟩ : ∃ s, Snapshot.build (ofDocuments final) = .ok s :=
    Snapshot.exists_build (by decide +kernel)
  exact ⟨hreplaced 2 _ rfl, htree, s, hbuild.trans hs, hs⟩

end DocWatch.Tree
