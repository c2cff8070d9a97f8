import DocWatch.Proofs.Table
import DocWatch.Tree

/-!
# What a tree of documents keeps

The number of bytes that a tree carries with it is brought up to date with every
document that is put in, and never computed afresh. `Sound` says that it is the
right one all along. A document that takes the place of another gives back the
bytes of the other, which are among those counted, so nothing is ever taken from
a number that is too small.
-/

namespace DocWatch.Tree

variable {t : Tree} {path : String}

/-- The bytes of all documents, counted anew. -/
def held (t : Tree) : Nat :=
  total (t.files.map fun row => row.2.length)

/-- Each path once and in order, and the right number of bytes. -/
structure Sound (t : Tree) : Prop where
  ascending : t.files.Ascending
  totalBytes_eq : t.totalBytes = t.held

theorem sound_empty : Sound empty where
  ascending := Table.ascending_nil
  totalBytes_eq := rfl

theorem mem_paths_insert {d : Document} :
    path ∈ (t.insert d).paths ↔ path = d.path ∨ path ∈ t.paths :=
  Table.mem_keys_alter

theorem length_paths (t : Tree) : t.paths.length = t.size :=
  List.length_map _

theorem size_insert_le {d : Document} : (t.insert d).size ≤ t.size + 1 :=
  Table.length_alter_le

/-- The document that another one replaces is among those that are held. -/
theorem replaced_le_held : ((t.get? path).map List.length).getD 0 ≤ t.held := by
  cases hget : t.get? path with
  | none => exact Nat.zero_le _
  | some data => exact Table.le_total_of_get? List.length hget

namespace Sound

variable {d : Document}

theorem get?_insert (h : t.Sound) :
    (t.insert d).get? path = if path = d.path then some d.data else t.get? path :=
  h.ascending.get?_alter

theorem held_insert (h : t.Sound) :
    (t.insert d).held + ((t.get? d.path).map List.length).getD 0 =
      t.held + d.data.length :=
  h.ascending.total_alter List.length

theorem insert (h : t.Sound) (d : Document) : (t.insert d).Sound where
  ascending := h.ascending.alter
  totalBytes_eq := by
    have hheld := h.held_insert (d := d)
    have hle : ((t.get? d.path).map List.length).getD 0 ≤ t.held := replaced_le_held
    -- What is given back was counted, so the difference is a true one.
    have htotal : (t.insert d).totalBytes =
        t.totalBytes - ((t.get? d.path).map List.length).getD 0 + d.data.length := rfl
    rw [htotal, h.totalBytes_eq]
    omega

theorem held_insert_le (h : t.Sound) :
    (t.insert d).held ≤ t.held + d.data.length := by
  have := h.held_insert (d := d)
  omega

/-- What an insertion replaces is never more than what has been counted. -/
theorem replaced_le (h : t.Sound) (path : String) :
    ((t.get? path).map List.length).getD 0 ≤ t.totalBytes := by
  rw [h.totalBytes_eq]
  exact replaced_le_held

theorem nodup_paths (h : t.Sound) : t.paths.Nodup :=
  h.ascending.nodup_keys

theorem mem_documents_iff (h : t.Sound) : d ∈ t.documents ↔ t.get? d.path = some d.data := by
  rw [get?, h.ascending.get?_eq_some_iff, documents, List.mem_map]
  constructor
  · intro hd
    obtain ⟨row, hrow, rfl⟩ := hd
    exact hrow
  · intro hrow
    exact ⟨_, hrow, rfl⟩

/-- Sound trees have one way to hold the same contents. -/
theorem eq_of_get? {t' : Tree} (h : t.Sound) (h' : t'.Sound)
    (hget : ∀ path, t.get? path = t'.get? path) : t = t' := by
  have hfiles : t.files = t'.files := by
    refine h.ascending.eq_of_mem_iff h'.ascending fun row => ?_
    rw [← h.ascending.get?_eq_some_iff, ← h'.ascending.get?_eq_some_iff]
    exact iff_of_eq (congrArg (· = some row.2) (hget row.1))
  have hbytes : t.totalBytes = t'.totalBytes := by
    rw [h.totalBytes_eq, h'.totalBytes_eq, held, held, hfiles]
  cases t
  cases t'
  exact congrArg₂ Tree.mk hfiles hbytes

/-- A tree is known by its documents. -/
theorem documents_eq {t' : Tree} (h : t.Sound) (h' : t'.Sound)
    (hmem : ∀ d, d ∈ t.documents ↔ d ∈ t'.documents) : t.documents = t'.documents := by
  refine congrArg documents (h.eq_of_get? h' fun path => Option.ext fun data => ?_)
  have hdocument := hmem ⟨path, data⟩
  rwa [h.mem_documents_iff, h'.mem_documents_iff] at hdocument

end Sound

theorem sound_ofDocuments (ds : List Document) : (ofDocuments ds).Sound := by
  induction ds using List.reverseRecOn with
  | nil => exact sound_empty
  | append_singleton ds d ih =>
      rw [ofDocuments, List.foldl_append]
      exact ih.insert d

end DocWatch.Tree
