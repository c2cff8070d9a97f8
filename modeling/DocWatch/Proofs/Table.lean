import Mathlib.Data.List.Induction
import Mathlib.Data.List.Nodup
import Mathlib.Data.List.Perm.Basic
import Mathlib.Data.String.Basic
import DocWatch.Table
import DocWatch.Total

/-!
# The laws of tables

A table that starts empty and is only changed by its operations has its keys in
strictly ascending order. On such a table, changing the value under one key
changes what is found under that key and nothing else, and adds no key but that
one. The order is what makes the search for the place of a key stop in time: a
greater key means that the key itself does not follow.
-/

namespace DocWatch.Table

variable {α : Type} {t : Table α} {f : Option α → α} {key k : String}

/-- The keys ascend, so each occurs once. -/
def Ascending (t : Table α) : Prop :=
  t.keys.Pairwise (· < ·)

theorem ascending_nil : Ascending ([] : Table α) :=
  .nil

theorem ascending_cons {k : String} {v : α} {rest : Table α} :
    Ascending ((k, v) :: rest) ↔ (∀ k' ∈ rest.keys, k < k') ∧ rest.Ascending :=
  List.pairwise_cons

/-- A key below the first one is below all. -/
theorem Ascending.lt_of_lt_head {k : String} {v : α} {rest : Table α}
    (h : Ascending ((k, v) :: rest)) (hlt : key < k) :
    ∀ k' ∈ keys ((k, v) :: rest), key < k' := by
  intro k' hk'
  rcases List.mem_cons.1 hk' with rfl | hk'
  · exact hlt
  · exact lt_trans hlt ((ascending_cons.1 h).1 k' hk')

theorem Ascending.nodup_keys (h : t.Ascending) : t.keys.Nodup :=
  h.imp fun hlt => ne_of_lt hlt

theorem get?_eq_none_iff : t.get? k = none ↔ k ∉ t.keys := by
  induction t with
  | nil => simp [get?, keys]
  | cons row rest ih =>
      obtain ⟨k', v⟩ := row
      rw [get?]
      split
      · rename_i h
        simp [keys, h]
      · rename_i h
        rw [ih]
        simp [keys, h]

theorem mem_keys_alter : k ∈ (t.alter f key).keys ↔ k = key ∨ k ∈ t.keys := by
  induction t with
  | nil => simp [alter, keys]
  | cons row rest ih =>
      obtain ⟨k', v⟩ := row
      rw [alter]
      split
      · simp [keys]
      · split
        · rename_i _ heq
          simp [keys, heq]
        · simp only [keys, List.map_cons, List.mem_cons] at ih ⊢
          rw [ih, or_left_comm]

theorem length_alter_le : (t.alter f key).length ≤ t.length + 1 := by
  induction t with
  | nil => exact Nat.le_refl _
  | cons row rest ih =>
      rw [alter]
      split
      · exact Nat.le_refl _
      · split
        · exact Nat.le_succ _
        · exact Nat.succ_le_succ ih

theorem Ascending.alter (h : t.Ascending) : (t.alter f key).Ascending := by
  induction t with
  | nil => exact List.pairwise_singleton _ _
  | cons row rest ih =>
      obtain ⟨k', v⟩ := row
      obtain ⟨hk, hrest⟩ := ascending_cons.1 h
      rw [Table.alter]
      split
      · rename_i hlt
        exact ascending_cons.2 ⟨h.lt_of_lt_head hlt, h⟩
      · rename_i hlt
        split
        · exact ascending_cons.2 ⟨hk, hrest⟩
        · rename_i hne
          refine ascending_cons.2 ⟨fun k'' hk'' => ?_, ih hrest⟩
          rcases mem_keys_alter.1 hk'' with rfl | hk''
          · exact lt_of_le_of_ne (not_lt.1 hlt) (Ne.symm hne)
          · exact hk k'' hk''

theorem get?_eq_none_of_lt (h : ∀ k ∈ t.keys, key < k) : t.get? key = none :=
  get?_eq_none_iff.2 fun hmem => lt_irrefl key (h key hmem)

theorem Ascending.get?_alter (h : t.Ascending) :
    (t.alter f key).get? k =
      if k = key then some (f (t.get? key)) else t.get? k := by
  induction t with
  | nil => simp [Table.alter, get?]
  | cons row rest ih =>
      obtain ⟨k', v⟩ := row
      have hrest := (ascending_cons.1 h).2
      rw [Table.alter]
      split
      · rename_i hlt
        rw [get?_eq_none_of_lt (h.lt_of_lt_head hlt), get?]
      · split
        · rename_i _ heq
          subst heq
          by_cases hk : k = key <;> simp [get?, hk]
        · rename_i _ hne
          simp only [get?, ih hrest, if_neg hne]
          by_cases hk : k = key
          · simp [hk, hne]
          · simp [hk]

theorem mem_keys_of_mem {v : α} (h : (k, v) ∈ t) : k ∈ t.keys :=
  List.mem_map_of_mem h

theorem Ascending.get?_eq_some_iff {v : α} (h : t.Ascending) :
    t.get? k = some v ↔ (k, v) ∈ t := by
  induction t with
  | nil => simp [get?]
  | cons row rest ih =>
      obtain ⟨k', v'⟩ := row
      obtain ⟨hfirst, hrest⟩ := ascending_cons.1 h
      rw [get?, List.mem_cons, Prod.mk.injEq]
      by_cases hk : k = k'
      · -- the key stands in the first row, so it stands in no other
        have hnone : (k, v) ∉ rest := fun hmem =>
          lt_irrefl k (hk ▸ hfirst k (mem_keys_of_mem hmem))
        simp [hk, hk ▸ hnone, eq_comm]
      · simp [hk, ih hrest]

/-- The order leaves a table no choice: it is known by its rows. -/
theorem Ascending.eq_of_mem_iff {t' : Table α} (h : t.Ascending) (h' : t'.Ascending)
    (hmem : ∀ row, row ∈ t ↔ row ∈ t') : t = t' := by
  have hrows : t.Pairwise fun a b => a.1 < b.1 := List.pairwise_map.1 h
  have hrows' : t'.Pairwise fun a b => a.1 < b.1 := List.pairwise_map.1 h'
  have hperm : t.Perm t' :=
    (List.perm_ext_iff_of_nodup (List.Nodup.of_map _ h.nodup_keys)
      (List.Nodup.of_map _ h'.nodup_keys)).2 hmem
  exact hperm.eq_of_pairwise (fun a b _ _ hab hba => absurd hba (lt_asymm hab)) hrows hrows'

/-! ## Tables of a list -/

theorem ofList_concat (rows : List (String × α)) (row : String × α) :
    ofList (rows ++ [row]) = (ofList rows).insert row.1 row.2 := by
  rw [ofList, List.foldl_append]
  rfl

theorem ascending_ofList (rows : List (String × α)) : (ofList rows).Ascending := by
  induction rows using List.reverseRecOn with
  | nil => exact ascending_nil
  | append_singleton rows row ih =>
      rw [ofList_concat]
      exact ih.alter

theorem get?_ofList_concat (rows : List (String × α)) (row : String × α) :
    (ofList (rows ++ [row])).get? k = if k = row.1 then some row.2 else (ofList rows).get? k := by
  rw [ofList_concat]
  exact (ascending_ofList rows).get?_alter

/-- Rows with other keys change nothing under a key. -/
theorem get?_ofList_append {rows later : List (String × α)} (h : k ∉ later.map Prod.fst) :
    (ofList (rows ++ later)).get? k = (ofList rows).get? k := by
  induction later using List.reverseRecOn with
  | nil => rw [List.append_nil]
  | append_singleton later row ih =>
      rw [List.map_append, List.mem_append, not_or] at h
      obtain ⟨hlater, hrow⟩ := h
      have hkey : k ≠ row.1 := by simpa using hrow
      rw [← List.append_assoc, get?_ofList_concat, if_neg hkey, ih hlater]

/-- What is found under a key stands in the last row with that key. -/
theorem get?_ofList_eq_some_iff {rows : List (String × α)} {v : α} :
    (ofList rows).get? k = some v ↔
      ∃ before later, rows = before ++ (k, v) :: later ∧ k ∉ later.map Prod.fst := by
  constructor
  · intro h
    induction rows using List.reverseRecOn with
    | nil => cases h
    | append_singleton rows row ih =>
        rw [get?_ofList_concat] at h
        split at h
        · rename_i hkey
          cases h
          exact ⟨rows, [], by rw [hkey], nofun⟩
        · rename_i hkey
          obtain ⟨before, later, rfl, hlast⟩ := ih h
          refine ⟨before, later ++ [row], by simp, ?_⟩
          rw [List.map_append, List.mem_append]
          exact fun hmem => hmem.elim hlast (by simpa using hkey)
  · rintro ⟨before, later, rfl, hlast⟩
    rw [List.append_cons, get?_ofList_append hlast, get?_ofList_concat, if_pos rfl]

theorem mem_of_get?_ofList {rows : List (String × α)} {v : α}
    (h : (ofList rows).get? k = some v) : (k, v) ∈ rows := by
  obtain ⟨before, later, rfl, -⟩ := get?_ofList_eq_some_iff.1 h
  exact List.mem_append_right _ List.mem_cons_self

/-- Where no two rows have one key, a table holds each of them. -/
theorem get?_ofList_of_nodup {rows : List (String × α)} {v : α}
    (h : (rows.map Prod.fst).Nodup) : (ofList rows).get? k = some v ↔ (k, v) ∈ rows := by
  refine ⟨mem_of_get?_ofList, fun hmem => ?_⟩
  obtain ⟨before, after, rfl⟩ := List.append_of_mem hmem
  refine get?_ofList_eq_some_iff.2 ⟨before, after, rfl, ?_⟩
  rw [List.map_append, List.map_cons] at h
  exact (List.nodup_cons.1 (List.nodup_append.1 h).2.1).1

theorem mem_keys_ofList {rows : List (String × α)} :
    k ∈ (ofList rows).keys ↔ k ∈ rows.map Prod.fst := by
  induction rows using List.reverseRecOn with
  | nil => rfl
  | append_singleton rows row ih =>
      rw [ofList_concat, insert, mem_keys_alter, ih, List.map_append, List.mem_append, or_comm]
      simp

/-! ## Sums over the values -/

theorem le_total_of_get? (w : α → Nat) {v : α} (h : t.get? k = some v) :
    w v ≤ total (t.map fun row => w row.2) := by
  induction t with
  | nil => cases h
  | cons row rest ih =>
      rw [get?] at h
      simp only [total, List.map_cons, List.foldr_cons]
      split at h
      · cases h
        exact Nat.le_add_right _ _
      · exact Nat.le_trans (ih h) (Nat.le_add_left _ _)

/-- Sums over the values change by the value that comes and the one that goes. -/
theorem Ascending.total_alter (w : α → Nat) (h : t.Ascending) :
    total ((t.alter f key).map fun row => w row.2) + ((t.get? key).map w).getD 0 =
      total (t.map fun row => w row.2) + w (f (t.get? key)) := by
  induction t with
  | nil => simp [Table.alter, get?, total]
  | cons row rest ih =>
      obtain ⟨k', v⟩ := row
      have hrest := (ascending_cons.1 h).2
      rw [Table.alter]
      split
      · rename_i hlt
        rw [get?_eq_none_of_lt (h.lt_of_lt_head hlt)]
        simp [total, Nat.add_comm]
      · split
        · rename_i _ heq
          simp only [get?, heq, if_true, total, List.map_cons, List.foldr_cons,
            Option.map_some, Option.getD_some]
          omega
        · rename_i _ hne
          have := ih hrest
          simp only [get?, if_neg hne, total, List.map_cons, List.foldr_cons] at this ⊢
          omega

end DocWatch.Table
