import Mathlib.Data.List.Nodup

/-!
# Maps whose rows are in no particular order

A hash map has one row for each of its keys, and a loop over it meets the rows in an
order that means nothing. Such a map is a list of rows here, in whatever order they
came, and a loop goes over what a `Traversal` makes of the list: any arrangement of the
rows at all.

What can be said of such a map is what is found in it. So every operation has one law,
which says what is found afterwards under any key, and two maps in which the same is
found are arrangements of one another (`perm_of_lookup`).
-/

namespace DocWatch

/-- A map as rows in any order. -/
abbrev Rows (κ α : Type) := List (κ × α)

/-- The order in which a loop goes over rows: each row comes once, and nothing else is
known of the order. -/
structure Traversal (α : Type) where
  visit : List α → List α
  perm : ∀ rows, (visit rows).Perm rows

namespace Rows

variable {κ α β : Type} [DecidableEq κ] {s t : Rows κ α} {k key : κ} {v : α}

/-- Puts `f` of the value found under a key, or of nothing, under that key. -/
def alter (f : Option α → α) : Rows κ α → κ → Rows κ α
  | [], key => [(key, f none)]
  | (k, v) :: rest, key =>
      if key = k then (k, f (some v)) :: rest else (k, v) :: alter f rest key

/-- Puts the values of some rows under their keys, one row after another. -/
def putAll (f : β → Option α → α) (t : Rows κ α) (rows : Rows κ β) : Rows κ α :=
  rows.foldl (fun t row => t.alter (f row.2) row.1) t

/-- The rows for which `f` gives a value, with that value. -/
def select (f : κ → α → Option β) (t : Rows κ α) : Rows κ β :=
  t.filterMap fun row => (f row.1 row.2).map fun b => (row.1, b)

/-- Each key has one row at most. -/
def Distinct (t : Rows κ α) : Prop :=
  (t.map Prod.fst).Nodup

omit [DecidableEq κ] in
theorem distinct_nil : Distinct ([] : Rows κ α) :=
  List.nodup_nil

omit [DecidableEq κ] in
theorem distinct_cons : Distinct ((key, v) :: t) ↔ key ∉ t.map Prod.fst ∧ t.Distinct :=
  List.nodup_cons

omit [DecidableEq κ] in
theorem Distinct.perm (h : t.Distinct) (hperm : s.Perm t) : s.Distinct :=
  (hperm.map Prod.fst).nodup_iff.2 h

/-! ## Looking up -/

theorem lookup_cons : List.lookup k ((key, v) :: t) = if k = key then some v else t.lookup k := by
  rw [List.lookup_cons]
  by_cases hk : k = key
  · simp [hk]
  · simp [hk, beq_false_of_ne hk]

theorem lookup_eq_none_iff : t.lookup k = none ↔ k ∉ t.map Prod.fst := by
  induction t with
  | nil => simp
  | cons row rest ih =>
      rw [lookup_cons, List.map_cons, List.mem_cons]
      split
      · rename_i heq
        simp [heq]
      · rename_i hne
        rw [ih]
        simp [hne]

theorem Distinct.lookup_eq_some_iff (h : t.Distinct) : t.lookup k = some v ↔ (k, v) ∈ t := by
  induction t with
  | nil => simp
  | cons row rest ih =>
      obtain ⟨key, w⟩ := row
      obtain ⟨hfirst, hrest⟩ := distinct_cons.1 h
      rw [lookup_cons, List.mem_cons, Prod.mk.injEq]
      by_cases hk : k = key
      · -- the key is that of the first row, so of no other
        have hnone : (k, v) ∉ rest := fun hmem => hfirst (hk ▸ List.mem_map_of_mem hmem)
        simp [hk, hk ▸ hnone, eq_comm]
      · simp [hk, ih hrest]

/-- Maps in which the same is found have the same rows. -/
theorem perm_of_lookup (hs : s.Distinct) (ht : t.Distinct)
    (h : ∀ k, s.lookup k = t.lookup k) : s.Perm t := by
  rw [List.perm_ext_iff_of_nodup (List.Nodup.of_map _ hs) (List.Nodup.of_map _ ht)]
  rintro ⟨k, v⟩
  rw [← hs.lookup_eq_some_iff, ← ht.lookup_eq_some_iff, h k]

/-- The order of the rows does not change what is found. -/
theorem Distinct.lookup_perm (h : t.Distinct) (hperm : s.Perm t) (k : κ) :
    s.lookup k = t.lookup k := by
  refine Option.ext fun v => ?_
  rw [(h.perm hperm).lookup_eq_some_iff, h.lookup_eq_some_iff, hperm.mem_iff]

omit [DecidableEq κ] in
theorem keys_select_sublist (f : κ → α → Option β) (t : Rows κ α) :
    ((t.select f).map Prod.fst).Sublist (t.map Prod.fst) := by
  induction t with
  | nil => exact .slnil
  | cons row rest ih =>
      rw [select, List.filterMap_cons]
      cases f row.1 row.2 with
      | none => exact ih.cons row.1
      | some b => exact ih.cons_cons row.1

omit [DecidableEq κ] in
theorem Distinct.select (h : t.Distinct) (f : κ → α → Option β) : (t.select f).Distinct :=
  h.sublist (keys_select_sublist f t)

theorem Distinct.lookup_select (h : t.Distinct) (f : κ → α → Option β) (k : κ) :
    (t.select f).lookup k = (t.lookup k).bind (f k) := by
  induction t with
  | nil => rfl
  | cons row rest ih =>
      obtain ⟨key, v⟩ := row
      obtain ⟨hfirst, hrest⟩ := distinct_cons.1 h
      have hnone : k = key → rest.lookup k = none := by
        rintro rfl
        exact lookup_eq_none_iff.2 hfirst
      rw [Rows.select, List.filterMap_cons, lookup_cons]
      cases hv : f key v with
      | none =>
          refine (ih hrest).trans ?_
          split
          · rename_i hk
            rw [hnone hk, hk, Option.bind_some, hv]
            rfl
          · rfl
      | some b =>
          refine lookup_cons.trans ?_
          split
          · rename_i hk
            rw [hk, Option.bind_some, hv]
          · exact ih hrest

/-! ## Putting values under keys -/

theorem mem_keys_alter (f : Option α → α) (key : κ) :
    k ∈ (t.alter f key).map Prod.fst ↔ k = key ∨ k ∈ t.map Prod.fst := by
  induction t with
  | nil => simp [alter]
  | cons row rest ih =>
      rw [alter]
      split
      · rename_i heq
        simp [heq]
      · rw [List.map_cons, List.mem_cons, ih, List.map_cons, List.mem_cons, or_left_comm]

theorem Distinct.alter (h : t.Distinct) (f : Option α → α) (key : κ) :
    (t.alter f key).Distinct := by
  induction t with
  | nil => exact List.nodup_singleton _
  | cons row rest ih =>
      obtain ⟨hfirst, hrest⟩ := distinct_cons.1 h
      rw [Rows.alter]
      split
      · exact distinct_cons.2 ⟨hfirst, hrest⟩
      · rename_i hne
        refine distinct_cons.2 ⟨?_, ih hrest⟩
        rw [mem_keys_alter]
        rintro (heq | hmem)
        · exact hne heq.symm
        · exact hfirst hmem

theorem lookup_alter (f : Option α → α) (t : Rows κ α) (key k : κ) :
    (t.alter f key).lookup k = if k = key then some (f (t.lookup key)) else t.lookup k := by
  induction t with
  | nil => rw [alter, lookup_cons, List.lookup_nil, List.lookup_nil]
  | cons row rest ih =>
      obtain ⟨k', v⟩ := row
      rw [alter]
      split
      · rename_i heq
        subst heq
        rw [lookup_cons, lookup_cons, lookup_cons]
        split <;> simp
      · rename_i hne
        rw [lookup_cons, lookup_cons, lookup_cons, ih, if_neg hne]
        by_cases hk : k = k'
        · rw [if_pos hk, if_pos hk, if_neg fun heq : k = key => hne (heq.symm.trans hk)]
        · rw [if_neg hk, if_neg hk]

theorem Distinct.putAll (h : t.Distinct) (f : β → Option α → α) (rows : Rows κ β) :
    (t.putAll f rows).Distinct := by
  induction rows generalizing t with
  | nil => exact h
  | cons row rest ih => exact ih (h.alter _ _)

/-- Of rows with distinct keys, each says alone what becomes of its key. -/
theorem lookup_putAll {rows : Rows κ β} (h : rows.Distinct) (f : β → Option α → α)
    (t : Rows κ α) (k : κ) :
    (t.putAll f rows).lookup k =
      ((rows.lookup k).map fun b => f b (t.lookup k)).or (t.lookup k) := by
  induction rows generalizing t with
  | nil => rfl
  | cons row rest ih =>
      obtain ⟨key, b⟩ := row
      obtain ⟨hfirst, hrest⟩ := distinct_cons.1 h
      have hstep := ih hrest (t.alter (f b) key)
      rw [lookup_alter] at hstep
      refine hstep.trans ?_
      rw [lookup_cons]
      by_cases hk : k = key
      · -- no later row comes back to the key of this one
        subst hk
        rw [lookup_eq_none_iff.2 hfirst, if_pos rfl, if_pos rfl]
        rfl
      · rw [if_neg hk, if_neg hk]

end Rows

end DocWatch
