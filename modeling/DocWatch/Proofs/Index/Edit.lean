import DocWatch.Index.Edit

/-!
# One edit, wherever it is made

Where characters repeat, one and the same edit can be made at several places. The
search commits itself to the first place where the two lists differ, and that is
enough: a front that both share can be taken off before the edit, whether the edit
was made behind it or within it.
-/

namespace DocWatch

variable {α : Type}

/-- One list is the other with an element inserted, left out or exchanged. -/
inductive OneEdit : List α → List α → Prop
  | insertion (front back : List α) (c : α) : OneEdit (front ++ back) (front ++ c :: back)
  | deletion (front back : List α) (c : α) : OneEdit (front ++ c :: back) (front ++ back)
  | substitution (front back : List α) {c d : α} (h : c ≠ d) :
      OneEdit (front ++ c :: back) (front ++ d :: back)

variable {a b s t : List α} {x y : α}

theorem OneEdit.symm (h : OneEdit a b) : OneEdit b a := by
  cases h with
  | insertion front back c => exact .deletion front back c
  | deletion front back c => exact .insertion front back c
  | substitution front back h => exact .substitution front back h.symm

theorem OneEdit.cons (h : OneEdit a b) (x : α) : OneEdit (x :: a) (x :: b) := by
  cases h with
  | insertion front back c => exact .insertion (x :: front) back c
  | deletion front back c => exact .deletion (x :: front) back c
  | substitution front back h => exact .substitution (x :: front) back h

theorem OneEdit.ne_nil (h : OneEdit a b) : a ≠ [] ∨ b ≠ [] := by
  cases h <;> simp

theorem OneEdit.of_nil (h : OneEdit a b) (ha : a = []) (hb : b = y :: s) : s = [] := by
  cases h with
  | insertion front back c =>
      obtain ⟨rfl, rfl⟩ := List.append_eq_nil_iff.1 ha
      cases hb
      rfl
  | deletion front back c => simp at ha
  | substitution front back h => simp at ha

/-- The edit is made right at the first element, or behind it. -/
theorem OneEdit.of_cons (h : OneEdit s t) (hs : s = x :: a) (ht : t = y :: b) :
    (x ≠ y ∧ a = b) ∨ a = y :: b ∨ x :: a = b ∨ (x = y ∧ OneEdit a b) := by
  cases h with
  | insertion front back c =>
      cases front with
      | nil =>
          cases ht
          exact .inr (.inr (.inl hs.symm))
      | cons z front =>
          cases hs
          cases ht
          exact .inr (.inr (.inr ⟨rfl, .insertion front back c⟩))
  | deletion front back c =>
      cases front with
      | nil =>
          cases hs
          exact .inr (.inl ht)
      | cons z front =>
          cases hs
          cases ht
          exact .inr (.inr (.inr ⟨rfl, .deletion front back c⟩))
  | substitution front back h =>
      cases front with
      | nil =>
          cases hs
          cases ht
          exact .inl ⟨h, rfl⟩
      | cons z front =>
          cases hs
          cases ht
          exact .inr (.inr (.inr ⟨rfl, .substitution front back h⟩))

theorem oneEdit_nil_cons : OneEdit [] (y :: b) ↔ b = [] := by
  constructor
  · intro h
    exact h.of_nil rfl rfl
  · rintro rfl
    exact .insertion [] [] y

theorem oneEdit_cons_cons : OneEdit (x :: a) (y :: b) ↔
    (x ≠ y ∧ a = b) ∨ a = y :: b ∨ x :: a = b ∨ (x = y ∧ OneEdit a b) := by
  constructor
  · intro h
    exact h.of_cons rfl rfl
  · rintro (⟨h, rfl⟩ | rfl | rfl | ⟨rfl, h⟩)
    · exact .substitution [] a h
    · exact .deletion [] (y :: b) x
    · exact .insertion [] (x :: a) y
    · exact h.cons x

/-- An edit right at a first element that both share is also one behind it. -/
theorem oneEdit_cons_self : OneEdit (x :: a) (x :: b) ↔ OneEdit a b := by
  rw [oneEdit_cons_cons]
  constructor
  · rintro (⟨h, -⟩ | rfl | rfl | ⟨-, h⟩)
    · exact absurd rfl h
    · exact .deletion [] b x
    · exact .insertion [] a x
    · exact h
  · intro h
    exact .inr (.inr (.inr ⟨rfl, h⟩))

variable [DecidableEq α]

theorem withinOneEdit_iff : withinOneEdit a b = true ↔ OneEdit a b := by
  induction a generalizing b with
  | nil =>
      cases b with
      | nil =>
          have hnone : ¬ OneEdit ([] : List α) [] := fun h => by simpa using h.ne_nil
          simp [withinOneEdit, dropShared, hnone]
      | cons y b => simp [withinOneEdit, dropShared, oneEdit_nil_cons]
  | cons x a ih =>
      cases b with
      | nil =>
          have hswap : OneEdit (x :: a) [] ↔ a = [] :=
            ⟨fun h => oneEdit_nil_cons.1 h.symm, fun h => (oneEdit_nil_cons.2 h).symm⟩
          simp [withinOneEdit, dropShared, hswap]
      | cons y b =>
          by_cases hxy : x = y
          · subst hxy
            rw [oneEdit_cons_self, ← ih]
            simp [withinOneEdit, dropShared]
          · simp [withinOneEdit, dropShared, hxy, oneEdit_cons_cons, or_assoc]

instance : Decidable (OneEdit a b) :=
  decidable_of_iff _ withinOneEdit_iff

end DocWatch
