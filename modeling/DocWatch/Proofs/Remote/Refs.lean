import DocWatch.Proofs.Table
import DocWatch.Remote.Refs
import Mathlib.Data.List.Forall2

/-!
# What a listing can bring

A listing is read line by line, and one line that cannot be read rejects all of it. So
whatever is found in the result stood on a line of its own, with a hash before the tab. In
particular no commit that a listing brings is the empty one, whatever was printed.
-/

namespace DocWatch

/-- A list is gone through without a fault exactly if each of its elements is. -/
theorem mapM_eq_ok_iff {α β ε : Type} {f : α → Except ε β} {xs : List α} {ys : List β} :
    xs.mapM f = .ok ys ↔ List.Forall₂ (fun x y => f x = .ok y) xs ys := by
  induction xs generalizing ys with
  | nil => cases ys <;> simp [pure, Except.pure]
  | cons x rest ih =>
      rw [List.mapM_cons]
      cases hx : f x with
      | error e => cases ys <;> simp [bind, Except.bind, hx]
      | ok y =>
          cases hrest : rest.mapM f with
          | error e => cases ys <;> simp [bind, Except.bind, ← ih, hrest, hx]
          | ok ys' => cases ys <;> simp [bind, Except.bind, pure, Except.pure, ← ih, hrest, hx]

namespace Refs

variable {listing line : List Char} {refs : Refs} {name hash : String}

theorem isHash_of_ofLine (h : ofLine line = .ok (name, hash)) : isHash hash.toList = true := by
  rw [ofLine] at h
  split at h
  · cases h
  · split at h
    · rename_i hhash
      cases h
      rwa [String.toList_ofList]
    · cases h

theorem parse_eq_ok_iff : parse listing = .ok refs ↔
    ∃ rows, List.Forall₂ (fun line row => ofLine line = .ok row) (entryLines listing) rows ∧
      refs = Table.ofList rows := by
  rw [parse]
  cases hrows : (entryLines listing).mapM ofLine with
  | error fault =>
      simp only [← mapM_eq_ok_iff, hrows, reduceCtorEq, false_and, exists_false, iff_false]
      intro h
      cases h
  | ok rows =>
      simp only [← mapM_eq_ok_iff, hrows, Except.ok.injEq, exists_eq_left']
      exact ⟨fun h => (Except.ok.inj h).symm, fun h => congrArg Except.ok h.symm⟩

theorem isHash_of_parse (h : parse listing = .ok refs) (hget : refs.get? name = some hash) :
    isHash hash.toList = true := by
  obtain ⟨rows, hrows, rfl⟩ := parse_eq_ok_iff.1 h
  obtain ⟨i, hi, hrow⟩ := List.getElem_of_mem (Table.mem_of_get?_ofList hget)
  have hline := hrows.get (by rwa [hrows.length_eq]) hi
  exact isHash_of_ofLine (hline.trans (congrArg Except.ok hrow))

theorem isHash_of_latest {branch : String} (h : parse listing = .ok refs)
    (hlatest : refs.latest branch = .ok hash) : isHash hash.toList = true :=
  isHash_of_parse h (latest_eq_ok.1 hlatest)

theorem ne_empty_of_isHash (h : isHash hash.toList = true) : hash ≠ "" := by
  intro hempty
  rw [hempty] at h
  cases h

end Refs

end DocWatch
