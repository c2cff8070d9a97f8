import Mathlib.Data.List.Induction

/-!
# Histories

A history leads from one state to another if each of its events can happen when its turn
comes. The last event is taken off at the end: it happens in a state that the events before
it lead to. So what the first state has and every event keeps, all states have that a
history leads to.
-/

namespace DocWatch

variable {σ ε : Type*} {step : σ → ε → Option σ} {s t : σ} {history : List ε} {e : ε}

theorem foldlM_concat_eq_some :
    (history ++ [e]).foldlM step s = some t ↔
      ∃ u, history.foldlM step s = some u ∧ step u e = some t := by
  rw [List.foldlM_append]
  change ((history.foldlM step s).bind fun u => (step u e).bind some) = some t ↔ _
  simp only [Option.bind_eq_some_iff, Option.some.injEq, exists_eq_right]

theorem foldlM_induction {P : σ → Prop} (start : P s)
    (next : ∀ {u e t}, step u e = some t → P u → P t)
    (h : history.foldlM step s = some t) : P t := by
  induction history using List.reverseRecOn generalizing t with
  | nil =>
      cases h
      exact start
  | append_singleton history e ih =>
      obtain ⟨u, hu, hstep⟩ := foldlM_concat_eq_some.1 h
      exact next hstep (ih hu)

end DocWatch
