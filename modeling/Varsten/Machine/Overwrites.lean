import Varsten.Machine.Runs

/-!
# Fields that steps overwrite

A step writes a field whole, with a value that its input alone decides, or leaves it. Of two runs
on the same inputs, the field ends the same exactly when it began the same or was written on the
way.
-/

namespace Varsten.Machine.Overwrites

open Machine.Runs (final)

variable {σ α β : Type} {step : σ → α → σ} {P : σ → Prop} {field : σ → β} {writes : α → Option β}

/-- On the states of `P`, which steps do not leave. -/
structure WritesField (step : σ → α → σ) (P : σ → Prop) (field : σ → β) (writes : α → Option β) :
    Prop where
  keeps : ∀ {s} a, P s → P (step s a)
  written : ∀ {s} a, P s → field (step s a) = (writes a).getD (field s)

theorem WritesField.final_eq_iff (h : WritesField step P field writes) {s t : σ} (hs : P s)
    (ht : P t) (as : List α) :
    field (final step s as) = field (final step t as) ↔
      field s = field t ∨ ∃ a ∈ as, writes a ≠ none := by
  induction as generalizing s t with
  | nil => simp [final]
  | cons a as ih =>
    have hnext : field (final step s (a :: as)) = field (final step t (a :: as)) ↔
        field (step s a) = field (step t a) ∨ ∃ b ∈ as, writes b ≠ none :=
      ih (h.keeps a hs) (h.keeps a ht)
    rw [hnext, h.written a hs, h.written a ht, List.exists_mem_cons_iff]
    cases hw : writes a with
    | none => simp
    | some v => simp

/-- A step more makes no difference to the field exactly when it writes what is there, or a later
step writes over it. -/
theorem WritesField.again_iff (h : WritesField step P field writes) {s : σ} (hs : P s) (a : α)
    (as : List α) :
    field (final step (step s a) as) = field (final step s as) ↔
      ∀ v ∈ writes a, field s = v ∨ ∃ b ∈ as, writes b ≠ none := by
  rw [h.final_eq_iff (h.keeps a hs) hs, h.written a hs]
  cases hw : writes a with
  | none => simp
  | some v => simp [eq_comm]

end Varsten.Machine.Overwrites
