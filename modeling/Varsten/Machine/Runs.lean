import Mathlib

/-!
# Runs of a deterministic machine

A run is a list of inputs. What is claimed of each of its steps is claimed of the state before
the step and its input.
-/

namespace Varsten.Machine.Runs

variable {σ α : Type} {step : σ → α → σ}

/-- The steps of a run: the state before each, and its input. -/
def steps (step : σ → α → σ) : σ → List α → List (σ × α)
  | _, [] => []
  | s, a :: as => (s, a) :: steps step (step s a) as

/-- The state a run ends in. -/
def final (step : σ → α → σ) (s : σ) (as : List α) : σ := as.foldl step s

theorem steps_append {s : σ} {as bs : List α} :
    steps step s (as ++ bs) = steps step s as ++ steps step (final step s as) bs := by
  induction as generalizing s with
  | nil => rfl
  | cons a as ih => simp [steps, final, ih]

theorem final_append {s : σ} {as bs : List α} :
    final step s (as ++ bs) = final step (final step s as) bs := List.foldl_append

theorem exists_of_mem_steps {as : List α} {s : σ} {p : σ × α} (h : p ∈ steps step s as) :
    ∃ pre later, as = pre ++ p.2 :: later ∧ p.1 = final step s pre := by
  induction as generalizing s with
  | nil => exact absurd h List.not_mem_nil
  | cons a as ih =>
    rcases List.mem_cons.1 h with rfl | h
    · exact ⟨[], as, rfl, rfl⟩
    · obtain ⟨pre, later, hsplit, hstate⟩ := ih h
      exact ⟨a :: pre, later, by rw [hsplit, List.cons_append], hstate⟩

theorem input_of_steps {In : α → Prop} {as : List α} {s : σ} (hin : ∀ a ∈ as, In a) :
    ∀ p ∈ steps step s as, In p.2 := by
  induction as generalizing s with
  | nil => exact fun p hp => absurd hp List.not_mem_nil
  | cons a as ih =>
    intro p hp
    rcases List.mem_cons.1 hp with rfl | hp
    · exact hin a List.mem_cons_self
    · exact ih (fun b hb => hin b (List.mem_cons_of_mem a hb)) p hp

theorem inputs_of_steps {In : α → Prop} {as : List α} {s : σ}
    (h : ∀ p ∈ steps step s as, In p.2) : ∀ a ∈ as, In a := by
  induction as generalizing s with
  | nil => exact fun a ha => absurd ha List.not_mem_nil
  | cons a as ih =>
    rw [steps, List.forall_mem_cons] at h
    exact List.forall_mem_cons.2 ⟨h.1, ih h.2⟩

theorem inv_of_steps {P : σ → Prop} (hstep : ∀ s a, P s → P (step s a)) {as : List α} {s : σ}
    (h : P s) : ∀ p ∈ steps step s as, P p.1 := by
  induction as generalizing s with
  | nil => exact fun p hp => absurd hp List.not_mem_nil
  | cons a as ih =>
    intro p hp
    rcases List.mem_cons.1 hp with rfl | hp
    · exact h
    · exact ih (hstep s a h) p hp

theorem history {Q : List (σ × α) → σ → Prop} {Cond : σ → α → Prop}
    (hstep : ∀ past s a, Cond s a → Q past s → Q (past ++ [(s, a)]) (step s a)) {as : List α} {s : σ}
    {past : List (σ × α)} (h0 : Q past s) (hcond : ∀ p ∈ steps step s as, Cond p.1 p.2) :
    Q (past ++ steps step s as) (final step s as) := by
  induction as generalizing s past with
  | nil => simpa [steps, final] using h0
  | cons a as ih =>
    simp only [steps, List.forall_mem_cons] at hcond
    have hnext := ih (hstep past s a hcond.1 h0) hcond.2
    simpa [steps, final] using hnext

/-- Where a step from a good state ends in a good state and does well exactly under a condition,
all steps of a run do exactly when each meets the condition. -/
theorem steps_iff {P Inv : σ → Prop} {Good Cond In : σ → α → Prop}
    (hstep : ∀ s a, In s a → P s → P (step s a))
    (hiff : ∀ s a, In s a → P s → Inv s → ((Inv (step s a) ∧ Good s a) ↔ Cond s a))
    {as : List α} {s : σ} (h0 : P s) (hinv : Inv s) (hin : ∀ p ∈ steps step s as, In p.1 p.2) :
    (∀ p ∈ steps step s as, Inv (step p.1 p.2) ∧ Good p.1 p.2) ↔
      ∀ p ∈ steps step s as, Cond p.1 p.2 := by
  induction as generalizing s with
  | nil => simp [steps]
  | cons a as ih =>
    simp only [steps, List.forall_mem_cons] at hin ⊢
    have hhead := hiff s a hin.1 h0 hinv
    constructor
    · intro h
      exact ⟨hhead.1 h.1, (ih (hstep s a hin.1 h0) h.1.1 hin.2).1 h.2⟩
    · intro h
      have hgood := hhead.2 h.1
      exact ⟨hgood, (ih (hstep s a hin.1 h0) hgood.1 hin.2).2 h.2⟩

end Varsten.Machine.Runs
