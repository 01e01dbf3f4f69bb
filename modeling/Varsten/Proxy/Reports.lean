import Mathlib

/-!
# Counts reported along a stream

Each event may report a count again. The last number reported stands, and one that
only grows is not lost where a zero means that nothing is reported.
-/

namespace Varsten.Proxy.Reports

variable {α : Type} {column : α → Option ℕ}

/-- The last number reported in a column, 0 when there is none. -/
def final (column : α → Option ℕ) (us : List α) : ℕ := ((us.filterMap column).getLast?).getD 0

def Cumulative (column : α → Option ℕ) (us : List α) : Prop :=
  (us.filterMap column).Pairwise (· ≤ ·)

instance (us : List α) : Decidable (Cumulative column us) :=
  inferInstanceAs (Decidable (List.Pairwise _ _))

theorem final_concat (column : α → Option ℕ) (us : List α) (u : α) :
    final column (us ++ [u]) = (column u).getD (final column us) := by
  unfold final
  rw [List.filterMap_append, List.filterMap_cons]
  cases column u <;> simp

theorem final_mono {pre post : List α} (h : Cumulative column (pre ++ post)) :
    final column pre ≤ final column (pre ++ post) := by
  unfold final
  unfold Cumulative at h
  rw [List.filterMap_append] at h ⊢
  cases hp : (post.filterMap column).getLast? with
  | none => rw [List.getLast?_append, hp, Option.none_or]
  | some n =>
    rw [List.getLast?_append, hp, Option.some_or]
    cases hq : (pre.filterMap column).getLast? with
    | none => exact Nat.zero_le _
    | some m =>
      exact (List.pairwise_append.1 h).2.2 m (List.mem_of_getLast? hq) n (List.mem_of_getLast? hp)

theorem Cumulative.prefix {pre post : List α} (h : Cumulative column (pre ++ post)) :
    Cumulative column pre := by
  unfold Cumulative at h ⊢
  rw [List.filterMap_append] at h
  exact (List.pairwise_append.1 h).1

theorem value_le_final {pre post : List α} {u : α} (h : Cumulative column (pre ++ u :: post)) :
    (column u).getD 0 ≤ final column (pre ++ u :: post) := by
  have heq : pre ++ u :: post = (pre ++ [u]) ++ post := by simp
  rw [heq] at h ⊢
  have hle := final_mono h
  rw [final_concat] at hle
  cases hr : column u with
  | none => exact Nat.zero_le _
  | some n =>
    rw [hr] at hle
    exact hle

/-- `count or previous` along the stream ends with the last number of a growing column. -/
theorem keep_nonzero {us : List α} {f : List α → ℤ} (hnil : f [] = 0)
    (hstep : ∀ us u, f (us ++ [u]) = if (column u).getD 0 = 0 then f us else (column u).getD 0)
    (h : Cumulative column us) : f us = final column us := by
  induction us using List.reverseRecOn with
  | nil => exact hnil
  | append_singleton us u ih =>
    have hmono := final_mono h
    have hprev := ih h.prefix
    rw [final_concat] at hmono
    rw [hstep, final_concat]
    cases hr : column u with
    | none => simpa using hprev
    | some n =>
      rw [hr] at hmono
      simp only [Option.getD_some] at hmono ⊢
      by_cases h0 : n = 0
      · simp only [h0, if_true, hprev]
        omega
      · simp only [h0, if_false]

end Varsten.Proxy.Reports
