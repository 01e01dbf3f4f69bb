import Varsten.Python.Rounding

/-!
# The precision of the default context

The result of an operation on decimals has 28 significant digits, and what has more is rounded.
-/

namespace Varsten.Python.Precision

open Decimals (roundHalfEven roundHalfEven_intCast)

def prec : ℕ := 28

/-- A result in the default context. -/
def context (q : ℚ) : ℚ :=
  let e := Int.log 10 |q| + 1 - prec
  roundHalfEven (q / 10 ^ e) * 10 ^ e

example : context (1 / 3) = 3333333333333333333333333333 / 10 ^ 28 := by decide +kernel

/-- `Decimal.quantize`, which raises where the result has more digits than the context. -/
def quantize (round : ℚ → ℤ) (scale : ℕ) (q : ℚ) : Option ℚ :=
  if |round (q * scale)| < 10 ^ prec then some (Decimals.quantize round scale q) else none

def mul (a b : ℚ) : ℚ := context (a * b)

/-! ## The order of results -/

def lastDigit (k : ℤ) : ℤ := k + 1 - prec

theorem context_eq_rounded (q : ℚ) : context q = Rounding.rounded 10 lastDigit q := by
  unfold context Rounding.rounded Rounding.scaled lastDigit
  push_cast
  rfl

theorem steps_lastDigit : Rounding.Steps lastDigit where
  mono j k h := by
    unfold lastDigit
    omega
  lt _ := by
    unfold lastDigit prec
    omega

theorem context_mono {a b : ℚ} (ha : 0 ≤ a) (h : a ≤ b) : context a ≤ context b := by
  rw [context_eq_rounded, context_eq_rounded]
  exact Rounding.rounded_mono (by norm_num) steps_lastDigit ha h

theorem context_nonneg {q : ℚ} (h : 0 ≤ q) : 0 ≤ context q := by
  rw [context_eq_rounded]
  exact Rounding.rounded_nonneg (by norm_num) h

theorem mul_mono {a b c d : ℚ} (ha : 0 ≤ a) (hc : 0 ≤ c) (hab : a ≤ b) (hcd : c ≤ d) :
    mul a c ≤ mul b d :=
  context_mono (mul_nonneg ha hc) (mul_le_mul hab hcd hc (ha.trans hab))

theorem mul_nonneg {a b : ℚ} (ha : 0 ≤ a) (hb : 0 ≤ b) : 0 ≤ mul a b :=
  context_nonneg (Left.mul_nonneg ha hb)

/-! ## Results that are exact -/

/-- A whole number of units of the `e`-th decimal place. -/
def Whole (e : ℕ) (q : ℚ) : Prop := ∃ m : ℤ, q * 10 ^ e = m

theorem Whole.add {e : ℕ} {a b : ℚ} (ha : Whole e a) (hb : Whole e b) : Whole e (a + b) := by
  obtain ⟨m, hm⟩ := ha
  obtain ⟨n, hn⟩ := hb
  exact ⟨m + n, by rw [add_mul, hm, hn]; push_cast; rfl⟩

theorem whole_zero (e : ℕ) : Whole e 0 := ⟨0, by simp⟩

theorem context_of_whole {e : ℕ} {q : ℚ} (hq : Whole e q) (hlt : |q| * 10 ^ e < 10 ^ prec) :
    context q = q := by
  rcases eq_or_ne q 0 with rfl | hne
  · simp [context, show roundHalfEven 0 = 0 from roundHalfEven_intCast 0]
  obtain ⟨m, hm⟩ := hq
  have hpos : 0 < |q| := abs_pos.2 hne
  have hlog : (10 : ℚ) ^ Int.log 10 |q| ≤ |q| := by
    exact_mod_cast Int.zpow_log_le_self (b := 10) (by norm_num) hpos
  have hten : (1 : ℚ) < 10 := by norm_num
  have hexp : Int.log 10 |q| + e < prec := by
    have hle : (10 : ℚ) ^ (Int.log 10 |q| + e) < 10 ^ (prec : ℤ) := by
      rw [zpow_add₀ (by norm_num), zpow_natCast, zpow_natCast]
      exact (mul_le_mul_of_nonneg_right hlog (by positivity)).trans_lt hlt
    exact (zpow_lt_zpow_iff_right₀ hten).1 hle
  obtain ⟨k, hk⟩ : ∃ k : ℕ, Int.log 10 |q| + 1 - prec = -(e : ℤ) - k :=
    ⟨(prec - 1 - e - Int.log 10 |q|).toNat, by omega⟩
  have hscaled : q / 10 ^ (-(e : ℤ) - k) = ((m * 10 ^ k : ℤ) : ℚ) := by
    rw [div_eq_mul_inv, ← zpow_neg, show -(-(e : ℤ) - k) = e + k by ring, zpow_add₀ (by norm_num),
      zpow_natCast, zpow_natCast, ← mul_assoc, hm]
    push_cast
    rfl
  rw [context, hk, hscaled, roundHalfEven_intCast, ← hscaled]
  exact div_mul_cancel₀ q (by positivity)

/-! ## Sums -/

def contextSum (a : ℚ) (xs : List ℚ) : ℚ := xs.foldl (fun a x => context (a + x)) a

/-- The numbers have so many decimal places that no sum of them has more than 28 digits. -/
def Fits (xs : List ℚ) : Prop :=
  ∃ e, (∀ x ∈ xs, Whole e x) ∧ (xs.map (|·|)).sum * 10 ^ e < 10 ^ prec

theorem Fits.sublist {xs ys : List ℚ} (h : Fits ys) (hs : xs.Sublist ys) : Fits xs := by
  obtain ⟨e, hwhole, hlt⟩ := h
  refine ⟨e, fun x hx => hwhole x (hs.subset hx), lt_of_le_of_lt ?_ hlt⟩
  refine mul_le_mul_of_nonneg_right ?_ (by positivity)
  refine (hs.map _).sum_le_sum fun x hx => ?_
  obtain ⟨y, -, rfl⟩ := List.mem_map.1 hx
  exact abs_nonneg y

theorem Fits.perm {xs ys : List ℚ} (h : Fits xs) (hp : xs.Perm ys) : Fits ys := by
  obtain ⟨e, hwhole, hlt⟩ := h
  exact ⟨e, fun y hy => hwhole y (hp.mem_iff.2 hy), by rwa [← (hp.map _).sum_eq]⟩

theorem contextSum_of_whole {e : ℕ} {a : ℚ} {xs : List ℚ} (ha : Whole e a)
    (hx : ∀ x ∈ xs, Whole e x) (hlt : (|a| + (xs.map (|·|)).sum) * 10 ^ e < 10 ^ prec) :
    contextSum a xs = a + xs.sum := by
  induction xs generalizing a with
  | nil => simp [contextSum]
  | cons x xs ih =>
    rw [List.forall_mem_cons] at hx
    rw [List.map_cons, List.sum_cons, ← add_assoc] at hlt
    have hrest : 0 ≤ (xs.map (|·|)).sum := List.sum_nonneg fun y hy => by
      obtain ⟨z, -, rfl⟩ := List.mem_map.1 hy
      exact abs_nonneg z
    have habs : |a + x| ≤ |a| + |x| := abs_add_le a x
    have hpow : (0 : ℚ) ≤ 10 ^ e := by positivity
    have hstep : context (a + x) = a + x :=
      context_of_whole (ha.add hx.1) (lt_of_le_of_lt (mul_le_mul_of_nonneg_right
        (by linarith) hpow) hlt)
    have hfold : contextSum a (x :: xs) = contextSum (a + x) xs := by
      rw [contextSum, List.foldl_cons, hstep, contextSum]
    rw [hfold, ih (ha.add hx.1) hx.2 (lt_of_le_of_lt (mul_le_mul_of_nonneg_right
      (by linarith) hpow) hlt), List.sum_cons, add_assoc]

theorem contextSum_eq {xs : List ℚ} (h : Fits xs) : contextSum 0 xs = xs.sum := by
  obtain ⟨e, hwhole, hlt⟩ := h
  rw [contextSum_of_whole (whole_zero e) hwhole (by simpa using hlt), zero_add]

theorem contextSum_perm {xs ys : List ℚ} (h : Fits xs) (hp : xs.Perm ys) :
    contextSum 0 xs = contextSum 0 ys := by
  rw [contextSum_eq h, contextSum_eq (h.perm hp), hp.sum_eq]

end Varsten.Python.Precision
