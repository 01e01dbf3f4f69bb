import Varsten.Python.Decimals

/-!
# Rounding to a number of digits

The nearest number of so many digits in a base, ties to an even last digit. `fexp` gives the place
of the last digit of a number by the place of its first.
-/

namespace Varsten.Python.Rounding

open Decimals

variable {b : ℕ} {e : ℤ} {fexp : ℤ → ℤ} {p q : ℚ}

/-- The nearest multiple of `b ^ e`. -/
def scaled (b : ℕ) (e : ℤ) (q : ℚ) : ℚ := roundHalfEven (q / b ^ e) * b ^ e

def rounded (b : ℕ) (fexp : ℤ → ℤ) (q : ℚ) : ℚ := scaled b (fexp (Int.log b |q|)) q

/-- The last digit of a larger number is no lower, and no power of the base that is larger than a
number falls between its digits. -/
structure Steps (fexp : ℤ → ℤ) : Prop where
  mono : Monotone fexp
  lt : ∀ {j k}, fexp j < fexp k → fexp k ≤ k

theorem base_zpow_pos (hb : 1 < b) (e : ℤ) : (0 : ℚ) < (b : ℚ) ^ e :=
  zpow_pos (Nat.cast_pos.2 (by omega)) e

theorem scaled_mono (hb : 1 < b) (h : p ≤ q) : scaled b e p ≤ scaled b e q := by
  have hpow := base_zpow_pos hb e
  refine mul_le_mul_of_nonneg_right (Int.cast_le.2 (roundHalfEven_mono ?_)) hpow.le
  exact div_le_div_of_nonneg_right h hpow.le

theorem scaled_multiple (hb : 1 < b) {e' : ℤ} (h : e ≤ e') (m : ℤ) :
    scaled b e (m * b ^ e') = m * b ^ e' := by
  have hb' : (b : ℚ) ≠ 0 := Nat.cast_ne_zero.2 (by omega)
  obtain ⟨k, rfl⟩ : ∃ k : ℕ, e' = k + e := ⟨(e' - e).toNat, by omega⟩
  have hwhole : (m * b ^ ((k : ℤ) + e) : ℚ) / b ^ e = ((m * b ^ k : ℤ) : ℚ) := by
    rw [zpow_add₀ hb', ← mul_assoc, mul_div_cancel_right₀ _ (zpow_ne_zero e hb')]
    push_cast
    rw [zpow_natCast]
  rw [scaled, hwhole, roundHalfEven_intCast, ← hwhole,
    div_mul_cancel₀ _ (zpow_ne_zero e hb')]

@[simp] theorem scaled_zero : scaled b e 0 = 0 := by
  rw [scaled, zero_div, ← Int.cast_zero, roundHalfEven_intCast, Int.cast_zero, zero_mul]

@[simp] theorem rounded_zero : rounded b fexp 0 = 0 := scaled_zero

theorem rounded_nonneg (hb : 1 < b) (h : 0 ≤ q) : 0 ≤ rounded b fexp q := by
  have hle : scaled b (fexp (Int.log b |q|)) 0 ≤ rounded b fexp q := scaled_mono hb h
  rwa [scaled_zero] at hle

theorem rounded_nonpos (hb : 1 < b) (h : q ≤ 0) : rounded b fexp q ≤ 0 := by
  have hle : rounded b fexp q ≤ scaled b (fexp (Int.log b |q|)) 0 := scaled_mono hb h
  rwa [scaled_zero] at hle

theorem rounded_multiple (hb : 1 < b) {m : ℤ} (h : fexp (Int.log b |(m * b ^ e : ℚ)|) ≤ e) :
    rounded b fexp (m * b ^ e) = m * b ^ e := scaled_multiple hb h m

theorem rounded_pow (hb : 1 < b) {k : ℤ} (h : fexp k ≤ k) :
    rounded b fexp ((b : ℚ) ^ k) = (b : ℚ) ^ k := by
  have hlog : Int.log b |(b : ℚ) ^ k| = k := by
    rw [abs_of_pos (base_zpow_pos hb k), Int.log_zpow hb]
  have hone := @rounded_multiple b k fexp hb 1 (by rwa [Int.cast_one, one_mul, hlog])
  rwa [Int.cast_one, one_mul] at hone

theorem rounded_mono (hb : 1 < b) (hsteps : Steps fexp) (hp : 0 ≤ p) (h : p ≤ q) :
    rounded b fexp p ≤ rounded b fexp q := by
  rcases hp.eq_or_lt with rfl | hpos
  · rw [rounded_zero]
    exact rounded_nonneg hb h
  have hq : 0 < q := hpos.trans_le h
  have hlogs : Int.log b p ≤ Int.log b q := Int.log_mono_right hpos h
  rw [rounded, rounded, abs_of_pos hpos, abs_of_pos hq]
  rcases (hsteps.mono hlogs).eq_or_lt with heq | hlt
  · rw [heq]
    exact scaled_mono hb h
  -- A power of the base lies between the two, and both keep it.
  · have hfirst : Int.log b p < Int.log b q := by
      by_contra hle
      exact hlt.ne (congrArg fexp (le_antisymm hlogs (not_lt.1 hle)))
    have hpow : p ≤ (b : ℚ) ^ Int.log b q := ((Int.lt_zpow_iff_log_lt hb hpos).2 hfirst).le
    have hkeep : ∀ {k : ℤ}, k ≤ Int.log b q →
        scaled b k ((b : ℚ) ^ Int.log b q) = (b : ℚ) ^ Int.log b q := by
      intro k hk
      have hone := @scaled_multiple b k hb _ hk 1
      rwa [Int.cast_one, one_mul] at hone
    calc scaled b (fexp (Int.log b p)) p
        ≤ scaled b (fexp (Int.log b p)) ((b : ℚ) ^ Int.log b q) := scaled_mono hb hpow
      _ = (b : ℚ) ^ Int.log b q := hkeep (hlt.le.trans (hsteps.lt hlt))
      _ = scaled b (fexp (Int.log b q)) ((b : ℚ) ^ Int.log b q) := (hkeep (hsteps.lt hlt)).symm
      _ ≤ scaled b (fexp (Int.log b q)) q := scaled_mono hb (Int.zpow_log_le_self hb hq)

end Varsten.Python.Rounding
