import Mathlib

/-!
# Rounding next to a square root

The floor and the rounding of `a - √b`, for rational `a` and `b`, without the root.
-/

namespace Varsten.Python.SquareRoots

/-- `⌊a - √b⌋`. -/
def floorSubSqrt (a b : ℚ) : ℤ :=
  let k := ⌊a - Nat.sqrt ⌊b⌋₊⌋
  if k ≤ a ∧ b ≤ (a - k) ^ 2 then k else k - 1

/-- `a - √b` to the nearest whole number, ties to even. -/
def roundSubSqrt (a b : ℚ) : ℤ :=
  let k := floorSubSqrt a b
  let rest := a - k - 1 / 2
  if rest < 0 ∨ rest ^ 2 < b then k
  else if b < rest ^ 2 then k + 1
  else if k % 2 = 0 then k else k + 1

variable {a b : ℚ}

theorem natSqrt_le_sqrt (hb : 0 ≤ b) : (Nat.sqrt ⌊b⌋₊ : ℝ) ≤ √(b : ℝ) := by
  apply Real.le_sqrt_of_sq_le
  have hsq : ((Nat.sqrt ⌊b⌋₊ ^ 2 : ℕ) : ℚ) ≤ ⌊b⌋₊ := Nat.cast_le.2 (Nat.sqrt_le' _)
  have hfloor : (⌊b⌋₊ : ℚ) ≤ b := Nat.floor_le hb
  exact_mod_cast hsq.trans hfloor

theorem sqrt_lt_natSqrt_add_one (b : ℚ) : √(b : ℝ) < Nat.sqrt ⌊b⌋₊ + 1 := by
  rw [Real.sqrt_lt' (by positivity)]
  have hsq : ((⌊b⌋₊ + 1 : ℕ) : ℚ) ≤ ((Nat.sqrt ⌊b⌋₊ + 1) ^ 2 : ℕ) :=
    Nat.cast_le.2 (Nat.succ_le_succ_sqrt' _)
  have hfloor : b < (⌊b⌋₊ + 1 : ℕ) := by
    push_cast
    exact Nat.lt_floor_add_one b
  exact_mod_cast hfloor.trans_le hsq

theorem floorSubSqrt_eq (a : ℚ) (hb : 0 ≤ b) : floorSubSqrt a b = ⌊(a : ℝ) - √(b : ℝ)⌋ := by
  have hlow := natSqrt_le_sqrt hb
  have hhigh := sqrt_lt_natSqrt_add_one b
  set r := Nat.sqrt ⌊b⌋₊ with hr
  have hk := Int.floor_le (a - (r : ℚ))
  have hk' := Int.lt_floor_add_one (a - (r : ℚ))
  unfold floorSubSqrt
  rw [← hr]
  set k := ⌊a - (r : ℚ)⌋
  have hkr : (k : ℝ) ≤ a - r := by exact_mod_cast hk
  have hkr' : (a : ℝ) - r < k + 1 := by exact_mod_cast hk'
  have hroot : (k ≤ a ∧ b ≤ (a - k) ^ 2) ↔ √(b : ℝ) ≤ a - k := by
    rw [Real.sqrt_le_iff, sub_nonneg]
    norm_cast
  dsimp only
  split_ifs with h
  · exact (Int.floor_eq_iff.2 ⟨by linarith [hroot.1 h], by linarith⟩).symm
  · have hgt : (a : ℝ) - k < √(b : ℝ) := not_le.1 fun hle => h (hroot.2 hle)
    refine (Int.floor_eq_iff.2 ⟨?_, ?_⟩).symm <;> push_cast <;> linarith

end Varsten.Python.SquareRoots
