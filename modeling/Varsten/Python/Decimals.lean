import Mathlib

/-!
# Decimals

A `Decimal` is its value: sums and products of prices and token counts fit the 28 digits of the
default context, so only `quantize` rounds.
-/

namespace Varsten.Python.Decimals

/-- `ROUND_HALF_UP`: ties go away from zero. -/
def roundHalfUp (q : ℚ) : ℤ := if 0 ≤ q then ⌊q + 1 / 2⌋ else -⌊-q + 1 / 2⌋

/-- `ROUND_HALF_EVEN`, the rounding `quantize` has unless told otherwise. -/
def roundHalfEven (q : ℚ) : ℤ :=
  let rest := q - ⌊q⌋
  if rest < 1 / 2 then ⌊q⌋
  else if 1 / 2 < rest then ⌊q⌋ + 1
  else if ⌊q⌋ % 2 = 0 then ⌊q⌋ else ⌊q⌋ + 1

/-- `quantize` to the exponent of `1 / scale`. -/
def quantize (round : ℚ → ℤ) (scale : ℕ) (q : ℚ) : ℚ := round (q * scale) / scale

theorem quantize_inj {round : ℚ → ℤ} {scale : ℕ} (hs : scale ≠ 0) {a b : ℚ} :
    quantize round scale a = quantize round scale b ↔ round (a * scale) = round (b * scale) := by
  have hs' : (scale : ℚ) ≠ 0 := Nat.cast_ne_zero.2 hs
  simp only [quantize, div_left_inj' hs', Int.cast_inj]

@[simp] theorem roundHalfUp_zero : roundHalfUp 0 = 0 := by
  norm_num [roundHalfUp]

theorem roundHalfUp_nonneg {q : ℚ} (h : 0 ≤ q) : 0 ≤ roundHalfUp q := by
  rw [roundHalfUp, if_pos h]
  exact Int.floor_nonneg.2 (by linarith)

theorem roundHalfUp_nonpos {q : ℚ} (h : q < 0) : roundHalfUp q ≤ 0 := by
  rw [roundHalfUp, if_neg (not_le.2 h), neg_nonpos]
  exact Int.floor_nonneg.2 (by linarith)

theorem roundHalfUp_mono {a b : ℚ} (h : a ≤ b) : roundHalfUp a ≤ roundHalfUp b := by
  rcases lt_or_ge a 0 with ha | ha
  · rcases lt_or_ge b 0 with hb | hb
    · rw [roundHalfUp, roundHalfUp, if_neg (not_le.2 ha), if_neg (not_le.2 hb), neg_le_neg_iff]
      exact Int.floor_mono (by linarith)
    · exact (roundHalfUp_nonpos ha).trans (roundHalfUp_nonneg hb)
  · rw [roundHalfUp, roundHalfUp, if_pos ha, if_pos (ha.trans h)]
    exact Int.floor_mono (by linarith)

theorem roundHalfUp_le_iff {q : ℚ} {m : ℤ} (hm : 0 ≤ m) : roundHalfUp q ≤ m ↔ q < m + 1 / 2 := by
  rcases lt_or_ge q 0 with hq | hq
  · have hm' : (0 : ℚ) ≤ m := Int.cast_nonneg hm
    exact iff_of_true ((roundHalfUp_nonpos hq).trans hm) (by linarith)
  · rw [roundHalfUp, if_pos hq, ← Int.lt_add_one_iff, Int.floor_lt]
    push_cast
    constructor <;> intro h <;> linarith

theorem quantize_mono {round : ℚ → ℤ} (hr : ∀ a b, a ≤ b → round a ≤ round b) (scale : ℕ)
    {a b : ℚ} (h : a ≤ b) : quantize round scale a ≤ quantize round scale b := by
  have hm : a * scale ≤ b * scale := mul_le_mul_of_nonneg_right h (Nat.cast_nonneg scale)
  exact div_le_div_of_nonneg_right (Int.cast_le.2 (hr _ _ hm)) (Nat.cast_nonneg scale)

theorem roundHalfEven_intCast (n : ℤ) : roundHalfEven n = n := by
  norm_num [roundHalfEven]

theorem floor_le_roundHalfEven (q : ℚ) : ⌊q⌋ ≤ roundHalfEven q := by
  unfold roundHalfEven
  dsimp only
  split_ifs <;> omega

theorem roundHalfEven_le_floor (q : ℚ) : roundHalfEven q ≤ ⌊q⌋ + 1 := by
  unfold roundHalfEven
  dsimp only
  split_ifs <;> omega

theorem roundHalfEven_mono {a b : ℚ} (h : a ≤ b) : roundHalfEven a ≤ roundHalfEven b := by
  rcases (Int.floor_mono h).eq_or_lt with hfloor | hfloor
  · have hrest : a - ⌊a⌋ ≤ b - ⌊b⌋ := by
      rw [hfloor]
      linarith
    unfold roundHalfEven
    dsimp only
    rw [hfloor] at hrest ⊢
    split_ifs <;> first | omega | linarith
  · have hle := roundHalfEven_le_floor a
    have hge := floor_le_roundHalfEven b
    omega

theorem roundHalfUp_intCast (n : ℤ) : roundHalfUp n = n := by
  have hfloor : ∀ m : ℤ, ⌊(m : ℚ) + 1 / 2⌋ = m := fun m => by
    rw [Int.floor_eq_iff]
    norm_num
  rw [roundHalfUp, ← Int.cast_neg, hfloor, hfloor, neg_neg, ite_self]

/-- A tie of `roundHalfUp`. -/
def Tie (q : ℚ) : Prop := ∃ m : ℤ, q + 1 / 2 = m

/-- Whole numbers that are added are not rounded, unless they take a tie across zero. -/
theorem roundHalfUp_add_intCast {q : ℚ} {n : ℤ} (h : (0 ≤ q ∧ 0 ≤ q + n) ∨ ¬ Tie q) :
    roundHalfUp (q + n) = roundHalfUp q + n := by
  have hup : ∀ x : ℚ, ¬ Tie x → roundHalfUp x = ⌊x + 1 / 2⌋ := by
    intro x hx
    unfold roundHalfUp
    split_ifs
    · rfl
    · have hne : ((⌊x + 1 / 2⌋ : ℤ) : ℚ) ≠ x + 1 / 2 := fun heq => hx ⟨_, heq.symm⟩
      have hlt := lt_of_le_of_ne (Int.floor_le (x + 1 / 2)) hne
      have hlt' := Int.lt_floor_add_one (x + 1 / 2)
      have hfloor : ⌊-x + 1 / 2⌋ = -⌊x + 1 / 2⌋ := by
        rw [Int.floor_eq_iff]
        push_cast
        constructor <;> linarith
      rw [hfloor, neg_neg]
  have hsum : q + n + 1 / 2 = q + 1 / 2 + n := by ring
  rcases h with ⟨hq, hqn⟩ | htie
  · rw [roundHalfUp, roundHalfUp, if_pos hq, if_pos hqn, hsum, Int.floor_add_intCast]
  · have htie' : ¬ Tie (q + n) := by
      rintro ⟨m, hm⟩
      exact htie ⟨m - n, by push_cast; linarith⟩
    rw [hup q htie, hup _ htie', hsum, Int.floor_add_intCast]

theorem quantize_intCast {round : ℚ → ℤ} (hr : ∀ n : ℤ, round n = n) {scale : ℕ} (hs : scale ≠ 0)
    (n : ℤ) : quantize round scale n = n := by
  have hs' : (scale : ℚ) ≠ 0 := Nat.cast_ne_zero.2 hs
  have hn : (n : ℚ) * scale = ((n * scale : ℤ) : ℚ) := by push_cast; rfl
  rw [quantize, hn, hr]
  push_cast
  rw [mul_div_cancel_right₀ _ hs']

theorem abs_roundHalfEven_sub_le (q : ℚ) : |roundHalfEven q - q| ≤ 1 := by
  have h1 := Int.floor_le q
  have h2 := Int.lt_floor_add_one q
  rw [abs_le]
  unfold roundHalfEven
  dsimp only
  split_ifs <;> push_cast <;> constructor <;> linarith

theorem abs_quantize_sub_le {scale : ℕ} (hs : scale ≠ 0) (q : ℚ) :
    |quantize roundHalfEven scale q - q| ≤ 1 := by
  have hone : (1 : ℚ) ≤ scale := by exact_mod_cast Nat.one_le_iff_ne_zero.2 hs
  have hpos : (0 : ℚ) < scale := by linarith
  have hsub : quantize roundHalfEven scale q - q =
      (roundHalfEven (q * scale) - q * scale) / scale := by
    rw [quantize, sub_div, mul_div_cancel_right₀ _ hpos.ne']
  rw [hsub, abs_div, abs_of_pos hpos, div_le_one hpos]
  exact (abs_roundHalfEven_sub_le _).trans hone

theorem quantize_digits {scale : ℕ} (hs : scale ≠ 0) (n : ℤ) :
    quantize roundHalfEven scale (n / scale) = n / scale := by
  have hs' : (scale : ℚ) ≠ 0 := Nat.cast_ne_zero.2 hs
  rw [quantize, div_mul_cancel₀ _ hs', roundHalfEven_intCast]

/-- At most half from a whole number, and at exactly half on the side of zero. -/
def RoundsTo (q : ℚ) (n : ℤ) : Prop :=
  if 0 ≤ q then n ≤ q + 1 / 2 ∧ q + 1 / 2 < n + 1 else n - 1 < q - 1 / 2 ∧ q - 1 / 2 ≤ n

theorem roundHalfUp_eq_iff {q : ℚ} {n : ℤ} : roundHalfUp q = n ↔ RoundsTo q n := by
  unfold roundHalfUp RoundsTo
  split_ifs with hq
  · exact Int.floor_eq_iff
  · rw [neg_eq_iff_eq_neg, Int.floor_eq_iff, Int.cast_neg]
    constructor
    · rintro ⟨hle, hlt⟩
      exact ⟨by linarith, by linarith⟩
    · rintro ⟨hlt, hle⟩
      exact ⟨by linarith, by linarith⟩

theorem abs_roundHalfUp_sub_le (q : ℚ) : |roundHalfUp q - q| ≤ 1 / 2 := by
  have hround : RoundsTo q (roundHalfUp q) := roundHalfUp_eq_iff.1 rfl
  unfold RoundsTo at hround
  rw [abs_le]
  split_ifs at hround <;> constructor <;> linarith [hround.1, hround.2]

theorem eq_of_quantize_multiples {scale : ℕ} (hs : scale ≠ 0) {a b : ℚ}
    (h : ∀ n : ℕ, 0 < n →
      quantize roundHalfUp scale (n * a) = quantize roundHalfUp scale (n * b)) : a = b := by
  by_contra hne
  have hscale : (0 : ℚ) < scale := Nat.cast_pos.2 (Nat.pos_of_ne_zero hs)
  have hgap : 0 < |a - b| * scale := mul_pos (abs_pos.2 (sub_ne_zero.2 hne)) hscale
  obtain ⟨n, hn⟩ := exists_nat_gt (1 / (|a - b| * scale))
  have hpos : 0 < n := by
    have hpos' : (0 : ℚ) < n := (by positivity : (0 : ℚ) < 1 / (|a - b| * scale)).trans hn
    exact_mod_cast hpos'
  have hlarge : 1 < n * (|a - b| * scale) := (div_lt_iff₀ hgap).1 hn
  have hround := (quantize_inj hs).1 (h n hpos)
  have ha := abs_roundHalfUp_sub_le (n * a * scale)
  have hb := abs_roundHalfUp_sub_le (n * b * scale)
  rw [hround, abs_le] at ha
  rw [abs_le] at hb
  have hdiff : |n * a * scale - n * b * scale| ≤ 1 := by
    rw [abs_le]
    constructor <;> linarith [ha.1, ha.2, hb.1, hb.2]
  have hfactor : n * a * scale - n * b * scale = n * ((a - b) * scale) := by ring
  rw [hfactor, abs_mul, abs_mul, abs_of_pos hscale, Nat.abs_cast] at hdiff
  linarith

end Varsten.Python.Decimals
