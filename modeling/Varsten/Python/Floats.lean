import Varsten.Python.Rounding
import Varsten.Python.Text

/-!
# Floats

What a `float` is as far as comparisons and bounds go: a number of 53 binary digits, one of the two
infinities, or nan, which compares with nothing. `digit` gives the decimal digits of Unicode their
value.
-/

namespace Varsten.Python.Floats

open Python.Rounding
open Python.Utf8 (Text)

inductive PyFloat where
  | finite (x : ℚ)
  | inf (negative : Bool)
  | nan
deriving DecidableEq

namespace PyFloat

def maxExp : ℕ := 1024

def lastDigit (k : ℤ) : ℤ := max (k - 52) (-1074)

/-- The nearest number of 53 digits, as if there were no end of the range above. -/
def nearest (x : ℚ) : ℚ := rounded 2 lastDigit x

def ofRat (x : ℚ) : PyFloat :=
  if |nearest x| < 2 ^ maxExp then .finite (nearest x) else .inf (x < 0)

/-- `float(n)`, which raises past the range. -/
def ofNat (n : ℕ) : Option PyFloat :=
  if nearest n < 2 ^ maxExp then some (.finite (nearest n)) else none

theorem steps_lastDigit : Steps lastDigit where
  mono j k h := max_le_max_right _ (by omega)
  lt {j k} h := by
    unfold lastDigit at h ⊢
    omega

theorem nearest_mono {x y : ℚ} (hx : 0 ≤ x) (h : x ≤ y) : nearest x ≤ nearest y :=
  rounded_mono (by norm_num) steps_lastDigit hx h

theorem nearest_nonneg {x : ℚ} (h : 0 ≤ x) : 0 ≤ nearest x := rounded_nonneg (by norm_num) h

theorem nearest_nonpos {x : ℚ} (h : x ≤ 0) : nearest x ≤ 0 := rounded_nonpos (by norm_num) h

theorem nearest_pow (i : ℕ) : nearest (2 ^ i : ℕ) = 2 ^ i := by
  have hpow := @rounded_pow 2 lastDigit (by norm_num) i (by unfold lastDigit; omega)
  rw [zpow_natCast] at hpow
  rw [nearest]
  push_cast at hpow ⊢
  exact hpow

theorem ofNat_pow {i : ℕ} (h : i < maxExp) : ofNat (2 ^ i) = some (.finite (2 ^ i)) := by
  rw [ofNat, nearest_pow]
  exact if_pos (pow_lt_pow_right₀ (by norm_num) h)

theorem ofNat_pow_none {i : ℕ} (h : maxExp ≤ i) : ofNat (2 ^ i) = none := by
  rw [ofNat, nearest_pow]
  exact if_neg (not_lt.2 (pow_le_pow_right₀ (by norm_num) h))

def neg : PyFloat → PyFloat
  | .finite x => .finite (-x)
  | .inf negative => .inf !negative
  | .nan => .nan

def lt : PyFloat → PyFloat → Bool
  | .finite x, .finite y => x < y
  | .finite _, .inf negative => !negative
  | .inf negative, .finite _ => negative
  | .inf negative, .inf negative' => negative && !negative'
  | .nan, _ | _, .nan => false

def le : PyFloat → PyFloat → Bool
  | .finite x, .finite y => x ≤ y
  | .finite _, .inf negative => !negative
  | .inf negative, .finite _ => negative
  | .inf negative, .inf negative' => negative || !negative'
  | .nan, _ | _, .nan => false

/-- `min(x, y)`: the first unless the second is less. -/
def min (x y : PyFloat) : PyFloat := if y.lt x then y else x

def mul : PyFloat → PyFloat → PyFloat
  | .finite x, .finite y => ofRat (x * y)
  | .finite x, .inf negative | .inf negative, .finite x =>
    if x = 0 then .nan else .inf (negative ^^ decide (x < 0))
  | .inf negative, .inf negative' => .inf (negative ^^ negative')
  | .nan, _ | _, .nan => .nan

def nonneg (x : PyFloat) : Bool := le (.finite 0) x

def Within (bound x : PyFloat) : Prop :=
  ∃ q : ℚ, x = .finite q ∧ 0 ≤ q ∧ le x bound = true

/-- A value that `min` with a bound brings into it: neither is negative or nan, and one of them is
a number. -/
def Fits (bound x : PyFloat) : Prop :=
  nonneg bound = true ∧ nonneg x = true ∧ ¬ (bound = .inf false ∧ x = .inf false)

theorem within_finite {bound : PyFloat} {q : ℚ} :
    Within bound (.finite q) ↔ 0 ≤ q ∧ le (.finite q) bound = true := by
  constructor
  · rintro ⟨_, hq, h⟩
    obtain rfl := PyFloat.finite.inj hq
    exact h
  · exact fun h => ⟨q, rfl, h⟩

theorem not_within_nan {bound : PyFloat} : ¬ Within bound .nan := by
  rintro ⟨_, h, -⟩
  cases h

theorem not_within_inf {bound : PyFloat} {negative : Bool} : ¬ Within bound (.inf negative) := by
  rintro ⟨_, h, -⟩
  cases h

theorem within_min_iff {bound x : PyFloat} : Within bound (min x bound) ↔ Fits bound x := by
  cases x with
  | nan =>
    have hmin : min .nan bound = .nan := by cases bound <;> rfl
    rw [hmin]
    exact iff_of_false not_within_nan fun h => Bool.false_ne_true h.2.1
  | inf negative =>
    cases negative with
    | true =>
      have hmin : min (.inf true) bound = .inf true := by
        cases bound with
        | inf n => cases n <;> rfl
        | _ => rfl
      rw [hmin]
      exact iff_of_false not_within_inf fun h => Bool.false_ne_true h.2.1
    | false =>
      cases bound with
      | finite b =>
        have hmin : min (.inf false) (.finite b) = .finite b := rfl
        rw [hmin, within_finite, Fits]
        simp [nonneg, le]
      | inf n =>
        cases n with
        | true => exact iff_of_false not_within_inf fun h => Bool.false_ne_true h.1
        | false => exact iff_of_false not_within_inf fun h => h.2.2 ⟨rfl, rfl⟩
      | nan => exact iff_of_false not_within_inf fun h => Bool.false_ne_true h.1
  | finite q =>
    cases bound with
    | finite b =>
      by_cases hlt : b < q
      · have hmin : min (.finite q) (.finite b) = .finite b := if_pos (decide_eq_true hlt)
        rw [hmin, within_finite, Fits]
        simp only [nonneg, le, decide_eq_true_eq, le_refl, and_true, reduceCtorEq, false_and,
          not_false_eq_true]
        exact ⟨fun h => ⟨h, h.trans hlt.le⟩, fun h => h.1⟩
      · have hmin : min (.finite q) (.finite b) = .finite q :=
          if_neg fun h => hlt (of_decide_eq_true h)
        rw [hmin, within_finite, Fits]
        simp only [nonneg, le, decide_eq_true_eq, reduceCtorEq, false_and, not_false_eq_true,
          and_true]
        exact ⟨fun h => ⟨h.1.trans h.2, h.1⟩, fun h => ⟨h.2, not_lt.1 hlt⟩⟩
    | inf n =>
      cases n with
      | true => exact iff_of_false not_within_inf fun h => Bool.false_ne_true h.1
      | false =>
        have hmin : min (.finite q) (.inf false) = .finite q := rfl
        rw [hmin, within_finite, Fits]
        simp [nonneg, le]
    | nan =>
      have hmin : min (.finite q) .nan = .finite q := rfl
      rw [hmin, within_finite]
      exact iff_of_false (fun h => Bool.false_ne_true h.2) fun h => Bool.false_ne_true h.1

/-! ## A part of a value -/

def IsFloat (x : PyFloat) : Prop := ∀ q, x = .finite q → nearest q = q

/-- `x * r` for `r` from 0 up to 1, which stays in the range. -/
def scale (r : ℚ) : PyFloat → PyFloat
  | .finite x => .finite (nearest (x * r))
  | .inf negative => if r = 0 then .nan else .inf negative
  | .nan => .nan

theorem le_of_min {bound x : PyFloat} {q : ℚ} (h : min x bound = .finite q)
    (hb : bound ≠ .nan) : le (.finite q) bound = true := by
  unfold min at h
  split_ifs at h with hlt
  · subst h
    exact decide_eq_true le_rfl
  · subst h
    cases bound with
    | finite b => exact decide_eq_true (not_lt.1 fun h => hlt (decide_eq_true h))
    | inf negative =>
      cases negative with
      | true => exact absurd rfl hlt
      | false => rfl
    | nan => exact absurd rfl hb

theorem le_nearest_part {bound : PyFloat} {q r : ℚ} (hb : bound.IsFloat) (hq : 0 ≤ q) (hr : 0 ≤ r)
    (hr' : r ≤ 1) (h : le (.finite q) bound = true) :
    le (.finite (nearest (q * r))) bound = true := by
  cases bound with
  | finite b =>
    have hpart : q * r ≤ b := (mul_le_of_le_one_right hq hr').trans (of_decide_eq_true h)
    have hround := nearest_mono (mul_nonneg hq hr) hpart
    rw [hb b rfl] at hround
    exact decide_eq_true hround
  | inf negative => exact h
  | nan => exact h

/-- A value brought under a bound and then reduced to a part of it is within the bound where it was
before, or where the part rounds to zero. -/
theorem within_scale_iff {bound x : PyFloat} {r : ℚ} (hb : bound.IsFloat) (hr : 0 ≤ r)
    (hr' : r ≤ 1) : Within bound (scale r (min x bound)) ↔
      Fits bound x ∨
        nonneg bound = true ∧ ∃ q, min x bound = .finite q ∧ nearest (q * r) = 0 := by
  rw [← within_min_iff]
  cases hm : min x bound with
  | nan =>
    refine iff_of_false not_within_nan ?_
    rintro (h | ⟨-, _, h, -⟩)
    · exact not_within_nan h
    · cases h
  | inf negative =>
    refine iff_of_false ?_ ?_
    · unfold scale
      split_ifs
      · exact not_within_nan
      · exact not_within_inf
    · rintro (h | ⟨-, _, h, -⟩)
      · exact not_within_inf h
      · cases h
  | finite q =>
    rw [scale, within_finite, within_finite]
    constructor
    · rintro ⟨hpart, hle⟩
      rcases le_or_gt 0 q with hq | hq
      · refine .inl ⟨hq, le_of_min hm ?_⟩
        rintro rfl
        cases hle
      · have hzero : nearest (q * r) = 0 :=
          le_antisymm (nearest_nonpos (mul_nonpos_of_nonpos_of_nonneg hq.le hr)) hpart
        rw [hzero] at hle
        exact .inr ⟨hle, q, rfl, hzero⟩
    · rintro (⟨hq, hle⟩ | ⟨hbound, _, hq, hzero⟩)
      · exact ⟨nearest_nonneg (mul_nonneg hq hr), le_nearest_part hb hq hr hr' hle⟩
      · obtain rfl := PyFloat.finite.inj hq
        rw [hzero]
        exact ⟨le_rfl, hbound⟩

end PyFloat

/-! ## The text of a float -/

section Parse

variable (digit : Char → Option ℕ)

def digitPart (s : Text) : Option (List ℕ) :=
  let groups := s.splitOn '_'
  if groups.any List.isEmpty then none else groups.flatten.mapM digit

def value (digits : List ℕ) : ℕ := Nat.ofDigits 10 digits.reverse

def signed {α : Type} (neg : α → α) (parse : Text → Option α) : Text → Option α
  | '+' :: s => parse s
  | '-' :: s => (parse s).map neg
  | s => parse s

/-- The digits before and after a point, on one side of which there may be none. -/
def pointed (s : Text) : Option (List ℕ × List ℕ) :=
  match s.span (· ≠ '.') with
  | (whole, []) => do return (← digitPart digit whole, [])
  | (whole, _ :: []) => do return (← digitPart digit whole, [])
  | ([], _ :: part) => do return ([], ← digitPart digit part)
  | (whole, _ :: part) => do return (← digitPart digit whole, ← digitPart digit part)

def exponent : Text → Option ℤ
  | [] => some 0
  | _ :: s => signed (-·) (fun t => (digitPart digit t).map fun ds => (value ds : ℤ)) s

def number (s : Text) : Option ℚ := do
  let (mantissa, rest) := s.span fun c => c.toLower ≠ 'e'
  let (whole, part) ← pointed digit mantissa
  let power ← exponent digit rest
  return value (whole ++ part) * (10 : ℚ) ^ (power - part.length)

def unsigned (s : Text) : Option PyFloat :=
  let name := s.map Char.toLower
  if name = "inf".toList ∨ name = "infinity".toList then some (.inf false)
  else if name = "nan".toList then some .nan
  else (number digit s).map PyFloat.ofRat

/-- `float(s)`, `none` where it raises `ValueError`. -/
def parse (s : Text) : Option PyFloat := signed PyFloat.neg (unsigned digit) (Python.Text.strip s)

end Parse

def asciiDigit (c : Char) : Option ℕ := if c.isDigit then some (c.toNat - '0'.toNat) else none

example : parse asciiDigit " -1_0.5e1\n".toList = some (.finite (-105)) := by decide +kernel

example : parse asciiDigit "1__0".toList = none := by decide +kernel

example : parse asciiDigit "-1e-400".toList = some (.finite 0) := by decide +kernel

end Varsten.Python.Floats
