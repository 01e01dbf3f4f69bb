import Mathlib

/-!
# Months

The proleptic Gregorian calendar of `datetime`. Months are counted from January of year 1, and
moments are seconds from its first midnight.
-/

namespace Varsten.Python.Calendar

def isLeap (year : ℕ) : Bool := year % 4 = 0 && (year % 100 ≠ 0 || year % 400 = 0)

def daysBeforeYear (year : ℕ) : ℕ :=
  let y := year - 1
  y * 365 + y / 4 - y / 100 + y / 400

def monthDays : List ℕ := [31, 28, 31, 30, 31, 30, 31, 31, 30, 31, 30, 31]

def daysBeforeMonth (year month : ℕ) : ℕ :=
  (monthDays.take (month - 1)).sum + if 2 < month ∧ isLeap year then 1 else 0

def yearOf (k : ℕ) : ℕ := k / 12 + 1

def monthLength (k : ℕ) : ℕ :=
  (monthDays[k % 12]?).getD 0 + if k % 12 = 1 ∧ isLeap (yearOf k) then 1 else 0

def startDay (k : ℕ) : ℕ := daysBeforeYear (yearOf k) + daysBeforeMonth (yearOf k) (k % 12 + 1)

theorem daysBeforeYear_succ (y : ℕ) :
    daysBeforeYear (y + 2) = daysBeforeYear (y + 1) + 365 + if isLeap (y + 1) then 1 else 0 := by
  unfold daysBeforeYear isLeap
  have h4 : (y + 1) / 4 = y / 4 + if (y + 1) % 4 = 0 then 1 else 0 := by split_ifs <;> omega
  have h100 : (y + 1) / 100 = y / 100 + if (y + 1) % 100 = 0 then 1 else 0 := by
    split_ifs <;> omega
  have h400 : (y + 1) / 400 = y / 400 + if (y + 1) % 400 = 0 then 1 else 0 := by
    split_ifs <;> omega
  have hsub : y + 2 - 1 = y + 1 := rfl
  simp only [hsub, Nat.add_sub_cancel, Bool.and_eq_true, Bool.or_eq_true, decide_eq_true_eq]
  split_ifs at * <;> omega

theorem daysBeforeMonth_succ (year : ℕ) {m : ℕ} (h : m < 11) :
    daysBeforeMonth year (m + 2) = daysBeforeMonth year (m + 1) + (monthDays[m]?).getD 0 +
      if m = 1 ∧ isLeap year then 1 else 0 := by
  cases hl : isLeap year <;> interval_cases m <;> simp [daysBeforeMonth, monthDays, hl]

theorem startDay_succ (k : ℕ) : startDay (k + 1) = startDay k + monthLength k := by
  obtain ⟨y, m, hm, rfl⟩ : ∃ y m, m < 12 ∧ k = 12 * y + m :=
    ⟨k / 12, k % 12, Nat.mod_lt _ (by norm_num), (Nat.div_add_mod k 12).symm⟩
  have hyear : (12 * y + m) / 12 = y := by omega
  have hmod : (12 * y + m) % 12 = m := by omega
  unfold startDay monthLength yearOf
  rw [hyear, hmod]
  rcases Nat.lt_or_ge m 11 with hlt | hge
  · have hyear' : (12 * y + m + 1) / 12 = y := by omega
    have hmod' : (12 * y + m + 1) % 12 = m + 1 := by omega
    rw [hyear', hmod', daysBeforeMonth_succ _ hlt]
    omega
  · obtain rfl : m = 11 := by omega
    have hyear' : (12 * y + 11 + 1) / 12 = y + 1 := by omega
    have hmod' : (12 * y + 11 + 1) % 12 = 0 := by omega
    rw [hyear', hmod', daysBeforeYear_succ]
    cases hl : isLeap (y + 1) <;> simp [daysBeforeMonth, monthDays, hl]

theorem monthLength_bounds (k : ℕ) : 28 ≤ monthLength k ∧ monthLength k ≤ 31 := by
  have hlt : k % 12 < 12 := Nat.mod_lt _ (by norm_num)
  unfold monthLength
  generalize k % 12 = m at hlt
  cases isLeap (yearOf k) <;> interval_cases m <;> decide

theorem startDay_strictMono : StrictMono startDay := by
  refine strictMono_nat_of_lt_succ fun k => ?_
  rw [startDay_succ]
  have hlen := (monthLength_bounds k).1
  omega

theorem le_startDay (k : ℕ) : 28 * k ≤ startDay k := by
  induction k with
  | zero => exact Nat.zero_le _
  | succ k ih =>
    rw [startDay_succ]
    have hlen := (monthLength_bounds k).1
    omega

/-! ## The month of a moment -/

def secondsPerDay : ℚ := 86400

def dayOf (t : ℚ) : ℕ := ⌊t / secondsPerDay⌋.toNat

def startOf (k : ℕ) : ℚ := startDay k * secondsPerDay

def monthOf (t : ℚ) : ℕ :=
  Nat.findGreatest (fun k => startOf k ≤ t) (dayOf t / 28)

theorem dayOf_mono {t u : ℚ} (h : t ≤ u) : dayOf t ≤ dayOf u :=
  Int.toNat_le_toNat (Int.floor_mono (div_le_div_of_nonneg_right h (by norm_num [secondsPerDay])))

theorem monthOf_mono {t u : ℚ} (h : t ≤ u) : monthOf t ≤ monthOf u :=
  Nat.findGreatest_mono (fun _ hk => hk.trans h) (Nat.div_le_div_right (dayOf_mono h))

theorem startOf_strictMono : StrictMono startOf := fun _ _ h =>
  mul_lt_mul_of_pos_right (Nat.cast_lt.2 (startDay_strictMono h)) (by norm_num [secondsPerDay])

theorem startOf_succ (k : ℕ) : startOf (k + 1) = startOf k + monthLength k * secondsPerDay := by
  rw [startOf, startDay_succ, startOf]
  push_cast
  ring

theorem monthOf_eq {t : ℚ} {k : ℕ} (hlo : startOf k ≤ t) (hhi : t < startOf (k + 1)) :
    monthOf t = k := by
  have hday : (startDay k : ℚ) ≤ t / secondsPerDay :=
    (le_div_iff₀ (by norm_num [secondsPerDay])).2 hlo
  have hbound : k ≤ dayOf t / 28 := by
    have hfloor : (startDay k : ℤ) ≤ ⌊t / secondsPerDay⌋ := Int.le_floor.2 (by exact_mod_cast hday)
    have hk := le_startDay k
    unfold dayOf
    omega
  refine (Nat.findGreatest_eq_iff).2 ⟨hbound, fun _ => hlo, fun n hn _ hle => ?_⟩
  exact absurd (hhi.trans_le (startOf_strictMono.monotone (Nat.succ_le_of_lt hn))) (not_lt.2 hle)

end Varsten.Python.Calendar
