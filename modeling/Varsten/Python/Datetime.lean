import Varsten.Python.Calendar

/-!
# Datetimes

A `datetime` is the fields of a moment from year 1 to year 9999. Its instant counts microseconds
from the first midnight; arithmetic that leaves the years raises.
-/

namespace Varsten.Python.Datetime

open Python.Calendar

def minYear : ℕ := 1

def maxYear : ℕ := 9999

def monthIndex (year month : ℕ) : ℕ := 12 * (year - 1) + (month - 1)

structure Fields where
  year : ℕ
  month : ℕ
  day : ℕ
  hour : ℕ
  minute : ℕ
  second : ℕ
  microsecond : ℕ
deriving DecidableEq

structure Fields.Valid (f : Fields) : Prop where
  year : minYear ≤ f.year ∧ f.year ≤ maxYear
  month : 1 ≤ f.month ∧ f.month ≤ 12
  day : 1 ≤ f.day ∧ f.day ≤ monthLength (monthIndex f.year f.month)
  hour : f.hour < 24
  minute : f.minute < 60
  second : f.second < 60
  microsecond : f.microsecond < 10 ^ 6

instance (f : Fields) : Decidable f.Valid :=
  decidable_of_iff ((minYear ≤ f.year ∧ f.year ≤ maxYear) ∧ (1 ≤ f.month ∧ f.month ≤ 12) ∧
      (1 ≤ f.day ∧ f.day ≤ monthLength (monthIndex f.year f.month)) ∧ f.hour < 24 ∧
      f.minute < 60 ∧ f.second < 60 ∧ f.microsecond < 10 ^ 6)
    ⟨fun ⟨h1, h2, h3, h4, h5, h6, h7⟩ => ⟨h1, h2, h3, h4, h5, h6, h7⟩,
      fun h => ⟨h.year, h.month, h.day, h.hour, h.minute, h.second, h.microsecond⟩⟩

abbrev DateTime := {f : Fields // f.Valid}

/-- The constructor, and `replace`, of checked fields. -/
def ofFields (f : Fields) : Option DateTime := if h : f.Valid then some ⟨f, h⟩ else none

theorem ofFields_eq {f : Fields} (h : f.Valid) : ofFields f = some ⟨f, h⟩ := dif_pos h

def microsPerDay : ℕ := 86400 * 10 ^ 6

namespace Fields

variable (f : Fields)

def index : ℕ := monthIndex f.year f.month

def ordinal : ℕ := startDay f.index + (f.day - 1)

def microOfDay : ℕ := ((f.hour * 60 + f.minute) * 60 + f.second) * 10 ^ 6 + f.microsecond

def instant : ℕ := f.ordinal * microsPerDay + f.microOfDay

end Fields

def maxInstant : ℕ := startDay (12 * maxYear) * microsPerDay

def monthOfDay (d : ℕ) : ℕ := monthOf (d * secondsPerDay)

/-- The fields of the microsecond `m` of a day. -/
def fieldsOf (d m : ℕ) : Fields where
  year := monthOfDay d / 12 + 1
  month := monthOfDay d % 12 + 1
  day := d - startDay (monthOfDay d) + 1
  hour := m / (3600 * 10 ^ 6)
  minute := m / (60 * 10 ^ 6) % 60
  second := m / 10 ^ 6 % 60
  microsecond := m % 10 ^ 6

/-- Where the arithmetic ends, `none` for an `OverflowError`. -/
def ofInstant (t : ℤ) : Option DateTime :=
  if 0 ≤ t ∧ t < maxInstant then
    ofFields (fieldsOf (t.toNat / microsPerDay) (t.toNat % microsPerDay))
  else none

/-! ## Instants -/

section Days

variable {d k : ℕ}

theorem monthOfDay_eq (hlo : startDay k ≤ d) (hhi : d < startDay (k + 1)) : monthOfDay d = k := by
  have hpos : (0 : ℚ) < secondsPerDay := by norm_num [secondsPerDay]
  refine monthOf_eq ?_ ?_
  · exact mul_le_mul_of_nonneg_right (Nat.cast_le.2 hlo) hpos.le
  · exact mul_lt_mul_of_pos_right (Nat.cast_lt.2 hhi) hpos

theorem exists_month (d : ℕ) : ∃ k, startDay k ≤ d ∧ d < startDay (k + 1) := by
  have hzero : startDay 0 ≤ d := by
    norm_num [startDay, yearOf, daysBeforeYear, daysBeforeMonth]
  have hex : ∃ k, d < startDay (k + 1) := ⟨d, by
    have hle := le_startDay (d + 1)
    omega⟩
  refine ⟨Nat.find hex, ?_, Nat.find_spec hex⟩
  cases hk : Nat.find hex with
  | zero => exact hzero
  | succ k => exact not_lt.1 (Nat.find_min hex (by omega))

theorem monthOfDay_spec (d : ℕ) : startDay (monthOfDay d) ≤ d ∧ d < startDay (monthOfDay d + 1) := by
  obtain ⟨k, hlo, hhi⟩ := exists_month d
  rw [monthOfDay_eq hlo hhi]
  exact ⟨hlo, hhi⟩

end Days

section FieldsOf

variable {d m : ℕ}

theorem index_fieldsOf : (fieldsOf d m).index = monthOfDay d := by
  simp only [Fields.index, monthIndex, fieldsOf]
  omega

theorem ordinal_fieldsOf : (fieldsOf d m).ordinal = d := by
  have hspec := (monthOfDay_spec d).1
  rw [Fields.ordinal, index_fieldsOf]
  simp only [fieldsOf]
  omega

theorem microOfDay_fieldsOf : (fieldsOf d m).microOfDay = m := by
  simp only [Fields.microOfDay, fieldsOf]
  omega

theorem fieldsOf_valid (hd : d < startDay (12 * maxYear)) (hm : m < microsPerDay) :
    (fieldsOf d m).Valid := by
  have hspec := monthOfDay_spec d
  have hmonth : monthOfDay d < 12 * maxYear := startDay_strictMono.lt_iff_lt.1 (hspec.1.trans_lt hd)
  have hindex : monthIndex (fieldsOf d m).year (fieldsOf d m).month = monthOfDay d := index_fieldsOf
  have hsucc := startDay_succ (monthOfDay d)
  simp only [maxYear] at hmonth
  simp only [microsPerDay] at hm
  refine ⟨?_, ?_, ?_, ?_, ?_, ?_, ?_⟩
  · simp only [fieldsOf, minYear, maxYear]
    omega
  · simp only [fieldsOf]
    omega
  · rw [hindex]
    simp only [fieldsOf]
    omega
  · simp only [fieldsOf]
    omega
  · simp only [fieldsOf]
    omega
  · simp only [fieldsOf]
    omega
  · simp only [fieldsOf]
    omega

end FieldsOf

theorem ofInstant_eq_some {t : ℤ} (h : 0 ≤ t ∧ t < maxInstant) :
    ∃ dt, ofInstant t = some dt ∧ (dt.1.instant : ℤ) = t := by
  obtain ⟨n, rfl⟩ := Int.eq_ofNat_of_zero_le h.1
  have hn : n < maxInstant := by exact_mod_cast h.2
  have hpos : 0 < microsPerDay := by norm_num [microsPerDay]
  have hd : n / microsPerDay < startDay (12 * maxYear) := Nat.div_lt_of_lt_mul (by
    rw [maxInstant, mul_comm] at hn
    exact hn)
  have hvalid := fieldsOf_valid hd (Nat.mod_lt n hpos)
  refine ⟨⟨_, hvalid⟩, ?_, ?_⟩
  · rw [ofInstant, if_pos h, Int.toNat_natCast, ofFields_eq hvalid]
  · rw [Fields.instant, ordinal_fieldsOf, microOfDay_fieldsOf, Nat.div_add_mod']

theorem ofInstant_eq_none {t : ℤ} (h : ¬ (0 ≤ t ∧ t < maxInstant)) : ofInstant t = none :=
  if_neg h

namespace Fields

variable {f : Fields}

theorem microOfDay_lt (h : f.Valid) : f.microOfDay < microsPerDay := by
  have hh := h.hour
  have hm := h.minute
  have hs := h.second
  have hu := h.microsecond
  rw [microOfDay, microsPerDay]
  omega

theorem ordinal_bounds (h : f.Valid) :
    startDay f.index ≤ f.ordinal ∧ f.ordinal < startDay (f.index + 1) := by
  have hday := h.day
  rw [startDay_succ, ordinal]
  unfold index at *
  omega

theorem index_lt (h : f.Valid) : f.index < 12 * maxYear := by
  have hy := h.year
  have hm := h.month
  rw [index, monthIndex]
  simp only [minYear, maxYear] at *
  omega

theorem instant_lt (h : f.Valid) : f.instant < maxInstant := by
  have hday := (ordinal_bounds h).2
  have hmicro := microOfDay_lt h
  have hle : startDay (f.index + 1) ≤ startDay (12 * maxYear) :=
    startDay_strictMono.monotone (index_lt h)
  calc f.instant < f.ordinal * microsPerDay + microsPerDay := Nat.add_lt_add_left hmicro _
    _ = (f.ordinal + 1) * microsPerDay := by ring
    _ ≤ startDay (12 * maxYear) * microsPerDay :=
      Nat.mul_le_mul_right _ ((Nat.succ_le_of_lt hday).trans hle)

end Fields

end Varsten.Python.Datetime
