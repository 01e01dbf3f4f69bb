import Varsten.Python.Datetime

/-!
# Period windows

`resolve_period` on datetimes of any offset: the window of a period to date, and the window as far
into the period before.
-/

namespace Varsten.Savings.Periods

open Python.Calendar
open Python.Datetime

inductive Period where
  | month
  | quarter
  | year
deriving DecidableEq

inductive Granularity where
  | day
  | week
  | month
deriving DecidableEq

def Period.granularity : Period → Granularity
  | .month => .day
  | .quarter => .week
  | .year => .month

structure PeriodWindow where
  period : Period
  start : DateTime
  stop : DateTime
  prevStart : DateTime
  prevEnd : DateTime
  granularity : Granularity

/-- A datetime and the microseconds its zone is ahead of UTC, `none` for a naive one. -/
structure Moment where
  fields : DateTime
  offset : Option ℤ

/-- The instant a moment names; a naive one is taken for UTC. -/
def Moment.instant (now : Moment) : ℤ := now.fields.1.instant - now.offset.getD 0

/-- `now.astimezone(UTC)`, or the fields of a naive moment. -/
def toUtc (now : Moment) : Option DateTime :=
  match now.offset with
  | some _ => ofInstant now.instant
  | none => some now.fields

def midnight (dt : DateTime) : Option DateTime :=
  ofFields { dt.1 with hour := 0, minute := 0, second := 0, microsecond := 0 }

def monthStart (dt : DateTime) : Option DateTime := do
  ofFields { (← midnight dt).1 with day := 1 }

def quarterStart (dt : DateTime) : Option DateTime := do
  ofFields { (← midnight dt).1 with month := (dt.1.month - 1) / 3 * 3 + 1, day := 1 }

def yearStart (dt : DateTime) : Option DateTime := do
  ofFields { (← midnight dt).1 with month := 1, day := 1 }

def periodStart (now : DateTime) : Period → Option DateTime
  | .month => monthStart now
  | .quarter => quarterStart now
  | .year => yearStart now

def previousStart (start : DateTime) : Period → Option DateTime
  | .year => ofFields { start.1 with year := start.1.year - 1 }
  | period => do periodStart (← ofInstant (start.1.instant - microsPerDay)) period

def resolvePeriod (now : Moment) (period : Period) : Option PeriodWindow := do
  let now ← toUtc now
  let start ← periodStart now period
  let prevStart ← previousStart start period
  let elapsed : ℤ := now.1.instant - start.1.instant
  let shifted ← ofInstant (prevStart.1.instant + elapsed)
  return {
    period
    start
    stop := now
    prevStart
    prevEnd := if start.1.instant < shifted.1.instant then start else shifted
    granularity := period.granularity }

/-! ## Boundaries -/

def firstOf (year month : ℕ) : Fields := ⟨year, month, 1, 0, 0, 0, 0⟩

def Period.months : Period → ℕ
  | .month => 1
  | .quarter => 3
  | .year => 12

/-- The first midnight of a month, of January, April, July or October, or of a year. -/
def Boundary (period : Period) (t : ℤ) : Prop :=
  ∃ year month, minYear ≤ year ∧ (1 ≤ month ∧ month ≤ 12) ∧ period.months ∣ month - 1 ∧
    ((firstOf year month).instant : ℤ) = t

/-- The first midnight of the `i`th period. -/
def boundary (period : Period) (i : ℕ) : ℕ := startDay (period.months * i) * microsPerDay

theorem instant_firstOf (year month : ℕ) :
    (firstOf year month).instant = startDay (monthIndex year month) * microsPerDay := by
  simp [firstOf, Fields.instant, Fields.ordinal, Fields.microOfDay, Fields.index]

theorem months_dvd (period : Period) : period.months ∣ 12 := by cases period <;> decide

theorem months_pos (period : Period) : 0 < period.months := by cases period <;> decide

theorem boundary_iff {period : Period} {t : ℤ} :
    Boundary period t ↔ ∃ i, (boundary period i : ℤ) = t := by
  constructor
  · rintro ⟨year, month, -, -, hdvd, rfl⟩
    have hindex : period.months ∣ monthIndex year month :=
      dvd_add ((months_dvd period).mul_right _) hdvd
    refine ⟨monthIndex year month / period.months, ?_⟩
    rw [boundary, Nat.mul_div_cancel' hindex, instant_firstOf]
  · rintro ⟨i, rfl⟩
    have hindex : monthIndex (period.months * i / 12 + 1) (period.months * i % 12 + 1) =
        period.months * i := by
      rw [monthIndex]
      omega
    refine ⟨period.months * i / 12 + 1, period.months * i % 12 + 1, Nat.le_add_left _ _,
      ⟨Nat.le_add_left _ _, by omega⟩, ?_, ?_⟩
    · rw [Nat.add_sub_cancel]
      exact (Nat.dvd_mod_iff (months_dvd period)).2 (dvd_mul_right _ _)
    · rw [instant_firstOf, hindex, boundary]

theorem boundary_strictMono (period : Period) : StrictMono (boundary period) := fun _ _ h =>
  Nat.mul_lt_mul_of_pos_right
    (startDay_strictMono (Nat.mul_lt_mul_of_pos_left h (months_pos period)))
    (by norm_num [microsPerDay])

theorem boundary_zero (period : Period) : boundary period 0 = 0 := by
  norm_num [boundary, startDay, yearOf, daysBeforeYear, daysBeforeMonth]

theorem boundary_add_day (period : Period) (i : ℕ) :
    boundary period i + microsPerDay ≤ boundary period (i + 1) := by
  have hlt : startDay (period.months * i) < startDay (period.months * (i + 1)) :=
    startDay_strictMono (Nat.mul_lt_mul_of_pos_left (Nat.lt_succ_self i) (months_pos period))
  calc boundary period i + microsPerDay = (startDay (period.months * i) + 1) * microsPerDay := by
        rw [boundary]
        ring
    _ ≤ boundary period (i + 1) := Nat.mul_le_mul_right _ hlt

theorem index_unique {period : Period} {i j t : ℕ} (hi : boundary period i ≤ t)
    (hi' : t < boundary period (i + 1)) (hj : boundary period j ≤ t)
    (hj' : t < boundary period (j + 1)) : i = j := by
  have hmono := boundary_strictMono period
  have hij := hmono.lt_iff_lt.1 (hi.trans_lt hj')
  have hji := hmono.lt_iff_lt.1 (hj.trans_lt hi')
  omega

theorem greatest_le {period : Period} {i : ℕ} {t : ℤ} (hlo : boundary period i ≤ t)
    (hhi : t < boundary period (i + 1)) :
    IsGreatest {b | Boundary period b ∧ b ≤ t} (boundary period i) := by
  refine ⟨⟨boundary_iff.2 ⟨i, rfl⟩, hlo⟩, ?_⟩
  rintro _ ⟨hb, hj⟩
  obtain ⟨j, rfl⟩ := boundary_iff.1 hb
  have hlt : boundary period j < boundary period (i + 1) := by exact_mod_cast hj.trans_lt hhi
  have hle : j ≤ i := Nat.lt_succ_iff.1 ((boundary_strictMono period).lt_iff_lt.1 hlt)
  exact_mod_cast (boundary_strictMono period).monotone hle

theorem greatest_lt (period : Period) (i : ℕ) :
    IsGreatest {b | Boundary period b ∧ b < (boundary period (i + 1) : ℤ)} (boundary period i) := by
  have hmono := boundary_strictMono period
  refine ⟨⟨boundary_iff.2 ⟨i, rfl⟩, by exact_mod_cast hmono (Nat.lt_succ_self i)⟩, ?_⟩
  rintro _ ⟨hb, hj⟩
  obtain ⟨j, rfl⟩ := boundary_iff.1 hb
  have hlt : boundary period j < boundary period (i + 1) := by exact_mod_cast hj
  exact_mod_cast hmono.monotone (Nat.lt_succ_iff.1 (hmono.lt_iff_lt.1 hlt))

/-! ## The start of a period -/

theorem firstOf_valid {year month : ℕ} (hy : minYear ≤ year ∧ year ≤ maxYear)
    (hm : 1 ≤ month ∧ month ≤ 12) : (firstOf year month).Valid := by
  have hlen := (monthLength_bounds (monthIndex year month)).1
  exact ⟨hy, hm, ⟨le_rfl, by simp only [firstOf]; omega⟩, by norm_num [firstOf],
    by norm_num [firstOf], by norm_num [firstOf], by norm_num [firstOf]⟩

def firstMonth (month : ℕ) : Period → ℕ
  | .month => month
  | .quarter => (month - 1) / 3 * 3 + 1
  | .year => 1

theorem firstMonth_bounds {month : ℕ} (h : 1 ≤ month ∧ month ≤ 12) (period : Period) :
    1 ≤ firstMonth month period ∧ firstMonth month period ≤ 12 := by
  cases period <;> simp only [firstMonth] <;> omega

theorem monthIndex_firstMonth {year month : ℕ} (h : 1 ≤ month ∧ month ≤ 12) (period : Period) :
    monthIndex year (firstMonth month period) =
      period.months * (monthIndex year month / period.months) := by
  cases period <;> simp only [firstMonth, monthIndex, Period.months] <;> omega

section Start

variable {dt : DateTime}

theorem midnight_eq (dt : DateTime) : ∃ h, midnight dt =
    some ⟨{ dt.1 with hour := 0, minute := 0, second := 0, microsecond := 0 }, h⟩ := by
  have hvalid := dt.2
  have h : Fields.Valid { dt.1 with hour := 0, minute := 0, second := 0, microsecond := 0 } :=
    ⟨hvalid.year, hvalid.month, hvalid.day, by norm_num, by norm_num, by norm_num, by norm_num⟩
  exact ⟨h, ofFields_eq h⟩

theorem periodStart_eq (dt : DateTime) (period : Period) :
    ∃ h, periodStart dt period = some ⟨firstOf dt.1.year (firstMonth dt.1.month period), h⟩ := by
  obtain ⟨hmid, hm⟩ := midnight_eq dt
  have h := firstOf_valid dt.2.year (firstMonth_bounds dt.2.month period)
  refine ⟨h, ?_⟩
  cases period with
  | month =>
    rw [periodStart, monthStart, hm]
    exact ofFields_eq h
  | quarter =>
    rw [periodStart, quarterStart, hm]
    exact ofFields_eq h
  | year =>
    rw [periodStart, yearStart, hm]
    exact ofFields_eq h

def periodIndex (dt : DateTime) (period : Period) : ℕ := dt.1.index / period.months

theorem instant_start (dt : DateTime) (period : Period) :
    (firstOf dt.1.year (firstMonth dt.1.month period)).instant =
      boundary period (periodIndex dt period) := by
  rw [instant_firstOf, monthIndex_firstMonth dt.2.month]
  rfl

theorem periodIndex_spec (dt : DateTime) (period : Period) :
    boundary period (periodIndex dt period) ≤ dt.1.instant ∧
      dt.1.instant < boundary period (periodIndex dt period + 1) := by
  have hday := Fields.ordinal_bounds dt.2
  have hmicro := Fields.microOfDay_lt dt.2
  have hpos := months_pos period
  have hlo : period.months * periodIndex dt period ≤ dt.1.index := Nat.mul_div_le _ _
  have hhi : dt.1.index + 1 ≤ period.months * (periodIndex dt period + 1) :=
    Nat.lt_mul_div_succ _ hpos
  have hlo' := (startDay_strictMono.monotone hlo).trans hday.1
  have hhi' := hday.2.trans_le (startDay_strictMono.monotone hhi)
  constructor
  · exact (Nat.mul_le_mul_right _ hlo').trans (Nat.le_add_right _ _)
  · calc dt.1.instant < dt.1.ordinal * microsPerDay + microsPerDay := Nat.add_lt_add_left hmicro _
      _ = (dt.1.ordinal + 1) * microsPerDay := by ring
      _ ≤ _ := Nat.mul_le_mul_right _ hhi'

end Start

section Previous

variable {dt start : DateTime} {period : Period} {j : ℕ}

theorem start_of_between (hlo : boundary period j ≤ dt.1.instant)
    (hhi : dt.1.instant < boundary period (j + 1)) :
    ∃ start, periodStart dt period = some start ∧ start.1.instant = boundary period j := by
  obtain ⟨hvalid, hstart⟩ := periodStart_eq dt period
  have hspec := periodIndex_spec dt period
  refine ⟨_, hstart, ?_⟩
  rw [instant_start, index_unique hspec.1 hspec.2 hlo hhi]

theorem day_before (hstart : start.1.instant = boundary period (j + 1)) :
    ∃ st, (do periodStart (← ofInstant (start.1.instant - microsPerDay)) period) = some st ∧
      st.1.instant = boundary period j := by
  have hday := boundary_add_day period j
  have hmax := Fields.instant_lt start.2
  have hrange : (0 : ℤ) ≤ start.1.instant - microsPerDay ∧
      (start.1.instant : ℤ) - microsPerDay < maxInstant := by omega
  obtain ⟨before, hbefore, hinstant⟩ := ofInstant_eq_some hrange
  obtain ⟨st, hst, hat⟩ : ∃ st, periodStart before period = some st ∧
      st.1.instant = boundary period j := start_of_between (by omega) (by
    have hpos : 0 < microsPerDay := by norm_num [microsPerDay]
    omega)
  refine ⟨st, ?_, hat⟩
  rw [hbefore]
  exact hst

theorem day_before_zero (hstart : start.1.instant = boundary period 0) :
    (do periodStart (← ofInstant (start.1.instant - microsPerDay)) period) = none := by
  have hpos : 0 < microsPerDay := by norm_num [microsPerDay]
  rw [boundary_zero] at hstart
  rw [ofInstant_eq_none (by omega)]
  rfl

/-- The start of a period, as `periodStart` gives it. -/
structure StartsAt (start : DateTime) (period : Period) (i : ℕ) : Prop where
  instant : start.1.instant = boundary period i
  fields : ∃ year month, start.1 = firstOf year (firstMonth month period)

theorem year_of_start (h : StartsAt start .year j) : start.1 = firstOf (j + 1) 1 := by
  obtain ⟨year, month, hfields⟩ := h.fields
  have hyear := start.2.year.1
  have hat := h.instant
  rw [hfields] at hyear
  rw [hfields, firstMonth, instant_firstOf] at hat
  have hpos : 0 < microsPerDay := by norm_num [microsPerDay]
  have hindex : monthIndex year 1 = Period.year.months * j :=
    startDay_strictMono.injective (Nat.eq_of_mul_eq_mul_right hpos hat)
  simp only [firstOf, minYear] at hyear
  simp only [monthIndex, Period.months] at hindex
  rw [hfields, firstMonth]
  congr 1
  omega

theorem previousStart_zero (h : StartsAt start period 0) : previousStart start period = none := by
  cases period with
  | month => exact day_before_zero h.instant
  | quarter => exact day_before_zero h.instant
  | year =>
    rw [previousStart, year_of_start h]
    exact dif_neg fun hvalid => absurd hvalid.year.1 (by decide)

theorem previousStart_succ (h : StartsAt start period (j + 1)) :
    ∃ prev, previousStart start period = some prev ∧ prev.1.instant = boundary period j := by
  cases period with
  | month => exact day_before h.instant
  | quarter => exact day_before h.instant
  | year =>
    have hfields := year_of_start h
    have hyear := start.2.year
    rw [hfields] at hyear
    have hvalid : (firstOf (j + 1) 1).Valid :=
      firstOf_valid ⟨Nat.le_add_left _ _, (Nat.le_succ _).trans hyear.2⟩ (by decide)
    refine ⟨⟨firstOf (j + 1) 1, hvalid⟩, ?_, ?_⟩
    · rw [previousStart, hfields]
      exact ofFields_eq hvalid
    · rw [instant_firstOf]
      rfl

end Previous

/-! ## Windows -/

/-- What a window up to `t` and the one before it are to be. -/
structure Sound (t : ℤ) (period : Period) (w : PeriodWindow) : Prop where
  kind : w.period = period
  stop : (w.stop.1.instant : ℤ) = t
  ordered : w.prevStart.1.instant ≤ w.prevEnd.1.instant ∧
    w.prevEnd.1.instant ≤ w.start.1.instant ∧ w.start.1.instant ≤ w.stop.1.instant
  latest : IsGreatest {b | Boundary period b ∧ b ≤ t} w.start.1.instant
  previous : IsGreatest {b | Boundary period b ∧ b < (w.start.1.instant : ℤ)} w.prevStart.1.instant
  duration : w.prevEnd.1.instant - w.prevStart.1.instant =
    min (w.stop.1.instant - w.start.1.instant) (w.start.1.instant - w.prevStart.1.instant)
  disjoint : Disjoint (Set.Ico w.start.1.instant w.stop.1.instant)
    (Set.Ico w.prevStart.1.instant w.prevEnd.1.instant)

/-- The instants that have a period before theirs, up to the end of the years. -/
def Covered (period : Period) (t : ℤ) : Prop := (boundary period 1 : ℤ) ≤ t ∧ t < maxInstant

theorem toUtc_eq_some {now : Moment} (h : 0 ≤ now.instant ∧ now.instant < maxInstant) :
    ∃ dt, toUtc now = some dt ∧ (dt.1.instant : ℤ) = now.instant := by
  obtain ⟨fields, offset⟩ := now
  cases offset with
  | none => exact ⟨fields, rfl, (sub_zero _).symm⟩
  | some offset => exact ofInstant_eq_some h

theorem toUtc_eq_none {now : Moment} (h : ¬ (0 ≤ now.instant ∧ now.instant < maxInstant)) :
    toUtc now = none := by
  obtain ⟨fields, offset⟩ := now
  cases offset with
  | none =>
    have hlt := Fields.instant_lt fields.2
    exact absurd ⟨by rw [Moment.instant, Option.getD_none, sub_zero]; exact Int.natCast_nonneg _,
      by rw [Moment.instant, Option.getD_none, sub_zero]; exact_mod_cast hlt⟩ h
  | some offset => exact ofInstant_eq_none h

theorem startsAt (dt : DateTime) (period : Period) :
    ∃ start, periodStart dt period = some start ∧
      StartsAt start period (periodIndex dt period) := by
  obtain ⟨hvalid, hstart⟩ := periodStart_eq dt period
  exact ⟨_, hstart, instant_start dt period, _, _, rfl⟩

section Arithmetic

variable {start stop prev shifted top : ℕ}

theorem shifted_range (hprev : prev < start) (hstart : start ≤ stop) (hstop : stop < top) :
    (0 : ℤ) ≤ prev + (stop - start : ℤ) ∧ prev + (stop - start : ℤ) < (top : ℤ) := by omega

theorem clamp_ordered (hprev : prev < start) (hstart : start ≤ stop)
    (hshifted : (shifted : ℤ) = prev + (stop - start)) :
    prev ≤ min start shifted ∧ min start shifted ≤ start ∧ start ≤ stop := by omega

theorem clamp_duration (hprev : prev < start) (hstart : start ≤ stop)
    (hshifted : (shifted : ℤ) = prev + (stop - start)) :
    min start shifted - prev = min (stop - start) (start - prev) := by omega

end Arithmetic

theorem resolvePeriod_of_succ {now : Moment} {period : Period} {dt : DateTime} {j : ℕ}
    (hdt : toUtc now = some dt) (hinstant : (dt.1.instant : ℤ) = now.instant)
    (hj : periodIndex dt period = j + 1) :
    ∃ w, resolvePeriod now period = some w ∧ Sound now.instant period w := by
  obtain ⟨start, hstart, hat⟩ := startsAt dt period
  have hspec := periodIndex_spec dt period
  rw [hj] at hat hspec
  obtain ⟨prev, hprev, hprevAt⟩ := previousStart_succ hat
  have hlt : prev.1.instant < start.1.instant := by
    rw [hprevAt, hat.instant]
    exact boundary_strictMono period (Nat.lt_add_one j)
  have hle : start.1.instant ≤ dt.1.instant := hat.instant.trans_le hspec.1
  obtain ⟨shifted, hshifted, hshiftedAt⟩ :=
    ofInstant_eq_some (shifted_range hlt hle (Fields.instant_lt dt.2))
  have hend : (if start.1.instant < shifted.1.instant then start else shifted).1.instant =
      min start.1.instant shifted.1.instant := by
    split_ifs with h
    · exact (min_eq_left h.le).symm
    · exact (min_eq_right (not_lt.1 h)).symm
  refine ⟨⟨period, start, dt, prev, if start.1.instant < shifted.1.instant then start else shifted,
    period.granularity⟩, ?_, rfl, hinstant, ?_, ?_, ?_, ?_, ?_⟩
  · rw [resolvePeriod, hdt, Option.bind_eq_bind, Option.bind_some, hstart, Option.bind_some, hprev,
      Option.bind_some]
    dsimp only
    rw [hshifted, Option.bind_some]
    rfl
  · dsimp only
    rw [hend]
    exact clamp_ordered hlt hle hshiftedAt
  · dsimp only
    rw [hat.instant, ← hinstant]
    exact greatest_le (Int.ofNat_le.2 hspec.1) (Int.ofNat_lt.2 hspec.2)
  · dsimp only
    rw [hat.instant, hprevAt]
    exact greatest_lt period j
  · dsimp only
    rw [hend]
    exact clamp_duration hlt hle hshiftedAt
  · dsimp only
    rw [hend, Set.disjoint_left]
    exact fun x hx hx' => absurd (hx'.2.trans_le (min_le_left _ _)) (not_lt.2 hx.1)

theorem resolvePeriod_of_zero {now : Moment} {period : Period} {dt : DateTime}
    (hdt : toUtc now = some dt) (hzero : periodIndex dt period = 0) :
    resolvePeriod now period = none := by
  obtain ⟨start, hstart, hat⟩ := startsAt dt period
  rw [hzero] at hat
  rw [resolvePeriod, hdt, Option.bind_eq_bind, Option.bind_some, hstart, Option.bind_some,
    previousStart_zero hat, Option.bind_none]

/-- The windows of every instant that has a period before its own are sound, and the others have
none. -/
theorem resolvePeriod_spec (now : Moment) (period : Period) :
    Covered period now.instant ∧
        (∃ w, resolvePeriod now period = some w ∧ Sound now.instant period w) ∨
      ¬ Covered period now.instant ∧ resolvePeriod now period = none := by
  by_cases hrange : 0 ≤ now.instant ∧ now.instant < maxInstant
  · obtain ⟨dt, hdt, hinstant⟩ := toUtc_eq_some hrange
    have hspec := periodIndex_spec dt period
    cases hj : periodIndex dt period with
    | zero =>
      rw [hj, Nat.zero_add] at hspec
      refine .inr ⟨fun h => ?_, resolvePeriod_of_zero hdt hj⟩
      have hge := h.1
      omega
    | succ j =>
      have hmono := (boundary_strictMono period).monotone (Nat.le_add_left 1 j)
      rw [hj] at hspec
      exact .inl ⟨⟨by omega, hrange.2⟩, resolvePeriod_of_succ hdt hinstant hj⟩
  · refine .inr ⟨fun h => hrange ⟨?_, h.2⟩, ?_⟩
    · exact (Int.natCast_nonneg _).trans h.1
    · rw [resolvePeriod, toUtc_eq_none hrange]
      rfl

def firstJanuary : Moment := ⟨⟨⟨1, 1, 15, 0, 0, 0, 0⟩, by decide⟩, none⟩

theorem firstJanuary_raises : ¬ ∀ (now : Moment) (period : Period),
    ∃ w, resolvePeriod now period = some w ∧ Sound now.instant period w := by
  intro h
  obtain ⟨w, hw, -⟩ := h firstJanuary .month
  have hnone : resolvePeriod firstJanuary .month = none :=
    resolvePeriod_of_zero (show toUtc firstJanuary = some firstJanuary.fields from rfl)
      (show periodIndex firstJanuary.fields .month = 0 from rfl)
  rw [hw] at hnone
  cases hnone

end Varsten.Savings.Periods
