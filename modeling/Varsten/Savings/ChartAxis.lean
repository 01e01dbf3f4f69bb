import Varsten.Savings.Dashboard
import Varsten.Savings.Periods

/-!
# The chart axis

`_bucket_starts` steps through dates by days, weeks and months until it has passed the bucket the
window ends in. A step that leaves the calendar raises. Elsewhere the axis is that of the
dashboard, which every event of the window is on.
-/

namespace Varsten.Savings.ChartAxis

open Python.Calendar
open Python.Datetime
open Periods (PeriodWindow Granularity midnight monthStart resolvePeriod)
open Proxy.Ledger (UsageEvent)
open Proxy.Experiment (Queries)

def prior (w : PeriodWindow) : PeriodWindow where
  period := w.period
  start := w.prevStart
  stop := w.prevEnd
  prevStart := w.prevStart
  prevEnd := w.prevStart
  granularity := w.granularity

/-- `weekday()`: the first day of the calendar is a Monday. -/
def weekday (dt : DateTime) : ℕ := dt.1.ordinal % 7

/-- `d + timedelta(days)`. -/
def addDays (days : ℤ) (dt : DateTime) : Option DateTime :=
  ofInstant (dt.1.instant + days * microsPerDay)

def nextMonth (d : DateTime) : Option DateTime :=
  if d.1.month = 12 then ofFields { d.1 with year := d.1.year + 1, month := 1 }
  else ofFields { d.1 with month := d.1.month + 1 }

/-- `while cur <= last`, with a turn for each date there is from `cur` to `last`; a date is its
midnight, and `none` an error. -/
def collect (next : DateTime → Option DateTime) (last : DateTime) :
    ℕ → DateTime → Option (List DateTime)
  | 0, _ => some []
  | n + 1, cur =>
    if cur.1.ordinal ≤ last.1.ordinal then do
      let later ← collect next last n (← next cur)
      return cur :: later
    else some []

def stepping (next : DateTime → Option DateTime) (cur last : DateTime) : Option (List DateTime) :=
  collect next last (last.1.ordinal + 1 - cur.1.ordinal) cur

/-- `(dt - timedelta(days=dt.weekday())).date()`. -/
def weekStart (dt : DateTime) : Option DateTime := do
  midnight (← addDays (-(weekday dt : ℤ)) dt)

def bucketStarts (w : PeriodWindow) : Option (List DateTime) :=
  match w.granularity with
  | .day => do stepping (addDays 1) (← midnight w.start) (← midnight w.stop)
  | .week => do stepping (addDays 7) (← weekStart w.start) (← weekStart w.stop)
  | .month => do stepping nextMonth (← monthStart w.start) (← monthStart w.stop)

/-! ## The series -/

def granularityOf : Granularity → Dashboard.Granularity
  | .day => .day
  | .week => .week
  | .month => .month

def seconds (dt : DateTime) : ℚ := (dt.1.instant : ℚ) / 10 ^ 6

def queried (w : PeriodWindow) : Dashboard.PeriodWindow :=
  ⟨seconds w.start, seconds w.stop, granularityOf w.granularity⟩

structure BucketRow where
  bucket : ℕ
  optimized : ℚ
  saved : ℚ

/-- The rows of the window grouped by `date_trunc`; `none` when a cast raises. -/
def groupedRows (q : Queries) (rows : List UsageEvent) (w : Dashboard.PeriodWindow) :
    Option (List BucketRow) :=
  let buckets := ((Dashboard.windowRows rows w.window).map
    fun e => Dashboard.bucketOf w.granularity e.receivedAt).dedup
  (buckets.insertionSort (· ≤ ·)).mapM fun b => do
    let saved ← Measurement.sumSaved q rows w.window (Dashboard.inBucket w b)
    return ⟨b, Dashboard.spend
      ((Dashboard.windowRows rows w.window).filter (Dashboard.inBucket w b)), saved⟩

/-- `by_bucket.get(day_value, (Decimal("0"), Decimal("0")))`. -/
def byBucket (grouped : List BucketRow) (day : ℕ) : ℚ × ℚ :=
  match grouped.find? (·.bucket = day) with
  | some row => (row.optimized, row.saved)
  | none => (0, 0)

def seriesSums (q : Queries) (rows : List UsageEvent) (w : PeriodWindow) :
    Option (List (DateTime × ℚ × ℚ)) := do
  let grouped ← groupedRows q rows (queried w)
  if grouped.isEmpty then return []
  else return (← bucketStarts w).map fun d => (d, byBucket grouped d.1.ordinal)

def measuredSavingsSeries (q : Queries) (rows : List UsageEvent) (w : PeriodWindow) :
    Option (List Dashboard.SeriesPoint) :=
  (seriesSums q rows w).map fun sums => sums.map fun (d, optimized, saved) =>
    ⟨d.1.ordinal, Billing.money optimized, Billing.money saved,
      Billing.money optimized + Billing.money saved⟩

/-! ## Dates by their place -/

theorem microsPerDay_pos : 0 < microsPerDay := by norm_num [microsPerDay]

theorem ordinal_eq_div (dt : DateTime) : dt.1.ordinal = dt.1.instant / microsPerDay := by
  have hmicro := Fields.microOfDay_lt dt.2
  rw [Fields.instant, mul_comm, Nat.mul_add_div microsPerDay_pos, Nat.div_eq_of_lt hmicro, add_zero]

def endOfCalendar : ℕ := startDay (12 * maxYear)

theorem maxInstant_eq : maxInstant = endOfCalendar * microsPerDay := rfl

theorem ordinal_lt (dt : DateTime) : dt.1.ordinal < endOfCalendar := by
  have hlt := Fields.instant_lt dt.2
  rw [maxInstant_eq] at hlt
  rw [ordinal_eq_div]
  exact Nat.div_lt_of_lt_mul (by rwa [mul_comm] at hlt)

theorem addDays_nat (days : ℕ) (dt : DateTime) :
    (dt.1.ordinal + days < endOfCalendar →
      ∃ dt', addDays days dt = some dt' ∧ dt'.1.ordinal = dt.1.ordinal + days) ∧
    (endOfCalendar ≤ dt.1.ordinal + days → addDays days dt = none) := by
  have hmicro := Fields.microOfDay_lt dt.2
  have hinstant : dt.1.instant + days * microsPerDay =
      (dt.1.ordinal + days) * microsPerDay + dt.1.microOfDay := by
    rw [Fields.instant]
    ring
  have hcast : (dt.1.instant : ℤ) + (days : ℤ) * microsPerDay =
      ((dt.1.instant + days * microsPerDay : ℕ) : ℤ) := by push_cast; ring
  constructor
  · intro hlt
    have hle : (dt.1.ordinal + days + 1) * microsPerDay ≤ maxInstant := by
      rw [maxInstant_eq]
      exact Nat.mul_le_mul_right _ hlt
    have hrange : dt.1.instant + days * microsPerDay < maxInstant := by
      rw [hinstant]
      rw [add_mul, one_mul] at hle
      omega
    obtain ⟨dt', h, hat⟩ := ofInstant_eq_some (t := (dt.1.instant : ℤ) + days * microsPerDay)
      ⟨by rw [hcast]; exact Int.natCast_nonneg _, by rw [hcast]; exact_mod_cast hrange⟩
    refine ⟨dt', h, ?_⟩
    rw [hcast, hinstant] at hat
    rw [ordinal_eq_div, Nat.cast_inj.1 hat, mul_comm, Nat.mul_add_div microsPerDay_pos,
      Nat.div_eq_of_lt hmicro, add_zero]
  · intro hge
    apply ofInstant_eq_none
    rw [hcast]
    rintro ⟨-, hlt⟩
    have hlt' : dt.1.instant + days * microsPerDay < maxInstant := by exact_mod_cast hlt
    have hle : maxInstant ≤ (dt.1.ordinal + days) * microsPerDay := by
      rw [maxInstant_eq]
      exact Nat.mul_le_mul_right _ hge
    omega

theorem addDays_neg {days : ℕ} {dt : DateTime} (h : days ≤ dt.1.ordinal) :
    ∃ dt', addDays (-(days : ℤ)) dt = some dt' ∧ dt'.1.ordinal = dt.1.ordinal - days := by
  have hmicro := Fields.microOfDay_lt dt.2
  have hmax := Fields.instant_lt dt.2
  have hinstant : dt.1.instant =
      (dt.1.ordinal - days) * microsPerDay + dt.1.microOfDay + days * microsPerDay := by
    rw [Fields.instant, Nat.sub_mul]
    have hle := Nat.mul_le_mul_right microsPerDay h
    omega
  obtain ⟨before, hbefore⟩ : ∃ n, n = (dt.1.ordinal - days) * microsPerDay + dt.1.microOfDay :=
    ⟨_, rfl⟩
  rw [← hbefore] at hinstant
  have hcast : (dt.1.instant : ℤ) + -(days : ℤ) * microsPerDay = (before : ℤ) := by
    rw [hinstant]
    push_cast
    ring
  obtain ⟨dt', hdt', hat⟩ := ofInstant_eq_some (t := (before : ℤ))
    ⟨Int.natCast_nonneg _, by omega⟩
  refine ⟨dt', by rw [addDays, hcast, hdt'], ?_⟩
  rw [ordinal_eq_div, Nat.cast_inj.1 hat, hbefore, mul_comm, Nat.mul_add_div microsPerDay_pos,
    Nat.div_eq_of_lt hmicro, add_zero]

theorem midnight_ordinal (dt : DateTime) :
    ∃ d, midnight dt = some d ∧ d.1.ordinal = dt.1.ordinal := by
  obtain ⟨hvalid, h⟩ := Periods.midnight_eq dt
  exact ⟨_, h, rfl⟩

theorem weekStart_ordinal (dt : DateTime) :
    ∃ d, weekStart dt = some d ∧ d.1.ordinal = 7 * (dt.1.ordinal / 7) := by
  obtain ⟨monday, hmonday, hordinal⟩ := addDays_neg (Nat.mod_le dt.1.ordinal 7)
  obtain ⟨d, hd, hsame⟩ := midnight_ordinal monday
  refine ⟨d, ?_, by omega⟩
  rw [weekStart, weekday, hmonday]
  exact hd

/-- The first of the `i`th month. -/
def IsFirst (d : DateTime) (i : ℕ) : Prop := d.1.day = 1 ∧ d.1.index = i

theorem IsFirst.ordinal {d : DateTime} {i : ℕ} (h : IsFirst d i) : d.1.ordinal = startDay i := by
  rw [Fields.ordinal, h.1, h.2, Nat.sub_self, add_zero]

theorem monthStart_first (dt : DateTime) :
    ∃ d, monthStart dt = some d ∧ IsFirst d dt.1.index := by
  obtain ⟨hvalid, h⟩ := Periods.periodStart_eq dt .month
  exact ⟨_, h, rfl, rfl⟩

theorem startDay_lt_end {i : ℕ} : startDay i < endOfCalendar ↔ i < 12 * maxYear :=
  startDay_strictMono.lt_iff_lt

theorem nextMonth_first {d : DateTime} {i : ℕ} (h : IsFirst d i) :
    (startDay (i + 1) < endOfCalendar → ∃ d', nextMonth d = some d' ∧ IsFirst d' (i + 1)) ∧
      (endOfCalendar ≤ startDay (i + 1) → nextMonth d = none) := by
  obtain ⟨hday, hindex⟩ := h
  have hvalid := d.2
  have hyear := hvalid.year
  have hmonth := hvalid.month
  have hlen (k : ℕ) := (monthLength_bounds k).1
  rw [Fields.index, monthIndex] at hindex
  rw [startDay_lt_end, ← not_lt, startDay_lt_end]
  simp only [minYear, maxYear] at hyear ⊢
  rw [nextMonth]
  split_ifs with h12
  · constructor
    · intro hlt
      have hnext : Fields.Valid { d.1 with year := d.1.year + 1, month := 1 } :=
        ⟨by simp only [minYear, maxYear]; omega, by simp, by
          have := hlen (monthIndex (d.1.year + 1) 1)
          simp only [hday]
          omega, hvalid.hour, hvalid.minute, hvalid.second, hvalid.microsecond⟩
      refine ⟨_, ofFields_eq hnext, hday, ?_⟩
      simp only [Fields.index, monthIndex]
      omega
    · intro hge
      refine dif_neg fun hnext => ?_
      have hy := hnext.year.2
      simp only [maxYear] at hy
      omega
  · have hnext : Fields.Valid { d.1 with month := d.1.month + 1 } :=
      ⟨hvalid.year, by simp only; omega, by
        have := hlen (monthIndex d.1.year (d.1.month + 1))
        simp only [hday]
        omega, hvalid.hour, hvalid.minute, hvalid.second, hvalid.microsecond⟩
    constructor
    · intro hlt
      refine ⟨_, ofFields_eq hnext, hday, ?_⟩
      simp only [Fields.index, monthIndex]
      omega
    · intro hge
      omega

/-! ## The loop -/

section Loop

variable {next : DateTime → Option DateTime} {last : DateTime} {f : ℕ → ℕ} {j : ℕ}

/-- Steps from place to place give the dates up to the last, unless one leaves the calendar. -/
theorem collect_spec (At : DateTime → ℕ → Prop) (hf : StrictMono f)
    (hat : ∀ d i, At d i → d.1.ordinal = f i)
    (hnext : ∀ d i, At d i →
      (f (i + 1) < endOfCalendar → ∃ d', next d = some d' ∧ At d' (i + 1)) ∧
        (endOfCalendar ≤ f (i + 1) → next d = none))
    (hlast : last.1.ordinal = f j) {n i : ℕ} {cur : DateTime} (hcur : At cur i)
    (hi : i ≤ j + 1) (hn : j + 1 - i ≤ n) :
    (endOfCalendar ≤ f (j + 1) → i ≤ j → collect next last n cur = none) ∧
      (f (j + 1) < endOfCalendar → ∃ dates, collect next last n cur = some dates ∧
        dates.map (·.1.ordinal) = (List.range (j + 1 - i)).map fun k => f (i + k)) := by
  induction n generalizing i cur with
  | zero =>
    refine ⟨fun _ hij => by omega, fun _ => ⟨[], rfl, ?_⟩⟩
    rw [Nat.le_zero.1 hn]
    rfl
  | succ n ih =>
    rcases Nat.lt_or_ge j i with hji | hij
    · have hpast : ¬ cur.1.ordinal ≤ last.1.ordinal := by
        rw [hat cur i hcur, hlast, not_le]
        exact hf hji
      refine ⟨fun _ h => by omega, fun _ => ⟨[], if_neg hpast, ?_⟩⟩
      rw [show j + 1 - i = 0 by omega]
      rfl
    · have hthere : cur.1.ordinal ≤ last.1.ordinal := by
        rw [hat cur i hcur, hlast]
        exact hf.monotone hij
      have hsucc := hnext cur i hcur
      have hrange : (List.range (j + 1 - i)).map (fun k => f (i + k)) =
          f i :: (List.range (j + 1 - (i + 1))).map fun k => f (i + 1 + k) := by
        rw [show j + 1 - i = j + 1 - (i + 1) + 1 by omega, List.range_succ_eq_map, List.map_cons,
          List.map_map]
        refine congrArg₂ List.cons rfl (List.map_congr_left fun k _ => ?_)
        rw [Function.comp_apply, Nat.succ_eq_add_one]
        congr 1
        omega
      rw [collect, if_pos hthere]
      constructor
      · intro hend hle
        rcases Nat.lt_or_ge i j with hlt | hge
        · have hin : f (i + 1) < endOfCalendar :=
            (hf.monotone hlt).trans_lt (hlast ▸ ordinal_lt last)
          obtain ⟨d', hd', hat'⟩ := hsucc.1 hin
          have hrest := (ih hat' (by omega) (by omega)).1 hend hlt
          rw [hd', Option.bind_eq_bind, Option.bind_some, hrest]
          rfl
        · obtain rfl : i = j := by omega
          rw [hsucc.2 hend]
          rfl
      · intro hend
        have hin : f (i + 1) < endOfCalendar :=
          (hf.monotone (Nat.succ_le_succ hij)).trans_lt hend
        obtain ⟨d', hd', hat'⟩ := hsucc.1 hin
        obtain ⟨dates, hdates, hmap⟩ := (ih hat' (by omega) (by omega)).2 hend
        refine ⟨cur :: dates, ?_, ?_⟩
        · rw [hd', Option.bind_eq_bind, Option.bind_some, hdates]
          rfl
        · rw [List.map_cons, hmap, hat cur i hcur, hrange]

end Loop

/-! ## The axis -/

/-- The day, the week or the month a moment falls in, counted from the start of the calendar. -/
def placeOf (g : Granularity) (dt : DateTime) : ℕ :=
  match g with
  | .day => dt.1.ordinal
  | .week => dt.1.ordinal / 7
  | .month => dt.1.index

def firstDay (g : Granularity) (i : ℕ) : ℕ :=
  match g with
  | .day => i
  | .week => 7 * i
  | .month => startDay i

/-- The window ends in the last bucket of the calendar. -/
def LastBucket (w : PeriodWindow) : Prop :=
  endOfCalendar ≤ firstDay w.granularity (placeOf w.granularity w.stop + 1)

theorem firstDay_strictMono (g : Granularity) : StrictMono (firstDay g) := by
  cases g with
  | day => exact strictMono_id
  | week => exact fun _ _ h => Nat.mul_lt_mul_of_pos_left h (by norm_num)
  | month => exact startDay_strictMono

theorem placeOf_mono (g : Granularity) {a b : DateTime} (h : a.1.instant ≤ b.1.instant) :
    placeOf g a ≤ placeOf g b := by
  have hday : a.1.ordinal ≤ b.1.ordinal := by
    rw [ordinal_eq_div, ordinal_eq_div]
    exact Nat.div_le_div_right h
  cases g with
  | day => exact hday
  | week => exact Nat.div_le_div_right hday
  | month =>
    have hlt := (Fields.ordinal_bounds a.2).1.trans_lt
      (hday.trans_lt (Fields.ordinal_bounds b.2).2)
    exact Nat.lt_succ_iff.1 (startDay_strictMono.lt_iff_lt.1 hlt)

theorem turns_enough {f : ℕ → ℕ} (hf : StrictMono f) {i j : ℕ} (hij : i ≤ j) :
    j + 1 - i ≤ f j + 1 - f i := by
  have h := hf.add_le_nat (j - i) i
  rw [Nat.sub_add_cancel hij] at h
  omega

theorem bucketStarts_spec (w : PeriodWindow)
    (hle : placeOf w.granularity w.start ≤ placeOf w.granularity w.stop) :
    (LastBucket w → bucketStarts w = none) ∧
      (¬ LastBucket w → ∃ dates, bucketStarts w = some dates ∧
        dates.map (·.1.ordinal) =
          (List.range (placeOf w.granularity w.stop + 1 - placeOf w.granularity w.start)).map
            fun k => firstDay w.granularity (placeOf w.granularity w.start + k)) := by
  rw [LastBucket, bucketStarts, not_le]
  generalize w.granularity = g at hle ⊢
  have hf := firstDay_strictMono g
  have hfuel := turns_enough hf hle
  cases g with
  | day =>
    obtain ⟨cur, hcur, hat⟩ := midnight_ordinal w.start
    obtain ⟨last, hlast, hlat⟩ := midnight_ordinal w.stop
    have h := collect_spec (fun d i => d.1.ordinal = i) hf (fun _ _ h => h)
      (fun d i hi => by subst hi; exact_mod_cast addDays_nat 1 d) hlat hat (Nat.le_succ_of_le hle)
      (n := last.1.ordinal + 1 - cur.1.ordinal) (by rw [hat, hlat]; exact hfuel)
    simp only [hcur, hlast, Option.bind_eq_bind, Option.bind_some]
    exact ⟨fun hend => h.1 hend hle, h.2⟩
  | week =>
    obtain ⟨cur, hcur, hat⟩ := weekStart_ordinal w.start
    obtain ⟨last, hlast, hlat⟩ := weekStart_ordinal w.stop
    have h := collect_spec (fun d i => d.1.ordinal = 7 * i) hf (fun _ _ h => h)
      (fun d i hi => by
        have hnext := addDays_nat 7 d
        rw [hi] at hnext
        exact_mod_cast hnext) hlat hat (Nat.le_succ_of_le hle)
      (n := last.1.ordinal + 1 - cur.1.ordinal) (by rw [hat, hlat]; exact hfuel)
    simp only [hcur, hlast, Option.bind_eq_bind, Option.bind_some]
    exact ⟨fun hend => h.1 hend hle, h.2⟩
  | month =>
    obtain ⟨cur, hcur, hat⟩ := monthStart_first w.start
    obtain ⟨last, hlast, hlat⟩ := monthStart_first w.stop
    have h := collect_spec IsFirst hf (fun _ _ h => h.ordinal)
      (fun d i hi => nextMonth_first hi) hlat.ordinal hat (Nat.le_succ_of_le hle)
      (n := last.1.ordinal + 1 - cur.1.ordinal) (by rw [hat.ordinal, hlat.ordinal]; exact hfuel)
    simp only [hcur, hlast, Option.bind_eq_bind, Option.bind_some]
    exact ⟨fun hend => h.1 hend hle, h.2⟩

/-! ## The axis of the dashboard -/

theorem dayOf_seconds (dt : DateTime) : dayOf (seconds dt) = dt.1.ordinal := by
  have hdiv : seconds dt / secondsPerDay = (dt.1.instant : ℚ) / (microsPerDay : ℚ) := by
    rw [seconds, div_div]
    norm_num [secondsPerDay, microsPerDay]
  rw [dayOf, hdiv, ordinal_eq_div, Rat.floor_natCast_div_natCast]
  exact Int.toNat_natCast _

theorem monthOf_seconds (dt : DateTime) : monthOf (seconds dt) = dt.1.index := by
  have hbounds := Fields.ordinal_bounds dt.2
  have hmicro := Fields.microOfDay_lt dt.2
  have hlo : startDay dt.1.index * microsPerDay ≤ dt.1.instant := by
    rw [Fields.instant]
    exact (Nat.mul_le_mul_right _ hbounds.1).trans (Nat.le_add_right _ _)
  have hhi : dt.1.instant < startDay (dt.1.index + 1) * microsPerDay := by
    calc dt.1.instant < dt.1.ordinal * microsPerDay + microsPerDay := Nat.add_lt_add_left hmicro _
      _ = (dt.1.ordinal + 1) * microsPerDay := by ring
      _ ≤ _ := Nat.mul_le_mul_right _ hbounds.2
  have hscale : (microsPerDay : ℚ) = secondsPerDay * 10 ^ 6 := by
    norm_num [secondsPerDay, microsPerDay]
  refine monthOf_eq ?_ ?_
  · rw [startOf, seconds, le_div_iff₀ (by norm_num), mul_assoc, ← hscale]
    exact_mod_cast hlo
  · rw [startOf, seconds, div_lt_iff₀ (by norm_num), mul_assoc, ← hscale]
    exact_mod_cast hhi

theorem countUp_one (a b : ℕ) :
    Dashboard.countUp 1 a b = (List.range (b + 1 - a)).map fun k => a + k := by
  rw [Dashboard.countUp, Nat.div_one]
  exact List.map_congr_left fun k _ => by rw [one_mul]

theorem dashboard_bucketStarts (w : PeriodWindow) :
    Dashboard.bucketStarts (queried w) =
      (List.range (placeOf w.granularity w.stop + 1 - placeOf w.granularity w.start)).map
        fun k => firstDay w.granularity (placeOf w.granularity w.start + k) := by
  rw [Dashboard.bucketStarts, queried]
  cases w.granularity with
  | day =>
    simp only [granularityOf, dayOf_seconds, countUp_one]
    rfl
  | week =>
    simp only [granularityOf, dayOf_seconds, Dashboard.mondayOf_eq, placeOf, firstDay,
      Dashboard.countUp]
    have hlen : (7 * (w.stop.1.ordinal / 7) + 7 - 7 * (w.start.1.ordinal / 7)) / 7 =
        w.stop.1.ordinal / 7 + 1 - w.start.1.ordinal / 7 := by omega
    rw [hlen]
    exact List.map_congr_left fun k _ => by ring
  | month =>
    simp only [granularityOf, monthOf_seconds, countUp_one, List.map_map]
    rfl

/-! ## The sums of the series -/

section Sums

variable {q : Queries} {rows : List UsageEvent}

theorem inBucket_mem {w : Dashboard.PeriodWindow} {b : ℕ}
    (h : (Dashboard.windowRows rows w.window).filter (Dashboard.inBucket w b) ≠ []) :
    b ∈ ((Dashboard.windowRows rows w.window).map
      fun e => Dashboard.bucketOf w.granularity e.receivedAt).dedup := by
  obtain ⟨e, he⟩ := List.exists_mem_of_ne_nil _ h
  obtain ⟨hrow, hin⟩ := List.mem_filter.1 he
  exact List.mem_dedup.2 (List.mem_map.2 ⟨e, hrow, of_decide_eq_true hin⟩)

def bucketKeys (rows : List UsageEvent) (w : Dashboard.PeriodWindow) : List ℕ :=
  ((Dashboard.windowRows rows w.window).map
    fun e => Dashboard.bucketOf w.granularity e.receivedAt).dedup.insertionSort (· ≤ ·)

theorem grouped_rows {w : Dashboard.PeriodWindow} {grouped : List BucketRow}
    (h : groupedRows q rows w = some grouped) :
    grouped = (bucketKeys rows w).map fun b => ⟨b, Dashboard.bucketSpend rows w b,
      Dashboard.savedTotal q rows w.window (Dashboard.inBucket w b)⟩ := by
  have hmap := Dashboard.map_mapM (g := id) (h := fun b => (⟨b, Dashboard.bucketSpend rows w b,
    Dashboard.savedTotal q rows w.window (Dashboard.inBucket w b)⟩ : BucketRow))
    (fun b row hrow => by
      obtain ⟨saved, hsaved, hrow⟩ := Option.bind_eq_some_iff.1 hrow
      obtain rfl := Option.some.inj hrow
      rw [← Dashboard.sumSaved_eq hsaved]
      rfl) h
  rw [List.map_id] at hmap
  exact hmap

theorem byBucket_eq {w : Dashboard.PeriodWindow} {grouped : List BucketRow}
    (h : groupedRows q rows w = some grouped) (b : ℕ) :
    byBucket grouped b = (Dashboard.bucketSpend rows w b,
      Dashboard.savedTotal q rows w.window (Dashboard.inBucket w b)) := by
  have hrows := grouped_rows h
  rw [byBucket]
  cases hfind : grouped.find? (·.bucket = b) with
  | some row =>
    have hbucket : row.bucket = b := by simpa using List.find?_some hfind
    have hmem := List.mem_of_find?_eq_some hfind
    rw [hrows] at hmem
    obtain ⟨b', -, rfl⟩ := List.mem_map.1 hmem
    obtain rfl : b' = b := hbucket
    rfl
  | none =>
    have hnone : (Dashboard.windowRows rows w.window).filter (Dashboard.inBucket w b) = [] := by
      by_contra hne
      have hkey : b ∈ bucketKeys rows w := (List.mem_insertionSort (· ≤ ·)).2 (inBucket_mem hne)
      have hmem := hrows ▸ List.mem_map_of_mem hkey
      exact absurd (List.find?_eq_none.1 hfind _ hmem) (by simp)
    have hsaved : (Dashboard.savedRows q rows w.window).filter (Dashboard.inBucket w b) = [] := by
      rw [List.filter_eq_nil_iff] at hnone ⊢
      intro e he
      have hin := List.mem_filter.1 he
      rw [Bool.and_eq_true] at hin
      exact hnone e (List.mem_filter.2 ⟨hin.1, hin.2.1⟩)
    rw [Dashboard.bucketSpend, Dashboard.savedTotal, hnone, hsaved]
    rfl

theorem grouped_isEmpty {w : Dashboard.PeriodWindow} {grouped : List BucketRow}
    (h : groupedRows q rows w = some grouped) :
    grouped.isEmpty = true ↔ Dashboard.windowRows rows w.window = [] := by
  rw [grouped_rows h, List.isEmpty_iff, List.map_eq_nil_iff, bucketKeys,
    ← List.length_eq_zero_iff, List.length_insertionSort, List.length_eq_zero_iff,
    List.dedup_eq_nil, List.map_eq_nil_iff]

theorem exists_of_mapM {α β : Type} {f : α → Option β} {xs : List α} {ys : List β}
    (h : xs.mapM f = some ys) : ∀ x ∈ xs, ∃ y, f x = some y := by
  induction xs generalizing ys with
  | nil => exact fun x hx => absurd hx List.not_mem_nil
  | cons x xs ih =>
    rw [List.mapM_cons] at h
    obtain ⟨y, hy, h⟩ := Option.bind_eq_some_iff.1 h
    obtain ⟨ys', hys, -⟩ := Option.bind_eq_some_iff.1 h
    exact List.forall_mem_cons.2 ⟨⟨y, hy⟩, ih hys⟩

theorem sumSaved_bucket {w : Dashboard.PeriodWindow} {grouped : List BucketRow}
    (h : groupedRows q rows w = some grouped) (b : ℕ) :
    Measurement.sumSaved q rows w.window (Dashboard.inBucket w b) =
      some (Dashboard.savedTotal q rows w.window (Dashboard.inBucket w b)) := by
  have hsome : ∃ saved,
      Measurement.sumSaved q rows w.window (Dashboard.inBucket w b) = some saved := by
    by_cases hkey : b ∈ bucketKeys rows w
    · obtain ⟨row, hrow⟩ := exists_of_mapM h b hkey
      obtain ⟨saved, hsaved, -⟩ := Option.bind_eq_some_iff.1 hrow
      exact ⟨saved, hsaved⟩
    · have hnone : rows.filter (Measurement.records q w.window (Dashboard.inBucket w b)) = [] := by
        refine List.filter_eq_nil_iff.2 fun e he hrecords => hkey ?_
        rw [Measurement.records, Bool.and_eq_true, Bool.and_eq_true] at hrecords
        have hmem : e ∈ (Dashboard.windowRows rows w.window).filter (Dashboard.inBucket w b) :=
          List.mem_filter.2 ⟨List.mem_filter.2 ⟨he, hrecords.1.1⟩, hrecords.2⟩
        exact (List.mem_insertionSort (· ≤ ·)).2 (inBucket_mem (List.ne_nil_of_mem hmem))
      exact ⟨0, by rw [Measurement.sumSaved, hnone]; rfl⟩
  obtain ⟨saved, hsaved⟩ := hsome
  rw [hsaved, Dashboard.sumSaved_eq hsaved]

theorem mapM_pure {α β : Type} {f : α → Option β} {g : α → β} (h : ∀ x, f x = some (g x))
    (xs : List α) : xs.mapM f = some (xs.map g) := by
  induction xs with
  | nil => rfl
  | cons x xs ih =>
    rw [List.mapM_cons, h, ih]
    rfl

theorem measuredSavingsSeries_eq {w : PeriodWindow} {grouped : List BucketRow}
    {dates : List DateTime} (h : groupedRows q rows (queried w) = some grouped)
    (hdates : bucketStarts w = some dates)
    (haxis : dates.map (·.1.ordinal) = Dashboard.bucketStarts (queried w)) :
    measuredSavingsSeries q rows w = Dashboard.measuredSavingsSeries q rows (queried w) := by
  rw [measuredSavingsSeries, seriesSums, h, Option.bind_eq_bind, Option.bind_some,
    Dashboard.measuredSavingsSeries]
  by_cases hrows : Dashboard.windowRows rows (queried w).window = []
  · rw [if_pos ((grouped_isEmpty h).2 hrows), if_pos hrows]
    rfl
  · rw [if_neg (mt (grouped_isEmpty h).1 hrows), if_neg hrows, hdates, ← haxis,
      mapM_pure (f := Dashboard.seriesPoint q rows (queried w)) fun b => by
        rw [Dashboard.seriesPoint, sumSaved_bucket h]
        rfl]
    refine congrArg some ?_
    dsimp only
    rw [List.map_map, List.map_map]
    refine List.map_congr_left fun d _ => ?_
    simp only [Function.comp_apply, byBucket_eq h]
    rfl

/-- The sums of a series are those of the window's rows, where its dates are the axis. -/
theorem seriesSums_total {w : PeriodWindow} {grouped : List BucketRow} {dates : List DateTime}
    (h : groupedRows q rows (queried w) = some grouped) (hdates : bucketStarts w = some dates)
    (haxis : dates.map (·.1.ordinal) = Dashboard.bucketStarts (queried w)) :
    ∃ sums, seriesSums q rows w = some sums ∧
      (sums.map fun p => p.2.1).sum =
        Dashboard.spend (Dashboard.windowRows rows (queried w).window) ∧
      (sums.map fun p => p.2.2).sum =
        ((Dashboard.savedRows q rows (queried w).window).map (Dashboard.amount q)).sum := by
  rw [seriesSums, h, Option.bind_eq_bind, Option.bind_some]
  split_ifs with hempty
  · have hrows := (grouped_isEmpty h).1 hempty
    have hsaved : Dashboard.savedRows q rows (queried w).window = [] := by
      rw [Dashboard.windowRows, List.filter_eq_nil_iff] at hrows
      rw [Dashboard.savedRows, List.filter_eq_nil_iff]
      intro e he hin
      rw [Bool.and_eq_true] at hin
      exact hrows e he hin.1
    refine ⟨[], rfl, ?_, ?_⟩
    · rw [hrows]
      rfl
    · rw [hsaved]
      rfl
  · refine ⟨dates.map fun d => (d, byBucket grouped d.1.ordinal), by rw [hdates]; rfl, ?_, ?_⟩
    · rw [List.map_map, ← Dashboard.sum_spendBuckets, ← haxis, List.map_map]
      congr 1
      exact List.map_congr_left fun d _ => congrArg Prod.fst (byBucket_eq h d.1.ordinal)
    · rw [List.map_map, ← Dashboard.sum_savedBuckets, ← haxis, List.map_map]
      congr 1
      exact List.map_congr_left fun d _ => congrArg Prod.snd (byBucket_eq h d.1.ordinal)

end Sums

/-! ## Windows of periods -/

/-- A window of `resolve_period`, or the one before it. -/
def Resolved (w : PeriodWindow) : Prop :=
  ∃ now period v, resolvePeriod now period = some v ∧ (w = v ∨ w = prior v)

/-- The day `date_trunc` leads to. -/
def dateTrunc (g : Granularity) (t : ℚ) : ℕ := Dashboard.bucketOf (granularityOf g) t

/-- The axis has the bucket of every instant once, in order, and the series is the dashboard's and
adds up. -/
structure Complete (q : Queries) (rows : List UsageEvent) (w : PeriodWindow)
    (dates : List DateTime) : Prop where
  increasing : dates.Pairwise fun a b => a.1.ordinal < b.1.ordinal
  once : ∀ t, seconds w.start ≤ t → t < seconds w.stop →
    (dates.map (·.1.ordinal)).count (dateTrunc w.granularity t) = 1
  series : ∀ grouped, groupedRows q rows (queried w) = some grouped →
    measuredSavingsSeries q rows w = Dashboard.measuredSavingsSeries q rows (queried w)
  sums : ∀ grouped, groupedRows q rows (queried w) = some grouped →
    ∃ sums, seriesSums q rows w = some sums ∧
      (sums.map fun p => p.2.1).sum =
        Dashboard.spend (Dashboard.windowRows rows (queried w).window) ∧
      (sums.map fun p => p.2.2).sum =
        ((Dashboard.savedRows q rows (queried w).window).map (Dashboard.amount q)).sum

theorem Resolved.ordered {w : PeriodWindow} (h : Resolved w) :
    w.start.1.instant ≤ w.stop.1.instant := by
  obtain ⟨now, period, v, hv, hw⟩ := h
  rcases Periods.resolvePeriod_spec now period with ⟨-, v', hv', hsound⟩ | ⟨-, hnone⟩
  · obtain rfl := Option.some.inj (hv.symm.trans hv')
    have hordered := hsound.ordered
    rcases hw with rfl | rfl
    · exact hordered.2.2
    · exact hordered.1
  · exact absurd (hv.symm.trans hnone) (by simp)

theorem complete_of_axis {q : Queries} {rows : List UsageEvent} {w : PeriodWindow}
    {dates : List DateTime} (hdates : bucketStarts w = some dates)
    (hmap : dates.map (·.1.ordinal) =
      (List.range (placeOf w.granularity w.stop + 1 - placeOf w.granularity w.start)).map
        fun k => firstDay w.granularity (placeOf w.granularity w.start + k)) :
    Complete q rows w dates := by
  have haxis := hmap.trans (dashboard_bucketStarts w).symm
  refine ⟨?_, fun t hlo hhi => ?_, fun grouped h => measuredSavingsSeries_eq h hdates haxis,
    fun grouped h => seriesSums_total h hdates haxis⟩
  · rw [← List.pairwise_map (f := fun d : DateTime => d.1.ordinal) (R := (· < ·)), hmap,
      List.pairwise_map]
    exact List.pairwise_lt_range.imp fun h =>
      firstDay_strictMono w.granularity (Nat.add_lt_add_left h _)
  · rw [haxis]
    exact List.count_eq_one_of_mem (Dashboard.nodup_bucketStarts (queried w))
      (Dashboard.bucketOf_mem hlo hhi.le)

/-- The axis of a window of a period misses nothing, unless the window ends in the last bucket of
the calendar, which the loop cannot step past. -/
theorem axis_misses_nothing (q : Queries) (rows : List UsageEvent) {w : PeriodWindow}
    (hw : Resolved w) :
    LastBucket w ∧ bucketStarts w = none ∨
      ¬ LastBucket w ∧ ∃ dates, bucketStarts w = some dates ∧ Complete q rows w dates := by
  have hspec := bucketStarts_spec w (placeOf_mono w.granularity hw.ordered)
  by_cases hlast : LastBucket w
  · exact .inl ⟨hlast, hspec.1 hlast⟩
  · obtain ⟨dates, hdates, hmap⟩ := hspec.2 hlast
    exact .inr ⟨hlast, dates, hdates, complete_of_axis hdates hmap⟩

def noon (year month day : ℕ) (h : (⟨year, month, day, 12, 0, 0, 0⟩ : Fields).Valid) :
    Periods.Moment := ⟨⟨_, h⟩, none⟩

theorem noon_resolved {year month day j : ℕ}
    (h : (⟨year, month, day, 12, 0, 0, 0⟩ : Fields).Valid)
    (hj : monthIndex year month = j + 1) :
    ∃ w, resolvePeriod (noon year month day h) .month = some w ∧
      w.stop.1.instant = (⟨year, month, day, 12, 0, 0, 0⟩ : Fields).instant := by
  obtain ⟨w, hw, hsound⟩ := @Periods.resolvePeriod_of_succ (noon year month day h) .month ⟨_, h⟩ j
    rfl (sub_zero _).symm (by
      rw [Periods.periodIndex, Periods.Period.months, Nat.div_one]
      exact hj)
  exact ⟨w, hw, Nat.cast_inj.1 (hsound.stop.trans (sub_zero _))⟩

theorem resolved_granularity {now : Periods.Moment} {period : Periods.Period} {w : PeriodWindow}
    (h : resolvePeriod now period = some w) : w.granularity = period.granularity := by
  simp only [resolvePeriod, Option.bind_eq_bind, Option.bind_eq_some_iff] at h
  obtain ⟨_, -, _, -, _, -, _, -, h⟩ := h
  obtain rfl := Option.some.inj h
  rfl

def julyRows : List UsageEvent :=
  [{ Dashboard.sampleRow ("cache", .str "hit") "5.00" with receivedAt := 63919238400 }]

theorem july_axis : ∃ w dates grouped,
    resolvePeriod (noon 2026 7 15 (by decide)) .month = some w ∧
      bucketStarts w = some dates ∧ Complete Dashboard.sampleQueries julyRows w dates ∧
      groupedRows Dashboard.sampleQueries julyRows (queried w) = some grouped ∧
      grouped ≠ [] := by
  obtain ⟨w, hw, hstop⟩ := @noon_resolved 2026 7 15 24305 (by decide) rfl
  have hplace : placeOf .day w.stop = 739811 := by
    rw [placeOf, ordinal_eq_div, hstop]
    decide +kernel
  have hlast : ¬ LastBucket w := by
    rw [LastBucket, resolved_granularity hw]
    exact fun h => absurd (h.trans_eq (congrArg (· + 1) hplace)) (by decide +kernel)
  have hgrouped : ((resolvePeriod (noon 2026 7 15 (by decide)) .month).bind fun w =>
      (groupedRows Dashboard.sampleQueries julyRows (queried w)).map (·.length)) = some 1 := by
    decide +kernel
  rw [hw, Option.bind_some] at hgrouped
  obtain ⟨grouped, hrows, hlength⟩ := Option.map_eq_some_iff.1 hgrouped
  rcases axis_misses_nothing Dashboard.sampleQueries julyRows
    ⟨noon 2026 7 15 (by decide), .month, w, hw, .inl rfl⟩ with ⟨h, -⟩ | ⟨-, dates, hdates, hcomplete⟩
  · exact absurd h hlast
  · refine ⟨w, dates, grouped, hw, hdates, hcomplete, hrows, fun hnil => ?_⟩
    rw [hnil] at hlength
    cases hlength

/-- The loop steps past the last day of December 9999. -/
theorem lastDay_raises : ¬ ∀ w, Resolved w → ∃ dates, bucketStarts w = some dates := by
  intro h
  obtain ⟨w, hw, hstop⟩ := @noon_resolved 9999 12 31 119986 (by decide) rfl
  have hresolved : Resolved w := ⟨_, _, w, hw, .inl rfl⟩
  have hlast : LastBucket w := by
    rw [LastBucket, resolved_granularity hw]
    have hplace : placeOf .day w.stop = 3652058 := by
      rw [placeOf, ordinal_eq_div, hstop]
      decide +kernel
    exact (show endOfCalendar ≤ 3652058 + 1 by decide +kernel).trans_eq
      (congrArg (· + 1) hplace).symm
  have hspec := bucketStarts_spec w (placeOf_mono w.granularity hresolved.ordered)
  obtain ⟨dates, hdates⟩ := h w hresolved
  rw [hspec.1 hlast] at hdates
  cases hdates

end Varsten.Savings.ChartAxis
