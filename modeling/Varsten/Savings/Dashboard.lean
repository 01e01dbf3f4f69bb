import Varsten.Savings.Billing

/-!
# The dashboard

The savings of a window: the total, its split by lever, and the series of its buckets.
-/

namespace Varsten.Savings.Dashboard

open Python.Calendar
open Python.Decimals
open Python.Precision (Whole whole_zero)
open Proxy.Ledger
open Python (Json)
open Proxy.Experiment (Queries Window astext)
open Savings.Measurement
open Savings.Billing (money)

inductive RoutingLever where
  | modelDownshift
  | smartRouting

def RoutingLever.name : RoutingLever → String
  | .modelDownshift => "model_downshift"
  | .smartRouting => "smart_routing"

def leverDisplayOrder : List String :=
  ["semantic_cache", "model_downshift", "batching", "token_trim", "smart_routing",
    "prompt_compression"]

inductive Granularity where
  | day
  | week
  | month

structure PeriodWindow where
  start : ℚ
  stop : ℚ
  granularity : Granularity

def PeriodWindow.window (w : PeriodWindow) : Window := ⟨w.start, some w.stop⟩

inductive Mode where
  | measured
  | estimated
  | spendOnly
  | empty
deriving DecidableEq

structure WindowSavings where
  verified : VerifiedSavings
  estimatedOpportunityUsd : ℚ
  feePercent : ℚ
  mode : Mode
  actualSpendUsd : Option ℚ
  grossSavingsUsd : Option ℚ
  varstenFeeUsd : Option ℚ
  netSavingsUsd : Option ℚ
  counterfactualSpendUsd : Option ℚ
  byLever : List (String × ℚ)
  byLeverSource : String

def feeOn (gross percent : ℚ) : ℚ := min (money (gross * percent)) (money gross)

def windowRows (rows : List UsageEvent) (w : Window) : List UsageEvent := rows.filter (w.holds ·)

def spend (rows : List UsageEvent) : ℚ := (rows.filterMap (·.costUsd)).sum

def displayed (levers : List (String × ℚ)) : List (String × ℚ) :=
  leverDisplayOrder.filterMap fun k => (levers.lookup k).map fun x => (k, money x)

/-- `compute_savings_for_window`, of the estimates of the applied and of the open
recommendations; `none` when a query raises. -/
def computeSavingsForWindow (q : Queries) (routing : RoutingLever) (rows : List UsageEvent)
    (estimatedByLever : List (String × ℚ)) (opportunity percent : ℚ) (w : PeriodWindow) :
    Option WindowSavings := do
  let verified ← computeVerifiedSavings q routing.name rows w.window
  let measuredByLever ← directMeasuredByLever q routing.name rows w.window true
  let measuredGross := money (measuredByLever.map (·.2)).sum
  let estimatedGross := money (estimatedByLever.map (·.2)).sum
  let actual := money (spend (windowRows rows w.window))
  let saved (mode : Mode) (byLever : List (String × ℚ)) (gross : ℚ) (source : String) :
      WindowSavings :=
    ⟨verified, money opportunity, percent, mode, some actual, some gross,
      some (feeOn gross percent), some (gross - feeOn gross percent), some (actual + gross),
      displayed byLever, source⟩
  return if windowRows rows w.window = [] then
      ⟨verified, money opportunity, percent, .empty, none, none, none, none, none, [], ""⟩
    else if 0 < measuredGross then saved .measured measuredByLever measuredGross "measured"
    else if 0 < estimatedGross then saved .estimated estimatedByLever estimatedGross "estimated"
    else ⟨verified, money opportunity, percent, .spendOnly, some actual, none, none, none,
      some actual, [], ""⟩

/-! ## The series -/

def mondayOf (day : ℕ) : ℕ := day - day % 7

/-- `date_trunc`: the day a bucket starts on. -/
def bucketOf (g : Granularity) (t : ℚ) : ℕ :=
  match g with
  | .day => dayOf t
  | .week => mondayOf (dayOf t)
  | .month => startDay (monthOf t)

/-- From `cur` in steps, while at most `last`. -/
def countUp (step cur last : ℕ) : List ℕ :=
  (List.range ((last + step - cur) / step)).map fun i => cur + step * i

def bucketStarts (w : PeriodWindow) : List ℕ :=
  match w.granularity with
  | .day => countUp 1 (dayOf w.start) (dayOf w.stop)
  | .week => countUp 7 (mondayOf (dayOf w.start)) (mondayOf (dayOf w.stop))
  | .month => (countUp 1 (monthOf w.start) (monthOf w.stop)).map startDay

structure SeriesPoint where
  date : ℕ
  optimizedUsd : ℚ
  savedUsd : ℚ
  baselineUsd : ℚ

def inBucket (w : PeriodWindow) (b : ℕ) (e : UsageEvent) : Bool :=
  bucketOf w.granularity e.receivedAt = b

def seriesPoint (q : Queries) (rows : List UsageEvent) (w : PeriodWindow) (b : ℕ) :
    Option SeriesPoint :=
  (sumSaved q rows w.window (inBucket w b)).map fun saved =>
    let optimized := money (spend ((windowRows rows w.window).filter (inBucket w b)))
    ⟨b, optimized, money saved, optimized + money saved⟩

def measuredSavingsSeries (q : Queries) (rows : List UsageEvent) (w : PeriodWindow) :
    Option (List SeriesPoint) :=
  if windowRows rows w.window = [] then some [] else (bucketStarts w).mapM (seriesPoint q rows w)

/-! ## The axis covers the window -/

theorem mem_countUp {step cur last x : ℕ} (hs : 0 < step) :
    x ∈ countUp step cur last ↔ ∃ i, x = cur + step * i ∧ x ≤ last := by
  simp only [countUp, List.mem_map, List.mem_range, Nat.lt_div_iff_mul_lt hs]
  constructor
  · rintro ⟨i, hi, rfl⟩
    refine ⟨i, rfl, ?_⟩
    rw [mul_comm] at hi
    omega
  · rintro ⟨i, rfl, hle⟩
    refine ⟨i, ?_, rfl⟩
    rw [mul_comm]
    omega

theorem nodup_countUp {step cur last : ℕ} (hs : 0 < step) : (countUp step cur last).Nodup := by
  refine List.nodup_range.map fun i j h => ?_
  exact Nat.eq_of_mul_eq_mul_left hs (Nat.add_left_cancel h)

theorem mondayOf_eq (day : ℕ) : mondayOf day = 7 * (day / 7) := by
  unfold mondayOf
  omega

theorem nodup_bucketStarts (w : PeriodWindow) : (bucketStarts w).Nodup := by
  unfold bucketStarts
  cases w.granularity with
  | day => exact nodup_countUp (by norm_num)
  | week => exact nodup_countUp (by norm_num)
  | month => exact (nodup_countUp (by norm_num)).map startDay_strictMono.injective

theorem bucketOf_mem {w : PeriodWindow} {t : ℚ} (hlo : w.start ≤ t) (hhi : t ≤ w.stop) :
    bucketOf w.granularity t ∈ bucketStarts w := by
  have hday := dayOf_mono hlo
  have hday' := dayOf_mono hhi
  unfold bucketOf bucketStarts
  cases w.granularity with
  | day =>
    dsimp only
    exact (mem_countUp (by norm_num)).2 ⟨dayOf t - dayOf w.start, by omega, hday'⟩
  | week =>
    dsimp only
    refine (mem_countUp (by norm_num)).2 ⟨dayOf t / 7 - dayOf w.start / 7, ?_, ?_⟩
    · rw [mondayOf_eq, mondayOf_eq]
      omega
    · rw [mondayOf_eq, mondayOf_eq]
      omega
  | month =>
    have hmonth := monthOf_mono hlo
    exact List.mem_map_of_mem
      ((mem_countUp (by norm_num)).2 ⟨monthOf t - monthOf w.start, by omega, monthOf_mono hhi⟩)

theorem bucket_mem {rows : List UsageEvent} {w : PeriodWindow} :
    ∀ e ∈ windowRows rows w.window, bucketOf w.granularity e.receivedAt ∈ bucketStarts w := by
  intro e he
  have hin := (List.mem_filter.1 he).2
  rw [PeriodWindow.window, Window.holds, Bool.and_eq_true, decide_eq_true_eq] at hin
  exact bucketOf_mem hin.1 (of_decide_eq_true hin.2).le

/-! ## Sums over a partition -/

theorem sum_filter_map {α : Type} (p : α → Bool) (f : α → ℚ) (xs : List α) :
    ((xs.filter p).map f).sum = (xs.map fun x => if p x then f x else 0).sum := by
  induction xs with
  | nil => rfl
  | cons x xs ih => cases hx : p x <;> simp [hx, ih]

theorem sum_buckets {α κ : Type} [DecidableEq κ] (f : α → ℚ) (bucket : α → κ) {starts : List κ}
    (hnodup : starts.Nodup) {xs : List α} (h : ∀ x ∈ xs, bucket x ∈ starts) :
    (starts.map fun b => ((xs.filter (bucket · = b)).map f).sum).sum = (xs.map f).sum := by
  rw [← List.sum_toFinset _ hnodup]
  induction xs with
  | nil => simp
  | cons x xs ih =>
    have hx : ∑ b ∈ starts.toFinset, (if bucket x = b then f x else 0) = f x := by
      rw [Finset.sum_ite_eq, if_pos (List.mem_toFinset.2 (h x List.mem_cons_self))]
    rw [List.map_cons, List.sum_cons, ← ih fun y hy => h y (List.mem_cons_of_mem x hy), ← hx,
      ← Finset.sum_add_distrib]
    refine Finset.sum_congr rfl fun b _ => ?_
    rw [List.filter_cons]
    by_cases hb : bucket x = b <;> simp [hb]

/-! ## The rows a query sums -/

def amount (q : Queries) (e : UsageEvent) : ℚ := (savedUsd q e).getD 0

def savedRows (q : Queries) (rows : List UsageEvent) (w : Window) : List UsageEvent :=
  rows.filter fun e => w.holds e && (astext q "saved_usd" e).isSome

def savedTotal (q : Queries) (rows : List UsageEvent) (w : Window) (cond : UsageEvent → Bool) : ℚ :=
  (((savedRows q rows w).filter cond).map (amount q)).sum

theorem sum_mapM {α : Type} {f : α → Option ℚ} {xs : List α} {s : ℚ}
    (h : (xs.mapM f).map List.sum = some s) : s = (xs.map fun x => (f x).getD 0).sum := by
  induction xs generalizing s with
  | nil => exact (Option.some.inj h).symm
  | cons x xs ih =>
    rw [sum_mapM_cons] at h
    obtain ⟨a, ha, h⟩ := Option.bind_eq_some_iff.1 h
    obtain ⟨t, ht, rfl⟩ := Option.map_eq_some_iff.1 h
    rw [List.map_cons, List.sum_cons, ha, Option.getD_some, ← ih ht]

theorem sumSaved_eq {q : Queries} {rows : List UsageEvent} {w : Window} {cond : UsageEvent → Bool}
    {s : ℚ} (h : sumSaved q rows w cond = some s) : s = savedTotal q rows w cond := by
  rw [savedTotal, savedRows, List.filter_filter]
  have hrows : (rows.filter fun e => cond e && (w.holds e && (astext q "saved_usd" e).isSome)) =
      rows.filter (records q w cond) :=
    List.filter_congr fun e _ => by rw [records, Bool.and_comm]
  rw [hrows]
  exact sum_mapM h

theorem map_mapM {α β γ : Type} {f : α → Option β} {g : β → γ} {h : α → γ}
    (hf : ∀ a b, f a = some b → g b = h a) {xs : List α} {ys : List β}
    (hys : xs.mapM f = some ys) : ys.map g = xs.map h := by
  induction xs generalizing ys with
  | nil =>
    obtain rfl := Option.some.inj hys
    rfl
  | cons x xs ih =>
    rw [List.mapM_cons] at hys
    obtain ⟨b, hb, hys⟩ := Option.bind_eq_some_iff.1 hys
    obtain ⟨bs, hbs, hys⟩ := Option.bind_eq_some_iff.1 hys
    obtain rfl := Option.some.inj hys
    rw [List.map_cons, List.map_cons, hf x b hb, ih hbs]

/-! ## Cents -/

theorem Whole.sum {xs : List ℚ} (h : ∀ x ∈ xs, Whole 2 x) : Whole 2 xs.sum := by
  induction xs with
  | nil => exact whole_zero 2
  | cons x xs ih =>
    rw [List.forall_mem_cons] at h
    exact h.1.add (ih h.2)

theorem money_of_whole {x : ℚ} (h : Whole 2 x) : money x = x := by
  obtain ⟨n, hn⟩ := h
  have hn' : x * (100 : ℕ) = n := by
    rw [← hn]
    norm_num
  rw [money, quantize, hn', roundHalfUp_intCast, ← hn']
  exact mul_div_cancel_right₀ x (by norm_num)

/-- Whole cents that are added are not rounded, unless they take half a cent across zero. -/
theorem money_add {x y : ℚ} (hy : Whole 2 y) (h : (0 ≤ x ∧ 0 ≤ x + y) ∨ ¬ Tie (x * 100)) :
    money (x + y) = money x + y := by
  obtain ⟨n, hn⟩ := hy
  have hy' : y = n / 100 := by linarith
  have hsum : (x + y) * (100 : ℕ) = x * 100 + n := by
    rw [hy']
    push_cast
    ring
  have hround : roundHalfUp (x * 100 + n) = roundHalfUp (x * 100) + n := by
    refine roundHalfUp_add_intCast (h.imp_left fun h => ⟨by linarith [h.1], ?_⟩)
    have hpos := h.2
    rw [hy'] at hpos
    linarith
  rw [money, money, quantize, quantize, hsum, hround, hy']
  push_cast
  ring

/-- Where one part at most has a fraction of a cent, the parts are rounded as their sum is. -/
theorem sum_money {α : Type} [DecidableEq α] {f : α → ℚ} {parts : List α} (hnodup : parts.Nodup)
    (k : α) (hwhole : ∀ x ∈ parts, x ≠ k → Whole 2 (f x))
    (hties : (∀ x ∈ parts, 0 ≤ f x) ∨ ¬ Tie ((parts.map f).sum * 100)) :
    (parts.map fun x => money (f x)).sum = money (parts.map f).sum := by
  have hrest : ∀ xs : List α, (∀ x ∈ xs, Whole 2 (f x)) →
      (xs.map fun x => money (f x)).sum = (xs.map f).sum ∧ Whole 2 (xs.map f).sum := by
    intro xs hxs
    refine ⟨congrArg List.sum (List.map_congr_left fun x hx => money_of_whole (hxs x hx)),
      Whole.sum fun y hy => ?_⟩
    obtain ⟨x, hx, rfl⟩ := List.mem_map.1 hy
    exact hxs x hx
  by_cases hk : k ∈ parts
  · have hperm := List.perm_cons_erase hk
    have hmem : ∀ x ∈ parts.erase k, Whole 2 (f x) := fun x hx => by
      obtain ⟨hne, hx⟩ := (List.Nodup.mem_erase_iff hnodup).1 hx
      exact hwhole x hx hne
    obtain ⟨hmoney, hsum⟩ := hrest _ hmem
    rw [(hperm.map f).sum_eq] at hties ⊢
    rw [(hperm.map fun x => money (f x)).sum_eq, List.map_cons, List.sum_cons, hmoney,
      List.map_cons, List.sum_cons]
    rw [List.map_cons, List.sum_cons] at hties
    refine (money_add hsum ?_).symm
    rcases hties with hpos | htie
    · refine .inl ⟨hpos k hk, add_nonneg (hpos k hk) (List.sum_nonneg fun y hy => ?_)⟩
      obtain ⟨x, hx, rfl⟩ := List.mem_map.1 hy
      exact hpos x (List.mem_of_mem_erase hx)
    · refine .inr fun ⟨m, hm⟩ => htie ?_
      obtain ⟨n, hn⟩ := hsum
      exact ⟨m + n, by push_cast; linarith⟩
  · have hall : ∀ x ∈ parts, Whole 2 (f x) := fun x hx =>
      hwhole x hx fun heq => hk (heq ▸ hx)
    obtain ⟨hmoney, hsum⟩ := hrest _ hall
    rw [hmoney, money_of_whole hsum]

def leverOf (q : Queries) (e : UsageEvent) : Fin 3 :=
  if isCacheHit q e then 0 else if isBatch q e then 1 else 2

def leverCount (q : Queries) (e : UsageEvent) : ℕ :=
  (isCacheHit q e).toNat + (isBatch q e).toNat + (isDirectRouting q true e).toNat

section Reconcile

variable (q : Queries) (rows : List UsageEvent) (w : PeriodWindow)

def leverTotal : ℚ :=
  savedTotal q rows w.window (isCacheHit q) + savedTotal q rows w.window (isBatch q) +
    savedTotal q rows w.window (isDirectRouting q true)

def bucketSpend (b : ℕ) : ℚ := spend ((windowRows rows w.window).filter (inBucket w b))

/-- The rows with a fraction of a cent all fall into one part, and no half cent is taken across
zero. -/
structure OnePart {α : Type} (part : UsageEvent → α) (value : UsageEvent → ℚ)
    (xs : List UsageEvent) : Prop where
  fractions : ∃ k, ∀ e ∈ xs, ¬ Whole 2 (value e) → part e = k
  ties : (∀ e ∈ xs, 0 ≤ value e) ∨ ¬ Tie ((xs.map value).sum * 100)

/-- Each saving is counted under one lever, and fractions of a cent are under one lever, in one
bucket of the savings and in one bucket of the spend. -/
structure CentsMeet : Prop where
  counted : ∀ e ∈ savedRows q rows w.window, amount q e ≠ 0 → leverCount q e = 1
  levers : OnePart (leverOf q) (amount q) (savedRows q rows w.window)
  saved : OnePart (fun e => bucketOf w.granularity e.receivedAt) (amount q)
    (savedRows q rows w.window)
  spend : OnePart (fun e => bucketOf w.granularity e.receivedAt) (fun e => e.costUsd.getD 0)
    (windowRows rows w.window)

structure Reconciles (r : WindowSavings) (points : List SeriesPoint) : Prop where
  levers : r.grossSavingsUsd = some (r.byLever.map (·.2)).sum
  saved : r.grossSavingsUsd = some (points.map (·.savedUsd)).sum
  counterfactual : ∃ actual gross, r.actualSpendUsd = some actual ∧
    r.grossSavingsUsd = some gross ∧ r.counterfactualSpendUsd = some (actual + gross)
  spend : r.actualSpendUsd = some (points.map (·.optimizedUsd)).sum

variable {q rows w}

theorem money_zero : money 0 = 0 := by
  simp [money, Python.Decimals.quantize]

theorem sum_lookups (levers : List (String × ℚ)) (keys : List String) :
    ((keys.filterMap fun k => (levers.lookup k).map fun x => (k, money x)).map (·.2)).sum =
      (keys.map fun k => money ((levers.lookup k).getD 0)).sum := by
  induction keys with
  | nil => rfl
  | cons k keys ih => cases hk : levers.lookup k <;> simp [hk, ih, money_zero]

theorem lookup_eq_none {levers : List (String × ℚ)} {k : String}
    (h : k ∉ levers.map (·.1)) : levers.lookup k = none := by
  rw [List.lookup_eq_none_iff]
  rintro ⟨a, x⟩ hx
  have hne : k ≠ a := fun hk => h (hk ▸ List.mem_map_of_mem hx)
  simpa using hne

theorem lookup_nonzero {levers : List (String × ℚ)} (h : (levers.map (·.1)).Nodup) (k : String) :
    ((levers.filter (·.2 ≠ 0)).lookup k).getD 0 = (levers.lookup k).getD 0 := by
  induction levers with
  | nil => rfl
  | cons lever levers ih =>
    obtain ⟨key, x⟩ := lever
    obtain ⟨hkey, hnodup⟩ := List.nodup_cons.1 h
    have hrest := ih hnodup
    by_cases hx : x = 0
    · by_cases hk : k = key
      · rw [hk] at hrest ⊢
        rw [lookup_eq_none hkey] at hrest
        simpa [hx] using hrest
      · have hbeq : (k == key) = false := beq_false_of_ne hk
        simpa [hx, List.lookup_cons, hbeq] using hrest
    · by_cases hk : k = key
      · simp [hx, hk]
      · have hbeq : (k == key) = false := beq_false_of_ne hk
        simpa [hx, List.lookup_cons, hbeq] using hrest

theorem displayed_sum (routing : RoutingLever) (cache batching routed : ℚ) :
    ((displayed ([("semantic_cache", cache), ("batching", batching),
      (routing.name, routed)].filter (·.2 ≠ 0))).map (·.2)).sum =
        money cache + money batching + money routed := by
  have hnodup : ([("semantic_cache", cache), ("batching", batching),
      (routing.name, routed)].map (·.1)).Nodup := by
    cases routing <;> simp [RoutingLever.name]
  rw [displayed, sum_lookups]
  simp only [lookup_nonzero hnodup]
  cases routing
  · simp [leverDisplayOrder, RoutingLever.name, List.lookup_cons, money_zero]
    ring
  · simp [leverDisplayOrder, RoutingLever.name, List.lookup_cons, money_zero]
    ring

theorem directSum (lever : String) (cache batching routed : ℚ) :
    (([("semantic_cache", cache), ("batching", batching), (lever, routed)].filter
      (·.2 ≠ 0)).map (·.2)).sum = cache + batching + routed := by
  by_cases h1 : cache = 0 <;> by_cases h2 : batching = 0 <;> by_cases h3 : routed = 0 <;>
    simp [h1, h2, h3]
  ring

/-- What the levers count is what the rows record, once for each lever of the row. -/
theorem leverTotal_eq : leverTotal q rows w =
    ((savedRows q rows w.window).map fun e => (leverCount q e : ℚ) * amount q e).sum := by
  unfold leverTotal savedTotal
  simp only [sum_filter_map]
  rw [← List.sum_map_add, ← List.sum_map_add]
  congr 1
  refine List.map_congr_left fun e _ => ?_
  cases h1 : isCacheHit q e <;> cases h2 : isBatch q e <;> cases h3 : isDirectRouting q true e <;>
    simp [leverCount, h1, h2, h3] <;> ring

theorem savedBucket_mem : ∀ e ∈ savedRows q rows w.window,
    bucketOf w.granularity e.receivedAt ∈ bucketStarts w := by
  intro e he
  obtain ⟨hrow, hin⟩ := List.mem_filter.1 he
  rw [Bool.and_eq_true] at hin
  exact bucket_mem e (List.mem_filter.2 ⟨hrow, hin.1⟩)

theorem sum_savedBuckets :
    ((bucketStarts w).map fun b => savedTotal q rows w.window (inBucket w b)).sum =
      ((savedRows q rows w.window).map (amount q)).sum := by
  exact sum_buckets (amount q) (fun e => bucketOf w.granularity e.receivedAt)
    (nodup_bucketStarts w) savedBucket_mem

theorem spend_eq (xs : List UsageEvent) : spend xs = (xs.map fun e => e.costUsd.getD 0).sum :=
  sum_filterMap _ _

theorem sum_spendBuckets :
    ((bucketStarts w).map fun b => bucketSpend rows w b).sum =
      spend (windowRows rows w.window) := by
  simp only [bucketSpend, spend_eq]
  exact sum_buckets (fun e : UsageEvent => e.costUsd.getD 0)
    (fun e => bucketOf w.granularity e.receivedAt) (nodup_bucketStarts w) bucket_mem

/-- The parts of what has its fractions of a cent in one part are rounded as the whole is. -/
theorem OnePart.sum_money {κ : Type} [DecidableEq κ] {part : UsageEvent → κ}
    {value : UsageEvent → ℚ} {xs : List UsageEvent} (h : OnePart part value xs) {starts : List κ}
    (hnodup : starts.Nodup) (hmem : ∀ e ∈ xs, part e ∈ starts) :
    (starts.map fun b => money ((xs.filter (part · = b)).map value).sum).sum =
      money (xs.map value).sum := by
  obtain ⟨k, hk⟩ := h.fractions
  have htotal := sum_buckets value part hnodup hmem
  rw [← htotal]
  refine Dashboard.sum_money hnodup k (fun b _ hb => Whole.sum fun x hx => ?_) ?_
  · obtain ⟨e, he, rfl⟩ := List.mem_map.1 hx
    obtain ⟨hin, hpart⟩ := List.mem_filter.1 he
    by_contra hfraction
    exact hb ((of_decide_eq_true hpart).symm.trans (hk e hin hfraction))
  · rw [htotal]
    refine h.ties.imp_left fun hpos b _ => List.sum_nonneg fun x hx => ?_
    obtain ⟨e, he, rfl⟩ := List.mem_map.1 hx
    exact hpos e (List.mem_filter.1 he).1

theorem CentsMeet.total (h : CentsMeet q rows w) :
    leverTotal q rows w = ((savedRows q rows w.window).map (amount q)).sum := by
  rw [leverTotal_eq]
  congr 1
  refine List.map_congr_left fun e he => ?_
  by_cases hzero : amount q e = 0
  · rw [hzero, mul_zero]
  · rw [h.counted e he hzero, Nat.cast_one, one_mul]

theorem CentsMeet.savedTotal_eq (h : CentsMeet q rows w) {cond : UsageEvent → Bool} {k : Fin 3}
    (hcond : ∀ e, leverCount q e = 1 → (cond e = true ↔ leverOf q e = k)) :
    savedTotal q rows w.window cond =
      (((savedRows q rows w.window).filter (leverOf q · = k)).map (amount q)).sum := by
  rw [savedTotal, sum_filter_map, sum_filter_map]
  congr 1
  refine List.map_congr_left fun e he => ?_
  by_cases hzero : amount q e = 0
  · rw [hzero, ite_self, ite_self]
  · simp only [hcond e (h.counted e he hzero), decide_eq_true_eq]

theorem CentsMeet.levers_sum (h : CentsMeet q rows w) :
    money (savedTotal q rows w.window (isCacheHit q)) +
        money (savedTotal q rows w.window (isBatch q)) +
          money (savedTotal q rows w.window (isDirectRouting q true)) =
      money (leverTotal q rows w) := by
  have hcache := @CentsMeet.savedTotal_eq q rows w h (isCacheHit q) 0 fun e he => by
    unfold leverCount leverOf at *
    cases h1 : isCacheHit q e <;> cases h2 : isBatch q e <;>
      cases h3 : isDirectRouting q true e <;> simp_all
  have hbatch := @CentsMeet.savedTotal_eq q rows w h (isBatch q) 1 fun e he => by
    unfold leverCount leverOf at *
    cases h1 : isCacheHit q e <;> cases h2 : isBatch q e <;>
      cases h3 : isDirectRouting q true e <;> simp_all
  have hrouted := @CentsMeet.savedTotal_eq q rows w h (isDirectRouting q true) 2 fun e he => by
    unfold leverCount leverOf at *
    cases h1 : isCacheHit q e <;> cases h2 : isBatch q e <;>
      cases h3 : isDirectRouting q true e <;> simp_all
  have hlevers : ∀ e ∈ savedRows q rows w.window, leverOf q e ∈ ([0, 1, 2] : List (Fin 3)) :=
    fun e _ => by
      unfold leverOf
      split_ifs <;> simp
  have hparts := h.levers.sum_money (by decide) hlevers
  rw [hcache, hbatch, hrouted, h.total, ← hparts]
  simp only [List.map_cons, List.map_nil, List.sum_cons, List.sum_nil]
  ring

theorem measured_eq {routing : RoutingLever} {estimated : List (String × ℚ)}
    {opportunity percent : ℚ} {r : WindowSavings}
    (h : computeSavingsForWindow q routing rows estimated opportunity percent w = some r)
    (hm : r.mode = .measured) :
    windowRows rows w.window ≠ [] ∧
      r.actualSpendUsd = some (money (spend (windowRows rows w.window))) ∧
      r.grossSavingsUsd = some (money (leverTotal q rows w)) ∧
      r.counterfactualSpendUsd =
        some (money (spend (windowRows rows w.window)) + money (leverTotal q rows w)) ∧
      (r.byLever.map (·.2)).sum =
        money (savedTotal q rows w.window (isCacheHit q)) +
          money (savedTotal q rows w.window (isBatch q)) +
            money (savedTotal q rows w.window (isDirectRouting q true)) := by
  obtain ⟨verified, -, h⟩ := Option.bind_eq_some_iff.1 h
  obtain ⟨direct, hd, h⟩ := Option.bind_eq_some_iff.1 h
  obtain ⟨cache, hcache, hd⟩ := Option.bind_eq_some_iff.1 hd
  obtain ⟨batching, hbatch, hd⟩ := Option.bind_eq_some_iff.1 hd
  obtain ⟨routed, hrouted, hd⟩ := Option.bind_eq_some_iff.1 hd
  obtain rfl := Option.some.inj hd
  have htotal : leverTotal q rows w = cache + batching + routed := by
    rw [leverTotal, sumSaved_eq hcache, sumSaved_eq hbatch, sumSaved_eq hrouted]
  rw [htotal, ← sumSaved_eq hcache, ← sumSaved_eq hbatch, ← sumSaved_eq hrouted]
  have h := Option.some.inj h
  rw [directSum] at h
  split_ifs at h with hempty hgross hestimated
  · exact absurd hm (by simp [← h])
  · obtain rfl := h
    exact ⟨hempty, rfl, rfl, rfl, displayed_sum _ _ _ _⟩
  · exact absurd hm (by simp [← h])
  · exact absurd hm (by simp [← h])

theorem series_eq {points : List SeriesPoint} (hrows : windowRows rows w.window ≠ [])
    (h : measuredSavingsSeries q rows w = some points) :
    points.map (·.savedUsd) =
        (bucketStarts w).map (fun b => money (savedTotal q rows w.window (inBucket w b))) ∧
      points.map (·.optimizedUsd) = (bucketStarts w).map fun b => money (bucketSpend rows w b) := by
  rw [measuredSavingsSeries, if_neg hrows] at h
  constructor
  · refine map_mapM (fun b p hp => ?_) h
    obtain ⟨saved, hs, rfl⟩ := Option.map_eq_some_iff.1 hp
    exact congrArg money (sumSaved_eq hs)
  · refine map_mapM (fun b p hp => ?_) h
    obtain ⟨saved, -, rfl⟩ := Option.map_eq_some_iff.1 hp
    rfl

end Reconcile

/-! ## A dashboard of one day -/

def sampleQueries : Queries :=
  ⟨fun _ => "", fun s => if s = "5.00" then some 5 else some (4 / 1000), fun _ _ _ _ _ _ => none⟩

def sampleRow (kind : String × Json) (saved : String) : UsageEvent where
  source := "proxy"
  provider := "openai"
  model := "gpt-4o"
  inputTokens := 0
  outputTokens := 0
  cachedInputTokens := 0
  costUsd := some 1
  costSource := "catalog"
  pricingStatus := "priced"
  metadata := [kind, ("saved_usd", .str saved)]
  idempotencyKey := none
  receivedAt := 3600

def sampleDay : PeriodWindow := ⟨0, 7200, .day⟩

def sampleSavings (rows : List UsageEvent) : Option WindowSavings :=
  computeSavingsForWindow sampleQueries .smartRouting rows [] 0 (1 / 4) sampleDay

def wholeDollars : List UsageEvent :=
  [sampleRow ("cache", .str "hit") "5.00", sampleRow ("batch", .bool true) "5.00"]

theorem wholeDollars_whole : ∀ e ∈ savedRows sampleQueries wholeDollars sampleDay.window,
    Whole 2 (amount sampleQueries e) := by
  have hfive : ∀ e ∈ savedRows sampleQueries wholeDollars sampleDay.window,
      amount sampleQueries e = 5 := by decide +kernel
  exact fun e he => ⟨500, by rw [hfive e he]; norm_num⟩

def halfCents : List UsageEvent :=
  [sampleRow ("cache", .str "hit") "0.004", sampleRow ("batch", .bool true) "0.004"]

end Varsten.Savings.Dashboard
