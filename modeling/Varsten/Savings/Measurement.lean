import Varsten.Proxy.Experiment

/-!
# Verified savings

What the ledger of a project proves to be saved in a window: the amounts its rows record, the
experiments its arms make, less what measuring and optimizing cost.
-/

namespace Varsten.Savings.Measurement

open Python (Json)
open Python.Decimals
open Proxy.Ledger
open Proxy.Experiment

def cents (value : ℚ) : ℚ := quantize roundHalfEven 100 value

theorem cents_intCast (n : ℤ) : cents n = n :=
  quantize_intCast roundHalfEven_intCast (by norm_num) n

/-- `_saved`, which raises on a text that is no number. -/
def savedUsd (q : Queries) (e : UsageEvent) : Option ℚ := (astext q "saved_usd" e).bind q.numeric

/-- The rows of a sum, `cond` among them. -/
def records (q : Queries) (w : Window) (cond : UsageEvent → Bool) (e : UsageEvent) : Bool :=
  w.holds e && (astext q "saved_usd" e).isSome && cond e

def sumSaved (q : Queries) (rows : List UsageEvent) (w : Window) (cond : UsageEvent → Bool) :
    Option ℚ :=
  ((rows.filter (records q w cond)).mapM (savedUsd q)).map List.sum

def isCacheHit (q : Queries) (e : UsageEvent) : Bool := astext q "cache" e = some "hit"

def isBatch (q : Queries) (e : UsageEvent) : Bool := astext q "batch" e = some "true"

def isDirectRouting (q : Queries) (includeHoldbackTreatment : Bool) (e : UsageEvent) : Bool :=
  astext q "routed" e = some "true" && (includeHoldbackTreatment || !isHoldback q e)

/-- The levers with a sum; `routingLever` is that of the project's enabled routing policy. -/
def directMeasuredByLever (q : Queries) (routingLever : String) (rows : List UsageEvent)
    (w : Window) (includeHoldbackTreatment : Bool) : Option (List (String × ℚ)) := do
  let cache ← sumSaved q rows w (isCacheHit q)
  let batching ← sumSaved q rows w (isBatch q)
  let directRouting ← sumSaved q rows w (isDirectRouting q includeHoldbackTreatment)
  return [("semantic_cache", cache), ("batching", batching), (routingLever, directRouting)].filter
    (·.2 ≠ 0)

def pairOf (q : Queries) (e : UsageEvent) : Option (String × String) := do
  let incumbent ← (astext q "experiment_from" e).filter (· ≠ "")
  let candidate ← (astext q "experiment_to" e).filter (· ≠ "")
  return (incumbent, candidate)

def experimentPairs (q : Queries) (rows : List UsageEvent) (w : Window) :
    List (String × String) :=
  ((rows.filter fun e => w.holds e && isHoldback q e).filterMap (pairOf q)).dedup

def measurementCost (r : ExperimentResult) : Option ℚ :=
  r.measuredSavingsUsd.map fun _ => max (r.savingsPerRequestUsd.getD 0) 0 * r.controlRequests

def boundOr (bound : Option ℚ) (r : ExperimentResult) : Option ℚ :=
  r.measuredSavingsUsd.map bound.getD

def hasMeasuredSignal (r : ExperimentResult) : Bool := r.measuredSavingsUsd.isSome && r.hasSignal

structure Holdback where
  totalUsd : ℚ
  ciLowUsd : ℚ
  ciHighUsd : ℚ
  measurementCostUsd : ℚ
  hasSignal : Bool

def holdbackMeasured (q : Queries) (rows : List UsageEvent) (w : Window) : Holdback :=
  let results := (experimentPairs q rows w).map (computeExperiment q rows w)
  { totalUsd := (results.filterMap (·.measuredSavingsUsd)).sum
    ciLowUsd := (results.filterMap fun r => boundOr r.measuredSavingsCiLowUsd r).sum
    ciHighUsd := (results.filterMap fun r => boundOr r.measuredSavingsCiHighUsd r).sum
    measurementCostUsd := (results.filterMap measurementCost).sum
    hasSignal := results.any hasMeasuredSignal }

def overheadTags : List String := ["eval_replay", "embedding", "compression"]

def isOverhead (q : Queries) (e : UsageEvent) : Bool :=
  (astext q "overhead" e).any (· ∈ overheadTags)

def optimizationOverheadCost (q : Queries) (rows : List UsageEvent) (w : Window) : ℚ :=
  ((rows.filter fun e => w.holds e && isOverhead q e).filterMap (·.costUsd)).sum

structure VerifiedSavings where
  directByLever : List (String × ℚ)
  directMeasuredUsd : ℚ
  holdbackMeasuredUsd : ℚ
  holdbackCiLowUsd : ℚ
  holdbackCiHighUsd : ℚ
  measurementCostUsd : ℚ
  optimizationOverheadCostUsd : ℚ
  verifiedGrossSavingsUsd : ℚ
  holdbackHasSignal : Bool
  verifiedSavingsUsd : ℚ

def verifiedSavings (direct : List (String × ℚ)) (holdback : Holdback) (overhead : ℚ) :
    VerifiedSavings :=
  let directTotal := (direct.map Prod.snd).sum
  let verifiedGross := directTotal + holdback.totalUsd
  { directByLever := direct.map fun lever => (lever.1, cents lever.2)
    directMeasuredUsd := cents directTotal
    holdbackMeasuredUsd := cents holdback.totalUsd
    holdbackCiLowUsd := cents holdback.ciLowUsd
    holdbackCiHighUsd := cents holdback.ciHighUsd
    measurementCostUsd := cents holdback.measurementCostUsd
    optimizationOverheadCostUsd := cents overhead
    verifiedGrossSavingsUsd := cents verifiedGross
    holdbackHasSignal := holdback.hasSignal
    verifiedSavingsUsd := cents (verifiedGross - holdback.measurementCostUsd - overhead) }

/-- `compute_verified_savings`; `none` when a query raises. -/
def computeVerifiedSavings (q : Queries) (routingLever : String) (rows : List UsageEvent)
    (w : Window) : Option VerifiedSavings :=
  (directMeasuredByLever q routingLever rows w false).map fun direct =>
    verifiedSavings direct (holdbackMeasured q rows w) (optimizationOverheadCost q rows w)

/-! ## Rows that no query counts -/

def recordsDirect (q : Queries) (e : UsageEvent) : Bool :=
  (astext q "saved_usd" e).isSome && (isCacheHit q e || isBatch q e || isDirectRouting q false e)

/-- An arm aggregate counts the row. -/
def isArmRow (q : Queries) (e : UsageEvent) : Bool :=
  isHoldback q e && (pairOf q e).isSome &&
    (astext q "arm" e = some armControl || astext q "arm" e = some armTreatment)

structure Unread (q : Queries) (e : UsageEvent) : Prop where
  direct : recordsDirect q e = true → savedUsd q e = some 0
  arm : isArmRow q e = false
  overhead : isOverhead q e = true → e.costUsd.getD 0 = 0

section Filter

variable {q : Queries} {rows : List UsageEvent} {w : Window} {keep : UsageEvent → Bool}

theorem sum_filterMap {α : Type} (f : α → Option ℚ) (xs : List α) :
    (xs.filterMap f).sum = (xs.map fun x => (f x).getD 0).sum := by
  induction xs with
  | nil => rfl
  | cons x xs ih => cases hx : f x <;> simp [hx, ih]

theorem sum_mapM_cons {α : Type} (f : α → Option ℚ) (x : α) (xs : List α) :
    ((x :: xs).mapM f).map List.sum =
      (f x).bind fun a => ((xs.mapM f).map List.sum).map fun s => a + s := by
  rw [List.mapM_cons]
  cases f x with
  | none => rfl
  | some a => cases xs.mapM f <;> simp

theorem sumSaved_filter {cond : UsageEvent → Bool}
    (h : ∀ e ∈ rows, keep e = false → records q w cond e = true → savedUsd q e = some 0) :
    sumSaved q (rows.filter keep) w cond = sumSaved q rows w cond := by
  unfold sumSaved
  induction rows with
  | nil => rfl
  | cons e rows ih =>
    have ih := ih fun x hx => h x (List.mem_cons_of_mem e hx)
    cases hk : keep e with
    | true =>
      rw [List.filter_cons_of_pos hk]
      cases hr : records q w cond e with
      | true => rw [List.filter_cons_of_pos hr, List.filter_cons_of_pos hr, sum_mapM_cons,
          sum_mapM_cons, ih]
      | false => simpa [List.filter_cons, hr] using ih
    | false =>
      rw [List.filter_cons_of_neg (by simp [hk])]
      cases hr : records q w cond e with
      | true =>
        rw [List.filter_cons_of_pos hr, sum_mapM_cons, h e List.mem_cons_self hk hr, ih]
        cases (rows.filter (records q w cond)).mapM (savedUsd q) <;> simp
      | false => simpa [List.filter_cons, hr] using ih

theorem mem_experimentPairs {pair : String × String} : pair ∈ experimentPairs q rows w ↔
    ∃ e ∈ rows, w.holds e = true ∧ isHoldback q e = true ∧ pairOf q e = some pair := by
  simp only [experimentPairs, List.mem_dedup, List.mem_filterMap, List.mem_filter,
    Bool.and_eq_true]
  constructor
  · rintro ⟨e, ⟨he, hw, hh⟩, hp⟩
    exact ⟨e, he, hw, hh, hp⟩
  · rintro ⟨e, he, hw, hh, hp⟩
    exact ⟨e, ⟨he, hw, hh⟩, hp⟩

theorem pairOf_eq_some {e : UsageEvent} {pair : String × String} : pairOf q e = some pair ↔
    (astext q "experiment_from" e = some pair.1 ∧ pair.1 ≠ "") ∧
      astext q "experiment_to" e = some pair.2 ∧ pair.2 ≠ "" := by
  obtain ⟨i, c⟩ := pair
  simp only [pairOf, Option.bind_eq_bind, Option.bind_eq_some_iff, Option.filter_eq_some_iff,
    decide_eq_true_eq, Option.pure_def, Option.some.injEq, Prod.mk.injEq]
  constructor
  · rintro ⟨a, ha, b, hb, rfl, rfl⟩
    exact ⟨ha, hb⟩
  · rintro ⟨ha, hb⟩
    exact ⟨i, ha, c, hb, rfl, rfl⟩

theorem isArmRow_of_inPair {e : UsageEvent} {pair : String × String}
    (hp : pair.1 ≠ "" ∧ pair.2 ≠ "") (hin : inPair q pair e = true)
    (harm : astext q "arm" e = some armControl ∨ astext q "arm" e = some armTreatment) :
    isArmRow q e = true := by
  simp only [inPair, Bool.and_eq_true, decide_eq_true_eq] at hin
  have hpair : pairOf q e = some pair := pairOf_eq_some.2 ⟨⟨hin.1.2, hp.1⟩, hin.2, hp.2⟩
  simp [isArmRow, hin.1.1, hpair, harm]

theorem armOf_filter {arm : String} {pair : String × String} (hp : pair.1 ≠ "" ∧ pair.2 ≠ "")
    (harm : arm = armControl ∨ arm = armTreatment)
    (h : ∀ e ∈ rows, keep e = false → w.holds e = true → isArmRow q e = false) :
    armOf q arm ((rows.filter keep).filter fun e => w.holds e && inPair q pair e) =
      armOf q arm (rows.filter fun e => w.holds e && inPair q pair e) := by
  have hgroup : ((rows.filter keep).filter fun e => w.holds e && inPair q pair e).filter
        (fun e => astext q "arm" e = some arm) =
      (rows.filter fun e => w.holds e && inPair q pair e).filter
        (fun e => astext q "arm" e = some arm) := by
    simp only [List.filter_filter]
    refine List.filter_congr fun e he => ?_
    cases hk : keep e with
    | true => simp
    | false =>
      by_cases hall : astext q "arm" e = some arm ∧ w.holds e = true ∧ inPair q pair e = true
      · have ha : astext q "arm" e = some armControl ∨ astext q "arm" e = some armTreatment := by
          rw [hall.1, Option.some.injEq, Option.some.injEq]
          exact harm
        exact absurd (isArmRow_of_inPair hp hall.2.2 ha) (by simp [h e he hk hall.2.1])
      · simpa using hall
  simp only [armOf, hgroup]

theorem computeExperiment_filter {pair : String × String} (hp : pair.1 ≠ "" ∧ pair.2 ≠ "")
    (h : ∀ e ∈ rows, keep e = false → w.holds e = true → isArmRow q e = false) :
    computeExperiment q (rows.filter keep) w pair = computeExperiment q rows w pair := by
  simp only [computeExperiment, armOf_filter hp (.inl rfl) h, armOf_filter hp (.inr rfl) h]

theorem computeExperiment_unmeasured {pair : String × String}
    (hp : pair.1 ≠ "" ∧ pair.2 ≠ "") (h : pair ∉ experimentPairs q rows w) :
    (computeExperiment q rows w pair).measuredSavingsUsd = none := by
  have hgroup : (rows.filter fun e => w.holds e && inPair q pair e) = [] := by
    refine List.filter_eq_nil_iff.2 fun e he hin => h (mem_experimentPairs.2 ⟨e, he, ?_⟩)
    simp only [inPair, Bool.and_eq_true, decide_eq_true_eq] at hin
    exact ⟨hin.1, hin.2.1.1, pairOf_eq_some.2 ⟨⟨hin.2.1.2, hp.1⟩, hin.2.2, hp.2⟩⟩
  simp only [computeExperiment, hgroup]
  exact compareArms_unmeasured (.inl rfl)

theorem pair_of_mem {pair : String × String} (h : pair ∈ experimentPairs q rows w) :
    pair.1 ≠ "" ∧ pair.2 ≠ "" := by
  obtain ⟨e, -, -, -, hp⟩ := mem_experimentPairs.1 h
  exact ⟨(pairOf_eq_some.1 hp).1.2, (pairOf_eq_some.1 hp).2.2⟩

theorem experimentPairs_filter_subset :
    experimentPairs q (rows.filter keep) w ⊆ experimentPairs q rows w := by
  intro pair hp
  obtain ⟨e, he, h⟩ := mem_experimentPairs.1 hp
  exact mem_experimentPairs.2 ⟨e, (List.mem_filter.1 he).1, h⟩

theorem sum_results (f : ExperimentResult → Option ℚ) :
    (((experimentPairs q rows w).map (computeExperiment q rows w)).filterMap f).sum =
      ∑ pair ∈ (experimentPairs q rows w).toFinset,
        (f (computeExperiment q rows w pair)).getD 0 := by
  have hnodup : (experimentPairs q rows w).Nodup := List.nodup_dedup _
  rw [sum_filterMap, List.map_map, List.sum_toFinset _ hnodup]
  rfl

theorem sum_results_filter {f : ExperimentResult → Option ℚ}
    (hf : ∀ r, r.measuredSavingsUsd = none → f r = none)
    (h : ∀ e ∈ rows, keep e = false → w.holds e = true → isArmRow q e = false) :
    (((experimentPairs q (rows.filter keep) w).map
        (computeExperiment q (rows.filter keep) w)).filterMap f).sum =
      (((experimentPairs q rows w).map (computeExperiment q rows w)).filterMap f).sum := by
  rw [sum_results, sum_results]
  have hsub : (experimentPairs q (rows.filter keep) w).toFinset ⊆
      (experimentPairs q rows w).toFinset :=
    fun _ hp => List.mem_toFinset.2 (experimentPairs_filter_subset (List.mem_toFinset.1 hp))
  rw [← Finset.sum_subset hsub fun pair hp hn => ?_]
  · refine Finset.sum_congr rfl fun pair hp => ?_
    rw [computeExperiment_filter (pair_of_mem (List.mem_toFinset.1 hp)) h]
  · have hpair := pair_of_mem (List.mem_toFinset.1 hp)
    have hnone := computeExperiment_unmeasured hpair fun hm => hn (List.mem_toFinset.2 hm)
    rw [computeExperiment_filter hpair h] at hnone
    rw [hf _ hnone, Option.getD_none]

theorem any_results_filter
    (h : ∀ e ∈ rows, keep e = false → w.holds e = true → isArmRow q e = false) :
    ((experimentPairs q (rows.filter keep) w).map
        (computeExperiment q (rows.filter keep) w)).any hasMeasuredSignal =
      ((experimentPairs q rows w).map (computeExperiment q rows w)).any hasMeasuredSignal := by
  rw [Bool.eq_iff_iff]
  simp only [List.any_map, List.any_eq_true, Function.comp]
  constructor
  · rintro ⟨pair, hp, hs⟩
    rw [computeExperiment_filter (pair_of_mem hp) h] at hs
    exact ⟨pair, experimentPairs_filter_subset hp, hs⟩
  · rintro ⟨pair, hp, hs⟩
    rw [← computeExperiment_filter (pair_of_mem hp) h] at hs
    refine ⟨pair, ?_, hs⟩
    by_contra hn
    simp [hasMeasuredSignal, computeExperiment_unmeasured (pair_of_mem hp) hn] at hs

theorem holdbackMeasured_filter
    (h : ∀ e ∈ rows, keep e = false → w.holds e = true → isArmRow q e = false) :
    holdbackMeasured q (rows.filter keep) w = holdbackMeasured q rows w := by
  unfold holdbackMeasured
  simp only [Holdback.mk.injEq]
  refine ⟨sum_results_filter (fun _ hr => hr) h, sum_results_filter (fun _ hr => ?_) h,
    sum_results_filter (fun _ hr => ?_) h, sum_results_filter (fun _ hr => ?_) h,
    any_results_filter h⟩
  · simp [boundOr, hr]
  · simp [boundOr, hr]
  · simp [measurementCost, hr]

theorem optimizationOverheadCost_filter
    (h : ∀ e ∈ rows, keep e = false → w.holds e = true → isOverhead q e = true →
      e.costUsd.getD 0 = 0) :
    optimizationOverheadCost q (rows.filter keep) w = optimizationOverheadCost q rows w := by
  unfold optimizationOverheadCost
  simp only [sum_filterMap]
  induction rows with
  | nil => rfl
  | cons e rows ih =>
    have ih := ih fun x hx => h x (List.mem_cons_of_mem e hx)
    cases hk : keep e with
    | true =>
      rw [List.filter_cons_of_pos hk, List.filter_cons, List.filter_cons]
      split_ifs
      · rw [List.map_cons, List.map_cons, List.sum_cons, List.sum_cons, ih]
      · exact ih
    | false =>
      rw [List.filter_cons_of_neg (by simp [hk]), ih, List.filter_cons]
      split_ifs with hr
      · rw [Bool.and_eq_true] at hr
        simp [h e List.mem_cons_self hk hr.1 hr.2]
      · rfl

theorem directMeasuredByLever_filter {routingLever : String}
    (h : ∀ e ∈ rows, keep e = false → w.holds e = true → recordsDirect q e = true →
      savedUsd q e = some 0) :
    directMeasuredByLever q routingLever (rows.filter keep) w false =
      directMeasuredByLever q routingLever rows w false := by
  have hsum : ∀ cond : UsageEvent → Bool,
      (∀ e, cond e = true → (isCacheHit q e || isBatch q e || isDirectRouting q false e) = true) →
      sumSaved q (rows.filter keep) w cond = sumSaved q rows w cond := by
    intro cond hcond
    refine sumSaved_filter fun e he hk hr => ?_
    simp only [records, Bool.and_eq_true] at hr
    exact h e he hk hr.1.1 (by simp [recordsDirect, hr.1.2, hcond e hr.2])
  simp only [directMeasuredByLever]
  rw [hsum (isCacheHit q) (by simp +contextual), hsum (isBatch q) (by simp +contextual),
    hsum (isDirectRouting q false) (by simp +contextual)]

theorem computeVerifiedSavings_filter {routingLever : String}
    (h : ∀ e ∈ rows, keep e = false → w.holds e = true → Unread q e) :
    computeVerifiedSavings q routingLever (rows.filter keep) w =
      computeVerifiedSavings q routingLever rows w := by
  simp only [computeVerifiedSavings,
    directMeasuredByLever_filter fun e he hk hw => (h e he hk hw).direct,
    holdbackMeasured_filter fun e he hk hw => (h e he hk hw).arm,
    optimizationOverheadCost_filter fun e he hk hw => (h e he hk hw).overhead]

end Filter

/-! ## Windows that hold the same rows -/

section Congr

variable {q : Queries} {rows : List UsageEvent} {w w' : Window}

theorem sumSaved_congr (h : ∀ e ∈ rows, w.holds e = w'.holds e) (cond : UsageEvent → Bool) :
    sumSaved q rows w cond = sumSaved q rows w' cond := by
  have hfilter : rows.filter (records q w cond) = rows.filter (records q w' cond) :=
    List.filter_congr fun e he => by rw [records, records, h e he]
  rw [sumSaved, sumSaved, hfilter]

theorem experimentPairs_congr (h : ∀ e ∈ rows, w.holds e = w'.holds e) :
    experimentPairs q rows w = experimentPairs q rows w' := by
  have hfilter : (rows.filter fun e => w.holds e && isHoldback q e) =
      rows.filter fun e => w'.holds e && isHoldback q e :=
    List.filter_congr fun e he => by rw [h e he]
  rw [experimentPairs, experimentPairs, hfilter]

theorem computeExperiment_congr (h : ∀ e ∈ rows, w.holds e = w'.holds e)
    (pair : String × String) :
    computeExperiment q rows w pair = computeExperiment q rows w' pair := by
  have hfilter : (rows.filter fun e => w.holds e && inPair q pair e) =
      rows.filter fun e => w'.holds e && inPair q pair e :=
    List.filter_congr fun e he => by rw [h e he]
  rw [computeExperiment, computeExperiment, hfilter]

theorem holdbackMeasured_congr (h : ∀ e ∈ rows, w.holds e = w'.holds e) :
    holdbackMeasured q rows w = holdbackMeasured q rows w' := by
  unfold holdbackMeasured
  rw [experimentPairs_congr h, funext (computeExperiment_congr h)]

theorem optimizationOverheadCost_congr (h : ∀ e ∈ rows, w.holds e = w'.holds e) :
    optimizationOverheadCost q rows w = optimizationOverheadCost q rows w' := by
  have hfilter : (rows.filter fun e => w.holds e && isOverhead q e) =
      rows.filter fun e => w'.holds e && isOverhead q e :=
    List.filter_congr fun e he => by rw [h e he]
  rw [optimizationOverheadCost, optimizationOverheadCost, hfilter]

theorem verifiedSavingsUsd_congr (h : ∀ e ∈ rows, w.holds e = w'.holds e)
    (lever lever' : String) :
    (computeVerifiedSavings q lever rows w).map (·.verifiedSavingsUsd) =
      (computeVerifiedSavings q lever' rows w').map (·.verifiedSavingsUsd) := by
  unfold computeVerifiedSavings directMeasuredByLever
  simp only [sumSaved_congr h, holdbackMeasured_congr h, optimizationOverheadCost_congr h,
    Option.bind_eq_bind, Option.map_bind]
  cases sumSaved q rows w' (isCacheHit q) with
  | none => rfl
  | some cache =>
    cases sumSaved q rows w' (isBatch q) with
    | none => rfl
    | some batching =>
      cases sumSaved q rows w' (isDirectRouting q false) with
      | none => rfl
      | some routing =>
        by_cases h1 : cache = 0 <;> by_cases h2 : batching = 0 <;> by_cases h3 : routing = 0 <;>
          simp [verifiedSavings, h1, h2, h3]

end Congr

end Varsten.Savings.Measurement
