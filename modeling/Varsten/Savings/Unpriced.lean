import Varsten.Savings.Measurement

/-!
# Unpriced rows

Rows of unknown cost claim nothing by themselves, but an arm counts them, at a cost of zero.
-/

namespace Varsten.Savings.Unpriced

open Python (Json)
open Python.Decimals
open Python.Utf8 (Text)
open Pricing.Service
open Proxy.Ledger
open Proxy.Experiment
open Measurement

/-- The rows the gateway writes, each at the prices of its time. -/
inductive Written (str : ℚ → String) (lower : Text → Text) : UsageEvent → Prop where
  | proxy (prices : Prices) (u : ProxyUsage) (t : ℚ) :
      Written str lower (recordProxyUsage str lower prices u t)
  | overhead (prices : Prices) (u : OverheadUsage) (t : ℚ) :
      Written str lower (recordOverheadUsage prices u t)
  | batch (u : BatchUsage) (t : ℚ) : Written str lower (recordBatchUsage str u t)

def isPriced (e : UsageEvent) : Bool := e.pricingStatus = "priced"

variable {str : ℚ → String} {lower : Text → Text} {q : Queries}

theorem itemText_amount (value : Option ℚ) :
    itemText q (some (amount str value)) = value.map str := by
  cases value <;> rfl

theorem savedText_proxy (prices : Prices) (u : ProxyUsage) (t : ℚ) :
    astext q "saved_usd" (recordProxyUsage str lower prices u t) =
      (costAndBaseMetadata prices u).2.savedUsd.map str := by
  rw [astext, item_recordProxyUsage "saved_usd" (by decide)]
  cases (costAndBaseMetadata prices u).2 with
  | hit naive saved => exact itemText_amount saved
  | routed fromModel toModel fromProvider toProvider naive saved => exact itemText_amount saved
  | miss => rfl

theorem isOverhead_proxy (prices : Prices) (u : ProxyUsage) (t : ℚ) :
    isOverhead q (recordProxyUsage str lower prices u t) = false := by
  rw [isOverhead, astext, item_recordProxyUsage "overhead" (by decide)]
  cases (costAndBaseMetadata prices u).2 <;> rfl

theorem isPriced_proxy {prices : Prices} {u : ProxyUsage} {t : ℚ} :
    isPriced (recordProxyUsage str lower prices u t) = true ↔
      (u.usedCost prices).isSome = true := by
  rw [isPriced, decide_eq_true_eq]
  exact pricingStatus_iff

structure Unknown (q : Queries) (e : UsageEvent) : Prop where
  saved : astext q "saved_usd" e = none
  overhead : isOverhead q e = true → e.costUsd = none
  arm : isArmRow q e = true → e.costUsd = some 0

theorem Written.unknown {e : UsageEvent} (h : Written str lower e) (hp : isPriced e = false) :
    Unknown q e := by
  cases h with
  | proxy prices u t =>
    have hused : u.usedCost prices = none := by
      rw [← Option.not_isSome_iff_eq_none, ← isPriced_proxy, hp]
      exact Bool.false_ne_true
    have hbase := costAndBaseMetadata_unpriced hused
    refine ⟨?_, fun ho => ?_, fun _ => ?_⟩
    · rw [savedText_proxy, hbase.2, Option.map_none]
    · rw [isOverhead_proxy] at ho
      exact absurd ho Bool.false_ne_true
    · rw [recordProxyUsage, hbase.1]
  | overhead prices u t =>
    have hcost : (recordOverheadUsage prices u t).costUsd = none := by
      rw [← Option.not_isSome_iff_eq_none]
      intro hs
      rw [isPriced, decide_eq_false_iff_not] at hp
      exact hp (pricingStatus_iff.2 hs)
    exact ⟨rfl, fun _ => hcost, fun ha => absurd ha Bool.false_ne_true⟩
  | batch u t =>
    have hcost : u.actualCostUsd = none := by
      cases hc : u.actualCostUsd with
      | none => rfl
      | some c => simp [isPriced, recordBatchUsage, hc] at hp
    refine ⟨?_, fun _ => hcost, fun ha => absurd ha Bool.false_ne_true⟩
    have hsaved : u.savedUsd = none := by
      simp only [BatchUsage.savedUsd, hcost]
      cases u.naiveCostUsd <;> rfl
    exact (itemText_amount u.savedUsd).trans (by rw [hsaved, Option.map_none])

theorem Unknown.unread {e : UsageEvent} (h : Unknown q e) (ha : isArmRow q e = false) :
    Unread q e := by
  refine ⟨fun hd => ?_, ha, fun ho => ?_⟩
  · simp [recordsDirect, h.saved] at hd
  · rw [h.overhead ho, Option.getD_none]

/-! ## A ledger that shows an arm row -/

theorem filterMap_zero {rows : List UsageEvent} (h : ∀ e ∈ rows, e.costUsd = some 0) :
    rows.filterMap (·.costUsd) = List.replicate rows.length 0 := by
  induction rows with
  | nil => rfl
  | cons e rows ih =>
    rw [List.filterMap_cons_some (h e List.mem_cons_self),
      ih fun x hx => h x (List.mem_cons_of_mem e hx)]
    rfl

def armRows (q : Queries) (arm : String) (rows : List UsageEvent) : List UsageEvent :=
  rows.filter fun e => astext q "arm" e = some arm

theorem armOf_zero {arm : String} {rows : List UsageEvent}
    (h : ∀ e ∈ armRows q arm rows, e.costUsd = some 0) :
    (armOf q arm rows).mean = if armRows q arm rows = [] then none else some 0 := by
  change mean ((armRows q arm rows).filterMap (·.costUsd)) = _
  rw [filterMap_zero h]
  cases armRows q arm rows with
  | nil => rfl
  | cons e group => simp [mean]

theorem armOf_cons_zero {arm : String} {e : UsageEvent} {rows : List UsageEvent} {c : ℚ}
    (he : astext q "arm" e = some arm) (hc : e.costUsd = some c)
    (h : ∀ e ∈ armRows q arm rows, e.costUsd = some 0) :
    (armOf q arm (e :: rows)).mean = some (c / ((armRows q arm rows).length + 1)) := by
  have hgroup : armRows q arm (e :: rows) = e :: armRows q arm rows :=
    List.filter_cons_of_pos (by simpa using he)
  change mean ((armRows q arm (e :: rows)).filterMap (·.costUsd)) = _
  rw [hgroup, List.filterMap_cons_some hc, filterMap_zero h]
  simp [mean]

theorem armOf_cons_of_ne {arm : String} {e : UsageEvent} {rows : List UsageEvent}
    (he : astext q "arm" e ≠ some arm) : armOf q arm (e :: rows) = armOf q arm rows := by
  have hgroup : (e :: rows).filter (fun e => astext q "arm" e = some arm) =
      rows.filter fun e => astext q "arm" e = some arm :=
    List.filter_cons_of_neg (by simpa using he)
  simp only [armOf, hgroup]

def fullWindow (rows : List UsageEvent) : Window :=
  let bound := (rows.map fun e => |e.receivedAt|).sum + 1
  ⟨-bound, some bound⟩

theorem fullWindow_holds {rows : List UsageEvent} {e : UsageEvent} (he : e ∈ rows) :
    (fullWindow rows).holds e = true := by
  have hle : |e.receivedAt| ≤ (rows.map fun e => |e.receivedAt|).sum := by
    refine List.single_le_sum (fun x hx => ?_) _ (List.mem_map_of_mem he)
    obtain ⟨y, -, rfl⟩ := List.mem_map.1 hx
    exact abs_nonneg _
  have hb := abs_le.1 hle
  have hlow : -((rows.map fun e => |e.receivedAt|).sum + 1) ≤ e.receivedAt := by linarith
  have hhigh : e.receivedAt < (rows.map fun e => |e.receivedAt|).sum + 1 := by linarith
  exact Bool.and_eq_true_iff.2 ⟨decide_eq_true hlow, decide_eq_true hhigh⟩

/-- A call of one token at a price of `cost` dollars, tagged with an arm of the pair. -/
def armUsage (arm : String) (pair : String × String) : ProxyUsage :=
  ⟨pair.1, "openai", 1, 0, 0, false, none, none, some arm, some pair.1, some pair.2, none, none⟩

def flatPrices (cost : ℤ) : Prices := fun _ _ => some ⟨cost, 0, none, "catalog", none⟩

def pricedRow (str : ℚ → String) (lower : Text → Text) (arm : String) (pair : String × String)
    (cost : ℤ) : UsageEvent :=
  recordProxyUsage str lower (flatPrices cost) (armUsage arm pair) 0

section PricedRow

variable {arm : String} {pair : String × String} {cost : ℤ}

theorem usedCost_flat : (armUsage arm pair).usedCost (flatPrices cost) = some (cost : ℚ) := by
  have hraw : rawCost ⟨cost, 0, none, "catalog", none⟩ 1 0 0 = cost := by
    simp [rawCost, cachedTokens]
  rw [ProxyUsage.usedCost, priceUsageEvent_priced (by simp [armUsage]) rfl]
  change some (quantize roundHalfUp costQuantum (rawCost _ 1 0 0)) = _
  rw [hraw, quantize_intCast roundHalfUp_intCast (by norm_num [costQuantum])]

theorem pricedRow_priced : isPriced (pricedRow str lower arm pair cost) = true := by
  rw [pricedRow, isPriced_proxy, usedCost_flat]
  rfl

theorem pricedRow_cost : (pricedRow str lower arm pair cost).costUsd = some (cost : ℚ) := by
  have hbase : (costAndBaseMetadata (flatPrices cost) (armUsage arm pair)).1 =
      ((armUsage arm pair).usedCost (flatPrices cost)).getD 0 := rfl
  rw [pricedRow, recordProxyUsage, hbase, usedCost_flat, Option.getD_some]

theorem pricedRow_saved : astext q "saved_usd" (pricedRow str lower arm pair cost) = none := by
  rw [pricedRow, savedText_proxy]
  rfl

theorem pricedRow_metadata (ha : arm = armControl ∨ arm = armTreatment) :
    (pricedRow str lower arm pair cost).metadata =
      [("proxy", .bool true), ("cache", .str "miss"), ("holdback", .bool true),
        ("arm", .str arm), ("experiment_from", .str pair.1), ("experiment_to", .str pair.2),
        ("route_key", .str (routeKeyFromContext lower none "chat_completion"))] := by
  rcases ha with rfl | rfl <;> rfl

theorem pricedRow_arm (ha : arm = armControl ∨ arm = armTreatment) :
    astext q "arm" (pricedRow str lower arm pair cost) = some arm := by
  rw [astext, pricedRow_metadata ha]
  rfl

theorem pricedRow_inPair (ha : arm = armControl ∨ arm = armTreatment) {p : String × String} :
    inPair q p (pricedRow str lower arm pair cost) = true ↔ p = pair := by
  have hpair : inPair q p (pricedRow str lower arm pair cost) =
      (decide (pair.1 = p.1) && decide (pair.2 = p.2)) := by
    simp only [inPair, isHoldback, astext, pricedRow_metadata ha]
    simp [Json.item, itemText]
  rw [hpair, Bool.and_eq_true, decide_eq_true_eq, decide_eq_true_eq, Prod.ext_iff, eq_comm,
    @eq_comm _ pair.2]

end PricedRow

/-! ## When deletion is invisible -/

def figures (v : VerifiedSavings) : ℚ × ℚ × ℚ :=
  (v.verifiedGrossSavingsUsd, v.measurementCostUsd, v.verifiedSavingsUsd)

/-- Without its unpriced rows, the ledger has the same figures in every window. -/
def Inert (q : Queries) (routingLever : String) (rows : List UsageEvent) : Prop :=
  ∀ w, (computeVerifiedSavings q routingLever (rows.filter isPriced) w).map figures =
    (computeVerifiedSavings q routingLever rows w).map figures

variable {routingLever : String}

theorem sumSaved_of_none {rows : List UsageEvent} {w : Window} {cond : UsageEvent → Bool}
    (h : ∀ e ∈ rows, astext q "saved_usd" e = none) : sumSaved q rows w cond = some 0 := by
  have hnil : rows.filter (records q w cond) = [] :=
    List.filter_eq_nil_iff.2 fun e he => by simp [records, h e he]
  rw [sumSaved, hnil]
  rfl

theorem gross_of_none {rows : List UsageEvent} {w : Window}
    (h : ∀ e ∈ rows, astext q "saved_usd" e = none) :
    (computeVerifiedSavings q routingLever rows w).map (fun v => (figures v).1) =
      some (cents (holdbackMeasured q rows w).totalUsd) := by
  have hdirect : directMeasuredByLever q routingLever rows w false = some [] := by
    simp [directMeasuredByLever, sumSaved_of_none h]
  rw [computeVerifiedSavings, hdirect]
  simp [figures, verifiedSavings]

theorem measured_zero {rows : List UsageEvent} {w : Window} {pair : String × String}
    (h : ∀ e ∈ rows, inPair q pair e = true → ∀ arm, arm = armControl ∨ arm = armTreatment →
      astext q "arm" e = some arm → e.costUsd = some 0) :
    ((computeExperiment q rows w pair).measuredSavingsUsd).getD 0 = 0 := by
  have harm : ∀ arm, arm = armControl ∨ arm = armTreatment →
      (armOf q arm (rows.filter fun e => w.holds e && inPair q pair e)).mean = none ∨
        (armOf q arm (rows.filter fun e => w.holds e && inPair q pair e)).mean = some 0 := by
    intro arm ha
    rw [armOf_zero fun e he => ?_]
    · split_ifs
      · exact .inl rfl
      · exact .inr rfl
    · obtain ⟨he, harm⟩ := List.mem_filter.1 he
      obtain ⟨he, hin⟩ := List.mem_filter.1 he
      rw [Bool.and_eq_true] at hin
      exact h e he hin.2 arm ha (of_decide_eq_true harm)
  have hzero : eightDigits 0 = 0 := by simpa using eightDigits_intCast 0
  rcases harm armControl (.inl rfl) with hc | hc
  · rw [computeExperiment, compareArms_unmeasured (.inl hc), Option.getD_none]
  rcases harm armTreatment (.inr rfl) with ht | ht
  · rw [computeExperiment, compareArms_unmeasured (.inr ht), Option.getD_none]
  rw [computeExperiment, compareArms_measured hc ht, sub_zero, zero_mul, hzero, Option.getD_some]

section Visible

variable {us : List UsageEvent} {arm : String} {pair : String × String} {cost : ℤ} {w : Window}

theorem total_alone (ha : arm = armControl ∨ arm = armTreatment) :
    (holdbackMeasured q [pricedRow str lower arm pair cost] w).totalUsd = 0 := by
  have hnone : ∀ p, (computeExperiment q [pricedRow str lower arm pair cost] w
      p).measuredSavingsUsd = none := by
    intro p
    have hempty : ∀ other, arm ≠ other → ∀ keep : UsageEvent → Bool,
        (armOf q other ([pricedRow str lower arm pair cost].filter keep)).mean = none := by
      intro other hne keep
      rw [List.filter_cons]
      split_ifs
      · rw [armOf_cons_of_ne (by rw [pricedRow_arm ha]; simpa using hne)]
        rfl
      · rfl
    refine compareArms_unmeasured ?_
    rcases ha with rfl | rfl
    · exact .inr (hempty _ (by decide) _)
    · exact .inl (hempty _ (by decide) _)
  change (List.filterMap _ _).sum = 0
  rw [sum_results]
  exact Finset.sum_eq_zero fun p _ => by rw [hnone, Option.getD_none]

theorem total_beside (hus : ∀ e ∈ us, Unknown q e) (hp : pair.1 ≠ "" ∧ pair.2 ≠ "")
    (ha : arm = armControl ∨ arm = armTreatment)
    (hw : w.holds (pricedRow str lower arm pair cost) = true) :
    (holdbackMeasured q (pricedRow str lower arm pair cost :: us) w).totalUsd =
      ((computeExperiment q (pricedRow str lower arm pair cost :: us) w
        pair).measuredSavingsUsd).getD 0 := by
  have hin : inPair q pair (pricedRow str lower arm pair cost) = true :=
    (pricedRow_inPair ha).2 rfl
  change (List.filterMap _ _).sum = _
  rw [sum_results]
  refine Finset.sum_eq_single pair (fun p hmem hne => ?_) fun hmem => ?_
  · refine measured_zero fun e he hpair arm' ha' harm' => ?_
    rcases List.mem_cons.1 he with rfl | he
    · exact absurd ((pricedRow_inPair ha).1 hpair) hne
    · refine (hus e he).arm (isArmRow_of_inPair (pair_of_mem (List.mem_toFinset.1 hmem)) hpair ?_)
      rw [harm', Option.some.injEq, Option.some.injEq]
      exact ha'
  · refine absurd (List.mem_toFinset.2 (mem_experimentPairs.2 ⟨_, List.mem_cons_self, hw, ?_⟩)) hmem
    simp only [inPair, Bool.and_eq_true, decide_eq_true_eq] at hin
    exact ⟨hin.1.1, pairOf_eq_some.2 ⟨⟨hin.1.2, hp.1⟩, hin.2, hp.2⟩⟩

def pairGroup (q : Queries) (w : Window) (pair : String × String) (us : List UsageEvent) :
    List UsageEvent :=
  us.filter fun e => w.holds e && inPair q pair e

theorem pairGroup_zero (hus : ∀ e ∈ us, Unknown q e) (hp : pair.1 ≠ "" ∧ pair.2 ≠ "")
    (ha : arm = armControl ∨ arm = armTreatment) :
    ∀ e ∈ armRows q arm (pairGroup q w pair us), e.costUsd = some 0 := by
  intro e he
  obtain ⟨he, harm⟩ := List.mem_filter.1 he
  obtain ⟨he, hin⟩ := List.mem_filter.1 he
  rw [Bool.and_eq_true] at hin
  refine (hus e he).arm (isArmRow_of_inPair hp hin.2 ?_)
  rw [of_decide_eq_true harm, Option.some.injEq, Option.some.injEq]
  exact ha

theorem filter_beside (ha : arm = armControl ∨ arm = armTreatment)
    (hw : w.holds (pricedRow str lower arm pair cost) = true) :
    (pricedRow str lower arm pair cost :: us).filter (fun e => w.holds e && inPair q pair e) =
      pricedRow str lower arm pair cost :: pairGroup q w pair us :=
  List.filter_cons_of_pos (by rw [hw, (pricedRow_inPair ha).2 rfl]; rfl)

/-- Against a control of `n + 1` hundred dollars over `n + 1` rows, every treatment row of unknown
cost is worth a hundred. -/
theorem measured_treatment (hus : ∀ e ∈ us, Unknown q e) (hp : pair.1 ≠ "" ∧ pair.2 ≠ "")
    (ht : armRows q armTreatment (pairGroup q w pair us) ≠ [])
    (hcost : cost = 100 * ((armRows q armControl (pairGroup q w pair us)).length + 1))
    (hw : w.holds (pricedRow str lower armControl pair cost) = true) :
    (computeExperiment q (pricedRow str lower armControl pair cost :: us) w
      pair).measuredSavingsUsd =
        some ((100 * (armRows q armTreatment (pairGroup q w pair us)).length : ℤ) : ℚ) := by
  have harm : astext q "arm" (pricedRow str lower armControl pair cost) = some armControl :=
    pricedRow_arm (.inl rfl)
  have hne : astext q "arm" (pricedRow str lower armControl pair cost) ≠ some armTreatment := by
    rw [harm]
    decide
  have hc := armOf_cons_zero harm pricedRow_cost (pairGroup_zero (w := w) hus hp (.inl rfl))
  have ht' := armOf_zero (pairGroup_zero (w := w) hus hp (.inr rfl))
  have hk : ((armRows q armControl (pairGroup q w pair us)).length : ℚ) + 1 ≠ 0 := by positivity
  have hmean : (cost : ℚ) / ((armRows q armControl (pairGroup q w pair us)).length + 1) = 100 := by
    rw [hcost]
    push_cast
    exact mul_div_cancel_right₀ _ hk
  rw [if_neg ht, ← armOf_cons_of_ne hne] at ht'
  rw [computeExperiment, filter_beside (.inl rfl) hw, compareArms_measured hc ht', hmean,
    armOf_cons_of_ne hne, ← eightDigits_intCast]
  change some (eightDigits ((100 - 0) * (armRows q armTreatment (pairGroup q w pair us)).length)) = _
  rw [sub_zero, Int.cast_mul, Int.cast_natCast]
  rfl

/-- Against rows of unknown cost in the control arm, a treatment row of a hundred dollars loses
them. -/
theorem measured_control (hus : ∀ e ∈ us, Unknown q e) (hp : pair.1 ≠ "" ∧ pair.2 ≠ "")
    (hc : armRows q armControl (pairGroup q w pair us) ≠ [])
    (ht : armRows q armTreatment (pairGroup q w pair us) = [])
    (hw : w.holds (pricedRow str lower armTreatment pair 100) = true) :
    (computeExperiment q (pricedRow str lower armTreatment pair 100 :: us) w
      pair).measuredSavingsUsd = some ((-100 : ℤ) : ℚ) := by
  have harm : astext q "arm" (pricedRow str lower armTreatment pair 100) = some armTreatment :=
    pricedRow_arm (.inr rfl)
  have hne : astext q "arm" (pricedRow str lower armTreatment pair 100) ≠ some armControl := by
    rw [harm]
    decide
  have ht' := armOf_cons_zero harm pricedRow_cost (pairGroup_zero (w := w) hus hp (.inr rfl))
  have hn : (armOf q armTreatment (pricedRow str lower armTreatment pair 100 ::
      pairGroup q w pair us)).n = 1 := by
    change (armRows q armTreatment (_ :: _)).length = 1
    rw [armRows, List.filter_cons_of_pos (by simpa using harm)]
    exact congrArg (·.length + 1) ht
  have hc' := armOf_zero (pairGroup_zero (w := w) hus hp (.inl rfl))
  rw [if_neg hc, ← armOf_cons_of_ne hne] at hc'
  rw [ht, List.length_nil] at ht'
  have hv : (0 - ((100 : ℤ) : ℚ) / ((0 : ℕ) + 1)) * (1 : ℕ) = (-100 : ℤ) := by norm_num
  rw [computeExperiment, filter_beside (.inr rfl) hw, compareArms_measured hc' ht', hn, hv,
    eightDigits_intCast]

theorem not_inert (hus : ∀ e ∈ us, Unknown q e ∧ isPriced e = false)
    (ha : arm = armControl ∨ arm = armTreatment) (hp : pair.1 ≠ "" ∧ pair.2 ≠ "")
    (hw : w.holds (pricedRow str lower arm pair cost) = true) {v : ℤ} (hv : v ≠ 0)
    (hm : (computeExperiment q (pricedRow str lower arm pair cost :: us) w
      pair).measuredSavingsUsd = some (v : ℚ)) :
    ¬ Inert q routingLever (pricedRow str lower arm pair cost :: us) := by
  intro h
  have hfilter : (pricedRow str lower arm pair cost :: us).filter isPriced =
      [pricedRow str lower arm pair cost] := by
    rw [List.filter_cons_of_pos pricedRow_priced, List.filter_eq_nil_iff.2 fun e he => by
      simp [(hus e he).2]]
  have hgross := congrArg (Option.map Prod.fst) (h w)
  have hunknown : ∀ e ∈ us, Unknown q e := fun e he => (hus e he).1
  rw [hfilter, Option.map_map, Option.map_map] at hgross
  change (computeVerifiedSavings q routingLever _ w).map (fun v => (figures v).1) =
    (computeVerifiedSavings q routingLever _ w).map (fun v => (figures v).1) at hgross
  rw [gross_of_none (by simp [pricedRow_saved]), total_alone ha, gross_of_none (fun e he => ?_),
    total_beside hunknown hp ha hw, hm, Option.getD_some, cents_intCast] at hgross
  · have hzero : cents 0 = 0 := by simpa using cents_intCast 0
    rw [hzero, Option.some.injEq] at hgross
    exact hv (Int.cast_eq_zero.1 hgross.symm)
  · rcases List.mem_cons.1 he with rfl | he
    · exact pricedRow_saved
    · exact (hunknown e he).saved

end Visible

theorem armRows_ne_nil {arm : String} {e : UsageEvent} {rows : List UsageEvent} (he : e ∈ rows)
    (ha : astext q "arm" e = some arm) : armRows q arm rows ≠ [] :=
  List.ne_nil_of_mem (List.mem_filter.2 ⟨he, decide_eq_true ha⟩)

/-- Given the unpriced rows of a ledger, deleting them is invisible whatever its other rows are
exactly when none of them is in an arm. -/
theorem unpriced_inert_iff {us : List UsageEvent}
    (hus : ∀ e ∈ us, Written str lower e ∧ isPriced e = false) :
    (∀ rows, (∀ e ∈ rows, Written str lower e) → rows.filter (!isPriced ·) = us →
      Inert q routingLever rows) ↔ ∀ e ∈ us, isArmRow q e = false := by
  have hunknown : ∀ e ∈ us, Unknown q e ∧ isPriced e = false := fun e he =>
    ⟨(hus e he).1.unknown (hus e he).2, (hus e he).2⟩
  constructor
  · intro h e he
    by_contra harm
    rw [Bool.not_eq_false, isArmRow, Bool.and_eq_true, Bool.and_eq_true] at harm
    obtain ⟨⟨hhold, hpair⟩, harm⟩ := harm
    obtain ⟨pair, hpair⟩ := Option.isSome_iff_exists.1 hpair
    obtain ⟨⟨hfrom, hi⟩, hto, hc⟩ := pairOf_eq_some.1 hpair
    let w := fullWindow (pricedRow str lower armControl pair 0 :: us)
    have hbase : w.holds (pricedRow str lower armControl pair 0) = true :=
      fullWindow_holds List.mem_cons_self
    have hw : ∀ arm cost, w.holds (pricedRow str lower arm pair cost) = true := fun _ _ => hbase
    have hmem : e ∈ pairGroup q w pair us := by
      refine List.mem_filter.2 ⟨he, Bool.and_eq_true_iff.2 ⟨?_, ?_⟩⟩
      · exact fullWindow_holds (List.mem_cons_of_mem _ he)
      · simp [inPair, hhold, hfrom, hto]
    have hgiven : ∀ arm cost, Inert q routingLever (pricedRow str lower arm pair cost :: us) := by
      intro arm cost
      refine h _ (fun x hx => ?_) ?_
      · rcases List.mem_cons.1 hx with rfl | hx
        · exact .proxy _ _ _
        · exact (hus x hx).1
      · rw [List.filter_cons_of_neg (by simp [pricedRow_priced]), List.filter_eq_self]
        exact fun x hx => by simp [(hus x hx).2]
    by_cases ht : armRows q armTreatment (pairGroup q w pair us) = []
    · have hctl : armRows q armControl (pairGroup q w pair us) ≠ [] := by
        rw [Bool.or_eq_true, decide_eq_true_eq, decide_eq_true_eq] at harm
        exact armRows_ne_nil hmem (harm.resolve_right fun ha => armRows_ne_nil hmem ha ht)
      exact not_inert hunknown (.inr rfl) ⟨hi, hc⟩ (hw _ _) (by norm_num)
        (measured_control (fun x hx => (hunknown x hx).1) ⟨hi, hc⟩ hctl ht (hw _ _))
        (hgiven _ _)
    · have hlen : (100 * (armRows q armTreatment (pairGroup q w pair us)).length : ℤ) ≠ 0 := by
        have hpos := List.length_pos_of_ne_nil ht
        omega
      exact not_inert hunknown (.inl rfl) ⟨hi, hc⟩ (hw _ _) hlen
        (measured_treatment (fun x hx => (hunknown x hx).1) ⟨hi, hc⟩ ht rfl (hw _ _))
        (hgiven _ _)
  · intro h rows hrows hunpriced w
    refine congrArg (Option.map figures) (computeVerifiedSavings_filter fun e he hp _ => ?_)
    have hin : e ∈ us := hunpriced ▸ List.mem_filter.2 ⟨he, by simp [hp]⟩
    exact (hunknown e hin).1.unread (h e hin)

/-! ## An unpriced candidate -/

def plainQueries : Queries := ⟨fun _ => "", fun _ => none, fun _ _ _ _ _ _ => none⟩

def unpricedRow : UsageEvent :=
  recordProxyUsage (fun _ => "") id (fun _ _ => none)
    ⟨"local-llama", "openai", 500, 100, 0, false, none, none, some "treatment", some "gpt-4o",
      some "local-llama", none, none⟩ 0

def controlRow : UsageEvent :=
  pricedRow (fun _ => "") id "control" ("gpt-4o", "local-llama") 100

def plainUnpricedRow : UsageEvent :=
  recordProxyUsage (fun _ => "") id (fun _ _ => none)
    ⟨"local-llama", "openai", 500, 100, 0, false, none, none, none, none, none, none, none⟩ 0

theorem plain_unpriced_inert : Inert plainQueries "smart_routing" [controlRow, plainUnpricedRow] := by
  have hus : ∀ e ∈ [plainUnpricedRow], Written (fun _ => "") id e ∧ isPriced e = false := by
    intro e he
    rw [List.mem_singleton.1 he]
    exact ⟨.proxy _ _ _, by decide⟩
  refine (unpriced_inert_iff hus).2 (fun e he => ?_) _ (fun e he => ?_) ?_
  · rw [List.mem_singleton.1 he]
    decide
  · rcases List.mem_cons.1 he with rfl | he
    · exact .proxy _ _ _
    · rw [List.mem_singleton.1 he]
      exact .proxy _ _ _
  · have hc : isPriced controlRow = true := pricedRow_priced
    have hp : isPriced plainUnpricedRow = false := by decide
    simp [hc, hp]

/-- The candidate's row of unknown cost is measured as a saving of a hundred dollars. -/
theorem unpriced_candidate_billed :
    Written (fun _ => "") id controlRow ∧ Written (fun _ => "") id unpricedRow ∧
      isPriced unpricedRow = false ∧
      (computeVerifiedSavings plainQueries "smart_routing" [controlRow, unpricedRow]
        ⟨-1, some 1⟩).map (·.verifiedGrossSavingsUsd) = some 100 ∧
      (computeVerifiedSavings plainQueries "smart_routing"
        ([controlRow, unpricedRow].filter isPriced) ⟨-1, some 1⟩).map
          (·.verifiedGrossSavingsUsd) = some 0 :=
  ⟨.proxy _ _ _, .proxy _ _ _, by decide, by decide +kernel, by decide +kernel⟩

end Varsten.Savings.Unpriced
