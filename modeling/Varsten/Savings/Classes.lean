import Varsten.Savings.Dashboard
import Varsten.Savings.Unpriced

/-!
# The classes of the ledger

The queries of the verified savings tell the rows apart by their metadata. No row that the code
writes is in two classes.
-/

namespace Varsten.Savings.Classes

open Python (Json)
open Python.Utf8 (Text)
open Pricing.Service
open Proxy.Ledger
open Proxy.Experiment
open Savings.Measurement
open Savings.Dashboard (amount savedRows savedTotal sumSaved_eq directSum sum_filter_map)
open Savings.Unpriced (isOverhead_proxy flatPrices)

/-! ## The rows the code writes -/

/-- `_record_eval_replay_overhead`, of a run. -/
def recordEvalReplayOverhead (prices : Prices) (runId candidateModel : String)
    (inputTokens outputTokens : ℤ) (receivedAt : ℚ) : UsageEvent :=
  { recordOverheadUsage prices
      ⟨"openai", candidateModel, inputTokens, outputTokens, "eval_replay"⟩ receivedAt with
    metadata := [("overhead", .str "eval_replay"), ("eval_run_id", .str runId)] }

def meterGenerationOverhead (prices : Prices) (generatorModel : String)
    (inputTokens outputTokens : ℤ) (receivedAt : ℚ) : Option UsageEvent :=
  if inputTokens ≤ 0 ∧ outputTokens ≤ 0 then none
  else some (recordOverheadUsage prices
    ⟨"openai", generatorModel, inputTokens, outputTokens, "compression"⟩ receivedAt)

/-- The rows of the writers; the router serves a cache hit in no arm. -/
inductive Entry (str : ℚ → String) (lower : Text → Text) : UsageEvent → Prop where
  | proxy (prices : Prices) (u : ProxyUsage) (t : ℚ) (hit : u.cacheHit = true → u.arm = none) :
      Entry str lower (recordProxyUsage str lower prices u t)
  | batch (u : BatchUsage) (t : ℚ) : Entry str lower (recordBatchUsage str u t)
  | overhead (prices : Prices) (u : OverheadUsage) (t : ℚ) :
      Entry str lower (recordOverheadUsage prices u t)
  | replay (prices : Prices) (runId model : String) (i o : ℤ) (t : ℚ) :
      Entry str lower (recordEvalReplayOverhead prices runId model i o t)
  | generation (prices : Prices) (model : String) (i o : ℤ) (t : ℚ) (e : UsageEvent)
      (written : meterGenerationOverhead prices model i o t = some e) : Entry str lower e

/-! ## The class of a row -/

inductive SavingsClass where
  | cache
  | batching
  | routing
  | arm
  | overhead
deriving DecidableEq

def classes : List SavingsClass := [.cache, .batching, .routing, .arm, .overhead]

def inClass (q : Queries) : SavingsClass → UsageEvent → Bool
  | .cache => isCacheHit q
  | .batching => isBatch q
  | .routing => isDirectRouting q false
  | .arm => isHoldback q
  | .overhead => isOverhead q

def classOf (q : Queries) (e : UsageEvent) : Option SavingsClass :=
  classes.find? fun c => inClass q c e

variable {str : ℚ → String} {lower : Text → Text} {q : Queries}

theorem astext_proxy (key : String) (hk : key ∉ augmentKeys) (prices : Prices) (u : ProxyUsage)
    (t : ℚ) : astext q key (recordProxyUsage str lower prices u t) =
      itemText q (Json.item key ((costAndBaseMetadata prices u).2.items str)) := by
  rw [astext, item_recordProxyUsage key hk]

theorem isBatch_proxy (prices : Prices) (u : ProxyUsage) (t : ℚ) :
    isBatch q (recordProxyUsage str lower prices u t) = false := by
  rw [isBatch, astext_proxy "batch" (by decide)]
  cases (costAndBaseMetadata prices u).2 <;> rfl

theorem isCacheHit_proxy (prices : Prices) (u : ProxyUsage) (t : ℚ) :
    isCacheHit q (recordProxyUsage str lower prices u t) = u.cacheHit := by
  rw [isCacheHit, astext_proxy "cache" (by decide), costAndBaseMetadata]
  cases u.cacheHit with
  | true => rfl
  | false => cases u.routedFrom <;> rfl

theorem hit_not_routed {prices : Prices} {u : ProxyUsage} {t : ℚ} (h : u.cacheHit = true) :
    astext q "routed" (recordProxyUsage str lower prices u t) = none := by
  rw [astext_proxy "routed" (by decide), costAndBaseMetadata, if_pos h]
  rfl

theorem item_strItem {key : String} (h : key ≠ "holdback") (value : Option String) :
    Json.item "holdback" (strItem key value) = none := by
  cases value <;> simp [strItem, Json.item, h]

theorem item_taskMetadata (ctx : RequestContext) :
    Json.item "holdback" ctx.taskMetadata = none := by
  have hconfidence : Json.item "holdback"
      (ctx.taskConfidence.map fun v => ("task_confidence", Json.float v)).toList = none := by
    cases ctx.taskConfidence <;> simp [Json.item]
  have hextra : Json.item "holdback"
      (if ctx.extra.isEmpty then [] else [("context", .obj ctx.extra)]) = none := by
    split_ifs <;> simp [Json.item]
  simp only [RequestContext.taskMetadata, item_append, hconfidence, hextra,
    item_strItem (show "task_type" ≠ "holdback" by decide),
    item_strItem (show "risk_level" ≠ "holdback" by decide),
    item_strItem (show "quality_threshold" ≠ "holdback" by decide),
    item_strItem (show "sdk_client" ≠ "holdback" by decide), Option.or_none]

theorem isHoldback_unarmed {prices : Prices} {u : ProxyUsage} {t : ℚ} (h : u.arm = none) :
    isHoldback q (recordProxyUsage str lower prices u t) = false := by
  have hbase : Json.item "holdback" ((costAndBaseMetadata prices u).2.items str) = none := by
    cases (costAndBaseMetadata prices u).2 <;> rfl
  have hcached : Json.item "holdback" (if u.cachedInputTokens = 0 then []
      else [("provider_cached_input_tokens", .int u.cachedInputTokens)]) = none := by
    split_ifs <;> simp [Json.item]
  have haugment : Json.item "holdback" (augmentMetadata lower u) = none := by
    rw [augmentMetadata, item_append, item_append, hcached, h]
    cases u.context with
    | none => rfl
    | some ctx => exact item_taskMetadata ctx
  rw [isHoldback, astext, recordProxyUsage, item_append, hbase, haugment]
  rfl

theorem only_overhead {e : UsageEvent} {c : SavingsClass}
    (h : ∀ key ∈ ["cache", "batch", "routed", "holdback"], astext q key e = none)
    (hin : inClass q c e = true) : c = .overhead := by
  cases c with
  | cache => simp [inClass, isCacheHit, h] at hin
  | batching => simp [inClass, isBatch, h] at hin
  | routing => simp [inClass, isDirectRouting, h] at hin
  | arm => simp [inClass, isHoldback, h] at hin
  | overhead => rfl

theorem Entry.class {e : UsageEvent} (h : Entry str lower e) :
    ∃ k, ∀ c, inClass q c e = true → c = k := by
  cases h with
  | proxy prices u t hit =>
    cases hc : u.cacheHit with
    | true =>
      refine ⟨.cache, fun c hin => ?_⟩
      cases c with
      | cache => rfl
      | batching => simp [inClass, isBatch_proxy] at hin
      | routing => simp [inClass, isDirectRouting, hit_not_routed hc] at hin
      | arm => simp [inClass, isHoldback_unarmed (hit hc)] at hin
      | overhead => simp [inClass, isOverhead_proxy] at hin
    | false =>
      refine ⟨if isHoldback q (recordProxyUsage str lower prices u t) then .arm else .routing,
        fun c hin => ?_⟩
      cases c with
      | cache => simp [inClass, isCacheHit_proxy, hc] at hin
      | batching => simp [inClass, isBatch_proxy] at hin
      | routing =>
        simp only [inClass, isDirectRouting, Bool.false_or, Bool.and_eq_true,
          Bool.not_eq_true'] at hin
        rw [hin.2]
        rfl
      | arm => exact (if_pos hin).symm
      | overhead => simp [inClass, isOverhead_proxy] at hin
  | batch u t =>
    refine ⟨.batching, fun c hin => ?_⟩
    cases c with
    | batching => rfl
    | _ => exact absurd hin Bool.false_ne_true
  | overhead prices u t =>
    exact ⟨.overhead, fun c => only_overhead (by
      simp [astext, recordOverheadUsage, Json.item, itemText])⟩
  | replay prices runId model i o t =>
    exact ⟨.overhead, fun c => only_overhead (by
      simp [astext, recordEvalReplayOverhead, Json.item, itemText])⟩
  | generation prices model i o t e written =>
    unfold meterGenerationOverhead at written
    split_ifs at written
    obtain rfl := Option.some.inj written
    exact ⟨.overhead, fun c => only_overhead (by
      simp [astext, recordOverheadUsage, Json.item, itemText])⟩

theorem mem_classes (c : SavingsClass) : c ∈ classes := by
  cases c <;> decide

theorem Entry.classOf_eq_iff {e : UsageEvent} (h : Entry str lower e) {c : SavingsClass} :
    classOf q e = some c ↔ inClass q c e = true := by
  obtain ⟨k, hk⟩ := h.class (q := q)
  constructor
  · intro hc
    exact List.find?_some (p := fun c => inClass q c e) hc
  · intro hin
    have hsome : (classOf q e).isSome = true :=
      List.find?_isSome.2 ⟨c, mem_classes c, hin⟩
    obtain ⟨d, hd⟩ := Option.isSome_iff_exists.1 hsome
    have hdin : inClass q d e = true := List.find?_some (p := fun c => inClass q c e) hd
    rw [hd, hk c hin, hk d hdin]

/-! ## The sum over the classes -/

def standalone (q : Queries) (e : UsageEvent) : ℚ :=
  match classOf q e with
  | some .cache | some .batching | some .routing => amount q e
  | some .overhead => -e.costUsd.getD 0
  | some .arm | none => 0

def armRows (q : Queries) (rows : List UsageEvent) : List UsageEvent :=
  rows.filter fun e => classOf q e = some .arm

def armSaving (q : Queries) (rows : List UsageEvent) (w : Window) (pair : String × String) : ℚ :=
  let result := computeExperiment q (armRows q rows) w pair
  result.measuredSavingsUsd.getD 0 - (measurementCost result).getD 0

/-- No row counts twice: neither for two classes nor for two pairs. -/
structure CountedOnce (q : Queries) (rows : List UsageEvent) (w : Window) (r : VerifiedSavings) :
    Prop where
  classes : ∀ e ∈ rows, ∀ c c', inClass q c e = true → inClass q c' e = true → c = c'
  pairs : ∀ e ∈ rows, ∀ p p', inPair q p e = true → inPair q p' e = true → p = p'
  sum : r.verifiedSavingsUsd = cents (((rows.filter (w.holds ·)).map (standalone q)).sum +
    ((experimentPairs q (armRows q rows) w).map (armSaving q rows w)).sum)

theorem inPair_unique {e : UsageEvent} {p p' : String × String} (h : inPair q p e = true)
    (h' : inPair q p' e = true) : p = p' := by
  simp only [inPair, Bool.and_eq_true, decide_eq_true_eq] at h h'
  exact Prod.ext (Option.some.inj (h.1.2.symm.trans h'.1.2))
    (Option.some.inj (h.2.symm.trans h'.2))

section Written

variable {rows : List UsageEvent} {w : Window}

theorem armRows_eq (h : ∀ e ∈ rows, Entry str lower e) :
    armRows q rows = rows.filter (isHoldback q) :=
  List.filter_congr fun e he => by
    rw [Bool.eq_iff_iff, decide_eq_true_eq, (h e he).classOf_eq_iff]
    rfl

theorem experimentPairs_arms : experimentPairs q (rows.filter (isHoldback q)) w =
    experimentPairs q rows w := by
  have hfilter : (rows.filter (isHoldback q)).filter (fun e => w.holds e && isHoldback q e) =
      rows.filter fun e => w.holds e && isHoldback q e := by
    rw [List.filter_filter]
    exact List.filter_congr fun e _ => by cases isHoldback q e <;> simp
  rw [experimentPairs, experimentPairs, hfilter]

theorem computeExperiment_arms (pair : String × String) :
    computeExperiment q (rows.filter (isHoldback q)) w pair = computeExperiment q rows w pair := by
  have hfilter : (rows.filter (isHoldback q)).filter (fun e => w.holds e && inPair q pair e) =
      rows.filter fun e => w.holds e && inPair q pair e := by
    rw [List.filter_filter]
    refine List.filter_congr fun e _ => ?_
    unfold inPair
    cases isHoldback q e <;> simp
  rw [computeExperiment, computeExperiment, hfilter]

theorem standalone_eq {e : UsageEvent} (h : Entry str lower e) : standalone q e =
    (if isCacheHit q e then amount q e else 0) + (if isBatch q e then amount q e else 0) +
      (if isDirectRouting q false e then amount q e else 0) -
        (if isOverhead q e then e.costUsd.getD 0 else 0) := by
  have hin (c : SavingsClass) : inClass q c e = decide (classOf q e = some c) := by
    rw [Bool.eq_iff_iff, decide_eq_true_eq, h.classOf_eq_iff]
  have hcache : isCacheHit q e = _ := hin .cache
  have hbatch : isBatch q e = _ := hin .batching
  have hrouting : isDirectRouting q false e = _ := hin .routing
  have hoverhead : isOverhead q e = _ := hin .overhead
  rw [hcache, hbatch, hrouting, hoverhead, standalone]
  cases classOf q e with
  | none => simp
  | some c => cases c <;> simp

theorem savedTotal_held (cond : UsageEvent → Bool) : savedTotal q rows w cond =
    ((rows.filter (w.holds ·)).map fun e => if cond e then amount q e else 0).sum := by
  rw [savedTotal, savedRows, sum_filter_map, sum_filter_map, sum_filter_map]
  congr 1
  refine List.map_congr_left fun e _ => ?_
  cases hs : astext q "saved_usd" e with
  | none => simp [Savings.Dashboard.amount, savedUsd, hs]
  | some text => simp

theorem overhead_held : optimizationOverheadCost q rows w = ((rows.filter (w.holds ·)).map
    fun e => if isOverhead q e then e.costUsd.getD 0 else 0).sum := by
  rw [optimizationOverheadCost, sum_filterMap, sum_filter_map, sum_filter_map]
  congr 1
  refine List.map_congr_left fun e _ => ?_
  cases w.holds e <;> simp

theorem sum_standalone (h : ∀ e ∈ rows, Entry str lower e) :
    ((rows.filter (w.holds ·)).map (standalone q)).sum =
      savedTotal q rows w (isCacheHit q) + savedTotal q rows w (isBatch q) +
        savedTotal q rows w (isDirectRouting q false) - optimizationOverheadCost q rows w := by
  simp only [savedTotal_held, overhead_held]
  rw [eq_sub_iff_add_eq, ← List.sum_map_add, ← List.sum_map_add, ← List.sum_map_add]
  congr 1
  refine List.map_congr_left fun e he => ?_
  rw [standalone_eq (h e (List.mem_filter.1 he).1), sub_add_cancel]

theorem sum_armSaving (h : ∀ e ∈ rows, Entry str lower e) :
    ((experimentPairs q (armRows q rows) w).map (armSaving q rows w)).sum =
      (holdbackMeasured q rows w).totalUsd - (holdbackMeasured q rows w).measurementCostUsd := by
  have harm (pair : String × String) : armSaving q rows w pair =
      (computeExperiment q rows w pair).measuredSavingsUsd.getD 0 -
        (measurementCost (computeExperiment q rows w pair)).getD 0 := by
    rw [armSaving, armRows_eq h, computeExperiment_arms]
  rw [armRows_eq h, experimentPairs_arms, eq_sub_iff_add_eq]
  simp only [holdbackMeasured, sum_filterMap, List.map_map]
  rw [← List.sum_map_add]
  congr 1
  refine List.map_congr_left fun pair _ => ?_
  rw [harm, Function.comp_apply, Function.comp_apply, sub_add_cancel]

/-- The verified savings of a written ledger count every row once. -/
theorem counted_once (h : ∀ e ∈ rows, Entry str lower e) {lever : String} {r : VerifiedSavings}
    (hr : computeVerifiedSavings q lever rows w = some r) : CountedOnce q rows w r := by
  refine ⟨fun e he c c' hc hc' => ?_, fun e _ p p' => inPair_unique, ?_⟩
  · obtain ⟨k, hk⟩ := (h e he).class (q := q)
    exact (hk c hc).trans (hk c' hc').symm
  · obtain ⟨direct, hd, rfl⟩ := Option.map_eq_some_iff.1 hr
    obtain ⟨cache, hcache, hd⟩ := Option.bind_eq_some_iff.1 hd
    obtain ⟨batching, hbatch, hd⟩ := Option.bind_eq_some_iff.1 hd
    obtain ⟨routed, hrouted, hd⟩ := Option.bind_eq_some_iff.1 hd
    obtain rfl := Option.some.inj hd
    have hdirect := directSum lever cache batching routed
    rw [sum_standalone h, sum_armSaving h, ← sumSaved_eq hcache, ← sumSaved_eq hbatch,
      ← sumSaved_eq hrouted, verifiedSavings]
    dsimp only
    rw [hdirect]
    congr 1
    ring

end Written

/-! ## A ledger of three rows -/

def fiveDollars : Queries := ⟨fun _ => "", fun _ => some 5, fun _ _ _ _ _ _ => none⟩

def threeRows : List UsageEvent :=
  [recordProxyUsage (fun _ => "5.00") id (flatPrices 1)
      ⟨"gpt-4o", "openai", 500, 100, 0, true, none, none, none, none, none, none, none⟩ 0,
    recordBatchUsage (fun _ => "5.00") ⟨"gpt-4o", 500, 100, some 5, some 10, 1⟩ 0,
    recordEvalReplayOverhead (fun _ _ => none) "run" "gpt-4o-mini" 500 100 0]

theorem three_rows_counted : ∃ r,
    computeVerifiedSavings fiveDollars "smart_routing" threeRows ⟨-1, some 1⟩ = some r ∧
      CountedOnce fiveDollars threeRows ⟨-1, some 1⟩ r := by
  have hrows : ∀ e ∈ threeRows, Entry (fun _ => "5.00") id e := by
    intro e he
    simp only [threeRows, List.mem_cons, List.not_mem_nil, or_false] at he
    rcases he with rfl | rfl | rfl
    · exact .proxy _ _ _ fun _ => rfl
    · exact .batch _ _
    · exact .replay _ _ _ _ _ _
  have hsome : (computeVerifiedSavings fiveDollars "smart_routing" threeRows
      ⟨-1, some 1⟩).isSome := by decide +kernel
  obtain ⟨r, hr⟩ := Option.isSome_iff_exists.1 hsome
  exact ⟨r, hr, counted_once hrows hr⟩

end Varsten.Savings.Classes
