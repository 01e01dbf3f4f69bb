import Varsten.Engine.RouteIdentity
import Varsten.Pricing.Service
import Varsten.Python.Value

/-!
# The usage ledger

The row a proxied call, a batch or an optimization writes. `str` is the text of a decimal.
-/

namespace Varsten.Proxy.Ledger

open Engine.RouteIdentity (canonicalRouteKey)
open Pricing.Service (Prices priceUsageEvent)
open Python (Json)
open Python.Utf8 (Text)

/-- The context as far as the ledger's metadata reads it. -/
structure RequestContext where
  feature : Option String
  workflow : Option String
  taskType : Option String
  taskConfidence : Option ℚ
  riskLevel : Option String
  qualityThreshold : Option String
  sdkClient : Option String
  extra : List (String × Json)

def strItem (key : String) (value : Option String) : List (String × Json) :=
  (value.map fun v => (key, Json.str v)).toList

def RequestContext.taskMetadata (ctx : RequestContext) : List (String × Json) :=
  strItem "task_type" ctx.taskType ++
    (ctx.taskConfidence.map fun v => ("task_confidence", Json.float v)).toList ++
    strItem "risk_level" ctx.riskLevel ++ strItem "quality_threshold" ctx.qualityThreshold ++
    strItem "sdk_client" ctx.sdkClient ++
    if ctx.extra.isEmpty then [] else [("context", .obj ctx.extra)]

def routeKeyFromContext (lower : Text → Text) (ctx : Option RequestContext)
    (requestType : String) : String :=
  canonicalRouteKey lower (match ctx with
    | none => ⟨none, none, requestType, none⟩
    | some ctx => ⟨ctx.feature, ctx.workflow, requestType, ctx.taskType⟩)

/-- The arguments of `record_proxy_usage`. -/
structure ProxyUsage where
  model : String
  provider : String
  inputTokens : ℤ
  outputTokens : ℤ
  cachedInputTokens : ℤ
  cacheHit : Bool
  naiveModel : Option String
  naiveProvider : Option String
  arm : Option String
  experimentFrom : Option String
  experimentTo : Option String
  qualityOk : Option Bool
  context : Option RequestContext

inductive BaseMetadata where
  | hit (naiveCostUsd savedUsd : Option ℚ)
  | routed (fromModel toModel fromProvider toProvider : String) (naiveCostUsd savedUsd : Option ℚ)
  | miss

def BaseMetadata.savedUsd : BaseMetadata → Option ℚ
  | .hit _ saved | .routed _ _ _ _ _ saved => saved
  | .miss => none

def ProxyUsage.routedFrom (u : ProxyUsage) : Option String :=
  u.naiveModel.filter fun m =>
    m ≠ "" ∧ (m ≠ u.model ∨ (u.naiveProvider ≠ none ∧ u.naiveProvider ≠ some u.provider))

/-- `naive_provider or provider`. -/
def ProxyUsage.routedFromProvider (u : ProxyUsage) : String :=
  (u.naiveProvider.filter (· ≠ "")).getD u.provider

def ProxyUsage.usedCost (prices : Prices) (u : ProxyUsage) : Option ℚ :=
  (priceUsageEvent prices u.model u.provider u.inputTokens u.outputTokens u.cachedInputTokens
    none).costUsd

def ProxyUsage.naiveCost (prices : Prices) (u : ProxyUsage) (naiveModel : String) : Option ℚ :=
  (priceUsageEvent prices naiveModel u.routedFromProvider u.inputTokens u.outputTokens
    u.cachedInputTokens none).costUsd

def costAndBaseMetadata (prices : Prices) (u : ProxyUsage) : ℚ × BaseMetadata :=
  let usedCost := u.usedCost prices
  if u.cacheHit then (0, .hit usedCost usedCost)
  else match u.routedFrom with
    | some naiveModel =>
      let naiveCost := u.naiveCost prices naiveModel
      (usedCost.getD 0, .routed naiveModel u.model u.routedFromProvider u.provider naiveCost
        (do return (← naiveCost) - (← usedCost)))
    | none => (usedCost.getD 0, .miss)

section Rendering

variable (str : ℚ → String) (lower : Text → Text)

def amount (value : Option ℚ) : Json := value.elim .null fun q => .str (str q)

def BaseMetadata.items : BaseMetadata → List (String × Json)
  | .hit naive saved =>
    [("proxy", .bool true), ("cache", .str "hit"), ("naive_cost_usd", amount str naive),
      ("saved_usd", amount str saved)]
  | .routed fromModel toModel fromProvider toProvider naive saved =>
    [("proxy", .bool true), ("cache", .str "miss"), ("routed", .bool true),
      ("routed_from", .str fromModel), ("routed_to", .str toModel),
      ("routed_from_provider", .str fromProvider), ("routed_to_provider", .str toProvider),
      ("naive_cost_usd", amount str naive), ("saved_usd", amount str saved)]
  | .miss => [("proxy", .bool true), ("cache", .str "miss")]

def optional (value : Option String) : Json := value.elim .null .str

/-- `_augment_metadata`, whose keys are new. -/
def augmentMetadata (u : ProxyUsage) : List (String × Json) :=
  (if u.cachedInputTokens = 0 then []
    else [("provider_cached_input_tokens", .int u.cachedInputTokens)]) ++
  (match u.arm.filter (· ≠ "") with
    | none => []
    | some arm =>
      [("holdback", .bool true), ("arm", .str arm), ("experiment_from", optional u.experimentFrom),
        ("experiment_to", optional u.experimentTo),
        ("route_key", .str (routeKeyFromContext lower u.context "chat_completion"))] ++
      (u.qualityOk.map fun ok => ("quality_ok", Json.bool ok)).toList) ++
  u.context.elim [] RequestContext.taskMetadata

end Rendering

/-- A row of `usage_events`, less the columns that nothing here reads. -/
structure UsageEvent where
  source : String
  provider : String
  model : String
  inputTokens : ℤ
  outputTokens : ℤ
  cachedInputTokens : ℤ
  costUsd : Option ℚ
  costSource : String
  pricingStatus : String
  metadata : List (String × Json)
  idempotencyKey : Option String
  receivedAt : ℚ

def recordProxyUsage (str : ℚ → String) (lower : Text → Text) (prices : Prices) (u : ProxyUsage)
    (receivedAt : ℚ) : UsageEvent :=
  let priced := priceUsageEvent prices u.model u.provider u.inputTokens u.outputTokens
    u.cachedInputTokens none
  let written := costAndBaseMetadata prices u
  { source := "proxy"
    provider := u.provider
    model := u.model
    inputTokens := u.inputTokens
    outputTokens := u.outputTokens
    cachedInputTokens := u.cachedInputTokens
    costUsd := some written.1
    costSource := priced.costSource
    pricingStatus := priced.pricingStatus
    metadata := written.2.items str ++ augmentMetadata lower u
    idempotencyKey := none
    receivedAt }

structure OverheadUsage where
  provider : String
  model : String
  inputTokens : ℤ
  outputTokens : ℤ
  overhead : String

def recordOverheadUsage (prices : Prices) (u : OverheadUsage) (receivedAt : ℚ) : UsageEvent :=
  let priced := priceUsageEvent prices u.model u.provider u.inputTokens u.outputTokens 0 none
  { source := "overhead"
    provider := u.provider
    model := u.model
    inputTokens := u.inputTokens
    outputTokens := u.outputTokens
    cachedInputTokens := 0
    costUsd := priced.costUsd
    costSource := priced.costSource
    pricingStatus := priced.pricingStatus
    metadata := [("overhead", .str u.overhead)]
    idempotencyKey := none
    receivedAt }

structure BatchUsage where
  model : String
  inputTokens : ℤ
  outputTokens : ℤ
  actualCostUsd : Option ℚ
  naiveCostUsd : Option ℚ
  requestCount : ℕ

def BatchUsage.savedUsd (u : BatchUsage) : Option ℚ := do
  return (← u.naiveCostUsd) - (← u.actualCostUsd)

def recordBatchUsage (str : ℚ → String) (u : BatchUsage) (receivedAt : ℚ) : UsageEvent where
  source := "proxy"
  provider := "openai"
  model := u.model
  inputTokens := u.inputTokens
  outputTokens := u.outputTokens
  cachedInputTokens := 0
  costUsd := u.actualCostUsd
  costSource := if u.actualCostUsd.isSome then "catalog" else "unknown"
  pricingStatus := if u.actualCostUsd.isSome then "priced" else "model_not_in_catalog"
  metadata :=
    [("proxy", .bool true), ("batch", .bool true), ("lever", .str "batching"),
      ("request_count", .int u.requestCount), ("naive_cost_usd", amount str u.naiveCostUsd),
      ("saved_usd", amount str u.savedUsd)]
  idempotencyKey := none
  receivedAt

/-! ## Reading the metadata back -/

theorem item_append (key : String) (xs ys : List (String × Json)) :
    Json.item key (xs ++ ys) = (Json.item key xs).or (Json.item key ys) := by
  induction xs with
  | nil => rfl
  | cons x xs ih =>
    simp only [List.cons_append, Json.item]
    split_ifs
    · rfl
    · exact ih

theorem item_eq_none {key : String} {xs : List (String × Json)} (h : ∀ x ∈ xs, x.1 ≠ key) :
    Json.item key xs = none := by
  induction xs with
  | nil => rfl
  | cons x xs ih =>
    rw [Json.item, if_neg (h x List.mem_cons_self)]
    exact ih fun y hy => h y (List.mem_cons_of_mem x hy)

def augmentKeys : List String :=
  ["provider_cached_input_tokens", "holdback", "arm", "experiment_from", "experiment_to",
    "route_key", "quality_ok", "task_type", "task_confidence", "risk_level", "quality_threshold",
    "sdk_client", "context"]

theorem strItem_key {key : String} {value : Option String} {x : String × Json}
    (h : x ∈ strItem key value) : x.1 = key := by
  cases value with
  | none => exact absurd h List.not_mem_nil
  | some v => rw [List.mem_singleton.1 h]

theorem taskMetadata_key {ctx : RequestContext} {x : String × Json}
    (h : x ∈ ctx.taskMetadata) : x.1 ∈ augmentKeys := by
  simp only [RequestContext.taskMetadata, List.mem_append] at h
  rcases h with ((((h | h) | h) | h) | h) | h
  · simp [strItem_key h, augmentKeys]
  · cases hc : ctx.taskConfidence with
    | none => simp [hc] at h
    | some v =>
      rw [hc] at h
      simp [List.mem_singleton.1 h, augmentKeys]
  · simp [strItem_key h, augmentKeys]
  · simp [strItem_key h, augmentKeys]
  · simp [strItem_key h, augmentKeys]
  · split_ifs at h
    · exact absurd h List.not_mem_nil
    · simp [List.mem_singleton.1 h, augmentKeys]

theorem augmentMetadata_key {lower : Text → Text} {u : ProxyUsage} {x : String × Json}
    (h : x ∈ augmentMetadata lower u) : x.1 ∈ augmentKeys := by
  simp only [augmentMetadata, List.mem_append] at h
  rcases h with (h | h) | h
  · split_ifs at h
    · exact absurd h List.not_mem_nil
    · simp [List.mem_singleton.1 h, augmentKeys]
  · split at h
    · exact absurd h List.not_mem_nil
    · rcases List.mem_append.1 h with h | h
      · simp only [List.mem_cons, List.not_mem_nil, or_false] at h
        rcases h with rfl | rfl | rfl | rfl | rfl <;> simp [augmentKeys]
      · cases hq : u.qualityOk with
        | none => simp [hq] at h
        | some ok =>
          rw [hq] at h
          simp [List.mem_singleton.1 h, augmentKeys]
  · cases hc : u.context with
    | none => simp [hc] at h
    | some ctx =>
      rw [hc] at h
      exact taskMetadata_key h

theorem item_augmentMetadata {key : String} (hk : key ∉ augmentKeys) (lower : Text → Text)
    (u : ProxyUsage) : Json.item key (augmentMetadata lower u) = none :=
  item_eq_none fun _ hx he => hk (he ▸ augmentMetadata_key hx)

theorem item_recordProxyUsage (key : String) (hk : key ∉ augmentKeys) (str : ℚ → String)
    (lower : Text → Text) (prices : Prices) (u : ProxyUsage) (receivedAt : ℚ) :
    Json.item key (recordProxyUsage str lower prices u receivedAt).metadata =
      Json.item key ((costAndBaseMetadata prices u).2.items str) := by
  rw [recordProxyUsage, item_append, item_augmentMetadata hk, Option.or_none]

theorem costAndBaseMetadata_unpriced {prices : Prices} {u : ProxyUsage}
    (h : u.usedCost prices = none) :
    (costAndBaseMetadata prices u).1 = 0 ∧ (costAndBaseMetadata prices u).2.savedUsd = none := by
  simp only [costAndBaseMetadata, h]
  split_ifs
  · exact ⟨rfl, rfl⟩
  · cases u.routedFrom with
    | none => exact ⟨rfl, rfl⟩
    | some naiveModel =>
      refine ⟨rfl, ?_⟩
      dsimp only [BaseMetadata.savedUsd]
      cases u.naiveCost prices naiveModel <;> rfl

end Varsten.Proxy.Ledger
