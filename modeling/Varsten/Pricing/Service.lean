import Varsten.Python.Decimals

/-!
# Pricing

Costs from the overrides of one organization and the public catalog. The lists are in the order
in which the database breaks ties.
-/

namespace Varsten.Pricing.Service

open Python.Decimals

structure ModelPrice where
  id : ℕ
  modelKey : String
  provider : String
  inputCostPerToken : ℚ
  outputCostPerToken : ℚ
  cacheReadInputTokenCost : Option ℚ
  effectiveAt : ℚ

structure OrgModelPriceOverride where
  modelKey : String
  provider : Option String
  inputCostPerToken : ℚ
  outputCostPerToken : ℚ
  cacheReadInputTokenCost : Option ℚ
  effectiveAt : ℚ

structure PriceBook where
  overrides : List OrgModelPriceOverride
  catalog : List ModelPrice

structure ResolvedPrice where
  inputCostPerToken : ℚ
  outputCostPerToken : ℚ
  cacheReadInputTokenCost : Option ℚ
  source : String
  priceVersionId : Option ℕ
deriving DecidableEq

abbrev Prices := String → String → Option ResolvedPrice

def overrideFor (book : PriceBook) (time : ℚ) : Prices := fun modelKey provider =>
  ((book.overrides.filter fun r => r.modelKey = modelKey ∧
      (r.provider = some provider ∨ r.provider = none) ∧ r.effectiveAt ≤ time).argmax
    (·.effectiveAt)).map fun r =>
      ⟨r.inputCostPerToken, r.outputCostPerToken, r.cacheReadInputTokenCost, "override", none⟩

def ModelPrice.resolved (r : ModelPrice) : ResolvedPrice :=
  ⟨r.inputCostPerToken, r.outputCostPerToken, r.cacheReadInputTokenCost, "catalog", some r.id⟩

def catalogPriceFor (book : PriceBook) (time : ℚ) : Prices := fun modelKey provider =>
  let base := book.catalog.filter fun r => r.modelKey = modelKey ∧ r.effectiveAt ≤ time
  (((base.filter fun r => r.provider = provider).argmax (·.effectiveAt)).orElse
    fun _ => base.argmax (·.effectiveAt)).map ModelPrice.resolved

def lookupPrice (book : PriceBook) (time : ℚ) : Prices := fun modelKey provider =>
  (overrideFor book time modelKey provider).orElse fun _ =>
    catalogPriceFor book time modelKey provider

/-- The live entries of `_price_cache`; a miss is remembered as well. -/
abbrev PriceCache := String → String → Option (Option ResolvedPrice)

def priceCacheTtlSeconds : ℚ := 3600

def resolvePrice (book : PriceBook) (cache : PriceCache) (now time : ℚ) : Prices :=
  fun modelKey provider =>
    if now - priceCacheTtlSeconds ≤ time then
      (cache modelKey provider).getD (lookupPrice book time modelKey provider)
    else lookupPrice book time modelKey provider

def ResolvedPrice.cacheRate (p : ResolvedPrice) : ℚ :=
  p.cacheReadInputTokenCost.getD p.inputCostPerToken

def cachedTokens (inputTokens cachedInputTokens : ℤ) : ℤ :=
  min (max cachedInputTokens 0) inputTokens

def rawCost (p : ResolvedPrice) (inputTokens outputTokens cachedInputTokens : ℤ) : ℚ :=
  let cached := cachedTokens inputTokens cachedInputTokens
  (inputTokens - cached : ℤ) * p.inputCostPerToken + cached * p.cacheRate +
    outputTokens * p.outputCostPerToken

/-- Eight digits, as `usage_events.cost_usd` has. -/
def costQuantum : ℕ := 10 ^ 8

def computeCost (p : ResolvedPrice) (inputTokens outputTokens cachedInputTokens : ℤ) : ℚ :=
  quantize roundHalfUp costQuantum (rawCost p inputTokens outputTokens cachedInputTokens)

structure PricedEvent where
  costUsd : Option ℚ
  costSource : String
  pricingStatus : String
  priceVersionId : Option ℕ

def priceUsageEvent (prices : Prices) (modelKey provider : String)
    (inputTokens outputTokens cachedInputTokens : ℤ) (reportedCostUsd : Option ℚ) :
    PricedEvent :=
  if inputTokens = 0 ∧ outputTokens = 0 ∧ reportedCostUsd = none then
    ⟨none, "unknown", "missing_token_counts", none⟩
  else match prices modelKey provider with
    | some p =>
      ⟨computeCost p inputTokens outputTokens cachedInputTokens, p.source, "priced",
        p.priceVersionId⟩
    | none => match reportedCostUsd with
      | some cost => ⟨cost, "reported", "model_not_in_catalog", none⟩
      | none => ⟨none, "unknown", "model_not_in_catalog", none⟩

/-! ## What the cached tokens take off -/

theorem rawCost_eq (p : ResolvedPrice) (i o c : ℤ) :
    rawCost p i o c =
      rawCost p i o 0 - cachedTokens i c * (p.inputCostPerToken - p.cacheRate) +
        cachedTokens i 0 * (p.inputCostPerToken - p.cacheRate) := by
  simp only [rawCost, Int.cast_sub]
  ring

theorem cachedTokens_zero {i : ℤ} (h : 0 ≤ i) : cachedTokens i 0 = 0 := by
  simp [cachedTokens, h]

theorem cachedTokens_nonneg {i : ℤ} (h : 0 ≤ i) (c : ℤ) : 0 ≤ cachedTokens i c :=
  le_min (le_max_right c 0) h

theorem computeCost_le {p : ResolvedPrice} {i : ℤ} (hi : 0 ≤ i)
    (hp : p.cacheRate ≤ p.inputCostPerToken) (o c : ℤ) :
    computeCost p i o c ≤ computeCost p i o 0 := by
  refine quantize_mono (fun _ _ => roundHalfUp_mono) _ ?_
  have hd : 0 ≤ (cachedTokens i c : ℚ) * (p.inputCostPerToken - p.cacheRate) :=
    mul_nonneg (Int.cast_nonneg (cachedTokens_nonneg hi c)) (by linarith)
  rw [rawCost_eq p i o c, cachedTokens_zero hi]
  simpa using hd

/-- No price covers an event exactly when it has no tokens or its model has no price. -/
theorem priceUsageEvent_none_iff {prices : Prices} {modelKey provider : String} {i o c : ℤ} :
    (priceUsageEvent prices modelKey provider i o c none).costUsd = none ↔
      (i = 0 ∧ o = 0) ∨ prices modelKey provider = none := by
  unfold priceUsageEvent
  split_ifs with h
  · exact iff_of_true rfl (.inl ⟨h.1, h.2.1⟩)
  · cases prices modelKey provider with
    | none => simp
    | some p => simpa using h

theorem priceUsageEvent_priced {prices : Prices} {modelKey provider : String} {i o c : ℤ}
    {p : ResolvedPrice} (ht : ¬ (i = 0 ∧ o = 0)) (hp : prices modelKey provider = some p) :
    (priceUsageEvent prices modelKey provider i o c none).costUsd = some (computeCost p i o c) := by
  simp only [priceUsageEvent, hp, and_true, if_neg ht]

/-- An event is priced exactly when it has a cost, where the caller reports none. -/
theorem pricingStatus_iff {prices : Prices} {modelKey provider : String} {i o c : ℤ} :
    (priceUsageEvent prices modelKey provider i o c none).pricingStatus = "priced" ↔
      (priceUsageEvent prices modelKey provider i o c none).costUsd.isSome = true := by
  unfold priceUsageEvent
  split_ifs with h
  · simp
  · cases prices modelKey provider with
    | none => simp
    | some p => simp

end Varsten.Pricing.Service
