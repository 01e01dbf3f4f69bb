import Varsten.Proxy.Capture
import Varsten.Proxy.Ledger

/-!
# What a cache hit claims

The hit prices the cached answer again, as the requested model at the default provider and with
no cached tokens; the miss priced it as the model and the provider that answered.
-/

namespace Varsten.Proxy.CacheSavings

open Python (Json)
open Python.Decimals
open Pricing.Service
open Providers (CanonicalUsage)
open Cache (CacheEntry)
open Forward (CaptureArgs)
open Capture
open Ledger

/-- The ledger row `_capture` asks for; a model that is no text fails the write. -/
def captureUsage (args : CaptureArgs) (quality : Option Bool) (context : Option RequestContext) :
    Option ProxyUsage :=
  match args.model with
  | .str model => some {
      model
      provider := args.provider
      inputTokens := args.usage.inputTokens
      outputTokens := args.usage.outputTokens
      cachedInputTokens := args.usage.providerCachedInputTokens
      cacheHit := false
      naiveModel := args.routedFrom
      naiveProvider := args.routedFromProvider
      arm := args.arm
      experimentFrom := args.expFrom
      experimentTo := args.expTo
      qualityOk := quality
      context }
  | _ => none

/-- The ledger row `_meter_cache_hit` asks for. -/
def hitUsage (e : CacheEntry) (context : Option RequestContext) : ProxyUsage where
  model := e.model
  provider := "openai"
  inputTokens := e.inputTokens
  outputTokens := e.outputTokens
  cachedInputTokens := 0
  cacheHit := true
  naiveModel := none
  naiveProvider := none
  arm := none
  experimentFrom := none
  experimentTo := none
  qualityOk := none
  context

theorem captureUsage_cost {prices : Prices} {args : CaptureArgs} {quality : Option Bool}
    {context : Option RequestContext} {u : ProxyUsage} (h : args.routedFrom = none)
    (hu : captureUsage args quality context = some u) :
    (costAndBaseMetadata prices u).1 =
      ((priceUsageEvent prices u.model args.provider args.usage.inputTokens
        args.usage.outputTokens args.usage.providerCachedInputTokens none).costUsd).getD 0 := by
  unfold captureUsage at hu
  split at hu
  · obtain rfl := Option.some.inj hu
    simp [costAndBaseMetadata, ProxyUsage.routedFrom, ProxyUsage.usedCost, h]
  · exact absurd hu (by simp)

@[simp] theorem hitUsage_saved (prices : Prices) (e : CacheEntry)
    (context : Option RequestContext) :
    (costAndBaseMetadata prices (hitUsage e context)).2.savedUsd =
      (priceUsageEvent prices e.model "openai" e.inputTokens e.outputTokens 0 none).costUsd := rfl

theorem stored_eq {w : CaptureWorld} {args : CaptureArgs} {rows : List CacheEntry} {e : CacheEntry}
    (he : e ∈ capture w args rows) (hnew : e ∉ rows) : e = cacheEntry w args := by
  unfold capture at he
  split at he
  · exact absurd he hnew
  · split_ifs at he
    · unfold Cache.store at he
      split at he
      · exact absurd he hnew
      · split_ifs at he
        · exact (List.mem_append.1 he).elim (absurd · hnew) List.mem_singleton.1
        · exact absurd he hnew
    · exact absurd he hnew

/-! ## When the two prices agree -/

def ClaimsCost (prices : Prices) (miss : ProxyUsage) (e : CacheEntry)
    (context : Option RequestContext) : Prop :=
  (costAndBaseMetadata prices (hitUsage e context)).2.savedUsd =
    some (costAndBaseMetadata prices miss).1

/-- The rate of the input tokens of an answer none of whose tokens was cached; a negative count is
charged as cached. -/
def uncachedRate (p : ResolvedPrice) (u : CanonicalUsage) : ℚ :=
  if 0 ≤ u.inputTokens then p.inputCostPerToken else p.cacheRate

def rateOf (q : Option ResolvedPrice) (rate : ResolvedPrice → ℚ) : ℚ := q.elim 0 rate

def cachedOf (u : CanonicalUsage) : ℤ := cachedTokens u.inputTokens u.providerCachedInputTokens

/-- The answer has tokens, the requested model has a price at the default provider, and for each
kind of tokens there are its rate is that of the model that answered. -/
def RatesAgree (prices : Prices) (args : CaptureArgs) (model : String) : Prop :=
  ¬ (args.usage.inputTokens = 0 ∧ args.usage.outputTokens = 0) ∧
    ∃ p, prices args.cacheModel "openai" = some p ∧
      (args.usage.inputTokens - cachedOf args.usage ≠ 0 → uncachedRate p args.usage =
        rateOf (prices model args.provider) (·.inputCostPerToken)) ∧
      (cachedOf args.usage ≠ 0 → uncachedRate p args.usage =
        rateOf (prices model args.provider) (·.cacheRate)) ∧
      (args.usage.outputTokens ≠ 0 → p.outputCostPerToken =
        rateOf (prices model args.provider) (·.outputCostPerToken))

structure Counted (u : CanonicalUsage) : Prop where
  input : 0 ≤ u.inputTokens
  output : 0 ≤ u.outputTokens
  cached : 0 ≤ u.providerCachedInputTokens ∧ u.providerCachedInputTokens ≤ u.inputTokens
  some : ¬ (u.inputTokens = 0 ∧ u.outputTokens = 0)

def linearCost (u : CanonicalUsage) (input cached output : ℚ) : ℚ :=
  (u.inputTokens - cachedOf u : ℤ) * input + cachedOf u * cached + u.outputTokens * output

theorem linearCost_congr {u : CanonicalUsage} {a b c a' b' c' : ℚ}
    (ha : u.inputTokens - cachedOf u ≠ 0 → a = a') (hb : cachedOf u ≠ 0 → b = b')
    (hc : u.outputTokens ≠ 0 → c = c') : linearCost u a b c = linearCost u a' b' c' := by
  have hterm : ∀ {n : ℤ} {x y : ℚ}, (n ≠ 0 → x = y) → (n : ℚ) * x = n * y := by
    intro n x y h
    by_cases hn : n = 0
    · rw [hn, Int.cast_zero, zero_mul, zero_mul]
    · rw [h hn]
  rw [linearCost, linearCost, hterm ha, hterm hb, hterm hc]

theorem rawCost_miss (p : ResolvedPrice) (u : CanonicalUsage) :
    rawCost p u.inputTokens u.outputTokens u.providerCachedInputTokens =
      linearCost u p.inputCostPerToken p.cacheRate p.outputCostPerToken := rfl

theorem rawCost_hit (p : ResolvedPrice) (u : CanonicalUsage) :
    rawCost p u.inputTokens u.outputTokens 0 =
      linearCost u (uncachedRate p u) (uncachedRate p u) p.outputCostPerToken := by
  unfold rawCost linearCost uncachedRate
  have hcached : cachedTokens u.inputTokens 0 = min 0 u.inputTokens := by
    rw [cachedTokens, max_self]
  simp only [hcached]
  split_ifs with h
  · rw [min_eq_left h]
    push_cast
    ring
  · rw [min_eq_right (not_le.1 h).le]
    push_cast
    ring

def missCost (q : Option ResolvedPrice) (u : CanonicalUsage) : ℚ :=
  quantize roundHalfUp costQuantum (linearCost u (rateOf q (·.inputCostPerToken))
    (rateOf q (·.cacheRate)) (rateOf q (·.outputCostPerToken)))

theorem miss_cost {prices : Prices} {args : CaptureArgs} {model : String}
    (ht : ¬ (args.usage.inputTokens = 0 ∧ args.usage.outputTokens = 0)) :
    ((priceUsageEvent prices model args.provider args.usage.inputTokens args.usage.outputTokens
      args.usage.providerCachedInputTokens none).costUsd).getD 0 =
        missCost (prices model args.provider) args.usage := by
  unfold missCost
  cases hq : prices model args.provider with
  | none =>
    rw [priceUsageEvent_none_iff.2 (.inr hq)]
    simp [rateOf, linearCost, quantize]
  | some q =>
    rw [priceUsageEvent_priced ht hq, computeCost, rawCost_miss]
    rfl

theorem claims_iff {w : CaptureWorld} {args : CaptureArgs} {quality : Option Bool}
    {missContext : Option RequestContext} {miss : ProxyUsage} (prices : Prices)
    (hitContext : Option RequestContext) (hunrouted : args.routedFrom = none)
    (hmiss : captureUsage args quality missContext = some miss)
    (ht : ¬ (args.usage.inputTokens = 0 ∧ args.usage.outputTokens = 0)) :
    ClaimsCost prices miss (cacheEntry w args) hitContext ↔
      ∃ p, prices args.cacheModel "openai" = some p ∧
        quantize roundHalfUp costQuantum (linearCost args.usage (uncachedRate p args.usage)
          (uncachedRate p args.usage) p.outputCostPerToken) =
            missCost (prices miss.model args.provider) args.usage := by
  simp only [ClaimsCost, hitUsage_saved, captureUsage_cost hunrouted hmiss, miss_cost ht]
  change (priceUsageEvent prices args.cacheModel "openai" args.usage.inputTokens
    args.usage.outputTokens 0 none).costUsd = _ ↔ _
  cases hp : prices args.cacheModel "openai" with
  | none =>
    rw [priceUsageEvent_none_iff.2 (.inr hp)]
    simp
  | some p =>
    rw [priceUsageEvent_priced ht hp, computeCost, rawCost_hit]
    simp

theorem claims_of_rates {w : CaptureWorld} {args : CaptureArgs} {quality : Option Bool}
    {missContext : Option RequestContext} {miss : ProxyUsage} {prices : Prices}
    {hitContext : Option RequestContext} (hunrouted : args.routedFrom = none)
    (hmiss : captureUsage args quality missContext = some miss)
    (h : RatesAgree prices args miss.model) :
    ClaimsCost prices miss (cacheEntry w args) hitContext := by
  obtain ⟨ht, p, hp, hin, hcached, hout⟩ := h
  refine (claims_iff prices hitContext hunrouted hmiss ht).2 ⟨p, hp, ?_⟩
  rw [missCost, linearCost_congr hin hcached hout]

def withUsage (args : CaptureArgs) (u : CanonicalUsage) : CaptureArgs := { args with usage := u }

theorem captureUsage_model {args : CaptureArgs} {model : String} (h : args.model = .str model)
    (u : CanonicalUsage) (quality : Option Bool) (context : Option RequestContext) :
    ∃ miss, captureUsage (withUsage args u) quality context = some miss ∧ miss.model = model := by
  simp only [captureUsage, withUsage, h, Option.some.injEq, exists_eq_left']

theorem rates_eq {p : ResolvedPrice} {q : Option ResolvedPrice}
    (h : ∀ u, Counted u → quantize roundHalfUp costQuantum (linearCost u (uncachedRate p u)
      (uncachedRate p u) p.outputCostPerToken) = missCost q u) :
    p.inputCostPerToken = rateOf q (·.inputCostPerToken) ∧
      p.inputCostPerToken = rateOf q (·.cacheRate) ∧
      p.outputCostPerToken = rateOf q (·.outputCostPerToken) := by
  have hq : costQuantum ≠ 0 := by decide
  refine ⟨eq_of_quantize_multiples hq fun n hn => ?_, eq_of_quantize_multiples hq fun n hn => ?_,
    eq_of_quantize_multiples hq fun n hn => ?_⟩
  · have huncached := h ⟨n, 0, 0⟩ ⟨Int.natCast_nonneg n, le_refl 0, ⟨le_refl 0,
      Int.natCast_nonneg n⟩, by simp; omega⟩
    simpa [missCost, linearCost, cachedOf, cachedTokens, uncachedRate] using huncached
  · have hcached := h ⟨n, 0, n⟩ ⟨Int.natCast_nonneg n, le_refl 0, ⟨Int.natCast_nonneg n,
      le_refl _⟩, by simp; omega⟩
    simpa [missCost, linearCost, cachedOf, cachedTokens, uncachedRate] using hcached
  · have hout := h ⟨0, n, 0⟩ ⟨le_refl 0, Int.natCast_nonneg n, ⟨le_refl 0, le_refl 0⟩,
      by simp; omega⟩
    simpa [missCost, linearCost, cachedOf, cachedTokens, uncachedRate] using hout

/-- For all counts the hit claims the cost exactly where its price has the rates of the miss. -/
theorem counts_claim_iff (prices : Prices) (w : CaptureWorld) {args : CaptureArgs} {model : String}
    (quality : Option Bool) (missContext hitContext : Option RequestContext)
    (hunrouted : args.routedFrom = none) (hmodel : args.model = .str model) :
    (∀ u, Counted u → ∀ miss ∈ captureUsage (withUsage args u) quality missContext,
        ClaimsCost prices miss (cacheEntry w (withUsage args u)) hitContext) ↔
      ∀ u, Counted u → RatesAgree prices (withUsage args u) model := by
  constructor
  · intro h
    have hclaims : ∀ u, Counted u → ∃ p, prices args.cacheModel "openai" = some p ∧
        quantize roundHalfUp costQuantum (linearCost u (uncachedRate p u) (uncachedRate p u)
          p.outputCostPerToken) = missCost (prices model args.provider) u := by
      intro u hu
      obtain ⟨miss, hmiss, rfl⟩ := captureUsage_model hmodel u quality missContext
      exact (@claims_iff w (withUsage args u) quality missContext miss prices hitContext hunrouted
        hmiss hu.some).1 (h u hu miss hmiss)
    obtain ⟨p, hp, -⟩ := hclaims ⟨1, 0, 0⟩ ⟨by simp, le_refl 0, by simp, by simp⟩
    obtain ⟨hin, hcached, hout⟩ := rates_eq (p := p) fun u hu => by
      obtain ⟨p', hp', hcost⟩ := hclaims u hu
      rwa [Option.some.inj (hp.symm.trans hp')]
    intro u hu
    have hrate : uncachedRate p u = p.inputCostPerToken := if_pos hu.input
    exact ⟨hu.some, p, hp, fun _ => hrate.trans hin, fun _ => hrate.trans hcached, fun _ => hout⟩
  · intro h u hu miss hmiss
    obtain ⟨miss', hmiss', rfl⟩ := captureUsage_model hmodel u quality missContext
    obtain rfl := Option.some.inj (hmiss'.symm.trans hmiss)
    exact claims_of_rates hunrouted hmiss' (h u hu)

/-- A hit claims what the miss cost where both find the same rates for the tokens of the answer; for
all counts it does exactly there. -/
theorem hit_claims_cost {w : CaptureWorld} {args : CaptureArgs} {model : String}
    (prices : Prices) (quality : Option Bool) (missContext hitContext : Option RequestContext)
    (hunrouted : args.routedFrom = none) (hmodel : args.model = .str model) :
    (∀ miss ∈ captureUsage args quality missContext, ∀ rows, ∀ e ∈ capture w args rows, e ∉ rows →
        RatesAgree prices args model → ClaimsCost prices miss e hitContext) ∧
      ((∀ u, Counted u → ∀ miss ∈ captureUsage (withUsage args u) quality missContext,
          ClaimsCost prices miss (cacheEntry w (withUsage args u)) hitContext) ↔
        ∀ u, Counted u → RatesAgree prices (withUsage args u) model) := by
  refine ⟨fun miss hmiss rows e hstored hnew hrates => ?_,
    counts_claim_iff prices w quality missContext hitContext hunrouted hmodel⟩
  obtain rfl := stored_eq hstored hnew
  obtain ⟨miss', hmiss', rfl⟩ := captureUsage_model hmodel args.usage quality missContext
  obtain rfl := Option.some.inj (hmiss'.symm.trans hmiss)
  exact claims_of_rates hunrouted hmiss hrates

/-- Under one price with a discount on cached tokens, the hit claims at least the cost. -/
theorem cost_le_claim {w : CaptureWorld} {args : CaptureArgs} {quality : Option Bool}
    {context : Option RequestContext} {miss : ProxyUsage} {prices : Prices} {p : ResolvedPrice}
    {saved : ℚ} (hunrouted : args.routedFrom = none)
    (hmiss : captureUsage args quality context = some miss)
    (hp : prices args.cacheModel "openai" = some p)
    (hq : prices miss.model args.provider = some p) (hi : 0 ≤ args.usage.inputTokens)
    (hrate : p.cacheRate ≤ p.inputCostPerToken)
    (hsaved : (costAndBaseMetadata prices (hitUsage (cacheEntry w args) context)).2.savedUsd =
      some saved) : (costAndBaseMetadata prices miss).1 ≤ saved := by
  change (priceUsageEvent prices args.cacheModel "openai" args.usage.inputTokens
    args.usage.outputTokens 0 none).costUsd = some saved at hsaved
  have ht : ¬ (args.usage.inputTokens = 0 ∧ args.usage.outputTokens = 0) := by
    intro ht
    rw [priceUsageEvent_none_iff.2 (.inl ht)] at hsaved
    exact absurd hsaved (by simp)
  rw [priceUsageEvent_priced ht hp] at hsaved
  rw [captureUsage_cost hunrouted hmiss, priceUsageEvent_priced ht hq, ← Option.some.inj hsaved]
  exact computeCost_le hi hrate _ _

/-! ## A prompt the provider had cached -/

def listPrice : ModelPrice where
  id := 1
  modelKey := "gpt-4o"
  provider := "openai"
  inputCostPerToken := 25 / 10 ^ 7
  outputCostPerToken := 10 / 10 ^ 6
  cacheReadInputTokenCost := some (125 / 10 ^ 8)
  effectiveAt := 0

def listPrices : Prices := resolvePrice ⟨[], [listPrice]⟩ (fun _ _ => none) 1 1

def answer (cached : ℤ) : CaptureArgs where
  provider := "openai"
  model := .str "gpt-4o"
  cacheModel := "gpt-4o"
  responsePayload := .obj [("id", .str "chatcmpl-1")]
  cacheKey := "key"
  usage := ⟨1000, 100, cached⟩
  storeCache := true
  body := .obj [("model", .str "gpt-4o")]
  routedFrom := none
  routedFromProvider := none
  arm := none
  expFrom := none
  expTo := none
  fallbackUsed := false

def quietWorld : CaptureWorld := ⟨fun _ => none, true, true, true, 1, 3600⟩

theorem answer_stored (cached : ℤ) :
    capture quietWorld (answer cached) [] = [cacheEntry quietWorld (answer cached)] := rfl

def answerUsage (cached : ℤ) : ProxyUsage :=
  ⟨"gpt-4o", "openai", 1000, 100, cached, false, none, none, none, none, none, none, none⟩

theorem answer_usage (cached : ℤ) : captureUsage (answer cached) none none =
    some (answerUsage cached) := rfl

theorem listPrices_openai : listPrices "gpt-4o" "openai" = some listPrice.resolved := by
  decide +kernel

/-- Nothing was cached at the provider: the claim is the cost. -/
theorem hit_claims_cost_uncached :
    ClaimsCost listPrices (answerUsage 0) (cacheEntry quietWorld (answer 0)) none := by
  have hstored : cacheEntry quietWorld (answer 0) ∈ capture quietWorld (answer 0) [] := by
    simp [answer_stored]
  refine (hit_claims_cost (w := quietWorld) listPrices none none none rfl rfl).1 _
    (answer_usage 0) [] _ hstored (by simp)
    ⟨by decide, listPrice.resolved, listPrices_openai, ?_⟩
  have hprice : listPrices "gpt-4o" (answer 0).provider = _ := listPrices_openai
  rw [hprice]
  refine ⟨fun _ => rfl, fun h => absurd rfl h, fun _ => rfl⟩

/-- Eight hundred of the tokens were cached at the provider, which charged 0.0025; the hit claims
0.0035. -/
theorem hit_claims_discount :
    cacheEntry quietWorld (answer 800) ∈ capture quietWorld (answer 800) [] ∧
      captureUsage (answer 800) none none = some (answerUsage 800) ∧
      ¬ ClaimsCost listPrices (answerUsage 800) (cacheEntry quietWorld (answer 800)) none := by
  refine ⟨by simp [answer_stored], answer_usage 800, ?_⟩
  have hmiss : (costAndBaseMetadata listPrices (answerUsage 800)).1 = 1 / 400 := by
    decide +kernel
  have hhit : (costAndBaseMetadata listPrices
      (hitUsage (cacheEntry quietWorld (answer 800)) none)).2.savedUsd = some (7 / 2000) := by
    decide +kernel
  rw [ClaimsCost, hmiss, hhit]
  norm_num

end Varsten.Proxy.CacheSavings
