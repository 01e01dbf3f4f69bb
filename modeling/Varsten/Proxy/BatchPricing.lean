import Varsten.Pricing.PriceCache
import Varsten.Proxy.BatchUsage
import Varsten.Proxy.Ledger

/-!
# Pricing of a finished batch

The tokens of each model at the batch and at the synchronous rates of the catalog, and the rows
they leave in the ledger.
-/

namespace Varsten.Proxy.BatchPricing

open Python.Decimals
open Pricing.Service
open Pricing.PriceCache (PriceRow priceRow lookupPrice_eq)
open Proxy.BatchUsage (Tally)
open Proxy.Ledger (BatchUsage)

/-- `TokenCost` has twelve digits, as has `_Q`. -/
def tokenCostScale : ℕ := 10 ^ 12

def IsTokenCost (q : ℚ) : Prop := ∃ n : ℤ, q = n / tokenCostScale

structure BatchModelPrice extends ModelPrice where
  inputCostPerTokenBatch : Option ℚ
  outputCostPerTokenBatch : Option ℚ
  input_isTokenCost : IsTokenCost inputCostPerToken
  output_isTokenCost : IsTokenCost outputCostPerToken

def latestModelPrice (rows : List BatchModelPrice) (model provider : String) (time : ℚ) :
    Option BatchModelPrice :=
  (rows.filter fun r => r.modelKey = model ∧ r.provider = provider ∧ r.effectiveAt ≤ time).argmax
    (·.effectiveAt)

def linearCost (inputRate outputRate : ℚ) (t : Tally) : ℚ :=
  t.input * inputRate + t.output * outputRate

def naiveCost (r : BatchModelPrice) (t : Tally) : ℚ :=
  quantize roundHalfEven tokenCostScale (linearCost r.inputCostPerToken r.outputCostPerToken t)

def actualCost (r : BatchModelPrice) (t : Tally) : ℚ :=
  match r.inputCostPerTokenBatch, r.outputCostPerTokenBatch with
  | some input, some output => quantize roundHalfEven tokenCostScale (linearCost input output t)
  | _, _ => naiveCost r t

/-- One turn of the loop of `_measure_and_record`: the row it records. -/
def measureModel (rows : List BatchModelPrice) (time : ℚ) (count : ℕ) (m : String × Tally) :
    BatchUsage :=
  let price := latestModelPrice rows m.1 "openai" time
  { model := m.1
    inputTokens := m.2.input
    outputTokens := m.2.output
    actualCostUsd := price.map (actualCost · m.2)
    naiveCostUsd := price.map (naiveCost · m.2)
    requestCount := count }

structure BatchTotals where
  requestCount : ℕ
  inputTokens : ℤ
  outputTokens : ℤ
  actualCostUsd : Option ℚ
  naiveCostUsd : Option ℚ
  savedUsd : Option ℚ

def measureAndRecord (rows : List BatchModelPrice) (byModel : List (String × Tally)) (count : ℕ)
    (time : ℚ) : BatchTotals × List BatchUsage :=
  let recorded := byModel.map (measureModel rows time count)
  let priced := recorded.filter fun u => u.actualCostUsd.isSome ∧ u.naiveCostUsd.isSome
  let actual := (priced.filterMap (·.actualCostUsd)).sum
  let naive := (priced.filterMap (·.naiveCostUsd)).sum
  let given (x : ℚ) : Option ℚ := if priced ≠ [] then some x else none
  (⟨count, (recorded.map (·.inputTokens)).sum, (recorded.map (·.outputTokens)).sum,
    given actual, given naive, given (naive - actual)⟩, recorded)

/-! ## The two prices -/

theorem naiveCost_eq (r : BatchModelPrice) (t : Tally) :
    naiveCost r t = linearCost r.inputCostPerToken r.outputCostPerToken t := by
  obtain ⟨m, hm⟩ := r.input_isTokenCost
  obtain ⟨n, hn⟩ := r.output_isTokenCost
  have hsum : linearCost r.inputCostPerToken r.outputCostPerToken t =
      ((t.input * m + t.output * n : ℤ) : ℚ) / tokenCostScale := by
    rw [linearCost, hm, hn]
    push_cast
    ring
  rw [naiveCost, hsum, quantize_digits (by decide)]

def inputRate (p : ResolvedPrice) (t : Tally) : ℚ :=
  if 0 ≤ t.input then p.inputCostPerToken else p.cacheRate

theorem rawCost_uncached (p : ResolvedPrice) (t : Tally) :
    rawCost p t.input t.output 0 = linearCost (inputRate p t) p.outputCostPerToken t := by
  unfold rawCost linearCost inputRate cachedTokens
  split_ifs with h
  · simp [h]
  · dsimp only
    rw [max_self, min_eq_right (by omega), sub_self, Int.cast_zero, zero_mul, zero_add]

section Agreement

variable (overrides : List OrgModelPriceOverride) (rows : List BatchModelPrice) (time : ℚ)

def book : PriceBook := ⟨overrides, rows.map (·.toModelPrice)⟩

def syncCost (u : BatchUsage) : Option ℚ :=
  (priceUsageEvent (lookupPrice (book overrides rows) time) u.model "openai" u.inputTokens
    u.outputTokens 0 none).costUsd

/-- The recorded cost, to the digits of `cost_usd`, is that of the synchronous path. -/
def Agrees (u : BatchUsage) : Prop :=
  u.naiveCostUsd.map (quantize roundHalfUp costQuantum) = syncCost overrides rows time u

/-- Either path finds a price for tokens, and the two rows have the same rates for those there are,
or neither does. -/
def SamePrice (model : String) (t : Tally) : Prop :=
  match latestModelPrice rows model "openai" time,
      priceRow (book overrides rows) model "openai" time with
  | none, none => True
  | none, some _ => t.input = 0 ∧ t.output = 0
  | some _, none => False
  | some r, some row => ¬ (t.input = 0 ∧ t.output = 0) ∧
      (t.input ≠ 0 → r.inputCostPerToken = inputRate row.resolved t) ∧
      (t.output ≠ 0 → r.outputCostPerToken = row.resolved.outputCostPerToken)

structure Counted (t : Tally) : Prop where
  input : 0 ≤ t.input
  output : 0 ≤ t.output
  some : ¬ (t.input = 0 ∧ t.output = 0)

variable {overrides rows time}

theorem lookup_eq (model : String) :
    lookupPrice (book overrides rows) time model "openai" =
      (priceRow (book overrides rows) model "openai" time).map PriceRow.resolved :=
  lookupPrice_eq _ _ _ _

theorem syncCost_unpriced {u : BatchUsage} (h : (u.inputTokens = 0 ∧ u.outputTokens = 0) ∨
    priceRow (book overrides rows) u.model "openai" time = none) :
    syncCost overrides rows time u = none := by
  rw [syncCost, priceUsageEvent_none_iff, lookup_eq]
  exact h.imp_right fun hn => by rw [hn, Option.map_none]

theorem syncCost_priced {u : BatchUsage} {row : PriceRow}
    (ht : ¬ (u.inputTokens = 0 ∧ u.outputTokens = 0))
    (h : priceRow (book overrides rows) u.model "openai" time = some row) :
    syncCost overrides rows time u =
      some (computeCost row.resolved u.inputTokens u.outputTokens 0) := by
  refine priceUsageEvent_priced ht ?_
  rw [lookup_eq, h, Option.map_some]

theorem measured_agrees_iff {count : ℕ} {m : String × Tally} {r : BatchModelPrice}
    {row : PriceRow} (hr : latestModelPrice rows m.1 "openai" time = some r)
    (hp : priceRow (book overrides rows) m.1 "openai" time = some row)
    (ht : ¬ (m.2.input = 0 ∧ m.2.output = 0)) :
    Agrees overrides rows time (measureModel rows time count m) ↔
      quantize roundHalfUp costQuantum
          (linearCost r.inputCostPerToken r.outputCostPerToken m.2) =
        quantize roundHalfUp costQuantum
          (linearCost (inputRate row.resolved m.2) row.resolved.outputCostPerToken m.2) := by
  have hcost : computeCost row.resolved m.2.input m.2.output 0 =
      quantize roundHalfUp costQuantum
        (linearCost (inputRate row.resolved m.2) row.resolved.outputCostPerToken m.2) := by
    rw [computeCost, rawCost_uncached]
  rw [Agrees, syncCost_priced (u := measureModel rows time count m) ht hp]
  simp only [measureModel, hr, Option.map_some, naiveCost_eq, Option.some.injEq, hcost]

theorem linearCost_congr {a b c d : ℚ} {t : Tally} (hin : t.input ≠ 0 → a = c)
    (hout : t.output ≠ 0 → b = d) : linearCost a b t = linearCost c d t := by
  unfold linearCost
  congr 1
  · by_cases h : t.input = 0
    · rw [h, Int.cast_zero, zero_mul, zero_mul]
    · rw [hin h]
  · by_cases h : t.output = 0
    · rw [h, Int.cast_zero, zero_mul, zero_mul]
    · rw [hout h]

/-- A model whose rows have the same rates on both paths costs the same on both. -/
theorem measured_agrees {count : ℕ} {m : String × Tally}
    (h : SamePrice overrides rows time m.1 m.2) :
    Agrees overrides rows time (measureModel rows time count m) := by
  unfold SamePrice at h
  cases hr : latestModelPrice rows m.1 "openai" time with
  | none =>
    have hnaive : (measureModel rows time count m).naiveCostUsd = none := by
      simp [measureModel, hr]
    rw [Agrees, hnaive, Option.map_none]
    cases hp : priceRow (book overrides rows) m.1 "openai" time with
    | none => rw [syncCost_unpriced (u := measureModel rows time count m) (.inr hp)]
    | some row =>
      rw [hr, hp] at h
      rw [syncCost_unpriced (u := measureModel rows time count m) (.inl h)]
  | some r =>
    cases hp : priceRow (book overrides rows) m.1 "openai" time with
    | none =>
      rw [hr, hp] at h
      exact h.elim
    | some row =>
      rw [hr, hp] at h
      obtain ⟨ht, hin, hout⟩ := h
      rw [measured_agrees_iff hr hp ht, linearCost_congr hin hout]

theorem linearCost_input (a b : ℚ) (n : ℕ) : linearCost a b ⟨n, 0⟩ = n * a := by
  simp [linearCost]

theorem linearCost_output (a b : ℚ) (n : ℕ) : linearCost a b ⟨0, n⟩ = n * b := by
  simp [linearCost]

theorem rates_eq {r : BatchModelPrice} {row : PriceRow} {model : String} {count : ℕ}
    (hr : latestModelPrice rows model "openai" time = some r)
    (hp : priceRow (book overrides rows) model "openai" time = some row)
    (h : ∀ t, Counted t → Agrees overrides rows time (measureModel rows time count (model, t))) :
    r.inputCostPerToken = row.resolved.inputCostPerToken ∧
      r.outputCostPerToken = row.resolved.outputCostPerToken := by
  have hq : costQuantum ≠ 0 := by decide
  constructor
  · refine eq_of_quantize_multiples hq fun n hn => ?_
    have ht : ¬ ((n : ℤ) = 0 ∧ (0 : ℤ) = 0) := by omega
    have hagrees := (measured_agrees_iff (m := (model, ⟨n, 0⟩)) hr hp ht).1
      (h ⟨n, 0⟩ ⟨Int.natCast_nonneg n, le_refl 0, ht⟩)
    rw [linearCost_input, linearCost_input, inputRate, if_pos (Int.natCast_nonneg n)] at hagrees
    exact hagrees
  · refine eq_of_quantize_multiples hq fun n hn => ?_
    have ht : ¬ ((0 : ℤ) = 0 ∧ (n : ℤ) = 0) := by omega
    have hagrees := (measured_agrees_iff (m := (model, ⟨0, n⟩)) hr hp ht).1
      (h ⟨0, n⟩ ⟨le_refl 0, Int.natCast_nonneg n, ht⟩)
    rwa [linearCost_output, linearCost_output] at hagrees

/-- For all counts of a model the paths agree exactly where its rows have the same rates. -/
theorem counts_agree_iff (model : String) (count : ℕ) :
    (∀ t, Counted t → Agrees overrides rows time (measureModel rows time count (model, t))) ↔
      ∀ t, Counted t → SamePrice overrides rows time model t := by
  refine ⟨fun h t ht => ?_, fun h t ht => measured_agrees (h t ht)⟩
  unfold SamePrice
  have hagrees := h t ht
  cases hr : latestModelPrice rows model "openai" time with
  | none =>
    have hnaive : (measureModel rows time count (model, t)).naiveCostUsd = none := by
      simp [measureModel, hr]
    rw [Agrees, hnaive, Option.map_none] at hagrees
    cases hp : priceRow (book overrides rows) model "openai" time with
    | none => trivial
    | some row =>
      rw [syncCost_priced (u := measureModel rows time count (model, t)) ht.some hp] at hagrees
      cases hagrees
  | some r =>
    cases hp : priceRow (book overrides rows) model "openai" time with
    | none =>
      rw [Agrees, syncCost_unpriced (u := measureModel rows time count (model, t)) (.inr hp)]
        at hagrees
      simp [measureModel, hr] at hagrees
    | some row =>
      obtain ⟨hin, hout⟩ := rates_eq hr hp h
      refine ⟨ht.some, fun _ => ?_, fun _ => hout⟩
      rw [inputRate, if_pos ht.input, hin]

/-- A batch is priced as the synchronous path would have where both find the same rates for each of
its models; a model is for all counts exactly there. -/
theorem batch_naive_agrees (overrides : List OrgModelPriceOverride) (rows : List BatchModelPrice)
    (time : ℚ) (count : ℕ) :
    (∀ byModel, (∀ m ∈ byModel, SamePrice overrides rows time m.1 m.2) →
      ∀ u ∈ (measureAndRecord rows byModel count time).2, Agrees overrides rows time u) ∧
    ∀ model, (∀ t, Counted t →
        Agrees overrides rows time (measureModel rows time count (model, t))) ↔
      ∀ t, Counted t → SamePrice overrides rows time model t := by
  refine ⟨fun byModel h => ?_, fun model => counts_agree_iff model count⟩
  simp only [measureAndRecord, List.forall_mem_map]
  exact fun m hm => measured_agrees (h m hm)

end Agreement

def sampleRow : BatchModelPrice where
  id := 1
  modelKey := "gpt-4o"
  provider := "openai"
  inputCostPerToken := 1
  outputCostPerToken := 1
  cacheReadInputTokenCost := none
  effectiveAt := 0
  inputCostPerTokenBatch := some (1 / 2)
  outputCostPerTokenBatch := some (1 / 2)
  input_isTokenCost := ⟨10 ^ 12, by norm_num [tokenCostScale]⟩
  output_isTokenCost := ⟨10 ^ 12, by norm_num [tokenCostScale]⟩

theorem catalog_rate_agrees :
    ∀ u ∈ (measureAndRecord [sampleRow] [("gpt-4o", ⟨1000, 0⟩)] 1 0).2,
      Agrees [] [sampleRow] 0 u := by
  refine (batch_naive_agrees [] [sampleRow] 0 1).1 _ fun m hm => ?_
  obtain rfl := List.mem_singleton.1 hm
  exact ⟨by decide, fun _ => rfl, fun h => absurd rfl h⟩

def sampleOverride : OrgModelPriceOverride := ⟨"gpt-4o", none, 1 / 10, 1 / 10, none, 0⟩

theorem negotiated_rate_ignored :
    ¬ ∀ u ∈ (measureAndRecord [sampleRow] [("gpt-4o", ⟨1000, 0⟩)] 1 0).2,
      Agrees [sampleOverride] [sampleRow] 0 u := by
  intro h
  have hrow := h _ List.mem_cons_self
  revert hrow
  unfold Agrees
  decide +kernel

end Varsten.Proxy.BatchPricing
