import Varsten.Proxy.BatchPricing

/-!
# What a batch books

The requests of an output file against the account of its job and the rows of its ledger. A row is
given the number of requests of the whole file, and keeps its cost in the digits of `cost_usd`.
-/

namespace Varsten.Proxy.BatchConservation

open BatchPricing
open Ledger (BatchUsage recordBatchUsage)
open Pricing.Service (costQuantum)
open Proxy.BatchUsage (ByModel Tally addRow parseLine parseOutputUsage setTally tallyAt)
open Python (Json Py)
open Python.Decimals
open Python.Text (splitlines)
open Python.Utf8 (Bytes Text decode)

/-- Catalog rows, whose batch rates have the digits of `TokenCost` too. -/
abbrev CatalogRow := {r : BatchModelPrice //
  (∀ q ∈ r.inputCostPerTokenBatch, IsTokenCost q) ∧ ∀ q ∈ r.outputCostPerTokenBatch, IsTokenCost q}

/-- A metered request: its model and its tokens. -/
abbrev Request := Json × Tally

def meteredRequest (row : Json) : Py (Option Request) := do
  let response := (← row.get "response").orElse (.obj [])
  let body := (← response.get "body").orElse (.obj [])
  let usage := (← body.get "usage").orElse (.obj [])
  let model ← body.get "model"
  if !model.truthy then return none
  let key ← Json.hashKey model
  let input ← ((← usage.get "prompt_tokens").orElse (.int 0)).toInt
  let output ← ((← usage.get "completion_tokens").orElse (.int 0)).toInt
  return some (key, ⟨input, output⟩)

/-- The metered requests of an output file. -/
def metered (loads : Text → Option Json) (output : Bytes) : Py (List Request) := do
  let rows := (splitlines (decode output)).filterMap (parseLine loads)
  return (← rows.mapM meteredRequest).reduceOption

/-- A model is looked up in the catalog by its text; the database takes nothing else. -/
def modelName (m : Request) : Py (String × Tally) :=
  match m.1 with
  | .str name => .ok (name, m.2)
  | _ => .error .typeError

/-- The account `finalize_job` stores, and the rows of the ledger. -/
def measureOutput (loads : Text → Option Json) (rows : List CatalogRow) (time : ℚ)
    (output : Bytes) : Py (BatchTotals × List BatchUsage) := do
  let parsed ← parseOutputUsage loads output
  let byModel ← parsed.1.mapM modelName
  return measureAndRecord (rows.map (·.1)) byModel parsed.2 time

def storedCost (u : BatchUsage) : Option ℚ := u.actualCostUsd.map (quantize roundHalfUp costQuantum)

def sumPriced (costs : List (Option ℚ)) : Option ℚ :=
  if costs.reduceOption = [] then none else some costs.reduceOption.sum

structure Conservative (requests : List Request) (account : BatchTotals)
    (ledger : List BatchUsage) : Prop where
  counts : (ledger.map (·.requestCount)).sum = requests.length
  perModel : ∀ u ∈ ledger, u.requestCount = (requests.filter (·.1 = .str u.model)).length
  inputTokens : account.inputTokens = (ledger.map (·.inputTokens)).sum
  outputTokens : account.outputTokens = (ledger.map (·.outputTokens)).sum
  actual : account.actualCostUsd = sumPriced (ledger.map storedCost)
  naive : account.naiveCostUsd = sumPriced (ledger.map (·.naiveCostUsd))
  saved : account.savedUsd = sumPriced (ledger.map (·.savedUsd))

/-- Whatever a file books is conservative. -/
def Conserves (loads : Text → Option Json) (rows : List CatalogRow) (time : ℚ)
    (output : Bytes) : Prop :=
  ∀ requests booked, metered loads output = .ok requests →
    measureOutput loads rows time output = .ok booked → Conservative requests booked.1 booked.2

def billedRates (r : BatchModelPrice) : ℚ × ℚ :=
  match r.inputCostPerTokenBatch, r.outputCostPerTokenBatch with
  | some input, some output => (input, output)
  | _, _ => (r.inputCostPerToken, r.outputCostPerToken)

def total (requests : List Request) : Tally :=
  ⟨(requests.map (·.2.input)).sum, (requests.map (·.2.output)).sum⟩

/-- The requests are of one model, and its tokens come to a cost in the digits of `cost_usd`. -/
structure OneWholeCost (rows : List CatalogRow) (time : ℚ) (requests : List Request) : Prop where
  one : ∀ r ∈ requests, ∀ r' ∈ requests, r.1 = r'.1
  whole : ∀ r ∈ requests, ∀ name, r.1 = .str name →
    ∀ price, latestModelPrice (rows.map (·.1)) name "openai" time = some price →
      ∃ n : ℤ, linearCost (billedRates price).1 (billedRates price).2 (total requests) =
        n / costQuantum

/-! ## The requests of a file -/

section Requests

variable {loads : Text → Option Json} {output : Bytes} {requests : List Request}

def addRequest (acc : ByModel × ℕ) (r : Request) : ByModel × ℕ :=
  (setTally r.1 ⟨(tallyAt r.1 acc.1).input + r.2.input, (tallyAt r.1 acc.1).output + r.2.output⟩
    acc.1, acc.2 + 1)

theorem addRow_eq (acc : ByModel × ℕ) (row : Json) :
    addRow acc row = (fun r => r.elim acc (addRequest acc)) <$> meteredRequest row := by
  simp only [addRow, meteredRequest, map_bind]
  refine bind_congr fun response => bind_congr fun body => bind_congr fun usage =>
    bind_congr fun model => ?_
  split_ifs
  · rfl
  · simp only [map_bind]
    rfl

theorem foldlM_addRow (rows : List Json) (acc : ByModel × ℕ) : rows.foldlM addRow acc =
    (fun rs => rs.reduceOption.foldl addRequest acc) <$> rows.mapM meteredRequest := by
  induction rows generalizing acc with
  | nil => rfl
  | cons row rows ih =>
    rw [List.foldlM_cons, List.mapM_cons, addRow_eq]
    cases meteredRequest row with
    | error e => rfl
    | ok r =>
      have hnext := ih (r.elim acc (addRequest acc))
      simp only [map_bind]
      refine (hnext.trans ?_)
      cases List.mapM meteredRequest rows with
      | error e => rfl
      | ok rs => cases r <;> rfl

theorem parseOutputUsage_eq (loads : Text → Option Json) (output : Bytes) :
    parseOutputUsage loads output =
      (fun rs => rs.foldl addRequest ([], 0)) <$> metered loads output := by
  rw [parseOutputUsage, foldlM_addRow, metered]
  cases List.mapM meteredRequest ((splitlines (decode output)).filterMap (parseLine loads)) <;> rfl

theorem mem_keys_setTally {key k : Json} {tally : Tally} {acc : ByModel} :
    k ∈ (setTally key tally acc).map (·.1) ↔ k = key ∨ k ∈ acc.map (·.1) := by
  induction acc with
  | nil => simp [setTally]
  | cons m acc ih =>
    rw [setTally]
    split_ifs with hm
    · rw [List.map_cons, List.map_cons, List.mem_cons, List.mem_cons, hm]
      tauto
    · rw [List.map_cons, List.map_cons, List.mem_cons, List.mem_cons, ih]
      tauto

theorem mem_keys_foldl {requests : List Request} {acc : ByModel × ℕ} {k : Json} :
    k ∈ (requests.foldl addRequest acc).1.map (·.1) ↔
      k ∈ requests.map (·.1) ∨ k ∈ acc.1.map (·.1) := by
  induction requests generalizing acc with
  | nil => simp
  | cons r requests ih =>
    rw [List.foldl_cons, ih, addRequest, mem_keys_setTally, List.map_cons, List.mem_cons]
    tauto

theorem foldl_count (requests : List Request) (acc : ByModel × ℕ) :
    (requests.foldl addRequest acc).2 = acc.2 + requests.length := by
  induction requests generalizing acc with
  | nil => rfl
  | cons r requests ih =>
    rw [List.foldl_cons, ih, List.length_cons]
    exact Nat.add_right_comm _ _ _

theorem foldl_single {k : Json} (requests : List Request) (t : Tally) (n : ℕ)
    (h : ∀ r ∈ requests, r.1 = k) : (requests.foldl addRequest ([(k, t)], n)).1 =
      [(k, ⟨t.input + (total requests).input, t.output + (total requests).output⟩)] := by
  induction requests generalizing t n with
  | nil => simp [total]
  | cons r requests ih =>
    rw [List.forall_mem_cons] at h
    have hadd : addRequest ([(k, t)], n) r =
        ([(k, ⟨t.input + r.2.input, t.output + r.2.output⟩)], n + 1) := by
      simp [addRequest, setTally, tallyAt, h.1]
    rw [List.foldl_cons, hadd, ih _ _ h.2]
    simp only [total, List.map_cons, List.sum_cons, add_assoc]

theorem tallies_single {k : Json} (hne : requests ≠ []) (h : ∀ r ∈ requests, r.1 = k) :
    (requests.foldl addRequest ([], 0)).1 = [(k, total requests)] := by
  cases requests with
  | nil => exact absurd rfl hne
  | cons r requests =>
    rw [List.forall_mem_cons] at h
    have hadd : addRequest ([], 0) r = ([(k, r.2)], 1) := by
      simp [addRequest, setTally, tallyAt, h.1]
    rw [List.foldl_cons, hadd, foldl_single _ _ _ h.2]
    simp only [total, List.map_cons, List.sum_cons]

end Requests

/-! ## The rows of a file -/

section Rows

variable {rows : List CatalogRow} {time : ℚ}

theorem actualCost_eq (r : CatalogRow) (t : Tally) :
    actualCost r.1 t = linearCost (billedRates r.1).1 (billedRates r.1).2 t := by
  obtain ⟨r, hinput, houtput⟩ := r
  dsimp only
  unfold actualCost billedRates
  cases hi : r.inputCostPerTokenBatch with
  | none => exact naiveCost_eq r t
  | some input =>
    cases ho : r.outputCostPerTokenBatch with
    | none => exact naiveCost_eq r t
    | some output =>
      obtain ⟨m, rfl⟩ := hinput input hi
      obtain ⟨n, rfl⟩ := houtput output ho
      have hsum : linearCost ((m : ℚ) / tokenCostScale) (n / tokenCostScale) t =
          ((t.input * m + t.output * n : ℤ) : ℚ) / tokenCostScale := by
        rw [linearCost]
        push_cast
        ring
      dsimp only
      rw [hsum, quantize_digits (by decide)]

theorem latest_mem {name : String} {price : BatchModelPrice}
    (h : latestModelPrice (rows.map (·.1)) name "openai" time = some price) :
    ∃ r : CatalogRow, r.1 = price := by
  obtain ⟨r, -, hr⟩ := List.mem_map.1 (List.mem_filter.1 (List.argmax_mem h)).1
  exact ⟨r, hr⟩

theorem quantize_eq_self_iff {q : ℚ} :
    quantize roundHalfUp costQuantum q = q ↔ ∃ n : ℤ, q = n / costQuantum := by
  constructor
  · exact fun h => ⟨_, h.symm⟩
  · rintro ⟨n, rfl⟩
    have hne : (costQuantum : ℚ) ≠ 0 := by norm_num [costQuantum]
    rw [quantize, div_mul_cancel₀ _ hne, roundHalfUp_intCast]

/-- A row has both of its costs or neither. -/
def Paired (u : BatchUsage) : Prop := u.actualCostUsd.isSome = u.naiveCostUsd.isSome

theorem measured_paired (count : ℕ) (m : String × Tally) :
    Paired (measureModel (rows.map (·.1)) time count m) := by
  simp [Paired, measureModel]

end Rows

section Sums

variable {ledger : List BatchUsage}

/-- The rows `_measure_and_record` sums the costs of. -/
def priced (ledger : List BatchUsage) : List BatchUsage :=
  ledger.filter fun u => u.actualCostUsd.isSome ∧ u.naiveCostUsd.isSome

theorem filterMap_priced {cost : BatchUsage → Option ℚ}
    (h : ∀ u ∈ ledger, (cost u).isSome = true → u.actualCostUsd.isSome ∧ u.naiveCostUsd.isSome) :
    (priced ledger).filterMap cost = (ledger.map cost).reduceOption := by
  rw [priced, List.filterMap_filter, List.reduceOption, List.filterMap_map]
  refine List.filterMap_congr fun u hu => ?_
  split_ifs with hp
  · rfl
  · cases hc : cost u with
    | none => simp [hc]
    | some q => exact absurd (decide_eq_true (h u hu (by rw [hc]; rfl))) hp

theorem priced_eq_nil_iff {cost : BatchUsage → Option ℚ}
    (h : ∀ u ∈ ledger, (cost u).isSome = true ↔ u.actualCostUsd.isSome ∧ u.naiveCostUsd.isSome) :
    priced ledger = [] ↔ (ledger.map cost).reduceOption = [] := by
  rw [← filterMap_priced fun u hu => (h u hu).1, List.filterMap_eq_nil_iff]
  constructor
  · intro hnil
    rw [hnil]
    exact fun u hu => absurd hu List.not_mem_nil
  · intro hnone
    refine List.eq_nil_iff_forall_not_mem.2 fun u hu => ?_
    have hmem := List.mem_filter.1 hu
    have hsome := (h u hmem.1).2 (of_decide_eq_true hmem.2)
    rw [hnone u hu] at hsome
    cases hsome

theorem sumPriced_eq {cost : BatchUsage → Option ℚ} (h : ∀ u ∈ ledger, (cost u).isSome = true ↔
      u.actualCostUsd.isSome ∧ u.naiveCostUsd.isSome) :
    sumPriced (ledger.map cost) =
      if priced ledger ≠ [] then some ((priced ledger).filterMap cost).sum else none := by
  rw [sumPriced, filterMap_priced fun u hu => (h u hu).1]
  by_cases hnil : priced ledger = []
  · rw [if_pos ((priced_eq_nil_iff h).1 hnil), if_neg (not_not.2 hnil)]
  · rw [if_neg (mt (priced_eq_nil_iff h).2 hnil), if_pos hnil]

theorem saved_sum (ledger : List BatchUsage) : ((priced ledger).filterMap (·.savedUsd)).sum =
    ((priced ledger).filterMap (·.naiveCostUsd)).sum -
      ((priced ledger).filterMap (·.actualCostUsd)).sum := by
  have hsome : ∀ u ∈ priced ledger, ∃ actual naive, u.actualCostUsd = some actual ∧
      u.naiveCostUsd = some naive := by
    intro u hu
    obtain ⟨hactual, hnaive⟩ := of_decide_eq_true (List.mem_filter.1 hu).2
    obtain ⟨actual, ha⟩ := Option.isSome_iff_exists.1 hactual
    obtain ⟨naive, hn⟩ := Option.isSome_iff_exists.1 hnaive
    exact ⟨actual, naive, ha, hn⟩
  generalize priced ledger = us at hsome
  induction us with
  | nil => simp
  | cons u us ih =>
    rw [List.forall_mem_cons] at hsome
    obtain ⟨⟨actual, naive, ha, hn⟩, hrest⟩ := hsome
    have hs : u.savedUsd = some (naive - actual) := by
      rw [BatchUsage.savedUsd, hn, ha]
      rfl
    rw [List.filterMap_cons_some hs, List.filterMap_cons_some hn, List.filterMap_cons_some ha,
      List.sum_cons, List.sum_cons, List.sum_cons, ih hrest]
    ring

end Sums

section Account

variable {rows : List CatalogRow} {time : ℚ} {byModel : List (String × Tally)} {count : ℕ}

structure Summed (account : BatchTotals) (ledger : List BatchUsage) : Prop where
  inputTokens : account.inputTokens = (ledger.map (·.inputTokens)).sum
  outputTokens : account.outputTokens = (ledger.map (·.outputTokens)).sum
  actual : account.actualCostUsd = sumPriced (ledger.map (·.actualCostUsd))
  naive : account.naiveCostUsd = sumPriced (ledger.map (·.naiveCostUsd))
  saved : account.savedUsd = sumPriced (ledger.map (·.savedUsd))

theorem summed (rows : List CatalogRow) (byModel : List (String × Tally)) (count : ℕ) (time : ℚ) :
    Summed (measureAndRecord (rows.map (·.1)) byModel count time).1
      (measureAndRecord (rows.map (·.1)) byModel count time).2 := by
  have hpaired : ∀ u ∈ byModel.map (measureModel (rows.map (·.1)) time count), Paired u := by
    intro u hu
    obtain ⟨m, -, rfl⟩ := List.mem_map.1 hu
    exact measured_paired count m
  refine ⟨rfl, rfl, ?_, ?_, ?_⟩
  · refine (sumPriced_eq fun u hu => ?_).symm
    rw [← hpaired u hu, and_self]
  · refine (sumPriced_eq fun u hu => ?_).symm
    rw [hpaired u hu, and_self]
  · have hsaved : ∀ u ∈ byModel.map (measureModel (rows.map (·.1)) time count),
        u.savedUsd.isSome = true ↔ u.actualCostUsd.isSome ∧ u.naiveCostUsd.isSome := by
      intro u _
      rw [BatchUsage.savedUsd]
      cases u.naiveCostUsd <;> cases u.actualCostUsd <;> simp
    refine Eq.trans ?_ (sumPriced_eq hsaved).symm
    rw [saved_sum]
    rfl

theorem sumPriced_single (cost : Option ℚ) : sumPriced [cost] = cost := by
  cases cost <;> simp [sumPriced, List.reduceOption]

theorem stored_single_iff {name : String} {t : Tally} :
    sumPriced ([measureModel (rows.map (·.1)) time count (name, t)].map (·.actualCostUsd)) =
        sumPriced ([measureModel (rows.map (·.1)) time count (name, t)].map storedCost) ↔
      ∀ price, latestModelPrice (rows.map (·.1)) name "openai" time = some price →
        ∃ n : ℤ, linearCost (billedRates price).1 (billedRates price).2 t = n / costQuantum := by
  have hrow : (measureModel (rows.map (·.1)) time count (name, t)).actualCostUsd =
      (latestModelPrice (rows.map (·.1)) name "openai" time).map (actualCost · t) := rfl
  have hleft : sumPriced ([measureModel (rows.map (·.1)) time count (name, t)].map
      (·.actualCostUsd)) = (measureModel (rows.map (·.1)) time count (name, t)).actualCostUsd :=
    sumPriced_single _
  have hright : sumPriced ([measureModel (rows.map (·.1)) time count (name, t)].map storedCost) =
      storedCost (measureModel (rows.map (·.1)) time count (name, t)) := sumPriced_single _
  rw [hleft, hright, storedCost, hrow]
  cases hprice : latestModelPrice (rows.map (·.1)) name "openai" time with
  | none => simp
  | some price =>
    obtain ⟨r, rfl⟩ := latest_mem hprice
    rw [Option.map_some, Option.map_some, actualCost_eq, Option.some.injEq, eq_comm,
      quantize_eq_self_iff]
    exact ⟨fun h price hp => Option.some.inj hp ▸ h, fun h => h _ rfl⟩

end Account

/-! ## Conservation -/

section Conservation

variable {loads : Text → Option Json} {rows : List CatalogRow} {time : ℚ} {output : Bytes}
  {requests : List Request} {booked : BatchTotals × List BatchUsage}

theorem mapM_modelName {byModel : ByModel} {named : List (String × Tally)}
    (h : byModel.mapM modelName = .ok named) :
    byModel = named.map fun m => (Json.str m.1, m.2) := by
  induction byModel generalizing named with
  | nil =>
    obtain rfl := Except.ok.inj h
    rfl
  | cons m byModel ih =>
    obtain ⟨u, us, hm, hms, rfl⟩ := Py.mapM_cons_ok h
    rw [List.map_cons, ← ih hms]
    obtain ⟨k, t⟩ := m
    cases k with
    | str name =>
      obtain rfl := Except.ok.inj hm
      rfl
    | _ => cases hm

theorem booked_eq (hrequests : metered loads output = .ok requests)
    (hbooked : measureOutput loads rows time output = .ok booked) :
    ∃ named : List (String × Tally),
      (requests.foldl addRequest ([], 0)).1 = named.map (fun m => (Json.str m.1, m.2)) ∧
        booked = measureAndRecord (rows.map (·.1)) named requests.length time := by
  rw [measureOutput, parseOutputUsage_eq, hrequests] at hbooked
  obtain ⟨parsed, hparsed, hbooked⟩ := Py.bind_eq_ok.1 hbooked
  obtain rfl := Except.ok.inj hparsed
  obtain ⟨named, hnamed, hbooked⟩ := Py.bind_eq_ok.1 hbooked
  obtain rfl := Except.ok.inj hbooked
  refine ⟨named, mapM_modelName hnamed, ?_⟩
  rw [foldl_count, Nat.zero_add]

theorem one_of_total {named : List (String × Tally)}
    (hkeys : (requests.foldl addRequest ([], 0)).1 = named.map fun m => (Json.str m.1, m.2))
    (h : ((named.map (measureModel (rows.map (·.1)) time requests.length)).map
      (·.requestCount)).sum = requests.length) :
    ∀ r ∈ requests, ∀ r' ∈ requests, r.1 = r'.1 := by
  intro r hr r' hr'
  have hcounts : (named.map (measureModel (rows.map (·.1)) time requests.length)).map
      (·.requestCount) = List.replicate named.length requests.length := by
    rw [List.map_map]
    exact List.map_const
  rw [hcounts, List.sum_replicate, smul_eq_mul] at h
  have hpos : 0 < requests.length := List.length_pos_of_mem hr
  have hone : named.length = 1 := Nat.eq_of_mul_eq_mul_right hpos (by rw [h, one_mul])
  obtain ⟨m, rfl⟩ := List.length_eq_one_iff.1 hone
  have hmem : ∀ x ∈ requests, x.1 = .str m.1 := by
    intro x hx
    have hkey : x.1 ∈ (requests.foldl addRequest ([], 0)).1.map (·.1) :=
      mem_keys_foldl.2 (.inl (List.mem_map_of_mem hx))
    rw [hkeys] at hkey
    exact List.mem_singleton.1 hkey
  rw [hmem r hr, hmem r' hr']

theorem conservative_iff (hrequests : metered loads output = .ok requests)
    (hbooked : measureOutput loads rows time output = .ok booked) :
    Conservative requests booked.1 booked.2 ↔ OneWholeCost rows time requests := by
  obtain ⟨named, hkeys, rfl⟩ := booked_eq hrequests hbooked
  have hsummed := summed rows named requests.length time
  -- With requests of one model there is one row, or none for no request.
  have hsingle : ∀ r ∈ requests, (∀ r' ∈ requests, ∀ r'' ∈ requests, r'.1 = r''.1) →
      ∃ name, r.1 = .str name ∧ named = [(name, total requests)] := by
    intro r hr hone
    rw [tallies_single (List.ne_nil_of_mem hr) fun r' hr' => hone r' hr' r hr] at hkeys
    obtain ⟨m, hm, hkey⟩ := List.map_eq_singleton_iff.1 hkeys.symm
    obtain ⟨hmodel, htally⟩ := Prod.mk.inj hkey
    exact ⟨m.1, hmodel.symm, by rw [hm, ← htally]⟩
  constructor
  · intro h
    have hone := one_of_total hkeys h.counts
    refine ⟨hone, fun r hr name hname => ?_⟩
    obtain ⟨name', hname', rfl⟩ := hsingle r hr hone
    obtain rfl : name' = name := Json.str.inj (hname'.symm.trans hname)
    exact stored_single_iff.1 (hsummed.actual.symm.trans h.actual)
  · rintro ⟨hone, hwhole⟩
    cases hreq : requests with
    | nil =>
      rw [hreq] at hkeys
      obtain rfl : named = [] := List.map_eq_nil_iff.1 hkeys.symm
      exact ⟨rfl, fun u hu => absurd hu List.not_mem_nil, rfl, rfl, rfl, rfl, rfl⟩
    | cons r rest =>
      have hr : r ∈ requests := hreq ▸ List.mem_cons_self
      obtain ⟨name, hname, rfl⟩ := hsingle r hr hone
      rw [← hreq]
      refine ⟨?_, fun u hu => ?_, hsummed.inputTokens, hsummed.outputTokens, ?_, hsummed.naive,
        hsummed.saved⟩
      · exact List.sum_singleton
      · obtain rfl := List.mem_singleton.1 hu
        have hall : requests.filter (·.1 = .str name) = requests :=
          List.filter_eq_self.2 fun r' hr' => decide_eq_true ((hone r' hr' r hr).trans hname)
        exact congrArg List.length hall.symm
      · exact hsummed.actual.trans (stored_single_iff.2 (hwhole r hr name hname))

/-- The models are texts. -/
def Named (requests : List Request) : Prop := ∀ r ∈ requests, ∃ name, r.1 = .str name

theorem mapM_modelName_of_named {byModel : ByModel} (h : ∀ m ∈ byModel, ∃ name, m.1 = .str name) :
    ∃ named, byModel.mapM modelName = .ok named := by
  induction byModel with
  | nil => exact ⟨[], rfl⟩
  | cons m byModel ih =>
    rw [List.forall_mem_cons] at h
    obtain ⟨⟨name, hname⟩, hrest⟩ := h
    obtain ⟨named, hnamed⟩ := ih hrest
    refine ⟨(name, m.2) :: named, ?_⟩
    rw [List.mapM_cons, modelName, hname, Py.bind_ok, hnamed]
    rfl

theorem booked_iff (hrequests : metered loads output = .ok requests) :
    (∃ booked, measureOutput loads rows time output = .ok booked) ↔ Named requests := by
  constructor
  · rintro ⟨booked, hbooked⟩ r hr
    obtain ⟨named, hkeys, -⟩ := booked_eq hrequests hbooked
    have hkey : r.1 ∈ (requests.foldl addRequest ([], 0)).1.map (·.1) :=
      mem_keys_foldl.2 (.inl (List.mem_map_of_mem hr))
    rw [hkeys, List.map_map] at hkey
    obtain ⟨m, -, hm⟩ := List.mem_map.1 hkey
    exact ⟨m.1, hm.symm⟩
  · intro hnamed
    have htexts : ∀ m ∈ (requests.foldl addRequest ([], 0)).1, ∃ name, m.1 = .str name := by
      intro m hm
      have hkey : m.1 ∈ (requests.foldl addRequest ([], 0)).1.map (·.1) := List.mem_map_of_mem hm
      obtain ⟨r, hr, hkey⟩ := List.mem_map.1 ((mem_keys_foldl.1 hkey).resolve_right
        List.not_mem_nil)
      rw [← hkey]
      exact hnamed r hr
    obtain ⟨named, hbooked⟩ := mapM_modelName_of_named htexts
    refine ⟨measureAndRecord (rows.map (·.1)) named (requests.foldl addRequest ([], 0)).2 time, ?_⟩
    rw [measureOutput, parseOutputUsage_eq, hrequests]
    change ((requests.foldl addRequest ([], 0)).1.mapM modelName >>= fun byModel => _) = _
    rw [hbooked]
    rfl

end Conservation

def outputRow (model : String) : Json :=
  .obj [("response", .obj [("body", .obj [("model", .str model),
    ("usage", .obj [("prompt_tokens", .int 100), ("completion_tokens", .int 10)])])])]

def twoModels (line : Text) : Option Json :=
  some (outputRow (if line = ['1'] then "gpt-4o" else "gpt-4o-mini"))

end Varsten.Proxy.BatchConservation
