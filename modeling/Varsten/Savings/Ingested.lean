import Varsten.Savings.Measurement

/-!
# Ingested rows

`POST /usage-events` stores the client's metadata as it came, in the column that the savings
queries read.
-/

namespace Varsten.Savings.Ingested

open Python (Json)
open Python.Decimals
open Pricing.Service
open Proxy.Ledger
open Proxy.Experiment
open Measurement

structure UsageEventCreate where
  provider : String
  model : String
  inputTokens : ℕ
  outputTokens : ℕ
  cachedInputTokens : ℕ
  costUsd : Option ℚ
  cost_nonneg : ∀ c ∈ costUsd, 0 ≤ c
  currency : String
  idempotencyKey : Option String
  metadata : List (String × Json)

def storedCost (c : ℚ) : ℚ := Python.Decimals.roundHalfUp (c * 10 ^ 8) / 10 ^ 8

def ingestedRow (prices : Prices) (p : UsageEventCreate) (receivedAt : ℚ) : UsageEvent :=
  let priced := priceUsageEvent prices p.model p.provider p.inputTokens p.outputTokens
    p.cachedInputTokens p.costUsd
  { source := "ingest"
    provider := p.provider
    model := p.model
    inputTokens := p.inputTokens
    outputTokens := p.outputTokens
    cachedInputTokens := p.cachedInputTokens
    costUsd := priced.costUsd.map storedCost
    costSource := priced.costSource
    pricingStatus := priced.pricingStatus
    metadata := p.metadata
    idempotencyKey := p.idempotencyKey
    receivedAt }

def isRetry (p : UsageEventCreate) (rows : List UsageEvent) : Bool :=
  p.idempotencyKey.isSome && rows.any fun e => e.idempotencyKey = p.idempotencyKey

/-- The rows of the project after the request: another currency is refused, a retry is answered
with the row that is there. -/
def createUsageEvent (prices : Prices) (p : UsageEventCreate) (receivedAt : ℚ)
    (rows : List UsageEvent) : List UsageEvent :=
  if p.currency.toUpper ≠ "USD" then rows
  else if isRetry p rows then rows
  else rows ++ [ingestedRow prices p receivedAt]

/-- A request, at the prices and the time it arrives. -/
structure Post where
  prices : Prices
  payload : UsageEventCreate
  receivedAt : ℚ

def ingest (posts : List Post) (rows : List UsageEvent) : List UsageEvent :=
  posts.foldl (fun rows p => createUsageEvent p.prices p.payload p.receivedAt rows) rows

variable {q : Queries} {routingLever : String} {rows : List UsageEvent} {w : Window}

/-! ## A row that nothing counts -/

open Classical in
theorem computeVerifiedSavings_append {e : UsageEvent} (h : Unread q e) :
    computeVerifiedSavings q routingLever (rows ++ [e]) w =
      computeVerifiedSavings q routingLever rows w := by
  let keep : UsageEvent → Bool := fun x => decide (¬ Unread q x)
  have hkeep : ∀ x, keep x = false → Unread q x := fun x hx => by
    simpa [keep] using hx
  have he : keep e = false := by simpa [keep] using h
  have hdrop : ∀ xs : List UsageEvent, computeVerifiedSavings q routingLever (xs.filter keep) w =
      computeVerifiedSavings q routingLever xs w := fun xs =>
    computeVerifiedSavings_filter fun x _ hx _ => hkeep x hx
  rw [← hdrop, List.filter_append, List.filter_cons_of_neg (by simp [he]), List.filter_nil,
    List.append_nil, hdrop]

theorem computeVerifiedSavings_ingest {posts : List Post}
    (h : ∀ p ∈ posts, p.payload.currency.toUpper = "USD" →
      Unread q (ingestedRow p.prices p.payload p.receivedAt)) :
    computeVerifiedSavings q routingLever (ingest posts rows) w =
      computeVerifiedSavings q routingLever rows w := by
  induction posts generalizing rows with
  | nil => rfl
  | cons p posts ih =>
    refine (ih fun x hx => h x (List.mem_cons_of_mem p hx)).trans ?_
    dsimp only
    unfold createUsageEvent
    split_ifs with hc
    · rfl
    · rfl
    · exact computeVerifiedSavings_append (h p List.mem_cons_self (not_not.1 hc))

/-! ## Sums over rows -/

theorem sum_mapM_append (f : UsageEvent → Option ℚ) (xs ys : List UsageEvent) :
    ((xs ++ ys).mapM f).map List.sum =
      ((xs.mapM f).map List.sum).bind fun a => ((ys.mapM f).map List.sum).map fun b => a + b := by
  induction xs with
  | nil =>
    rw [List.nil_append]
    cases ys.mapM f <;> simp
  | cons x xs ih =>
    rw [List.cons_append, sum_mapM_cons, sum_mapM_cons, ih]
    cases f x <;> cases xs.mapM f <;> cases ys.mapM f <;> simp [add_assoc]

theorem sumSaved_append {cond : UsageEvent → Bool} (xs ys : List UsageEvent) :
    sumSaved q (xs ++ ys) w cond =
      (sumSaved q xs w cond).bind fun a => (sumSaved q ys w cond).map fun b => a + b := by
  rw [sumSaved, List.filter_append, sum_mapM_append]
  rfl

theorem sumSaved_singleton {cond : UsageEvent → Bool} {e : UsageEvent} :
    sumSaved q [e] w cond = if records q w cond e then savedUsd q e else some 0 := by
  unfold sumSaved
  rw [List.filter_cons]
  split_ifs with h
  · rw [List.filter_nil, sum_mapM_cons]
    cases savedUsd q e <;> simp
  · rfl

theorem sumSaved_replicate {cond : UsageEvent → Bool} {e : UsageEvent} {s : ℚ}
    (h : sumSaved q [e] w cond = some s) (n : ℕ) :
    sumSaved q (List.replicate n e) w cond = some (n * s) := by
  induction n with
  | zero => simp [sumSaved]
  | succ n ih =>
    rw [List.replicate_succ', sumSaved_append, ih, h]
    simp [add_mul]

def directTotal (q : Queries) (rows : List UsageEvent) (w : Window) : Option ℚ := do
  let cache ← sumSaved q rows w (isCacheHit q)
  let batching ← sumSaved q rows w (isBatch q)
  let directRouting ← sumSaved q rows w (isDirectRouting q false)
  return cache + batching + directRouting

theorem sum_nonzero (levers : List (String × ℚ)) :
    ((levers.filter fun lever => lever.2 ≠ 0).map Prod.snd).sum = (levers.map Prod.snd).sum := by
  induction levers with
  | nil => rfl
  | cons lever levers ih =>
    rw [List.filter_cons]
    split_ifs with h
    · rw [List.map_cons, List.map_cons, List.sum_cons, List.sum_cons, ih]
    · have hzero : lever.2 = 0 := by simpa using h
      rw [ih, List.map_cons, List.sum_cons, hzero, zero_add]

theorem directMeasured_total (routingLever : String) :
    (directMeasuredByLever q routingLever rows w false).map (fun d => (d.map Prod.snd).sum) =
      directTotal q rows w := by
  unfold directMeasuredByLever directTotal
  cases sumSaved q rows w (isCacheHit q) with
  | none => rfl
  | some a =>
    cases sumSaved q rows w (isBatch q) with
    | none => rfl
    | some b =>
      cases sumSaved q rows w (isDirectRouting q false) with
      | none => rfl
      | some c =>
        simp only [Option.bind_eq_bind, Option.bind_some, Option.pure_def, Option.map_some,
          sum_nonzero]
        simp [add_assoc]

theorem directMeasuredUsd_eq :
    (computeVerifiedSavings q routingLever rows w).map (·.directMeasuredUsd) =
      (directTotal q rows w).map cents := by
  rw [← directMeasured_total routingLever, computeVerifiedSavings,
    Option.map_map, Option.map_map]
  rfl

theorem figure_eq {α : Type} {f : VerifiedSavings → α} {g : List UsageEvent → α}
    (hf : ∀ rows d, f (verifiedSavings d (holdbackMeasured q rows w)
      (optimizationOverheadCost q rows w)) = g rows)
    {xs ys : List UsageEvent} (hx : (directTotal q xs w).isSome = true)
    (h : computeVerifiedSavings q routingLever ys w = computeVerifiedSavings q routingLever xs w) :
    g ys = g xs := by
  rw [← directMeasured_total routingLever, Option.isSome_map] at hx
  obtain ⟨d, hd⟩ := Option.isSome_iff_exists.1 hx
  unfold computeVerifiedSavings at h
  rw [hd, Option.map_some, Option.map_eq_some_iff] at h
  obtain ⟨d', -, h⟩ := h
  rw [← hf ys d', h, hf]

/-! ## Ledgers that show a row -/

/-- A row of the gateway's at `time` with some metadata. -/
def baseRow (time : ℚ) (metadata : List (String × Json)) (cost : Option ℚ) : UsageEvent where
  source := "proxy"
  provider := "openai"
  model := "gpt-4o"
  inputTokens := 0
  outputTokens := 0
  cachedInputTokens := 0
  costUsd := cost
  costSource := "catalog"
  pricingStatus := "priced"
  metadata
  idempotencyKey := none
  receivedAt := time

/-- The window of the rows at `time`. -/
def instant (time : ℚ) : Window := ⟨time, some (time + 1)⟩

theorem instant_holds {time : ℚ} {e : UsageEvent} (h : e.receivedAt = time) :
    (instant time).holds e = true := by
  simp [Window.holds, instant, h]

theorem exists_multiple {round : ℚ → ℚ} (hr : ∀ a, |round a - a| ≤ 1) {x : ℚ} (hx : x ≠ 0) :
    ∃ m : ℕ, round (m * x) ≠ round (m * x + x) := by
  by_contra h
  push Not at h
  have hconst : ∀ m : ℕ, round (m * x) = round 0 := by
    intro m
    induction m with
    | zero => simp
    | succ m ih => rw [← ih, h m]; push_cast; ring_nf
  obtain ⟨m, hm⟩ := exists_nat_gt (3 / |x|)
  have hpos : 0 < |x| := abs_pos.2 hx
  have hbig : 3 < |(m : ℚ) * x| := by
    rw [abs_mul, Nat.abs_cast]
    exact (div_lt_iff₀ hpos).1 hm
  have h0 := abs_le.1 (hr 0)
  have hm' := abs_le.1 (hr (m * x))
  rw [hconst m] at hm'
  rcases lt_abs.1 hbig with hb | hb <;> linarith

theorem abs_cents_sub_le (a : ℚ) : |cents a - a| ≤ 1 :=
  abs_quantize_sub_le (by norm_num) a

def leverCount (q : Queries) (e : UsageEvent) : ℕ :=
  (isCacheHit q e).toNat + (isBatch q e).toNat + (isDirectRouting q false e).toNat

theorem directTotal_append {e : UsageEvent} {a s : ℚ} (ha : directTotal q rows w = some a)
    (hw : w.holds e = true) (ht : (astext q "saved_usd" e).isSome = true)
    (hs : savedUsd q e = some s) :
    directTotal q (rows ++ [e]) w = some (a + leverCount q e * s) := by
  have hone : ∀ cond : UsageEvent → Bool, sumSaved q [e] w cond = some ((cond e).toNat * s) := by
    intro cond
    rw [sumSaved_singleton]
    simp only [records, hw, ht, Bool.true_and, hs]
    cases cond e <;> simp
  unfold directTotal at ha ⊢
  simp only [Option.bind_eq_bind, Option.bind_eq_some_iff, Option.pure_def,
    Option.some.injEq] at ha
  obtain ⟨x, hx, y, hy, z, hz, rfl⟩ := ha
  simp only [sumSaved_append, hone, hx, hy, hz, Option.bind_some, Option.map_some,
    Option.bind_eq_bind, Option.pure_def, Option.some.injEq, leverCount]
  push_cast
  ring

theorem directTotal_of_unsaved (h : ∀ e ∈ rows, astext q "saved_usd" e = none) :
    directTotal q rows w = some 0 := by
  have hsum : ∀ cond : UsageEvent → Bool, sumSaved q rows w cond = some 0 := by
    intro cond
    have hnil : rows.filter (records q w cond) = [] :=
      List.filter_eq_nil_iff.2 fun e he => by simp [records, h e he]
    rw [sumSaved, hnil]
    rfl
  simp [directTotal, hsum]

theorem directTotal_raises {e : UsageEvent} (hw : w.holds e = true)
    (hd : recordsDirect q e = true) (hs : savedUsd q e = none) : directTotal q [e] w = none := by
  simp only [recordsDirect, Bool.and_eq_true, Bool.or_eq_true] at hd
  obtain ⟨ht, hlever⟩ := hd
  have hraise : ∀ cond : UsageEvent → Bool, cond e = true → sumSaved q [e] w cond = none := by
    intro cond hc
    rw [sumSaved_singleton, if_pos (by simp [records, hw, ht, hc]), hs]
  unfold directTotal
  rcases hlever with (hl | hl) | hl
  · rw [hraise _ hl]
    rfl
  · rw [hraise _ hl]
    cases sumSaved q [e] w (isCacheHit q) <;> rfl
  · rw [hraise _ hl]
    cases sumSaved q [e] w (isCacheHit q) <;> cases sumSaved q [e] w (isBatch q) <;> rfl

theorem leverCount_ne_zero {e : UsageEvent} (hd : recordsDirect q e = true) :
    leverCount q e ≠ 0 := by
  simp only [recordsDirect, Bool.and_eq_true, Bool.or_eq_true] at hd
  rcases hd.2 with (hl | hl) | hl <;> simp [leverCount, hl]

def hitRow (time : ℚ) (text : String) : UsageEvent :=
  baseRow time [("cache", .str "hit"), ("saved_usd", .str text)] (some 0)

theorem directTotal_hitRows (time : ℚ) {s : ℚ} {text : String} (hs : q.numeric text = some s)
    (n : ℕ) :
    directTotal q (List.replicate n (hitRow time text)) (instant time) = some (n * s) := by
  have hw : (instant time).holds (hitRow time text) = true := instant_holds rfl
  have hsaved : astext q "saved_usd" (hitRow time text) = some text := rfl
  have hone : ∀ cond : UsageEvent → Bool, sumSaved q [hitRow time text] (instant time) cond =
      some ((cond (hitRow time text)).toNat * s) := by
    intro cond
    rw [sumSaved_singleton, records, hw, hsaved, savedUsd, hsaved, Option.bind_some, hs]
    cases cond (hitRow time text) <;> simp
  have hhit : isCacheHit q (hitRow time text) = true := rfl
  have hbatch : isBatch q (hitRow time text) = false := rfl
  have hrouted : isDirectRouting q false (hitRow time text) = false := rfl
  simp only [directTotal, sumSaved_replicate (hone _), hhit, hbatch, hrouted]
  simp

/-- A row with a saving that does not cast to zero changes the direct sum of some ledger. -/
theorem direct_visible {e : UsageEvent} (hd : recordsDirect q e = true)
    (hs : savedUsd q e ≠ some 0) : ∃ rows : List UsageEvent,
      (∀ r ∈ rows, r.idempotencyKey = none) ∧
      computeVerifiedSavings q routingLever (rows ++ [e]) (instant e.receivedAt) ≠
        computeVerifiedSavings q routingLever rows (instant e.receivedAt) := by
  have hw : (instant e.receivedAt).holds e = true := instant_holds rfl
  have ht : (astext q "saved_usd" e).isSome = true := (Bool.and_eq_true_iff.1 hd).1
  cases hv : savedUsd q e with
  | none =>
    refine ⟨[], by simp, fun h => ?_⟩
    have hfig := congrArg (Option.map (·.directMeasuredUsd)) h
    rw [directMeasuredUsd_eq, directMeasuredUsd_eq, List.nil_append, directTotal_raises hw hd hv,
      directTotal_of_unsaved fun r hr => absurd hr List.not_mem_nil] at hfig
    exact absurd hfig (by simp)
  | some s =>
    have hs0 : (leverCount q e : ℚ) * s ≠ 0 :=
      mul_ne_zero (Nat.cast_ne_zero.2 (leverCount_ne_zero hd)) fun h0 => hs (by rw [hv, h0])
    obtain ⟨text, htext⟩ := Option.isSome_iff_exists.1 ht
    have hnum : q.numeric text = some s := by rwa [savedUsd, htext] at hv
    obtain ⟨m, hm⟩ := exists_multiple abs_cents_sub_le hs0
    refine ⟨List.replicate (m * leverCount q e) (hitRow e.receivedAt text), fun r hr => ?_,
      fun h => hm ?_⟩
    · rw [List.eq_of_mem_replicate hr]
      rfl
    · have hbase := directTotal_hitRows e.receivedAt hnum (m * leverCount q e)
      have hfig := congrArg (Option.map (·.directMeasuredUsd)) h
      rw [directMeasuredUsd_eq, directMeasuredUsd_eq, directTotal_append hbase hw ht hv, hbase,
        Option.map_some, Option.map_some, Option.some.injEq] at hfig
      rw [Nat.cast_mul, mul_assoc] at hfig
      exact hfig.symm

/-! ### Overhead -/

def overheadRow (time : ℚ) (tag : String) (cost : ℚ) : UsageEvent :=
  baseRow time [("overhead", .str tag)] (some cost)

theorem overheadCost_append (xs ys : List UsageEvent) :
    optimizationOverheadCost q (xs ++ ys) w =
      optimizationOverheadCost q xs w + optimizationOverheadCost q ys w := by
  simp [optimizationOverheadCost]

theorem overheadCost_singleton {e : UsageEvent} {x : ℚ} (hw : w.holds e = true)
    (ho : isOverhead q e = true) (hc : e.costUsd = some x) :
    optimizationOverheadCost q [e] w = x := by
  simp [optimizationOverheadCost, hw, ho, hc]

theorem overheadCost_replicate {e : UsageEvent} {x : ℚ}
    (h : optimizationOverheadCost q [e] w = x) (n : ℕ) :
    optimizationOverheadCost q (List.replicate n e) w = n * x := by
  induction n with
  | zero => simp [optimizationOverheadCost]
  | succ n ih =>
    rw [List.replicate_succ', overheadCost_append, ih, h]
    push_cast
    ring

theorem overhead_visible {e : UsageEvent} (ho : isOverhead q e = true)
    (hc : e.costUsd.getD 0 ≠ 0) : ∃ rows : List UsageEvent,
      (∀ r ∈ rows, r.idempotencyKey = none) ∧
      computeVerifiedSavings q routingLever (rows ++ [e]) (instant e.receivedAt) ≠
        computeVerifiedSavings q routingLever rows (instant e.receivedAt) := by
  obtain ⟨tag, htag, hmem⟩ : ∃ tag, astext q "overhead" e = some tag ∧ tag ∈ overheadTags := by
    simpa [isOverhead, Option.any_eq_true] using ho
  obtain ⟨x, hx⟩ : ∃ x, e.costUsd = some x := by
    cases hcost : e.costUsd with
    | none => simp [hcost] at hc
    | some x => exact ⟨x, rfl⟩
  rw [hx, Option.getD_some] at hc
  obtain ⟨m, hm⟩ := exists_multiple abs_cents_sub_le hc
  have htagged : isOverhead q (overheadRow e.receivedAt tag x) = true := by
    change (some tag).any (· ∈ overheadTags) = true
    simpa using hmem
  have hone : optimizationOverheadCost q [overheadRow e.receivedAt tag x]
      (instant e.receivedAt) = x := overheadCost_singleton (instant_holds rfl) htagged rfl
  have hcost := overheadCost_replicate hone m
  refine ⟨List.replicate m (overheadRow e.receivedAt tag x), fun r hr => ?_, fun h => hm ?_⟩
  · rw [List.eq_of_mem_replicate hr]
    rfl
  · have hunsaved : directTotal q (List.replicate m (overheadRow e.receivedAt tag x))
        (instant e.receivedAt) = some 0 := directTotal_of_unsaved fun r hr => by
      rw [List.eq_of_mem_replicate hr]
      rfl
    have hfig := figure_eq (f := (·.optimizationOverheadCostUsd))
      (g := fun rows => cents (optimizationOverheadCost q rows (instant e.receivedAt)))
      (fun _ _ => rfl) (by rw [hunsaved]; rfl) h
    rw [overheadCost_append, hcost, overheadCost_singleton (instant_holds rfl) ho hx] at hfig
    exact hfig.symm

/-! ### Arms -/

def armBase (time : ℚ) (pair : String × String) (arm : String) (cost : ℚ) : UsageEvent :=
  baseRow time [("holdback", .bool true), ("arm", .str arm), ("experiment_from", .str pair.1),
    ("experiment_to", .str pair.2)] (some cost)

theorem sum_single {f : ExperimentResult → Option ℚ}
    (hf : ∀ r, r.measuredSavingsUsd = none → f r = none) {pair : String × String}
    (hp : pair.1 ≠ "" ∧ pair.2 ≠ "") (h : ∀ e ∈ rows, pairOf q e = some pair) :
    (((experimentPairs q rows w).map (computeExperiment q rows w)).filterMap f).sum =
      (f (computeExperiment q rows w pair)).getD 0 := by
  rw [sum_results]
  refine Finset.sum_eq_single pair (fun p hmem hne => ?_) fun hmem => ?_
  · obtain ⟨e, he, -, -, hpair⟩ := mem_experimentPairs.1 (List.mem_toFinset.1 hmem)
    rw [h e he, Option.some.injEq] at hpair
    exact absurd hpair.symm hne
  · rw [hf _ (computeExperiment_unmeasured hp fun hin => hmem (List.mem_toFinset.2 hin)),
      Option.getD_none]

section Arms

variable {time c : ℚ} {pair : String × String} {e : UsageEvent}

/-- One control row of cost `c` and one treatment row of cost zero. -/
def armPair (time : ℚ) (pair : String × String) (c : ℚ) : List UsageEvent :=
  [armBase time pair armControl c, armBase time pair armTreatment 0]

theorem armBase_pairOf (hp : pair.1 ≠ "" ∧ pair.2 ≠ "") (arm : String) (cost : ℚ) :
    pairOf q (armBase time pair arm cost) = some pair :=
  pairOf_eq_some.2 ⟨⟨rfl, hp.1⟩, rfl, hp.2⟩

theorem armBase_counted (arm : String) (cost : ℚ) :
    ((instant time).holds (armBase time pair arm cost) &&
      inPair q pair (armBase time pair arm cost)) = true := by
  have hw : (instant time).holds (armBase time pair arm cost) = true := instant_holds rfl
  rw [hw, Bool.true_and]
  simp [inPair, isHoldback, astext, armBase, baseRow, Json.item, itemText]

theorem armOf_pair (hne : armControl ≠ armTreatment) :
    armOf q armControl (armPair time pair c) = ⟨1, some c, none⟩ ∧
      armOf q armTreatment (armPair time pair c) = ⟨1, some 0, none⟩ := by
  have hc : astext q "arm" (armBase time pair armControl c) = some armControl := rfl
  have ht : astext q "arm" (armBase time pair armTreatment 0) = some armTreatment := rfl
  have hcc : (armBase time pair armControl c).costUsd = some c := rfl
  have htc : (armBase time pair armTreatment 0).costUsd = some 0 := rfl
  constructor
  · simp [armOf, armPair, hc, ht, hcc, mean, varSamp, hne.symm]
  · simp [armOf, armPair, hc, ht, htc, mean, varSamp, hne]

/-- Where every row is counted for the pair, the experiment compares the arms of all rows. -/
theorem computeExperiment_all (h : ∀ r ∈ rows, (w.holds r && inPair q pair r) = true) :
    computeExperiment q rows w pair =
      compareArms q pair (armOf q armControl rows) (armOf q armTreatment rows) := by
  rw [computeExperiment, List.filter_eq_self.2 h]

theorem armPair_counted (hp : pair.1 ≠ "" ∧ pair.2 ≠ "") (he : pairOf q e = some pair)
    (hh : isHoldback q e = true) :
    ∀ r ∈ armPair e.receivedAt pair c ++ [e],
      ((instant e.receivedAt).holds r && inPair q pair r) = true ∧ pairOf q r = some pair := by
  intro r hr
  simp only [armPair, List.cons_append, List.nil_append, List.mem_cons, List.not_mem_nil,
    or_false] at hr
  rcases hr with rfl | rfl | rfl
  · exact ⟨armBase_counted _ _, armBase_pairOf hp _ _⟩
  · exact ⟨armBase_counted _ _, armBase_pairOf hp _ _⟩
  · have hin := pairOf_eq_some.1 he
    refine ⟨?_, he⟩
    rw [instant_holds rfl]
    simp [inPair, hh, hin.1.1, hin.2.1]

theorem treatment_arms (time c : ℚ) (pair : String × String) (hne : armControl ≠ armTreatment)
    (ha : astext q "arm" e = some armTreatment) :
    armOf q armControl (armPair time pair c ++ [e]) = ⟨1, some c, none⟩ ∧
      ∃ m, (armOf q armTreatment (armPair time pair c ++ [e])).mean = some m ∧
        m * 2 = e.costUsd.getD 0 ∧ (armOf q armTreatment (armPair time pair c ++ [e])).n = 2 := by
  have hc : astext q "arm" (armBase time pair armControl c) = some armControl := rfl
  have ht : astext q "arm" (armBase time pair armTreatment 0) = some armTreatment := rfl
  have hcc : (armBase time pair armControl c).costUsd = some c := rfl
  have htc : (armBase time pair armTreatment 0).costUsd = some 0 := rfl
  refine ⟨by simp [armOf, armPair, hc, ht, ha, hcc, mean, varSamp, hne.symm], ?_⟩
  cases hx : e.costUsd with
  | none => exact ⟨0, by simp [armOf, armPair, hc, ht, ha, hne, htc, hx, mean]⟩
  | some x =>
    refine ⟨x / 2, by simp [armOf, armPair, hc, ht, ha, hne, htc, hx, mean], ?_, ?_⟩
    · rw [Option.getD_some]
      ring
    · simp [armOf, armPair, hc, ht, ha, hne]

theorem control_arms (time c : ℚ) (pair : String × String) (hne : armControl ≠ armTreatment)
    (ha : astext q "arm" e = some armControl) :
    armOf q armTreatment (armPair time pair c ++ [e]) = ⟨1, some 0, none⟩ ∧
      ∃ m, (armOf q armControl (armPair time pair c ++ [e])).mean = some m ∧
        m * 2 = c + e.costUsd.getD c ∧ (armOf q armControl (armPair time pair c ++ [e])).n = 2 := by
  have hc : astext q "arm" (armBase time pair armControl c) = some armControl := rfl
  have ht : astext q "arm" (armBase time pair armTreatment 0) = some armTreatment := rfl
  have hcc : (armBase time pair armControl c).costUsd = some c := rfl
  have htc : (armBase time pair armTreatment 0).costUsd = some 0 := rfl
  refine ⟨by simp [armOf, armPair, hc, ht, ha, htc, mean, varSamp, hne], ?_⟩
  cases hx : e.costUsd with
  | none =>
    refine ⟨c, by simp [armOf, armPair, hc, ht, ha, hne.symm, hcc, hx, mean], ?_, ?_⟩
    · rw [Option.getD_none]
      ring
    · simp [armOf, armPair, hc, ht, ha, hne.symm]
  | some x =>
    refine ⟨(c + x) / 2, by simp [armOf, armPair, hc, ht, ha, hne.symm, hcc, hx, mean], ?_, ?_⟩
    · rw [Option.getD_some]
      ring
    · simp [armOf, armPair, hc, ht, ha, hne.symm]

theorem abs_sub_le_of_cents {a b : ℚ} (h : cents (eightDigits a) = cents (eightDigits b)) :
    |a - b| ≤ 4 := by
  have ha := abs_le.1 (abs_quantize_sub_le (show (10 ^ 8 : ℕ) ≠ 0 by norm_num) a)
  have hb := abs_le.1 (abs_quantize_sub_le (show (10 ^ 8 : ℕ) ≠ 0 by norm_num) b)
  have hca := abs_le.1 (abs_cents_sub_le (eightDigits a))
  have hcb := abs_le.1 (abs_cents_sub_le (eightDigits b))
  change -1 ≤ eightDigits a - a ∧ eightDigits a - a ≤ 1 at ha
  change -1 ≤ eightDigits b - b ∧ eightDigits b - b ≤ 1 at hb
  rw [h] at hca
  exact abs_le.2 ⟨by linarith, by linarith⟩

theorem holdbackTotal_all (hp : pair.1 ≠ "" ∧ pair.2 ≠ "")
    (h : ∀ r ∈ rows, (w.holds r && inPair q pair r) = true ∧ pairOf q r = some pair) :
    (holdbackMeasured q rows w).totalUsd = ((compareArms q pair (armOf q armControl rows)
      (armOf q armTreatment rows)).measuredSavingsUsd).getD 0 := by
  rw [← computeExperiment_all fun r hr => (h r hr).1]
  exact sum_single (fun _ hr => hr) hp fun r hr => (h r hr).2

theorem measurementCost_all (hp : pair.1 ≠ "" ∧ pair.2 ≠ "")
    (h : ∀ r ∈ rows, (w.holds r && inPair q pair r) = true ∧ pairOf q r = some pair) :
    (holdbackMeasured q rows w).measurementCostUsd = (measurementCost (compareArms q pair
      (armOf q armControl rows) (armOf q armTreatment rows))).getD 0 := by
  rw [← computeExperiment_all fun r hr => (h r hr).1]
  exact sum_single (fun _ hr => by simp [measurementCost, hr]) hp fun r hr => (h r hr).2

theorem measurementCost_compare {control treatment : Arm} (hc : control.mean = some 100)
    (ht : treatment.mean = some 0) :
    measurementCost (compareArms q pair control treatment) =
      some ((100 * control.n : ℤ) : ℚ) := by
  have hrate : eightDigits 100 = 100 := eightDigits_intCast 100
  simp [measurementCost, compareArms, hc, ht, hrate]

theorem armPair_unsaved : directTotal q (armPair time pair c) w = some 0 := by
  refine directTotal_of_unsaved fun r hr => ?_
  simp only [armPair, List.mem_cons, List.not_mem_nil, or_false] at hr
  rcases hr with rfl | rfl <;> rfl

theorem arm_visible (ha : isArmRow q e = true) : ∃ rows : List UsageEvent,
      (∀ r ∈ rows, r.idempotencyKey = none) ∧
      computeVerifiedSavings q routingLever (rows ++ [e]) (instant e.receivedAt) ≠
        computeVerifiedSavings q routingLever rows (instant e.receivedAt) := by
  simp only [isArmRow, Bool.and_eq_true, Bool.or_eq_true, decide_eq_true_eq] at ha
  obtain ⟨⟨hh, hpair⟩, harm⟩ := ha
  obtain ⟨pair, hpair⟩ := Option.isSome_iff_exists.1 hpair
  have hp : pair.1 ≠ "" ∧ pair.2 ≠ "" :=
    ⟨(pairOf_eq_some.1 hpair).1.2, (pairOf_eq_some.1 hpair).2.2⟩
  have hne : armControl ≠ armTreatment := by decide
  have hkeys : ∀ c, ∀ r ∈ armPair e.receivedAt pair c, r.idempotencyKey = none := by
    intro c r hr
    simp only [armPair, List.mem_cons, List.not_mem_nil, or_false] at hr
    rcases hr with rfl | rfl <;> rfl
  have hafter := fun c => armPair_counted (c := c) hp hpair hh
  have hbefore := fun c r hr => hafter c r (List.mem_append_left _ hr)
  have hold : ∀ c, (holdbackMeasured q (armPair e.receivedAt pair c)
      (instant e.receivedAt)).totalUsd = eightDigits c := by
    intro c
    rw [holdbackTotal_all hp (hbefore c), (armOf_pair hne).1, (armOf_pair hne).2,
      compareArms_measured rfl rfl]
    simp
  have hfigure : ∀ c, computeVerifiedSavings q routingLever
      (armPair e.receivedAt pair c ++ [e]) (instant e.receivedAt) =
        computeVerifiedSavings q routingLever (armPair e.receivedAt pair c)
          (instant e.receivedAt) →
      cents (holdbackMeasured q (armPair e.receivedAt pair c ++ [e])
        (instant e.receivedAt)).totalUsd = cents (eightDigits c) := by
    intro c h
    rw [← hold c]
    exact figure_eq (f := (·.holdbackMeasuredUsd))
      (g := fun rows => cents (holdbackMeasured q rows (instant e.receivedAt)).totalUsd)
      (fun _ _ => rfl) (by rw [armPair_unsaved]; rfl) h
  rcases harm with harm | harm
  · cases hx : e.costUsd with
    | none =>
      refine ⟨armPair e.receivedAt pair 100, hkeys 100, fun h => ?_⟩
      obtain ⟨ht, m, hm, hm2, hn⟩ := control_arms e.receivedAt 100 pair hne harm
      have hm100 : m = 100 := by rw [hx, Option.getD_none] at hm2; linarith
      have hfig := figure_eq (f := (·.measurementCostUsd))
        (g := fun rows => cents (holdbackMeasured q rows (instant e.receivedAt)).measurementCostUsd)
        (fun _ _ => rfl) (by rw [armPair_unsaved]; rfl) h
      rw [measurementCost_all hp (hafter 100), measurementCost_all hp (hbefore 100), ht,
        (armOf_pair hne).1, (armOf_pair hne).2, measurementCost_compare (hm.trans (by rw [hm100])) rfl,
        measurementCost_compare rfl rfl, Option.getD_some, Option.getD_some, cents_intCast,
        cents_intCast, hn] at hfig
      norm_num at hfig
    | some x =>
      refine ⟨armPair e.receivedAt pair (x + 100), hkeys _, fun h => ?_⟩
      obtain ⟨ht, m, hm, hm2, -⟩ := control_arms e.receivedAt (x + 100) pair hne harm
      have hfig := hfigure _ h
      rw [holdbackTotal_all hp (hafter _), ht, compareArms_measured hm rfl, Option.getD_some] at hfig
      have hdiff := abs_le.1 (abs_sub_le_of_cents hfig)
      rw [hx, Option.getD_some] at hm2
      norm_num at hdiff
      linarith
  · refine ⟨armPair e.receivedAt pair (e.costUsd.getD 0 + 100), hkeys _, fun h => ?_⟩
    obtain ⟨hc, m, hm, hm2, hn⟩ :=
      treatment_arms e.receivedAt (e.costUsd.getD 0 + 100) pair hne harm
    have hfig := hfigure _ h
    rw [holdbackTotal_all hp (hafter _), hc, compareArms_measured rfl hm, Option.getD_some,
      hn] at hfig
    have hdiff := abs_le.1 (abs_sub_le_of_cents hfig)
    push_cast at hdiff
    linarith

end Arms

/-! ## Which payloads leave the savings alone -/

theorem visible (routingLever : String) {e : UsageEvent} (h : ¬ Unread q e) : ∃ rows : List UsageEvent,
      (∀ r ∈ rows, r.idempotencyKey = none) ∧
      computeVerifiedSavings q routingLever (rows ++ [e]) (instant e.receivedAt) ≠
        computeVerifiedSavings q routingLever rows (instant e.receivedAt) := by
  by_contra hall
  refine h ⟨fun hd => ?_, ?_, fun ho => ?_⟩
  · by_contra hs
    exact hall (direct_visible hd hs)
  · by_contra ha
    exact hall (arm_visible (Bool.not_eq_false _ ▸ ha))
  · by_contra hc
    exact hall (overhead_visible ho hc)

/-- Requests of a kind leave the savings of every ledger and window alone exactly when no query
counts the row of one that is accepted. -/
theorem ingestion_inert_iff (kind : UsageEventCreate → Prop) :
    (∀ posts : List Post, (∀ p ∈ posts, kind p.payload) → ∀ rows w,
      computeVerifiedSavings q routingLever (ingest posts rows) w =
        computeVerifiedSavings q routingLever rows w) ↔
    ∀ p : Post, kind p.payload → p.payload.currency.toUpper = "USD" →
      Unread q (ingestedRow p.prices p.payload p.receivedAt) := by
  constructor
  · intro h p hp hc
    by_contra hread
    obtain ⟨rows, hkeys, hne⟩ := visible routingLever hread
    have hretry : isRetry p.payload rows = false := by
      rw [isRetry, Bool.and_eq_false_iff]
      cases hk : p.payload.idempotencyKey with
      | none => exact .inl rfl
      | some key =>
        refine .inr (List.any_eq_false.2 fun r hr => ?_)
        simp [hkeys r hr]
    have hrow : ingest [p] rows = rows ++ [ingestedRow p.prices p.payload p.receivedAt] := by
      simp [ingest, createUsageEvent, hc, hretry]
    refine hne ?_
    rw [← hrow]
    exact h [p] (by simpa using hp) rows _
  · intro h posts hposts rows w
    exact computeVerifiedSavings_ingest fun p hp => h p (hposts p hp)

def forgedHit : UsageEventCreate where
  provider := "openai"
  model := "gpt-4o"
  inputTokens := 0
  outputTokens := 0
  cachedInputTokens := 0
  costUsd := none
  cost_nonneg := by simp
  currency := "USD"
  idempotencyKey := none
  metadata := [("cache", .str "hit"), ("saved_usd", .str "1000000")]

def millionQueries : Queries :=
  ⟨fun _ => "", fun text => if text = "1000000" then some 1000000 else none,
    fun _ _ _ _ _ _ => none⟩

/-- The forged hit is billed as a million dollars of verified savings. -/
theorem forged_hit_billed :
    (computeVerifiedSavings millionQueries "smart_routing"
        (ingest [⟨fun _ _ => none, forgedHit, 0⟩] []) ⟨-1, some 1⟩).map
          (·.verifiedSavingsUsd) = some 1000000 ∧
      (computeVerifiedSavings millionQueries "smart_routing" [] ⟨-1, some 1⟩).map
        (·.verifiedSavingsUsd) = some 0 :=
  ⟨by decide +kernel, by decide +kernel⟩

end Varsten.Savings.Ingested
