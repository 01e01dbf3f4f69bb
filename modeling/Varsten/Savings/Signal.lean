import Varsten.Savings.Classes

/-!
# Experiments without signal

A pair has signal when both arms have enough samples. What a pair without signal adds to the
verified savings.
-/

namespace Varsten.Savings.Signal

open Python.Decimals
open Python.Utf8 (Text)
open Proxy.Ledger
open Proxy.Experiment
open Savings.Measurement
open Savings.Classes (Entry inClass)
open Savings.Unpriced (armUsage plainQueries pricedRow)

/-! ## What rounds to nothing -/

theorem roundHalfEven_eq_zero_iff {x : ℚ} : roundHalfEven x = 0 ↔ |x| ≤ 1 / 2 := by
  have hle := Int.floor_le x
  have hlt := Int.lt_floor_add_one x
  rw [abs_le]
  unfold roundHalfEven
  dsimp only
  constructor
  · intro h
    split_ifs at h with h1 h2 h3
    · rw [h, Int.cast_zero] at h1 hle
      exact ⟨by linarith, by linarith⟩
    · have hfloor : ((⌊x⌋ : ℤ) : ℚ) = -1 := by exact_mod_cast eq_neg_of_add_eq_zero_left h
      rw [hfloor] at h2 hlt
      exact ⟨by linarith, by linarith⟩
    · rw [h, Int.cast_zero] at h1 h2
      exact ⟨by linarith, by linarith⟩
    · have hfloor : ((⌊x⌋ : ℤ) : ℚ) = -1 := by exact_mod_cast eq_neg_of_add_eq_zero_left h
      rw [hfloor] at h1 h2
      exact ⟨by linarith, by linarith⟩
  · rintro ⟨hlo, hhi⟩
    rcases lt_or_ge x 0 with hx | hx
    · have hfloor : ⌊x⌋ = -1 := by
        rw [Int.floor_eq_iff]
        push_cast
        exact ⟨by linarith, by linarith⟩
      rw [hfloor] at hle hlt ⊢
      push_cast at hle hlt ⊢
      split_ifs with h1 h2
      · linarith
      · rfl
      · rfl
    · have hfloor : ⌊x⌋ = 0 := by
        rw [Int.floor_eq_iff]
        push_cast
        exact ⟨by linarith, by linarith⟩
      rw [hfloor]
      push_cast
      split_ifs with h1 h2
      · rfl
      · linarith
      · rfl

def halfDigit : ℚ := 1 / (2 * 10 ^ 8)

theorem eightDigits_eq_zero_iff {x : ℚ} : eightDigits x = 0 ↔ |x| ≤ halfDigit := by
  have hscale : |x * (10 ^ 8 : ℕ)| = |x| * 10 ^ 8 := by
    rw [abs_mul, Nat.abs_cast]
    norm_num
  rw [eightDigits, quantize, div_eq_zero_iff, or_iff_left (by norm_num), Int.cast_eq_zero,
    roundHalfEven_eq_zero_iff, hscale, halfDigit, le_div_iff₀ (by norm_num)]
  constructor
  · intro h
    linarith
  · intro h
    linarith

/-! ## The contribution of a pair -/

structure NoContribution (r : ExperimentResult) : Prop where
  total : r.measuredSavingsUsd.getD 0 = 0
  ciLow : (boundOr r.measuredSavingsCiLowUsd r).getD 0 = 0
  ciHigh : (boundOr r.measuredSavingsCiHighUsd r).getD 0 = 0
  cost : (measurementCost r).getD 0 = 0

/-- Where both arms have a mean cost, neither their difference over the treatment nor a bound of
it makes half a digit. -/
structure Level (q : Queries) (control treatment : Arm) : Prop where
  point : ∀ a ∈ control.mean, ∀ b ∈ treatment.mean, |(a - b) * treatment.n| ≤ halfDigit
  bounds : ∀ a ∈ control.mean, ∀ b ∈ treatment.mean, ∀ ci ∈ q.confidence control.n a control.var
    treatment.n b treatment.var, |ci.1 * treatment.n| ≤ halfDigit ∧ |ci.2 * treatment.n| ≤ halfDigit

variable {q : Queries}

theorem noContribution_of_unmeasured {r : ExperimentResult} (h : r.measuredSavingsUsd = none) :
    NoContribution r := by
  refine ⟨?_, ?_, ?_, ?_⟩
  · simp [h]
  · simp [boundOr, h]
  · simp [boundOr, h]
  · simp [measurementCost, h]

/-- A difference that makes no half digit over the treatment makes none on one request. -/
theorem level_cost {a b : ℚ} {n : ℕ} (hn : 0 < n) (h : |(a - b) * n| ≤ halfDigit) (m : ℕ) :
    max (eightDigits (a - b)) 0 * m = 0 := by
  have hone : (1 : ℚ) ≤ n := by exact_mod_cast hn
  have hle : |a - b| ≤ |(a - b) * n| := by
    rw [abs_mul, Nat.abs_cast]
    exact le_mul_of_one_le_right (abs_nonneg _) hone
  rw [eightDigits_eq_zero_iff.2 (hle.trans h), max_self, zero_mul]

theorem noContribution_iff {pair : String × String} {c t : Arm} (ht : t.mean ≠ none → 0 < t.n) :
    NoContribution (compareArms q pair c t) ↔ Level q c t := by
  cases hc : c.mean with
  | none =>
    refine iff_of_true (noContribution_of_unmeasured (compareArms_unmeasured (.inl hc))) ⟨?_, ?_⟩
    · simp [hc]
    · simp [hc]
  | some a =>
    cases hb : t.mean with
    | none =>
      refine iff_of_true (noContribution_of_unmeasured (compareArms_unmeasured (.inr hb))) ⟨?_, ?_⟩
      · simp [hb]
      · simp [hb]
    | some b =>
      have hn : 0 < t.n := ht (by simp [hb])
      have hm : (compareArms q pair c t).measuredSavingsUsd = some (eightDigits ((a - b) * t.n)) :=
        compareArms_measured hc hb
      have hcost : measurementCost (compareArms q pair c t) =
          some (max (eightDigits (a - b)) 0 * c.n) := by
        rw [measurementCost, hm]
        simp [compareArms, hc, hb]
      have hlow : (boundOr (compareArms q pair c t).measuredSavingsCiLowUsd
          (compareArms q pair c t)).getD 0 =
            ((q.confidence c.n a c.var t.n b t.var).map fun ci => eightDigits (ci.1 * t.n)).getD
              (eightDigits ((a - b) * t.n)) := by
        rw [boundOr, hm]
        simp [compareArms, hc, hb]
      have hhigh : (boundOr (compareArms q pair c t).measuredSavingsCiHighUsd
          (compareArms q pair c t)).getD 0 =
            ((q.confidence c.n a c.var t.n b t.var).map fun ci => eightDigits (ci.2 * t.n)).getD
              (eightDigits ((a - b) * t.n)) := by
        rw [boundOr, hm]
        simp [compareArms, hc, hb]
      constructor
      · rintro ⟨h1, h2, h3, -⟩
        rw [hlow] at h2
        rw [hhigh] at h3
        refine ⟨?_, ?_⟩
        · rintro a' ha b' hb'
          obtain rfl := Option.some.inj (hc.symm.trans ha)
          obtain rfl := Option.some.inj (hb.symm.trans hb')
          rwa [hm, Option.getD_some, eightDigits_eq_zero_iff] at h1
        · rintro a' ha b' hb' ci hci
          obtain rfl := Option.some.inj (hc.symm.trans ha)
          obtain rfl := Option.some.inj (hb.symm.trans hb')
          rw [Option.mem_def.1 hci, Option.map_some, Option.getD_some,
            eightDigits_eq_zero_iff] at h2 h3
          exact ⟨h2, h3⟩
      · rintro ⟨hpoint, hbounds⟩
        have hpoint := hpoint a hc b hb
        have hzero := eightDigits_eq_zero_iff.2 hpoint
        refine ⟨?_, ?_, ?_, ?_⟩
        · rw [hm, Option.getD_some, hzero]
        · rw [hlow]
          cases hi : q.confidence c.n a c.var t.n b t.var with
          | none => exact hzero
          | some ci => exact eightDigits_eq_zero_iff.2 (hbounds a hc b hb ci hi).1
        · rw [hhigh]
          cases hi : q.confidence c.n a c.var t.n b t.var with
          | none => exact hzero
          | some ci => exact eightDigits_eq_zero_iff.2 (hbounds a hc b hb ci hi).2
        · rw [hcost, Option.getD_some, level_cost hn hpoint]

/-! ## Removing the rows of such pairs -/

section Removal

variable (q) (lever : String) (rows : List UsageEvent) (w : Window)

def isSilent (pair : String × String) : Bool := !(computeExperiment q rows w pair).hasSignal

def isSilentRow (e : UsageEvent) : Bool :=
  isHoldback q e && (pairOf q e).any (isSilent q rows w)

def withoutSilent : List UsageEvent := rows.filter fun e => !isSilentRow q rows w e

/-- The arm aggregate of a pair. -/
def pairArm (arm : String) (pair : String × String) : Arm :=
  armOf q arm (rows.filter fun e => w.holds e && inPair q pair e)

/-- The pairs without signal add nothing, and their rows make no difference. -/
structure BillsNothing : Prop where
  contributes : ∀ pair ∈ experimentPairs q rows w, isSilent q rows w pair = true →
    NoContribution (computeExperiment q rows w pair)
  unchanged : computeVerifiedSavings q lever (withoutSilent q rows w) w =
    computeVerifiedSavings q lever rows w

/-- A row of an experiment is counted by no other query. -/
def Apart (e : UsageEvent) : Prop :=
  isHoldback q e = true → recordsDirect q e = false ∧ isOverhead q e = false

variable {q lever rows w}

theorem mean_pos {arm : String} {group : List UsageEvent} (h : (armOf q arm group).mean ≠ none) :
    0 < (armOf q arm group).n := by
  rw [armOf] at h ⊢
  dsimp only at h ⊢
  rw [List.length_pos_iff]
  intro hnil
  rw [hnil] at h
  exact h rfl

theorem contributes_iff {pair : String × String} :
    NoContribution (computeExperiment q rows w pair) ↔
      Level q (pairArm q rows w armControl pair) (pairArm q rows w armTreatment pair) :=
  noContribution_iff mean_pos

theorem pairOf_of_inPair {e : UsageEvent} {pair : String × String}
    (hp : pair.1 ≠ "" ∧ pair.2 ≠ "") (h : inPair q pair e = true) : pairOf q e = some pair := by
  simp only [inPair, Bool.and_eq_true, decide_eq_true_eq] at h
  exact pairOf_eq_some.2 ⟨⟨h.1.2, hp.1⟩, h.2, hp.2⟩

theorem kept {e : UsageEvent} {pair : String × String} (hp : pairOf q e = some pair)
    (hs : isSilent q rows w pair = false) : isSilentRow q rows w e = false := by
  rw [isSilentRow, hp, Option.any_some, hs, Bool.and_false]

theorem computeExperiment_kept {pair : String × String} (hp : pair.1 ≠ "" ∧ pair.2 ≠ "")
    (hs : isSilent q rows w pair = false) :
    computeExperiment q (withoutSilent q rows w) w pair = computeExperiment q rows w pair := by
  have hgroup : (withoutSilent q rows w).filter (fun e => w.holds e && inPair q pair e) =
      rows.filter fun e => w.holds e && inPair q pair e := by
    rw [withoutSilent, List.filter_filter]
    refine List.filter_congr fun e _ => ?_
    cases hin : inPair q pair e with
    | false => simp
    | true => rw [kept (pairOf_of_inPair hp hin) hs, Bool.not_false, Bool.and_true]
  rw [computeExperiment, computeExperiment, hgroup]

theorem mem_kept {pair : String × String} :
    pair ∈ experimentPairs q (withoutSilent q rows w) w ↔
      pair ∈ experimentPairs q rows w ∧ isSilent q rows w pair = false := by
  simp only [mem_experimentPairs, withoutSilent, List.mem_filter, Bool.not_eq_true']
  constructor
  · rintro ⟨e, ⟨he, hkept⟩, hw, hh, hp⟩
    rw [isSilentRow, hh, hp, Option.any_some, Bool.true_and] at hkept
    exact ⟨⟨e, he, hw, hh, hp⟩, hkept⟩
  · rintro ⟨⟨e, he, hw, hh, hp⟩, hs⟩
    exact ⟨e, ⟨he, kept hp hs⟩, hw, hh, hp⟩

theorem sum_results_kept {f : ExperimentResult → Option ℚ}
    (h : ∀ pair ∈ experimentPairs q rows w, isSilent q rows w pair = true →
      (f (computeExperiment q rows w pair)).getD 0 = 0) :
    (((experimentPairs q (withoutSilent q rows w) w).map
        (computeExperiment q (withoutSilent q rows w) w)).filterMap f).sum =
      (((experimentPairs q rows w).map (computeExperiment q rows w)).filterMap f).sum := by
  rw [sum_results, sum_results]
  have hsub : (experimentPairs q (withoutSilent q rows w) w).toFinset ⊆
      (experimentPairs q rows w).toFinset :=
    fun _ hp => List.mem_toFinset.2 (mem_kept.1 (List.mem_toFinset.1 hp)).1
  rw [← Finset.sum_subset hsub fun pair hp hn => ?_]
  · refine Finset.sum_congr rfl fun pair hp => ?_
    obtain ⟨hmem, hs⟩ := mem_kept.1 (List.mem_toFinset.1 hp)
    rw [computeExperiment_kept (pair_of_mem hmem) hs]
  · have hmem := List.mem_toFinset.1 hp
    refine h pair hmem (Bool.eq_true_of_not_eq_false fun hs => hn ?_)
    exact List.mem_toFinset.2 (mem_kept.2 ⟨hmem, hs⟩)

theorem any_results_kept :
    ((experimentPairs q (withoutSilent q rows w) w).map
        (computeExperiment q (withoutSilent q rows w) w)).any hasMeasuredSignal =
      ((experimentPairs q rows w).map (computeExperiment q rows w)).any hasMeasuredSignal := by
  rw [Bool.eq_iff_iff]
  simp only [List.any_map, List.any_eq_true, Function.comp]
  constructor
  · rintro ⟨pair, hp, hsignal⟩
    obtain ⟨hmem, hs⟩ := mem_kept.1 hp
    rw [computeExperiment_kept (pair_of_mem hmem) hs] at hsignal
    exact ⟨pair, hmem, hsignal⟩
  · rintro ⟨pair, hmem, hsignal⟩
    have hs : isSilent q rows w pair = false := by
      rw [hasMeasuredSignal, Bool.and_eq_true] at hsignal
      rw [isSilent, hsignal.2]
      rfl
    refine ⟨pair, mem_kept.2 ⟨hmem, hs⟩, ?_⟩
    rwa [computeExperiment_kept (pair_of_mem hmem) hs]

theorem holdbackMeasured_kept
    (h : ∀ pair ∈ experimentPairs q rows w, isSilent q rows w pair = true →
      NoContribution (computeExperiment q rows w pair)) :
    holdbackMeasured q (withoutSilent q rows w) w = holdbackMeasured q rows w := by
  unfold holdbackMeasured
  simp only [Holdback.mk.injEq]
  exact ⟨sum_results_kept fun pair hp hs => (h pair hp hs).total,
    sum_results_kept (f := fun r => boundOr r.measuredSavingsCiLowUsd r)
      fun pair hp hs => (h pair hp hs).ciLow,
    sum_results_kept (f := fun r => boundOr r.measuredSavingsCiHighUsd r)
      fun pair hp hs => (h pair hp hs).ciHigh,
    sum_results_kept fun pair hp hs => (h pair hp hs).cost, any_results_kept⟩

/-- The pairs without signal bill nothing exactly when their arms are level. -/
theorem bills_nothing_iff (hrows : ∀ e ∈ rows, Apart q e) :
    BillsNothing q lever rows w ↔
      ∀ pair ∈ experimentPairs q rows w, isSilent q rows w pair = true →
        Level q (pairArm q rows w armControl pair) (pairArm q rows w armTreatment pair) := by
  constructor
  · intro h pair hp hs
    exact contributes_iff.1 (h.contributes pair hp hs)
  · intro h
    have hnone : ∀ pair ∈ experimentPairs q rows w, isSilent q rows w pair = true →
        NoContribution (computeExperiment q rows w pair) :=
      fun pair hp hs => contributes_iff.2 (h pair hp hs)
    have hheld : ∀ e ∈ rows, (!isSilentRow q rows w e) = false → isHoldback q e = true := by
      intro e _ hk
      rw [Bool.not_eq_false', isSilentRow, Bool.and_eq_true] at hk
      exact hk.1
    refine ⟨hnone, ?_⟩
    have hdirect : directMeasuredByLever q lever (withoutSilent q rows w) w false =
        directMeasuredByLever q lever rows w false := by
      refine directMeasuredByLever_filter fun e he hk _ hd => ?_
      rw [(hrows e he (hheld e he hk)).1] at hd
      exact absurd hd Bool.false_ne_true
    have hoverhead : optimizationOverheadCost q (withoutSilent q rows w) w =
        optimizationOverheadCost q rows w := by
      refine optimizationOverheadCost_filter fun e he hk _ ho => ?_
      rw [(hrows e he (hheld e he hk)).2] at ho
      exact absurd ho Bool.false_ne_true
    rw [computeVerifiedSavings, computeVerifiedSavings, hdirect, hoverhead,
      holdbackMeasured_kept hnone]

theorem apart_of_entry {str : ℚ → String} {lower : Text → Text} {e : UsageEvent}
    (h : Entry str lower e) : Apart q e := by
  obtain ⟨k, hk⟩ := h.class (q := q)
  intro hh
  have harm := hk .arm hh
  have hout (c) (hne : c ≠ .arm) : inClass q c e = false :=
    Bool.eq_false_of_not_eq_true fun hc => hne ((hk c hc).trans harm.symm)
  have hcache : isCacheHit q e = false := hout .cache (by decide)
  have hbatch : isBatch q e = false := hout .batching (by decide)
  have hrouting : isDirectRouting q false e = false := hout .routing (by decide)
  refine ⟨?_, hout .overhead (by decide)⟩
  rw [recordsDirect, hcache, hbatch, hrouting]
  simp

end Removal

/-! ## One request an arm -/

def swap : String × String := ("gpt-4o", "gpt-4o-mini")

/-- A control request of `cost` dollars, and a treatment request of one. -/
def oneEach (cost : ℤ) : List UsageEvent :=
  [pricedRow (fun _ => "") id armControl swap cost, pricedRow (fun _ => "") id armTreatment swap 1]

theorem oneEach_written (cost : ℤ) : ∀ e ∈ oneEach cost, Entry (fun _ => "") id e := by
  intro e he
  simp only [oneEach, List.mem_cons, List.not_mem_nil, or_false] at he
  rcases he with rfl | rfl
  · exact .proxy _ _ _ fun _ => by simp [armUsage] at *
  · exact .proxy _ _ _ fun _ => by simp [armUsage] at *

theorem even_arms_bill_nothing :
    BillsNothing plainQueries "smart_routing" (oneEach 1) ⟨-1, some 1⟩ := by
  refine (bills_nothing_iff fun e he => apart_of_entry (oneEach_written 1 e he)).2 ?_
  have hpairs : experimentPairs plainQueries (oneEach 1) ⟨-1, some 1⟩ = [swap] := by
    decide +kernel
  rw [hpairs]
  intro pair hp _
  obtain rfl := List.mem_singleton.1 hp
  exact contributes_iff.1
    ⟨by decide +kernel, by decide +kernel, by decide +kernel, by decide +kernel⟩

/-- One lucky request an arm bills ninety-nine dollars. -/
theorem lucky_control_billed :
    (∀ e ∈ oneEach 100, Entry (fun _ => "") id e) ∧
      (computeVerifiedSavings plainQueries "smart_routing" (oneEach 100)
        ⟨-1, some 1⟩).map (·.verifiedGrossSavingsUsd) = some 99 ∧
      ¬ BillsNothing plainQueries "smart_routing" (oneEach 100) ⟨-1, some 1⟩ := by
  refine ⟨oneEach_written 100, by decide +kernel, fun h => ?_⟩
  have hpair : swap ∈ experimentPairs plainQueries (oneEach 100) ⟨-1, some 1⟩ := by
    decide +kernel
  have htotal := (h.contributes swap hpair (by decide +kernel)).total
  revert htotal
  decide +kernel

end Varsten.Savings.Signal
