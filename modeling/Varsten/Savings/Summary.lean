import Varsten.Savings.FeeCap

/-!
# The savings summary of a month

What a project is shown: its spend, the attributed savings, and the verified savings with their
fee.
-/

namespace Varsten.Savings.Summary

open Python.Calendar
open Python.Decimals
open Python.Precision (Whole context contextSum context_of_whole mul prec)
open Proxy.Ledger
open Proxy.Experiment (Queries Window)
open Savings.Measurement
open Savings.Billing
open Savings.FeeCap (centsOf money?_eq)

/-- A row of `savings_attributions`, of one project. -/
structure SavingsAttribution where
  periodStart : ℚ
  periodEnd : ℚ
  grossSavingsUsd : ℚ
  varstenFeeUsd : ℚ
  netSavingsUsd : ℚ

structure SavingsSummary where
  periodStart : ℚ
  periodEnd : ℚ
  actualSpendUsd : ℚ
  counterfactualSpendUsd : ℚ
  grossSavingsUsd : ℚ
  varstenFeeUsd : ℚ
  netSavingsUsd : ℚ
  estimatedOpportunityUsd : ℚ
  verified : VerifiedSavings
  verifiedFeeUsd : ℚ
  verifiedNetUsd : ℚ
  billableSavingsUsd : ℚ

def orgFeePercent (gainSharePercent : ℚ) : ℚ := min gainSharePercent maxGainSharePercent

def runRated (rows : List UsageEvent) (now : ℚ) : Option ℚ :=
  let monthToDate := ((rows.filter (monthStart now ≤ ·.receivedAt)).filterMap (·.costUsd)).sum
  let day := dayOf now - startDay (monthOf now) + 1
  money? (mul (context (monthToDate / day)) (monthLength (monthOf now)))

/-- Of the attributions and of the sum of the open recommendations' estimates. -/
def computeSavingsSummary (q : Queries) (levers : RoutingLevers) (p : Project)
    (attributions : List SavingsAttribution) (opportunity gainSharePercent now : ℚ) :
    Option SavingsSummary := do
  let start := monthStart now
  let stop := monthEnd now
  let actual ← runRated p.events now
  let current := attributions.filter fun a => a.periodStart = start ∧ a.periodEnd = stop
  let gross ← money? (current.map (·.grossSavingsUsd)).sum
  let fee ← money? (current.map (·.varstenFeeUsd)).sum
  let net ← money? (current.map (·.netSavingsUsd)).sum
  let verified ← computeVerifiedSavings q (levers p.id) p.events (period start stop)
  let billable := max verified.verifiedSavingsUsd 0
  let verifiedFee ← money? (mul billable (orgFeePercent gainSharePercent))
  return {
    periodStart := start
    periodEnd := now
    actualSpendUsd := actual
    counterfactualSpendUsd := context (actual + gross)
    grossSavingsUsd := gross
    varstenFeeUsd := fee
    netSavingsUsd := net
    estimatedOpportunityUsd := ← money? opportunity
    verified
    verifiedFeeUsd := verifiedFee
    verifiedNetUsd := context (verified.verifiedSavingsUsd - verifiedFee)
    billableSavingsUsd := billable }

/-! ## Amounts of whole cents -/

theorem whole_two {n : ℤ} : Whole 2 ((n : ℚ) / 100) := ⟨n, by ring⟩

theorem centsOf_whole (n : ℤ) : centsOf ((n : ℚ) / 100) = n := by
  have hn : (n : ℚ) / 100 * 100 = n := by ring
  rw [centsOf, hn, roundHalfUp_intCast]

theorem centsOf_add {x : ℚ} (hx : 0 ≤ x) {n : ℤ} (hn : 0 ≤ n) :
    centsOf (x + n / 100) = centsOf x + n := by
  have hn' : (0 : ℚ) ≤ n := Int.cast_nonneg hn
  have hsum : (x + n / 100) * 100 + 1 / 2 = x * 100 + 1 / 2 + n := by ring
  rw [centsOf, centsOf, roundHalfUp, roundHalfUp, if_pos (by positivity), if_pos (by positivity),
    hsum, Int.floor_add_intCast]

theorem whole_sum {e : ℕ} {xs : List ℚ} (h : ∀ x ∈ xs, Whole e x) : Whole e xs.sum := by
  induction xs with
  | nil => exact Python.Precision.whole_zero e
  | cons x xs ih =>
    rw [List.forall_mem_cons] at h
    exact h.1.add (ih h.2)

theorem exists_cents {x : ℚ} (h : Whole 2 x) : ∃ n : ℤ, x = n / 100 := by
  obtain ⟨n, hn⟩ := h
  exact ⟨n, by linarith⟩

/-- Where one amount at most has a fraction of a cent, the cents of the amounts are those of their
sum. -/
theorem sum_centsOf {xs : List ℚ} (hpos : ∀ x ∈ xs, 0 ≤ x)
    (hone : xs.Pairwise fun x y => Whole 2 x ∨ Whole 2 y) :
    (xs.map centsOf).sum = centsOf xs.sum := by
  induction xs with
  | nil => simpa using (centsOf_whole 0).symm
  | cons x xs ih =>
    rw [List.forall_mem_cons] at hpos
    rw [List.pairwise_cons] at hone
    rw [List.map_cons, List.sum_cons, List.sum_cons, ih hpos.2 hone.2]
    by_cases hx : Whole 2 x
    · obtain ⟨n, rfl⟩ := exists_cents hx
      have hn : 0 ≤ n := by
        have h100 : (0 : ℚ) ≤ n := by linarith [hpos.1]
        exact_mod_cast h100
      rw [centsOf_whole, add_comm (n / 100 : ℚ), centsOf_add (List.sum_nonneg hpos.2) hn, add_comm]
    · have hrest : Whole 2 xs.sum := whole_sum fun y hy => (hone.1 y hy).resolve_left hx
      obtain ⟨n, hn⟩ := exists_cents hrest
      have hn' : 0 ≤ n := by
        have h100 : (0 : ℚ) ≤ n := by linarith [List.sum_nonneg hpos.2]
        exact_mod_cast h100
      rw [hn, centsOf_whole, centsOf_add hpos.1 hn']

theorem Whole.mul' {e f : ℕ} {a b : ℚ} (ha : Whole e a) (hb : Whole f b) :
    Whole (e + f) (a * b) := by
  obtain ⟨m, hm⟩ := ha
  obtain ⟨n, hn⟩ := hb
  exact ⟨m * n, by rw [pow_add, mul_mul_mul_comm, hm, hn]; push_cast; rfl⟩

theorem Whole.more {e : ℕ} {a : ℚ} (ha : Whole e a) (k : ℕ) : Whole (e + k) a := by
  obtain ⟨m, hm⟩ := ha
  exact ⟨m * 10 ^ k, by rw [pow_add, ← mul_assoc, hm]; push_cast; rfl⟩

/-! ## The two fees -/

/-- The fee a project is shown on its verified savings, before it is rounded. -/
def exactFee (gainSharePercent verified : ℚ) : ℚ :=
  max verified 0 * orgFeePercent gainSharePercent

theorem verifiedSavingsUsd_cents {q : Queries} {lever : String} {rows : List UsageEvent}
    {w : Window} {r : VerifiedSavings} (h : computeVerifiedSavings q lever rows w = some r) :
    ∃ n : ℤ, r.verifiedSavingsUsd = n / 100 := by
  obtain ⟨direct, -, rfl⟩ := Option.map_eq_some_iff.1 h
  exact ⟨_, rfl⟩

section Agree

variable (q : Queries) (levers : RoutingLevers) (org : Organization)
  (attributions : Project → List SavingsAttribution) (opportunity : Project → ℚ) (now : ℚ)

def shownFees : Option ℚ :=
  (org.projects.mapM fun p => computeSavingsSummary q levers p (attributions p) (opportunity p)
    org.gainSharePercent now).map fun summaries => (summaries.map (·.verifiedFeeUsd)).sum

def billedFee (w : Window) : Option ℚ :=
  (orgVerifiedSavings q levers org w).bind fun verified =>
    (computeFee verified org.gainSharePercent org.monthlyFeeFloorUsd).map (·.feeUsd)

def monthSavings : Option (List ℚ) :=
  org.projects.mapM (projectSavings q levers (period (monthStart now) (monthEnd now)))

/-- No project loses where another gains, one fee at most has a fraction of a cent, and the fees
have no more digits than a decimal. -/
structure FeesMeet (percent : ℚ) (vs : List ℚ) : Prop where
  rate : 0 ≤ percent
  signs : (∀ v ∈ vs, 0 ≤ v) ∨ ∀ v ∈ vs, v ≤ 0
  fractions : vs.Pairwise fun v w => Whole 2 (exactFee percent v) ∨ Whole 2 (exactFee percent w)
  digits : ∃ e, Whole (2 + e) percent ∧ (vs.map (|·|)).sum * 10 ^ (4 + e) < 10 ^ prec

variable {q levers org attributions opportunity now} {percent : ℚ} {vs : List ℚ}

theorem monthSavings_whole (h : monthSavings q levers org now = some vs) :
    ∀ v ∈ vs, Whole 2 v := by
  rw [monthSavings] at h
  generalize org.projects = ps at h
  induction ps generalizing vs with
  | nil =>
    obtain rfl := Option.some.inj h
    exact List.forall_mem_nil _
  | cons p ps ih =>
    rw [List.mapM_cons] at h
    obtain ⟨v, hv, h⟩ := Option.bind_eq_some_iff.1 h
    obtain ⟨rest, hrest, h⟩ := Option.bind_eq_some_iff.1 h
    obtain rfl := Option.some.inj h
    obtain ⟨r, hr, rfl⟩ := Option.map_eq_some_iff.1 hv
    obtain ⟨n, hn⟩ := verifiedSavingsUsd_cents hr
    exact List.forall_mem_cons.2 ⟨hn ▸ whole_two, ih hrest⟩

theorem summary_fee {p : Project} {summary : SavingsSummary}
    (h : computeSavingsSummary q levers p (attributions p) (opportunity p) percent now =
      some summary) :
    ∃ verified, computeVerifiedSavings q (levers p.id) p.events
        (period (monthStart now) (monthEnd now)) = some verified ∧
      money? (mul (max verified.verifiedSavingsUsd 0) (orgFeePercent percent)) =
        some summary.verifiedFeeUsd := by
  obtain ⟨_, _, h⟩ := Option.bind_eq_some_iff.1 h
  obtain ⟨_, _, h⟩ := Option.bind_eq_some_iff.1 h
  obtain ⟨_, _, h⟩ := Option.bind_eq_some_iff.1 h
  obtain ⟨_, _, h⟩ := Option.bind_eq_some_iff.1 h
  obtain ⟨verified, hverified, h⟩ := Option.bind_eq_some_iff.1 h
  obtain ⟨fee, hfee, h⟩ := Option.bind_eq_some_iff.1 h
  obtain ⟨_, _, h⟩ := Option.bind_eq_some_iff.1 h
  obtain rfl := Option.some.inj h
  exact ⟨verified, hverified, hfee⟩

theorem shownFees_eq {shown : ℚ}
    (h : shownFees q levers org attributions opportunity now = some shown) :
    ∃ vs, monthSavings q levers org now = some vs ∧
      shown = (vs.map fun v => (centsOf (mul (max v 0) (orgFeePercent org.gainSharePercent)) : ℚ) /
        100).sum := by
  obtain ⟨summaries, hsummaries, rfl⟩ := Option.map_eq_some_iff.1 h
  clear h
  rw [monthSavings]
  generalize org.projects = ps at hsummaries
  induction ps generalizing summaries with
  | nil =>
    obtain rfl := Option.some.inj hsummaries
    exact ⟨[], rfl, rfl⟩
  | cons p ps ih =>
    rw [List.mapM_cons] at hsummaries
    obtain ⟨summary, hsummary, hsummaries⟩ := Option.bind_eq_some_iff.1 hsummaries
    obtain ⟨rest, hrest, hsummaries⟩ := Option.bind_eq_some_iff.1 hsummaries
    obtain rfl := Option.some.inj hsummaries
    obtain ⟨vs, hvs, hsum⟩ := ih rest hrest
    obtain ⟨verified, hverified, hfee⟩ := summary_fee hsummary
    rw [money?_eq] at hfee
    split_ifs at hfee
    refine ⟨verified.verifiedSavingsUsd :: vs, ?_, ?_⟩
    · rw [List.mapM_cons, projectSavings, hverified, hvs]
      rfl
    · rw [List.map_cons, List.sum_cons, List.map_cons, List.sum_cons, hsum,
        Option.some.inj hfee]

theorem orgFeePercent_bounds (h : 0 ≤ percent) :
    0 ≤ orgFeePercent percent ∧ orgFeePercent percent ≤ 1 ∧
      effectiveGainSharePercent percent = orgFeePercent percent := by
  have hmax : maxGainSharePercent = 1 / 4 := by norm_num [maxGainSharePercent]
  have hfee : 0 ≤ orgFeePercent percent := le_min h (by rw [hmax]; norm_num)
  refine ⟨hfee, (min_le_right _ _).trans (by rw [hmax]; norm_num), max_eq_right hfee⟩

theorem whole_orgFeePercent {e : ℕ} (h : Whole (2 + e) percent) :
    Whole (2 + e) (orgFeePercent percent) := by
  rw [orgFeePercent]
  rcases min_cases percent maxGainSharePercent with ⟨heq, -⟩ | ⟨heq, -⟩
  · rwa [heq]
  · rw [heq]
    exact Whole.more ⟨25, by norm_num [maxGainSharePercent]⟩ e

/-- A fee within the digits of a decimal is exact before it is rounded to the cent. -/
theorem mul_fee (h : FeesMeet percent vs) {v : ℚ} (hv : Whole 2 v)
    (hle : |v| ≤ (vs.map (|·|)).sum) :
    mul (max v 0) (orgFeePercent percent) = exactFee percent v := by
  obtain ⟨hnonneg, hone, -⟩ := orgFeePercent_bounds h.rate
  obtain ⟨e, hwhole, hlt⟩ := h.digits
  have hmax : Whole 2 (max v 0) := by
    rcases max_cases v 0 with ⟨heq, -⟩ | ⟨heq, -⟩
    · rwa [heq]
    · rw [heq]
      exact Python.Precision.whole_zero 2
  have hproduct := Whole.mul' hmax (whole_orgFeePercent hwhole)
  have hexp : 2 + (2 + e) = 4 + e := by omega
  rw [hexp] at hproduct
  refine context_of_whole hproduct (lt_of_le_of_lt ?_ hlt)
  refine mul_le_mul_of_nonneg_right ?_ (by positivity)
  have hpos : |max v 0| ≤ |v| := by
    rcases max_cases v 0 with ⟨heq, -⟩ | ⟨heq, -⟩
    · rw [heq]
    · rw [heq, abs_zero]
      exact abs_nonneg v
  calc |max v 0 * orgFeePercent percent|
      = |max v 0| * orgFeePercent percent := by rw [abs_mul, abs_of_nonneg hnonneg]
    _ ≤ |max v 0| * 1 := mul_le_mul_of_nonneg_left hone (abs_nonneg _)
    _ ≤ (vs.map (|·|)).sum := by
      rw [mul_one]
      exact hpos.trans hle

theorem abs_sum_le (vs : List ℚ) : |vs.sum| ≤ (vs.map (|·|)).sum := by
  induction vs with
  | nil => simp
  | cons v vs ih =>
    rw [List.sum_cons, List.map_cons, List.sum_cons]
    exact (abs_add_le v vs.sum).trans (add_le_add_right ih |v|)

theorem abs_le_sum {v : ℚ} (h : v ∈ vs) : |v| ≤ (vs.map (|·|)).sum :=
  List.single_le_sum (fun x hx => by
    obtain ⟨y, -, rfl⟩ := List.mem_map.1 hx
    exact abs_nonneg y) _ (List.mem_map_of_mem h)

theorem exactFee_sum (h : FeesMeet percent vs) :
    (vs.map (exactFee percent)).sum = exactFee percent vs.sum := by
  have hsum : (vs.map (exactFee percent)).sum =
      (vs.map (max · 0)).sum * orgFeePercent percent := by
    rw [← List.sum_map_mul_right]
    rfl
  rw [hsum, exactFee]
  congr 1
  rcases h.signs with hpos | hneg
  · have hmap : vs.map (max · 0) = vs := by
      rw [List.map_congr_left fun v hv => max_eq_left (hpos v hv), List.map_id']
    rw [hmap, max_eq_left (List.sum_nonneg hpos)]
  · have hmap : (vs.map (max · 0)).sum = 0 := List.sum_eq_zero fun x hx => by
      obtain ⟨v, hv, rfl⟩ := List.mem_map.1 hx
      exact max_eq_right (hneg v hv)
    have htotal : vs.sum ≤ 0 := by
      have hle := List.sum_le_card_nsmul vs 0 hneg
      rwa [smul_zero] at hle
    rw [hmap, max_eq_right htotal]

theorem billedFee_eq {billed : ℚ} (hfloor : org.monthlyFeeFloorUsd ≤ 0)
    (hvs : monthSavings q levers org now = some vs) (h : FeesMeet org.gainSharePercent vs)
    (hbilled : billedFee q levers org (period (monthStart now) (monthEnd now)) = some billed) :
    billed = centsOf (exactFee org.gainSharePercent vs.sum) / 100 := by
  have hwhole := monthSavings_whole hvs
  obtain ⟨e, -, hlt⟩ := h.digits
  obtain ⟨total, htotal, hfee⟩ := Option.bind_eq_some_iff.1 hbilled
  obtain ⟨savings, hsavings, htotal⟩ := Option.bind_eq_some_iff.1 htotal
  obtain rfl : vs = savings := Option.some.inj (hvs.symm.trans hsavings)
  have hfits : Python.Precision.Fits vs := by
    refine ⟨2, hwhole, lt_of_le_of_lt ?_ hlt⟩
    refine mul_le_mul_of_nonneg_left (pow_le_pow_right₀ (by norm_num) (by omega)) ?_
    exact (abs_nonneg _).trans (abs_sum_le vs)
  obtain ⟨n, hn⟩ := exists_cents (whole_sum hwhole)
  rw [Python.Precision.contextSum_eq hfits, money?_eq] at htotal
  split_ifs at htotal
  have htotal' : total = vs.sum := by rw [← Option.some.inj htotal, hn, centsOf_whole]
  obtain ⟨b, hb, rfl⟩ := Option.map_eq_some_iff.1 hfee
  obtain rfl := FeeCap.computeFee_eq_some hb
  have hsaved : FeeCap.saved vs.sum = max vs.sum 0 := by
    rw [FeeCap.saved, FeeCap.savedCents, hn, centsOf_whole]
    push_cast
    rw [← max_div_div_right (by norm_num), zero_div]
  have hcents : FeeCap.feeCents total org.gainSharePercent org.monthlyFeeFloorUsd =
      FeeCap.shareCents total org.gainSharePercent := by
    rw [FeeCap.feeCents, FeeCap.liftedCents, if_neg (not_lt.2 hfloor)]
    exact min_eq_left FeeCap.shareCents_le_capCents
  rw [FeeCap.bill, hcents, FeeCap.shareCents, htotal', hsaved,
    (orgFeePercent_bounds h.rate).2.2, mul_fee h (whole_sum hwhole) (abs_sum_le vs)]

/-- Without a floor the fees the projects are shown are the fee the organization is billed, where
no project loses beside one that gains and one fee at most is rounded. -/
theorem fees_agree {shown billed : ℚ} (hfloor : org.monthlyFeeFloorUsd ≤ 0)
    (hshown : shownFees q levers org attributions opportunity now = some shown)
    (hbilled : billedFee q levers org (period (monthStart now) (monthEnd now)) = some billed)
    (h : ∀ vs ∈ monthSavings q levers org now, FeesMeet org.gainSharePercent vs) :
    shown = billed := by
  obtain ⟨vs, hvs, rfl⟩ := shownFees_eq hshown
  have hmeet := h vs hvs
  have hwhole := monthSavings_whole hvs
  have hpercent := (orgFeePercent_bounds hmeet.rate).1
  rw [billedFee_eq hfloor hvs hmeet hbilled, ← exactFee_sum hmeet]
  have hpos : ∀ x ∈ vs.map (exactFee org.gainSharePercent), 0 ≤ x := by
    intro x hx
    obtain ⟨v, -, rfl⟩ := List.mem_map.1 hx
    exact mul_nonneg (le_max_right v 0) hpercent
  rw [← sum_centsOf hpos (List.pairwise_map.2 hmeet.fractions), Int.cast_list_sum,
    div_eq_mul_inv, ← List.sum_map_mul_right, List.map_map, List.map_map]
  congr 1
  refine List.map_congr_left fun v hv => ?_
  rw [mul_fee hmeet (hwhole v hv) (abs_le_sum hv), div_eq_mul_inv]
  rfl

end Agree

/-! ## Two projects -/

def noAttributions (_ : Project) : List SavingsAttribution := []

def noOpportunity (_ : Project) : ℚ := 0

def sampleReplay : UsageEvent :=
  { sampleHit (startOf january) with
    costUsd := some 5
    metadata := [("overhead", .str "eval_replay")] }

def gainAndLoss : Organization :=
  ⟨1 / 5, 0, [⟨1, [sampleHit (startOf january)]⟩, ⟨2, [sampleReplay]⟩]⟩

theorem gain_savings : monthSavings sampleQueries sampleLevers (sampleOrg (startOf january))
    newYear = some [5] := by
  rw [monthSavings, monthStart_eq newYear_inMonth, monthEnd_eq newYear_inMonth]
  decide +kernel

theorem gain_shown : shownFees sampleQueries sampleLevers (sampleOrg (startOf january))
    noAttributions noOpportunity newYear = some 1 := by
  rw [shownFees]
  simp only [computeSavingsSummary, monthStart_eq newYear_inMonth, monthEnd_eq newYear_inMonth]
  decide +kernel

theorem gain_billed : billedFee sampleQueries sampleLevers (sampleOrg (startOf january))
    (period (monthStart newYear) (monthEnd newYear)) = some 1 := by
  rw [monthStart_eq newYear_inMonth, monthEnd_eq newYear_inMonth]
  decide +kernel

theorem gain_fees_agree : shownFees sampleQueries sampleLevers (sampleOrg (startOf january))
      noAttributions noOpportunity newYear =
    billedFee sampleQueries sampleLevers (sampleOrg (startOf january))
      (period (monthStart newYear) (monthEnd newYear)) := by
  have hmeet : ∀ vs ∈ monthSavings sampleQueries sampleLevers (sampleOrg (startOf january))
      newYear, FeesMeet (1 / 5) vs := by
    intro vs hvs
    obtain rfl := Option.some.inj (gain_savings.symm.trans hvs)
    refine ⟨by norm_num, .inl (by norm_num), List.pairwise_singleton _ _, 0, ⟨20, by norm_num⟩, ?_⟩
    norm_num [prec]
  have hfloor : (sampleOrg (startOf january)).monthlyFeeFloorUsd ≤ 0 := le_refl _
  have hagree := fees_agree hfloor gain_shown gain_billed hmeet
  exact gain_shown.trans ((congrArg some hagree).trans gain_billed.symm)

theorem loss_fees_differ :
    shownFees sampleQueries sampleLevers gainAndLoss noAttributions noOpportunity newYear =
        some 1 ∧
      billedFee sampleQueries sampleLevers gainAndLoss
        (period (monthStart newYear) (monthEnd newYear)) = some 0 := by
  constructor
  · rw [shownFees]
    simp only [computeSavingsSummary, monthStart_eq newYear_inMonth, monthEnd_eq newYear_inMonth]
    decide +kernel
  · rw [monthStart_eq newYear_inMonth, monthEnd_eq newYear_inMonth]
    decide +kernel

end Varsten.Savings.Summary
