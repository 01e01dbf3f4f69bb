import Varsten.Machine.Runs
import Varsten.Proxy.Experiment

/-!
# Adaptive holdback

A sweep reads the experiment of each live policy and moves the share of its
traffic that is held back: down one step while the confidence sequence of the
savings is positive, back to the standard share once it includes zero. Every
move is recorded as a system action. An interval below zero moves nothing.
-/

namespace Varsten.Engine.Holdback

open Machine
open Proxy.Experiment (ExperimentResult)

def holdbackDefault : ℚ := 5 / 100

def holdbackStep2 : ℚ := 2 / 100

def holdbackFloor : ℚ := 1 / 100

def routingLevers : List String := ["model_downshift", "smart_routing"]

def trimLever : String := "token_trim"

def holdbackLevers : List String := routingLevers ++ [trimLever]

structure ProxyPolicy where
  id : String
  projectId : String
  lever : String
  targetKey : String
  candidateModel : Option String
  enabled : Bool
  holdbackPercent : ℚ
  sourceRecommendationId : Option String
deriving DecidableEq

def holdbackCandidate (policy : ProxyPolicy) : Option String :=
  if policy.lever ∈ routingLevers then policy.candidateModel
  else if policy.lever = trimLever then some policy.targetKey
  else none

def nextHoldback (current : ℚ) (experiment : ExperimentResult) : Option ℚ × String :=
  match experiment.savingsPerRequestCiLowUsd, experiment.savingsPerRequestCiHighUsd with
  | some ciLow, some ciHigh =>
    if !experiment.hasSignal then (none, "insufficient_signal")
    else if ciLow > 0 then
      if current > holdbackDefault then
        (some holdbackDefault, "confident_savings_reduce_to_standard_holdback")
      else if current > holdbackStep2 then
        (some holdbackStep2, "confident_savings_reduce_holdback")
      else if current > holdbackFloor then
        (some holdbackFloor, "confident_savings_reduce_holdback")
      else (none, "holdback_at_floor")
    else if current < holdbackDefault ∧ ciLow ≤ 0 ∧ 0 ≤ ciHigh then
      (some holdbackDefault, "savings_confidence_reincluded_zero")
    else (none, "no_holdback_change")
  | _, _ => (none, "insufficient_signal")

structure RecommendationAction where
  organizationId : String
  projectId : String
  recommendationId : Option String
  lever : String
  actionType : String
  status : String
  source : String
  title : String
  detail : String
  occurredAt : ℤ

structure Adjustment where
  policyId : String
  lever : String
  route : String
  oldHoldbackPercent : ℚ
  newHoldbackPercent : ℚ
  reason : String

/-- A call of `adjust_adaptive_holdbacks`: `experiment` is `compute_experiment` of an incumbent, a
candidate and the start of the period, `none` where it raises; times are in microseconds. -/
structure Sweep where
  organizationId : String
  projectId : String
  now : ℤ
  windowDays : ℕ
  experiment : String → String → ℤ → Option ExperimentResult

def Sweep.periodStart (sweep : Sweep) : ℤ := sweep.now - sweep.windowDays * (86400 * 10 ^ 6)

section

-- `str` of a decimal
variable (str : ℚ → String)

def optionText : Option ℚ → String
  | some value => str value
  | none => "None"

def routeLabel (policy : ProxyPolicy) (candidate : String) : String :=
  if policy.lever ∈ routingLevers then policy.targetKey ++ " -> " ++ candidate
  else policy.targetKey ++ " (trim)"

def holdbackActionTitle (policy : ProxyPolicy) (candidate : String) (old new : ℚ) : String :=
  let direction := if new < old then "Reduce" else "Restore"
  String.ofList ((direction ++ " holdback for " ++ routeLabel policy candidate ++ ": " ++
    str old ++ " -> " ++ str new).toList.take 255)

def holdbackActionDetail (reason : String) (experiment : ExperimentResult) : String :=
  "Adaptive holdback adjustment reason=" ++ reason ++ ". " ++
  "control_requests=" ++ toString experiment.controlRequests ++ ", " ++
  "treatment_requests=" ++ toString experiment.treatmentRequests ++ ", " ++
  "savings_per_request=" ++ optionText str experiment.savingsPerRequestUsd ++ ", " ++
  "cs_low=" ++ optionText str experiment.savingsPerRequestCiLowUsd ++ ", " ++
  "cs_high=" ++ optionText str experiment.savingsPerRequestCiHighUsd ++ "."

def selects (sweep : Sweep) (policy : ProxyPolicy) : Bool :=
  policy.projectId = sweep.projectId && policy.lever ∈ holdbackLevers && policy.enabled

/-- The candidate and the experiment a sweep reads for a policy, where it comes to them. -/
def reading (sweep : Sweep) (policy : ProxyPolicy) : Option (String × ExperimentResult) :=
  if selects sweep policy then
    match holdbackCandidate policy with
    | some candidate =>
      if candidate = "" then none
      else (sweep.experiment policy.targetKey candidate sweep.periodStart).map (candidate, ·)
    | none => none
  else none

/-- What one turn of the loop proposes. -/
def proposal (sweep : Sweep) (policy : ProxyPolicy) :
    Option (String × ExperimentResult × ℚ × String) :=
  match reading sweep policy with
  | some (candidate, experiment) =>
    match nextHoldback policy.holdbackPercent experiment with
    | (some proposed, reason) =>
      if proposed = policy.holdbackPercent then none
      else some (candidate, experiment, proposed, reason)
    | (none, _) => none
  | none => none

structure Swept where
  policies : List ProxyPolicy
  actions : List RecommendationAction
  adjusted : List Adjustment

def adjustAdaptiveHoldbacks (sweep : Sweep) : List ProxyPolicy → Swept
  | [] => ⟨[], [], []⟩
  | policy :: policies =>
    let rest := adjustAdaptiveHoldbacks sweep policies
    match proposal sweep policy with
    | none => { rest with policies := policy :: rest.policies }
    | some (candidate, experiment, proposed, reason) =>
      { policies := { policy with holdbackPercent := proposed } :: rest.policies
        actions :=
          { organizationId := sweep.organizationId
            projectId := sweep.projectId
            recommendationId := policy.sourceRecommendationId
            lever := policy.lever
            actionType := "holdback_adjusted"
            status := "completed"
            source := "system"
            title := holdbackActionTitle str policy candidate policy.holdbackPercent proposed
            detail := holdbackActionDetail str reason experiment
            occurredAt := sweep.now } :: rest.actions
        adjusted :=
          { policyId := policy.id
            lever := policy.lever
            route := routeLabel policy candidate
            oldHoldbackPercent := policy.holdbackPercent
            newHoldbackPercent := proposed
            reason := reason } :: rest.adjusted }

/-- What a sweep leaves of the policies. -/
def step (policies : List ProxyPolicy) (sweep : Sweep) : List ProxyPolicy :=
  (adjustAdaptiveHoldbacks str sweep policies).policies

end

/-! ## One policy in one sweep -/

def sweepPolicy (sweep : Sweep) (policy : ProxyPolicy) : ProxyPolicy :=
  match proposal sweep policy with
  | none => policy
  | some (_, _, proposed, _) => { policy with holdbackPercent := proposed }

theorem step_eq_map (str : ℚ → String) (policies : List ProxyPolicy) (sweep : Sweep) :
    step str policies sweep = policies.map (sweepPolicy sweep) := by
  induction policies with
  | nil => rfl
  | cons policy policies ih =>
    rw [step] at ih
    rw [step, adjustAdaptiveHoldbacks, List.map_cons, sweepPolicy, ← ih]
    cases proposal sweep policy <;> rfl

/-- The actions of a sweep and what it returns have one entry for each policy it moves. -/
theorem adjusted_moves (str : ℚ → String) (policies : List ProxyPolicy) (sweep : Sweep) :
    (adjustAdaptiveHoldbacks str sweep policies).adjusted.map
        (fun a => (a.policyId, a.oldHoldbackPercent, a.newHoldbackPercent)) =
      (policies.filter fun p => (proposal sweep p).isSome).map
        (fun p => (p.id, p.holdbackPercent, (sweepPolicy sweep p).holdbackPercent)) ∧
    (adjustAdaptiveHoldbacks str sweep policies).actions.length =
      (adjustAdaptiveHoldbacks str sweep policies).adjusted.length := by
  induction policies with
  | nil => exact ⟨rfl, rfl⟩
  | cons policy policies ih =>
    rw [adjustAdaptiveHoldbacks, List.filter_cons]
    cases h : proposal sweep policy with
    | none => exact ih
    | some found =>
      obtain ⟨candidate, experiment, proposed, reason⟩ := found
      simp only [Option.isSome_some, if_true, List.map_cons, List.length_cons, ih.1, ih.2,
        sweepPolicy, h, and_self]

inductive Moves (experiment : ExperimentResult) (current : ℚ) : ℚ → Prop
  | down {low high next : ℚ} (hsignal : experiment.hasSignal = true)
      (hlow : experiment.savingsPerRequestCiLowUsd = some low)
      (hhigh : experiment.savingsPerRequestCiHighUsd = some high) (hpos : 0 < low)
      (hfloor : holdbackFloor ≤ next) (hless : next < current) : Moves experiment current next
  | restore {low high : ℚ} (hsignal : experiment.hasSignal = true)
      (hlow : experiment.savingsPerRequestCiLowUsd = some low)
      (hhigh : experiment.savingsPerRequestCiHighUsd = some high) (hzero : low ≤ 0 ∧ 0 ≤ high)
      (hless : current < holdbackDefault) : Moves experiment current holdbackDefault

theorem nextHoldback_moves {current next : ℚ} {experiment : ExperimentResult}
    (h : (nextHoldback current experiment).1 = some next) : Moves experiment current next := by
  rw [nextHoldback] at h
  split at h
  · rename_i low high hlow hhigh
    by_cases hsignal : experiment.hasSignal = true
    · rw [hsignal, Bool.not_true, if_neg Bool.false_ne_true] at h
      split_ifs at h with hpos h5 h2 h1 hzero
      · obtain rfl := Option.some.inj h
        exact .down hsignal hlow hhigh hpos (by norm_num [holdbackFloor, holdbackDefault]) h5
      · obtain rfl := Option.some.inj h
        exact .down hsignal hlow hhigh hpos (by norm_num [holdbackFloor, holdbackStep2]) h2
      · obtain rfl := Option.some.inj h
        exact .down hsignal hlow hhigh hpos le_rfl h1
      · obtain rfl := Option.some.inj h
        exact .restore hsignal hlow hhigh hzero.2 hzero.1
    · rw [if_pos (by simpa using hsignal)] at h
      cases h
  · cases h

theorem sweepPolicy_cases (sweep : Sweep) (policy : ProxyPolicy) :
    sweepPolicy sweep policy = policy ∨
      ∃ candidate experiment next, reading sweep policy = some (candidate, experiment) ∧
        Moves experiment policy.holdbackPercent next ∧
        sweepPolicy sweep policy = { policy with holdbackPercent := next } := by
  rw [sweepPolicy]
  cases h : proposal sweep policy with
  | none => exact .inl rfl
  | some found =>
    obtain ⟨candidate, experiment, next, reason⟩ := found
    refine .inr ⟨candidate, experiment, next, ?_⟩
    rw [proposal] at h
    split at h
    · rename_i candidate' experiment' hreading
      split at h
      · rename_i proposed reason' hnext
        split_ifs at h with hsame
        · obtain ⟨rfl, rfl, rfl, rfl⟩ : candidate' = candidate ∧ experiment' = experiment ∧
            proposed = next ∧ reason' = reason := by simpa using h
          exact ⟨hreading, nextHoldback_moves (congrArg Prod.fst hnext), rfl⟩
      · cases h
    · cases h

structure Signal (sweep : Sweep) (policy : ProxyPolicy) (low high : ℚ) : Prop where
  read : ∃ candidate experiment, reading sweep policy = some (candidate, experiment) ∧
    experiment.hasSignal = true ∧ experiment.savingsPerRequestCiLowUsd = some low ∧
    experiment.savingsPerRequestCiHighUsd = some high

theorem nextHoldback_of_zero {current low high : ℚ} {experiment : ExperimentResult}
    (hsignal : experiment.hasSignal = true)
    (hlow : experiment.savingsPerRequestCiLowUsd = some low)
    (hhigh : experiment.savingsPerRequestCiHighUsd = some high) (h0 : low ≤ 0) (h1 : 0 ≤ high) :
    (nextHoldback current experiment).1 =
      if current < holdbackDefault then some holdbackDefault else none := by
  rw [nextHoldback, hlow, hhigh]
  dsimp only
  rw [hsignal, Bool.not_true, if_neg Bool.false_ne_true, if_neg (not_lt.2 h0)]
  by_cases hless : current < holdbackDefault
  · rw [if_pos ⟨hless, h0, h1⟩, if_pos hless]
  · rw [if_neg fun h => hless h.1, if_neg hless]

/-- The share after a sweep is what the controller proposes, or the share before it. -/
theorem sweepPolicy_holdback {sweep : Sweep} {policy : ProxyPolicy} {candidate : String}
    {experiment : ExperimentResult} (h : reading sweep policy = some (candidate, experiment)) :
    (sweepPolicy sweep policy).holdbackPercent =
      (nextHoldback policy.holdbackPercent experiment).1.getD policy.holdbackPercent := by
  rw [sweepPolicy, proposal, h]
  dsimp only
  rcases nextHoldback policy.holdbackPercent experiment with ⟨_ | proposed, reason⟩
  · rfl
  · dsimp only
    split_ifs with hsame
    · exact hsame.symm
    · rfl

/-- What one sweep does to the share of one policy. -/
structure SweepOk (sweep : Sweep) (before after : ProxyPolicy) : Prop where
  decreases : after.holdbackPercent < before.holdbackPercent →
    ∃ low high, Signal sweep before low high ∧ 0 < low
  floor : min holdbackFloor before.holdbackPercent ≤ after.holdbackPercent
  restores : ∀ low high, Signal sweep before low high → low ≤ 0 → 0 ≤ high →
    holdbackDefault ≤ after.holdbackPercent
  keeps : ∀ low high, Signal sweep before low high → low ≤ 0 → high < 0 →
    after.holdbackPercent = before.holdbackPercent

theorem sweepPolicy_ok (sweep : Sweep) (policy : ProxyPolicy) :
    SweepOk sweep policy (sweepPolicy sweep policy) where
  decreases hless := by
    rcases sweepPolicy_cases sweep policy with h | ⟨candidate, experiment, next, hr, hmove, h⟩
    · rw [h] at hless
      exact absurd hless (lt_irrefl _)
    · rw [h] at hless
      cases hmove with
      | down hsignal hlow hhigh hpos =>
        exact ⟨_, _, ⟨candidate, experiment, hr, hsignal, hlow, hhigh⟩, hpos⟩
      | restore _ _ _ _ hup => exact absurd hless (not_lt.2 hup.le)
  floor := by
    rcases sweepPolicy_cases sweep policy with h | ⟨candidate, experiment, next, -, hmove, h⟩
    · rw [h]
      exact min_le_right _ _
    · rw [h]
      cases hmove with
      | down _ _ _ _ hfloor => exact (min_le_left _ _).trans hfloor
      | restore =>
        exact (min_le_left _ _).trans (by norm_num [holdbackFloor, holdbackDefault])
  restores low high := by
    rintro ⟨candidate, experiment, hr, hsignal, hlow, hhigh⟩ h0 h1
    rw [sweepPolicy_holdback hr, nextHoldback_of_zero hsignal hlow hhigh h0 h1]
    split_ifs with hless
    · exact le_rfl
    · exact not_lt.1 hless
  keeps low high := by
    rintro ⟨candidate, experiment, hr, hsignal, hlow, hhigh⟩ h0 h1
    rw [sweepPolicy_holdback hr]
    cases hnext : (nextHoldback policy.holdbackPercent experiment).1 with
    | none => rfl
    | some next =>
      cases nextHoldback_moves hnext with
      | down _ hlow' _ hpos =>
        obtain rfl := Option.some.inj (hlow.symm.trans hlow')
        exact absurd hpos (not_lt.2 h0)
      | restore _ _ hhigh' hzero =>
        obtain rfl := Option.some.inj (hhigh.symm.trans hhigh')
        exact absurd hzero.2 (not_le.2 h1)

/-! ## Any number of sweeps -/

theorem step_getElem? {str : ℚ → String} {policies : List ProxyPolicy} {sweep : Sweep} {i : ℕ}
    {before after : ProxyPolicy} (hbefore : policies[i]? = some before)
    (hafter : (step str policies sweep)[i]? = some after) : after = sweepPolicy sweep before := by
  rw [step_eq_map, List.getElem?_map, hbefore] at hafter
  exact (Option.some.inj hafter).symm

theorem final_floor (str : ℚ → String) {sweeps : List Sweep} {policies : List ProxyPolicy} {i : ℕ}
    {start last : ProxyPolicy} (hstart : policies[i]? = some start)
    (hlast : (Runs.final (step str) policies sweeps)[i]? = some last) :
    min holdbackFloor start.holdbackPercent ≤ last.holdbackPercent := by
  induction sweeps generalizing policies start with
  | nil =>
    obtain rfl := Option.some.inj (hstart.symm.trans hlast)
    exact min_le_right _ _
  | cons sweep sweeps ih =>
    have hnext : (step str policies sweep)[i]? = some (sweepPolicy sweep start) := by
      rw [step_eq_map, List.getElem?_map, hstart]
      rfl
    calc min holdbackFloor start.holdbackPercent
        ≤ min holdbackFloor (sweepPolicy sweep start).holdbackPercent :=
          le_min (min_le_left _ _) (sweepPolicy_ok sweep start).floor
      _ ≤ last.holdbackPercent := ih hnext hlast

/-- The share of a policy over any sweeps. -/
theorem holdback_over_sweeps (str : ℚ → String) (policies : List ProxyPolicy)
    (sweeps : List Sweep) :
    (∀ p ∈ Runs.steps (step str) policies sweeps, ∀ (i : ℕ) (before after : ProxyPolicy),
      p.1[i]? = some before → (step str p.1 p.2)[i]? = some after → SweepOk p.2 before after) ∧
    ∀ (i : ℕ) (start last : ProxyPolicy), policies[i]? = some start →
      (Runs.final (step str) policies sweeps)[i]? = some last →
      min holdbackFloor start.holdbackPercent ≤ last.holdbackPercent := by
  refine ⟨fun p _ i before after hbefore hafter => ?_, fun i start last => final_floor str⟩
  rw [step_getElem? hbefore hafter]
  exact sweepPolicy_ok p.2 before

def dearer : ExperimentResult where
  incumbentModel := "gpt-4o"
  candidateModel := "gpt-4o-mini"
  controlRequests := 30
  treatmentRequests := 30
  controlAvgCostUsd := some (1 / 100)
  treatmentAvgCostUsd := some (3 / 100)
  savingsPerRequestUsd := some (-2 / 100)
  savingsPerRequestCiLowUsd := some (-3 / 100)
  savingsPerRequestCiHighUsd := some (-1 / 100)
  measuredSavingsUsd := some (-60 / 100)
  measuredSavingsCiLowUsd := some (-90 / 100)
  measuredSavingsCiHighUsd := some (-30 / 100)
  hasSignal := true

def dearerSweep : Sweep := ⟨"org", "project", 0, 30, fun _ _ _ => some dearer⟩

def reducedPolicy : ProxyPolicy :=
  ⟨"policy", "project", "model_downshift", "gpt-4o", some "gpt-4o-mini", true, 1 / 100, none⟩

/-- Savings that have turned negative leave a reduced share where it is. -/
theorem negative_not_restored :
    ¬ ∀ (policies : List ProxyPolicy) (sweeps : List Sweep),
      ∀ p ∈ Runs.steps (step fun _ => "") policies sweeps,
        ∀ (i : ℕ) (before after : ProxyPolicy) (low high : ℚ), p.1[i]? = some before →
          (step (fun _ => "") p.1 p.2)[i]? = some after → Signal p.2 before low high → low ≤ 0 →
          holdbackDefault ≤ after.holdbackPercent := by
  intro h
  have hsame : sweepPolicy dearerSweep reducedPolicy = reducedPolicy := by decide +kernel
  have h5 := h [reducedPolicy] [dearerSweep] ([reducedPolicy], dearerSweep)
    List.mem_cons_self 0 reducedPolicy reducedPolicy (-3 / 100) (-1 / 100) rfl
    (by rw [step_eq_map]; exact congrArg some hsame)
    ⟨"gpt-4o-mini", dearer, rfl, rfl, rfl, rfl⟩ (by norm_num)
  exact absurd h5 (by norm_num [holdbackDefault, reducedPolicy])

end Varsten.Engine.Holdback
