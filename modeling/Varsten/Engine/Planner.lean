import Varsten.Python.Text

/-!
# The optimization planner

The classification of a request, one candidate for each lever, the learned priors laid over them,
and the action that is selected. `lower` is `str.lower`.
-/

namespace Varsten.Engine.Planner

open Python.Utf8 (Text)
open Python.Text (strip)

inductive CandidateStatus where
  | eligible
  | recommendable
  | rejected
  | shadowOnly
  | unavailable
deriving DecidableEq

inductive QualityGateStatus where
  | passed
  | notRequired
  | required
  | blocked
deriving DecidableEq

inductive OptimizationRisk where
  | low
  | medium
  | high
  | unknown
deriving DecidableEq

inductive PlannerLever where
  | exactCache
  | semanticCache
  | modelRouting
  | tokenTrim
  | promptCompression
deriving DecidableEq

def PlannerLever.name : PlannerLever → String
  | .exactCache => "exact_cache"
  | .semanticCache => "semantic_cache"
  | .modelRouting => "model_routing"
  | .tokenTrim => "token_trim"
  | .promptCompression => "prompt_compression"

/-- The context of a request that the classification reads. -/
structure RequestContext where
  customerId : Option String
  externalUserId : Option String
  userId : Option String
  taskType : Option String
  taskConfidence : Option ℚ
  riskLevel : Option String

/-- What `normalize_request_facts` makes of a body, or what the caller gives. -/
structure RequestFacts where
  hasTools : Bool
  wantsJson : Bool
  hasMultimodal : Bool
  freshnessSignal : Bool
  personalizedSignal : Bool
  highRiskSignal : Bool

structure RequestClassification where
  riskLevel : OptimizationRisk
  hasTools : Bool
  wantsJson : Bool
  hasMultimodal : Bool
  personalized : Bool
  freshnessSensitive : Bool
  unknownTask : Bool

structure OutcomePrior where
  lever : String
  readinessStatus : String
  averageGrossSavings : Option String

structure PlannerInput where
  facts : RequestFacts
  context : RequestContext
  optimizeEnabled : Bool
  exactCacheEnabled : Bool
  semanticCacheEnabled : Bool
  routingPolicyPresent : Bool
  trimPolicyPresent : Bool
  compressionPolicyPresent : Bool
  outcomePriors : List OutcomePrior

/-- `blockers` and `outcomePrior` are the parts of the reason detail. -/
structure CandidateOptimization where
  lever : PlannerLever
  status : CandidateStatus
  qualityGate : QualityGateStatus
  risk : OptimizationRisk
  reasonCode : String
  blockers : List String
  outcomePrior : Option OutcomePrior
  estimatedSavings : Option String

/-! ## Classification -/

section Classify

variable (lower : Text → Text)

def highRiskTaskFragments : List String :=
  ["compliance", "financial", "health", "hr", "legal", "medical", "policy", "security"]

def hasHighRiskSignal (taskType : Option String) (facts : RequestFacts) : Bool :=
  let task := lower ((taskType.getD "").toList)
  highRiskTaskFragments.any (fun fragment => task.tails.any (fragment.toList.isPrefixOf ·)) ||
    facts.highRiskSignal

def riskFromContext (rawRisk : Option String) : OptimizationRisk :=
  let normalized := String.ofList (lower (strip (rawRisk.getD "").toList))
  if normalized = "low" then .low
  else if normalized = "medium" then .medium
  else if normalized = "high" then .high
  else .unknown

def given (s : Option String) : Bool := s.any (· ≠ "")

def classifyRequest (facts : RequestFacts) (ctx : RequestContext) : RequestClassification where
  riskLevel :=
    if hasHighRiskSignal lower ctx.taskType facts then .high
    else riskFromContext lower ctx.riskLevel
  hasTools := facts.hasTools
  wantsJson := facts.wantsJson
  hasMultimodal := facts.hasMultimodal
  personalized :=
    given ctx.customerId || given ctx.externalUserId || given ctx.userId ||
      facts.personalizedSignal
  freshnessSensitive := facts.freshnessSignal
  unknownTask := !given ctx.taskType || ctx.taskConfidence.any (· < 1 / 2)

end Classify

def RequestClassification.riskyOrUnknown (c : RequestClassification) : Bool :=
  c.riskLevel = .high || c.riskLevel = .unknown || c.unknownTask

/-! ## Blockers -/

def signals (xs : List (Bool × String)) : List String := (xs.filter (·.1)).map (·.2)

def routingBlockers (c : RequestClassification) : List String :=
  signals [(c.riskyOrUnknown, "risky_or_unknown"), (c.personalized, "personalized_request"),
    (c.hasMultimodal, "multimodal_content")]

def trimBlockers (c : RequestClassification) : List String :=
  signals [(c.riskyOrUnknown, "risky_or_unknown"), (c.hasTools, "tools_present"),
    (c.wantsJson, "json_output"), (c.hasMultimodal, "multimodal_content")]

def cacheBlockers (c : RequestClassification) : List String :=
  signals [(c.riskyOrUnknown, "risky_or_unknown"), (c.personalized, "personalized_request"),
    (c.freshnessSensitive, "freshness_sensitive"), (c.hasTools, "tools_present"),
    (c.hasMultimodal, "multimodal_content")]

def semanticBlockers (c : RequestClassification) : List String :=
  cacheBlockers c ++ signals [(c.wantsJson, "json_output")]

/-! ## Candidates -/

def unavailable (lever : PlannerLever) (c : RequestClassification) (reasonCode : String) :
    CandidateOptimization :=
  ⟨lever, .unavailable, .blocked, c.riskLevel, reasonCode, [], none, none⟩

def rejected (lever : PlannerLever) (c : RequestClassification) (reasonCode : String)
    (blockers : List String) : CandidateOptimization :=
  ⟨lever, .rejected, .blocked, c.riskLevel, reasonCode, blockers, none, none⟩

def shadowOnly (lever : PlannerLever) (reasonCode : String) : CandidateOptimization :=
  ⟨lever, .shadowOnly, .required, .medium, reasonCode, [], none, none⟩

section Builders

variable (i : PlannerInput) (c : RequestClassification)

def gatedCandidate (lever : PlannerLever) (present : Bool) (missing : String)
    (blockers : List String) (blocked : String) (cleared : CandidateOptimization) :
    CandidateOptimization :=
  if !i.optimizeEnabled then unavailable lever c "optimization_disabled"
  else if !present then unavailable lever c missing
  else if blockers ≠ [] then rejected lever c blocked blockers
  else cleared

def exactCacheCandidate : CandidateOptimization :=
  gatedCandidate i c .exactCache i.exactCacheEnabled "exact_cache_disabled" (cacheBlockers c)
    "cache_requires_explicit_policy"
    ⟨.exactCache, .eligible, .notRequired, .low, "exact_cache_candidate", [], none, none⟩

def semanticCacheCandidate : CandidateOptimization :=
  gatedCandidate i c .semanticCache i.semanticCacheEnabled "semantic_cache_disabled"
    (semanticBlockers c) "semantic_cache_blocked_by_risk"
    (shadowOnly .semanticCache "semantic_cache_requires_quality_gate")

def modelRoutingCandidate : CandidateOptimization :=
  gatedCandidate i c .modelRouting i.routingPolicyPresent "routing_policy_missing"
    (routingBlockers c) "routing_blocked_by_risk"
    (shadowOnly .modelRouting "routing_requires_eval_gate")

def tokenTrimCandidate : CandidateOptimization :=
  gatedCandidate i c .tokenTrim i.trimPolicyPresent "trim_policy_missing" (trimBlockers c)
    "trim_blocked_by_context_risk" (shadowOnly .tokenTrim "trim_requires_quality_gate")

def promptCompressionCandidate : CandidateOptimization :=
  gatedCandidate i c .promptCompression i.compressionPolicyPresent "compression_policy_missing"
    (trimBlockers c) "compression_blocked_by_context_risk"
    (shadowOnly .promptCompression "compression_requires_quality_gate")

end Builders

/-! ## Learned priors -/

def normalizeLever (lever : String) : String :=
  if lever = "model_downshift" then "model_routing" else lever

def priorFor (lever : PlannerLever) (priors : List OutcomePrior) : Option OutcomePrior :=
  priors.find? fun p => normalizeLever p.lever = lever.name

def OutcomePrior.ready (p : OutcomePrior) : Bool :=
  p.readinessStatus = "recommendable" || p.readinessStatus = "auto_apply_candidate"

def withOutcomePrior (x : CandidateOptimization) (i : PlannerInput) : CandidateOptimization :=
  match priorFor x.lever i.outcomePriors with
  | none => x
  | some prior =>
    let x := { x with outcomePrior := some prior }
    if x.status = .rejected then x
    else if x.status = .unavailable ∧ ¬ (x.reasonCode = "routing_policy_missing" ∨
        x.reasonCode = "trim_policy_missing") then x
    else if !prior.ready then x
    else { x with
      status := .recommendable
      qualityGate := .passed
      risk := .low
      reasonCode := "outcome_prior_recommendable"
      estimatedSavings := prior.averageGrossSavings }

/-! ## The plan -/

inductive Mode where
  | enforce
  | shadow
  | observeOnly
deriving DecidableEq

/-- `action` is `none` for `observe`. -/
structure SelectedAction where
  action : Option PlannerLever
  mode : Mode
  reasonCode : String

def CandidateStatus.enforceable : CandidateStatus → Bool
  | .eligible | .recommendable => true
  | _ => false

/-- `by_lever`, where the last candidate of a lever counts. -/
def byLever (candidates : List CandidateOptimization) (lever : PlannerLever) :
    Option CandidateOptimization := candidates.reverse.find? (·.lever = lever)

/-- The loop over the levers by priority, and the first shadow candidate it has passed. -/
def selectLoop (candidates : List CandidateOptimization) :
    Option CandidateOptimization → List PlannerLever → SelectedAction
  | shadow, [] => shadow.elim ⟨none, .observeOnly, "no_actionable_candidate"⟩ fun x =>
      ⟨some x.lever, .shadow, x.reasonCode⟩
  | shadow, lever :: levers =>
    match byLever candidates lever with
    | none => selectLoop candidates shadow levers
    | some x =>
      if x.status.enforceable then ⟨some lever, .enforce, x.reasonCode⟩
      else selectLoop candidates
        (if shadow.isNone ∧ x.status = .shadowOnly then some x else shadow) levers

def selectionPriority : List PlannerLever :=
  [.exactCache, .semanticCache, .modelRouting, .tokenTrim, .promptCompression]

def selectAction (candidates : List CandidateOptimization) (optimizeEnabled : Bool) :
    SelectedAction :=
  if !optimizeEnabled then ⟨none, .observeOnly, "optimization_disabled"⟩
  else selectLoop candidates none selectionPriority

structure OptimizationPlan where
  classification : RequestClassification
  candidates : List CandidateOptimization
  selected : SelectedAction

def buildOptimizationPlan (lower : Text → Text) (i : PlannerInput) : OptimizationPlan :=
  let c := classifyRequest lower i.facts i.context
  let candidates := [withOutcomePrior (exactCacheCandidate i c) i,
    withOutcomePrior (semanticCacheCandidate i c) i,
    withOutcomePrior (modelRoutingCandidate i c) i,
    withOutcomePrior (tokenTrimCandidate i c) i,
    withOutcomePrior (promptCompressionCandidate i c) i]
  ⟨c, candidates, selectAction candidates i.optimizeEnabled⟩

/-! ## What a candidate's status says -/

@[simp] theorem withOutcomePrior_lever (x : CandidateOptimization) (i : PlannerInput) :
    (withOutcomePrior x i).lever = x.lever := by
  unfold withOutcomePrior
  cases priorFor x.lever i.outcomePriors with
  | none => rfl
  | some prior =>
    dsimp only
    split_ifs <;> rfl

def readyPrior (i : PlannerInput) (lever : PlannerLever) : Bool :=
  (priorFor lever i.outcomePriors).any (·.ready)

def CandidateOptimization.policyless (x : CandidateOptimization) : Prop :=
  x.status = .unavailable ∧
    (x.reasonCode = "routing_policy_missing" ∨ x.reasonCode = "trim_policy_missing")

theorem withOutcomePrior_enforceable (x : CandidateOptimization) (i : PlannerInput) :
    (withOutcomePrior x i).status.enforceable ↔ x.status.enforceable ∨
      (readyPrior i x.lever ∧ (x.status = .shadowOnly ∨ x.policyless)) := by
  unfold withOutcomePrior readyPrior CandidateOptimization.policyless
  cases priorFor x.lever i.outcomePriors with
  | none => simp
  | some prior =>
    cases hs : x.status <;> cases hp : prior.ready <;>
      by_cases hm : x.reasonCode = "routing_policy_missing" ∨
        x.reasonCode = "trim_policy_missing" <;>
      simp [hm, hp, CandidateStatus.enforceable]

section Status

variable (i : PlannerInput) (c : RequestClassification)

theorem exactCache_enforceable :
    (withOutcomePrior (exactCacheCandidate i c) i).status.enforceable ↔
      i.optimizeEnabled ∧ i.exactCacheEnabled ∧ cacheBlockers c = [] := by
  rw [withOutcomePrior_enforceable]
  unfold exactCacheCandidate gatedCandidate CandidateOptimization.policyless
  split_ifs <;> simp_all [unavailable, rejected, CandidateStatus.enforceable]

theorem semanticCache_enforceable :
    (withOutcomePrior (semanticCacheCandidate i c) i).status.enforceable ↔
      i.optimizeEnabled ∧ i.semanticCacheEnabled ∧ semanticBlockers c = [] ∧
        readyPrior i .semanticCache := by
  rw [withOutcomePrior_enforceable]
  unfold semanticCacheCandidate gatedCandidate CandidateOptimization.policyless
  split_ifs <;> simp_all [unavailable, rejected, shadowOnly, CandidateStatus.enforceable]

theorem modelRouting_enforceable :
    (withOutcomePrior (modelRoutingCandidate i c) i).status.enforceable ↔
      i.optimizeEnabled ∧ (i.routingPolicyPresent → routingBlockers c = []) ∧
        readyPrior i .modelRouting := by
  rw [withOutcomePrior_enforceable]
  unfold modelRoutingCandidate gatedCandidate CandidateOptimization.policyless
  split_ifs <;> simp_all [unavailable, rejected, shadowOnly, CandidateStatus.enforceable]

theorem tokenTrim_enforceable :
    (withOutcomePrior (tokenTrimCandidate i c) i).status.enforceable ↔
      i.optimizeEnabled ∧ (i.trimPolicyPresent → trimBlockers c = []) ∧
        readyPrior i .tokenTrim := by
  rw [withOutcomePrior_enforceable]
  unfold tokenTrimCandidate gatedCandidate CandidateOptimization.policyless
  split_ifs <;> simp_all [unavailable, rejected, shadowOnly, CandidateStatus.enforceable]

theorem promptCompression_enforceable :
    (withOutcomePrior (promptCompressionCandidate i c) i).status.enforceable ↔
      i.optimizeEnabled ∧ i.compressionPolicyPresent ∧ trimBlockers c = [] ∧
        readyPrior i .promptCompression := by
  rw [withOutcomePrior_enforceable]
  unfold promptCompressionCandidate gatedCandidate CandidateOptimization.policyless
  split_ifs <;> simp_all [unavailable, rejected, shadowOnly, CandidateStatus.enforceable]

end Status

/-! ## The selection -/

def enforced (candidates : List CandidateOptimization) (lever : PlannerLever) : Bool :=
  (byLever candidates lever).any (·.status.enforceable)

def SelectedAction.enforces (a : SelectedAction) (lever : PlannerLever) : Prop :=
  a.mode = .enforce ∧ a.action = some lever

theorem selectLoop_enforces (candidates : List CandidateOptimization)
    (shadow : Option CandidateOptimization) (levers : List PlannerLever) (lever : PlannerLever) :
    (selectLoop candidates shadow levers).enforces lever ↔
      levers.find? (enforced candidates) = some lever := by
  induction levers generalizing shadow with
  | nil => cases shadow <;> simp [selectLoop, SelectedAction.enforces]
  | cons l levers ih =>
    unfold selectLoop
    cases hl : byLever candidates l with
    | none => simp [enforced, hl, ih]
    | some x =>
      by_cases hx : x.status.enforceable
      · simp [enforced, hl, hx, SelectedAction.enforces]
      · simp [enforced, hl, hx, ih]

/-! ## What the plan authorizes -/

/-- The levers a request may use: of the flags, the blockers and the priors alone. -/
def authorized (i : PlannerInput) (c : RequestClassification) : PlannerLever → Bool
  | .exactCache => i.optimizeEnabled && i.exactCacheEnabled && (cacheBlockers c).isEmpty
  | .semanticCache =>
    i.optimizeEnabled && i.semanticCacheEnabled && (semanticBlockers c).isEmpty &&
      readyPrior i .semanticCache
  | .modelRouting =>
    i.optimizeEnabled && (!i.routingPolicyPresent || (routingBlockers c).isEmpty) &&
      readyPrior i .modelRouting
  | .tokenTrim =>
    i.optimizeEnabled && (!i.trimPolicyPresent || (trimBlockers c).isEmpty) &&
      readyPrior i .tokenTrim
  | .promptCompression =>
    i.optimizeEnabled && i.compressionPolicyPresent && (trimBlockers c).isEmpty &&
      readyPrior i .promptCompression

section Plan

variable (lower : Text → Text) (i : PlannerInput)

theorem gatedCandidate_lever (c : RequestClassification) (lever : PlannerLever) (present : Bool)
    (missing blocked : String) (blockers : List String) (cleared : CandidateOptimization)
    (h : cleared.lever = lever) :
    (gatedCandidate i c lever present missing blockers blocked cleared).lever = lever := by
  unfold gatedCandidate
  split_ifs <;> first | rfl | exact h

/-- The candidate of a lever. -/
def candidate (c : RequestClassification) : PlannerLever → CandidateOptimization
  | .exactCache => exactCacheCandidate i c
  | .semanticCache => semanticCacheCandidate i c
  | .modelRouting => modelRoutingCandidate i c
  | .tokenTrim => tokenTrimCandidate i c
  | .promptCompression => promptCompressionCandidate i c

@[simp] theorem candidate_lever (c : RequestClassification) (lever : PlannerLever) :
    (candidate i c lever).lever = lever := by
  cases lever <;> exact gatedCandidate_lever _ _ _ _ _ _ _ _ rfl

theorem candidate_enforceable (c : RequestClassification) (lever : PlannerLever) :
    (withOutcomePrior (candidate i c lever) i).status.enforceable = authorized i c lever := by
  rw [Bool.eq_iff_iff]
  cases lever with
  | exactCache => simpa [candidate, authorized, and_assoc] using exactCache_enforceable i c
  | semanticCache => simpa [candidate, authorized, and_assoc] using semanticCache_enforceable i c
  | modelRouting =>
    simpa [candidate, authorized, and_assoc, imp_iff_not_or] using modelRouting_enforceable i c
  | tokenTrim =>
    simpa [candidate, authorized, and_assoc, imp_iff_not_or] using tokenTrim_enforceable i c
  | promptCompression =>
    simpa [candidate, authorized, and_assoc] using promptCompression_enforceable i c

theorem candidates_eq :
    (buildOptimizationPlan lower i).candidates =
      selectionPriority.map fun lever =>
        withOutcomePrior (candidate i (classifyRequest lower i.facts i.context) lever) i := rfl

theorem candidates_enforceable :
    ∀ x ∈ (buildOptimizationPlan lower i).candidates,
      x.status.enforceable = authorized i (classifyRequest lower i.facts i.context) x.lever := by
  intro x hx
  rw [candidates_eq] at hx
  obtain ⟨lever, -, rfl⟩ := List.mem_map.1 hx
  rw [candidate_enforceable, withOutcomePrior_lever, candidate_lever]

theorem enforced_candidates (lever : PlannerLever) :
    enforced (buildOptimizationPlan lower i).candidates lever =
      authorized i (classifyRequest lower i.facts i.context) lever := by
  rw [← candidate_enforceable, candidates_eq]
  cases lever <;> simp [enforced, byLever, selectionPriority]

theorem selected_enforces (lever : PlannerLever) :
    (buildOptimizationPlan lower i).selected.enforces lever ↔ i.optimizeEnabled ∧
      selectionPriority.find? (authorized i (classifyRequest lower i.facts i.context)) =
        some lever := by
  have hf : enforced (buildOptimizationPlan lower i).candidates =
      authorized i (classifyRequest lower i.facts i.context) :=
    funext (enforced_candidates lower i)
  rw [← hf, ← selectLoop_enforces _ none]
  cases ho : i.optimizeEnabled <;>
    simp [buildOptimizationPlan, selectAction, ho, SelectedAction.enforces]

end Plan

/-! ## Blocked and absent levers -/

def policyPresent (i : PlannerInput) : PlannerLever → Bool
  | .exactCache | .semanticCache => true
  | .modelRouting => i.routingPolicyPresent
  | .tokenTrim => i.trimPolicyPresent
  | .promptCompression => i.compressionPolicyPresent

/-- No blocked lever is enforceable and no absent one is enforced. -/
structure Restrained (i : PlannerInput) (p : OptimizationPlan) : Prop where
  routing : routingBlockers p.classification ≠ [] →
    ∀ x ∈ p.candidates, x.lever = .modelRouting → ¬ x.status.enforceable
  trim : trimBlockers p.classification ≠ [] → ∀ x ∈ p.candidates,
    x.lever = .tokenTrim ∨ x.lever = .promptCompression → ¬ x.status.enforceable
  absent : ∀ lever, policyPresent i lever = false → ¬ p.selected.enforces lever

def cacheFirst (i : PlannerInput) (c : RequestClassification) : Bool :=
  authorized i c .exactCache || authorized i c .semanticCache

/-- A ready prior of a lever without a policy meets no blocker and comes after another lever. -/
structure Overlaid (i : PlannerInput) (c : RequestClassification) : Prop where
  routing : i.optimizeEnabled → i.routingPolicyPresent = false → readyPrior i .modelRouting →
    routingBlockers c = [] ∧ cacheFirst i c
  trim : i.optimizeEnabled → i.trimPolicyPresent = false → readyPrior i .tokenTrim →
    trimBlockers c = [] ∧ (cacheFirst i c ∨ authorized i c .modelRouting)

theorem find?_selectionPriority (f : PlannerLever → Bool) (lever : PlannerLever) :
    selectionPriority.find? f = some lever ↔ f lever ∧ match lever with
      | .exactCache => True
      | .semanticCache => f .exactCache = false
      | .modelRouting => f .exactCache = false ∧ f .semanticCache = false
      | .tokenTrim => f .exactCache = false ∧ f .semanticCache = false ∧ f .modelRouting = false
      | .promptCompression => f .exactCache = false ∧ f .semanticCache = false ∧
          f .modelRouting = false ∧ f .tokenTrim = false := by
  unfold selectionPriority
  cases h1 : f .exactCache <;> cases h2 : f .semanticCache <;> cases h3 : f .modelRouting <;>
    cases h4 : f .tokenTrim <;> cases h5 : f .promptCompression <;> cases lever <;>
    simp [h1, h2, h3, h4, h5]

theorem restrained_iff_authorized (lower : Text → Text) (i : PlannerInput)
    (c : RequestClassification) (hc : c = classifyRequest lower i.facts i.context) :
    Restrained i (buildOptimizationPlan lower i) ↔
      (routingBlockers c ≠ [] → authorized i c .modelRouting = false) ∧
      (trimBlockers c ≠ [] →
        authorized i c .tokenTrim = false ∧ authorized i c .promptCompression = false) ∧
      ∀ lever, policyPresent i lever = false →
        ¬ (i.optimizeEnabled ∧ selectionPriority.find? (authorized i c) = some lever) := by
  have hmem (lever) : withOutcomePrior (candidate i c lever) i ∈
      (buildOptimizationPlan lower i).candidates := by
    rw [candidates_eq, ← hc]
    exact List.mem_map_of_mem (by cases lever <;> simp [selectionPriority])
  have hcl : (buildOptimizationPlan lower i).classification = c := hc.symm
  have hx := candidates_enforceable lower i
  rw [← hc] at hx
  constructor
  · intro h
    have hno (lever) (hn : ¬ (withOutcomePrior (candidate i c lever) i).status.enforceable) :
        authorized i c lever = false := by
      rw [← candidate_enforceable]
      exact Bool.eq_false_iff.2 hn
    refine ⟨fun hb => hno _ ?_, fun hb => ⟨hno _ ?_, hno _ ?_⟩, fun lever hp hs => ?_⟩
    · exact h.routing (hcl.symm ▸ hb) _ (hmem .modelRouting) (by simp)
    · exact h.trim (hcl.symm ▸ hb) _ (hmem .tokenTrim) (by simp)
    · exact h.trim (hcl.symm ▸ hb) _ (hmem .promptCompression) (by simp)
    · exact h.absent lever hp ((selected_enforces lower i lever).2 (hc ▸ hs))
  · rintro ⟨hr, ht, ha⟩
    refine ⟨fun hb x hm hl => ?_, fun hb x hm hl => ?_, fun lever hp hs => ?_⟩
    · rw [hx x hm, hl, hr (hc ▸ hb)]
      exact Bool.false_ne_true
    · obtain ⟨htt, htc⟩ := ht (hc ▸ hb)
      rw [hx x hm]
      rcases hl with hl | hl <;> simp [hl, htt, htc]
    · exact ha lever hp (hc ▸ (selected_enforces lower i lever).1 hs)

theorem restrained_iff (lower : Text → Text) (i : PlannerInput) :
    Restrained i (buildOptimizationPlan lower i) ↔
      Overlaid i (classifyRequest lower i.facts i.context) := by
  rw [restrained_iff_authorized lower i _ rfl]
  generalize classifyRequest lower i.facts i.context = c
  constructor
  · rintro ⟨hr, ht, ha⟩
    refine ⟨fun ho hp hready => ?_, fun ho hp hready => ?_⟩
    · have hauth : authorized i c .modelRouting = true := by simp [authorized, ho, hp, hready]
      refine ⟨by_contra fun hb => by simp [hr hb] at hauth, by_contra fun hcf => ?_⟩
      obtain ⟨he, hs⟩ : authorized i c .exactCache = false ∧
          authorized i c .semanticCache = false := by simpa [cacheFirst] using hcf
      exact ha .modelRouting hp ⟨ho, (find?_selectionPriority _ _).2 ⟨hauth, he, hs⟩⟩
    · have hauth : authorized i c .tokenTrim = true := by simp [authorized, ho, hp, hready]
      refine ⟨by_contra fun hb => by simp [(ht hb).1] at hauth, by_contra fun hcf => ?_⟩
      obtain ⟨⟨he, hs⟩, hm⟩ : (authorized i c .exactCache = false ∧
          authorized i c .semanticCache = false) ∧ authorized i c .modelRouting = false := by
        simpa [cacheFirst] using hcf
      exact ha .tokenTrim hp ⟨ho, (find?_selectionPriority _ _).2 ⟨hauth, he, hs, hm⟩⟩
  · intro h
    refine ⟨fun hb => ?_, fun hb => ⟨?_, by simp [authorized, hb]⟩, fun lever hp hs => ?_⟩
    · by_contra hauth
      obtain ⟨ho, hp, hready⟩ : i.optimizeEnabled = true ∧ i.routingPolicyPresent = false ∧
          readyPrior i .modelRouting = true := by simpa [authorized, hb] using hauth
      exact hb (h.routing ho hp hready).1
    · by_contra hauth
      obtain ⟨ho, hp, hready⟩ : i.optimizeEnabled = true ∧ i.trimPolicyPresent = false ∧
          readyPrior i .tokenTrim = true := by simpa [authorized, hb] using hauth
      exact hb (h.trim ho hp hready).1
    · obtain ⟨ho, hf⟩ := hs
      obtain ⟨hauth, hfirst⟩ := (find?_selectionPriority _ _).1 hf
      cases lever with
      | exactCache => simp [policyPresent] at hp
      | semanticCache => simp [policyPresent] at hp
      | modelRouting =>
        have hready : readyPrior i .modelRouting = true := by
          simp only [authorized, Bool.and_eq_true] at hauth
          exact hauth.2
        simpa [cacheFirst, hfirst.1, hfirst.2] using (h.routing ho hp hready).2
      | tokenTrim =>
        have hready : readyPrior i .tokenTrim = true := by
          simp only [authorized, Bool.and_eq_true] at hauth
          exact hauth.2
        simpa [cacheFirst, hfirst.1, hfirst.2.1, hfirst.2.2] using (h.trim ho hp hready).2
      | promptCompression =>
        have hp : i.compressionPolicyPresent = false := hp
        simp [authorized, hp] at hauth

/-- A multimodal request of a low risk task, with no policy and a ready routing prior. -/
def multimodalInput : PlannerInput where
  facts := ⟨false, false, true, false, false, false⟩
  context := ⟨none, none, none, some "classification.intent", some (9 / 10), some "low"⟩
  optimizeEnabled := true
  exactCacheEnabled := true
  semanticCacheEnabled := false
  routingPolicyPresent := false
  trimPolicyPresent := false
  compressionPolicyPresent := false
  outcomePriors := [⟨"model_downshift", "recommendable", some "0.10"⟩]

theorem multimodal_routing_enforced : ¬ Restrained multimodalInput
    (buildOptimizationPlan (fun s => s) multimodalInput) := by
  intro h
  refine h.absent .modelRouting rfl ((selected_enforces _ _ _).2 ⟨rfl, ?_⟩)
  decide +kernel

end Varsten.Engine.Planner
