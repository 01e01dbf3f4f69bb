import Varsten.Engine.RouteIdentity
import Varsten.Machine.Gathered
import Varsten.Machine.RankedCut
import Varsten.Python.Precision

/-!
# Outcome scoring

Decisions and their feedback gathered by segment, the readiness of each segment, and the ranked
and cut list of candidates. A `Decimal` is its value, and every sum, product and quotient is in the
default context. A `Counter` is the list of what it was updated with. `lower` is `str.lower`, and
`half` is what `Decimal(str(0.5 ** x))` gives for an age in seconds and a half-life in days.
-/

namespace Varsten.Engine.Outcomes

open Python.Utf8 (Text)
open Python.Decimals (roundHalfUp roundHalfEven quantize)
open Python.Precision (context)
open RouteIdentity (canonicalRouteKey)
open Machine.Gathered (Dict gather update)

/-! ## Rows -/

/-- `savings_proof`: its confidence, and what `_to_decimal` makes of its gross savings. -/
structure SavingsProof where
  confidence : Option String
  grossSavings : Option ℚ

/-- A row of `request_decision_events`; `createdAt` is in seconds. -/
structure DecisionRow where
  id : String
  optimizationApplied : Bool
  lever : Option String
  cacheStatus : Option String
  decisionType : Option String
  routeKey : Option String
  feature : Option String
  workflow : Option String
  requestType : Option String
  taskType : Option String
  riskLevel : Option String
  providerRequested : Option String
  modelRequested : Option String
  providerChosen : Option String
  modelChosen : Option String
  realizedSavings : Option ℚ
  proof : Option SavingsProof
  pricingStatus : Option String
  qualityOk : Option Bool
  createdAt : ℚ

structure FeedbackRow where
  decisionEventId : Option String
  outcome : Option String
  failureMode : Option String

structure SegmentKey where
  routeKey : String
  taskType : String
  riskLevel : String
  providerRequested : String
  modelRequested : String
  providerChosen : String
  modelChosen : String
  lever : String
deriving DecidableEq

/-- `str(value or "unknown")`. -/
def orUnknown (value : Option String) : String := (value.filter (· ≠ "")).getD "unknown"

def leverOf (row : DecisionRow) : Option String :=
  match row.lever.filter (· ≠ "") with
  | some lever => some lever
  | none =>
    if row.cacheStatus = some "semantic" then some "semantic_cache"
    else if row.cacheStatus = some "hit" then some "exact_cache"
    else if row.decisionType = some "cache" then some "cache"
    else none

def routeKeyOf (lower : Text → Text) (row : DecisionRow) : String :=
  (row.routeKey.filter (· ≠ "")).getD
    (canonicalRouteKey lower ⟨row.feature, row.workflow, row.requestType, row.taskType⟩)

def segmentKey (lower : Text → Text) (row : DecisionRow) : Option SegmentKey :=
  (leverOf row).map fun lever => {
    routeKey := routeKeyOf lower row
    taskType := orUnknown row.taskType
    riskLevel := orUnknown row.riskLevel
    providerRequested := orUnknown row.providerRequested
    modelRequested := orUnknown row.modelRequested
    providerChosen := orUnknown row.providerChosen
    modelChosen := orUnknown row.modelChosen
    lever }

def decisionSavings (row : DecisionRow) : Option ℚ :=
  match row.realizedSavings with
  | some value => some value
  | none => row.proof.bind (·.grossSavings)

/-- How far back the evidence of a sweep counts in full, and how fast it fades. -/
structure Decay where
  now : Option ℚ
  halfLifeDays : Option ℤ
  half : ℚ → ℤ → ℚ

def decayWeight (decay : Decay) (row : DecisionRow) : ℚ :=
  match decay.now, decay.halfLifeDays with
  | some now, some days =>
    if days ≤ 0 then 1
    else
      let age := max (now - row.createdAt) 0
      if age < 86400 then 1 else decay.half age days
  | _, _ => 1

/-! ## Segments -/

structure SegmentStats where
  sampleWeight : ℚ
  measuredSavingsWeight : ℚ
  rawSampleCount : ℕ
  rawMeasuredSavingsCount : ℕ
  totalGrossSavings : ℚ
  pricingStatuses : List String
  proofConfidences : List String
  qualityMeasuredWeight : ℚ
  qualityPassedWeight : ℚ
  rawQualityMeasuredCount : ℕ
  rawQualityPassedCount : ℕ
  feedbackWeight : ℚ
  feedbackDecisionWeights : Dict String ℚ
  rawFeedbackCount : ℕ
  acceptedWeight : ℚ
  correctiveWeight : ℚ
  rawAcceptedCount : ℕ
  rawCorrectiveCount : ℕ
  failureModes : List String

def SegmentStats.empty : SegmentStats :=
  ⟨0, 0, 0, 0, 0, [], [], 0, 0, 0, 0, 0, [], 0, 0, 0, 0, 0, []⟩

/-- `a += x` where the condition holds. -/
def accumulate (a x : ℚ) (holds : Bool) : ℚ := if holds then context (a + x) else a

def tally (n : ℕ) (holds : Bool) : ℕ := if holds then n + 1 else n

/-- `total_gross_savings += savings * weight`, where there are savings. -/
def addSavings (total weight : ℚ) (savings : Option ℚ) : ℚ :=
  match savings with
  | some value => context (total + context (value * weight))
  | none => total

def SegmentStats.addDecision (s : SegmentStats) (row : DecisionRow) (weight : ℚ) : SegmentStats :=
  let measured := (decisionSavings row).isSome
  { s with
    rawSampleCount := s.rawSampleCount + 1
    sampleWeight := context (s.sampleWeight + weight)
    rawMeasuredSavingsCount := tally s.rawMeasuredSavingsCount measured
    measuredSavingsWeight := accumulate s.measuredSavingsWeight weight measured
    totalGrossSavings := addSavings s.totalGrossSavings weight (decisionSavings row)
    pricingStatuses := s.pricingStatuses ++ [orUnknown row.pricingStatus]
    proofConfidences := s.proofConfidences ++
      (row.proof.map fun proof => orUnknown proof.confidence).toList
    rawQualityMeasuredCount := tally s.rawQualityMeasuredCount row.qualityOk.isSome
    qualityMeasuredWeight := accumulate s.qualityMeasuredWeight weight row.qualityOk.isSome
    rawQualityPassedCount := tally s.rawQualityPassedCount (row.qualityOk = some true)
    qualityPassedWeight := accumulate s.qualityPassedWeight weight (row.qualityOk = some true) }

def acceptedOutcomes : List String := ["accepted"]

def correctiveOutcomes : List String :=
  ["rejected", "edited", "regenerated", "escalated", "overridden"]

def accepted (row : FeedbackRow) : Bool := orUnknown row.outcome ∈ acceptedOutcomes

def corrective (row : FeedbackRow) : Bool :=
  !accepted row && decide (orUnknown row.outcome ∈ correctiveOutcomes)

def SegmentStats.addFeedback (s : SegmentStats) (row : FeedbackRow) (decisionId : String)
    (weight : ℚ) : SegmentStats :=
  { s with
    rawFeedbackCount := s.rawFeedbackCount + 1
    feedbackWeight := context (s.feedbackWeight + weight)
    feedbackDecisionWeights := update decisionId (max · weight) 0 s.feedbackDecisionWeights
    rawAcceptedCount := tally s.rawAcceptedCount (accepted row)
    acceptedWeight := accumulate s.acceptedWeight weight (accepted row)
    rawCorrectiveCount := tally s.rawCorrectiveCount (corrective row)
    correctiveWeight := accumulate s.correctiveWeight weight (corrective row)
    failureModes := s.failureModes ++ (row.failureMode.filter (· ≠ "")).toList }

/-! ## Readiness -/

inductive ReadinessStatus where
  | autoApplyCandidate
  | recommendable
  | qualityRisk
  | savingsUnproven
  | insufficientData
deriving DecidableEq

def readinessRank : ReadinessStatus → ℕ
  | .autoApplyCandidate => 0
  | .recommendable => 1
  | .qualityRisk => 2
  | .savingsUnproven => 3
  | .insufficientData => 4

structure Readiness where
  status : ReadinessStatus
  reasonCodes : List String
deriving DecidableEq

def minRecommendSamples : ℚ := 5

def minAutoSamples : ℚ := 20

def minRecommendSavingsCoverage : ℚ := 8 / 10

def minAutoSavingsCoverage : ℚ := 95 / 100

def minRecommendFeedbackCoverage : ℚ := 2 / 10

def minAutoFeedbackCoverage : ℚ := 5 / 10

def minRecommendAcceptanceRate : ℚ := 95 / 100

def minAutoAcceptanceRate : ℚ := 99 / 100

def minRecommendQualityPassRate : ℚ := 98 / 100

def minAutoQualityPassRate : ℚ := 995 / 1000

structure Rates where
  savings : Option ℚ
  qualityPass : Option ℚ
  feedbackCoverage : Option ℚ
  acceptance : Option ℚ

def reasons (xs : List (Bool × String)) : List String := (xs.filter (·.1)).map (·.2)

namespace SegmentStats

variable (s : SegmentStats) (r : Rates)

def baseReadinessReasons : List String :=
  reasons [(s.sampleWeight < minRecommendSamples, "sample_count_insufficient"),
    (s.feedbackWeight = 0, "no_decision_linked_feedback")]

def savingsProven : Bool :=
  s.measuredSavingsWeight > 0 ∧ s.totalGrossSavings > 0 ∧
    r.savings.any (· ≥ minRecommendSavingsCoverage)

def savingsGapReason : String :=
  if s.measuredSavingsWeight = 0 then "no_measured_savings"
  else if s.totalGrossSavings ≤ 0 then "gross_savings_not_positive"
  else "savings_measurement_coverage_low"

def qualityRiskReasons : List String :=
  reasons [(r.qualityPass.any (· < minRecommendQualityPassRate), "quality_pass_rate_low"),
    (s.correctiveWeight > 0, "corrective_feedback_present"),
    (r.acceptance.any (· < minRecommendAcceptanceRate), "acceptance_rate_low")]

def autoReady : Bool :=
  s.sampleWeight ≥ minAutoSamples ∧ r.savings.any (· ≥ minAutoSavingsCoverage) ∧
    r.feedbackCoverage.any (· ≥ minAutoFeedbackCoverage) ∧
    r.qualityPass.all (· ≥ minAutoQualityPassRate) ∧
    r.acceptance.any (· ≥ minAutoAcceptanceRate)

def readiness : Readiness :=
  let quality := s.qualityRiskReasons r
  let codes := s.baseReadinessReasons ++
    (if s.savingsProven r then [] else [s.savingsGapReason]) ++ quality
  if s.sampleWeight < minRecommendSamples ∨ s.feedbackWeight = 0 then ⟨.insufficientData, codes⟩
  else if !s.savingsProven r then ⟨.savingsUnproven, codes⟩
  else if quality ≠ [] then ⟨.qualityRisk, codes⟩
  else if s.autoReady r then ⟨.autoApplyCandidate, []⟩
  else ⟨.recommendable, codes ++ reasons
    [(r.feedbackCoverage.any (· < minRecommendFeedbackCoverage), "feedback_coverage_low_for_auto"),
      (s.sampleWeight < minAutoSamples, "sample_count_below_auto_threshold")]⟩

end SegmentStats

/-! ## Candidates -/

structure Quality where
  measuredCount : ℤ
  passedCount : ℤ
  failedCount : ℤ
  rawMeasuredCount : ℕ
  rawPassedCount : ℕ
  rawFailedCount : ℕ
  weightedMeasuredCount : ℚ
  weightedPassedCount : ℚ
  passRate : Option ℚ
deriving DecidableEq

structure Feedback where
  feedbackCount : ℤ
  decisionLinkedCount : ℤ
  rawFeedbackCount : ℕ
  rawDecisionLinkedCount : ℕ
  weightedFeedbackCount : ℚ
  weightedDecisionLinkedCount : ℚ
  coverageRate : Option ℚ
  acceptedCount : ℤ
  correctiveCount : ℤ
  rawAcceptedCount : ℕ
  rawCorrectiveCount : ℕ
  weightedAcceptedCount : ℚ
  weightedCorrectiveCount : ℚ
  acceptanceRate : Option ℚ
  topFailureModes : List (String × ℕ)
deriving DecidableEq

structure Candidate where
  segment : SegmentKey
  sampleCount : ℤ
  measuredSavingsCount : ℤ
  rawSampleCount : ℕ
  rawMeasuredSavingsCount : ℕ
  weightedSampleCount : ℚ
  weightedMeasuredSavingsCount : ℚ
  savingsMeasurementRate : Option ℚ
  totalGrossSavings : Option ℚ
  averageGrossSavings : Option ℚ
  pricingStatuses : List (String × ℕ)
  proofConfidences : List (String × ℕ)
  quality : Quality
  feedback : Feedback
  readiness : Readiness
deriving DecidableEq

def rateDecimal (numerator denominator : ℚ) : Option ℚ :=
  if denominator ≤ 0 then none else some (context (numerator / denominator))

def countWeight (value : ℚ) : ℚ := quantize roundHalfEven 10000 value

def rate (numerator denominator : ℚ) : Option ℚ := (rateDecimal numerator denominator).map countWeight

def money (value rowCount : ℚ) : Option ℚ := if rowCount = 0 then none else some value

def averageMoney (total rowCount : ℚ) : Option ℚ :=
  if rowCount ≤ 0 then none else some (context (total / rowCount))

def count (value : ℚ) : ℤ := roundHalfUp value

/-- `dict(sorted(counter.items()))`. -/
def sortedCounts (xs : List String) : List (String × ℕ) :=
  (xs.toFinset.sort (· ≤ ·)).map fun k => (k, xs.count k)

/-- `_top_counts` without a limit. -/
def topCounts (xs : List String) : List (String × ℕ) :=
  (sortedCounts xs).insertionSort fun a b => b.2 < a.2 ∨ b.2 = a.2 ∧ a.1 ≤ b.1

/-- `sum(self.feedback_decision_weights.values(), Decimal("0"))`. -/
def SegmentStats.feedbackDecisionWeight (s : SegmentStats) : ℚ :=
  Python.Precision.contextSum 0 (s.feedbackDecisionWeights.map (·.2))

def SegmentStats.rates (s : SegmentStats) : Rates where
  savings := rateDecimal s.measuredSavingsWeight s.sampleWeight
  qualityPass := rateDecimal s.qualityPassedWeight s.qualityMeasuredWeight
  feedbackCoverage := rateDecimal s.feedbackDecisionWeight s.sampleWeight
  acceptance := rateDecimal s.acceptedWeight (context (s.acceptedWeight + s.correctiveWeight))

def SegmentStats.asDict (s : SegmentStats) (key : SegmentKey) : Candidate where
  segment := key
  sampleCount := count s.sampleWeight
  measuredSavingsCount := count s.measuredSavingsWeight
  rawSampleCount := s.rawSampleCount
  rawMeasuredSavingsCount := s.rawMeasuredSavingsCount
  weightedSampleCount := countWeight s.sampleWeight
  weightedMeasuredSavingsCount := countWeight s.measuredSavingsWeight
  savingsMeasurementRate := rate s.measuredSavingsWeight s.sampleWeight
  totalGrossSavings := money s.totalGrossSavings s.measuredSavingsWeight
  averageGrossSavings := averageMoney s.totalGrossSavings s.measuredSavingsWeight
  pricingStatuses := sortedCounts s.pricingStatuses
  proofConfidences := topCounts s.proofConfidences
  quality := {
    measuredCount := count s.qualityMeasuredWeight
    passedCount := count s.qualityPassedWeight
    failedCount := count (max (context (s.qualityMeasuredWeight - s.qualityPassedWeight)) 0)
    rawMeasuredCount := s.rawQualityMeasuredCount
    rawPassedCount := s.rawQualityPassedCount
    rawFailedCount := s.rawQualityMeasuredCount - s.rawQualityPassedCount
    weightedMeasuredCount := countWeight s.qualityMeasuredWeight
    weightedPassedCount := countWeight s.qualityPassedWeight
    passRate := rate s.qualityPassedWeight s.qualityMeasuredWeight }
  feedback := {
    feedbackCount := count s.feedbackWeight
    decisionLinkedCount := count s.feedbackDecisionWeight
    rawFeedbackCount := s.rawFeedbackCount
    rawDecisionLinkedCount := s.feedbackDecisionWeights.length
    weightedFeedbackCount := countWeight s.feedbackWeight
    weightedDecisionLinkedCount := countWeight s.feedbackDecisionWeight
    coverageRate := rate s.feedbackDecisionWeight s.sampleWeight
    acceptedCount := count s.acceptedWeight
    correctiveCount := count s.correctiveWeight
    rawAcceptedCount := s.rawAcceptedCount
    rawCorrectiveCount := s.rawCorrectiveCount
    weightedAcceptedCount := countWeight s.acceptedWeight
    weightedCorrectiveCount := countWeight s.correctiveWeight
    acceptanceRate := rate s.acceptedWeight (context (s.acceptedWeight + s.correctiveWeight))
    topFailureModes := (topCounts s.failureModes).take 10 }
  readiness := s.readiness s.rates

/-! ## Scoring -/

section Score

variable (lower : Text → Text) (decay : Decay) (decisions : List DecisionRow)
  (feedback : List FeedbackRow)

def scoredKey (row : DecisionRow) : Option SegmentKey :=
  if row.optimizationApplied then segmentKey lower row else none

/-- `decision_segments.get(decision_id)`, where the last row of an id counts. -/
def decisionSegment (id : String) : Option (SegmentKey × ℚ) :=
  decisions.reverse.findSome? fun row =>
    if row.id = id then (scoredKey lower row).map (·, decayWeight decay row) else none

def linked (row : FeedbackRow) : Option (String × SegmentKey × ℚ) :=
  row.decisionEventId.bind fun id => (decisionSegment lower decay decisions id).map (id, ·)

def addLinked (s : SegmentStats) (row : FeedbackRow) : SegmentStats :=
  match linked lower decay decisions row with
  | some (id, _, weight) => s.addFeedback row id weight
  | none => s

def segments : Dict SegmentKey SegmentStats :=
  gather (fun row => (linked lower decay decisions row).map (·.2.1))
    (addLinked lower decay decisions) .empty
    (gather (scoredKey lower) (fun s row => s.addDecision row (decayWeight decay row)) .empty []
      decisions) feedback

def scoredSegments : List Candidate :=
  (segments lower decay decisions feedback).map fun e => e.2.asDict e.1

end Score

def sortKey (c : Candidate) : ℕ ×ₗ ℤ ×ₗ ℚ ×ₗ String ×ₗ String :=
  toLex (readinessRank c.readiness.status, toLex (-c.sampleCount,
    toLex (-c.totalGrossSavings.getD 0, toLex (c.segment.taskType, c.segment.lever))))

def defaultLimit : ℕ := 10

def scoreOptimizationOutcomes (lower : Text → Text) (decay : Decay) (limit : ℕ)
    (decisions : List DecisionRow) (feedback : List FeedbackRow) : List Candidate :=
  Machine.RankedCut.cut sortKey limit (scoredSegments lower decay decisions feedback)

end Varsten.Engine.Outcomes
