import Varsten.ControlPlane.State
import Varsten.Eval.Scoring
import Varsten.Eval.SmartRouting
import Varsten.Savings.Classes

/-!
# The shadow-evaluation runner

A run replays the samples of its route in turn. What it does outside its own variables are the
provider calls that complete and the rows it adds to its transaction; an exception at any point
rolls the rows back and fails the run.
-/

namespace Varsten.Eval.Runner

open Capture (ReplaySample SampleSource)
open ControlPlane (Lever Verdict)
open Pricing.Service (Prices priceUsageEvent)
open Proxy.Ledger (UsageEvent)
open Python (Json Py Gen)
open Python.Decimals
open Python.Utf8 (Text)
open Savings.Classes (recordEvalReplayOverhead)
open Scoring
open SmartRouting (eligibleForSmartRouting)

structure Settings where
  evalMinSamples : ℤ
  evalReplayMaxSamples : ℕ
  evalObjectivePassThreshold : ℚ

structure EvalRun where
  id : String
  lever : Lever
  routeKey : String
  incumbentModel : String
  candidateModel : String

structure EvalSampleResult where
  sample : ℕ
  scorer : Scorer
  objectivePass : Option Bool
  judgeWinner : Option String
  score : ℚ
  candidateCost : Option ℚ
  incumbentCost : Option ℚ

/-- What a sample meets outside: the replay, `none` where it failed; the judge, asked with the prompt
of the sample; and the prices for the overhead and the two costs. -/
structure Answers where
  replay : Py (Option Json)
  judge : Py String
  overheadPrices : Py Prices
  incumbentPrices : Py Prices
  candidatePrices : Py Prices

/-- The stored samples, their answers, the monthly volume of the recommendation, and whether the
last commit goes through. -/
structure World where
  lower : Text → Text
  loads : Text → Option Json
  stored : Py (List ReplaySample)
  answers : ℕ → Answers
  volume : Py (Option ℤ)
  commits : Bool
  now : ℚ

/-- A replay that completed, with its payload, or a row added to the transaction. -/
inductive Effect where
  | call (sample : ℕ) (payload : Json)
  | overhead (row : UsageEvent)
  | result (row : EvalSampleResult)

structure Tally where
  scores : List ℚ
  scorers : Finset Scorer
  objTotal : ℕ
  objPass : ℕ
  costDeltas : List ℚ

def Tally.empty : Tally := ⟨[], ∅, 0, 0, []⟩

/-! ## One sample -/

def usageTokens (payload : Json) : Py (ℤ × ℤ) := do
  let usage := (← payload.get "usage").orElse (.obj [])
  let inputTokens ← ((← usage.get "prompt_tokens").orElse (.int 0)).toInt
  let outputTokens ← ((← usage.get "completion_tokens").orElse (.int 0)).toInt
  return (inputTokens, outputTokens)

def price (prices : Py Prices) (model : String) (inputTokens outputTokens : ℤ) : Py (Option ℚ) := do
  return (priceUsageEvent (← prices) model "openai" inputTokens outputTokens 0 none).costUsd

variable (w : World) (run : EvalRun)

/-- `_record_eval_replay_overhead`; an exception of the pricing is caught, and there is no row. -/
def recordOverhead (sample : ℕ) (tokens : ℤ × ℤ) : Gen Effect Unit :=
  match (w.answers sample).overheadPrices with
  | .ok prices => Gen.yield (.overhead (recordEvalReplayOverhead prices run.id run.candidateModel
      tokens.1 tokens.2 w.now)) ()
  | .error _ => Gen.ok ()

def scorePair (s : ReplaySample) (payload : Json) :
    Py (Scorer × ℚ × Option Bool × Option String) := do
  let candidate ← assistantText (some payload)
  let incumbent ← assistantText s.incumbentResponse
  let (scorer, score, obj) ← scoreSample w.lower w.loads s incumbent candidate
  match obj with
  | some _ => return (scorer, score, obj, none)
  | none =>
    let winner ← (w.answers s.id).judge
    return (.judge, judgeScore winner, none, some winner)

def sampleResult (s : ReplaySample) (payload : Json) (tokens : ℤ × ℤ) : Py EvalSampleResult := do
  let (scorer, score, obj, winner) ← scorePair w s payload
  let incumbentCost ← price (w.answers s.id).incumbentPrices run.incumbentModel s.inputTokens
    s.outputTokens
  let input := if tokens.1 = 0 then s.inputTokens else tokens.1
  let candidateCost ← price (w.answers s.id).candidatePrices run.candidateModel input tokens.2
  return ⟨s.id, scorer, obj, winner, score, candidateCost, incumbentCost⟩

def costDelta (row : EvalSampleResult) : Option ℚ := do
  return (← row.incumbentCost) - (← row.candidateCost)

def Tally.count (t : Tally) (row : EvalSampleResult) : Tally where
  scores := t.scores ++ [row.score]
  scorers := insert row.scorer t.scorers
  objTotal := t.objTotal + if row.objectivePass.isSome then 1 else 0
  objPass := t.objPass + if row.objectivePass = some true then 1 else 0
  costDeltas := t.costDeltas ++ (costDelta row).toList

def evalSample (t : Tally) (s : ReplaySample) : Gen Effect Tally := do
  match ← Gen.lift (w.answers s.id).replay with
  | none => return t
  | some payload =>
    Gen.yield (.call s.id payload) ()
    let tokens ← Gen.lift (usageTokens payload)
    recordOverhead w run s.id tokens
    let row ← Gen.lift (sampleResult w run s payload tokens)
    Gen.yield (.result row) (t.count row)

/-! ## A run -/

def Before (a b : ReplaySample) : Prop :=
  (a.expectedOutput.isSome ∧ b.expectedOutput = none) ∨
    (a.expectedOutput.isSome = b.expectedOutput.isSome ∧ b.createdAt ≤ a.createdAt)

instance : DecidableRel Before := fun a b => by unfold Before; infer_instance

def selectSamples (limit : ℕ) (routeKey : String) (stored : List ReplaySample) :
    List ReplaySample :=
  ((stored.filter fun s => s.routeKey = routeKey ∧
    (s.source = .golden ∨ s.incumbentResponse.isSome)).insertionSort Before).take limit

/-- The samples of the run; of a smart routing only those that the default predicate routes. -/
def runSamples (cfg : Settings) : Py (List ReplaySample) := do
  let samples := selectSamples cfg.evalReplayMaxSamples run.routeKey (← w.stored)
  if run.lever = .smartRouting then samples.filterM eligibleForSmartRouting else return samples

inductive ScorerType where
  | golden
  | objective
  | judge
  | mixed
deriving DecidableEq

/-- What `_finalize` writes to the run. -/
structure Report where
  sampleCount : ℕ
  winCount : ℕ
  tieCount : ℕ
  lossCount : ℕ
  scoreDelta : ℚ
  scoreDeltaCiLow : ℚ
  scoreDeltaCiHigh : ℚ
  objectivePassCount : Option ℕ
  objectivePassRate : Option ℚ
  scorerType : Option ScorerType
  costDeltaUsd : Option ℚ
  verdict : Verdict

def ciTolerance : ℚ := -5 / 100

def scorerType (scorers : Finset Scorer) : Option ScorerType :=
  if scorers = {.golden} then some .golden
  else if scorers = {.objective} then some .objective
  else if scorers = {.judge} then some .judge
  else if scorers ≠ ∅ then some .mixed else none

/-- `round(obj_pass / obj_total, 4)`. -/
def passRate (t : Tally) : Option ℚ :=
  if t.objTotal = 0 then none
  else some (quantize roundHalfEven digits (t.objPass / t.objTotal))

def measuredCostDelta (volume : Py (Option ℤ)) (costDeltas : List ℚ) : Py (Option ℚ) :=
  if costDeltas = [] then .ok none
  else do
    let multiplier : ℚ := match (← volume).filter (· ≠ 0) with
      | some volume => volume
      | none => costDeltas.length
    return some (quantize roundHalfEven (10 ^ 8) (mean costDeltas * multiplier))

def verdictOf (cfg : Settings) (t : Tally) : Verdict :=
  let lo := (meanCi t.scores).2.1
  if t.scores.length < cfg.evalMinSamples then .insufficient
  else if .judge ∈ t.scorers then
    if 0 ≤ lo then .needsHuman else .notSafe
  else if (passRate t).any (cfg.evalObjectivePassThreshold ≤ ·) && ciTolerance ≤ lo then .safe
  else .notSafe

def finalize (cfg : Settings) (volume : Py (Option ℤ)) (t : Tally) : Py Report := do
  let costDeltaUsd ← measuredCostDelta volume t.costDeltas
  return {
    sampleCount := t.scores.length
    winCount := t.scores.countP (0 < ·)
    tieCount := t.scores.countP (· = 0)
    lossCount := t.scores.countP (· < 0)
    scoreDelta := (meanCi t.scores).1
    scoreDeltaCiLow := (meanCi t.scores).2.1
    scoreDeltaCiHigh := (meanCi t.scores).2.2
    objectivePassCount := if t.objTotal = 0 then none else some t.objPass
    objectivePassRate := passRate t
    scorerType := scorerType t.scorers
    costDeltaUsd
    verdict := verdictOf cfg t }

/-- The body of the `try` up to its commit. -/
def evaluate (cfg : Settings) : Gen Effect Report := do
  let samples ← Gen.lift (runSamples w run cfg)
  let t ← Gen.fold (evalSample w run) Tally.empty samples
  Gen.lift (finalize cfg w.volume t)

/-- What is left of a run: the calls that completed, the rows that stay, and the report of a run
that completed. -/
structure Evaluation where
  calls : List (ℕ × Json)
  ledger : List UsageEvent
  results : List EvalSampleResult
  report : Option Report

def callOf : Effect → Option (ℕ × Json)
  | .call sample payload => some (sample, payload)
  | _ => none

def overheadOf : Effect → Option UsageEvent
  | .overhead row => some row
  | _ => none

def resultOf : Effect → Option EvalSampleResult
  | .result row => some row
  | _ => none

def runEval (cfg : Settings) : Evaluation :=
  let x := evaluate w run cfg
  match x.result, w.commits with
  | .ok report, true =>
    ⟨x.out.filterMap callOf, x.out.filterMap overheadOf, x.out.filterMap resultOf, some report⟩
  | _, _ => ⟨x.out.filterMap callOf, [], [], none⟩

/-! ## What a run adds -/

/-- The overhead row of a completed replay; there is none where its usage is unreadable or the
pricing raises. -/
def meteredRow (x : ℕ × Json) : Option UsageEvent := do
  let tokens ← (usageTokens x.2).toOption
  let prices ← (w.answers x.1).overheadPrices.toOption
  return recordEvalReplayOverhead prices run.id run.candidateModel tokens.1 tokens.2 w.now

variable {w run} {cfg : Settings} {t t' : Tally} {s : ReplaySample} {out : List Effect}

theorem recordOverhead_eq {sample : ℕ} {payload : Json} {tokens : ℤ × ℤ}
    (h : usageTokens payload = .ok tokens) : recordOverhead w run sample tokens =
      ⟨(meteredRow w run (sample, payload)).toList.map .overhead, .ok ()⟩ := by
  unfold recordOverhead meteredRow
  rw [h]
  cases (w.answers sample).overheadPrices <;> rfl

/-- A turn skips its sample, or adds its result after the overhead of its replay. -/
theorem evalSample_cases (h : evalSample w run t s = ⟨out, .ok t'⟩) :
    (out = [] ∧ t' = t) ∨ ∃ payload tokens row, sampleResult w run s payload tokens = .ok row ∧
      out = .call s.id payload ::
        ((meteredRow w run (s.id, payload)).toList.map .overhead ++ [.result row]) ∧
      t' = t.count row := by
  obtain ⟨out₁, out₂, replay, h₁, h₂, rfl⟩ := Gen.bind_eq h
  obtain rfl : [] = out₁ := congrArg Gen.out h₁
  cases replay with
  | none =>
    obtain rfl : t = t' := Except.ok.inj (congrArg Gen.result h₂)
    obtain rfl : [] = out₂ := congrArg Gen.out h₂
    exact .inl ⟨rfl, rfl⟩
  | some payload =>
    obtain ⟨out₃, out₄, u, h₃, h₄, rfl⟩ := Gen.bind_eq h₂
    obtain rfl : [.call s.id payload] = out₃ := congrArg Gen.out h₃
    obtain ⟨out₅, out₆, tokens, h₅, h₆, rfl⟩ := Gen.bind_eq h₄
    obtain rfl : [] = out₅ := congrArg Gen.out h₅
    obtain ⟨out₇, out₈, u', h₇, h₈, rfl⟩ := Gen.bind_eq h₆
    rw [recordOverhead_eq (congrArg Gen.result h₅)] at h₇
    obtain rfl := congrArg Gen.out h₇
    obtain ⟨out₉, out₁₀, row, h₉, h₁₀, rfl⟩ := Gen.bind_eq h₈
    obtain rfl : [] = out₉ := congrArg Gen.out h₉
    obtain rfl : t.count row = t' := Except.ok.inj (congrArg Gen.result h₁₀)
    obtain rfl : [.result row] = out₁₀ := congrArg Gen.out h₁₀
    exact .inr ⟨payload, tokens, row, congrArg Gen.result h₉, rfl, rfl⟩

theorem scorePair_judged {payload : Json} {scorer : Scorer} {score : ℚ} {obj : Option Bool}
    {winner : Option String} (h : scorePair w s payload = .ok (scorer, score, obj, winner)) :
    scorer = .judge ↔ obj = none := by
  obtain ⟨cand, -, h⟩ := Py.bind_eq_ok.1 h
  obtain ⟨inc, -, h⟩ := Py.bind_eq_ok.1 h
  obtain ⟨⟨scorer', score', obj'⟩, hscore, h⟩ := Py.bind_eq_ok.1 h
  have hne := scoreSample_ne_judge hscore
  cases obj' with
  | some b =>
    cases h
    exact iff_of_false hne (by simp)
  | none =>
    obtain ⟨winner', -, h⟩ := Py.bind_eq_ok.1 h
    cases h
    exact iff_of_true rfl rfl

theorem sampleResult_judged {payload : Json} {tokens : ℤ × ℤ} {row : EvalSampleResult}
    (h : sampleResult w run s payload tokens = .ok row) :
    row.scorer = .judge ↔ row.objectivePass = none := by
  obtain ⟨⟨scorer, score, obj, winner⟩, hscore, h⟩ := Py.bind_eq_ok.1 h
  obtain ⟨incumbentCost, -, h⟩ := Py.bind_eq_ok.1 h
  obtain ⟨candidateCost, -, h⟩ := Py.bind_eq_ok.1 h
  obtain rfl := Except.ok.inj h
  exact scorePair_judged hscore

/-- What a loop that went through added: the overhead of its calls, and the results that it
counted. -/
structure Added (w : World) (run : EvalRun) (t : Tally) (out : List Effect) (t' : Tally) :
    Prop where
  overhead : out.filterMap overheadOf = (out.filterMap callOf).filterMap (meteredRow w run)
  counted : t' = (out.filterMap resultOf).foldl Tally.count t
  judged : ∀ row ∈ out.filterMap resultOf, row.scorer = .judge ↔ row.objectivePass = none

theorem added_evalSample (h : evalSample w run t s = ⟨out, .ok t'⟩) : Added w run t out t' := by
  rcases evalSample_cases h with ⟨rfl, rfl⟩ | ⟨payload, tokens, row, hrow, rfl, rfl⟩
  · exact ⟨rfl, rfl, by simp⟩
  · have hresults : (Effect.call s.id payload ::
        ((meteredRow w run (s.id, payload)).toList.map .overhead ++ [.result row])).filterMap
          resultOf = [row] := by
      cases meteredRow w run (s.id, payload) <;> rfl
    refine ⟨?_, by rw [hresults]; rfl, ?_⟩
    · cases hmetered : meteredRow w run (s.id, payload) <;>
        simp [List.filterMap_cons, overheadOf, callOf, hmetered]
    · rw [hresults]
      simpa using sampleResult_judged hrow

theorem added_loop {samples : List ReplaySample}
    (h : Gen.fold (evalSample w run) t samples = ⟨out, .ok t'⟩) : Added w run t out t' := by
  refine Gen.fold_relates (R := Added w run) (fun t => ⟨rfl, rfl, by simp⟩) ?_ added_evalSample h
  intro t₁ t₂ t₃ out₁ out₂ h₁ h₂
  refine ⟨?_, ?_, ?_⟩
  · simp only [List.filterMap_append, h₁.overhead, h₂.overhead]
  · rw [List.filterMap_append, List.foldl_append, ← h₁.counted]
    exact h₂.counted
  · rw [List.filterMap_append]
    intro row hrow
    rcases List.mem_append.1 hrow with hrow | hrow
    · exact h₁.judged row hrow
    · exact h₂.judged row hrow

theorem runEval_cases (w : World) (run : EvalRun) (cfg : Settings) :
    (∃ out t report, Added w run .empty out t ∧ finalize cfg w.volume t = .ok report ∧
      runEval w run cfg = ⟨out.filterMap callOf, out.filterMap overheadOf,
        out.filterMap resultOf, some report⟩) ∨
      ∃ calls, runEval w run cfg = ⟨calls, [], [], none⟩ := by
  unfold runEval
  dsimp only
  split
  · next report hresult hcommits =>
    have heval : evaluate w run cfg = ⟨(evaluate w run cfg).out, .ok report⟩ := by
      rw [← hresult]
    obtain ⟨out₁, out₂, samples, h₁, h₂, hout⟩ := Gen.bind_eq heval
    obtain rfl : [] = out₁ := congrArg Gen.out h₁
    obtain ⟨out₃, out₄, t, h₃, h₄, rfl⟩ := Gen.bind_eq h₂
    obtain rfl : [] = out₄ := congrArg Gen.out h₄
    rw [List.nil_append, List.append_nil] at hout
    refine .inl ⟨out₃, t, report, added_loop h₃, congrArg Gen.result h₄, ?_⟩
    rw [hout]
  · exact .inr ⟨_, rfl⟩

end Varsten.Eval.Runner
