import Varsten.Eval.Runner

/-!
# The cost of proving an optimization

An overhead row is added to the transaction of the run or of the artifact that the call was paid
for, and shares its fate.
-/

namespace Varsten.Eval.Overhead

open Capture (ReplaySample)
open Pricing.Service (Prices)
open Proxy.Experiment (Queries)
open Proxy.Ledger (UsageEvent)
open Python (Json Py)
open Python.Utf8 (Text)
open Runner
open Savings.Classes (meterGenerationOverhead)
open Savings.Measurement (isOverhead overheadTags)

/-! ## Generation -/

inductive Rewrite where
  | failed
  | answered (text : Option String) (inputTokens outputTokens : ℤ)

def Rewrite.text : Rewrite → Option String
  | .failed => none
  | .answered text _ _ => text

/-- The tokens of a call that completed. -/
def Rewrite.call : Rewrite → Option (ℤ × ℤ)
  | .failed => none
  | .answered _ inputTokens outputTokens => some (inputTokens, outputTokens)

/-- The dominant prompt of the route, the generator, the pricing of its call, and whether the
artifact and what goes with it commits. -/
structure Corpus where
  dominant : Option String
  compress : String → Rewrite
  generatorModel : String
  prices : Py Prices
  commits : Bool
  now : ℚ
  minPromptChars : ℕ
  maxRatio : ℚ

inductive GenerationError where
  | noPrompt
  | shortPrompt
  | noUsableRewrite
  | barelyShorter
  | database

structure Generation where
  calls : List (ℤ × ℤ)
  ledger : List UsageEvent
  outcome : Except GenerationError String

def usableRewrite (maxRatio : ℚ) (original : String) (text : Option String) :
    Except GenerationError String :=
  match text.filter fun t => t ≠ "" ∧ t ≠ original with
  | none => .error .noUsableRewrite
  | some t => if original.length * maxRatio < t.length then .error .barelyShorter else .ok t

/-- `_meter_generation_overhead`; there is no row where the pricing raises or the call reports no
tokens. -/
def meteredCall (c : Corpus) (call : ℤ × ℤ) : Option UsageEvent := do
  let prices ← c.prices.toOption
  meterGenerationOverhead prices c.generatorModel call.1 call.2 c.now

/-- A generation that raises leaves its transaction to be rolled back. -/
def generateCompressionCandidate (c : Corpus) : Generation :=
  match c.dominant with
  | none => ⟨[], [], .error .noPrompt⟩
  | some original =>
    if original.length < c.minPromptChars then ⟨[], [], .error .shortPrompt⟩
    else
      let rewrite := c.compress original
      let pending := (rewrite.call.bind (meteredCall c)).toList
      match usableRewrite c.maxRatio original rewrite.text with
      | .error e => ⟨rewrite.call.toList, [], .error e⟩
      | .ok text =>
        if c.commits then ⟨rewrite.call.toList, pending, .ok text⟩
        else ⟨rewrite.call.toList, [], .error .database⟩

/-! ## What stays of the overhead -/

def OneRowEach {α : Type} (calls : List α) (ledger : List UsageEvent) : Prop :=
  ledger.length = calls.length

variable (w : World) (run : EvalRun) (cfg : Settings) (c : Corpus) (q : Queries)

theorem runEval_ledger : (runEval w run cfg).ledger =
    if (runEval w run cfg).report.isSome then
      (runEval w run cfg).calls.filterMap (meteredRow w run) else [] := by
  rcases runEval_cases w run cfg with ⟨out, t, report, hadded, -, h⟩ | ⟨calls, h⟩
  · rw [h]
    exact hadded.overhead
  · rw [h]
    rfl

/-- A stored candidate keeps the row of its call, a generation that raises keeps none. -/
theorem generate_cases :
    (∃ (call : Option (ℤ × ℤ)) (text : String), generateCompressionCandidate c =
      ⟨call.toList, (call.bind (meteredCall c)).toList, .ok text⟩) ∨
      ∃ calls e, generateCompressionCandidate c = ⟨calls, [], .error e⟩ := by
  unfold generateCompressionCandidate
  split
  · exact .inr ⟨_, _, rfl⟩
  · split
    · exact .inr ⟨_, _, rfl⟩
    · dsimp only
      split
      · exact .inr ⟨_, _, rfl⟩
      · split
        · exact .inl ⟨_, _, rfl⟩
        · exact .inr ⟨_, _, rfl⟩

theorem generate_ledger : (generateCompressionCandidate c).ledger =
    if (generateCompressionCandidate c).outcome.isOk then
      (generateCompressionCandidate c).calls.filterMap (meteredCall c) else [] := by
  rcases generate_cases c with ⟨call, text, h⟩ | ⟨calls, e, h⟩
  · rw [h]
    cases call <;> rfl
  · rw [h]
    rfl

variable {w run c} in
theorem isOverhead_meteredRow {x : ℕ × Json} {row : UsageEvent}
    (h : meteredRow w run x = some row) : isOverhead q row = true := by
  obtain ⟨tokens, -, h⟩ := Option.bind_eq_some_iff.1 h
  obtain ⟨prices, -, h⟩ := Option.bind_eq_some_iff.1 h
  rw [← Option.some.inj h]
  rfl

variable {w run c} in
theorem isOverhead_meteredCall {x : ℤ × ℤ} {row : UsageEvent}
    (h : meteredCall c x = some row) : isOverhead q row = true := by
  obtain ⟨prices, -, h⟩ := Option.bind_eq_some_iff.1 h
  unfold meterGenerationOverhead at h
  split_ifs at h
  rw [← Option.some.inj h]
  rfl

/-- A run that completed and a candidate that was stored leave one overhead row for each of their
calls whose metering went through, in order; otherwise no row is left. What is left is subtracted
from the verified savings. -/
theorem overhead_with_result :
    (runEval w run cfg).ledger = (if (runEval w run cfg).report.isSome then
        (runEval w run cfg).calls.filterMap (meteredRow w run) else []) ∧
      (generateCompressionCandidate c).ledger =
        (if (generateCompressionCandidate c).outcome.isOk then
          (generateCompressionCandidate c).calls.filterMap (meteredCall c) else []) ∧
      ((runEval w run cfg).ledger ++ (generateCompressionCandidate c).ledger).all
        (isOverhead q) = true := by
  refine ⟨runEval_ledger w run cfg, generate_ledger c, ?_⟩
  rw [List.all_append, Bool.and_eq_true, List.all_eq_true, List.all_eq_true]
  constructor
  · intro row hrow
    rw [runEval_ledger] at hrow
    split_ifs at hrow
    · obtain ⟨x, -, hx⟩ := List.mem_filterMap.1 hrow
      exact isOverhead_meteredRow q hx
    · exact absurd hrow List.not_mem_nil
  · intro row hrow
    rw [generate_ledger] at hrow
    split_ifs at hrow
    · obtain ⟨x, -, hx⟩ := List.mem_filterMap.1 hrow
      exact isOverhead_meteredCall q hx
    · exact absurd hrow List.not_mem_nil

/-! ## Calls whose overhead is rolled back -/

def freePrices : Prices := fun _ _ => none

def goldenSample (id : ℕ) : ReplaySample :=
  ⟨id, "gpt-4o", .golden, .arr [], [], none, some "yes", 5, 1, 0⟩

def answerOf (content : Json) : Json :=
  .obj [("choices", .arr [.obj [("message", .obj [("content", content)])]]),
    ("usage", .obj [("prompt_tokens", .int 5), ("completion_tokens", .int 1)])]

def twoReplays : World where
  lower := id
  loads := fun _ => none
  stored := .ok [goldenSample 0, goldenSample 1]
  answers := fun i =>
    ⟨.ok (some (answerOf (if i = 0 then .str "yes" else .int 7))), .ok "tie", .ok freePrices,
      .ok freePrices, .ok freePrices⟩
  volume := .ok none
  commits := true
  now := 0

def downshiftRun : EvalRun := ⟨"run", .modelDownshift, "gpt-4o", "gpt-4o", "gpt-4o-mini"⟩

def longRewrite : Corpus where
  dominant := some "Answer briefly."
  compress := fun _ => .answered (some "Answer shortly.") 40 5
  generatorModel := "gpt-4o-mini"
  prices := .ok freePrices
  commits := true
  now := 0
  minPromptChars := 10
  maxRatio := 8 / 10

theorem overhead_rolled_back :
    ¬ OneRowEach (runEval twoReplays downshiftRun ⟨20, 200, 95 / 100⟩).calls
        (runEval twoReplays downshiftRun ⟨20, 200, 95 / 100⟩).ledger ∧
      ¬ OneRowEach (generateCompressionCandidate longRewrite).calls
        (generateCompressionCandidate longRewrite).ledger := by
  constructor
  · have hcalls : (runEval twoReplays downshiftRun ⟨20, 200, 95 / 100⟩).calls.length = 2 := by
      decide +kernel
    have hledger : (runEval twoReplays downshiftRun ⟨20, 200, 95 / 100⟩).ledger.length = 0 := by
      decide +kernel
    rw [OneRowEach, hcalls, hledger]
    decide
  · have hcalls : (generateCompressionCandidate longRewrite).calls.length = 1 := by
      decide +kernel
    have hledger : (generateCompressionCandidate longRewrite).ledger.length = 0 := by
      decide +kernel
    rw [OneRowEach, hcalls, hledger]
    decide

end Varsten.Eval.Overhead
