import Varsten.Eval.Capture
import Varsten.Python.Decimals
import Varsten.Python.SquareRoots
import Varsten.Python.Text

/-!
# Scoring tiers

A pair of answers scores 0 where the candidate is at parity and -1 where it is degraded; only the
judge sees it better. `lower` is `str.lower`, `loads` is `json.loads`. A float is exact.
-/

namespace Varsten.Eval.Scoring

open Capture (ReplaySample SampleSource)
open Engine.RequestFacts (field responseFormatJson)
open Python (Json Py PyError)
open Python.Decimals
open Python.SquareRoots
open Python.Utf8 (Text)

inductive Scorer where
  | golden
  | objective
  | judge
deriving DecidableEq

/-- `payload["choices"][0]` and the content of its message, `""` for an empty one. -/
def messageContent (payload : Json) : Py Json := do
  let choice ← (← payload.subscript "choices").head
  let content ← (← choice.getD "message" (.obj [])).get "content"
  match content with
  | .arr blocks => return .str (" ".intercalate (← Json.textParts blocks))
  | content => return content.orElse (.str "")

/-- An `AttributeError` is not caught. -/
def assistantText (payload : Option Json) : Py Json :=
  match payload.filter Json.truthy with
  | none => .ok (.str "")
  | some payload => match messageContent payload with
    | .error .attributeError => .error .attributeError
    | .error .valueError => .error .valueError
    | .error _ => .ok (.str "")
    | .ok content => .ok content

/-- `_WS.sub(" ", s)`. -/
def collapse (afterSpace : Bool) : Text → Text
  | [] => []
  | c :: s =>
    if Python.Text.isSpace c then
      if afterSpace then collapse true s else ' ' :: collapse true s
    else c :: collapse false s

section Tiers

variable (lower : Text → Text) (loads : Text → Option Json)

def normalize (s : Text) : Text := collapse false (lower (Python.Text.strip s))

/-- `_normalize` of what `assistant_text` returned. -/
def normalizeAnswer : Json → Py Text
  | .str s => .ok (normalize lower s.toList)
  | _ => .error .attributeError

/-- A text that says `null` is no JSON either. -/
def asJson : Json → Option Json
  | .str s => (loads s.toList).filter (· ≠ .null)
  | _ => none

def graded (scorer : Scorer) (ok : Bool) : Scorer × ℚ × Option Bool :=
  (scorer, if ok then 0 else -1, some ok)

def scoreStructured (wantsJson : Bool) (incumbent candidate : Json) :
    Option (Scorer × ℚ × Option Bool) :=
  let inc := asJson loads incumbent
  let cand := asJson loads candidate
  if wantsJson then
    some (graded .objective (cand.any fun c => inc.all fun i => c.pyEq i))
  else inc.map fun i => graded .objective (cand.any fun c => c.pyEq i)

def scoreText (incumbent candidate : Json) : Py (Scorer × ℚ × Option Bool) := do
  let inc ← normalizeAnswer lower incumbent
  if inc.length ≤ 40 then
    return graded .objective (decide ((← normalizeAnswer lower candidate) = inc))
  else return (.objective, 0, none)

def scoreSample (s : ReplaySample) (incumbent candidate : Json) :
    Py (Scorer × ℚ × Option Bool) :=
  match s.source, s.expectedOutput.filter (· ≠ "") with
  | .golden, some expected => do
    let cand ← normalizeAnswer lower candidate
    return graded .golden (decide (cand = normalize lower expected.toList))
  | _, _ => do
    let wantsJson ← responseFormatJson (field "response_format" s.requestParams)
    match scoreStructured loads wantsJson incumbent candidate with
    | some scored => return scored
    | none => scoreText lower incumbent candidate

end Tiers

def judgeScore (winner : String) : ℚ :=
  if winner = "candidate" then 1 else if winner = "incumbent" then -1 else 0

/-! ## The interval -/

def digits : ℕ := 10 ^ 4

def mean (scores : List ℚ) : ℚ := scores.sum / scores.length

/-- The square of `1.96 * pstdev / sqrt(n)`. -/
def halfSquared (scores : List ℚ) : ℚ :=
  (196 / 100) ^ 2 * mean (scores.map fun s => (s - mean scores) ^ 2) / scores.length

def meanCi (scores : List ℚ) : ℚ × ℚ × ℚ :=
  if scores = [] then (0, 0, 0)
  else
    let m := quantize roundHalfEven digits (mean scores)
    if scores.length < 2 then (m, m, m)
    else
      let half := halfSquared scores * digits ^ 2
      (m, roundSubSqrt (mean scores * digits) half / digits,
        -(roundSubSqrt (-mean scores * digits) half / digits))

theorem scoreText_some {lower : Text → Text} {inc cand : Json} {scorer : Scorer} {score : ℚ}
    {obj : Option Bool} (h : scoreText lower inc cand = .ok (scorer, score, obj)) :
    scorer = .objective := by
  obtain ⟨i, -, h⟩ := Py.bind_eq_ok.1 h
  split_ifs at h
  · obtain ⟨c, -, h⟩ := Py.bind_eq_ok.1 h
    exact (congrArg Prod.fst (Except.ok.inj h)).symm
  · exact (congrArg Prod.fst (Except.ok.inj h)).symm

theorem scoreStructured_some {loads : Text → Option Json} {wantsJson : Bool} {inc cand : Json}
    {x : Scorer × ℚ × Option Bool} (h : scoreStructured loads wantsJson inc cand = some x) :
    x.1 = .objective := by
  unfold scoreStructured at h
  dsimp only at h
  split_ifs at h
  · rw [← Option.some.inj h]
    rfl
  · obtain ⟨i, -, rfl⟩ := Option.map_eq_some_iff.1 h
    rfl

theorem scoreSample_ne_judge {lower : Text → Text} {loads : Text → Option Json} {s : ReplaySample}
    {inc cand : Json} {x : Scorer × ℚ × Option Bool}
    (h : scoreSample lower loads s inc cand = .ok x) : x.1 ≠ .judge := by
  unfold scoreSample at h
  split at h
  · obtain ⟨c, -, h⟩ := Py.bind_eq_ok.1 h
    rw [← Except.ok.inj h]
    exact (by decide : Scorer.golden ≠ .judge)
  · obtain ⟨wantsJson, -, h⟩ := Py.bind_eq_ok.1 h
    split at h
    · next y hy =>
      rw [← Except.ok.inj h, scoreStructured_some hy]
      decide
    · rw [scoreText_some h]
      decide

/-! ## What the interval is -/

theorem mean_nonneg {scores : List ℚ} (h : ∀ s ∈ scores, 0 ≤ s) : 0 ≤ mean scores :=
  div_nonneg (List.sum_nonneg h) (Nat.cast_nonneg _)

end Varsten.Eval.Scoring
