import Varsten.Python.Text
import Varsten.Python.Value

/-!
# Usage of a batch output file

The rows of the JSONL file a batch leaves, grouped by model.
-/

namespace Varsten.Proxy.BatchUsage

open Python (Json Py PyError)
open Python.Utf8 (Bytes Text decode)
open Python.Text

structure Tally where
  input : ℤ
  output : ℤ
deriving DecidableEq

/-- `by_model`, keyed by the values of `hash`. -/
abbrev ByModel := List (Json × Tally)

def tallyAt (key : Json) : ByModel → Tally
  | [] => ⟨0, 0⟩
  | m :: byModel => if m.1 = key then m.2 else tallyAt key byModel

def setTally (key : Json) (tally : Tally) : ByModel → ByModel
  | [] => [(key, tally)]
  | m :: byModel => if m.1 = key then (key, tally) :: byModel else m :: setTally key tally byModel

/-- One turn of the loop of `_parse_output_usage`, for a row that parsed. -/
def addRow (acc : ByModel × ℕ) (row : Json) : Py (ByModel × ℕ) := do
  let response := (← row.get "response").orElse (.obj [])
  let body := (← response.get "body").orElse (.obj [])
  let usage := (← body.get "usage").orElse (.obj [])
  let model ← body.get "model"
  if !model.truthy then return acc
  let key ← Json.hashKey model
  let input ← ((← usage.get "prompt_tokens").orElse (.int 0)).toInt
  let output ← ((← usage.get "completion_tokens").orElse (.int 0)).toInt
  let agg := tallyAt key acc.1
  return (setTally key ⟨agg.input + input, agg.output + output⟩ acc.1, acc.2 + 1)

def parseLine (loads : Text → Option Json) (rawLine : Text) : Option Json :=
  let line := strip rawLine
  if line = [] then none else loads line

def parseOutputUsage (loads : Text → Option Json) (output : Bytes) : Py (ByModel × ℕ) :=
  ((splitlines (decode output)).filterMap (parseLine loads)).foldlM addRow ([], 0)

end Varsten.Proxy.BatchUsage
