import Varsten.Engine.RequestFacts
import Varsten.Python.Text
import Varsten.Proxy.Cache
import Varsten.Proxy.Forward

/-!
# Capture

`_capture` as far as the cache goes: the health signal of an experiment arm, which
may raise before anything is written, then the cache row, which needs the ledger
row to have been written. The ledger row, the decision record and the replay
sample are writes of their own.
-/

namespace Varsten.Proxy.Capture

open Python (Json Py PyError)
open Python.Utf8 (Text)
open Engine.RequestFacts (field responseFormatJson)
open Cache (CacheEntry)
open Forward (CaptureArgs)

/-- `quality.wants_json(body or {})`. -/
def wantsJson (body : Json) : Py Bool :=
  match body with
  | .obj fields => responseFormatJson (field "response_format" fields)
  | j => if j.truthy then .error .attributeError else .ok false

/-- The content of a message as `response_quality_ok` reads it: its text parts joined. -/
def contentOf (message : Json) : Py Json := do
  match ← message.get "content" with
  | .arr bs => return .str (" ".intercalate (← Json.textParts bs))
  | content => return content

/-- `not content or not content.strip()`. -/
def isBlankContent (content : Json) : Py Bool :=
  if !content.truthy then .ok true
  else match content with
    | .str s => .ok (Python.Text.strip s.toList = [])
    | _ => .error .attributeError

/-- `choice.get("finish_reason") in {"length", "content_filter"}`, which hashes the reason. -/
def isDegradedFinish (choice : Json) : Py Bool := do
  match ← choice.get "finish_reason" with
  | .arr _ | .obj _ => .error .typeError
  | reason => return reason = .str "length" ∨ reason = .str "content_filter"

def choiceQualityOk (loads : Text → Option Json) (choice : Json) (jsonExpected : Bool) :
    Py Bool := do
  if ← isDegradedFinish choice then return false
  let message := (← choice.get "message").orElse (.obj [])
  if (← message.get "tool_calls").truthy then return true
  let content ← contentOf message
  if ← isBlankContent content then return false
  if !jsonExpected then return true
  match content with
  | .str s => return (loads s.toList).isSome
  | _ => return false

/-- `payload["choices"][0]`, when that is there. -/
def firstChoice (payload : Json) : Option Json :=
  match payload with
  | .obj fields => match field "choices" fields with
    | .arr (choice :: _) => some choice
    | .str s => s.toList.head?.map fun c => .str (String.singleton c)
    | _ => none
  | _ => none

def responseQualityOk (loads : Text → Option Json) (payload : Json) (jsonExpected : Bool) :
    Py Bool :=
  if !payload.truthy then .ok false
  else match firstChoice payload with
    | none => .ok false
    | some choice => choiceQualityOk loads choice jsonExpected

def qualityOk (loads : Text → Option Json) (args : CaptureArgs) : Py (Option Bool) :=
  if args.arm.any (· ≠ "") then do
    let jsonExpected ← wantsJson args.body
    return some (← responseQualityOk loads args.responsePayload jsonExpected)
  else .ok none

/-- What the process and the database supply: `ledgerWritten` when the ledger row was written,
`commits` when the cache row can be. -/
structure CaptureWorld where
  loads : Text → Option Json
  cacheEnabled : Bool
  ledgerWritten : Bool
  commits : Bool
  now : ℚ
  ttl : ℚ

def cacheEntry (w : CaptureWorld) (args : CaptureArgs) : CacheEntry where
  cacheKey := args.cacheKey
  model := args.cacheModel
  responsePayload := args.responsePayload
  inputTokens := args.usage.inputTokens
  outputTokens := args.usage.outputTokens
  expiresAt := some (w.now + w.ttl)

def capture (w : CaptureWorld) (args : CaptureArgs) (rows : List CacheEntry) : List CacheEntry :=
  match qualityOk w.loads args with
  | .error _ => rows
  | .ok _ =>
    if w.ledgerWritten && args.storeCache && w.cacheEnabled && args.responsePayload.truthy then
      Cache.store w.now w.commits (cacheEntry w args) rows
    else rows

/-- A capture stores nothing exactly when the signal raises, the answer is empty, storing is off or
the row does not get in. -/
theorem capture_eq_self_iff {w : CaptureWorld} {args : CaptureArgs} {rows : List CacheEntry} :
    capture w args rows = rows ↔
      ¬ ((∃ q, qualityOk w.loads args = .ok q) ∧ args.responsePayload.truthy = true ∧
        w.ledgerWritten = true ∧ args.storeCache = true ∧ w.cacheEnabled = true ∧
        w.commits = true ∧ ∀ e ∈ rows, e.cacheKey ≠ args.cacheKey) := by
  unfold capture
  cases qualityOk w.loads args with
  | error e => simp
  | ok q =>
    dsimp only
    split_ifs with h
    · simp only [Bool.and_eq_true] at h
      rw [Cache.store_eq_self_iff]
      simp [h, cacheEntry]
    · simp only [Bool.and_eq_true] at h
      refine iff_of_true rfl fun hc => h ⟨⟨⟨hc.2.2.1, hc.2.2.2.1⟩, hc.2.2.2.2.1⟩, hc.2.1⟩

end Varsten.Proxy.Capture
