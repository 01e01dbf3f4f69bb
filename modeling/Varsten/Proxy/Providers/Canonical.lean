import Varsten.Python.Utf8
import Varsten.Python.Value

/-!
# Canonical completions

What every provider adapter reduces an answer to, and its rendering as an OpenAI
completion. Fields that the code copies from provider JSON without a type check
stay JSON values here.
-/

namespace Varsten.Proxy.Providers

open Python (Json Py PyError Gen Runtime)
open Python.Utf8 (Bytes)

structure CanonicalUsage where
  inputTokens : ℤ
  outputTokens : ℤ
  providerCachedInputTokens : ℤ
deriving DecidableEq

def CanonicalUsage.zero : CanonicalUsage := ⟨0, 0, 0⟩

structure CanonicalCompletion where
  model : Json
  content : Json
  toolCalls : Json
  finishReason : Json
  usage : CanonicalUsage
  raw : Option Json
deriving DecidableEq

def usageDict (u : CanonicalUsage) : Json :=
  .obj ([("prompt_tokens", .int u.inputTokens), ("completion_tokens", .int u.outputTokens),
    ("total_tokens", .int (u.inputTokens + u.outputTokens))] ++
    if u.providerCachedInputTokens ≠ 0 then
      [("prompt_tokens_details", .obj [("cached_tokens", .int u.providerCachedInputTokens)])]
    else [])

/-- `id` and `created`, which are read off the clock, are left out. -/
def completionPayload (c : CanonicalCompletion) : Json :=
  match c.raw with
  | some raw => raw
  | none =>
    let message : List (String × Json) :=
      [("role", .str "assistant"), ("content", c.content.orElse .null)]
    let message := if c.toolCalls.truthy then message ++ [("tool_calls", c.toolCalls)] else message
    .obj [("object", .str "chat.completion"), ("model", c.model),
      ("choices", .arr [.obj [("index", .int 0), ("message", .obj message),
        ("finish_reason", c.finishReason)]]),
      ("usage", usageDict c.usage), ("varsten", .obj [("cache", .str "hit")])]

/-- What a stream hands to the client: upstream bytes, a rendered chunk, or the end marker. -/
inductive Out where
  | bytes (chunk : Bytes)
  | chunk (payload : Json)
  | doneMarker

/-- `to_openai_sse`: how a stored completion is served over the streaming path. -/
def toOpenaiSse (payload : Json) : Py (List Out) := do
  let choice ← (← payload.subscript "choices").head
  let message := (← choice.get "message").orElse (.obj [])
  let content ← message.get "content"
  let toolCalls ← message.get "tool_calls"
  let finish ← choice.get "finish_reason"
  let finishReason := finish.orElse (.str (if toolCalls.truthy then "tool_calls" else "stop"))
  let model ← payload.getD "model" (.str "")
  let chunk (delta : List (String × Json)) (finishReason : Json) : Out :=
    .chunk (.obj [("object", .str "chat.completion.chunk"), ("model", model),
      ("choices", .arr [.obj [("index", .int 0), ("delta", .obj delta),
        ("finish_reason", finishReason)]])])
  let delta : List (String × Json) := [("role", .str "assistant")]
  let delta := if content.truthy then delta ++ [("content", content)] else delta
  let delta := if toolCalls.truthy then delta ++ [("tool_calls", toolCalls)] else delta
  return [chunk delta .null, chunk [] finishReason, .doneMarker]

/-- One provider behind a uniform interface, with its stream translator. -/
structure Adapter (σ : Type) where
  provider : String
  prepareRequest : Json → String → Bool → Py Json
  parseCompletion : Json → Py CanonicalCompletion
  translator : σ
  push : σ → Bytes → Gen Out σ
  finish : σ → Py CanonicalCompletion

/-! ## What both translating adapters read of a request -/

def optionalItem (k : String) : Option Json → List (String × Json)
  | some v => [(k, v)]
  | none => []

def contentText (content : Json) : Py String :=
  match content with
  | .str s => .ok s
  | .arr parts => return String.join (← Json.textParts parts)
  | _ => .ok ""

/-- `json.loads(arguments or "{}")`, or `{}` where it does not parse. -/
def parseArguments (rt : Runtime) (arguments : Json) : Py Json :=
  match arguments.orElse (.str "\x7b\x7d") with
  | .str s => .ok ((rt.loads s.toList).getD (.obj []))
  | _ => .error .typeError

/-- One message: the entry it becomes, or the text it adds to the system prompt. -/
inductive Turn where
  | system (text : String)
  | content (entry : Json)
  | skipped

def Turn.systemText : Turn → Option String
  | .system text => if text = "" then none else some text
  | _ => none

def Turn.entry : Turn → Option Json
  | .content entry => some entry
  | _ => none

end Varsten.Proxy.Providers
