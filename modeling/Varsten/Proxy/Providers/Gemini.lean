import Varsten.Proxy.SseDecoder
import Varsten.Proxy.Providers.Canonical

/-!
# Gemini adapter

Requests are translated to `generateContent` bodies and stream payloads to
OpenAI chunks. The translator starts from the finish reason `stop` and keeps the
last one a candidate reports.
-/

namespace Varsten.Proxy.Providers.Gemini

open Python (Json Py PyError Gen Runtime)
open Python.Utf8 (Bytes Text)
open SseDecoder (feed geminiBlock)

def usageFromMetadata (metadata : Json) (previous : CanonicalUsage) : Py CanonicalUsage :=
  if !metadata.truthy then .ok previous
  else do
    let cached ← ((← metadata.get "cachedContentTokenCount").orElse
      (.int previous.providerCachedInputTokens)).toInt
    return {
      inputTokens := ← ((← metadata.get "promptTokenCount").orElse
        (.int previous.inputTokens)).toInt
      outputTokens := ← ((← metadata.get "candidatesTokenCount").orElse
        (.int previous.outputTokens)).toInt
      providerCachedInputTokens := cached }

def finishReason (reason : Json) : Py String :=
  match reason.orElse (.str "") with
  | .arr _ | .obj _ => .error .typeError
  | .str "STOP" => .ok "stop"
  | .str "MAX_TOKENS" => .ok "length"
  | .str "SAFETY" => .ok "content_filter"
  | .str "RECITATION" => .ok "content_filter"
  | _ => .ok "stop"

def modelName (raw : Json) : Py String :=
  match raw.orElse (.str "") with
  | .str s => .ok (if s.startsWith "models/" then (s.drop 7).toString else s)
  | _ => .error .attributeError

/-- One OpenAI chunk; `id` and `created`, read off the clock, are left out. -/
def openaiChunk (model : String) (delta : List (String × Json)) (finish : Json) : Out :=
  .chunk (.obj [("object", .str "chat.completion.chunk"), ("model", .str model),
    ("choices", .arr [.obj [("index", .int 0), ("delta", .obj delta),
      ("finish_reason", finish)]])])

def geminiToolCall (rt : Runtime) (functionCall : Json) : Py (List (String × Json)) := do
  let name ← functionCall.get "name"
  let args ← functionCall.get "args"
  return [("id", .str ("call_" ++ rt.str (name.orElse (.str "gemini")))),
    ("type", .str "function"),
    ("function", .obj [("name", name.orElse (.str "")),
      ("arguments", .str (rt.dumps (args.orElse (.obj []))))])]

structure Translator where
  buffer : Text
  parts : List String
  toolCalls : List Json
  model : String
  finishReason : String
  currentUsage : CanonicalUsage

def Translator.new : Translator := ⟨[], [], [], "", "stop", .zero⟩

def handlePart (rt : Runtime) (s : Translator) (part : Json) : Gen Out Translator :=
  match part with
  | .obj fields =>
    let text := (Json.item "text" fields).getD .null
    let call := (Json.item "functionCall" fields).getD .null
    if text.truthy then
      .yield (openaiChunk s.model [("content", .str (rt.str text))] .null)
        { s with parts := s.parts ++ [rt.str text] }
    else if call.truthy then
      (Gen.lift (geminiToolCall rt call)).bind fun toolCall =>
        .yield (openaiChunk s.model [("tool_calls",
            .arr [.obj (("index", .int s.toolCalls.length) :: toolCall)])] .null)
          { s with toolCalls := s.toolCalls ++ [.obj toolCall] }
    else .ok s
  | _ => .ok s

def handleParts (rt : Runtime) : Translator → List Json → Gen Out Translator :=
  Gen.fold (handlePart rt)

def handleFinish (s : Translator) (reason : Json) : Gen Out Translator :=
  if reason.truthy then
    (Gen.lift (finishReason reason)).bind fun finish =>
      ⟨[openaiChunk s.model [] (.str finish), .doneMarker], .ok { s with finishReason := finish }⟩
  else .ok s

/-- The parts of a candidate: `(candidate.get("content") or {}).get("parts") or []`. -/
def candidateParts (candidate : Json) : Py (List Json) := do
  let content := (← candidate.get "content").orElse (.obj [])
  ((← content.get "parts").orElse (.arr [])).iter

def handleCandidate (rt : Runtime) (s : Translator) (candidate : Json) : Gen Out Translator :=
  if candidate.isDict then
    (Gen.lift (candidateParts candidate)).bind fun parts =>
      (handleParts rt s parts).bind fun s =>
        (Gen.lift (candidate.get "finishReason")).bind fun reason => handleFinish s reason
  else .ok s

def handleCandidates (rt : Runtime) : Translator → List Json → Gen Out Translator :=
  Gen.fold (handleCandidate rt)

/-- What `_handle_payload` reads before its candidates. -/
def payloadHead (s : Translator) (payload : Json) : Py (Translator × List Json) := do
  let model ← modelName (← payload.get "modelVersion")
  let usage ← usageFromMetadata (← payload.get "usageMetadata") s.currentUsage
  let candidates ← ((← payload.get "candidates").orElse (.arr [])).iter
  return ({ s with model := if model = "" then s.model else model, currentUsage := usage },
    candidates)

def handlePayload (rt : Runtime) (s : Translator) (payload : Json) : Gen Out Translator :=
  (Gen.lift (payloadHead s payload)).bind fun (s, candidates) => handleCandidates rt s candidates

def handlePayloads (rt : Runtime) : Translator → List Json → Gen Out Translator :=
  Gen.fold (handlePayload rt)

def push (rt : Runtime) (s : Translator) (chunk : Bytes) : Gen Out Translator :=
  let fed := feed geminiBlock s.buffer chunk
  handlePayloads rt { s with buffer := fed.2 } (fed.1.filterMap rt.loads)

def Translator.finish (s : Translator) : CanonicalCompletion where
  model := .str s.model
  content := .str (String.join s.parts)
  toolCalls := if s.toolCalls = [] then .null else .arr s.toolCalls
  finishReason := .str s.finishReason
  usage := s.currentUsage
  raw := none

/-! ## Requests -/

def openaiContentText : Json → Py String := contentText

def functionCallPart (rt : Runtime) (call : Json) : Py Json := do
  let function := (← call.get "function").orElse (.obj [])
  let args ← parseArguments rt (← function.get "arguments")
  let name ← function.get "name"
  return .obj [("functionCall", .obj [("name", name.orElse (.str "")), ("args", args)])]

def turnOf (rt : Runtime) (message : Json) : Py Turn := do
  let role ← message.get "role"
  let text ← openaiContentText (← message.get "content")
  if role = .str "system" then return .system text
  else if role = .str "tool" then
    let name := (← message.get "name").orElse
      ((← message.get "tool_call_id").orElse (.str "tool"))
    return .content (.obj [("role", .str "user"), ("parts", .arr [.obj [("functionResponse",
      .obj [("name", name), ("response", .obj [("content", .str text)])])]])])
  else match role with
    | .arr _ | .obj _ => .error .typeError
    | .str r =>
      if r = "user" ∨ r = "assistant" then
        let calls ← (← ((← message.get "tool_calls").orElse (.arr [])).iter).mapM
          (functionCallPart rt)
        let parts := (if text = "" then [] else [.obj [("text", .str text)]]) ++ calls
        return .content (.obj [("role", .str (if r = "assistant" then "model" else "user")),
          ("parts", .arr (if parts = [] then [.obj [("text", .str "")]] else parts))])
      else return .skipped
    | _ => return .skipped

def toolDeclaration (tool : Json) : Option Json :=
  match tool with
  | .obj fields => match (Json.item "function" fields).getD .null with
    | .obj f => some (.obj [("name", ((Json.item "name" f).getD .null).orElse (.str "")),
        ("description", ((Json.item "description" f).getD .null).orElse (.str "")),
        ("parameters", ((Json.item "parameters" f).getD .null).orElse
          (.obj [("type", .str "object")]))])
    | _ => none
  | _ => none

def generationConfig (fields : List (String × Json)) : List (String × Json) :=
  let maxTokens := ((Json.item "max_tokens" fields).getD .null).orElse
    ((Json.item "max_completion_tokens" fields).getD .null)
  optionalItem "temperature" (Json.item "temperature" fields) ++
    optionalItem "maxOutputTokens" (if maxTokens = .null then none else some maxTokens)

/-- The model and the stream flag are in the URL, not in the body. -/
def prepareRequest (rt : Runtime) (body : Json) (_model : String) (_stream : Bool) : Py Json := do
  let turns ← (← ((← body.get "messages").orElse (.arr [])).iter).mapM (turnOf rt)
  let tools := (← ((← body.get "tools").orElse (.arr [])).iter).filterMap toolDeclaration
  let system := turns.filterMap Turn.systemText
  let config := match body with
    | .obj fields => generationConfig fields
    | _ => []
  return .obj (("contents", .arr (turns.filterMap Turn.entry)) ::
    (optionalItem "systemInstruction" (if system = [] then none else
        some (.obj [("parts", .arr [.obj [("text", .str ("\n\n".intercalate system))]])])) ++
      optionalItem "generationConfig" (if config = [] then none else some (.obj config)) ++
      optionalItem "tools" (if tools = [] then none else
        some (.arr [.obj [("functionDeclarations", .arr tools)]]))))

/-! ## Whole answers -/

/-- The local variables of `parse_completion`. -/
structure Parsed where
  parts : List String
  toolCalls : List Json
  finish : String

def parsePart (rt : Runtime) (p : Parsed) (part : Json) : Py Parsed :=
  match part with
  | .obj fields => do
    let text := (Json.item "text" fields).getD .null
    let call := (Json.item "functionCall" fields).getD .null
    if text.truthy then return { p with parts := p.parts ++ [rt.str text] }
    else if call.truthy then
      return { p with toolCalls := p.toolCalls ++ [.obj (← geminiToolCall rt call)] }
    else return p
  | _ => .ok p

def parseCandidate (rt : Runtime) (p : Parsed) (candidate : Json) : Py Parsed :=
  if candidate.isDict then do
    let finish ← finishReason (← candidate.get "finishReason")
    (← candidateParts candidate).foldlM (parsePart rt) { p with finish := finish }
  else .ok p

def parseCompletion (rt : Runtime) (raw : Json) : Py CanonicalCompletion := do
  let candidates ← ((← raw.get "candidates").orElse (.arr [])).iter
  let p ← candidates.foldlM (parseCandidate rt) ⟨[], [], "stop"⟩
  return {
    model := .str (← modelName (← raw.get "modelVersion"))
    content := .str (String.join p.parts)
    toolCalls := if p.toolCalls = [] then .null else .arr p.toolCalls
    finishReason := .str p.finish
    usage := ← usageFromMetadata (← raw.get "usageMetadata") .zero
    raw := none }

def adapter (rt : Runtime) : Adapter Translator where
  provider := "gemini"
  prepareRequest := prepareRequest rt
  parseCompletion := parseCompletion rt
  translator := .new
  push := push rt
  finish s := .ok s.finish

end Varsten.Proxy.Providers.Gemini
