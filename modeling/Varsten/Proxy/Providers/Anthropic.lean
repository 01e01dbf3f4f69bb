import Varsten.Proxy.SseDecoder
import Varsten.Proxy.Providers.Canonical

/-!
# Anthropic adapter

Requests are translated to `messages` bodies and stream events to OpenAI chunks.
The usage is folded from `message_start` and the cumulative `message_delta`
events before the translated chunk is yielded. The translator starts from the
finish reason `stop`, and a `message_delta` without a stop reason sets it back.
-/

namespace Varsten.Proxy.Providers.Anthropic

open Python (Json Py PyError Gen Runtime)
open Python.Utf8 (Bytes Text)
open SseDecoder (feed anthropicBlock)

def usageFromAnthropic (usage : Json) (previous : CanonicalUsage) : Py CanonicalUsage :=
  if !usage.truthy then .ok previous
  else do
    let cacheRead ← ((← usage.get "cache_read_input_tokens").orElse
      (.int previous.providerCachedInputTokens)).toInt
    let cacheCreation ← ((← usage.get "cache_creation_input_tokens").orElse (.int 0)).toInt
    let inputTokens ← match ← usage.member "input_tokens" with
      | some n => do pure ((← (n.orElse (.int 0)).toInt) + cacheCreation + cacheRead)
      | none => pure previous.inputTokens
    let outputTokens ← match ← usage.member "output_tokens" with
      | some n => (n.orElse (.int 0)).toInt
      | none => pure previous.outputTokens
    return ⟨inputTokens, outputTokens, cacheRead⟩

def openaiFinishReason (stopReason : Json) : Py Json :=
  match stopReason.orElse (.str "") with
  | .arr _ | .obj _ => .error .typeError
  | .str "end_turn" => .ok (.str "stop")
  | .str "stop_sequence" => .ok (.str "stop")
  | .str "max_tokens" => .ok (.str "length")
  | .str "tool_use" => .ok (.str "tool_calls")
  | _ => .ok (stopReason.orElse (.str "stop"))

/-- One OpenAI chunk; `id` and `created`, read off the clock, are left out. -/
def sseChunk (model : Json) (delta : List (String × Json)) (finish : Json) : Out :=
  .chunk (.obj [("object", .str "chat.completion.chunk"), ("model", model),
    ("choices", .arr [.obj [("index", .int 0), ("delta", .obj delta),
      ("finish_reason", finish)]])])

def jsonObjectOrEmpty (rt : Runtime) (value : String) : Json :=
  match rt.loads value.toList with
  | some (.obj fields) => .obj fields
  | _ => .obj []

def openaiToolCall (rt : Runtime) (block : List (String × Json)) : List (String × Json) :=
  let field (k : String) (d : Json) := ((Json.item k block).getD .null).orElse d
  [("id", field "id" (.str "")), ("type", .str "function"),
    ("function", .obj [("name", field "name" (.str "")),
      ("arguments", .str (rt.dumps (field "input" (.obj []))))])]

/-- A tool block under way; `partialJson` is its `_partial_json`. -/
structure ToolBlock where
  fields : List (String × Json)
  partialJson : String

structure Translator where
  buffer : Text
  parts : List String
  toolBlocks : List (ℤ × ToolBlock)
  toolCalls : List Json
  model : Json
  finishReason : Json
  currentUsage : CanonicalUsage

def Translator.new : Translator := ⟨[], [], [], [], .str "", .str "stop", .zero⟩

def blockAt (index : ℤ) (blocks : List (ℤ × ToolBlock)) : Option ToolBlock :=
  (blocks.find? fun b => b.1 = index).map Prod.snd

def setBlock (index : ℤ) (block : ToolBlock) (blocks : List (ℤ × ToolBlock)) :
    List (ℤ × ToolBlock) :=
  (index, block) :: blocks.filter fun b => b.1 ≠ index

def index (payload : Json) : Py ℤ := do ((← payload.get "index").orElse (.int 0)).toInt

def emitText (rt : Runtime) (s : Translator) (text : Json) : Gen Out Translator :=
  .yield (sseChunk s.model [("content", .str (rt.str text))] .null)
    { s with parts := s.parts ++ [rt.str text] }

def handleMessageStart (s : Translator) (payload : Json) : Gen Out Translator :=
  (Gen.lift (do
    let message := (← payload.get "message").orElse (.obj [])
    let model := (← message.get "model").orElse s.model
    let usage ← usageFromAnthropic (← message.get "usage") s.currentUsage
    return { s with model := model, currentUsage := usage })).bind fun s =>
      .yield (sseChunk s.model [("role", .str "assistant")] .null) s

def handleContentBlockStart (rt : Runtime) (s : Translator) (payload : Json) :
    Gen Out Translator :=
  (Gen.lift (do return (← index payload, (← payload.get "content_block").orElse (.obj [])))).bind
    fun (i, block) => match block with
      | .obj fields =>
        let type := (Json.item "type" fields).getD .null
        let text := (Json.item "text" fields).getD .null
        if type = .str "text" ∧ text.truthy then emitText rt s text
        else if type = .str "tool_use" then
          .ok { s with toolBlocks := setBlock i ⟨fields, ""⟩ s.toolBlocks }
        else .ok s
      | _ => Gen.lift (.error .attributeError)

def handleContentBlockDelta (rt : Runtime) (s : Translator) (payload : Json) :
    Gen Out Translator :=
  (Gen.lift (do return (← index payload, (← payload.get "delta").orElse (.obj [])))).bind
    fun (i, delta) => match delta with
      | .obj fields =>
        let type := (Json.item "type" fields).getD .null
        let text := (Json.item "text" fields).getD .null
        if type = .str "text_delta" ∧ text.truthy then emitText rt s text
        else if type = .str "input_json_delta" then
          let block := (blockAt i s.toolBlocks).getD ⟨[("type", .str "tool_use")], ""⟩
          let piece := rt.str (((Json.item "partial_json" fields).getD .null).orElse (.str ""))
          .ok { s with toolBlocks := setBlock i ⟨block.fields, block.partialJson ++ piece⟩ s.toolBlocks }
        else .ok s
      | _ => Gen.lift (.error .attributeError)

def handleContentBlockStop (rt : Runtime) (s : Translator) (payload : Json) : Gen Out Translator :=
  (Gen.lift (index payload)).bind fun i => match blockAt i s.toolBlocks with
    | none => .ok s
    | some block =>
      let hasInput := ((Json.item "input" block.fields).getD .null).truthy
      let fields := if block.partialJson ≠ "" ∧ !hasInput then
          Json.setItem "input" (jsonObjectOrEmpty rt block.partialJson) block.fields
        else block.fields
      let toolCall := openaiToolCall rt fields
      .yield (sseChunk s.model [("tool_calls",
          .arr [.obj (("index", .int s.toolCalls.length) :: toolCall)])] .null)
        { s with
          toolBlocks := s.toolBlocks.filter fun b => b.1 ≠ i
          toolCalls := s.toolCalls ++ [.obj toolCall] }

/-- The finish reason a `message_delta` sets, also without a stop reason. -/
def deltaFinish (stopReason : Json) : Py Json :=
  if stopReason.truthy then openaiFinishReason stopReason else .ok (.str "stop")

def handleMessageDelta (s : Translator) (payload : Json) : Py Translator := do
  let usage ← usageFromAnthropic (← payload.get "usage") s.currentUsage
  let delta := (← payload.get "delta").orElse (.obj [])
  let stopReason ← delta.get "stop_reason"
  let finish ← deltaFinish stopReason
  return { s with currentUsage := usage, finishReason := finish }

/-- An event of another type, `error` and `ping` among them, is skipped. -/
def handleEvent (rt : Runtime) (s : Translator) (payload : Json) : Gen Out Translator :=
  (Gen.lift (payload.get "type")).bind fun type => match type with
    | .str "message_start" => handleMessageStart s payload
    | .str "content_block_start" => handleContentBlockStart rt s payload
    | .str "content_block_delta" => handleContentBlockDelta rt s payload
    | .str "content_block_stop" => handleContentBlockStop rt s payload
    | .str "message_delta" => Gen.lift (handleMessageDelta s payload)
    | .str "message_stop" => ⟨[sseChunk s.model [] s.finishReason, .doneMarker], .ok s⟩
    | _ => .ok s

def handleEvents (rt : Runtime) : Translator → List Json → Gen Out Translator :=
  Gen.fold (handleEvent rt)

def push (rt : Runtime) (s : Translator) (chunk : Bytes) : Gen Out Translator :=
  let fed := feed anthropicBlock s.buffer chunk
  handleEvents rt { s with buffer := fed.2 } (fed.1.filterMap fun e => rt.loads e.2)

def Translator.finish (s : Translator) : CanonicalCompletion where
  model := s.model
  content := .str (String.join s.parts)
  toolCalls := if s.toolCalls = [] then .null else .arr s.toolCalls
  finishReason := s.finishReason
  usage := s.currentUsage
  raw := none

/-! ## Requests -/

def contentBlocks : List Json → List Json
  | [] => []
  | .obj fields :: parts =>
    if (Json.item "type" fields).getD .null = .str "text" then
      .obj [("type", .str "text"), ("text", (Json.item "text" fields).getD (.str ""))] ::
        contentBlocks parts
    else contentBlocks parts
  | _ :: parts => contentBlocks parts

def toolUseBlock (rt : Runtime) (call : Json) : Py Json := do
  let function := (← call.get "function").orElse (.obj [])
  let input ← parseArguments rt (← function.get "arguments")
  let id ← call.get "id"
  let name ← function.get "name"
  return .obj [("type", .str "tool_use"), ("id", id.orElse (.str "")),
    ("name", name.orElse (.str "")), ("input", input)]

/-- The content of a user or assistant message, with its tool calls as blocks. -/
def anthropicContent (rt : Runtime) (message : Json) : Py Json := do
  let content ← match ← message.get "content" with
    | .str s => pure (.str s)
    | content => do pure (.arr (contentBlocks (← (content.orElse (.arr [])).iter)))
  let toolCalls := (← message.get "tool_calls").orElse (.arr [])
  if toolCalls.truthy then
    let calls ← (← toolCalls.iter).mapM (toolUseBlock rt)
    return .arr ((match content with
      | .arr blocks => blocks
      | text => [.obj [("type", .str "text"), ("text", text)]]) ++ calls)
  else return content

def turnOf (rt : Runtime) (message : Json) : Py Turn := do
  let role ← message.get "role"
  if role = .str "system" then return .system (← contentText (← message.get "content"))
  else if role = .str "tool" then
    let id := (← message.get "tool_call_id").orElse (.str "")
    let text ← contentText (← message.get "content")
    return .content (.obj [("role", .str "user"), ("content", .arr [.obj [
      ("type", .str "tool_result"), ("tool_use_id", id), ("content", .str text)]])])
  else
    let content ← anthropicContent rt message
    match role with
    | .arr _ | .obj _ => .error .typeError
    | .str r =>
      return if r = "user" ∨ r = "assistant" then
        .content (.obj [("role", .str r), ("content", content)]) else .skipped
    | _ => return .skipped

def anthropicTool (tool : Json) : Option Json :=
  match tool with
  | .obj fields => match (Json.item "function" fields).getD .null with
    | .obj f => some (.obj [("name", ((Json.item "name" f).getD .null).orElse (.str "")),
        ("description", ((Json.item "description" f).getD .null).orElse (.str "")),
        ("input_schema", ((Json.item "parameters" f).getD .null).orElse
          (.obj [("type", .str "object")]))])
    | _ => none
  | _ => none

def prepareRequest (rt : Runtime) (body : Json) (model : String) (stream : Bool) : Py Json := do
  let turns ← (← ((← body.get "messages").orElse (.arr [])).iter).mapM (turnOf rt)
  let maxTokens ← ((← body.get "max_tokens").orElse ((← body.get "max_completion_tokens").orElse
    (.int 1024))).toInt
  let temperature ← body.member "temperature"
  let tools := (← ((← body.get "tools").orElse (.arr [])).iter).filterMap anthropicTool
  let system := turns.filterMap Turn.systemText
  return .obj (("model", .str model) :: ("max_tokens", .int maxTokens) ::
    ("messages", .arr (turns.filterMap Turn.entry)) :: ("stream", .bool stream) ::
    (optionalItem "system" (if system = [] then none else
        some (.str ("\n\n".intercalate system))) ++
      optionalItem "temperature" temperature ++
      optionalItem "tools" (if tools = [] then none else some (.arr tools))))

/-! ## Whole answers -/

def parseBlock (rt : Runtime) (p : List String × List Json) (block : Json) :
    List String × List Json :=
  match block with
  | .obj fields =>
    let type := (Json.item "type" fields).getD .null
    if type = .str "text" then
      (p.1 ++ [rt.str (((Json.item "text" fields).getD .null).orElse (.str ""))], p.2)
    else if type = .str "tool_use" then (p.1, p.2 ++ [.obj (openaiToolCall rt fields)])
    else p
  | _ => p

def parseCompletion (rt : Runtime) (raw : Json) : Py CanonicalCompletion := do
  let blocks ← ((← raw.get "content").orElse (.arr [])).iter
  let p := blocks.foldl (parseBlock rt) ([], [])
  return {
    model := (← raw.get "model").orElse (.str "")
    content := .str (String.join p.1)
    toolCalls := if p.2 = [] then .null else .arr p.2
    finishReason := ← openaiFinishReason (← raw.get "stop_reason")
    usage := ← usageFromAnthropic (← raw.get "usage") .zero
    raw := none }

def adapter (rt : Runtime) : Adapter Translator where
  provider := "anthropic"
  prepareRequest := prepareRequest rt
  parseCompletion := parseCompletion rt
  translator := .new
  push := push rt
  finish s := .ok s.finish

end Varsten.Proxy.Providers.Anthropic
