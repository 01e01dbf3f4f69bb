import Varsten.Proxy.Providers.Anthropic
import Varsten.Proxy.Providers.Gemini
import Varsten.Proxy.Providers.OpenAI
import Varsten.Proxy.RoutingEligibility

/-!
# Client requests on another provider's wire

A parsed request of one of the three client dialects, the checks before it may be
routed to another provider, and its translation into the internal OpenAI shape.
-/

namespace Varsten.Proxy.ClientRequests

open Python (Json Py PyError Runtime)
open Engine.RequestFacts (field)
open Providers (optionalItem)

abbrev Fields := List (String × Json)

inductive ClientDialect where
  | openai
  | anthropic
  | geminiNative
deriving DecidableEq

/-- What the checks and the translation read of a `ParsedClientRequest`. -/
structure ParsedClientRequest where
  dialect : ClientDialect
  headers : List (String × String)
  body : Fields
  model : Option String
  stream : Bool

/-! ## Eligibility -/

mutual

def iterDicts : Json → List Fields
  | .obj fields => fields :: fieldDicts fields
  | .arr xs => itemDicts xs
  | _ => []

def itemDicts : List Json → List Fields
  | [] => []
  | x :: xs => iterDicts x ++ itemDicts xs

def fieldDicts : Fields → List Fields
  | [] => []
  | f :: fields => iterDicts f.2 ++ fieldDicts fields

end

def findKey (value : Json) (key : String) : Bool :=
  (iterDicts value).any fun fields => (Json.item key fields).isSome

def anthropicServerToolTypes : List String :=
  ["bash_20250124", "computer_20250124", "text_editor_20250124", "web_search_20250305"]

def isAnthropicServerTool : Json → Bool
  | .obj tool => match field "type" tool with
    | .str type => anthropicServerToolTypes.contains type
    | _ => false
  | _ => false

/-- The reason code of `_anthropic_ineligibility`. -/
def anthropicIneligibility (parsed : ParsedClientRequest) : Py (Option String) :=
  if findKey (.obj parsed.body) "cache_control" then .ok (some "anthropic_cache_control")
  else if (parsed.headers.lookup "anthropic-beta").getD "" ≠ "" then
    .ok (some "anthropic_beta_unsupported")
  else do
    let tools ← ((field "tools" parsed.body).orElse (.arr [])).iter
    return if tools.any isAnthropicServerTool then some "server_side_tool" else none

def safeGeminiPartKeys : List String := ["text", "functionCall", "functionResponse"]

def isUnmappedGeminiPart : Json → Bool
  | .obj part => !(safeGeminiPartKeys.any fun key => (Json.item key part).isSome) ||
      (Json.item "inlineData" part).isSome || (Json.item "fileData" part).isSome
  | _ => false

def hasUnmappedGeminiPart (body : Fields) : Bool :=
  (iterDicts ((field "contents" body).orElse (.arr []))).any fun item =>
    match field "parts" item with
    | .arr parts => parts.any isUnmappedGeminiPart
    | _ => false

/-- The reason code of `_gemini_native_ineligibility`. -/
def geminiNativeIneligibility (parsed : ParsedClientRequest) : Option String :=
  if (field "safetySettings" parsed.body).truthy then some "gemini_safety_settings"
  else if hasUnmappedGeminiPart parsed.body then some "native_multimodal_unmapped"
  else none

/-- The reason code of `cross_provider_ineligibility`. -/
def crossProviderIneligibility (parsed : ParsedClientRequest)
    (requestedProvider candidateProvider : String) : Py (Option String) :=
  if requestedProvider = candidateProvider then .ok none
  else match parsed.dialect with
    | .anthropic => anthropicIneligibility parsed
    | .geminiNative => .ok (geminiNativeIneligibility parsed)
    | .openai => RoutingEligibility.openaiIneligibility parsed.body

/-! ## Anthropic requests -/

/-- `block.get("type") == type`, of a dict. -/
def hasType (type : String) : Json → Bool
  | .obj block => field "type" block = .str type
  | _ => false

/-- `str(block.get("text") or "")`. -/
def textOf (rt : Runtime) (block : Json) : String := rt.str ((block.val "text").orElse (.str ""))

def textParts (rt : Runtime) (blocks : List Json) : List String :=
  (blocks.filter (hasType "text")).map (textOf rt)

def anthropicContentToOpenai (rt : Runtime) : Json → Json
  | .str s => .str s
  | .arr blocks => match textParts rt blocks with
    | [text] => .str text
    | texts => .arr (texts.map fun text => .obj [("type", .str "text"), ("text", .str text)])
  | _ => .str ""

def anthropicContentText (rt : Runtime) : Json → String
  | .str s => s
  | .arr blocks => String.join (textParts rt blocks)
  | _ => ""

def anthropicContentHasType (content : Json) (type : String) : Bool :=
  match content with
  | .arr blocks => blocks.any (hasType type)
  | _ => false

def contentBlocks : Json → List Json
  | .arr blocks => blocks
  | _ => []

def toolResultToOpenai (rt : Runtime) (block : Json) : Json :=
  .obj [("role", .str "tool"), ("tool_call_id", (block.val "tool_use_id").orElse (.str "")),
    ("content", .str (anthropicContentText rt (block.val "content")))]

def anthropicToolResultsToOpenai (rt : Runtime) (content : Json) : List Json :=
  ((contentBlocks content).filter (hasType "tool_result")).map (toolResultToOpenai rt)

def toolUseToOpenai (rt : Runtime) (block : Json) : Json :=
  .obj [("id", (block.val "id").orElse (.str "")), ("type", .str "function"),
    ("function", .obj [("name", (block.val "name").orElse (.str "")),
      ("arguments", .str (rt.dumps ((block.val "input").orElse (.obj []))))])]

def anthropicAssistantToolUseToOpenai (rt : Runtime) (content : Json) : Json :=
  let text := anthropicContentText rt content
  .obj [("role", .str "assistant"), ("content", if text = "" then .null else .str text),
    ("tool_calls", .arr (((contentBlocks content).filter (hasType "tool_use")).map
      (toolUseToOpenai rt)))]

/-- `role in {"user", "assistant"}` hashes the role. -/
def anthropicMessageToOpenai (rt : Runtime) (message : Fields) : Py (List Json) :=
  let role := field "role" message
  let content := field "content" message
  if role = .str "user" ∧ anthropicContentHasType content "tool_result" then
    .ok (anthropicToolResultsToOpenai rt content)
  else if role = .str "assistant" ∧ anthropicContentHasType content "tool_use" then
    .ok [anthropicAssistantToolUseToOpenai rt content]
  else do
    let key ← role.hashKey
    return if key = .str "user" ∨ key = .str "assistant" then
      [.obj [("role", role), ("content", anthropicContentToOpenai rt content)]] else []

/-- The dicts among the entries of a list, each turned into messages. -/
def flatMapDicts (f : Fields → Py (List Json)) : List Json → Py (List Json)
  | [] => .ok []
  | .obj fields :: entries => do return (← f fields) ++ (← flatMapDicts f entries)
  | _ :: entries => flatMapDicts f entries

def anthropicToolToOpenai : Json → Option Json
  | .obj tool =>
    if (field "type" tool).truthy then none
    else some (.obj [("type", .str "function"), ("function", .obj [
      ("name", (field "name" tool).orElse (.str "")),
      ("description", (field "description" tool).orElse (.str "")),
      ("parameters", (field "input_schema" tool).orElse (.obj [("type", .str "object")]))])])
  | _ => none

def systemMessage (text : String) : Json := .obj [("role", .str "system"), ("content", .str text)]

def anthropicRequestToOpenai (rt : Runtime) (body : Fields) : Py Json := do
  let system := if (field "system" body).truthy then
    [systemMessage (anthropicContentText rt (field "system" body))] else []
  let messages ← flatMapDicts (anthropicMessageToOpenai rt)
    (← ((field "messages" body).orElse (.arr [])).iter)
  let tools := (← ((field "tools" body).orElse (.arr [])).iter).filterMap anthropicToolToOpenai
  return .obj ([("model", (field "model" body).orElse (.str "")),
    ("messages", .arr (system ++ messages)), ("stream", .bool (field "stream" body).truthy)] ++
    optionalItem "max_tokens" (Json.item "max_tokens" body) ++
    optionalItem "temperature" (Json.item "temperature" body) ++
    optionalItem "tools" (if tools = [] then none else some (.arr tools)))

/-! ## Gemini requests -/

def partText (rt : Runtime) : Json → Option String
  | .obj part => if (field "text" part).truthy then some (rt.str (field "text" part)) else none
  | _ => none

def geminiSystemText (rt : Runtime) (systemInstruction : Json) : Py String :=
  match systemInstruction with
  | .obj fields => do
    let parts ← ((field "parts" fields).orElse (.arr [])).iter
    return String.join (parts.filterMap (partText rt))
  | _ => .ok ""

inductive PartKind where
  | functionCall (call : Json)
  | functionResponse (response : Json)
  | other

def partKind (part : Fields) : PartKind :=
  if (field "functionCall" part).isDict then .functionCall (field "functionCall" part)
  else if (field "functionResponse" part).isDict then
    .functionResponse (field "functionResponse" part)
  else .other

def callId (rt : Runtime) (named : Json) : Json :=
  .str ("call_" ++ rt.str ((named.val "name").orElse (.str "gemini")))

def partCall (rt : Runtime) : Json → Option Json
  | .obj part =>
    if (field "text" part).truthy then none
    else match partKind part with
      | .functionCall call => some (.obj [("id", callId rt call), ("type", .str "function"),
          ("function", .obj [("name", (call.val "name").orElse (.str "")),
            ("arguments", .str (rt.dumps ((call.val "args").orElse (.obj []))))])])
      | _ => none
  | _ => none

def partResponse (rt : Runtime) : Json → Option (Json × String)
  | .obj part =>
    if (field "text" part).truthy then none
    else match partKind part with
      | .functionResponse response =>
        some (callId rt response, rt.dumps ((response.val "response").orElse (.obj [])))
      | _ => none
  | _ => none

def toolMessage (response : Json × String) : Json :=
  .obj [("role", .str "tool"), ("tool_call_id", response.1), ("content", .str response.2)]

def geminiContentToOpenai (rt : Runtime) (content : Fields) : Py (List Json) := do
  let role := if field "role" content = .str "model" then "assistant" else "user"
  let parts ← ((field "parts" content).orElse (.arr [])).iter
  let text := String.join (parts.filterMap (partText rt))
  let toolCalls := parts.filterMap (partCall rt)
  let toolMessages := (parts.filterMap (partResponse rt)).map toolMessage
  return if toolMessages = [] then
    [.obj ([("role", .str role), ("content", if text = "" then .null else .str text)] ++
      optionalItem "tool_calls" (if toolCalls = [] then none else some (.arr toolCalls)))]
  else toolMessages

def geminiDeclaration : Json → Option Json
  | .obj declaration => some (.obj [("type", .str "function"), ("function", .obj [
      ("name", (field "name" declaration).orElse (.str "")),
      ("description", (field "description" declaration).orElse (.str "")),
      ("parameters", (field "parameters" declaration).orElse
        (.obj [("type", .str "object")]))])])
  | _ => none

def geminiToolToOpenai (tool : Fields) : Py (List Json) := do
  let declarations ← ((field "functionDeclarations" tool).orElse (.arr [])).iter
  return declarations.filterMap geminiDeclaration

def geminiRequestToOpenai (rt : Runtime) (body : Fields) (model : Option String) (stream : Bool) :
    Py Json := do
  let system ← geminiSystemText rt (field "systemInstruction" body)
  let messages ← flatMapDicts (geminiContentToOpenai rt)
    (← ((field "contents" body).orElse (.arr [])).iter)
  let generation := match field "generationConfig" body with
    | .obj fields => fields
    | _ => []
  let tools ← flatMapDicts geminiToolToOpenai (← ((field "tools" body).orElse (.arr [])).iter)
  return .obj ([("model", .str (model.getD "")),
    ("messages", .arr ((if system = "" then [] else [systemMessage system]) ++ messages)),
    ("stream", .bool stream)] ++
    optionalItem "temperature" (Json.item "temperature" generation) ++
    optionalItem "max_tokens" (Json.item "maxOutputTokens" generation) ++
    optionalItem "tools" (if tools = [] then none else some (.arr tools)))

def requestToOpenaiShape (rt : Runtime) (parsed : ParsedClientRequest) : Py Json :=
  match parsed.dialect with
  | .openai => .ok (.obj parsed.body)
  | .anthropic => anthropicRequestToOpenai rt parsed.body
  | .geminiNative => geminiRequestToOpenai rt parsed.body parsed.model parsed.stream

/-! ## Destinations -/

inductive Provider where
  | openai
  | anthropic
  | gemini
deriving DecidableEq

def Provider.name : Provider → String
  | .openai => "openai"
  | .anthropic => "anthropic"
  | .gemini => "gemini"

/-- `get_adapter(provider).prepare_request`. -/
def Provider.prepareRequest (rt : Runtime) : Provider → Json → String → Bool → Py Json
  | .openai => Providers.OpenAI.prepareRequest
  | .anthropic => Providers.Anthropic.prepareRequest rt
  | .gemini => Providers.Gemini.prepareRequest rt

end Varsten.Proxy.ClientRequests
