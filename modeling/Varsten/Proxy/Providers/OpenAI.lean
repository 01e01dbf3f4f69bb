import Varsten.Proxy.SseDecoder
import Varsten.Proxy.Providers.Canonical

/-!
# OpenAI adapter

The upstream wire is the client wire: chunks pass through untouched and a copy
is assembled once the stream ends.
-/

namespace Varsten.Proxy.Providers.OpenAI

open Python (Json Py PyError Gen)
open Python.Utf8 (Bytes Text decode)
open Python.Text
open SseDecoder (dataField doneMarker)

/-- `parse_sse_events`; `loads` is `json.loads`, `none` where it raises `JSONDecodeError`. -/
def parseSseEvents (loads : Text → Option Json) (raw : Text) : List Json :=
  (splitlines raw).filterMap fun rawLine =>
    let line := strip rawLine
    if startsWith line dataField then
      let data := strip (line.drop dataField.length)
      if data = [] ∨ data = doneMarker then none else loads data
    else none

structure Slot where
  id : Json
  type : Json
  name : String
  arguments : String
deriving DecidableEq

def Slot.empty : Slot := ⟨.null, .str "function", "", ""⟩

def Slot.toJson (s : Slot) : Json :=
  .obj [("id", s.id), ("type", s.type),
    ("function", .obj [("name", .str s.name), ("arguments", .str s.arguments)])]

def updateSlot (slot : Slot) (frag : Json) : Py Slot := do
  let id ← frag.get "id"
  let type ← frag.get "type"
  let fn := (← frag.get "function").orElse (.obj [])
  let name ← fn.get "name"
  let arguments ← fn.get "arguments"
  return {
    id := if id.truthy then id else slot.id
    type := if type.truthy then type else slot.type
    name := ← if name.truthy then Json.appendStr slot.name name else pure slot.name
    arguments := ← if arguments.truthy then Json.appendStr slot.arguments arguments
      else pure slot.arguments }

abbrev Slots := List (Json × Slot)

def slotAt (key : Json) : Slots → Slot
  | [] => .empty
  | s :: slots => if s.1 = key then s.2 else slotAt key slots

def setSlot (key : Json) (slot : Slot) : Slots → Slots
  | [] => [(key, slot)]
  | s :: slots => if s.1 = key then (key, slot) :: slots else s :: setSlot key slot slots

def accumulateToolCalls : Slots → List Json → Py Slots
  | slots, [] => .ok slots
  | slots, frag :: deltas => do
    let key ← Json.hashKey (← frag.getD "index" (.int 0))
    let slot ← updateSlot (slotAt key slots) frag
    accumulateToolCalls (setSlot key slot slots) deltas

/-- The keys `sorted` compares: all numbers, all strings, or only one. -/
def comparable : List Json → Bool
  | [] | [_] => true
  | keys => keys.all (fun k => match k with | .float _ => true | _ => false) ||
      keys.all (fun k => match k with | .str _ => true | _ => false)

def keyLe : Json → Json → Bool
  | .float x, .float y => x ≤ y
  | .str x, .str y => x ≤ y
  | _, _ => true

/-- `[slots[i] for i in sorted(slots)]`. -/
def sortedSlots (slots : Slots) : Py (List Json) :=
  if comparable (slots.map Prod.fst) then
    .ok ((slots.mergeSort fun a b => keyLe a.1 b.1).map fun s => s.2.toJson)
  else .error .typeError

def usageFrom (usage : Json) : Py CanonicalUsage := do
  let details := (← usage.get "prompt_tokens_details").orElse (.obj [])
  return {
    inputTokens := ← ((← usage.get "prompt_tokens").orElse (.int 0)).toInt
    outputTokens := ← ((← usage.get "completion_tokens").orElse (.int 0)).toInt
    providerCachedInputTokens := ← ((← details.get "cached_tokens").orElse (.int 0)).toInt }

/-- The local variables of `assemble_stream`. -/
structure Assembly where
  parts : List Json
  slots : Slots
  usage : Json
  model : Json
  finishReason : Json

def Assembly.start : Assembly := ⟨[], [], .obj [], .str "", .null⟩

/-- `_accumulate_tool_calls`, where the delta has any. -/
def withToolCalls (slots : Slots) (toolCalls : Json) : Py Slots :=
  if toolCalls.truthy then do accumulateToolCalls slots (← toolCalls.iter) else .ok slots

def assembleChoice (a : Assembly) (choice : Json) : Py Assembly := do
  let delta := (← choice.get "delta").orElse (.obj [])
  let content ← delta.get "content"
  let toolCalls ← delta.get "tool_calls"
  let slots ← withToolCalls a.slots toolCalls
  let finish ← choice.get "finish_reason"
  return { a with
    parts := if content.truthy then a.parts ++ [content] else a.parts
    slots := slots
    finishReason := if finish.truthy then finish else a.finishReason }

def assembleEvent (a : Assembly) (ev : Json) : Py Assembly := do
  let model := (← ev.get "model").orElse a.model
  let usage ← ev.get "usage"
  let choices ← (← ev.getD "choices" (.arr [])).iter
  choices.foldlM assembleChoice
    { a with model := model, usage := if usage.truthy then usage else a.usage }

/-- `"".join(parts)`. -/
def joinParts (parts : List Json) : Py String := parts.foldlM Json.appendStr ""

def assembleStream (events : List Json) : Py CanonicalCompletion := do
  let a ← events.foldlM assembleEvent .start
  let toolCalls ← sortedSlots a.slots
  return {
    model := a.model
    content := .str (← joinParts a.parts)
    toolCalls := if toolCalls = [] then .null else .arr toolCalls
    finishReason := a.finishReason.orElse (.str "stop")
    usage := ← usageFrom a.usage
    raw := none }

/-- `{**body, "model": model, "stream": stream}`, and the usage option on a stream. -/
def prepareRequest (body : Json) (model : String) (stream : Bool) : Py Json :=
  match body with
  | .obj fields =>
    let wire := Json.setItem "stream" (.bool stream) (Json.setItem "model" (.str model) fields)
    .ok (.obj (if stream then
      Json.setItem "stream_options" (.obj [("include_usage", .bool true)]) wire else wire))
  | _ => .error .typeError

def messageContent (message : Json) : Py Json := do
  let content ← message.get "content"
  match content with
  | .arr bs => return .str (" ".intercalate (← Json.textParts bs))
  | c => return c.orElse (.str "")

/-- `xs[0]` of `xs or [{}]`. -/
def firstChoice (choices : Json) : Py Json :=
  match choices.orElse (.arr [.obj []]) with
  | .arr (c :: _) => .ok c
  | .str s => match s.toList with
    | c :: _ => .ok (.str (String.singleton c))
    | [] => .error .indexError
  | .obj _ => .error .keyError
  | _ => .error .typeError

def parseCompletion (raw : Json) : Py CanonicalCompletion := do
  let choice ← firstChoice (← raw.get "choices")
  let message := (← choice.get "message").orElse (.obj [])
  let content ← messageContent message
  let toolCalls ← message.get "tool_calls"
  let finish ← choice.get "finish_reason"
  let usage ← usageFrom ((← raw.get "usage").orElse (.obj []))
  return {
    model := (← raw.get "model").orElse (.str "")
    content := content
    toolCalls := toolCalls
    finishReason := finish.orElse (.str "stop")
    usage := usage
    raw := some raw }

/-- The translator's state is the copy of the upstream bytes. -/
def adapter (loads : Text → Option Json) : Adapter Bytes where
  provider := "openai"
  prepareRequest := prepareRequest
  parseCompletion := parseCompletion
  translator := []
  push buffer chunk := .yield (.bytes chunk) (buffer ++ chunk)
  finish buffer := assembleStream (parseSseEvents loads (decode buffer))

end Varsten.Proxy.Providers.OpenAI
