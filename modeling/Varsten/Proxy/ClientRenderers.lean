import Varsten.Proxy.Providers.OpenAI

/-!
# Client stream renderers

OpenAI chunks rendered into the Anthropic and the Gemini stream of a native client.
The events are kept as data, with the JSON that is sent for each. Ids made from the
clock are left out.
-/

namespace Varsten.Proxy.ClientRenderers

open Python (Json Py PyError Gen Runtime)
open Python.Utf8 (Bytes Text)
open SseDecoder (feed openaiBlock)
open Providers (CanonicalUsage CanonicalCompletion usageDict)
open Providers.OpenAI (Slot)

abbrev Fields := List (String × Json)

def jsonObject (rt : Runtime) (value : Json) : Fields :=
  match value with
  | .obj fields => fields
  | .str s =>
    if s = "" then []
    else match rt.loads s.toList with
      | some (.obj fields) => fields
      | _ => []
  | _ => []

/-- `_tool_call_fragment_index`. -/
def fragmentIndex (fragment : Json) : ℤ :=
  match ((fragment.val "index").orElse (.int 0)).toInt with
  | .ok n => n
  | .error _ => 0

/-- `_merge_tool_call_fragment`: the slot, and the arguments the fragment adds. -/
def mergeToolCallFragment (rt : Runtime) (slot : Slot) (fragment : Json) : Py (Slot × String) := do
  let id ← fragment.get "id"
  let type ← fragment.get "type"
  let function := (← fragment.get "function").orElse (.obj [])
  let name ← function.get "name"
  let arguments ← function.get "arguments"
  let delta := if arguments.truthy then rt.str arguments else ""
  return ({
    id := if id.truthy then id else slot.id
    type := if type.truthy then type else slot.type
    name := if name.truthy then slot.name ++ rt.str name else slot.name
    arguments := slot.arguments ++ delta }, delta)

/-- `d[k] = v` on a dict with integer keys. -/
def setKey {α : Type} (k : ℤ) (v : α) : List (ℤ × α) → List (ℤ × α)
  | [] => [(k, v)]
  | p :: ps => if p.1 = k then (k, v) :: ps else p :: setKey k v ps

theorem lookup_setKey {α : Type} (k l : ℤ) (v : α) (ps : List (ℤ × α)) :
    (setKey k v ps).lookup l = if l = k then some v else ps.lookup l := by
  induction ps with
  | nil =>
    rw [setKey]
    by_cases h : l = k
    · simp [h]
    · simp [List.lookup, h, beq_eq_false_iff_ne.2 h]
  | cons p ps ih =>
    rw [setKey]
    by_cases hp : p.1 = k
    · rw [if_pos hp]
      by_cases h : l = k
      · simp [h]
      · have hl : l ≠ p.1 := fun heq => h (heq.trans hp)
        simp [List.lookup, h, beq_eq_false_iff_ne.2 h, beq_eq_false_iff_ne.2 hl]
    · rw [if_neg hp]
      by_cases h : l = p.1
      · simp [List.lookup, h, hp]
      · simp [List.lookup, beq_eq_false_iff_ne.2 h, ih]

theorem setKey_ne_nil {α : Type} (k : ℤ) (v : α) (ps : List (ℤ × α)) : setKey k v ps ≠ [] := by
  cases ps with
  | nil => exact List.cons_ne_nil _ _
  | cons p ps =>
    rw [setKey]
    split_ifs
    · exact List.cons_ne_nil _ _
    · exact List.cons_ne_nil _ _

/-! ## Anthropic -/

inductive AnthropicEvent where
  | messageStart (model : Json) (usage : CanonicalUsage)
  | textStart (index : ℕ)
  | textDelta (index : ℕ) (text : String)
  | toolStart (index : ℕ) (id : Option Json) (name : Json) (input : Fields)
  | inputJsonDelta (index : ℕ) (partialJson : String)
  | blockStop (index : ℕ)
  | messageDelta (stopReason : String) (outputTokens : ℤ)
  | messageStop

def anthropicUsage (u : CanonicalUsage) : Json :=
  .obj [("input_tokens", .int u.inputTokens), ("cache_creation_input_tokens", .int 0),
    ("cache_read_input_tokens", .int u.providerCachedInputTokens),
    ("output_tokens", .int u.outputTokens)]

/-- The payload that is sent; its type is also the event's name. -/
def AnthropicEvent.payload : AnthropicEvent → Json
  | .messageStart model usage => .obj [("type", .str "message_start"), ("message", .obj [
      ("type", .str "message"), ("role", .str "assistant"), ("content", .arr []), ("model", model),
      ("stop_reason", .null), ("stop_sequence", .null), ("usage", anthropicUsage usage)])]
  | .textStart i => .obj [("type", .str "content_block_start"), ("index", .int i),
      ("content_block", .obj [("type", .str "text"), ("text", .str "")])]
  | .textDelta i text => .obj [("type", .str "content_block_delta"), ("index", .int i),
      ("delta", .obj [("type", .str "text_delta"), ("text", .str text)])]
  | .toolStart i id name input => .obj [("type", .str "content_block_start"), ("index", .int i),
      ("content_block", .obj ([("type", .str "tool_use")] ++ (id.map fun id => ("id", id)).toList ++
        [("name", name), ("input", .obj input)]))]
  | .inputJsonDelta i partialJson => .obj [("type", .str "content_block_delta"), ("index", .int i),
      ("delta", .obj [("type", .str "input_json_delta"), ("partial_json", .str partialJson)])]
  | .blockStop i => .obj [("type", .str "content_block_stop"), ("index", .int i)]
  | .messageDelta stopReason outputTokens => .obj [("type", .str "message_delta"),
      ("delta", .obj [("stop_reason", .str stopReason), ("stop_sequence", .null)]),
      ("usage", .obj [("output_tokens", .int outputTokens)])]
  | .messageStop => .obj [("type", .str "message_stop")]

/-- `_AnthropicClientStreamRenderer`. -/
structure AnthropicRenderer where
  buffer : Text
  model : Json
  messageStarted : Bool
  contentStarted : Bool
  textBlockIndex : Option ℕ
  nextBlockIndex : ℕ
  toolCallSlots : List (ℤ × Slot)
  toolBlockIndexes : List (ℤ × ℕ)
  openToolIndexes : List ℤ
  finishReason : String
  closed : Bool

def AnthropicRenderer.new (model : Json) : AnthropicRenderer :=
  ⟨[], model.orElse (.str ""), false, false, none, 0, [], [], [], "stop", false⟩

namespace Anthropic

abbrev Run (α : Type) := Gen AnthropicEvent α

def ensureMessageStart (s : AnthropicRenderer) (usage : CanonicalUsage) : Run AnthropicRenderer :=
  if s.messageStarted then .ok s
  else .yield (.messageStart s.model usage) { s with messageStarted := true }

def emitText (s : AnthropicRenderer) (text : String) : Run AnthropicRenderer :=
  (ensureMessageStart s .zero).bind fun s => match s.textBlockIndex with
    | some i => .yield (.textDelta i text) s
    | none => ⟨[.textStart s.nextBlockIndex, .textDelta s.nextBlockIndex text], .ok { s with
        textBlockIndex := some s.nextBlockIndex
        nextBlockIndex := s.nextBlockIndex + 1
        contentStarted := true }⟩

def closeTextBlock (s : AnthropicRenderer) : Run AnthropicRenderer :=
  match s.textBlockIndex with
  | none => .ok s
  | some i => .yield (.blockStop i) { s with textBlockIndex := none }

/-- `_anthropic_tool_call_start`. -/
def toolCallStart (rt : Runtime) (index : ℕ) (call : Json) : Py AnthropicEvent := do
  let function := (← call.get "function").orElse (.obj [])
  let id ← call.get "id"
  let name ← function.get "name"
  let arguments ← function.get "arguments"
  return .toolStart index (if id.truthy then some id else none) (name.orElse (.str ""))
    (jsonObject rt arguments)

def toolBlock (rt : Runtime) (s : AnthropicRenderer) (i : ℤ) (slot : Slot) :
    Run (AnthropicRenderer × ℕ) :=
  match s.toolBlockIndexes.lookup i with
  | some b => .ok (s, b)
  | none => (Gen.lift (toolCallStart rt s.nextBlockIndex slot.toJson)).bind fun event =>
      .yield event ({ s with
        nextBlockIndex := s.nextBlockIndex + 1
        toolBlockIndexes := setKey i s.nextBlockIndex s.toolBlockIndexes
        openToolIndexes := i :: s.openToolIndexes }, s.nextBlockIndex)

def emitFragment (rt : Runtime) (s : AnthropicRenderer) (fragment : Json) :
    Run AnthropicRenderer :=
  if fragment.isDict then
    let i := fragmentIndex fragment
    let slot := (s.toolCallSlots.lookup i).getD .empty
    (Gen.lift (mergeToolCallFragment rt slot fragment)).bind fun (slot, delta) =>
      (toolBlock rt { s with toolCallSlots := setKey i slot s.toolCallSlots } i slot).bind
        fun (s, b) => if delta = "" then .ok s else .yield (.inputJsonDelta b delta) s
  else .ok s

def emitToolCallFragments (rt : Runtime) (s : AnthropicRenderer) (fragments : List Json) :
    Run AnthropicRenderer :=
  (ensureMessageStart s .zero).bind fun s =>
    (closeTextBlock s).bind fun s => Gen.fold (emitFragment rt) s fragments

def handleDelta (rt : Runtime) (s : AnthropicRenderer) (delta : Json) : Run AnthropicRenderer :=
  (Gen.lift (do return (← delta.get "role", ← delta.get "content", ← delta.get "tool_calls"))).bind
    fun (role, content, toolCalls) =>
      (if role = .str "assistant" then ensureMessageStart s .zero else .ok s).bind fun s =>
        (if content.truthy then emitText s (rt.str content) else .ok s).bind fun s =>
          match toolCalls with
          | .arr (f :: fs) => emitToolCallFragments rt s (f :: fs)
          | _ => .ok s

def handleChoice (rt : Runtime) (s : AnthropicRenderer) (choice : Json) : Run AnthropicRenderer :=
  match choice with
  | .obj fields =>
    let finish := (Json.item "finish_reason" fields).getD .null
    handleDelta rt { s with finishReason := if finish.truthy then rt.str finish else s.finishReason }
      (((Json.item "delta" fields).getD .null).orElse (.obj []))
  | _ => .ok s

def handlePayload (rt : Runtime) (s : AnthropicRenderer) (payload : Json) :
    Run AnthropicRenderer :=
  (Gen.lift (do
    let model ← payload.get "model"
    let choices ← ((← payload.get "choices").orElse (.arr [])).iter
    return (model.orElse s.model, choices))).bind fun (model, choices) =>
      Gen.fold (handleChoice rt) { s with model := model } choices

def push (rt : Runtime) (s : AnthropicRenderer) (chunk : Bytes) : Run AnthropicRenderer :=
  let fed := feed (openaiBlock rt.loads) s.buffer chunk
  Gen.fold (handlePayload rt) { s with buffer := fed.2 } fed.1

def blockOf (s : AnthropicRenderer) (i : ℤ) : ℕ := (s.toolBlockIndexes.lookup i).getD 0

def closeToolBlocks (s : AnthropicRenderer) : Run AnthropicRenderer :=
  ⟨(s.openToolIndexes.mergeSort fun i j => blockOf s i ≤ blockOf s j).map
    fun i => .blockStop (blockOf s i), .ok { s with openToolIndexes := [] }⟩

/-- `_anthropic_tool_call_events`. -/
def toolCallEvents (rt : Runtime) (s : AnthropicRenderer) (call : Json) : Run AnthropicRenderer :=
  (Gen.lift (toolCallStart rt s.nextBlockIndex call)).bind fun event =>
    ⟨[event, .blockStop s.nextBlockIndex], .ok { s with nextBlockIndex := s.nextBlockIndex + 1 }⟩

def stopReason (finishReason toolCalls : Json) : Py String :=
  if toolCalls.truthy then .ok "tool_use"
  else do
    let reason ← Json.hashKey (finishReason.orElse (.str "stop"))
    return if reason = .str "length" then "max_tokens" else "end_turn"

def finishStream (rt : Runtime) (s : AnthropicRenderer) (completion : CanonicalCompletion) :
    Run AnthropicRenderer :=
  (ensureMessageStart { s with closed := true, model := completion.model.orElse s.model }
    completion.usage).bind fun s =>
  (if !s.contentStarted ∧ completion.content.truthy then emitText s (rt.str completion.content)
    else .ok s).bind fun s =>
  (closeTextBlock s).bind fun s =>
  (closeToolBlocks s).bind fun s =>
  (if s.toolBlockIndexes = [] then
      (Gen.lift (completion.toolCalls.orElse (.arr [])).iter).bind fun calls =>
        Gen.fold (toolCallEvents rt) s calls
    else .ok s).bind fun s =>
  (Gen.lift (stopReason (completion.finishReason.orElse (.str s.finishReason))
    completion.toolCalls)).bind fun reason =>
  ⟨[.messageDelta reason completion.usage.outputTokens, .messageStop], .ok s⟩

def finish (rt : Runtime) (s : AnthropicRenderer) (completion : CanonicalCompletion) :
    Run AnthropicRenderer :=
  if s.closed then .ok s else finishStream rt s completion

end Anthropic

/-! ## Gemini -/

inductive GeminiPart where
  | text (text : String)
  | functionCall (name : Json) (args : Fields)

structure GeminiChunk where
  parts : List GeminiPart
  model : Json
  finishReason : Option String
  usage : Option CanonicalUsage

def GeminiPart.payload : GeminiPart → Json
  | .text t => .obj [("text", .str t)]
  | .functionCall name args => .obj [("functionCall", .obj [("name", name), ("args", .obj args)])]

def geminiUsage (u : CanonicalUsage) : Json :=
  .obj ([("promptTokenCount", .int u.inputTokens), ("candidatesTokenCount", .int u.outputTokens),
    ("totalTokenCount", .int (u.inputTokens + u.outputTokens))] ++
    if u.providerCachedInputTokens ≠ 0 then
      [("cachedContentTokenCount", .int u.providerCachedInputTokens)] else [])

/-- `_gemini_sse`. -/
def GeminiChunk.payload (c : GeminiChunk) : Json :=
  .obj ([("candidates", .arr [.obj ([("content", .obj [("role", .str "model"),
      ("parts", .arr (c.parts.map GeminiPart.payload))]), ("index", .int 0)] ++
      (c.finishReason.map fun r => ("finishReason", .str r)).toList)]),
    ("modelVersion", c.model)] ++ (c.usage.map fun u => ("usageMetadata", geminiUsage u)).toList)

/-- `_GeminiClientStreamRenderer`. -/
structure GeminiRenderer where
  buffer : Text
  model : Json
  finishReason : String
  emittedContent : Bool
  toolCallSlots : List (ℤ × Slot)
  closed : Bool

def GeminiRenderer.new (model : Json) : GeminiRenderer :=
  ⟨[], model.orElse (.str ""), "stop", false, [], false⟩

namespace Gemini

abbrev Run := Gen GeminiChunk GeminiRenderer

def mergeFragment (rt : Runtime) (slots : List (ℤ × Slot)) (fragment : Json) :
    Py (List (ℤ × Slot)) := do
  if fragment.isDict then
    let i := fragmentIndex fragment
    let merged ← mergeToolCallFragment rt ((slots.lookup i).getD .empty) fragment
    return setKey i merged.1 slots
  else return slots

def handleDelta (rt : Runtime) (s : GeminiRenderer) (delta : Json) : Run :=
  (Gen.lift (do return (← delta.get "content", ← delta.get "tool_calls"))).bind
    fun (content, toolCalls) =>
      (if content.truthy then
          .yield ⟨[.text (rt.str content)], s.model, none, none⟩ { s with emittedContent := true }
        else Gen.ok s).bind fun s =>
          match toolCalls with
          | .arr fragments => (Gen.lift (fragments.foldlM (mergeFragment rt) s.toolCallSlots)).bind
              fun slots => .ok { s with toolCallSlots := slots }
          | _ => .ok s

def handleChoice (rt : Runtime) (s : GeminiRenderer) (choice : Json) : Run :=
  match choice with
  | .obj fields =>
    let finish := (Json.item "finish_reason" fields).getD .null
    handleDelta rt { s with finishReason := if finish.truthy then rt.str finish else s.finishReason }
      (((Json.item "delta" fields).getD .null).orElse (.obj []))
  | _ => .ok s

def handlePayload (rt : Runtime) (s : GeminiRenderer) (payload : Json) : Run :=
  (Gen.lift (do
    let model ← payload.get "model"
    let choices ← ((← payload.get "choices").orElse (.arr [])).iter
    return (model.orElse s.model, choices))).bind fun (model, choices) =>
      Gen.fold (handleChoice rt) { s with model := model } choices

def push (rt : Runtime) (s : GeminiRenderer) (chunk : Bytes) : Run :=
  let fed := feed (openaiBlock rt.loads) s.buffer chunk
  Gen.fold (handlePayload rt) { s with buffer := fed.2 } fed.1

/-- One turn of `_gemini_tool_parts`. -/
def toolPart (rt : Runtime) (call : Json) : Py GeminiPart := do
  let function := (← call.get "function").orElse (.obj [])
  let name ← function.get "name"
  let arguments ← function.get "arguments"
  return .functionCall (name.orElse (.str "")) (jsonObject rt arguments)

/-- `[slots[i] for i in sorted(slots)]`. -/
def slotCalls (slots : List (ℤ × Slot)) : List Json :=
  (slots.mergeSort fun a b => a.1 ≤ b.1).map fun s => s.2.toJson

def finishReason (reason : Json) : Py String := do
  let reason ← Json.hashKey (reason.orElse (.str "stop"))
  return if reason = .str "length" then "MAX_TOKENS"
    else if reason = .str "content_filter" then "SAFETY" else "STOP"

def finish (rt : Runtime) (s : GeminiRenderer) (completion : CanonicalCompletion) : Run :=
  if s.closed then .ok s
  else
    let model := completion.model.orElse s.model
    let text := if !s.emittedContent ∧ completion.content.truthy then
      [GeminiPart.text (rt.str completion.content)] else []
    let toolCalls := completion.toolCalls.orElse (.arr (slotCalls s.toolCallSlots))
    (Gen.lift (do return (← (← toolCalls.iter).mapM (toolPart rt),
      ← finishReason (completion.finishReason.orElse (.str s.finishReason))))).bind
      fun (calls, reason) =>
        let parts := text ++ calls
        .yield ⟨if parts.isEmpty then [.text ""] else parts, model, some reason,
          some completion.usage⟩ { s with closed := true, model := model }

end Gemini

end Varsten.Proxy.ClientRenderers
