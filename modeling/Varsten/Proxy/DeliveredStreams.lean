import Varsten.Proxy.ClientStreams

/-!
# Delivered and metered streams

The Anthropic client's view of a rendered stream: texts, and tool calls with the input
their block starts with and the input their deltas spell. For both clients, what is
received is what the translator's completion meters.
-/

namespace Varsten.Proxy.DeliveredStreams

open Python (Json Py PyError Gen Runtime)
open Python.Json (str_orElse_empty obj_orElse_empty truthy_str)
open Providers (Out CanonicalUsage CanonicalCompletion)
open ClientRenderers
open ClientRenderers.Anthropic
open TranslatedItems (Item Items IsOut chunkJson callDelta toolFields texts)
open ClientStreams

variable {rt : Runtime} {s : AnthropicRenderer}

/-! ## What an Anthropic client receives -/

def eventText : AnthropicEvent → String
  | .textDelta _ t => t
  | _ => ""

def anthropicText (events : List AnthropicEvent) : String := String.join (events.map eventText)

/-- A tool call of the client: the input of its block's start, and the pieces of its deltas. -/
structure ReceivedCall where
  index : ℕ
  name : String
  input : Fields
  partialJson : String

def receive (rt : Runtime) (calls : List ReceivedCall) : AnthropicEvent → List ReceivedCall
  | .toolStart i _ name input => calls ++ [⟨i, rt.str name, input, ""⟩]
  | .inputJsonDelta i piece =>
    calls.map fun c => if c.index = i then { c with partialJson := c.partialJson ++ piece } else c
  | _ => calls

def received (rt : Runtime) (events : List AnthropicEvent) : List ReceivedCall :=
  events.foldl (receive rt) []

def ReceivedCall.started (c : ReceivedCall) : String × Fields := (c.name, c.input)

def ReceivedCall.streamed (rt : Runtime) (c : ReceivedCall) : String × Fields :=
  (c.name, jsonObject rt (.str c.partialJson))

/-- Events that carry the text `t` and no tool call. -/
structure Speaks (rt : Runtime) (t : String) (events : List AnthropicEvent) : Prop where
  text : anthropicText events = t
  calls : ∀ cs, events.foldl (receive rt) cs = cs

theorem Speaks.nil : Speaks rt "" [] := ⟨rfl, fun _ => rfl⟩

theorem anthropicText_append (xs ys : List AnthropicEvent) :
    anthropicText (xs ++ ys) = anthropicText xs ++ anthropicText ys := by
  rw [anthropicText, List.map_append, String.join_append]
  rfl

theorem Speaks.append {t u : String} {xs ys : List AnthropicEvent} (hx : Speaks rt t xs)
    (hy : Speaks rt u ys) : Speaks rt (t ++ u) (xs ++ ys) := by
  refine ⟨by rw [anthropicText_append, hx.text, hy.text], fun cs => ?_⟩
  rw [List.foldl_append, hx.calls, hy.calls]

theorem Speaks.delta (rt : Runtime) (i : ℕ) (t : String) : Speaks rt t [.textDelta i t] :=
  ⟨by simp [anthropicText, eventText], fun _ => rfl⟩

theorem Speaks.textStart (rt : Runtime) (i : ℕ) : Speaks rt "" [.textStart i] := ⟨rfl, fun _ => rfl⟩

theorem Speaks.stops (rt : Runtime) (indexes : List ℕ) : Speaks rt "" (indexes.map .blockStop) := by
  induction indexes with
  | nil => exact .nil
  | cons i indexes ih =>
    have hone : Speaks rt "" [.blockStop i] := ⟨rfl, fun _ => rfl⟩
    exact hone.append ih

/-! ## The steps of the renderer -/

theorem ensureMessageStart_eq (rt : Runtime) (s : AnthropicRenderer) (usage : CanonicalUsage) :
    ∃ events, ensureMessageStart s usage = ⟨events, .ok { s with messageStarted := true }⟩ ∧
      Speaks rt "" events := by
  rw [ensureMessageStart]
  split_ifs with h
  · refine ⟨[], ?_, .nil⟩
    rw [← h]
    rfl
  · exact ⟨_, rfl, rfl, fun _ => rfl⟩

theorem closeTextBlock_eq (rt : Runtime) (s : AnthropicRenderer) :
    ∃ events, closeTextBlock s = ⟨events, .ok { s with textBlockIndex := none }⟩ ∧
      Speaks rt "" events := by
  rw [closeTextBlock]
  cases h : s.textBlockIndex with
  | none =>
    have hs : { s with textBlockIndex := none } = s := by rw [← h]
    exact ⟨[], by rw [hs]; rfl, .nil⟩
  | some i => exact ⟨_, rfl, rfl, fun _ => rfl⟩

/-- What the renderer remembers after `n` calls, which the client has as `cs`. -/
structure Remembers (s : AnthropicRenderer) (n : ℕ) (cs : List ReceivedCall) : Prop where
  buffer : s.buffer = []
  closed : s.closed = false
  open_text : s.textBlockIndex ≠ none → s.contentStarted = true
  fresh : ∀ c ∈ cs, c.index < s.nextBlockIndex
  slots : ∀ k : ℕ, n ≤ k → s.toolCallSlots.lookup (k : ℤ) = none
  blocks : ∀ k : ℕ, n ≤ k → s.toolBlockIndexes.lookup (k : ℤ) = none
  started : s.toolBlockIndexes = [] → n = 0

/-- What a step delivers, to a client that has the calls `cs`. -/
structure Delivers (rt : Runtime) (s : AnthropicRenderer) (items : List Item)
    (cs : List ReceivedCall) (events : List AnthropicEvent) (s' : AnthropicRenderer) : Prop where
  text : anthropicText events = texts items
  started : (events.foldl (receive rt) cs).map ReceivedCall.started =
    cs.map ReceivedCall.started ++ (TranslatedItems.calls items).map (meteredCall rt)
  streamed : (events.foldl (receive rt) cs).map (ReceivedCall.streamed rt) =
    cs.map (ReceivedCall.streamed rt) ++ (TranslatedItems.calls items).map (meteredCall rt)
  silent : s'.contentStarted = false → s.contentStarted = false ∧ texts items = ""

/-- A run that delivers one item and keeps what the renderer remembers. -/
def Step (rt : Runtime) (n : ℕ) (item : Item) (cs : List ReceivedCall) (s : AnthropicRenderer)
    (run : Run AnthropicRenderer) : Prop :=
  ∃ events s', run = ⟨events, .ok s'⟩ ∧ Delivers rt s [item] cs events s' ∧
    Remembers s' (n + item.calls.length) (events.foldl (receive rt) cs)

theorem Delivers.of_speaks {item : Item} {cs : List ReceivedCall} {events : List AnthropicEvent}
    {s' : AnthropicRenderer} (hi : item.calls = []) (h : Speaks rt item.shown events)
    (hc : s'.contentStarted = false → s.contentStarted = false ∧ item.shown = "") :
    Delivers rt s [item] cs events s' := by
  have htexts : texts [item] = item.shown := by simp [texts]
  have hcalls : TranslatedItems.calls [item] = [] := by simp [TranslatedItems.calls, hi]
  refine ⟨htexts ▸ h.text, ?_, ?_, htexts ▸ hc⟩
  · rw [h.calls, hcalls, List.map_nil, List.append_nil]
  · rw [h.calls, hcalls, List.map_nil, List.append_nil]

theorem emitText_step {n : ℕ} {cs : List ReceivedCall} (h : Remembers s n cs) (t : String) :
    Step rt n (.text t) cs s (emitText s t) := by
  obtain ⟨events, hstart, hquiet⟩ := ensureMessageStart_eq rt s .zero
  cases hb : s.textBlockIndex with
  | some i =>
    have hspeaks : Speaks rt t (events ++ [.textDelta i t]) := by
      simpa using hquiet.append (.delta rt i t)
    have hopen := h.open_text (by simp [hb])
    refine ⟨events ++ [.textDelta i t], { s with messageStarted := true }, ?_, ?_, ?_⟩
    · rw [emitText, Gen.bind_ok hstart, hb]
      rfl
    · exact .of_speaks rfl hspeaks fun hc => absurd (hopen.symm.trans hc) (by simp)
    · rw [hspeaks.calls]
      exact ⟨h.buffer, h.closed, h.open_text, h.fresh, h.slots, h.blocks, h.started⟩
  | none =>
    have hspeaks : Speaks rt t (events ++ [.textStart s.nextBlockIndex,
        .textDelta s.nextBlockIndex t]) := by
      simpa using hquiet.append ((Speaks.textStart rt s.nextBlockIndex).append (.delta rt _ t))
    refine ⟨events ++ [.textStart s.nextBlockIndex, .textDelta s.nextBlockIndex t],
      { s with
        messageStarted := true
        textBlockIndex := some s.nextBlockIndex
        nextBlockIndex := s.nextBlockIndex + 1
        contentStarted := true }, ?_, ?_, ?_⟩
    · rw [emitText, Gen.bind_ok hstart, hb]
    · exact .of_speaks rfl hspeaks fun hc => absurd hc (by simp)
    · rw [hspeaks.calls]
      exact ⟨h.buffer, h.closed, fun _ => rfl, fun c hc => Nat.lt_succ_of_lt (h.fresh c hc),
        h.slots, h.blocks, h.started⟩

/-! ### Tool calls -/

def callEvents (rt : Runtime) (next : ℕ) (id : Option Json) (name arguments : String) :
    List AnthropicEvent :=
  .toolStart next id (.str name) (jsonObject rt (.str arguments)) ::
    if arguments = "" then [] else [.inputJsonDelta next arguments]

def shownId (id : Json) : Option Json := if id.truthy then some id else none

def shownName (rt : Runtime) (name : Json) : String := if name.truthy then rt.str name else ""

theorem toolCallStart_filled (next : ℕ) (id name : Json) (arguments : String) :
    toolCallStart rt next (filledSlot rt id name arguments).toJson = .ok (.toolStart next
      (shownId id) (.str (shownName rt name)) (jsonObject rt (.str arguments))) := by
  have hid : shownId (if id.truthy then id else .null) = shownId id := by
    by_cases h : id.truthy = true
    · rw [if_pos h]
    · rw [if_neg h, shownId, shownId, if_neg h]
      rfl
  rw [← hid, ← str_orElse_empty (shownName rt name)]
  rfl

/-- The renderer after call number `n`. -/
def called (rt : Runtime) (s : AnthropicRenderer) (n : ℕ) (id name : Json) (arguments : String) :
    AnthropicRenderer :=
  { s with
    toolCallSlots := setKey n (filledSlot rt id name arguments) s.toolCallSlots
    nextBlockIndex := s.nextBlockIndex + 1
    toolBlockIndexes := setKey n s.nextBlockIndex s.toolBlockIndexes
    openToolIndexes := n :: s.openToolIndexes }

theorem emitFragment_eq (rt : Runtime) {n : ℕ} (id name : Json) (arguments : String)
    (hs : s.toolCallSlots.lookup (n : ℤ) = none) (hb : s.toolBlockIndexes.lookup (n : ℤ) = none) :
    emitFragment rt s (wholeCall n id name arguments) =
      ⟨callEvents rt s.nextBlockIndex (shownId id) (shownName rt name) arguments,
        .ok (called rt s n id name arguments)⟩ := by
  obtain ⟨slot, hslot, hempty⟩ := merge_wholeCall rt .empty n id name arguments
  have hdict : (wholeCall n id name arguments).isDict = true := rfl
  rw [emitFragment, if_pos hdict]
  simp only [fragmentIndex_wholeCall, hs, Option.getD_none, hslot, hempty rfl]
  have hlift : (Gen.lift (Except.ok (filledSlot rt id name arguments, arguments)) :
      Run (Providers.OpenAI.Slot × String)) =
      ⟨[], .ok (filledSlot rt id name arguments, arguments)⟩ := rfl
  rw [Gen.bind_ok hlift]
  dsimp only
  rw [toolBlock, hb]
  dsimp only
  rw [toolCallStart_filled, callEvents]
  split_ifs
  · rfl
  · rfl

theorem receive_call (rt : Runtime) (next : ℕ) (id : Option Json) (name arguments : String)
    {cs : List ReceivedCall} (h : ∀ c ∈ cs, c.index < next) :
    (callEvents rt next id name arguments).foldl (receive rt) cs = cs ++
      [⟨next, name, jsonObject rt (.str arguments), arguments⟩] := by
  rw [callEvents]
  split_ifs with hargs
  · rw [hargs]
    rfl
  · have hold : cs.map (fun c => if c.index = next then
        { c with partialJson := c.partialJson ++ arguments } else c) = cs := by
      refine (List.map_congr_left fun c hc => ?_).trans (List.map_id _)
      rw [if_neg (Nat.ne_of_lt (h c hc))]
      rfl
    have hname : rt.str (.str name) = name := rfl
    simp [receive, hold, hname]

theorem anthropicText_call (rt : Runtime) (next : ℕ) (id : Option Json) (name arguments : String) :
    anthropicText (callEvents rt next id name arguments) = "" := by
  rw [callEvents]
  split_ifs
  · rfl
  · rfl

theorem meteredCall_fields (rt : Runtime) (id name : Json) (arguments : String) :
    meteredCall rt (.obj (toolFields id name arguments)) =
      (shownName rt name, jsonObject rt (.str arguments)) := by
  have hcall : meteredCall rt (.obj (toolFields id name arguments)) =
      (rt.str (name.orElse (.str "")), jsonObject rt (.str arguments)) := rfl
  rw [hcall, shownName, Json.orElse]
  split_ifs
  · rfl
  · rfl

theorem Remembers.after_call {n : ℕ} {cs : List ReceivedCall} (h : Remembers s n cs)
    (id name : Json) (arguments : String) {call : ReceivedCall}
    (hcall : call.index = s.nextBlockIndex) :
    Remembers (called rt s n id name arguments) (n + 1) (cs ++ [call]) where
  buffer := h.buffer
  closed := h.closed
  open_text := h.open_text
  fresh c hc := by
    have hnext : (called rt s n id name arguments).nextBlockIndex = s.nextBlockIndex + 1 := rfl
    rw [hnext]
    rcases List.mem_append.1 hc with hc | hc
    · exact Nat.lt_succ_of_lt (h.fresh c hc)
    · rw [List.mem_singleton.1 hc, hcall]
      exact Nat.lt_succ_self _
  slots k hk := by
    have hslots : (called rt s n id name arguments).toolCallSlots =
      setKey n (filledSlot rt id name arguments) s.toolCallSlots := rfl
    rw [hslots, lookup_setKey, if_neg (by omega), h.slots k (by omega)]
  blocks k hk := by
    have hblocks : (called rt s n id name arguments).toolBlockIndexes =
      setKey n s.nextBlockIndex s.toolBlockIndexes := rfl
    rw [hblocks, lookup_setKey, if_neg (by omega), h.blocks k (by omega)]
  started hn := absurd hn (setKey_ne_nil _ _ _)

theorem emitCall_step {n : ℕ} {cs : List ReceivedCall} (h : Remembers s n cs) (id name : Json)
    (arguments : String) : Step rt n (.call id name arguments) cs s
      (emitToolCallFragments rt s [wholeCall n id name arguments]) := by
  obtain ⟨events₁, hstart, hquiet₁⟩ := ensureMessageStart_eq rt s .zero
  obtain ⟨events₂, hclose, hquiet₂⟩ := closeTextBlock_eq rt { s with messageStarted := true }
  have hquiet : Speaks rt "" (events₁ ++ events₂) := by simpa using hquiet₁.append hquiet₂
  have hfragment := emitFragment_eq rt
    (s := { s with messageStarted := true, textBlockIndex := none }) id name arguments
    (h.slots n (le_refl n)) (h.blocks n (le_refl n))
  have hitem : TranslatedItems.calls [.call id name arguments] =
      [.obj (toolFields id name arguments)] := rfl
  have hcs : ((events₁ ++ events₂) ++ callEvents rt s.nextBlockIndex (shownId id)
      (shownName rt name) arguments).foldl (receive rt) cs = cs ++
        [⟨s.nextBlockIndex, shownName rt name, jsonObject rt (.str arguments), arguments⟩] := by
    rw [List.foldl_append, hquiet.calls, receive_call rt _ _ _ _ h.fresh]
  refine ⟨(events₁ ++ events₂) ++ callEvents rt s.nextBlockIndex (shownId id) (shownName rt name)
    arguments, called rt { s with messageStarted := true, textBlockIndex := none } n id name
      arguments, ?_, ⟨?_, ?_, ?_, fun hc => ⟨hc, rfl⟩⟩, ?_⟩
  · rw [emitToolCallFragments, Gen.bind_ok hstart, Gen.bind_ok hclose, Gen.fold_single, hfragment,
      List.append_assoc]
  · rw [anthropicText_append, hquiet.text, anthropicText_call]
    rfl
  · rw [hcs, List.map_append, hitem, List.map_singleton, List.map_singleton, meteredCall_fields]
    rfl
  · rw [hcs, List.map_append, hitem, List.map_singleton, List.map_singleton, meteredCall_fields]
    rfl
  · rw [hcs]
    have hclosed : Remembers { s with messageStarted := true, textBlockIndex := none } n cs :=
      ⟨h.buffer, h.closed, fun hn => absurd rfl hn, h.fresh, h.slots, h.blocks, h.started⟩
    exact hclosed.after_call id name arguments rfl

/-! ### The chunks -/

theorem anthropic_push_chunk {payload : Json} (hb : s.buffer = []) (h : Sent rt payload)
    (hp : payload.isDict = true) :
    push rt s (wire rt (.chunk payload)) = handlePayload rt s payload := by
  obtain ⟨buffer, model, messageStarted, contentStarted, textBlock, next, slots, blocks, opened,
    reason, closed⟩ := s
  obtain rfl : buffer = [] := hb
  rw [push, feed_chunk h hp, Gen.fold_single]

theorem anthropic_push_done (hb : s.buffer = []) : push rt s (wire rt .doneMarker) = .ok s := by
  obtain ⟨buffer, model, messageStarted, contentStarted, textBlock, next, slots, blocks, opened,
    reason, closed⟩ := s
  obtain rfl : buffer = [] := hb
  rw [push, feed_done]
  rfl

def seen (rt : Runtime) (s : AnthropicRenderer) (model finish : Json) : AnthropicRenderer :=
  { s with
    model := model.orElse s.model
    finishReason := if finish.truthy then rt.str finish else s.finishReason }

theorem anthropic_payload (model finish : Json) (delta : Fields) :
    handlePayload rt s (chunkJson model delta finish) =
      handleDelta rt (seen rt s model finish) (.obj delta) := by
  have hpayload : handlePayload rt s (chunkJson model delta finish) =
      Gen.fold (handleChoice rt) { s with model := model.orElse s.model }
        [.obj [("index", .int 0), ("delta", .obj delta), ("finish_reason", finish)]] := rfl
  rw [hpayload, Gen.fold_single, handleChoice]
  simp [Json.item, obj_orElse_empty, seen]

theorem Remembers.after_seen {n : ℕ} {cs : List ReceivedCall} (h : Remembers s n cs) (rt : Runtime)
    (model finish : Json) : Remembers (seen rt s model finish) n cs :=
  ⟨h.buffer, h.closed, h.open_text, h.fresh, h.slots, h.blocks, h.started⟩

theorem quiet_step {n : ℕ} {item : Item} {cs : List ReceivedCall} {s' : AnthropicRenderer}
    {events : List AnthropicEvent} (hi : item.calls = []) (ht : item.shown = "")
    (hspeaks : Speaks rt "" events) (hc : s'.contentStarted = s.contentStarted)
    (h : Remembers s' n cs) : Step rt n item cs s ⟨events, .ok s'⟩ := by
  refine ⟨events, s', rfl, .of_speaks hi (ht ▸ hspeaks) fun h => ⟨hc ▸ h, ht⟩, ?_⟩
  rw [hspeaks.calls, hi]
  exact h

theorem Step.of_seen {n : ℕ} {item : Item} {cs : List ReceivedCall} {model finish : Json}
    {run : Run AnthropicRenderer} (h : Step rt n item cs (seen rt s model finish) run) :
    Step rt n item cs s run := by
  obtain ⟨events, s', hrun, hd, hr⟩ := h
  exact ⟨events, s', hrun, ⟨hd.text, hd.started, hd.streamed, hd.silent⟩, hr⟩

theorem anthropic_item {n : ℕ} {item : Item} {out : Out} {cs : List ReceivedCall}
    (h : IsOut n item out) (hr : Remembers s n cs)
    (hs : ∀ payload, out = .chunk payload → Sent rt payload) :
    Step rt n item cs s (push rt s (wire rt out)) := by
  cases h with
  | done =>
    rw [anthropic_push_done hr.buffer]
    exact quiet_step rfl rfl .nil rfl hr
  | role model =>
    rw [anthropic_push_chunk hr.buffer (hs _ rfl) rfl, anthropic_payload]
    obtain ⟨events, hstart, hspeaks⟩ := ensureMessageStart_eq rt (seen rt s model .null) .zero
    have hdelta : handleDelta rt (seen rt s model .null) (.obj [("role", .str "assistant")]) =
        (ensureMessageStart (seen rt s model .null) .zero).bind .ok := rfl
    rw [hdelta, Gen.bind_pure, hstart]
    have hseen := hr.after_seen rt model .null
    exact quiet_step rfl rfl hspeaks rfl ⟨hseen.buffer, hseen.closed, hseen.open_text, hseen.fresh,
      hseen.slots, hseen.blocks, hseen.started⟩
  | finish model finish =>
    rw [anthropic_push_chunk hr.buffer (hs _ rfl) rfl, anthropic_payload]
    exact quiet_step rfl rfl .nil rfl (hr.after_seen rt model finish)
  | @text model t ht =>
    rw [anthropic_push_chunk hr.buffer (hs _ rfl) rfl, anthropic_payload]
    have hdelta : handleDelta rt (seen rt s model .null) (.obj [("content", .str t)]) =
        (if (Json.str t).truthy then emitText (seen rt s model .null) t
          else .ok (seen rt s model .null)).bind .ok := rfl
    rw [hdelta, Gen.bind_pure, if_pos ((truthy_str t).2 ht)]
    exact (emitText_step (hr.after_seen rt model .null) t).of_seen
  | call model id name arguments =>
    rw [anthropic_push_chunk hr.buffer (hs _ rfl) rfl, anthropic_payload]
    exact (emitCall_step (hr.after_seen rt model .null) id name arguments).of_seen

def anthropicPushAll (rt : Runtime) : AnthropicRenderer → List Out → Run AnthropicRenderer :=
  Gen.fold fun s out => push rt s (wire rt out)

theorem anthropic_items {n : ℕ} {items : List Item} {outs : List Out} (h : Items n items outs)
    {s : AnthropicRenderer} {cs : List ReceivedCall} (hr : Remembers s n cs)
    (hs : AllSent rt outs) : ∃ events s', anthropicPushAll rt s outs = ⟨events, .ok s'⟩ ∧
      Delivers rt s items cs events s' ∧
      Remembers s' (n + (TranslatedItems.calls items).length) (events.foldl (receive rt) cs) := by
  induction h generalizing s cs with
  | nil => exact ⟨[], s, rfl, ⟨rfl, by simp [TranslatedItems.calls], by
      simp [TranslatedItems.calls], fun h => ⟨h, rfl⟩⟩, hr⟩
  | @cons n item items out outs head tail ih =>
    obtain ⟨events₁, s₁, h₁, hd₁, hr₁⟩ := anthropic_item head hr fun p hp =>
      hs p (hp ▸ List.mem_cons_self)
    obtain ⟨events₂, s₂, h₂, hd₂, hr₂⟩ := ih hr₁ fun p hp => hs p (List.mem_cons_of_mem _ hp)
    have hcons : item :: items = [item] ++ items := rfl
    have hcalls : TranslatedItems.calls [item] = item.calls := by simp [TranslatedItems.calls]
    refine ⟨events₁ ++ events₂, s₂, ?_, ⟨?_, ?_, ?_, fun hc => ?_⟩, ?_⟩
    · have hfold : anthropicPushAll rt s (out :: outs) =
          (push rt s (wire rt out)).bind fun s => anthropicPushAll rt s outs := rfl
      rw [hfold, Gen.bind_ok h₁, h₂]
    · rw [anthropicText_append, hd₁.text, hd₂.text, hcons, TranslatedItems.texts_append]
    · rw [List.foldl_append, hd₂.started, hd₁.started, hcons, TranslatedItems.calls_append,
        List.map_append, List.append_assoc]
    · rw [List.foldl_append, hd₂.streamed, hd₁.streamed, hcons, TranslatedItems.calls_append,
        List.map_append, List.append_assoc]
    · obtain ⟨hc₁, ht₂⟩ := hd₂.silent hc
      obtain ⟨hc₀, ht₁⟩ := hd₁.silent hc₁
      exact ⟨hc₀, by rw [hcons, TranslatedItems.texts_append, ht₁, ht₂]; rfl⟩
    · rw [List.foldl_append, hcons, TranslatedItems.calls_append, List.length_append, hcalls,
        ← Nat.add_assoc]
      exact hr₂

/-! ### The end of the stream -/

theorem stopReason_ok {reason : Json} (h : TranslatedItems.Hashable reason) (toolCalls : Json) :
    ∃ r, stopReason reason toolCalls = .ok r := by
  rw [stopReason]
  split_ifs
  · exact ⟨_, rfl⟩
  · obtain ⟨k, hk⟩ := hashable_orElse h (TranslatedItems.hashable_str "stop")
    exact ⟨_, by rw [hk]; rfl⟩

theorem closeToolBlocks_eq (rt : Runtime) (s : AnthropicRenderer) :
    ∃ events, closeToolBlocks s = ⟨events, .ok { s with openToolIndexes := [] }⟩ ∧
      Speaks rt "" events := by
  refine ⟨_, rfl, ?_⟩
  have hmap := Speaks.stops rt
    ((s.openToolIndexes.mergeSort fun i j => blockOf s i ≤ blockOf s j).map (blockOf s))
  rwa [List.map_map] at hmap

theorem ending_speaks (rt : Runtime) (reason : String) (tokens : ℤ) :
    Speaks rt "" [.messageDelta reason tokens, .messageStop] := ⟨rfl, fun _ => rfl⟩

def Ending (rt : Runtime) (run : Run AnthropicRenderer) : Prop :=
  ∃ events s', run = ⟨events, .ok s'⟩ ∧ Speaks rt "" events

theorem Ending.bind {α : Type} {m : Run α} {a : α} {f : α → Run AnthropicRenderer}
    {events : List AnthropicEvent} (hm : m = ⟨events, .ok a⟩) (hs : Speaks rt "" events)
    (h : Ending rt (f a)) : Ending rt (m.bind f) := by
  obtain ⟨events', s', hf, hs'⟩ := h
  exact ⟨events ++ events', s', by rw [Gen.bind_ok hm, hf], by simpa using hs.append hs'⟩

theorem anthropic_end {items : List Item} {completion : CanonicalCompletion} {n : ℕ}
    {cs : List ReceivedCall} (h : Ends completion items) (hr : Remembers s n cs)
    (hn : n = (TranslatedItems.calls items).length)
    (hsilent : s.contentStarted = false → texts items = "") :
    Ending rt (finish rt s completion) := by
  have hclosed : ¬ s.closed = true := by simp [hr.closed]
  have hnone : ¬ (!s.contentStarted ∧ completion.content.truthy) := by
    rw [h.content]
    intro hc
    exact (truthy_str _).1 hc.2 (hsilent (by simpa using hc.1))
  have hcalls : s.toolBlockIndexes = [] → completion.toolCalls.orElse (.arr []) = .arr [] := by
    intro hb
    have hnil := List.length_eq_zero_iff.1 (hn.symm.trans (hr.started hb))
    rw [orElse_calls h [] fun _ => rfl, hnil]
  obtain ⟨reason, hreason⟩ := stopReason_ok
    (hashable_orElse h.hashable (TranslatedItems.hashable_str s.finishReason)) completion.toolCalls
  rw [finish, if_neg hclosed, finishStream]
  obtain ⟨events₁, h₁, hspeaks₁⟩ := ensureMessageStart_eq rt
    { s with closed := true, model := completion.model.orElse s.model } completion.usage
  refine .bind h₁ hspeaks₁ (.bind (if_neg hnone) .nil ?_)
  obtain ⟨events₂, h₂, hspeaks₂⟩ := closeTextBlock_eq rt { s with
    closed := true, model := completion.model.orElse s.model, messageStarted := true }
  refine .bind h₂ hspeaks₂ ?_
  obtain ⟨events₃, h₃, hspeaks₃⟩ := closeToolBlocks_eq rt { s with
    closed := true, model := completion.model.orElse s.model, messageStarted := true
    textBlockIndex := none }
  refine .bind h₃ hspeaks₃ (.bind (a := { s with
    closed := true, model := completion.model.orElse s.model, messageStarted := true
    textBlockIndex := none, openToolIndexes := [] }) ?_ .nil
      (.bind (congrArg Gen.lift hreason) .nil
        ⟨_, _, rfl, ending_speaks rt reason completion.usage.outputTokens⟩))
  by_cases hb : s.toolBlockIndexes = []
  · rw [if_pos hb, hcalls hb]
    rfl
  · rw [if_neg hb]
    rfl

/-! ## Delivered and metered -/

theorem new_remembers (model : Json) : Remembers (.new model) 0 [] :=
  ⟨rfl, rfl, fun h => absurd rfl h, by simp, fun _ _ => rfl, fun _ _ => rfl, fun _ => rfl⟩

theorem translator_ends {parts : List String} {toolCalls : List Json} {items : List Item}
    {completion : CanonicalCompletion} (hp : String.join parts = texts items)
    (ht : toolCalls = TranslatedItems.calls items)
    (hc : completion.content = .str (String.join parts))
    (hcalls : completion.toolCalls = if toolCalls = [] then .null else .arr toolCalls)
    (hf : TranslatedItems.Hashable completion.finishReason) : Ends completion items :=
  ⟨by rw [hc, hp], by rw [hcalls, ht], hf⟩

/-- The stream an Anthropic client receives: every chunk pushed, then the end. -/
def anthropicClient (rt : Runtime) (model : Json) (outs : List Out)
    (completion : CanonicalCompletion) : Run AnthropicRenderer :=
  (anthropicPushAll rt (.new model) outs).bind fun s => finish rt s completion

/-- The stream a Gemini client receives. -/
def geminiClient (rt : Runtime) (model : Json) (outs : List Out)
    (completion : CanonicalCompletion) : ClientRenderers.Gemini.Run :=
  (geminiPushAll rt (.new model) outs).bind fun s => ClientRenderers.Gemini.finish rt s completion

theorem anthropic_client {items : List Item} {outs : List Out} {completion : CanonicalCompletion}
    (h : Items 0 items outs) (he : Ends completion items) (hs : AllSent rt outs) (model : Json) :
    ∃ events s, anthropicClient rt model outs completion = ⟨events, .ok s⟩ ∧
      completion.content = .str (anthropicText events) ∧
      (received rt events).map ReceivedCall.started = metered rt completion ∧
      (received rt events).map (ReceivedCall.streamed rt) = metered rt completion := by
  obtain ⟨events, s, hpush, hd, hr⟩ := anthropic_items h (new_remembers model) hs
  obtain ⟨rest, s', hfinish, hspeaks⟩ := anthropic_end he hr (Nat.zero_add _) fun hc =>
    (hd.silent hc).2
  have hreceived : received rt (events ++ rest) = events.foldl (receive rt) [] := by
    rw [received, List.foldl_append, hspeaks.calls]
  refine ⟨events ++ rest, s', ?_, ?_, ?_, ?_⟩
  · rw [anthropicClient, Gen.bind_ok hpush, hfinish]
  · rw [anthropicText_append, hd.text, hspeaks.text, he.content, String.append_empty]
  · rw [hreceived, hd.started, metered_eq he]
    rfl
  · rw [hreceived, hd.streamed, metered_eq he]
    rfl

theorem gemini_client {items : List Item} {outs : List Out} {completion : CanonicalCompletion}
    (h : Items 0 items outs) (he : Ends completion items) (hs : AllSent rt outs) (model : Json) :
    ∃ chunks s, geminiClient rt model outs completion = ⟨chunks, .ok s⟩ ∧
      completion.content = .str (geminiText chunks) ∧
      geminiCalls rt chunks = metered rt completion := by
  obtain ⟨chunks, s, hpush, hr⟩ := gemini_items h (s := .new model) rfl rfl hs
  obtain ⟨rest, s', hfinish, htext, hcalls⟩ := gemini_end he hr.closed
    (fun hc => (hr.silent hc).2) fun hn => hr.slots hn
  refine ⟨chunks ++ rest, s', ?_, ?_, ?_⟩
  · rw [geminiClient, Gen.bind_ok hpush, hfinish]
  · rw [geminiText_append, hr.text, htext, he.content, String.append_empty]
  · rw [geminiCalls_append, hr.calls, hcalls]
    rfl

/-- The other native client receives the text and the tool calls that are metered, each once. -/
theorem delivered_equals_metered (rt : Runtime) (model : Json) (js : List Json) :
    (∀ outs s, Providers.Anthropic.handleEvents rt .new js = ⟨outs, .ok s⟩ → AllSent rt outs →
      ∃ chunks s', geminiClient rt model outs s.finish = ⟨chunks, .ok s'⟩ ∧
        s.finish.content = .str (geminiText chunks) ∧
        geminiCalls rt chunks = metered rt s.finish) ∧
    ∀ outs s, Providers.Gemini.handlePayloads rt .new js = ⟨outs, .ok s⟩ → AllSent rt outs →
      ∃ events s', anthropicClient rt model outs s.finish = ⟨events, .ok s'⟩ ∧
        s.finish.content = .str (anthropicText events) ∧
        (received rt events).map ReceivedCall.started = metered rt s.finish ∧
        (received rt events).map (ReceivedCall.streamed rt) = metered rt s.finish := by
  refine ⟨fun outs s h hs => ?_, fun outs s h hs => ?_⟩
  · obtain ⟨⟨items, hitems, htexts, hcalls⟩, hfinish⟩ := TranslatedItems.anthropic_events h
    have hends : Ends s.finish items := translator_ends
      (by simpa [TranslatedItems.collected, Providers.Anthropic.Translator.new] using htexts)
      (by simpa [TranslatedItems.collected, Providers.Anthropic.Translator.new] using hcalls)
      rfl rfl (hfinish (TranslatedItems.hashable_str "stop"))
    exact gemini_client hitems hends hs model
  · obtain ⟨items, hitems, htexts, hcalls⟩ := TranslatedItems.gemini_payloads h
    have hends : Ends s.finish items := translator_ends
      (by simpa [TranslatedItems.gathered, Providers.Gemini.Translator.new] using htexts)
      (by simpa [TranslatedItems.gathered, Providers.Gemini.Translator.new] using hcalls)
      rfl rfl (TranslatedItems.hashable_str _)
    exact anthropic_client hitems hends hs model

/-! ## A text and a tool call -/

def helloChunk : Json := chunkJson (.str "") [("content", .str "hi")] .null

def lookupChunk (id : Json) : Json :=
  chunkJson (.str "") (callDelta 0 id (.str "f") "\x7b\x7d") .null

def sampleChunks : List Json :=
  [helloChunk, lookupChunk (.str "t1"), lookupChunk (.str "call_f"), .obj []]

def sampleText (payload : Json) : Python.Utf8.Text :=
  Python.JsonText.dumps SseRoundTrip.noFloats payload

def sampleRuntime : Runtime :=
  ⟨fun t => sampleChunks.find? fun payload => sampleText payload = t,
    fun payload => String.ofList (sampleText payload), fun _ => "None", Python.none_ne⟩

def anthropicSample : List Json :=
  [.obj [("type", .str "content_block_delta"),
    ("delta", .obj [("type", .str "text_delta"), ("text", .str "hi")])],
   .obj [("type", .str "content_block_start"), ("index", .int 1),
    ("content_block", .obj [("type", .str "tool_use"), ("id", .str "t1"), ("name", .str "f")])],
   .obj [("type", .str "content_block_stop"), ("index", .int 1)]]

def geminiSample : List Json :=
  [.obj [("candidates", .arr [.obj [("content", .obj [("parts", .arr [.obj [("text", .str "hi")],
    .obj [("functionCall", .obj [("name", .str "f")])]])])]])]]

def printable (c : Char) : Bool := 0x20 ≤ c.toNat && c.toNat < 0x7f

theorem sample_printable :
    sampleChunks.all (fun payload => (sampleText payload).all printable) = true := by
  decide +kernel

theorem sample_lengths :
    (sampleChunks.map fun payload => (sampleText payload).length) = [115, 196, 200, 2] := by
  decide +kernel

theorem find_text {payloads : List Json}
    (h : (payloads.map fun payload => (sampleText payload).length).Nodup) :
    ∀ payload ∈ payloads, payloads.find? (fun p => sampleText p = sampleText payload) =
      some payload := by
  induction payloads with
  | nil => simp
  | cons first payloads ih =>
    rw [List.map_cons, List.nodup_cons] at h
    intro payload hp
    rcases List.mem_cons.1 hp with rfl | hp
    · simp
    · have hne : sampleText first ≠ sampleText payload := fun heq =>
        h.1 (List.mem_map.2 ⟨payload, hp, by rw [heq]⟩)
      rw [List.find?_cons_of_neg (by simpa using hne)]
      exact ih h.2 payload hp

theorem sample_sent {payload : Json} (h : payload ∈ sampleChunks) : Sent sampleRuntime payload := by
  have htext : (sampleRuntime.dumps payload).toList = sampleText payload := String.toList_ofList
  refine ⟨?_, ?_, ?_⟩
  · rw [htext]
    exact find_text (by rw [sample_lengths]; decide) payload h
  · rw [htext]
    intro c hc
    have hprintable := List.all_eq_true.1 (List.all_eq_true.1 sample_printable payload h) c hc
    simpa [printable] using hprintable
  · rw [htext]
    simp only [sampleChunks, List.mem_cons, List.not_mem_nil, or_false] at h
    obtain rfl | rfl | rfl | rfl := h
    · exact ⟨_, rfl⟩
    · exact ⟨_, rfl⟩
    · exact ⟨_, rfl⟩
    · exact ⟨[], rfl⟩

theorem sample_allSent {payload : Json} (h : payload ∈ sampleChunks) :
    AllSent sampleRuntime [.chunk helloChunk, .chunk payload] := by
  intro p hp
  have hp' : p = helloChunk ∨ p = payload := by simpa using hp
  rcases hp' with rfl | rfl
  · exact sample_sent List.mem_cons_self
  · exact sample_sent h

theorem hello_delivered :
    (∃ outs s chunks s',
      Providers.Anthropic.handleEvents sampleRuntime .new anthropicSample = ⟨outs, .ok s⟩ ∧
      geminiClient sampleRuntime .null outs s.finish = ⟨chunks, .ok s'⟩ ∧
      geminiText chunks = "hi" ∧
      geminiCalls sampleRuntime chunks = [("f", jsonObject sampleRuntime (.str "\x7b\x7d"))]) ∧
    ∃ outs s events s',
      Providers.Gemini.handlePayloads sampleRuntime .new geminiSample = ⟨outs, .ok s⟩ ∧
      anthropicClient sampleRuntime .null outs s.finish = ⟨events, .ok s'⟩ ∧
      anthropicText events = "hi" ∧
      (received sampleRuntime events).map ReceivedCall.started =
        [("f", jsonObject sampleRuntime (.str "\x7b\x7d"))] := by
  have ht : lookupChunk (.str "t1") ∈ sampleChunks := by simp [sampleChunks]
  have hf : lookupChunk (.str "call_f") ∈ sampleChunks := by simp [sampleChunks]
  constructor
  · obtain ⟨chunks, s', hclient, htext, hcalls⟩ := (delivered_equals_metered sampleRuntime .null
      anthropicSample).1 _ _ rfl (sample_allSent ht)
    exact ⟨_, _, chunks, s', rfl, hclient, (Json.str.inj htext).symm, hcalls⟩
  · obtain ⟨events, s', hclient, htext, hcalls, -⟩ := (delivered_equals_metered sampleRuntime .null
      geminiSample).2 _ _ rfl (sample_allSent hf)
    exact ⟨_, _, events, s', rfl, hclient, (Json.str.inj htext).symm, hcalls⟩

end Varsten.Proxy.DeliveredStreams
