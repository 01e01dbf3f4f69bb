import Varsten.Proxy.ClientRenderers
import Varsten.Proxy.SseRoundTrip
import Varsten.Proxy.TranslatedItems

/-!
# Streams for the other native client

A translated stream, sent on as OpenAI events and rendered for an Anthropic or a
Gemini client. What the client receives is what the translator ends with.
-/

namespace Varsten.Proxy.ClientStreams

open Python (Json Py PyError Gen Runtime)
open Python.Utf8 (Bytes Text encode decode_encode)
open Python.Text
open Python.Json (str_orElse_empty obj_orElse_empty truthy_str)
open Providers (Out CanonicalUsage CanonicalCompletion)
open SseDecoder (feed openaiBlock dataField)
open ClientRenderers
open TranslatedItems (Item Items IsOut chunkJson callDelta toolFields texts calls)

variable {rt : Runtime}

/-! ## The wire between translator and renderer -/

def chunkText (rt : Runtime) (payload : Json) : Text :=
  dataField ++ ' ' :: (rt.dumps payload).toList

/-- The bytes of what a translator yields. -/
def wire (rt : Runtime) : Out → Bytes
  | .bytes chunk => chunk
  | .chunk payload => encode (chunkText rt payload ++ ['\n', '\n'])
  | .doneMarker => encode "data: [DONE]\n\n".toList

/-- A payload whose JSON text is printable ASCII in braces and reads back as itself. -/
structure Sent (rt : Runtime) (payload : Json) : Prop where
  loads : rt.loads (rt.dumps payload).toList = some payload
  ascii : ∀ c ∈ (rt.dumps payload).toList, 0x20 ≤ c.toNat ∧ c.toNat < 0x7f
  braces : ∃ t, (rt.dumps payload).toList = '{' :: (t ++ ['}'])

def AllSent (rt : Runtime) (outs : List Out) : Prop :=
  ∀ payload, .chunk payload ∈ outs → Sent rt payload

theorem feed_block (loads : Text → Option Json) {t : Text} (h : '\n' ∉ t) (hr : '\r' ∉ t) :
    feed (openaiBlock loads) [] (encode (t ++ ['\n', '\n'])) =
      ((openaiBlock loads t).toList, []) := by
  have hlast : ¬ (t.getLast? = some '\r' ∧ ['\n', '\n'].head? = some '\n') := fun hl =>
    hr (List.mem_of_mem_getLast? hl.1)
  have hnorm : SseDecoder.normalizeChunk (encode (t ++ ['\n', '\n'])) = t ++ ['\n', '\n'] := by
    rw [SseDecoder.normalizeChunk, decode_encode, replaceCrlf_append hlast,
      replaceCrlf_of_no_newline h]
    rfl
  have hsplit : splitBlank (t ++ ['\n', '\n']) = [t, []] := by
    rw [splitBlank_append_of_no_newline _ h]
    simp [splitBlank]
  rw [feed, hnorm, List.nil_append, hsplit]
  cases hb : openaiBlock loads t with
  | none => simp [hb]
  | some v => simp [hb]

theorem dataField_ok : ∀ c ∈ dataField, 0x20 ≤ c.toNat ∧ c.toNat < 0x7f := by simp [dataField]

theorem chunkText_ascii {payload : Json} (h : Sent rt payload) :
    ∀ c ∈ chunkText rt payload, 0x20 ≤ c.toNat ∧ c.toNat < 0x7f := by
  intro c hc
  rcases List.mem_append.1 hc with hc | hc
  · exact dataField_ok c hc
  · rcases List.mem_cons.1 hc with rfl | hc
    · decide
    · exact h.ascii c hc

theorem chunk_block {payload : Json} (h : Sent rt payload)
    (hp : payload.isDict = true) : openaiBlock rt.loads (chunkText rt payload) = some payload := by
  obtain ⟨q, hq⟩ := h.braces
  have hascii := chunkText_ascii h
  have hne : chunkText rt payload ≠ [] := List.append_ne_nil_of_left_ne_nil (by decide) _
  have hbreak := SseRoundTrip.not_break (fun c hc => (hascii c hc).1) fun c hc hs => by
    have := SseRoundTrip.separator_beyond hs
    have := (hascii c hc).2
    omega
  have hlast : rstrip (q ++ ['}']) = q ++ ['}'] :=
    SseRoundTrip.rstrip_of_last (c := '}') (by simp) (by decide)
  have hdata : SseDecoder.lineData (chunkText rt payload) = some (rt.dumps payload).toList := by
    rw [chunkText, hq, SseRoundTrip.lineData_line, hlast, hlast]
  have hkeep : SseRoundTrip.keepText (rt.dumps payload).toList = true := by
    rw [hq]
    exact SseRoundTrip.keepText_brace _
  rw [SseRoundTrip.openai_value, splitlines_of_no_break hne hbreak]
  simp [SseRoundTrip.blockValue, hdata, hkeep, join, h.loads, hp]

theorem feed_chunk {payload : Json} (h : Sent rt payload)
    (hp : payload.isDict = true) :
    feed (openaiBlock rt.loads) [] (wire rt (.chunk payload)) = ([payload], []) := by
  have hascii := chunkText_ascii h
  rw [wire, feed_block _ (fun hm => absurd (hascii _ hm).1 (by decide))
    (fun hm => absurd (hascii _ hm).1 (by decide)), chunk_block h hp]
  rfl

theorem feed_done : feed (openaiBlock rt.loads) [] (wire rt .doneMarker) = ([], []) := by
  have h := feed_block rt.loads (t := "data: [DONE]".toList) (by decide) (by decide)
  exact h

/-! ## Gemini clients -/

def partText : GeminiPart → String
  | .text t => t
  | .functionCall .. => ""

def partCall (rt : Runtime) : GeminiPart → Option (String × Fields)
  | .text _ => none
  | .functionCall name args => some (rt.str name, args)

def geminiText (chunks : List GeminiChunk) : String :=
  String.join ((chunks.flatMap GeminiChunk.parts).map partText)

def geminiCalls (rt : Runtime) (chunks : List GeminiChunk) : List (String × Fields) :=
  (chunks.flatMap GeminiChunk.parts).filterMap (partCall rt)

/-- The name of a metered tool call, and the object its arguments parse to. -/
def meteredCall (rt : Runtime) (call : Json) : String × Fields :=
  (rt.str (((call.val "function").val "name").orElse (.str "")),
    jsonObject rt ((call.val "function").val "arguments"))

def metered (rt : Runtime) (completion : CanonicalCompletion) : List (String × Fields) :=
  match completion.toolCalls with
  | .arr calls => calls.map (meteredCall rt)
  | _ => []

def wholeCall (n : ℕ) (id name : Json) (arguments : String) : Json :=
  .obj (("index", .int n) :: toolFields id name arguments)

def filledSlot (rt : Runtime) (id name : Json) (arguments : String) : Providers.OpenAI.Slot :=
  ⟨if id.truthy then id else .null, .str "function", if name.truthy then rt.str name else "",
    arguments⟩

theorem merge_wholeCall (rt : Runtime) (slot : Providers.OpenAI.Slot) (n : ℕ) (id name : Json)
    (arguments : String) : ∃ slot', mergeToolCallFragment rt slot (wholeCall n id name arguments) =
      .ok (slot', arguments) ∧ (slot = .empty → slot' = filledSlot rt id name arguments) := by
  have hargs : (if (Json.str arguments).truthy then rt.str (.str arguments) else "") =
      arguments := by
    by_cases h : arguments = ""
    · subst h
      rfl
    · rw [if_pos ((truthy_str _).2 h)]
      rfl
  refine ⟨⟨if id.truthy then id else slot.id, .str "function",
    if name.truthy then slot.name ++ rt.str name else slot.name, slot.arguments ++ arguments⟩, ?_,
    fun h => ?_⟩
  · conv_rhs => rw [← hargs]
    rfl
  · subst h
    simp [filledSlot, Providers.OpenAI.Slot.empty]

theorem fragmentIndex_wholeCall (n : ℕ) (id name : Json) (arguments : String) :
    fragmentIndex (wholeCall n id name arguments) = n := by
  have h : ((wholeCall n id name arguments).val "index") = .int n := rfl
  rw [fragmentIndex, h]
  cases n with
  | zero => rfl
  | succ n => rfl

section Gemini

open ClientRenderers.Gemini

variable {s : GeminiRenderer}

theorem gemini_push_chunk {payload : Json} (hb : s.buffer = []) (h : Sent rt payload)
    (hp : payload.isDict = true) :
    push rt s (wire rt (.chunk payload)) = handlePayload rt s payload := by
  obtain ⟨buffer, model, reason, emitted, slots, closed⟩ := s
  obtain rfl : buffer = [] := hb
  rw [push, feed_chunk h hp, Gen.fold_single]

theorem gemini_push_done (hb : s.buffer = []) : push rt s (wire rt .doneMarker) = .ok s := by
  obtain ⟨buffer, model, reason, emitted, slots, closed⟩ := s
  obtain rfl : buffer = [] := hb
  rw [push, feed_done]
  rfl

theorem gemini_payload (model finish : Json) (delta : Fields) :
    handlePayload rt s (chunkJson model delta finish) = handleDelta rt { s with
      model := model.orElse s.model
      finishReason := if finish.truthy then rt.str finish else s.finishReason } (.obj delta) := by
  have hpayload : handlePayload rt s (chunkJson model delta finish) =
      Gen.fold (handleChoice rt) { s with model := model.orElse s.model }
        [.obj [("index", .int 0), ("delta", .obj delta), ("finish_reason", finish)]] := rfl
  rw [hpayload, Gen.fold_single, handleChoice]
  simp [Json.item, obj_orElse_empty]

structure GeminiRendered (rt : Runtime) (s : GeminiRenderer) (items : List Item)
    (chunks : List GeminiChunk) (s' : GeminiRenderer) : Prop where
  text : geminiText chunks = texts items
  calls : geminiCalls rt chunks = []
  buffer : s'.buffer = []
  closed : s'.closed = false
  silent : s'.emittedContent = false → s.emittedContent = false ∧ texts items = ""
  slots : TranslatedItems.calls items = [] → s'.toolCallSlots = s.toolCallSlots

theorem geminiText_append (xs ys : List GeminiChunk) :
    geminiText (xs ++ ys) = geminiText xs ++ geminiText ys := by
  rw [geminiText, List.flatMap_append, List.map_append, String.join_append]
  rfl

theorem geminiCalls_append (xs ys : List GeminiChunk) :
    geminiCalls rt (xs ++ ys) = geminiCalls rt xs ++ geminiCalls rt ys := by
  rw [geminiCalls, List.flatMap_append, List.filterMap_append]
  rfl

theorem GeminiRendered.quiet {item : Item} {s' : GeminiRenderer} (hi : item.shown = "")
    (hb : s'.buffer = []) (hc : s'.closed = false) (he : s'.emittedContent = s.emittedContent)
    (hs : item.calls = [] → s'.toolCallSlots = s.toolCallSlots) :
    GeminiRendered rt s [item] [] s' where
  text := by simp [geminiText, texts, hi]
  calls := rfl
  buffer := hb
  closed := hc
  silent h := ⟨he ▸ h, by simp [texts, hi]⟩
  slots h := hs (by simpa [TranslatedItems.calls] using h)

theorem gemini_delta (fields : Fields) : handleDelta rt s (.obj fields) =
    (if ((Json.obj fields).val "content").truthy then
        Gen.yield ⟨[.text (rt.str ((Json.obj fields).val "content"))], s.model, none, none⟩
          { s with emittedContent := true }
      else Gen.ok s).bind fun s => match (Json.obj fields).val "tool_calls" with
        | .arr fragments => (Gen.lift (fragments.foldlM (mergeFragment rt) s.toolCallSlots)).bind
            fun slots => .ok { s with toolCallSlots := slots }
        | _ => .ok s := rfl

theorem gemini_text {t : String} (ht : t ≠ "") : handleDelta rt s (.obj [("content", .str t)]) =
    ⟨[⟨[.text t], s.model, none, none⟩], .ok { s with emittedContent := true }⟩ := by
  have hval : (Json.obj [("content", .str t)]).val "content" = .str t := rfl
  rw [gemini_delta, hval, if_pos ((truthy_str t).2 ht)]
  rfl

theorem gemini_call (rt : Runtime) (s : GeminiRenderer) (n : ℕ) (id name : Json)
    (arguments : String) : ∃ slots, handleDelta rt s (.obj (callDelta n id name arguments)) =
      ⟨[], .ok { s with toolCallSlots := slots }⟩ := by
  obtain ⟨slot, hslot, -⟩ := merge_wholeCall rt
    ((s.toolCallSlots.lookup (fragmentIndex (wholeCall n id name arguments))).getD .empty) n id name
    arguments
  have hmerge : mergeFragment rt s.toolCallSlots (wholeCall n id name arguments) =
      .ok (setKey (fragmentIndex (wholeCall n id name arguments)) slot s.toolCallSlots) := by
    have hdict : (wholeCall n id name arguments).isDict = true := rfl
    rw [mergeFragment, if_pos hdict]
    dsimp only
    rw [hslot]
    rfl
  refine ⟨setKey (fragmentIndex (wholeCall n id name arguments)) slot s.toolCallSlots, ?_⟩
  have hdelta : handleDelta rt s (.obj (callDelta n id name arguments)) =
      (Gen.lift (mergeFragment rt s.toolCallSlots (wholeCall n id name arguments) >>= pure)).bind
        fun slots => .ok { s with toolCallSlots := slots } := rfl
  rw [hdelta, hmerge]
  rfl

theorem gemini_item {n : ℕ} {item : Item} {out : Out} (h : IsOut n item out) (hb : s.buffer = [])
    (hc : s.closed = false) (hs : ∀ payload, out = .chunk payload → Sent rt payload) :
    ∃ chunks s', push rt s (wire rt out) = ⟨chunks, .ok s'⟩ ∧
      GeminiRendered rt s [item] chunks s' := by
  cases h with
  | done => exact ⟨[], s, gemini_push_done hb, .quiet rfl hb hc rfl fun _ => rfl⟩
  | role model =>
    rw [gemini_push_chunk hb (hs _ rfl) rfl, gemini_payload]
    exact ⟨[], _, rfl, .quiet rfl hb hc rfl fun _ => rfl⟩
  | finish model finish =>
    rw [gemini_push_chunk hb (hs _ rfl) rfl, gemini_payload]
    exact ⟨[], _, rfl, .quiet rfl hb hc rfl fun _ => rfl⟩
  | @text model t ht =>
    rw [gemini_push_chunk hb (hs _ rfl) rfl, gemini_payload, gemini_text ht]
    refine ⟨_, _, rfl, ?_, rfl, hb, hc, fun h => absurd h (by simp), fun _ => rfl⟩
    simp [geminiText, texts, Item.shown, partText]
  | call model id name arguments =>
    rw [gemini_push_chunk hb (hs _ rfl) rfl, gemini_payload]
    obtain ⟨slots, hslots⟩ := gemini_call rt _ n id name arguments
    rw [hslots]
    exact ⟨[], _, rfl, .quiet rfl hb hc rfl fun h => by cases h⟩

def geminiPushAll (rt : Runtime) : GeminiRenderer → List Out → ClientRenderers.Gemini.Run :=
  Gen.fold fun s out => push rt s (wire rt out)

theorem gemini_items {n : ℕ} {items : List Item} {outs : List Out} (h : Items n items outs)
    {s : GeminiRenderer} (hb : s.buffer = []) (hc : s.closed = false) (hs : AllSent rt outs) :
    ∃ chunks s', geminiPushAll rt s outs = ⟨chunks, .ok s'⟩ ∧
      GeminiRendered rt s items chunks s' := by
  induction h generalizing s with
  | nil =>
    exact ⟨[], s, rfl, rfl, rfl, hb, hc, fun h => ⟨h, rfl⟩, fun _ => rfl⟩
  | @cons n item items out outs head tail ih =>
    obtain ⟨chunks₁, s₁, h₁, hr₁⟩ := gemini_item head hb hc fun p hp =>
      hs p (hp ▸ List.mem_cons_self)
    obtain ⟨chunks₂, s₂, h₂, hr₂⟩ := ih hr₁.buffer hr₁.closed fun p hp =>
      hs p (List.mem_cons_of_mem _ hp)
    have hcons : item :: items = [item] ++ items := rfl
    refine ⟨chunks₁ ++ chunks₂, s₂, ?_, ?_, ?_, hr₂.buffer, hr₂.closed, fun h => ?_, fun h => ?_⟩
    · have hfold : geminiPushAll rt s (out :: outs) =
          (push rt s (wire rt out)).bind fun s => geminiPushAll rt s outs := rfl
      rw [hfold, Gen.bind_ok h₁, h₂]
    · rw [geminiText_append, hr₁.text, hr₂.text, hcons, TranslatedItems.texts_append]
    · rw [geminiCalls_append, hr₁.calls, hr₂.calls]
      rfl
    · obtain ⟨he, ht⟩ := hr₂.silent h
      obtain ⟨he', ht'⟩ := hr₁.silent he
      exact ⟨he', by rw [hcons, TranslatedItems.texts_append, ht, ht']; rfl⟩
    · rw [hcons, TranslatedItems.calls_append, List.append_eq_nil_iff] at h
      rw [hr₂.slots h.2, hr₁.slots h.1]

/-! ### The end of the stream -/

/-- The completion a translator ends with: its texts, its calls, no raw payload. -/
structure Ends (completion : CanonicalCompletion) (items : List Item) : Prop where
  content : completion.content = .str (texts items)
  toolCalls : completion.toolCalls = if TranslatedItems.calls items = [] then .null else
    .arr (TranslatedItems.calls items)
  hashable : TranslatedItems.Hashable completion.finishReason

theorem calls_shape {items : List Item} {call : Json} (h : call ∈ TranslatedItems.calls items) :
    ∃ id name arguments, call = .obj (toolFields id name arguments) := by
  obtain ⟨item, _, hc⟩ := List.mem_flatMap.1 h
  cases item with
  | call id name arguments => exact ⟨id, name, arguments, List.mem_singleton.1 hc⟩
  | _ => cases hc

theorem toolPart_eq (id name : Json) (arguments : String) :
    toolPart rt (.obj (toolFields id name arguments)) =
      .ok (.functionCall (name.orElse (.str "")) (jsonObject rt (.str arguments))) := rfl

theorem toolParts_eq (rt : Runtime) {calls : List Json}
    (h : ∀ call ∈ calls, ∃ id name arguments, call = .obj (toolFields id name arguments)) :
    ∃ parts, calls.mapM (toolPart rt) = .ok parts ∧
      parts.filterMap (partCall rt) = calls.map (meteredCall rt) ∧
      String.join (parts.map partText) = "" ∧ (parts = [] ↔ calls = []) := by
  induction calls with
  | nil => exact ⟨[], rfl, rfl, rfl, by simp⟩
  | cons call calls ih =>
    rw [List.forall_mem_cons] at h
    obtain ⟨⟨id, name, arguments, rfl⟩, h⟩ := h
    obtain ⟨parts, hp, hc, ht, -⟩ := ih h
    refine ⟨.functionCall (name.orElse (.str "")) (jsonObject rt (.str arguments)) :: parts, ?_, ?_,
      ?_, by simp⟩
    · rw [List.mapM_cons, toolPart_eq, hp]
      rfl
    · have hpart : partCall rt (.functionCall (name.orElse (.str "")) (jsonObject rt
          (.str arguments))) = some (meteredCall rt (.obj (toolFields id name arguments))) := rfl
      rw [List.filterMap_cons_some hpart, hc]
      rfl
    · rw [List.map_cons, String.join_cons, ht]
      rfl

theorem metered_eq {completion : CanonicalCompletion} {items : List Item}
    (h : Ends completion items) :
    metered rt completion = (TranslatedItems.calls items).map (meteredCall rt) := by
  rw [metered, h.toolCalls]
  split_ifs with hc
  · rw [hc]
    rfl
  · rfl

theorem orElse_calls {items : List Item} {completion : CanonicalCompletion}
    (h : Ends completion items) (xs : List Json) (hx : TranslatedItems.calls items = [] → xs = []) :
    completion.toolCalls.orElse (.arr xs) = .arr (TranslatedItems.calls items) := by
  rw [h.toolCalls]
  split_ifs with hc
  · rw [hc, hx hc]
    rfl
  · cases hcalls : TranslatedItems.calls items with
    | nil => exact absurd hcalls hc
    | cons c cs => rfl

theorem hashable_orElse {j k : Json} (hj : TranslatedItems.Hashable j)
    (hk : TranslatedItems.Hashable k) : TranslatedItems.Hashable (j.orElse k) := by
  rw [Json.orElse]
  split_ifs
  · exact hj
  · exact hk

theorem finishReason_ok {j : Json} (h : TranslatedItems.Hashable j) :
    ∃ r, finishReason j = .ok r := by
  obtain ⟨k, hk⟩ := hashable_orElse h (TranslatedItems.hashable_str "stop")
  exact ⟨_, by rw [finishReason, hk]; rfl⟩

theorem gemini_end {items : List Item} {completion : CanonicalCompletion}
    (h : Ends completion items) (hc : s.closed = false) (hsilent : s.emittedContent = false → texts items = "")
    (hslots : TranslatedItems.calls items = [] → s.toolCallSlots = []) :
    ∃ chunks s', finish rt s completion = ⟨chunks, .ok s'⟩ ∧ geminiText chunks = "" ∧
      geminiCalls rt chunks = metered rt completion := by
  have hcalls := orElse_calls h (slotCalls s.toolCallSlots) fun hn => by
    simp [hslots hn, slotCalls]
  obtain ⟨parts, hparts, hcall, htext, -⟩ :=
    toolParts_eq rt fun call (hm : call ∈ TranslatedItems.calls items) => calls_shape hm
  obtain ⟨r, hr⟩ := finishReason_ok
    (hashable_orElse h.hashable (TranslatedItems.hashable_str s.finishReason))
  have hnone : ¬ (!s.emittedContent ∧ completion.content.truthy) := by
    rw [h.content]
    intro hn
    have he : s.emittedContent = false := by simpa using hn.1
    exact (truthy_str _).1 hn.2 (hsilent he)
  have hiter : (Json.arr (TranslatedItems.calls items)).iter = .ok (TranslatedItems.calls items) :=
    rfl
  refine ⟨[⟨if parts.isEmpty then [.text ""] else parts, completion.model.orElse s.model, some r,
    some completion.usage⟩], { s with closed := true, model := completion.model.orElse s.model },
    ?_, ?_⟩
  · rw [finish, hc]
    simp only [hnone, hcalls, hiter, hparts, hr, Py.bind_ok]
    rfl
  · rw [metered_eq h, ← hcall]
    cases parts with
    | nil => exact ⟨rfl, rfl⟩
    | cons part parts => exact ⟨by simpa [geminiText] using htext, by simp [geminiCalls]⟩

end Gemini

end Varsten.Proxy.ClientStreams
