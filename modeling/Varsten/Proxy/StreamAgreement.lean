import Varsten.Proxy.AnthropicStream
import Varsten.Proxy.GeminiStream

/-!
# Streamed and whole answers

What the stream translators end with, against `parse_completion` of the whole
message. Gemini's agree for every stream; Anthropic's lose a stop reason that a
later `message_delta` does not repeat, and counts that a later usage object drops.
-/

namespace Varsten.Proxy.StreamAgreement

open Python (Json Py PyError Runtime)

/-- The streams agree with the whole messages, Anthropic's exactly when the last stop reason and the
last counts are kept. -/
theorem stream_agrees_iff (rt : Runtime) :
    (∀ (st : AnthropicStream.Stream) (m : AnthropicStream.Message) (js : List Json) (raw : Json),
      AnthropicStream.Describes rt st m → AnthropicStream.Payloads (st.events m.model) js →
      AnthropicStream.IsMessage m raw →
      ∃ s, (Providers.Anthropic.handleEvents rt .new js).result = .ok s ∧
        (Providers.Anthropic.parseCompletion rt raw = .ok s.finish ↔
          AnthropicStream.FinishKept st ∧ AnthropicStream.InputKept st.reports ∧
            AnthropicStream.OutputKept st.reports)) ∧
    (∀ (cs : List GeminiStream.Chunk) (m : GeminiStream.Message) (js : List Json) (raw : Json),
      GeminiStream.Describes cs m → List.Forall₂ GeminiStream.IsPayload cs js →
      GeminiStream.IsMessage m raw →
      ∃ s, (Providers.Gemini.handlePayloads rt .new js).result = .ok s ∧
        Providers.Gemini.parseCompletion rt raw = .ok s.finish) :=
  ⟨fun _ _ _ _ hd hjs hraw => AnthropicStream.anthropic_agree_iff hd hjs hraw,
    fun _ _ _ _ hd hjs hraw => GeminiStream.gemini_agree hd hjs hraw⟩

/-! ## A stop reason that is lost -/

section CutAnswer

open AnthropicStream

def startReport : Report := ⟨.tokens 3, .absent, .absent, .tokens 1⟩

def deltaReport : Report := ⟨.absent, .absent, .absent, .tokens 5⟩

/-- Two `message_delta` events, of which the first carries the stop reason. -/
def cutStream : Stream := ⟨startReport, [], [(some "max_tokens", deltaReport), (none, deltaReport)]⟩

def cutMessage : Message :=
  ⟨"claude", [], some "max_tokens", ⟨.tokens 3, .absent, .absent, .tokens 5⟩⟩

def startUsage : Json := .obj [("input_tokens", .int 3), ("output_tokens", .int 1)]

def deltaUsage : Json := .obj [("output_tokens", .int 5)]

def cutPayloads : List Json :=
  [.obj [("type", .str "message_start"),
      ("message", .obj [("model", .str "claude"), ("usage", startUsage)])],
    .obj [("type", .str "message_delta"), ("delta", .obj [("stop_reason", .str "max_tokens")]),
      ("usage", deltaUsage)],
    .obj [("type", .str "message_delta"), ("delta", .obj []), ("usage", deltaUsage)],
    .obj [("type", .str "message_stop")]]

def cutRaw : Json :=
  .obj [("model", .str "claude"), ("content", .arr []), ("stop_reason", .str "max_tokens"),
    ("usage", .obj [("input_tokens", .int 3), ("output_tokens", .int 5)])]

theorem cut_describes (rt : Runtime) : Describes rt cutStream cutMessage where
  blocks := .nil 0
  stopReason := rfl
  input := rfl
  output := rfl
  cacheCreation := rfl
  cacheRead := rfl
  startInput := by decide
  startOutput := by decide
  inputGrows := by decide
  cacheCreationGrows := by decide
  cacheReadGrows := by decide

theorem cut_payloads : Payloads (cutStream.events cutMessage.model) cutPayloads := by
  have hdelta : deltaReport.Renders deltaUsage := Or.inl ⟨_, rfl, by decide⟩
  have hstart : Renders (.messageStart "claude" startReport) (.obj [("type", .str "message_start"),
      ("message", .obj [("model", .str "claude"), ("usage", startUsage)])]) :=
    ⟨.obj [("model", .str "claude"), ("usage", startUsage)], ⟨_, rfl, by decide⟩,
      ⟨_, rfl, by decide⟩, Or.inl ⟨_, rfl, by decide⟩⟩
  have hfirst : Renders (.messageDelta (some "max_tokens") deltaReport) (.obj
      [("type", .str "message_delta"), ("delta", .obj [("stop_reason", .str "max_tokens")]),
        ("usage", deltaUsage)]) :=
    ⟨[("stop_reason", .str "max_tokens")], ⟨_, rfl, by decide⟩, rfl, hdelta⟩
  have hlast : Renders (.messageDelta none deltaReport) (.obj
      [("type", .str "message_delta"), ("delta", .obj []), ("usage", deltaUsage)]) :=
    ⟨[], ⟨_, rfl, by decide⟩, rfl, hdelta⟩
  have hstop : Renders .messageStop (.obj [("type", .str "message_stop")]) := ⟨_, rfl, by decide⟩
  exact .event hstart (.event hfirst (.event hlast (.event hstop .nil)))

theorem cut_message : IsMessage cutMessage cutRaw :=
  ⟨[], ⟨_, rfl, by decide⟩, .nil, rfl, Or.inl ⟨_, rfl, by decide⟩⟩

/-- An answer cut at its token limit is `length` whole and `stop` streamed. -/
theorem cut_answer_stops :
    ¬ ∀ (rt : Runtime) (st : Stream) (m : Message) (js : List Json) (raw : Json),
      Describes rt st m → Payloads (st.events m.model) js → IsMessage m raw →
      ∃ s, (Providers.Anthropic.handleEvents rt .new js).result = .ok s ∧
        Providers.Anthropic.parseCompletion rt raw = .ok s.finish := by
  intro h
  obtain ⟨s, hs, hparse⟩ := h Runtime.blank cutStream cutMessage cutPayloads cutRaw
    (cut_describes _) cut_payloads cut_message
  obtain rfl := Except.ok.inj hs
  have hfinish := congrArg Providers.CanonicalCompletion.finishReason (Except.ok.inj hparse)
  revert hfinish
  decide

end CutAnswer

/-! ## An answer in two payloads -/

section HalvedAnswer

open GeminiStream

def halvedChunks : List Chunk :=
  [⟨some "models/gemini", [.text "o"], none, ⟨none, none, none⟩⟩,
    ⟨some "models/gemini", [.text "k"], some ⟨"STOP", by decide⟩, ⟨some 2, some 1, none⟩⟩]

def halvedMessage : Message :=
  ⟨some "models/gemini", [.text "ok"], some ⟨"STOP", by decide⟩, ⟨some 2, some 1, none⟩⟩

def partContent (text : String) : Json := .obj [("parts", .arr [.obj [("text", .str text)]])]

def halvedUsage : Json := .obj [("promptTokenCount", .int 2), ("candidatesTokenCount", .int 1)]

def halvedPayloads : List Json :=
  [.obj [("modelVersion", .str "models/gemini"),
      ("candidates", .arr [.obj [("content", partContent "o")]])],
    .obj [("modelVersion", .str "models/gemini"),
      ("candidates", .arr [.obj [("content", partContent "k"), ("finishReason", .str "STOP")]]),
      ("usageMetadata", halvedUsage)]]

def halvedRaw : Json :=
  .obj [("modelVersion", .str "models/gemini"),
    ("candidates", .arr [.obj [("content", partContent "ok"), ("finishReason", .str "STOP")]]),
    ("usageMetadata", halvedUsage)]

theorem halved_content (text : String) : IsContent [.text text] (partContent text) :=
  .inr ⟨_, rfl, rfl, .cons ⟨_, rfl, rfl, rfl⟩ .nil⟩

theorem halved_describes : Describes halvedChunks halvedMessage where
  parts := .text ["o", "k"] .nil
  finish := rfl
  models := by simp [halvedChunks, halvedMessage]
  model := ⟨_, List.mem_cons_self, rfl⟩
  prompt := by decide
  candidates := by decide
  cached := by decide
  promptGrows := by decide
  candidatesGrow := by decide
  cachedGrows := by decide

theorem halved_payloads : List.Forall₂ IsPayload halvedChunks halvedPayloads :=
  .cons ⟨rfl, rfl, ⟨.inr rfl, rfl, rfl, rfl⟩, .inr ⟨_, rfl, rfl, halved_content "o", rfl⟩⟩
    (.cons ⟨rfl, rfl, ⟨.inl rfl, rfl, rfl, rfl⟩, .inr ⟨_, rfl, rfl, halved_content "k", rfl⟩⟩ .nil)

theorem halved_message : GeminiStream.IsMessage halvedMessage halvedRaw :=
  ⟨rfl, rfl, ⟨.inl rfl, rfl, rfl, rfl⟩, _, rfl, rfl, halved_content "ok", rfl⟩

end HalvedAnswer

theorem cut_and_halved :
    (∃ s, (Providers.Anthropic.handleEvents .blank .new cutPayloads).result = .ok s ∧
      (Providers.Anthropic.parseCompletion .blank cutRaw = .ok s.finish ↔
        AnthropicStream.FinishKept cutStream ∧ AnthropicStream.InputKept cutStream.reports ∧
          AnthropicStream.OutputKept cutStream.reports)) ∧
    ∃ s, (Providers.Gemini.handlePayloads .blank .new halvedPayloads).result = .ok s ∧
      Providers.Gemini.parseCompletion .blank halvedRaw = .ok s.finish :=
  ⟨(stream_agrees_iff .blank).1 cutStream cutMessage cutPayloads cutRaw (cut_describes _)
      cut_payloads cut_message,
    (stream_agrees_iff .blank).2 halvedChunks halvedMessage halvedPayloads halvedRaw
      halved_describes halved_payloads halved_message⟩

end Varsten.Proxy.StreamAgreement
