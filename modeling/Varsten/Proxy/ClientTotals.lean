import Varsten.Proxy.AnthropicGrammar

/-!
# Usage of a streamed Anthropic client

The client adds up the usage of the message start and of the message delta. It has the usage
of the whole message where nothing started the message before its end, or no input was used.
-/

namespace Varsten.Proxy.ClientTotals

open Python (Json Py Gen Runtime)
open Python.Json (setItem)
open Python.Utf8 (Bytes)
open SseDecoder (openaiEvents)
open Providers (CanonicalUsage CanonicalCompletion)
open ClientRenderers
open ClientRenderers.Anthropic
open ClientCompletions (Typed completionToAnthropic)
open AnthropicGrammar

variable {rt : Runtime}

/-! ## What the client adds up -/

def overwrite (usage update : Fields) : Fields :=
  update.foldl (fun usage field => setItem field.1 field.2 usage) usage

/-- The usage of a `message_start`, overwritten field by field by that of a `message_delta`. -/
def readUsage (usage : Fields) (payload : Json) : Fields :=
  match (payload.val "message").val "usage", payload.val "usage" with
  | .obj fields, _ => fields
  | _, .obj fields => overwrite usage fields
  | _, _ => usage

def clientUsage (events : List AnthropicEvent) : Fields :=
  (events.map AnthropicEvent.payload).foldl readUsage []

def comparedFields : List String :=
  ["input_tokens", "cache_read_input_tokens", "output_tokens"]

/-- The client's totals are those of the body of the same completion. -/
def SameTotals (rt : Runtime) (events : List AnthropicEvent) (completion : CanonicalCompletion) :
    Prop :=
  ∃ raw, completionToAnthropic rt completion = .ok raw ∧ ∀ field ∈ comparedFields,
    (Json.obj (clientUsage events)).val field = (raw.val "usage").val field

/-- The chunks pushed, then the end. -/
def streamed (rt : Runtime) (model : Json) (chunks : List Bytes)
    (completion : CanonicalCompletion) : Run AnthropicRenderer :=
  (pushAll rt (.new model) chunks).bind fun s => finish rt s completion

/-! ## Totals of a framed stream -/

theorem body_usage {body : List AnthropicEvent} (h : Regular body) (usage : Fields) :
    (body.map AnthropicEvent.payload).foldl readUsage usage = usage := by
  have hquiet : ∀ e ∈ body, readUsage usage e.payload = usage := by
    intro e he
    obtain ⟨before, after, hsplit⟩ := List.append_of_mem he
    have hinside := (h before e after hsplit).inside
    cases e with
    | messageStart model usage => exact absurd rfl (hinside model usage "" 0).1
    | messageDelta reason tokens => exact absurd rfl (hinside .null .zero reason tokens).2.1
    | messageStop => exact absurd rfl (hinside .null .zero "" 0).2.2
    | _ => rfl
  rw [List.foldl_map]
  clear h
  induction body with
  | nil => rfl
  | cons e body ih =>
    rw [List.forall_mem_cons] at hquiet
    rw [List.foldl_cons, hquiet.1]
    exact ih hquiet.2

theorem framed_usage {usage : CanonicalUsage} {tokens : ℤ} {events : List AnthropicEvent}
    (h : Framed usage tokens events) :
    clientUsage events = [("input_tokens", .int usage.inputTokens),
      ("cache_creation_input_tokens", .int 0),
      ("cache_read_input_tokens", .int usage.providerCachedInputTokens),
      ("output_tokens", .int tokens)] := by
  obtain ⟨model, body, reason, hbody, rfl⟩ := h
  have hstart : readUsage [] (AnthropicEvent.messageStart model usage).payload =
      [("input_tokens", .int usage.inputTokens), ("cache_creation_input_tokens", .int 0),
        ("cache_read_input_tokens", .int usage.providerCachedInputTokens),
        ("output_tokens", .int usage.outputTokens)] := rfl
  rw [clientUsage, List.map_cons, List.foldl_cons, hstart, List.map_append, List.foldl_append,
    body_usage hbody]
  rfl

theorem body_totals (rt : Runtime) {completion : CanonicalCompletion} (ht : Typed completion) :
    ∃ raw, completionToAnthropic rt completion = .ok raw ∧
      raw.val "usage" = anthropicUsage completion.usage := by
  obtain ⟨stop, hraw⟩ := ClientCompletions.anthropic_rendered rt ht
  exact ⟨_, hraw, rfl⟩

theorem sameTotals_iff {completion : CanonicalCompletion} (ht : Typed completion) {started : Bool}
    {events : List AnthropicEvent}
    (h : Framed (startUsage started completion) completion.usage.outputTokens events) :
    SameTotals rt events completion ↔ started = false ∨
      completion.usage.inputTokens = 0 ∧ completion.usage.providerCachedInputTokens = 0 := by
  obtain ⟨raw, hraw, husage⟩ := body_totals rt ht
  have hfields : SameTotals rt events completion ↔
      (startUsage started completion).inputTokens = completion.usage.inputTokens ∧
      (startUsage started completion).providerCachedInputTokens =
        completion.usage.providerCachedInputTokens := by
    rw [SameTotals, framed_usage h]
    constructor
    · rintro ⟨raw', hraw', hsame⟩
      obtain rfl := Except.ok.inj (hraw.symm.trans hraw')
      rw [husage] at hsame
      exact ⟨Json.int.inj (hsame "input_tokens" (by decide)),
        Json.int.inj (hsame "cache_read_input_tokens" (by decide))⟩
    · rintro ⟨hinput, hcached⟩
      refine ⟨raw, hraw, fun field hfield => ?_⟩
      rw [husage]
      simp only [comparedFields, List.mem_cons, List.not_mem_nil, or_false] at hfield
      obtain rfl | rfl | rfl := hfield
      · exact congrArg Json.int hinput
      · exact congrArg Json.int hcached
      · rfl
  rw [hfields, startUsage]
  cases started with
  | false => simp
  | true => simp [CanonicalUsage.zero, eq_comm]

theorem streamed_framed {chunks : List Bytes} (model : Json)
    (hc : ∀ payload ∈ openaiEvents rt.loads chunks, IsChunk payload)
    {completion : CanonicalCompletion} (ht : Typed completion) :
    ∃ events s, streamed rt model chunks completion = ⟨events, .ok s⟩ ∧
      Framed (startUsage ((openaiEvents rt.loads chunks).any startsMessage) completion)
        completion.usage.outputTokens events := by
  obtain ⟨events, s, hpush, buffer, h⟩ := pushAll_emits rt hc (new_follows model)
  obtain ⟨rest, s', hfinish, hended⟩ := finishAll_emits rt h ht []
  rw [finishAll, Gen.fold_single] at hfinish
  refine ⟨events ++ rest, s', ?_, hended.framed⟩
  rw [streamed, Gen.bind_ok hpush, hfinish]

/-- A streamed client has the totals of the whole message exactly when no chunk started the
message or the completion used no input. -/
theorem totals_agree_iff (rt : Runtime) (model : Json) (chunks : List Bytes)
    (hc : ∀ payload ∈ openaiEvents rt.loads chunks, IsChunk payload)
    (completion : CanonicalCompletion) (ht : Typed completion) :
    ∃ events s, streamed rt model chunks completion = ⟨events, .ok s⟩ ∧
      (SameTotals rt events completion ↔
        (openaiEvents rt.loads chunks).any startsMessage = false ∨
          completion.usage.inputTokens = 0 ∧ completion.usage.providerCachedInputTokens = 0) := by
  obtain ⟨events, s, hrun, hframed⟩ := streamed_framed model hc ht
  exact ⟨events, s, hrun, sameTotals_iff ht hframed⟩

theorem greeting_typed : Typed greetingCompletion := ⟨⟨_, rfl⟩, ⟨_, rfl⟩, .inl rfl, ⟨_, rfl⟩⟩

theorem greeting_totals :
    ∃ events s, streamed greetingRuntime .null [greetingChunk] greetingCompletion =
        ⟨events, .ok s⟩ ∧
      (SameTotals greetingRuntime events greetingCompletion ↔
        (openaiEvents greetingRuntime.loads [greetingChunk]).any startsMessage = false ∨
          greetingCompletion.usage.inputTokens = 0 ∧
            greetingCompletion.usage.providerCachedInputTokens = 0) :=
  totals_agree_iff greetingRuntime .null [greetingChunk] greeting_chunks greetingCompletion
    greeting_typed

/-- The client of a greeting has no input tokens, and the whole message has three. -/
theorem greeting_input_lost :
    (∀ payload ∈ openaiEvents greetingRuntime.loads [greetingChunk], IsChunk payload) ∧
      Typed greetingCompletion ∧
      ∃ events s, streamed greetingRuntime .null [greetingChunk] greetingCompletion =
        ⟨events, .ok s⟩ ∧ ¬ SameTotals greetingRuntime events greetingCompletion := by
  obtain ⟨events, s, hrun, hframed⟩ := streamed_framed .null greeting_chunks greeting_typed
  refine ⟨greeting_chunks, greeting_typed, events, s, hrun, fun hsame => ?_⟩
  have hstarted : (openaiEvents greetingRuntime.loads [greetingChunk]).any startsMessage = true := by
    decide +kernel
  rcases (sameTotals_iff greeting_typed hframed).1 hsame with h | h
  · rw [hstarted] at h
    cases h
  · exact absurd h.1 (by decide)

end Varsten.Proxy.ClientTotals
