import Varsten.Proxy.AssemblyShapes
import Varsten.Proxy.Capture
import Varsten.Proxy.ClientCompletions
import Varsten.Proxy.ClientRequests
import Varsten.Proxy.RendererShapes

/-!
# The shapes of whole answers

Which answers the adapters parse without raising, which completions are rendered for a client,
and which payloads the health signal reads.
-/

namespace Varsten.Proxy.AnswerShapes

open Python (Json Py Runtime Returns returns_ok not_returns_error returns_bind_iff
  returns_bind_total returns_pure returns_foldlM returns_mapM foldlM_keeps)
open Python.Json
open Python.Utf8 (Text)
open Providers (CanonicalCompletion completionPayload)
open RendererShapes (callFits callsFit)
open StreamShapes (countFits)

variable {rt : Runtime} {raw payload choice message content call : Json}

/-- A part of type `text` has a text. -/
def textPartFits : Json → Bool
  | .obj fields => !decide ((item "type" fields).getD .null = .str "text") ||
      isText ((item "text" fields).getD (.str ""))
  | _ => true

def contentFits : Json → Bool
  | .arr parts => parts.all textPartFits
  | _ => true

theorem returns_textParts {parts : List Json} :
    Returns (textParts parts) ↔ parts.all textPartFits = true := by
  induction parts with
  | nil => exact iff_of_true (returns_ok _) rfl
  | cons part parts ih =>
    rw [List.all_cons, Bool.and_eq_true]
    cases part with
    | obj fields =>
      rw [textParts, textPartFits]
      split_ifs with htype
      · rw [decide_eq_true htype]
        cases (item "text" fields).getD (.str "") with
        | str t =>
          exact (returns_bind_total fun _ => returns_pure _).trans (ih.trans (by simp [isText]))
        | _ => exact iff_of_false (not_returns_error _) (by simp [isText])
      · rw [decide_eq_false htype, Bool.not_false, Bool.true_or, and_iff_right rfl, ih]
    | _ => exact ih.trans (and_iff_right rfl).symm

/-! ## What is parsed -/

namespace OpenAI

open Providers.OpenAI

def messageFits (message : Json) : Bool :=
  message.orDefault isDict && contentFits (message.val "content")

def choiceFits (choice : Json) : Bool := choice.isDict && messageFits (choice.val "message")

def firstFits : Json → Bool
  | .arr (choice :: _) => choiceFits choice
  | _ => false

def bodyFits (raw : Json) : Bool :=
  raw.isDict && ((raw.val "choices").orDefault firstFits &&
    (raw.val "usage").orDefault StreamShapes.OpenAI.usageFits)

theorem returns_content : Returns (messageContent message) ↔
    message.isDict = true ∧ contentFits (message.val "content") = true := by
  rw [messageContent, get_bind]
  refine and_congr_right fun _ => ?_
  cases message.val "content" with
  | arr parts => exact (returns_bind_total fun _ => returns_pure _).trans returns_textParts
  | _ => exact iff_of_true (returns_ok _) rfl

theorem returns_first {α : Type} {choices : Json} {f : Json → Py α} {P : Prop}
    (hf : ∀ choice, Returns (f choice) ↔ choiceFits choice = true ∧ P) :
    Returns (firstChoice choices >>= f) ↔ choices.orDefault firstFits = true ∧ P := by
  have hfits : firstFits (choices.orElse (.arr [.obj []])) = choices.orDefault firstFits :=
    orElse_fits firstFits rfl
  rw [firstChoice, ← hfits]
  cases choices.orElse (.arr [.obj []]) with
  | arr cs =>
    cases cs with
    | nil => exact iff_of_false (not_returns_error _) fun h => Bool.false_ne_true h.1
    | cons choice cs => exact hf choice
  | str s =>
    dsimp only
    cases s.toList with
    | nil => exact iff_of_false (not_returns_error _) fun h => Bool.false_ne_true h.1
    | cons c cs =>
      exact (hf _).trans (and_congr_left' (iff_of_false Bool.false_ne_true Bool.false_ne_true))
  | _ => exact iff_of_false (not_returns_error _) fun h => Bool.false_ne_true h.1

theorem returns_body : Returns (parseCompletion raw) ↔ bodyFits raw = true := by
  simp only [bodyFits, Bool.and_eq_true]
  rw [parseCompletion, get_bind]
  refine and_congr_right fun hd => ?_
  refine returns_first fun choice => ?_
  simp only [choiceFits, messageFits, Bool.and_eq_true]
  rw [get_bind, and_assoc]
  refine and_congr_right fun hchoice => ?_
  rw [returns_bind_iff (P := (raw.val "usage").orDefault StreamShapes.OpenAI.usageFits = true),
    returns_content, orElse_fits isDict rfl, val_orElse_empty]
  intro content hcontent
  have hmessage := (returns_content.1 ⟨content, hcontent⟩).1
  rw [get_bind, and_iff_right hmessage, get_bind, and_iff_right hchoice, get_bind,
    and_iff_right hd, returns_bind_total fun _ => ?_, StreamShapes.OpenAI.returns_usage,
    orElse_fits StreamShapes.OpenAI.usageFits rfl]
  exact (get_bind _).2 ⟨hd, returns_pure _⟩

end OpenAI

namespace Anthropic

open Providers.Anthropic
open StreamShapes.Anthropic (usageFits returns_usage returns_finishReason)

def bodyFits (raw : Json) : Bool :=
  raw.isDict && ((raw.val "content").orDefault isIterable &&
    ((raw.val "stop_reason").orDefault isHashable && usageFits (raw.val "usage")))

theorem returns_body : Returns (parseCompletion rt raw) ↔ bodyFits raw = true := by
  simp only [bodyFits, Bool.and_eq_true]
  rw [parseCompletion, get_bind]
  refine and_congr_right fun hd => ?_
  rw [returns_bind_iff fun _ _ => ?_, returns_iter_orElse]
  dsimp only
  rw [get_bind, and_iff_right hd, get_bind, and_iff_right hd, returns_bind_iff fun _ _ => ?_,
    returns_finishReason]
  rw [get_bind, and_iff_right hd, returns_bind_total fun _ => returns_pure _, returns_usage]

end Anthropic

namespace Gemini

open Providers.Gemini
open StreamShapes.Gemini (usageFits partFits candidateFits eventFits items returns_usage
  returns_modelName returns_finishReason returns_toolCall returns_candidateParts candidateParts_eq)

theorem returns_part {p : Parsed} {part : Json} :
    Returns (parsePart rt p part) ↔ partFits part = true := by
  cases part with
  | obj fields =>
    rw [parsePart, partFits, val_obj, val_obj, orDefault]
    cases htext : ((item "text" fields).getD .null).truthy with
    | true => exact iff_of_true (returns_ok _) rfl
    | false =>
      cases hcall : ((item "functionCall" fields).getD .null).truthy with
      | false => exact iff_of_true (returns_ok _) rfl
      | true => exact (returns_bind_total fun _ => returns_pure _).trans returns_toolCall
  | _ => exact iff_of_true (returns_ok _) rfl

theorem returns_candidate {p : Parsed} {candidate : Json} :
    Returns (parseCandidate rt p candidate) ↔ candidateFits candidate = true := by
  rw [parseCandidate]
  cases hd : candidate.isDict with
  | false =>
    have hnone : ∀ k, candidate.val k = .null := val_of_not_dict hd
    refine iff_of_true (returns_ok _) ?_
    simp only [candidateFits, hnone]
    rfl
  | true =>
    have hparts : ∀ parts, candidateParts candidate = .ok parts → ∀ p : Parsed,
        (Returns (parts.foldlM (parsePart rt) p) ↔
          (items ((candidate.val "content").val "parts")).all partFits = true) := by
      intro parts hparts p
      rw [candidateParts_eq hparts, List.all_eq_true]
      exact returns_foldlM (fun part => partFits part = true) (fun _ _ _ => returns_part) p
    rw [if_pos rfl, get_bind, and_iff_right hd, returns_bind_iff fun _ _ =>
      returns_bind_iff fun parts hp => hparts parts hp _, returns_finishReason,
      returns_candidateParts hd]
    simp only [candidateFits, Bool.and_eq_true]
    tauto

theorem returns_body : Returns (parseCompletion rt raw) ↔ eventFits raw = true := by
  simp only [eventFits, Bool.and_eq_true]
  rw [parseCompletion, get_bind]
  refine and_congr_right fun hd => ?_
  have hloop : ∀ cs, ((raw.val "candidates").orElse (.arr [])).iter = .ok cs → ∀ p : Parsed,
      (Returns (cs.foldlM (parseCandidate rt) p) ↔
        (items (raw.val "candidates")).all candidateFits = true) := by
    intro cs hcs p
    rw [iter_eq hcs, List.all_eq_true]
    exact returns_foldlM (fun c => candidateFits c = true) (fun _ _ _ => returns_candidate) p
  rw [returns_bind_iff (P := (items (raw.val "candidates")).all candidateFits = true ∧
    (raw.val "modelVersion").orDefault isText = true ∧ usageFits (raw.val "usageMetadata") = true),
    returns_iter_orElse]
  · tauto
  · intro cs hcs
    rw [returns_bind_iff (P := (raw.val "modelVersion").orDefault isText = true ∧
      usageFits (raw.val "usageMetadata") = true), hloop cs hcs]
    intro p _
    rw [get_bind, and_iff_right hd, returns_bind_iff fun _ _ => ?_, returns_modelName]
    rw [get_bind, and_iff_right hd, returns_bind_total fun _ => returns_pure _, returns_usage]

end Gemini

/-! ## What is rendered -/

section Rendered

open ClientCompletions (completionToAnthropic completionToGemini anthropicToolUse
  geminiFunctionCall)

variable {completion : CanonicalCompletion}

theorem returns_toolUse : Returns (anthropicToolUse rt call) ↔ callFits call = true := by
  rw [anthropicToolUse, get_bind, callFits, Bool.and_eq_true]
  refine and_congr_right fun hd => ?_
  rw [get_bind, and_iff_right hd, get_orElse_bind, get_orElse_bind]
  exact and_iff_left_of_imp fun h => ⟨h, returns_pure _⟩

theorem returns_functionCall : Returns (geminiFunctionCall rt call) ↔ callFits call = true := by
  rw [geminiFunctionCall, get_bind, get_orElse_bind, get_orElse_bind, callFits, Bool.and_eq_true]
  exact and_congr_right fun _ => and_iff_left_of_imp fun h => ⟨h, returns_pure _⟩

theorem returns_calls {α β : Type} {calls : Json} {f : Json → Py α} {g : List α → Py β} {P : Prop}
    (hf : ∀ call, Returns (f call) ↔ callFits call = true) (hg : ∀ xs, Returns (g xs) ↔ P) :
    Returns ((calls.orElse (.arr [])).iter >>= fun xs => xs.mapM f >>= g) ↔
      callsFit calls = true ∧ P := by
  have hfits : (isIterable (calls.orElse (.arr [])) &&
      (calls.orElse (.arr [])).elements.all callFits) = callsFit calls :=
    orElse_fits (fun calls => isIterable calls && calls.elements.all callFits) rfl
  rw [← hfits, Bool.and_eq_true, and_assoc, ← returns_iter]
  refine returns_bind_iff fun xs hxs => ?_
  rw [returns_bind_iff fun _ _ => hg _, ← iter_eq hxs, List.all_eq_true]
  exact and_congr_left' (returns_mapM (fun c => callFits c = true) fun _ _ => hf _)

theorem returns_anthropic : Returns (completionToAnthropic rt completion) ↔
    callsFit completion.toolCalls = true ∧ (completion.toolCalls.truthy = true ∨
      completion.finishReason.orDefault isHashable = true) := by
  refine returns_calls (fun _ => returns_toolUse) fun calls => ?_
  rw [returns_bind_total fun _ => returns_pure _, ClientRenderers.Anthropic.stopReason]
  cases completion.toolCalls.truthy with
  | true => exact iff_of_true (returns_ok _) (.inl rfl)
  | false =>
    rw [if_neg Bool.false_ne_true, or_iff_right Bool.false_ne_true,
      returns_bind_total fun _ => returns_pure _, returns_hashKey, orElse_fits isHashable rfl]

theorem returns_gemini : Returns (completionToGemini rt completion) ↔
    callsFit completion.toolCalls = true ∧
      completion.finishReason.orDefault isHashable = true := by
  refine returns_calls (fun _ => returns_functionCall) fun calls => ?_
  rw [returns_bind_total fun _ => returns_pure _, ClientRenderers.Gemini.finishReason,
    returns_bind_total fun _ => returns_pure _, returns_hashKey, orElse_fits isHashable rfl]

end Rendered

/-! ## What the health signal reads -/

section Quality

open Capture (wantsJson contentOf isBlankContent isDegradedFinish choiceQualityOk
  responseQualityOk qualityOk)

variable {loads : Text → Option Json} {jsonExpected : Bool}

def isDegraded (choice : Json) : Bool :=
  choice.val "finish_reason" = .str "length" ∨ choice.val "finish_reason" = .str "content_filter"

def isReadable : Json → Bool
  | .arr parts => parts.all textPartFits
  | content => content.orDefault isText

def choiceFits (choice : Json) : Bool :=
  choice.isDict && ((choice.val "finish_reason").isHashable && (isDegraded choice ||
    ((choice.val "message").orDefault isDict &&
      (((choice.val "message").val "tool_calls").truthy ||
        isReadable ((choice.val "message").val "content")))))

def payloadFits (payload : Json) : Bool := (Capture.firstChoice payload).all choiceFits

def wantsFits (body : Json) : Bool :=
  body.orDefault isDict && ((body.val "response_format").val "type").isHashable

theorem returns_wants {body : Json} : Returns (wantsJson body) ↔ wantsFits body = true := by
  cases body with
  | obj fields =>
    have hdict : orDefault isDict (.obj fields) = true := by simp [orDefault, isDict]
    rw [wantsFits, hdict, Bool.true_and, val_obj]
    change Returns (Engine.RequestFacts.responseFormatJson _) ↔ _
    rw [Engine.RequestFacts.field]
    cases (item "response_format" fields).getD .null with
    | obj format =>
      rw [val_obj, Engine.RequestFacts.responseFormatJson, Engine.RequestFacts.field]
      cases (item "type" format).getD .null with
      | arr xs => exact iff_of_false (not_returns_error _) Bool.false_ne_true
      | obj fields => exact iff_of_false (not_returns_error _) Bool.false_ne_true
      | _ => exact iff_of_true (returns_ok _) rfl
    | _ => exact iff_of_true (returns_ok _) rfl
  | _ =>
    simp only [wantsJson, wantsFits, orDefault]
    split_ifs with htruthy
    · exact iff_of_false (not_returns_error _) (by simp [htruthy, isDict])
    · exact iff_of_true (returns_ok _) (by simp [htruthy, isHashable, val])

theorem returns_degraded : Returns (isDegradedFinish choice) ↔
    choice.isDict = true ∧ (choice.val "finish_reason").isHashable = true := by
  rw [isDegradedFinish, get_bind]
  refine and_congr_right fun _ => ?_
  cases choice.val "finish_reason" with
  | arr xs => exact iff_of_false (not_returns_error _) Bool.false_ne_true
  | obj fields => exact iff_of_false (not_returns_error _) Bool.false_ne_true
  | _ => exact iff_of_true (returns_ok _) rfl

theorem degraded_eq {degraded : Bool} (h : isDegradedFinish choice = .ok degraded) :
    degraded = isDegraded choice := by
  obtain ⟨reason, hreason, h⟩ := Python.Py.bind_eq_ok.1 h
  obtain rfl := get_eq_ok hreason
  rw [isDegraded]
  split at h
  · cases h
  · cases h
  · exact (Except.ok.inj h).symm

theorem returns_blank : Returns (isBlankContent content) ↔ content.orDefault isText = true := by
  cases htruthy : content.truthy with
  | false =>
    exact iff_of_true ⟨true, by simp [isBlankContent, htruthy]⟩ (by simp [orDefault, htruthy])
  | true =>
    cases content with
    | str t =>
      refine iff_of_true ?_ (by simp [orDefault, isText])
      simp only [isBlankContent]
      split_ifs <;> exact returns_ok _
    | _ => simp [isBlankContent, orDefault, htruthy, isText, not_returns_error]

theorem returns_content {f : Json → Py Bool}
    (hf : ∀ content, Returns (f content) ↔ content.orDefault isText = true) :
    Returns (contentOf message >>= f) ↔
      message.isDict = true ∧ isReadable (message.val "content") = true := by
  rw [contentOf, bind_assoc, get_bind]
  refine and_congr_right fun _ => ?_
  cases message.val "content" with
  | arr parts =>
    have hjoined : ∀ text, Returns ((pure (.str text) : Py Json) >>= f) := fun text =>
      (hf (.str text)).2 (by simp [orDefault, isText])
    dsimp only
    rw [bind_assoc, returns_bind_total fun texts => hjoined _, returns_textParts]
    rfl
  | _ => exact hf _

theorem returns_choice :
    Returns (choiceQualityOk loads choice jsonExpected) ↔ choiceFits choice = true := by
  simp only [choiceFits, Bool.and_eq_true, Bool.or_eq_true]
  rw [choiceQualityOk, ← and_assoc, ← returns_degraded]
  refine returns_bind_iff fun degraded hdegraded => ?_
  rw [degraded_eq hdegraded]
  cases isDegraded choice with
  | true => exact iff_of_true (returns_ok _) (.inl rfl)
  | false =>
    have hd := (returns_degraded.1 ⟨_, hdegraded⟩).1
    rw [if_neg Bool.false_ne_true, or_iff_right Bool.false_ne_true, get_bind, and_iff_right hd,
      get_orElse_bind]
    refine and_congr_right fun hmessage => ?_
    cases ((choice.val "message").val "tool_calls").truthy with
    | true => exact iff_of_true (returns_ok _) (.inl rfl)
    | false =>
      rw [if_neg Bool.false_ne_true, or_iff_right Bool.false_ne_true]
      refine (returns_content fun content => ?_).trans ?_
      · rw [returns_bind_total fun blank => ?_, returns_blank]
        split_ifs
        · exact returns_ok _
        · exact returns_ok _
        · cases content <;> exact returns_ok _
      · rw [orElse_fits isDict rfl, and_iff_right hmessage, val_orElse_empty]

theorem returns_quality :
    Returns (responseQualityOk loads payload jsonExpected) ↔ payloadFits payload = true := by
  have hempty : payload.truthy = false → payloadFits payload = true := by
    intro hfalsy
    cases payload with
    | obj fields =>
      cases fields with
      | nil => rfl
      | cons f fields => cases hfalsy
    | _ => rfl
  rw [responseQualityOk]
  cases htruthy : payload.truthy with
  | false => exact iff_of_true (returns_ok _) (hempty htruthy)
  | true =>
    rw [payloadFits]
    cases Capture.firstChoice payload with
    | none => exact iff_of_true (returns_ok _) rfl
    | some choice => exact returns_choice

/-- The signal of an experiment arm, of a request and the payload of its answer. -/
def signalFits (arm : Option String) (body payload : Json) : Bool :=
  !arm.any (· ≠ "") || (wantsFits body && payloadFits payload)

theorem returns_signal {args : Forward.CaptureArgs} : Returns (qualityOk loads args) ↔
    signalFits args.arm args.body args.responsePayload = true := by
  rw [qualityOk, signalFits]
  cases args.arm.any (· ≠ "") with
  | false => exact iff_of_true (returns_ok _) rfl
  | true =>
    rw [if_pos rfl, Bool.not_true, Bool.false_or, Bool.and_eq_true, returns_bind_iff fun _ _ =>
      (returns_bind_total fun _ => returns_pure _).trans returns_quality, returns_wants]

end Quality

/-! ## What translated answers are parsed to -/

/-- A completion with a text, whole tool calls and a finish reason that can be looked up. -/
structure Rendered (completion : CanonicalCompletion) : Prop where
  content : ∃ text, completion.content = .str text
  calls : callsFit completion.toolCalls = true
  finish : completion.finishReason.isHashable = true
  raw : completion.raw = none

theorem orDefault_of_fits {fits : Json → Bool} {j : Json} (h : fits j = true) :
    j.orDefault fits = true := by
  rw [orDefault, h, Bool.or_true]

theorem Rendered.payload_read {completion : CanonicalCompletion} (h : Rendered completion) :
    payloadFits (completionPayload completion) = true := by
  obtain ⟨text, htext⟩ := h.content
  have hcontent : isReadable ((Json.str text).orElse .null) = true := by
    rw [orElse]
    split_ifs
    · exact orDefault_of_fits rfl
    · rfl
  have hdict : ∀ fields, orDefault isDict (.obj fields) = true := fun _ => orDefault_of_fits rfl
  have hchoice : ∀ message, ((Json.obj message).val "tool_calls").truthy = true ∨
      isReadable ((Json.obj message).val "content") = true →
      choiceFits (.obj [("index", .int 0), ("message", .obj message),
        ("finish_reason", completion.finishReason)]) = true := by
    intro message hmessage
    simp only [choiceFits, Bool.and_eq_true, Bool.or_eq_true]
    exact ⟨rfl, h.finish, .inr ⟨hdict message, hmessage⟩⟩
  rw [completionPayload, h.raw, htext]
  refine hchoice _ ?_
  split_ifs with hcalls
  · exact .inl hcalls
  · exact .inr hcontent

theorem isHashable_of {j : Json} (h : TranslatedItems.Hashable j) : j.isHashable = true :=
  returns_hashKey.1 h

theorem calls_fit {calls : List Json} (h : ∀ call ∈ calls, callFits call = true) :
    callsFit (if calls = [] then .null else .arr calls) = true := by
  split_ifs
  · rfl
  · exact RendererShapes.arr_fit h

theorem Anthropic.parsed_rendered {completion : CanonicalCompletion}
    (h : Providers.Anthropic.parseCompletion rt raw = .ok completion) : Rendered completion := by
  have hblocks : ∀ (blocks : List Json) (p : List String × List Json),
      (∀ call ∈ p.2, callFits call = true) →
      ∀ call ∈ (blocks.foldl (Providers.Anthropic.parseBlock rt) p).2, callFits call = true := by
    intro blocks
    induction blocks with
    | nil => exact fun p hp => hp
    | cons block blocks ih =>
      refine fun p hp => ih _ ?_
      cases block with
      | obj fields =>
        rw [Providers.Anthropic.parseBlock]
        split_ifs
        · exact hp
        · intro call hcall
          rcases List.mem_append.1 hcall with hcall | hcall
          · exact hp call hcall
          · obtain rfl := List.mem_singleton.1 hcall
            rfl
        · exact hp
      | _ => exact hp
  obtain ⟨_, -, h⟩ := Python.Py.bind_eq_ok.1 h
  obtain ⟨blocks, -, h⟩ := Python.Py.bind_eq_ok.1 h
  obtain ⟨_, -, h⟩ := Python.Py.bind_eq_ok.1 h
  obtain ⟨_, -, h⟩ := Python.Py.bind_eq_ok.1 h
  obtain ⟨finish, hfinish, h⟩ := Python.Py.bind_eq_ok.1 h
  obtain ⟨_, -, h⟩ := Python.Py.bind_eq_ok.1 h
  obtain ⟨_, -, h⟩ := Python.Py.bind_eq_ok.1 h
  obtain rfl := Except.ok.inj h
  exact ⟨⟨_, rfl⟩, calls_fit (hblocks blocks _ (List.forall_mem_nil _)),
    isHashable_of (TranslatedItems.finishReason_hashable hfinish), rfl⟩

namespace Gemini

open Providers.Gemini

def CallsFit (p : Parsed) : Prop := ∀ call ∈ p.toolCalls, callFits call = true

theorem toolCall_fits {fields : List (String × Json)} (h : geminiToolCall rt call = .ok fields) :
    callFits (.obj fields) = true := by
  obtain ⟨_, -, h⟩ := Python.Py.bind_eq_ok.1 h
  obtain ⟨_, -, h⟩ := Python.Py.bind_eq_ok.1 h
  obtain rfl := Except.ok.inj h
  rfl

theorem part_fits {p p' : Parsed} {part : Json} (hp : CallsFit p)
    (h : parsePart rt p part = .ok p') : CallsFit p' := by
  cases part with
  | obj fields =>
    rw [parsePart] at h
    split_ifs at h
    · obtain rfl := Except.ok.inj h
      exact hp
    · obtain ⟨tool, htool, h⟩ := Python.Py.bind_eq_ok.1 h
      obtain rfl := Except.ok.inj h
      intro call hcall
      rcases List.mem_append.1 hcall with hcall | hcall
      · exact hp call hcall
      · obtain rfl := List.mem_singleton.1 hcall
        exact toolCall_fits htool
    · obtain rfl := Except.ok.inj h
      exact hp
  | _ =>
    obtain rfl := Except.ok.inj h
    exact hp

theorem candidate_fits {p p' : Parsed} {candidate : Json} (hp : CallsFit p)
    (h : parseCandidate rt p candidate = .ok p') : CallsFit p' := by
  rw [parseCandidate] at h
  split_ifs at h
  · obtain ⟨_, -, h⟩ := Python.Py.bind_eq_ok.1 h
    obtain ⟨finish, -, h⟩ := Python.Py.bind_eq_ok.1 h
    obtain ⟨parts, -, h⟩ := Python.Py.bind_eq_ok.1 h
    refine foldlM_keeps part_fits ?_ h
    exact hp
  · obtain rfl := Except.ok.inj h
    exact hp

theorem parsed_rendered {completion : CanonicalCompletion}
    (h : parseCompletion rt raw = .ok completion) : Rendered completion := by
  obtain ⟨_, -, h⟩ := Python.Py.bind_eq_ok.1 h
  obtain ⟨candidates, -, h⟩ := Python.Py.bind_eq_ok.1 h
  obtain ⟨p, hp, h⟩ := Python.Py.bind_eq_ok.1 h
  obtain ⟨_, -, h⟩ := Python.Py.bind_eq_ok.1 h
  obtain ⟨_, -, h⟩ := Python.Py.bind_eq_ok.1 h
  obtain ⟨_, -, h⟩ := Python.Py.bind_eq_ok.1 h
  obtain ⟨_, -, h⟩ := Python.Py.bind_eq_ok.1 h
  obtain rfl := Except.ok.inj h
  have hstart : CallsFit ⟨[], [], "stop"⟩ := List.forall_mem_nil _
  have hcalls : CallsFit p := foldlM_keeps candidate_fits hstart hp
  exact ⟨⟨_, rfl⟩, calls_fit hcalls, rfl, rfl⟩

end Gemini

end Varsten.Proxy.AnswerShapes
