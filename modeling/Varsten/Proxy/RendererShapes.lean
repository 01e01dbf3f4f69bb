import Varsten.Proxy.ClientRenderers
import Varsten.Proxy.StreamShapes

/-!
# The chunks that are rendered

Which OpenAI chunks the renderers of the native clients render without raising, and which
completions they end with.
-/

namespace Varsten.Proxy.RendererShapes

open Python (Json Py Gen Runtime Returns returns_ok not_returns_error returns_bind_iff
  returns_bind_total returns_pure returns_foldlM returns_mapM)
open Python.Json
open ClientRenderers
open Providers (CanonicalUsage CanonicalCompletion)
open Providers.OpenAI (Slot)
open StreamShapes.Gemini (items)

variable {rt : Runtime} {fragment delta choice payload call : Json} {slot : Slot}

def fragmentFits (fragment : Json) : Bool := (fragment.val "function").orDefault isDict

def toolCallsFit : Json → Bool
  | .arr fragments => fragments.all fragmentFits
  | _ => true

def deltaFits (delta : Json) : Bool :=
  delta.orDefault isDict && toolCallsFit (delta.val "tool_calls")

def choiceFits (choice : Json) : Bool := deltaFits (choice.val "delta")

def payloadFits (payload : Json) : Bool :=
  payload.isDict && ((payload.val "choices").orDefault isIterable &&
    (items (payload.val "choices")).all choiceFits)

theorem returns_merge (hd : fragment.isDict = true) :
    Returns (mergeToolCallFragment rt slot fragment) ↔ fragmentFits fragment = true := by
  rw [mergeToolCallFragment, get_bind, and_iff_right hd, get_bind, and_iff_right hd, get_bind,
    and_iff_right hd, get_orElse_bind, get_orElse_bind, fragmentFits]
  exact and_iff_left_of_imp fun h => ⟨h, returns_pure _⟩

theorem fragmentFits_other (hd : fragment.isDict = false) : fragmentFits fragment = true := by
  rw [fragmentFits, val_of_not_dict hd]
  rfl

theorem payload_read {model : Json} : Returns (do
      let m ← payload.get "model"
      let choices ← ((← payload.get "choices").orElse (.arr [])).iter
      return (m.orElse model, choices)) ↔
    payload.isDict = true ∧ (payload.val "choices").orDefault isIterable = true := by
  rw [get_bind]
  refine and_congr_right fun hd => ?_
  rw [get_bind, and_iff_right hd, returns_bind_total fun _ => returns_pure _, returns_iter_orElse]

theorem payload_choices {model : Json} {r : Json × List Json} (h : (do
      let m ← payload.get "model"
      let choices ← ((← payload.get "choices").orElse (.arr [])).iter
      return (m.orElse model, choices) : Py (Json × List Json)) = .ok r) :
    r.2 = items (payload.val "choices") := by
  obtain ⟨m, -, h⟩ := Python.Py.bind_eq_ok.1 h
  obtain ⟨v, hv, h⟩ := Python.Py.bind_eq_ok.1 h
  obtain ⟨choices, hchoices, h⟩ := Python.Py.bind_eq_ok.1 h
  obtain rfl := Except.ok.inj h
  rw [get_eq_ok hv] at hchoices
  exact iter_eq hchoices

/-! ## Gemini clients -/

namespace Gemini

open ClientRenderers.Gemini

variable {s : GeminiRenderer} {slots : List (ℤ × Slot)}

theorem returns_mergeFragment :
    Returns (mergeFragment rt slots fragment) ↔ fragmentFits fragment = true := by
  rw [mergeFragment]
  cases hd : fragment.isDict with
  | false => exact iff_of_true (returns_ok _) (fragmentFits_other hd)
  | true =>
    rw [if_pos rfl]
    exact (returns_bind_total fun _ => returns_pure _).trans (returns_merge hd)

theorem returns_toolCalls {s : GeminiRenderer} {toolCalls : Json} : Returns (match toolCalls with
      | .arr fragments => (Gen.lift (fragments.foldlM (mergeFragment rt) s.toolCallSlots)).bind
          fun slots => .ok { s with toolCallSlots := slots }
      | _ => (Gen.ok s : Run)).result ↔ toolCallsFit toolCalls = true := by
  cases toolCalls with
  | arr fragments =>
    rw [toolCallsFit, List.all_eq_true, Gen.returns_bind_total fun slots => returns_ok _]
    exact returns_foldlM (fun f => fragmentFits f = true) (fun _ _ _ => returns_mergeFragment) _
  | _ => exact iff_of_true (returns_ok _) rfl

theorem returns_delta :
    Returns (handleDelta rt s (delta.orElse (.obj []))).result ↔ deltaFits delta = true := by
  have hdict : (delta.orElse (.obj [])).isDict = delta.orDefault isDict := orElse_fits isDict rfl
  have hcalls : (delta.orElse (.obj [])).val "tool_calls" = delta.val "tool_calls" :=
    val_orElse_empty
  rw [deltaFits, ← hdict, ← hcalls, Bool.and_eq_true]
  cases delta.orElse (.obj []) with
  | obj fields =>
    have hfields : (Json.obj fields).isDict = true := rfl
    rw [and_iff_right hfields, handleDelta, Gen.returns_bind_iff
      (P := toolCallsFit ((Json.obj fields).val "tool_calls") = true)]
    · exact and_iff_right (returns_ok _)
    · rintro r hr
      obtain rfl := Except.ok.inj hr
      refine (Gen.returns_bind_iff fun _ _ => returns_toolCalls).trans (and_iff_right ?_)
      split_ifs <;> exact returns_ok _
  | _ => exact iff_of_false (not_returns_error _) fun h => Bool.false_ne_true h.1

theorem returns_choice :
    Returns (handleChoice rt s choice).result ↔ choiceFits choice = true := by
  cases choice with
  | obj fields => exact returns_delta
  | _ => exact iff_of_true (returns_ok _) rfl

theorem returns_payload :
    Returns (handlePayload rt s payload).result ↔ payloadFits payload = true := by
  simp only [payloadFits, Bool.and_eq_true]
  rw [handlePayload, Gen.returns_bind_iff
    (P := (items (payload.val "choices")).all choiceFits = true)]
  · exact (and_congr_left' payload_read).trans and_assoc
  · rintro ⟨model, choices⟩ hr
    rw [← payload_choices hr, List.all_eq_true]
    exact Gen.returns_fold (fun c => choiceFits c = true) (fun _ _ _ => returns_choice) _

end Gemini

/-! ## Anthropic clients -/

namespace Anthropic

open ClientRenderers.Anthropic

variable {s : AnthropicRenderer}

theorem returns_start (s : AnthropicRenderer) (usage : CanonicalUsage) :
    Returns (ensureMessageStart s usage).result := by
  rw [ensureMessageStart]
  split_ifs <;> exact returns_ok _

theorem returns_text (s : AnthropicRenderer) (text : String) :
    Returns (emitText s text).result := by
  rw [emitText, Gen.returns_bind_total fun s => ?_]
  · exact returns_start s _
  · cases s.textBlockIndex <;> exact returns_ok _

theorem returns_closeText (s : AnthropicRenderer) : Returns (closeTextBlock s).result := by
  rw [closeTextBlock]
  cases s.textBlockIndex <;> exact returns_ok _

theorem returns_toolBlock (s : AnthropicRenderer) (i : ℤ) (slot : Slot) :
    Returns (toolBlock rt s i slot).result := by
  rw [toolBlock]
  cases s.toolBlockIndexes.lookup i with
  | some b => exact returns_ok _
  | none => exact (Gen.returns_bind_total fun _ => returns_ok _).2 ⟨_, rfl⟩

theorem returns_fragment :
    Returns (emitFragment rt s fragment).result ↔ fragmentFits fragment = true := by
  rw [emitFragment]
  cases hd : fragment.isDict with
  | false => exact iff_of_true (returns_ok _) (fragmentFits_other hd)
  | true =>
    rw [if_pos rfl, Gen.returns_bind_total fun r => ?_]
    · exact returns_merge hd
    · refine (Gen.returns_bind_total fun b => ?_).2 (returns_toolBlock _ _ _)
      dsimp only
      split_ifs <;> exact returns_ok _

theorem returns_fragments {fragments : List Json} :
    Returns (emitToolCallFragments rt s fragments).result ↔ fragments.all fragmentFits = true := by
  have hloop : ∀ s, Returns (Gen.fold (emitFragment rt) s fragments).result ↔
      fragments.all fragmentFits = true := by
    intro s
    rw [List.all_eq_true]
    exact Gen.returns_fold (fun f => fragmentFits f = true) (fun _ _ _ => returns_fragment) s
  rw [emitToolCallFragments, Gen.returns_bind_iff fun s _ =>
    (Gen.returns_bind_iff fun s _ => hloop s).trans (and_iff_right (returns_closeText s))]
  exact and_iff_right (returns_start s _)

theorem returns_toolCalls {toolCalls : Json} : Returns (match toolCalls with
      | .arr (f :: fs) => emitToolCallFragments rt s (f :: fs)
      | _ => (Gen.ok s : Run AnthropicRenderer)).result ↔ toolCallsFit toolCalls = true := by
  cases toolCalls with
  | arr fragments =>
    cases fragments with
    | nil => exact iff_of_true (returns_ok _) rfl
    | cons f fs => exact returns_fragments
  | _ => exact iff_of_true (returns_ok _) rfl

theorem returns_delta :
    Returns (handleDelta rt s (delta.orElse (.obj []))).result ↔ deltaFits delta = true := by
  have hdict : (delta.orElse (.obj [])).isDict = delta.orDefault isDict := orElse_fits isDict rfl
  have hcalls : (delta.orElse (.obj [])).val "tool_calls" = delta.val "tool_calls" :=
    val_orElse_empty
  rw [deltaFits, ← hdict, ← hcalls, Bool.and_eq_true]
  cases delta.orElse (.obj []) with
  | obj fields =>
    have hfields : (Json.obj fields).isDict = true := rfl
    rw [and_iff_right hfields, handleDelta, Gen.returns_bind_iff
      (P := toolCallsFit ((Json.obj fields).val "tool_calls") = true)]
    · exact and_iff_right (returns_ok _)
    · rintro r hr
      obtain rfl := Except.ok.inj hr
      refine (Gen.returns_bind_iff fun _ _ => (Gen.returns_bind_iff fun _ _ =>
        returns_toolCalls).trans (and_iff_right ?_)).trans (and_iff_right ?_)
      · split_ifs
        · exact returns_text _ _
        · exact returns_ok _
      · split_ifs
        · exact returns_start _ _
        · exact returns_ok _
  | _ => exact iff_of_false (not_returns_error _) fun h => Bool.false_ne_true h.1

theorem returns_choice :
    Returns (handleChoice rt s choice).result ↔ choiceFits choice = true := by
  cases choice with
  | obj fields => exact returns_delta
  | _ => exact iff_of_true (returns_ok _) rfl

theorem returns_payload :
    Returns (handlePayload rt s payload).result ↔ payloadFits payload = true := by
  simp only [payloadFits, Bool.and_eq_true]
  rw [handlePayload, Gen.returns_bind_iff
    (P := (items (payload.val "choices")).all choiceFits = true)]
  · exact (and_congr_left' payload_read).trans and_assoc
  · rintro ⟨model, choices⟩ hr
    rw [← payload_choices hr, List.all_eq_true]
    exact Gen.returns_fold (fun c => choiceFits c = true) (fun _ _ _ => returns_choice) _

end Anthropic

/-! ## The end -/

section Ends

variable {completion : CanonicalCompletion}

def callFits (call : Json) : Bool := call.isDict && (call.val "function").orDefault isDict

def callsFit (calls : Json) : Bool :=
  calls.orDefault fun calls => calls.isIterable && calls.elements.all callFits

def finishFits (completion : CanonicalCompletion) : Bool :=
  completion.finishReason.orDefault isHashable

theorem returns_part :
    Returns (ClientRenderers.Gemini.toolPart rt call) ↔ callFits call = true := by
  rw [ClientRenderers.Gemini.toolPart, get_bind, get_orElse_bind, get_orElse_bind, callFits,
    Bool.and_eq_true]
  exact and_congr_right fun _ => and_iff_left_of_imp fun h => ⟨h, returns_pure _⟩

theorem returns_callStart {n : ℕ} :
    Returns (ClientRenderers.Anthropic.toolCallStart rt n call) ↔ callFits call = true := by
  rw [ClientRenderers.Anthropic.toolCallStart, get_bind, callFits, Bool.and_eq_true]
  refine and_congr_right fun hd => ?_
  rw [get_bind, and_iff_right hd, get_orElse_bind, get_orElse_bind]
  exact and_iff_left_of_imp fun h => ⟨h, returns_pure _⟩

theorem returns_reason {reason : Json} {r : String} :
    Returns (hashKey ((reason.orElse (.str r)).orElse (.str "stop"))) ↔
      reason.orDefault isHashable = true := by
  have hfits : ((reason.orElse (.str r)).orElse (.str "stop")).isHashable =
      reason.orDefault isHashable := by
    have hstr : orDefault isHashable (.str r) = true := by simp [orDefault, isHashable]
    rw [orElse_fits isHashable rfl, orElse_fits (orDefault isHashable) hstr]
    simp only [orDefault]
    cases reason.truthy <;> rfl
  rw [returns_hashKey, hfits]

theorem elements_fit {calls d : Json} {xs : List Json} (hcalls : callsFit calls = true)
    (hd : callsFit d = true) (h : (calls.orElse d).iter = .ok xs) : xs.all callFits = true := by
  have hfits : callsFit (calls.orElse d) = true := by
    rw [orElse]
    split_ifs
    · exact hcalls
    · exact hd
  rw [iter_eq h]
  rw [callsFit, orDefault, Bool.or_eq_true] at hfits
  rcases hfits with hfalsy | hfits
  · rw [Bool.not_eq_true'] at hfalsy
    rw [elements_falsy hfalsy]
    rfl
  · exact (Bool.and_eq_true _ _ ▸ hfits).2

theorem iter_fit {calls d : Json} (hcalls : callsFit calls = true) (hd : isIterable d = true) :
    Returns (calls.orElse d).iter := by
  rw [returns_iter, orElse_fits isIterable hd]
  rw [callsFit] at hcalls
  simp only [orDefault, Bool.or_eq_true, Bool.and_eq_true] at hcalls ⊢
  exact hcalls.imp_right And.left

theorem arr_fit {calls : List Json} (h : ∀ call ∈ calls, callFits call = true) :
    callsFit (.arr calls) = true := by
  have helements : (Json.arr calls).elements = calls := rfl
  rw [callsFit, orDefault, helements, List.all_eq_true.2 h]
  exact Bool.or_true _

theorem slots_fit {α : Type} (slots : List (α × Slot)) :
    callsFit (.arr (slots.map fun s => s.2.toJson)) = true := by
  refine arr_fit fun call hcall => ?_
  obtain ⟨s, -, rfl⟩ := List.mem_map.1 hcall
  rfl

theorem slotCalls_fit (slots : List (ℤ × Slot)) :
    callsFit (.arr (ClientRenderers.Gemini.slotCalls slots)) = true := slots_fit _

theorem parts_fit {d : Json} (hcalls : callsFit completion.toolCalls = true)
    (hd : callsFit d = true) (hiter : isIterable d = true) : ∃ xs parts,
      (completion.toolCalls.orElse d).iter = .ok xs ∧ xs.all callFits = true ∧
        xs.mapM (ClientRenderers.Gemini.toolPart rt) = .ok parts := by
  obtain ⟨xs, hxs⟩ := iter_fit hcalls hiter
  have hall := elements_fit hcalls hd hxs
  obtain ⟨parts, hparts⟩ : Returns (xs.mapM (ClientRenderers.Gemini.toolPart rt)) :=
    (returns_mapM (fun c => callFits c = true) fun _ _ => returns_part).2 (List.all_eq_true.1 hall)
  exact ⟨xs, parts, hxs, hall, hparts⟩

theorem gemini_finish {s : GeminiRenderer} (hcalls : callsFit completion.toolCalls = true) :
    Returns (ClientRenderers.Gemini.finish rt s completion).result ↔
      s.closed = true ∨ finishFits completion = true := by
  rw [ClientRenderers.Gemini.finish]
  cases hclosed : s.closed with
  | true => exact iff_of_true (returns_ok _) (.inl rfl)
  | false =>
    obtain ⟨xs, parts, hxs, -, hparts⟩ := parts_fit hcalls (slotCalls_fit s.toolCallSlots) rfl
    rw [if_neg Bool.false_ne_true, or_iff_right Bool.false_ne_true,
      Gen.returns_bind_total fun _ => returns_ok _, Gen.lift_result, hxs, Python.Py.bind_ok, hparts,
      Python.Py.bind_ok, returns_bind_total fun _ => returns_pure _,
      ClientRenderers.Gemini.finishReason, returns_bind_total fun _ => returns_pure _,
      returns_reason, finishFits]

theorem returns_stop {r : String} : Returns (ClientRenderers.Anthropic.stopReason
      (completion.finishReason.orElse (.str r)) completion.toolCalls) ↔
    completion.toolCalls.truthy = true ∨ finishFits completion = true := by
  rw [ClientRenderers.Anthropic.stopReason]
  cases completion.toolCalls.truthy with
  | true => exact iff_of_true (returns_ok _) (.inl rfl)
  | false =>
    rw [if_neg Bool.false_ne_true, or_iff_right Bool.false_ne_true,
      returns_bind_total fun _ => returns_pure _, returns_reason, finishFits]

theorem returns_callEvents {s : AnthropicRenderer} :
    Returns (ClientRenderers.Anthropic.toolCallEvents rt s call).result ↔ callFits call = true := by
  rw [ClientRenderers.Anthropic.toolCallEvents, Gen.returns_bind_total fun _ => returns_ok _,
    Gen.lift_result, returns_callStart]

/-- An Anthropic client's stream ends there too, and where there are tool calls. -/
theorem anthropic_finish {s : AnthropicRenderer} (hcalls : callsFit completion.toolCalls = true) :
    Returns (ClientRenderers.Anthropic.finish rt s completion).result ↔
      s.closed = true ∨ completion.toolCalls.truthy = true ∨ finishFits completion = true := by
  rw [ClientRenderers.Anthropic.finish]
  cases hclosed : s.closed with
  | true => exact iff_of_true (returns_ok _) (.inl rfl)
  | false =>
    rw [if_neg Bool.false_ne_true, or_iff_right Bool.false_ne_true,
      ClientRenderers.Anthropic.finishStream]
    refine (Gen.returns_bind_iff fun s _ => ?_).trans (and_iff_right (Anthropic.returns_start _ _))
    refine (Gen.returns_bind_iff fun s _ => ?_).trans (and_iff_right ?_)
    · refine (Gen.returns_bind_iff fun s _ => ?_).trans
        (and_iff_right (Anthropic.returns_closeText s))
      refine (Gen.returns_bind_iff fun s _ => ?_).trans (and_iff_right (returns_ok _))
      refine (Gen.returns_bind_iff fun s _ => ?_).trans (and_iff_right ?_)
      · exact (Gen.returns_bind_total fun _ => returns_ok _).trans returns_stop
      · split_ifs
        · obtain ⟨xs, hxs⟩ := iter_fit hcalls (d := .arr []) rfl
          have hall := elements_fit hcalls rfl hxs
          rw [hxs, Gen.lift_ok_bind]
          exact (Gen.returns_fold (fun c => callFits c = true) (fun _ _ _ => returns_callEvents)
            s).2 (List.all_eq_true.1 hall)
        · exact returns_ok _
    · split_ifs
      · exact Anthropic.returns_text _ _
      · exact returns_ok _

end Ends

end Varsten.Proxy.RendererShapes
