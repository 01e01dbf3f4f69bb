import Varsten.Proxy.Providers.Anthropic
import Varsten.Proxy.Providers.Gemini
import Varsten.Proxy.Providers.OpenAI
import Varsten.Python.Returns

/-!
# The shapes that translators read

Which events the translators of the three providers handle without raising.
-/

namespace Varsten.Proxy.StreamShapes

open Python (Json Py Gen Runtime Returns returns_ok not_returns_error returns_bind_iff
  returns_bind_total returns_pure returns_foldlM)
open Python.Json
open Providers (CanonicalUsage Out)

/-- A count that `int` reads, where there is one. -/
def countFits (usage : Json) (k : String) : Bool := (usage.val k).orDefault isNumeral

theorem returns_count {α : Type} {fields : List (String × Json)} {k : String} {f : ℤ → Py α}
    {g : Py α} {P : Prop} (hf : ∀ n, Returns (f n) ↔ P) (hg : Returns g ↔ P) :
    Returns (match item k fields with
      | some n => (n.orElse (.int 0)).toInt >>= f
      | none => g) ↔ countFits (.obj fields) k = true ∧ P := by
  rw [countFits, val_obj]
  cases item k fields with
  | none => exact hg.trans (iff_and_self.2 fun _ => rfl)
  | some n => exact (returns_bind_iff fun n _ => hf n).trans (and_congr_left' returns_toInt_orElse)

namespace Anthropic

open Providers.Anthropic

variable {rt : Runtime} {s : Translator} {ev usage : Json} {previous : CanonicalUsage}

def usageFits (usage : Json) : Bool :=
  usage.orDefault fun usage => usage.isDict &&
    ["cache_read_input_tokens", "cache_creation_input_tokens", "input_tokens",
      "output_tokens"].all (countFits usage)

theorem returns_usage :
    Returns (usageFromAnthropic usage previous) ↔ usageFits usage = true := by
  rw [usageFromAnthropic, usageFits, orDefault]
  cases htruthy : usage.truthy with
  | false => exact iff_of_true (returns_ok _) rfl
  | true =>
    cases usage with
    | obj fields =>
      simp only [Bool.not_true, Bool.false_eq_true, if_false, Json.get, Python.Py.bind_ok, member]
      have hpure : ∀ u : CanonicalUsage, Returns (pure u) ↔ True :=
        fun u => iff_true_intro (returns_pure u)
      refine (returns_bind_iff fun _ _ => returns_bind_iff fun _ _ => returns_count
        (fun _ => returns_count (fun _ => hpure _) (hpure _))
        (returns_count (fun _ => hpure _) (hpure _))).trans ?_
      rw [returns_toInt_orElse, returns_toInt_orElse]
      simp [countFits, isDict]
    | _ => exact iff_of_false (not_returns_error _) Bool.false_ne_true

theorem returns_finishReason {reason : Json} :
    Returns (openaiFinishReason reason) ↔ reason.orDefault isHashable = true := by
  have hfits : (reason.orElse (.str "")).isHashable = reason.orDefault isHashable :=
    orElse_fits isHashable rfl
  rw [openaiFinishReason, ← hfits]
  cases reason.orElse (.str "") with
  | arr xs => exact iff_of_false (not_returns_error _) Bool.false_ne_true
  | obj fields => exact iff_of_false (not_returns_error _) Bool.false_ne_true
  | str t =>
    refine iff_of_true ?_ rfl
    split
    case h_1 h => cases h
    case h_2 h => cases h
    all_goals exact returns_ok _
  | _ => exact iff_of_true (returns_ok _) rfl

def indexFits (ev : Json) : Bool := (ev.val "index").orDefault isNumeral

def bodyFits (ev : Json) : Json → Bool
  | .str "message_start" =>
    (ev.val "message").orDefault isDict && usageFits ((ev.val "message").val "usage")
  | .str "content_block_start" => indexFits ev && (ev.val "content_block").orDefault isDict
  | .str "content_block_delta" => indexFits ev && (ev.val "delta").orDefault isDict
  | .str "content_block_stop" => indexFits ev
  | .str "message_delta" => usageFits (ev.val "usage") && ((ev.val "delta").orDefault isDict &&
      ((ev.val "delta").val "stop_reason").orDefault isHashable)
  | _ => true

def eventFits (ev : Json) : Bool := ev.isDict && bodyFits ev (ev.val "type")

theorem returns_messageStart (hd : ev.isDict = true) :
    Returns (handleMessageStart s ev).result ↔
      (ev.val "message").orDefault isDict = true ∧
        usageFits ((ev.val "message").val "usage") = true := by
  rw [handleMessageStart, Gen.returns_bind_total fun s => returns_ok s]
  refine (get_bind _).trans ?_
  rw [get_orElse_bind, get_orElse_bind, returns_bind_total fun _ => returns_pure _, returns_usage]
  simp [hd]

theorem returns_index (hd : ev.isDict = true) : Returns (index ev) ↔ indexFits ev = true := by
  rw [index, get_bind, returns_toInt_orElse, indexFits]
  simp [hd]

theorem returns_indexed {k : String} {f : ℤ × Json → Gen Out Translator} (hd : ev.isDict = true)
    (hf : ∀ i block, Returns (f (i, block)).result ↔ block.isDict = true) :
    Returns ((Gen.lift (do return (← index ev, (← ev.get k).orElse (.obj [])))).bind f).result ↔
      indexFits ev = true ∧ (ev.val k).orDefault isDict = true := by
  have hblock : ((ev.val k).orElse (.obj [])).isDict = (ev.val k).orDefault isDict :=
    orElse_fits isDict rfl
  have hindex := returns_index hd
  cases ev with
  | obj fields =>
    cases hi : index (.obj fields) with
    | error e =>
      rw [hi] at hindex
      exact iff_of_false (not_returns_error e) fun h => not_returns_error e (hindex.2 h.1)
    | ok i =>
      rw [hi] at hindex
      have hread : indexFits (.obj fields) = true := hindex.1 (returns_ok i)
      rw [and_iff_right hread, ← hblock]
      exact hf i _
  | _ => cases hd

theorem returns_blockStart (hd : ev.isDict = true) :
    Returns (handleContentBlockStart rt s ev).result ↔
      indexFits ev = true ∧ (ev.val "content_block").orDefault isDict = true := by
  refine returns_indexed hd fun i block => ?_
  cases block with
  | obj fields =>
    refine iff_of_true ?_ rfl
    dsimp only
    split_ifs <;> exact returns_ok _
  | _ => exact iff_of_false (not_returns_error _) Bool.false_ne_true

theorem returns_blockDelta (hd : ev.isDict = true) :
    Returns (handleContentBlockDelta rt s ev).result ↔
      indexFits ev = true ∧ (ev.val "delta").orDefault isDict = true := by
  refine returns_indexed hd fun i delta => ?_
  cases delta with
  | obj fields =>
    refine iff_of_true ?_ rfl
    dsimp only
    split_ifs <;> exact returns_ok _
  | _ => exact iff_of_false (not_returns_error _) Bool.false_ne_true

theorem returns_blockStop (hd : ev.isDict = true) :
    Returns (handleContentBlockStop rt s ev).result ↔ indexFits ev = true := by
  rw [handleContentBlockStop, Gen.returns_bind_total fun i => ?_]
  · exact returns_index hd
  · cases blockAt i s.toolBlocks <;> exact returns_ok _

theorem returns_messageDelta (hd : ev.isDict = true) : Returns (handleMessageDelta s ev) ↔
    usageFits (ev.val "usage") = true ∧ (ev.val "delta").orDefault isDict = true ∧
      ((ev.val "delta").val "stop_reason").orDefault isHashable = true := by
  have hfinish : ∀ reason, Returns (deltaFinish reason) ↔ reason.orDefault isHashable = true := by
    intro reason
    rw [deltaFinish]
    cases htruthy : reason.truthy with
    | false => exact iff_of_true (returns_ok _) (by simp [orDefault, htruthy])
    | true => exact returns_finishReason
  rw [handleMessageDelta, get_bind, and_iff_right hd, returns_bind_iff fun usage _ => ?_,
    returns_usage]
  rw [get_bind, and_iff_right hd, get_orElse_bind, returns_bind_total fun _ => returns_pure _,
    hfinish]

theorem returns_event : Returns (handleEvent rt s ev).result ↔ eventFits ev = true := by
  rw [eventFits, Bool.and_eq_true]
  cases hd : ev.isDict with
  | false =>
    cases ev with
    | obj fields => cases hd
    | _ => exact iff_of_false (not_returns_error _) fun h => Bool.false_ne_true h.1
  | true =>
    rw [and_iff_right rfl]
    rw [handleEvent, get_of_dict hd, Gen.lift_ok_bind]
    generalize ev.val "type" = type
    split
    · rw [returns_messageStart hd, bodyFits, Bool.and_eq_true]
    · rw [returns_blockStart hd, bodyFits, Bool.and_eq_true]
    · rw [returns_blockDelta hd, bodyFits, Bool.and_eq_true]
    · rw [returns_blockStop hd, bodyFits]
    · rw [bodyFits, Bool.and_eq_true, Bool.and_eq_true]
      exact returns_messageDelta hd
    · exact iff_of_true (returns_ok _) rfl
    · refine iff_of_true (returns_ok _) ?_
      unfold bodyFits
      split <;> simp_all

end Anthropic

namespace Gemini

open Providers.Gemini

variable {rt : Runtime} {s : Translator} {part candidate payload : Json} {previous : CanonicalUsage}

def usageFits (usage : Json) : Bool :=
  usage.orDefault fun usage => usage.isDict &&
    ["cachedContentTokenCount", "promptTokenCount", "candidatesTokenCount"].all (countFits usage)

theorem returns_usage {usage : Json} :
    Returns (usageFromMetadata usage previous) ↔ usageFits usage = true := by
  rw [usageFromMetadata, usageFits, orDefault]
  cases htruthy : usage.truthy with
  | false => exact iff_of_true (returns_ok _) rfl
  | true =>
    cases usage with
    | obj fields =>
      simp only [Bool.not_true, Bool.false_eq_true, if_false, Json.get, Python.Py.bind_ok]
      refine (returns_bind_iff fun _ _ => returns_bind_iff fun _ _ =>
        returns_bind_total fun _ => returns_pure _).trans ?_
      rw [returns_toInt_orElse, returns_toInt_orElse, returns_toInt_orElse]
      simp [countFits, isDict]
    | _ => exact iff_of_false (not_returns_error _) Bool.false_ne_true

theorem returns_modelName {raw : Json} :
    Returns (modelName raw) ↔ raw.orDefault isText = true := by
  have hfits : (raw.orElse (.str "")).isText = raw.orDefault isText := orElse_fits isText rfl
  rw [modelName, ← hfits]
  cases raw.orElse (.str "") with
  | str t => exact iff_of_true (returns_ok _) rfl
  | _ => exact iff_of_false (not_returns_error _) Bool.false_ne_true

theorem returns_finishReason {reason : Json} :
    Returns (finishReason reason) ↔ reason.orDefault isHashable = true := by
  have hfits : (reason.orElse (.str "")).isHashable = reason.orDefault isHashable :=
    orElse_fits isHashable rfl
  rw [finishReason, ← hfits]
  cases reason.orElse (.str "") with
  | arr xs => exact iff_of_false (not_returns_error _) Bool.false_ne_true
  | obj fields => exact iff_of_false (not_returns_error _) Bool.false_ne_true
  | str t =>
    refine iff_of_true ?_ rfl
    split
    case h_1 h => cases h
    case h_2 h => cases h
    all_goals exact returns_ok _
  | _ => exact iff_of_true (returns_ok _) rfl

theorem returns_toolCall {call : Json} :
    Returns (geminiToolCall rt call) ↔ call.isDict = true := by
  rw [geminiToolCall, get_bind, get_bind, and_iff_left_of_imp fun h => ⟨h, returns_pure _⟩]

def partFits (part : Json) : Bool :=
  (part.val "text").truthy || (part.val "functionCall").orDefault isDict

theorem returns_part : Returns (handlePart rt s part).result ↔ partFits part = true := by
  cases part with
  | obj fields =>
    rw [handlePart, partFits, val_obj, val_obj, orDefault]
    cases htext : ((item "text" fields).getD .null).truthy with
    | true => exact iff_of_true (returns_ok _) rfl
    | false =>
      cases hcall : ((item "functionCall" fields).getD .null).truthy with
      | false => exact iff_of_true (returns_ok _) rfl
      | true => exact (Gen.returns_bind_total fun _ => returns_ok _).trans returns_toolCall
  | _ => exact iff_of_true (returns_ok _) rfl

/-- What a loop over `j or []` visits. -/
def items (j : Json) : List Json := (j.orElse (.arr [])).elements

def candidateFits (candidate : Json) : Bool :=
  let content := candidate.val "content"
  content.orDefault isDict && ((content.val "parts").orDefault isIterable &&
    ((items (content.val "parts")).all partFits &&
      (candidate.val "finishReason").orDefault isHashable))

theorem returns_finish {reason : Json} :
    Returns (handleFinish s reason).result ↔ reason.orDefault isHashable = true := by
  rw [handleFinish]
  cases htruthy : reason.truthy with
  | false => exact iff_of_true (returns_ok _) (by simp [orDefault, htruthy])
  | true => exact (Gen.returns_bind_total fun _ => returns_ok _).trans returns_finishReason

theorem returns_parts (parts : List Json) :
    Returns (handleParts rt s parts).result ↔ parts.all partFits = true := by
  rw [List.all_eq_true]
  exact Gen.returns_fold (fun part => partFits part = true) (fun _ _ _ => returns_part) s

theorem returns_candidateParts (hd : candidate.isDict = true) :
    Returns (candidateParts candidate) ↔ (candidate.val "content").orDefault isDict = true ∧
      ((candidate.val "content").val "parts").orDefault isIterable = true := by
  rw [candidateParts, get_bind, and_iff_right hd, get_orElse_bind, returns_iter_orElse]

theorem candidateParts_eq {parts : List Json} (h : candidateParts candidate = .ok parts) :
    parts = items ((candidate.val "content").val "parts") := by
  obtain ⟨content, hcontent, h⟩ := Python.Py.bind_eq_ok.1 h
  obtain ⟨v, hv, h⟩ := Python.Py.bind_eq_ok.1 h
  rw [get_eq_ok hv, get_eq_ok hcontent, val_orElse_empty] at h
  exact iter_eq h

theorem returns_candidate :
    Returns (handleCandidate rt s candidate).result ↔ candidateFits candidate = true := by
  rw [handleCandidate]
  cases hd : candidate.isDict with
  | false =>
    have hnone : ∀ k, candidate.val k = .null := val_of_not_dict hd
    refine iff_of_true (returns_ok _) ?_
    simp only [candidateFits, hnone]
    rfl
  | true =>
    rw [if_pos rfl, Gen.returns_bind_iff (P := (items ((candidate.val "content").val "parts")).all
      partFits = true ∧ (candidate.val "finishReason").orDefault isHashable = true)]
    · simp only [candidateFits, Bool.and_eq_true]
      exact (and_congr_left' (returns_candidateParts hd)).trans and_assoc
    · intro parts hparts
      rw [candidateParts_eq hparts, Gen.returns_bind_iff (P :=
        (candidate.val "finishReason").orDefault isHashable = true), returns_parts]
      intro s _
      cases candidate with
      | obj fields => exact returns_finish
      | _ => cases hd

theorem returns_candidates (candidates : List Json) :
    Returns (handleCandidates rt s candidates).result ↔ candidates.all candidateFits = true := by
  rw [List.all_eq_true]
  exact Gen.returns_fold (fun c => candidateFits c = true) (fun _ _ _ => returns_candidate) s

def eventFits (payload : Json) : Bool :=
  payload.isDict && ((payload.val "modelVersion").orDefault isText &&
    (usageFits (payload.val "usageMetadata") && ((payload.val "candidates").orDefault isIterable &&
      (items (payload.val "candidates")).all candidateFits)))

theorem payloadHead_eq {r : Translator × List Json} (h : payloadHead s payload = .ok r) :
    r.2 = items (payload.val "candidates") := by
  obtain ⟨_, -, h⟩ := Python.Py.bind_eq_ok.1 h
  obtain ⟨_, -, h⟩ := Python.Py.bind_eq_ok.1 h
  obtain ⟨_, -, h⟩ := Python.Py.bind_eq_ok.1 h
  obtain ⟨_, -, h⟩ := Python.Py.bind_eq_ok.1 h
  obtain ⟨v, hv, h⟩ := Python.Py.bind_eq_ok.1 h
  obtain ⟨candidates, hcandidates, h⟩ := Python.Py.bind_eq_ok.1 h
  obtain rfl := Except.ok.inj h
  rw [get_eq_ok hv] at hcandidates
  exact iter_eq hcandidates

theorem returns_payloadHead : Returns (payloadHead s payload) ↔ payload.isDict = true ∧
    (payload.val "modelVersion").orDefault isText = true ∧
      usageFits (payload.val "usageMetadata") = true ∧
        (payload.val "candidates").orDefault isIterable = true := by
  rw [payloadHead, get_bind]
  refine and_congr_right fun hd => ?_
  rw [returns_bind_iff fun _ _ => ?_, returns_modelName]
  rw [get_bind, and_iff_right hd, returns_bind_iff fun _ _ => ?_, returns_usage]
  rw [get_bind, and_iff_right hd, returns_bind_total fun _ => returns_pure _, returns_iter_orElse]

theorem returns_event : Returns (handlePayload rt s payload).result ↔ eventFits payload = true := by
  rw [handlePayload, Gen.returns_bind_iff (P :=
    (items (payload.val "candidates")).all candidateFits = true)]
  · simp only [eventFits, Bool.and_eq_true]
    refine (and_congr_left' returns_payloadHead).trans ?_
    simp only [and_assoc]
  · rintro ⟨s, candidates⟩ hhead
    rw [← payloadHead_eq hhead]
    exact returns_candidates candidates

end Gemini

end Varsten.Proxy.StreamShapes
