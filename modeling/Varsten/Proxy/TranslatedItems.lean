import Varsten.Proxy.Providers.Anthropic
import Varsten.Proxy.Providers.Gemini

/-!
# What the translators hand on

Every chunk of a translated stream carries one text, one whole tool call, or neither.
The texts and the calls, in order, are those the translator ends with.
-/

namespace Varsten.Proxy.TranslatedItems

open Python (Json Py PyError Gen Runtime)
open Providers (Out)

abbrev Fields := List (String × Json)

inductive Item where
  | other
  | text (t : String)
  | call (id name : Json) (arguments : String)

def toolFields (id name : Json) (arguments : String) : Fields :=
  [("id", id), ("type", .str "function"),
    ("function", .obj [("name", name), ("arguments", .str arguments)])]

def Item.shown : Item → String
  | .text t => t
  | _ => ""

def Item.parts : Item → List String
  | .text t => [t]
  | _ => []

def Item.calls : Item → List Json
  | .call id name arguments => [.obj (toolFields id name arguments)]
  | _ => []

def texts (items : List Item) : String := String.join (items.map Item.shown)

def calls (items : List Item) : List Json := items.flatMap Item.calls

def chunkJson (model : Json) (delta : Fields) (finish : Json) : Json :=
  .obj [("object", .str "chat.completion.chunk"), ("model", model),
    ("choices", .arr [.obj [("index", .int 0), ("delta", .obj delta),
      ("finish_reason", finish)]])]

def callDelta (n : ℕ) (id name : Json) (arguments : String) : Fields :=
  [("tool_calls", .arr [.obj (("index", .int n) :: toolFields id name arguments)])]

/-- The chunk of an item, after `n` tool calls. -/
inductive IsOut (n : ℕ) : Item → Out → Prop where
  | done : IsOut n .other .doneMarker
  | role (model : Json) :
    IsOut n .other (.chunk (chunkJson model [("role", .str "assistant")] .null))
  | finish (model finish : Json) : IsOut n .other (.chunk (chunkJson model [] finish))
  | text (model : Json) {t : String} (ht : t ≠ "") :
    IsOut n (.text t) (.chunk (chunkJson model [("content", .str t)] .null))
  | call (model id name : Json) (arguments : String) :
    IsOut n (.call id name arguments)
      (.chunk (chunkJson model (callDelta n id name arguments) .null))

inductive Items : ℕ → List Item → List Out → Prop where
  | nil {n : ℕ} : Items n [] []
  | cons {n : ℕ} {item : Item} {items : List Item} {out : Out} {outs : List Out}
    (head : IsOut n item out) (tail : Items (n + item.calls.length) items outs) :
    Items n (item :: items) (out :: outs)

theorem texts_append (xs ys : List Item) : texts (xs ++ ys) = texts xs ++ texts ys := by
  rw [texts, List.map_append, String.join_append]
  rfl

theorem calls_append (xs ys : List Item) : calls (xs ++ ys) = calls xs ++ calls ys :=
  List.flatMap_append

theorem Items.append {n : ℕ} {xs ys : List Item} {outs outs' : List Out} (h : Items n xs outs)
    (h' : Items (n + (calls xs).length) ys outs') : Items n (xs ++ ys) (outs ++ outs') := by
  induction h with
  | nil => exact h'
  | @cons n item items out outs head tail ih =>
    refine .cons head (ih ?_)
    rwa [calls, List.flatMap_cons, List.length_append, ← calls, ← Nat.add_assoc] at h'

def Translated (p : List String × List Json) (outs : List Out) (p' : List String × List Json) :
    Prop :=
  ∃ items, Items p.2.length items outs ∧ String.join p'.1 = String.join p.1 ++ texts items ∧
    p'.2 = p.2 ++ calls items

theorem Translated.refl (p : List String × List Json) : Translated p [] p :=
  ⟨[], .nil, by simp [texts], by simp [calls]⟩

theorem Translated.trans {p₁ p₂ p₃ : List String × List Json} {outs₁ outs₂ : List Out}
    (h₁ : Translated p₁ outs₁ p₂) (h₂ : Translated p₂ outs₂ p₃) :
    Translated p₁ (outs₁ ++ outs₂) p₃ := by
  obtain ⟨xs, hx, ht₁, hc₁⟩ := h₁
  obtain ⟨ys, hy, ht₂, hc₂⟩ := h₂
  refine ⟨xs ++ ys, hx.append ?_, ?_, ?_⟩
  · rwa [hc₁, List.length_append] at hy
  · rw [ht₂, ht₁, texts_append, String.append_assoc]
  · rw [hc₂, hc₁, calls_append, List.append_assoc]

theorem Translated.single {p : List String × List Json} {item : Item} {out : Out}
    (h : IsOut p.2.length item out) :
    Translated p [out] (p.1 ++ item.parts, p.2 ++ item.calls) := by
  refine ⟨[item], .cons h .nil, ?_, by simp [calls]⟩
  cases item with
  | text t => simp [texts, Item.shown, Item.parts]
  | _ => simp [texts, Item.shown, Item.parts]

theorem Translated.other {p : List String × List Json} {out : Out}
    (h : IsOut p.2.length .other out) : Translated p [out] p := by
  simpa [Item.parts, Item.calls] using Translated.single h

theorem Translated.text (p : List String × List Json) (model : Json) {t : String} (ht : t ≠ "") :
    Translated p [.chunk (chunkJson model [("content", .str t)] .null)] (p.1 ++ [t], p.2) := by
  simpa [Item.parts, Item.calls] using Translated.single (.text model ht)

theorem Translated.call (p : List String × List Json) (model id name : Json) (arguments : String) :
    Translated p [.chunk (chunkJson model (callDelta p.2.length id name arguments) .null)]
      (p.1, p.2 ++ [.obj (toolFields id name arguments)]) := by
  simpa [Item.parts, Item.calls] using Translated.single (.call model id name arguments)

/-! ## Anthropic -/

section Anthropic

open Providers.Anthropic

variable {rt : Runtime} {s s' : Translator} {outs : List Out} {payload : Json}

def collected (s : Translator) : List String × List Json := (s.parts, s.toolCalls)

/-- A step that keeps the finish reason. -/
def Stays (s : Translator) (outs : List Out) (s' : Translator) : Prop :=
  Translated (collected s) outs (collected s') ∧ s'.finishReason = s.finishReason

theorem Stays.trans {s₁ s₂ s₃ : Translator} {outs₁ outs₂ : List Out} (h₁ : Stays s₁ outs₁ s₂)
    (h₂ : Stays s₂ outs₂ s₃) : Stays s₁ (outs₁ ++ outs₂) s₃ :=
  ⟨h₁.1.trans h₂.1, h₂.2.trans h₁.2⟩

theorem ok_stays {s₁ : Translator} (h : Gen.ok s₁ = (⟨outs, .ok s'⟩ : Gen Out Translator))
    (hs : collected s₁ = collected s) (hf : s₁.finishReason = s.finishReason) :
    Stays s outs s' := by
  obtain rfl := congrArg Gen.out h
  obtain rfl := Except.ok.inj (congrArg Gen.result h)
  refine ⟨?_, hf⟩
  rw [hs]
  exact .refl _

theorem emitText_stays {text : Json} (ht : text.truthy = true)
    (h : emitText rt s text = ⟨outs, .ok s'⟩) : Stays s outs s' := by
  obtain rfl := congrArg Gen.out h
  obtain rfl := Except.ok.inj (congrArg Gen.result h)
  exact ⟨.text (collected s) s.model (Json.str_ne_of_truthy rt ht), rfl⟩

theorem messageStart_stays (h : handleMessageStart s payload = ⟨outs, .ok s'⟩) :
    Stays s outs s' := by
  obtain ⟨out₁, out₂, s₁, h₁, h₂, rfl⟩ := Gen.bind_eq h
  have hkeep := congrArg Gen.result h₁
  simp only [Gen.lift, Py.bind_eq_ok] at hkeep
  obtain ⟨_, _, _, _, _, _, _, _, hs⟩ := hkeep
  obtain rfl := Except.ok.inj hs
  obtain rfl : [] = out₁ := congrArg Gen.out h₁
  obtain rfl := congrArg Gen.out h₂
  obtain rfl := Except.ok.inj (congrArg Gen.result h₂)
  exact ⟨.other (.role _), rfl⟩

theorem blockStart_stays (h : handleContentBlockStart rt s payload = ⟨outs, .ok s'⟩) :
    Stays s outs s' := by
  obtain ⟨out₁, out₂, ⟨i, block⟩, h₁, h₂, rfl⟩ := Gen.bind_eq h
  obtain rfl : [] = out₁ := congrArg Gen.out h₁
  cases block with
  | obj fields =>
    dsimp only at h₂
    split_ifs at h₂ with htext htool
    · exact emitText_stays htext.2 h₂
    · exact ok_stays h₂ rfl rfl
    · exact ok_stays h₂ rfl rfl
  | _ => cases congrArg Gen.result h₂

theorem blockDelta_stays (h : handleContentBlockDelta rt s payload = ⟨outs, .ok s'⟩) :
    Stays s outs s' := by
  obtain ⟨out₁, out₂, ⟨i, delta⟩, h₁, h₂, rfl⟩ := Gen.bind_eq h
  obtain rfl : [] = out₁ := congrArg Gen.out h₁
  cases delta with
  | obj fields =>
    dsimp only at h₂
    split_ifs at h₂ with htext hinput
    · exact emitText_stays htext.2 h₂
    · exact ok_stays h₂ rfl rfl
    · exact ok_stays h₂ rfl rfl
  | _ => cases congrArg Gen.result h₂

theorem blockStop_stays (h : handleContentBlockStop rt s payload = ⟨outs, .ok s'⟩) :
    Stays s outs s' := by
  obtain ⟨out₁, out₂, i, h₁, h₂, rfl⟩ := Gen.bind_eq h
  obtain rfl : [] = out₁ := congrArg Gen.out h₁
  cases hb : blockAt i s.toolBlocks with
  | none =>
    rw [hb] at h₂
    exact ok_stays h₂ rfl rfl
  | some block =>
    rw [hb] at h₂
    obtain rfl := congrArg Gen.out h₂
    obtain rfl := Except.ok.inj (congrArg Gen.result h₂)
    exact ⟨.call (collected s) s.model _ _ _, rfl⟩

def Hashable (j : Json) : Prop := ∃ k, Json.hashKey j = .ok k

theorem hashable_str (r : String) : Hashable (.str r) := ⟨_, rfl⟩

theorem hashable_of_plain {j : Json} (ha : ∀ xs, j ≠ .arr xs) (ho : ∀ fields, j ≠ .obj fields) :
    Hashable j := by
  cases j with
  | arr xs => exact absurd rfl (ha xs)
  | obj fields => exact absurd rfl (ho fields)
  | _ => exact ⟨_, rfl⟩

theorem finishReason_hashable {reason finish : Json} (h : openaiFinishReason reason = .ok finish) :
    Hashable finish := by
  rw [openaiFinishReason] at h
  split at h
  · cases h
  · cases h
  · exact Except.ok.inj h ▸ hashable_str _
  · exact Except.ok.inj h ▸ hashable_str _
  · exact Except.ok.inj h ▸ hashable_str _
  · exact Except.ok.inj h ▸ hashable_str _
  · rename_i ha ho _ _ _ _
    rw [← Except.ok.inj h]
    by_cases ht : reason.truthy = true
    · simp only [Json.orElse, ht, if_true] at ha ho ⊢
      exact hashable_of_plain (fun xs => ha xs) (fun fields => ho fields)
    · rw [Json.orElse, if_neg ht]
      exact hashable_str _

theorem deltaFinish_hashable {reason finish : Json} (h : deltaFinish reason = .ok finish) :
    Hashable finish := by
  rw [deltaFinish] at h
  split_ifs at h
  · exact finishReason_hashable h
  · exact Except.ok.inj h ▸ hashable_str _

/-- What every step does: the chunks are accounted for, and the finish reason stays hashable. -/
def Advances (s : Translator) (outs : List Out) (s' : Translator) : Prop :=
  Translated (collected s) outs (collected s') ∧
    (Hashable s.finishReason → Hashable s'.finishReason)

theorem Advances.trans {s₁ s₂ s₃ : Translator} {outs₁ outs₂ : List Out}
    (h₁ : Advances s₁ outs₁ s₂) (h₂ : Advances s₂ outs₂ s₃) : Advances s₁ (outs₁ ++ outs₂) s₃ :=
  ⟨h₁.1.trans h₂.1, fun h => h₂.2 (h₁.2 h)⟩

theorem Stays.advances (h : Stays s outs s') : Advances s outs s' := ⟨h.1, fun hs => h.2 ▸ hs⟩

theorem messageDelta_advances (h : handleMessageDelta s payload = .ok s') :
    Advances s [] s' := by
  simp only [handleMessageDelta, Py.bind_eq_ok] at h
  obtain ⟨_, _, _, _, _, _, _, _, finish, hfinish, h⟩ := h
  obtain rfl := Except.ok.inj h
  exact ⟨.refl _, fun _ => deltaFinish_hashable hfinish⟩

theorem anthropic_event (h : handleEvent rt s payload = ⟨outs, .ok s'⟩) : Advances s outs s' := by
  obtain ⟨out₁, out₂, type, h₁, h₂, rfl⟩ := Gen.bind_eq h
  obtain rfl : [] = out₁ := congrArg Gen.out h₁
  rw [List.nil_append]
  split at h₂
  · exact (messageStart_stays h₂).advances
  · exact (blockStart_stays h₂).advances
  · exact (blockDelta_stays h₂).advances
  · exact (blockStop_stays h₂).advances
  · obtain rfl := congrArg Gen.out h₂
    exact messageDelta_advances (congrArg Gen.result h₂)
  · obtain rfl := congrArg Gen.out h₂
    obtain rfl := Except.ok.inj (congrArg Gen.result h₂)
    exact ⟨(Translated.other (.finish _ _)).trans (.other .done), id⟩
  · exact (ok_stays h₂ rfl rfl).advances

theorem anthropic_events {js : List Json} (h : handleEvents rt s js = ⟨outs, .ok s'⟩) :
    Advances s outs s' :=
  Gen.fold_relates (R := Advances) (fun _ => ⟨.refl _, id⟩) Advances.trans anthropic_event h

end Anthropic

/-! ## Gemini -/

section Gemini

open Providers.Gemini

variable {rt : Runtime} {s s' : Translator} {outs : List Out} {payload : Json}

def gathered (s : Translator) : List String × List Json := (s.parts, s.toolCalls)

theorem gemini_part {part : Json} (h : handlePart rt s part = ⟨outs, .ok s'⟩) :
    Translated (gathered s) outs (gathered s') := by
  cases part with
  | obj fields =>
    rw [handlePart] at h
    split_ifs at h with ht hc
    · obtain rfl := congrArg Gen.out h
      obtain rfl := Except.ok.inj (congrArg Gen.result h)
      exact .text (gathered s) _ (Json.str_ne_of_truthy rt ht)
    · obtain ⟨out₁, out₂, tool, h₁, h₂, rfl⟩ := Gen.bind_eq h
      obtain rfl : [] = out₁ := congrArg Gen.out h₁
      have htool := congrArg Gen.result h₁
      simp only [Gen.lift, geminiToolCall, Py.bind_eq_ok] at htool
      obtain ⟨_, _, _, _, htool⟩ := htool
      obtain rfl := Except.ok.inj htool
      obtain rfl := congrArg Gen.out h₂
      obtain rfl := Except.ok.inj (congrArg Gen.result h₂)
      exact .call (gathered s) (.str s.model) _ _ _
    · obtain rfl := congrArg Gen.out h
      obtain rfl := Except.ok.inj (congrArg Gen.result h)
      exact .refl _
  | _ =>
    obtain rfl := congrArg Gen.out h
    obtain rfl := Except.ok.inj (congrArg Gen.result h)
    exact .refl _

theorem gemini_finish {reason : Json} (h : handleFinish s reason = ⟨outs, .ok s'⟩) :
    Translated (gathered s) outs (gathered s') := by
  rw [handleFinish] at h
  split_ifs at h
  · obtain ⟨out₁, out₂, finish, h₁, h₂, rfl⟩ := Gen.bind_eq h
    obtain rfl : [] = out₁ := congrArg Gen.out h₁
    obtain rfl := congrArg Gen.out h₂
    obtain rfl := Except.ok.inj (congrArg Gen.result h₂)
    exact (Translated.other (.finish _ _)).trans (.other .done)
  · obtain rfl := congrArg Gen.out h
    obtain rfl := Except.ok.inj (congrArg Gen.result h)
    exact .refl _

theorem gemini_candidate {candidate : Json} (h : handleCandidate rt s candidate = ⟨outs, .ok s'⟩) :
    Translated (gathered s) outs (gathered s') := by
  rw [handleCandidate] at h
  split_ifs at h
  · obtain ⟨out₁, out₂, parts, h₁, h₂, rfl⟩ := Gen.bind_eq h
    obtain rfl : [] = out₁ := congrArg Gen.out h₁
    obtain ⟨out₃, out₄, s₁, hparts, h₄, rfl⟩ := Gen.bind_eq h₂
    obtain ⟨out₅, out₆, reason, h₅, h₆, rfl⟩ := Gen.bind_eq h₄
    obtain rfl : [] = out₅ := congrArg Gen.out h₅
    have hp := Gen.fold_relates (R := fun s outs s' => Translated (gathered s) outs (gathered s'))
      (fun _ => .refl _) Translated.trans gemini_part hparts
    exact hp.trans (gemini_finish h₆)
  · obtain rfl := congrArg Gen.out h
    obtain rfl := Except.ok.inj (congrArg Gen.result h)
    exact .refl _

theorem gemini_payload (h : handlePayload rt s payload = ⟨outs, .ok s'⟩) :
    Translated (gathered s) outs (gathered s') := by
  obtain ⟨out₁, out₂, ⟨s₁, candidates⟩, h₁, h₂, rfl⟩ := Gen.bind_eq h
  obtain rfl : [] = out₁ := congrArg Gen.out h₁
  have hhead := congrArg Gen.result h₁
  simp only [Gen.lift, payloadHead, Py.bind_eq_ok] at hhead
  obtain ⟨_, _, _, _, _, _, _, _, _, _, _, _, hhead⟩ := hhead
  have hs : gathered s₁ = gathered s := by
    rw [← (Prod.mk.inj (Except.ok.inj hhead)).1]
    rfl
  rw [← hs]
  exact Gen.fold_relates (R := fun s outs s' => Translated (gathered s) outs (gathered s'))
    (fun _ => .refl _) Translated.trans gemini_candidate h₂

theorem gemini_payloads {js : List Json} (h : handlePayloads rt s js = ⟨outs, .ok s'⟩) :
    Translated (gathered s) outs (gathered s') :=
  Gen.fold_relates (R := fun s outs s' => Translated (gathered s) outs (gathered s'))
    (fun _ => .refl _) Translated.trans gemini_payload h

end Gemini

end Varsten.Proxy.TranslatedItems
