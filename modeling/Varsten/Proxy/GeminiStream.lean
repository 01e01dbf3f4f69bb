import Varsten.Proxy.Providers.Gemini
import Varsten.Proxy.Reports

/-!
# Gemini streams of one message

A message of one candidate and the payloads that stream it. The parts may be split
over the payloads in any way and the texts into any pieces.
-/

namespace Varsten.Proxy.GeminiStream

open Python (Json Py PyError Gen Runtime)
open Python.Json (HasItems truthy_str str_orElse_empty obj_orElse_empty)
open Providers (CanonicalUsage CanonicalCompletion Out)
open Providers.Gemini
open Reports

variable {rt : Runtime} {s : Translator} {j : Json}

/-! ## Usage metadata -/

structure Metadata where
  prompt : Option ℕ
  candidates : Option ℕ
  cached : Option ℕ
deriving DecidableEq

/-- A JSON number, or none: no key or `null`. -/
def IsCount (n : Option ℕ) (v : Json) : Prop := v = (n.map fun n => Json.int n).getD .null

/-- The metadata object; one that reports nothing may be missing. -/
def Metadata.Renders (u : Metadata) (j : Json) : Prop :=
  (j.isDict = true ∨ j = .null) ∧ IsCount u.prompt (j.val "promptTokenCount") ∧
    IsCount u.candidates (j.val "candidatesTokenCount") ∧
    IsCount u.cached (j.val "cachedContentTokenCount")

def orPrevious (n : Option ℕ) (previous : ℤ) : ℤ := if n.getD 0 = 0 then previous else n.getD 0

def Metadata.apply (u : Metadata) (previous : CanonicalUsage) : CanonicalUsage :=
  ⟨orPrevious u.prompt previous.inputTokens, orPrevious u.candidates previous.outputTokens,
    orPrevious u.cached previous.providerCachedInputTokens⟩

theorem count_toInt {n : Option ℕ} {v : Json} (h : IsCount n v) (previous : ℤ) :
    (v.orElse (.int previous)).toInt = .ok (orPrevious n previous) := by
  obtain rfl := h
  cases n with
  | none => rfl
  | some n =>
    simp only [Option.getD_some, orPrevious, Json.orElse, Json.truthy]
    by_cases hn : n = 0
    · simp [hn, Json.toInt]
    · simp [hn, Json.toInt]

theorem usageFromMetadata_eq {u : Metadata} (h : u.Renders j) (previous : CanonicalUsage) :
    usageFromMetadata j previous = .ok (u.apply previous) := by
  obtain ⟨hj, hp, hc, hr⟩ := h
  unfold usageFromMetadata
  by_cases ht : j.truthy = true
  · obtain ⟨fields, rfl⟩ : ∃ fields, j = .obj fields := by
      rcases hj with hj | rfl
      · cases j <;> first | exact ⟨_, rfl⟩ | cases hj
      · cases ht
    have hget : ∀ k, (Json.obj fields).get k = .ok ((Json.obj fields).val k) := fun k => rfl
    simp only [ht, Bool.not_true, Bool.false_eq_true, if_false, hget, Py.bind_ok, count_toInt hp,
      count_toInt hc, count_toInt hr]
    rfl
  · have hval : ∀ k, j.val k = .null := by
      intro k
      rcases hj with hj | rfl
      · cases j with
        | obj fields =>
          cases fields with
          | nil => rfl
          | cons f fields => exact absurd rfl ht
        | _ => cases hj
      · rfl
    have hnone : ∀ {n : Option ℕ} {k : String}, IsCount n (j.val k) → n.getD 0 = 0 := by
      intro n k hn
      rw [IsCount, hval] at hn
      cases n <;> first | rfl | cases hn
    simp only [Bool.not_eq_true] at ht
    simp [ht, Metadata.apply, orPrevious, hnone hp, hnone hc, hnone hr]

def total (us : List Metadata) : CanonicalUsage := us.foldl (fun p u => u.apply p) .zero

theorem total_concat (us : List Metadata) (u : Metadata) :
    total (us ++ [u]) = u.apply (total us) := by
  simp [total]

theorem total_eq {us : List Metadata} (hp : Cumulative Metadata.prompt us)
    (hc : Cumulative Metadata.candidates us) (hr : Cumulative Metadata.cached us) :
    total us = ⟨final Metadata.prompt us, final Metadata.candidates us,
      final Metadata.cached us⟩ := by
  have h₁ := keep_nonzero (f := fun us => (total us).inputTokens) rfl
    (fun us u => by rw [total_concat]; rfl) hp
  have h₂ := keep_nonzero (f := fun us => (total us).outputTokens) rfl
    (fun us u => by rw [total_concat]; rfl) hc
  have h₃ := keep_nonzero (f := fun us => (total us).providerCachedInputTokens) rfl
    (fun us u => by rw [total_concat]; rfl) hr
  rw [← h₁, ← h₂, ← h₃]

/-! ## Parts -/

inductive Part where
  | text (text : String)
  | call (name : String) (args : List (String × Json))

def IsPart : Part → Json → Prop
  | .text text, j => ∃ fields, j = .obj fields ∧ Json.item "text" fields = some (.str text) ∧
      Json.item "functionCall" fields = none
  | .call name args, j => ∃ fields call, j = .obj fields ∧ Json.item "text" fields = none ∧
      Json.item "functionCall" fields = some call ∧
      HasItems call [("name", .str name), ("args", .obj args)]

/-- The parts of a content object; one without parts may lack the list, or be missing. -/
def IsContent (ps : List Part) (content : Json) : Prop :=
  (ps = [] ∧ (content = .null ∨ content.isDict = true ∧ content.val "parts" = .null)) ∨
    ∃ js, content.isDict = true ∧ content.val "parts" = .arr js ∧ List.Forall₂ IsPart ps js

abbrev Reason := {r : String // r ≠ ""}

def IsReason (reason : Option Reason) (v : Json) : Prop :=
  v = (reason.map fun r => Json.str r.1).getD .null

def IsCandidate (ps : List Part) (reason : Option Reason) (j : Json) : Prop :=
  j.isDict = true ∧ IsContent ps (j.val "content") ∧ IsReason reason (j.val "finishReason")

def toolCall (rt : Runtime) (name : String) (args : List (String × Json)) : Json :=
  .obj [("id", .str ("call_" ++ rt.str ((Json.str name).orElse (.str "gemini")))),
    ("type", .str "function"),
    ("function", .obj [("name", .str name), ("arguments", .str (rt.dumps (.obj args)))])]

theorem geminiToolCall_eq (rt : Runtime) {call : Json} {name : String} {args : List (String × Json)}
    (h : HasItems call [("name", .str name), ("args", .obj args)]) :
    ∃ fields, geminiToolCall rt call = .ok fields ∧ .obj fields = toolCall rt name args := by
  rw [geminiToolCall, h.get (k := "name") (v := .str name) (by simp),
    h.get (k := "args") (v := .obj args) (by simp)]
  refine ⟨_, rfl, ?_⟩
  simp only [toolCall, str_orElse_empty, obj_orElse_empty]

def Part.shownText : Part → String
  | .text t => t
  | .call .. => ""

def Part.toolCalls (rt : Runtime) : Part → List Json
  | .text _ => []
  | .call name args => [toolCall rt name args]

def partsText (ps : List Part) : String := String.join (ps.map Part.shownText)

def partsCalls (rt : Runtime) (ps : List Part) : List Json := ps.flatMap (Part.toolCalls rt)

/-! ## Runs -/

structure Holds (s : Translator) (text : String) (calls : List Json) (model finish : String)
    (usage : CanonicalUsage) : Prop where
  parts : String.join s.parts = text
  toolCalls : s.toolCalls = calls
  model : s.model = model
  finishReason : s.finishReason = finish
  currentUsage : s.currentUsage = usage

section Run

variable {text : String} {calls : List Json} {model finish : String} {usage : CanonicalUsage}

theorem handlePart_holds {p : Part} (hp : IsPart p j) (h : Holds s text calls model finish usage) :
    ∃ s', (handlePart rt s j).result = .ok s' ∧
      Holds s' (text ++ p.shownText) (calls ++ p.toolCalls rt) model finish usage := by
  cases p with
  | text t =>
    obtain ⟨fields, rfl, ht, hc⟩ := hp
    rw [Part.toolCalls, List.append_nil, Part.shownText]
    by_cases he : t = ""
    · refine ⟨s, ?_, by rwa [he, String.append_empty]⟩
      simp [handlePart, ht, hc, he, Json.truthy, Gen.ok]
    · refine ⟨{ s with parts := s.parts ++ [t] }, ?_, ?_, h.toolCalls, h.model, h.finishReason,
        h.currentUsage⟩
      · simp [handlePart, ht, he, truthy_str, Gen.yield, Runtime.str]
      · rw [String.join_append, h.parts]
        simp
  | call name args =>
    obtain ⟨fields, call, rfl, ht, hc, hcall⟩ := hp
    obtain ⟨toolFields, htool, heq⟩ := geminiToolCall_eq rt hcall
    have htruthy : call.truthy = true := by
      obtain ⟨callFields, rfl, hf⟩ := hcall
      cases callFields with
      | nil => exact absurd (hf ("name", .str name) (by simp)) (by simp [Json.item])
      | cons f fields => rfl
    refine ⟨{ s with toolCalls := s.toolCalls ++ [.obj toolFields] }, ?_, ?_⟩
    · have hnull : Json.null.truthy = false := rfl
      simp [handlePart, ht, hc, hnull, htruthy, htool, Gen.lift_ok_bind, Gen.yield]
    · rw [Part.shownText, String.append_empty, Part.toolCalls]
      exact ⟨h.parts, by rw [heq, h.toolCalls], h.model, h.finishReason, h.currentUsage⟩

theorem handleParts_holds (rt : Runtime) {ps : List Part} {js : List Json} (hps : List.Forall₂ IsPart ps js)
    (h : Holds s text calls model finish usage) :
    ∃ s', (handleParts rt s js).result = .ok s' ∧
      Holds s' (text ++ partsText ps) (calls ++ partsCalls rt ps) model finish usage := by
  induction hps generalizing s text calls with
  | nil => exact ⟨s, rfl, by simpa [partsText, partsCalls] using h⟩
  | cons hp _ ih =>
    obtain ⟨s₁, h₁, hs₁⟩ := handlePart_holds hp h
    obtain ⟨s₂, h₂, hs₂⟩ := ih hs₁
    refine ⟨s₂, Gen.bind_result_eq_ok.2 ⟨s₁, h₁, h₂⟩, ?_⟩
    simpa [partsText, partsCalls, String.append_assoc, List.append_assoc] using hs₂

def reasonOf (reason : String) : String :=
  if reason = "MAX_TOKENS" then "length"
  else if reason = "SAFETY" ∨ reason = "RECITATION" then "content_filter" else "stop"

theorem finishReason_str (reason : String) : finishReason (.str reason) = .ok (reasonOf reason) := by
  rw [finishReason, str_orElse_empty, reasonOf]
  split
  · rename_i h
    cases h
  · rename_i h
    cases h
  · rename_i h
    rw [Json.str.inj h]
    rfl
  · rename_i h
    rw [Json.str.inj h]
    rfl
  · rename_i h
    rw [Json.str.inj h]
    rfl
  · rename_i h
    rw [Json.str.inj h]
    rfl
  · rename_i h₁ h₂ h₃ h₄
    have hne : ∀ {r : String}, (Json.str reason = .str r → False) → reason ≠ r :=
      fun h hr => h (hr ▸ rfl)
    rw [if_neg (hne h₂), if_neg (by simp [hne h₃, hne h₄])]

def finishOf (reason : Option Reason) : String :=
  match reason with
  | some r => reasonOf r.1
  | none => "stop"

theorem finishReason_of {reason : Option Reason} {v : Json} (h : IsReason reason v) :
    finishReason v = .ok (finishOf reason) := by
  obtain rfl := h
  cases reason with
  | none => rfl
  | some r => exact finishReason_str r.1

theorem handleFinish_holds {reason : Option Reason} {v : Json} (hr : IsReason reason v)
    (h : Holds s text calls model finish usage) :
    ∃ s', (handleFinish s v).result = .ok s' ∧
      Holds s' text calls model ((reason.map fun r => reasonOf r.1).getD finish) usage := by
  obtain rfl := hr
  cases reason with
  | none => exact ⟨s, rfl, h⟩
  | some r =>
    have ht : (Json.str r.1).truthy = true := (truthy_str r.1).2 r.2
    refine ⟨{ s with finishReason := reasonOf r.1 }, ?_, h.parts, h.toolCalls, h.model, rfl,
      h.currentUsage⟩
    simp [handleFinish, ht, finishReason_str, Gen.lift_ok_bind]

theorem candidateParts_of {ps : List Part} {candidate : Json} (hd : candidate.isDict = true)
    (h : IsContent ps (candidate.val "content")) :
    ∃ js, candidateParts candidate = .ok js ∧ List.Forall₂ IsPart ps js := by
  have hget : ∀ {j : Json} (k : String), j.isDict = true → j.get k = .ok (j.val k) := by
    intro j k hj
    cases j <;> first | rfl | cases hj
  have hor : ∀ {j : Json}, j.isDict = true → j.orElse (.obj []) = j := by
    intro j hj
    cases j with
    | obj fields => exact obj_orElse_empty fields
    | _ => cases hj
  rw [candidateParts, hget "content" hd, Py.bind_ok]
  rcases h with ⟨rfl, hc | ⟨hdict, hnull⟩⟩ | ⟨js, hdict, hjs, hps⟩
  · rw [hc]
    exact ⟨[], rfl, .nil⟩
  · rw [hor hdict]
    dsimp only
    rw [hget "parts" hdict, hnull]
    exact ⟨[], rfl, .nil⟩
  · rw [hor hdict]
    dsimp only
    rw [hget "parts" hdict, hjs]
    refine ⟨js, ?_, hps⟩
    cases js <;> rfl

theorem handleCandidate_holds {ps : List Part} {reason : Option Reason} {candidate : Json}
    (hc : IsCandidate ps reason candidate) (h : Holds s text calls model finish usage) :
    ∃ s', (handleCandidate rt s candidate).result = .ok s' ∧
      Holds s' (text ++ partsText ps) (calls ++ partsCalls rt ps) model
        ((reason.map fun r => reasonOf r.1).getD finish) usage := by
  obtain ⟨hd, hcontent, hr⟩ := hc
  obtain ⟨js, hjs, hps⟩ := candidateParts_of hd hcontent
  obtain ⟨s₁, h₁, hs₁⟩ := handleParts_holds rt hps h
  obtain ⟨s₂, h₂, hs₂⟩ := handleFinish_holds hr hs₁
  have hget : candidate.get "finishReason" = .ok (candidate.val "finishReason") := by
    cases candidate <;> first | rfl | cases hd
  refine ⟨s₂, ?_, hs₂⟩
  rw [handleCandidate, if_pos hd, hjs, Gen.lift_ok_bind]
  refine Gen.bind_result_eq_ok.2 ⟨s₁, h₁, ?_⟩
  rw [hget, Gen.lift_ok_bind]
  exact h₂

/-- One payload of the stream. -/
structure Chunk where
  model : Option String
  parts : List Part
  finish : Option Reason
  usage : Metadata

def IsModel (model : Option String) (v : Json) : Prop := v = (model.map Json.str).getD .null

/-- A payload without parts or finish reason may have no candidate. -/
def IsPayload (c : Chunk) (j : Json) : Prop :=
  j.isDict = true ∧ IsModel c.model (j.val "modelVersion") ∧
    c.usage.Renders (j.val "usageMetadata") ∧
    ((c.parts = [] ∧ c.finish = none ∧ (j.val "candidates" = .null ∨ j.val "candidates" = .arr [])) ∨
      ∃ candidate, j.val "candidates" = .arr [candidate] ∧ IsCandidate c.parts c.finish candidate)

def versionOf (model : Option String) : String :=
  match model with
  | some m => if m.startsWith "models/" then (m.drop 7).toString else m
  | none => ""

theorem modelName_of {model : Option String} {v : Json} (h : IsModel model v) :
    modelName v = .ok (versionOf model) := by
  obtain rfl := h
  cases model with
  | none => rfl
  | some m =>
    rw [Option.map_some, Option.getD_some, modelName, str_orElse_empty]
    rfl

def nextModel (model : String) (c : Chunk) : String :=
  if versionOf c.model = "" then model else versionOf c.model

def nextFinish (finish : String) (c : Chunk) : String :=
  (c.finish.map fun r => reasonOf r.1).getD finish

theorem handlePayload_holds {c : Chunk} (hc : IsPayload c j)
    (h : Holds s text calls model finish usage) :
    ∃ s', (handlePayload rt s j).result = .ok s' ∧
      Holds s' (text ++ partsText c.parts) (calls ++ partsCalls rt c.parts) (nextModel model c)
        (nextFinish finish c) (c.usage.apply usage) := by
  obtain ⟨hd, hm, hu, hcands⟩ := hc
  have hget : ∀ k, j.get k = .ok (j.val k) := by
    intro k
    cases j <;> first | rfl | cases hd
  have hhead : Holds { s with model := nextModel s.model c, currentUsage := c.usage.apply s.currentUsage }
      text calls (nextModel model c) finish (c.usage.apply usage) :=
    ⟨h.parts, h.toolCalls, by rw [h.model], h.finishReason, by rw [h.currentUsage]⟩
  have hpayload : ∀ {cs : List Json}, ((j.val "candidates").orElse (.arr [])).iter = .ok cs →
      payloadHead s j = .ok ({ s with model := nextModel s.model c, currentUsage := c.usage.apply s.currentUsage }, cs) := by
    intro cs hcs
    simp only [payloadHead, hget, Py.bind_ok, modelName_of hm, usageFromMetadata_eq hu, hcs]
    rfl
  rcases hcands with ⟨hp, hf, hnone⟩ | ⟨candidate, hone, hcand⟩
  · have hcs : ((j.val "candidates").orElse (.arr [])).iter = .ok [] := by
      rcases hnone with hn | hn <;> rw [hn] <;> rfl
    refine ⟨_, Gen.bind_result_eq_ok.2 ⟨_, hpayload hcs, rfl⟩, ?_⟩
    rw [hp, nextFinish, hf]
    simpa [partsText, partsCalls] using hhead
  · have hcs : ((j.val "candidates").orElse (.arr [])).iter = .ok [candidate] := by
      rw [hone]
      rfl
    obtain ⟨s', hs', hh⟩ := handleCandidate_holds hcand hhead
    exact ⟨s', Gen.bind_result_eq_ok.2 ⟨_, hpayload hcs, Gen.bind_result_eq_ok.2 ⟨s', hs', rfl⟩⟩, hh⟩

theorem handlePayloads_holds {cs : List Chunk} {js : List Json} (hcs : List.Forall₂ IsPayload cs js)
    (h : Holds s text calls model finish usage) :
    ∃ s', (handlePayloads rt s js).result = .ok s' ∧
      Holds s' (text ++ partsText (cs.flatMap Chunk.parts))
        (calls ++ partsCalls rt (cs.flatMap Chunk.parts)) (cs.foldl nextModel model)
        (cs.foldl nextFinish finish) ((cs.map Chunk.usage).foldl (fun p u => u.apply p) usage) := by
  induction hcs generalizing s text calls model finish usage with
  | nil => exact ⟨s, rfl, by simpa [partsText, partsCalls] using h⟩
  | cons hc _ ih =>
    obtain ⟨s₁, h₁, hs₁⟩ := handlePayload_holds hc h
    obtain ⟨s₂, h₂, hs₂⟩ := ih hs₁
    refine ⟨s₂, Gen.bind_result_eq_ok.2 ⟨s₁, h₁, h₂⟩, ?_⟩
    simpa [partsText, partsCalls, String.append_assoc, List.append_assoc] using hs₂

end Run

/-! ## Messages -/

structure Message where
  model : Option String
  parts : List Part
  finish : Option Reason
  usage : Metadata

/-- The whole message as the API returns it without streaming. -/
def IsMessage (m : Message) (raw : Json) : Prop :=
  raw.isDict = true ∧ IsModel m.model (raw.val "modelVersion") ∧
    m.usage.Renders (raw.val "usageMetadata") ∧
    ∃ candidate, raw.val "candidates" = .arr [candidate] ∧ IsCandidate m.parts m.finish candidate

inductive Pieces : List Part → List Part → Prop
  | nil : Pieces [] []
  | text {ps qs : List Part} (ts : List String) (rest : Pieces ps qs) :
    Pieces (.text (String.join ts) :: ps) (ts.map .text ++ qs)
  | call {ps qs : List Part} (name : String) (args : List (String × Json)) (rest : Pieces ps qs) :
    Pieces (.call name args :: ps) (.call name args :: qs)

/-- The payloads describe the message: its parts in order, its last finish reason and its last usage
counts, which only grow. -/
structure Describes (cs : List Chunk) (m : Message) : Prop where
  parts : Pieces m.parts (cs.flatMap Chunk.parts)
  finish : m.finish = (cs.filterMap Chunk.finish).getLast?
  models : ∀ c ∈ cs, c.model = none ∨ c.model = m.model
  model : ∃ c ∈ cs, c.model = m.model
  prompt : m.usage.prompt.getD 0 = final Metadata.prompt (cs.map Chunk.usage)
  candidates : m.usage.candidates.getD 0 = final Metadata.candidates (cs.map Chunk.usage)
  cached : m.usage.cached.getD 0 = final Metadata.cached (cs.map Chunk.usage)
  promptGrows : Cumulative Metadata.prompt (cs.map Chunk.usage)
  candidatesGrow : Cumulative Metadata.candidates (cs.map Chunk.usage)
  cachedGrows : Cumulative Metadata.cached (cs.map Chunk.usage)

theorem Pieces.text_eq {ps qs : List Part} (h : Pieces ps qs) : partsText qs = partsText ps := by
  induction h with
  | nil => rfl
  | text ts _ ih =>
    have hts : (ts.map Part.text).map Part.shownText = ts := by
      rw [List.map_map]
      exact List.map_id' ts
    simp only [partsText, List.map_append, String.join_append, hts, List.map_cons,
      String.join_cons, Part.shownText] at ih ⊢
    rw [ih]
  | call name args _ ih => simpa [partsText, Part.shownText] using ih

theorem Pieces.calls_eq {ps qs : List Part} (h : Pieces ps qs) :
    partsCalls rt qs = partsCalls rt ps := by
  induction h with
  | nil => rfl
  | text ts _ ih =>
    have hts : (ts.map Part.text).flatMap (Part.toolCalls rt) = [] := by
      simp [List.flatMap_map, Part.toolCalls]
    simp only [partsCalls, List.flatMap_append, hts, List.nil_append, List.flatMap_cons,
      Part.toolCalls] at ih ⊢
    exact ih
  | call name args _ ih =>
    simp only [partsCalls, List.flatMap_cons] at ih ⊢
    rw [ih]

theorem foldl_finish (cs : List Chunk) (finish : String) :
    cs.foldl nextFinish finish =
      (((cs.filterMap Chunk.finish).getLast?).map fun r => reasonOf r.1).getD finish := by
  induction cs using List.reverseRecOn with
  | nil => rfl
  | append_singleton cs c ih =>
    rw [List.foldl_append, List.foldl_cons, List.foldl_nil, nextFinish, ih, List.filterMap_append,
      List.filterMap_cons]
    cases c.finish <;> simp

theorem foldl_model {cs : List Chunk} {m : Option String}
    (h : ∀ c ∈ cs, c.model = none ∨ c.model = m) {model : String}
    (hm : model = versionOf m ∨ (model = "" ∧ ∃ c ∈ cs, c.model = m)) :
    cs.foldl nextModel model = versionOf m := by
  have hstep : ∀ {c : Chunk}, c.model = m → ∀ model, model = "" ∨ model = versionOf m →
      nextModel model c = versionOf m := by
    intro c hc model hm
    rw [nextModel, hc]
    split_ifs with he
    · rcases hm with hm | hm
      · rw [hm, he]
      · exact hm
    · rfl
  have hnone : ∀ {c : Chunk}, c.model = none → ∀ model, nextModel model c = model :=
    fun hc model => by rw [nextModel, hc]; rfl
  induction cs generalizing model with
  | nil =>
    rcases hm with hm | ⟨-, c, hc, -⟩
    · exact hm
    · cases hc
  | cons c cs ih =>
    rw [List.foldl_cons]
    apply ih fun d hd => h d (List.mem_cons_of_mem _ hd)
    rcases h c List.mem_cons_self with hc | hc
    · rw [hnone hc]
      rcases hm with hm | ⟨he, d, hd, hdm⟩
      · exact Or.inl hm
      · rcases List.mem_cons.1 hd with rfl | hd
        · left
          rw [he, ← hdm, hc]
          rfl
        · exact Or.inr ⟨he, d, hd, hdm⟩
    · left
      apply hstep hc
      rcases hm with hm | ⟨he, -⟩
      · exact Or.inr hm
      · exact Or.inl he

theorem parseParts (rt : Runtime) {ps : List Part} {js : List Json} (h : List.Forall₂ IsPart ps js) (q : Parsed) :
    ∃ texts, js.foldlM (parsePart rt) q =
        .ok ⟨q.parts ++ texts, q.toolCalls ++ partsCalls rt ps, q.finish⟩ ∧
      String.join texts = partsText ps := by
  induction h generalizing q with
  | nil => exact ⟨[], by simp [partsCalls]; rfl, rfl⟩
  | @cons p j ps js hp _ ih =>
    cases p with
    | text t =>
      obtain ⟨fields, rfl, ht, hc⟩ := hp
      by_cases he : t = ""
      · obtain ⟨texts, hfold, hjoin⟩ := ih q
        have hpart : parsePart rt q (.obj fields) = .ok q := by
          have hnull : Json.null.truthy = false := rfl
          simp [parsePart, ht, hc, he, truthy_str, hnull, pure, Except.pure]
        refine ⟨texts, ?_, by simp [partsText, Part.shownText, he]; exact hjoin⟩
        rw [List.foldlM_cons, hpart, Py.bind_ok, hfold]
        rfl
      · obtain ⟨texts, hfold, hjoin⟩ := ih { q with parts := q.parts ++ [t] }
        have hpart : parsePart rt q (.obj fields) = .ok { q with parts := q.parts ++ [t] } := by
          simp [parsePart, ht, he, truthy_str, Runtime.str, pure, Except.pure]
        refine ⟨t :: texts, ?_, by rw [String.join_cons, hjoin]; simp [partsText, Part.shownText]⟩
        rw [List.foldlM_cons, hpart, Py.bind_ok, hfold]
        simp [partsCalls, Part.toolCalls]
    | call name args =>
      obtain ⟨fields, call, rfl, ht, hc, hcall⟩ := hp
      obtain ⟨toolFields, htool, heq⟩ := geminiToolCall_eq rt hcall
      have htruthy : call.truthy = true := by
        obtain ⟨callFields, rfl, hf⟩ := hcall
        cases callFields with
        | nil => exact absurd (hf ("name", .str name) (by simp)) (by simp [Json.item])
        | cons f fields => rfl
      obtain ⟨texts, hfold, hjoin⟩ := ih { q with toolCalls := q.toolCalls ++ [.obj toolFields] }
      have hpart : parsePart rt q (.obj fields) =
          .ok { q with toolCalls := q.toolCalls ++ [.obj toolFields] } := by
        have hnull : Json.null.truthy = false := rfl
        simp [parsePart, ht, hc, hnull, htruthy, htool, Py.bind_ok, pure, Except.pure]
      refine ⟨texts, ?_, by simpa [partsText, Part.shownText] using hjoin⟩
      rw [List.foldlM_cons, hpart, Py.bind_ok, hfold]
      simp [partsCalls, Part.toolCalls, heq]

theorem parseCompletion_eq {m : Message} {raw : Json} (h : IsMessage m raw) :
    parseCompletion rt raw = .ok {
      model := .str (versionOf m.model)
      content := .str (partsText m.parts)
      toolCalls := if partsCalls rt m.parts = [] then .null else .arr (partsCalls rt m.parts)
      finishReason := .str (finishOf m.finish)
      usage := m.usage.apply .zero
      raw := none } := by
  obtain ⟨hd, hm, hu, candidate, hone, hdict, hcontent, hr⟩ := h
  have hget : ∀ {j : Json}, j.isDict = true → ∀ k, j.get k = .ok (j.val k) := by
    intro j hj k
    cases j <;> first | rfl | cases hj
  obtain ⟨js, hjs, hps⟩ := candidateParts_of hdict hcontent
  obtain ⟨texts, hfold, hjoin⟩ := parseParts rt hps ⟨[], [], finishOf m.finish⟩
  have hcand : parseCandidate rt ⟨[], [], "stop"⟩ candidate =
      .ok ⟨texts, partsCalls rt m.parts, finishOf m.finish⟩ := by
    simp only [parseCandidate, hdict, if_true, hget hdict, Py.bind_ok, finishReason_of hr, hjs]
    exact hfold
  simp only [parseCompletion, hget hd, Py.bind_ok, hone, modelName_of hm, usageFromMetadata_eq hu]
  have hiter : ((Json.arr [candidate]).orElse (.arr [])).iter = .ok [candidate] := rfl
  rw [hiter, Py.bind_ok, List.foldlM_cons, hcand, Py.bind_ok, ← hjoin]
  rfl

theorem gemini_agree {cs : List Chunk} {m : Message} {js : List Json} {raw : Json}
    (hd : Describes cs m) (hjs : List.Forall₂ IsPayload cs js) (hraw : IsMessage m raw) :
    ∃ s, (handlePayloads rt .new js).result = .ok s ∧ parseCompletion rt raw = .ok s.finish := by
  have hnew : Holds .new "" [] "" "stop" .zero := ⟨rfl, rfl, rfl, rfl, rfl⟩
  obtain ⟨s, hs, h⟩ := handlePayloads_holds hjs hnew
  refine ⟨s, hs, ?_⟩
  have hmodel : cs.foldl nextModel "" = versionOf m.model :=
    foldl_model hd.models (Or.inr ⟨rfl, hd.model⟩)
  have hfinish : cs.foldl nextFinish "stop" = finishOf m.finish := by
    rw [foldl_finish, ← hd.finish]
    cases m.finish <;> rfl
  have husage : (cs.map Chunk.usage).foldl (fun p u => u.apply p) .zero = m.usage.apply .zero := by
    have hzero : ∀ n : Option ℕ, orPrevious n 0 = (n.getD 0 : ℕ) := by
      intro n
      unfold orPrevious
      split_ifs with h0
      · rw [h0]
        rfl
      · rfl
    have htotal := total_eq hd.promptGrows hd.candidatesGrow hd.cachedGrows
    rw [← hd.prompt, ← hd.candidates, ← hd.cached, ← hzero, ← hzero, ← hzero] at htotal
    exact htotal
  rw [String.empty_append, List.nil_append, hd.parts.text_eq, hd.parts.calls_eq, hmodel, hfinish,
    husage] at h
  rw [parseCompletion_eq hraw, Translator.finish, h.parts, h.toolCalls, h.model, h.finishReason,
    h.currentUsage]

end Varsten.Proxy.GeminiStream
