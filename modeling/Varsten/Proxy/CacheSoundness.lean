import Varsten.Proxy.GeminiWire
import Varsten.Proxy.OpenAIDialect
import Varsten.Python.Equality

/-!
# What a cache key stands for

Requests under one key should be one request to the model: the same provider and,
up to transport fields, the same wire. The key covers the Gemini wire; of the
OpenAI wire it covers the keyed fields, and it does not cover the provider.
-/

namespace Varsten.Proxy.CacheSoundness

open Python (Json Py PyError Runtime)
open Engine.RequestFacts (hasTools bodyHasMultimodal)
open Cache
open OpenAIDialect

structure Dict where
  items : Fields
  nodup : (items.map Prod.fst).Nodup

def transportFields : List String := ["stream", "stream_options", "user", "metadata"]

def modelFields (fields : Fields) : Fields := fields.filter fun f => f.1 ∉ transportFields

def SameWire : Json → Json → Prop
  | .obj f, .obj g => Alike (.obj (modelFields f)) (.obj (modelFields g))
  | _, _ => False

/-- `_exact_cache_policy`: only a planned request is looked at, and only two blockers count. -/
def exactCacheAllowed (planned : Bool) (body : Fields) : Bool :=
  !planned || (!hasTools body && !bodyHasMultimodal body)

/-- A request on its way to its endpoint's provider, unrouted. -/
structure Sent where
  endpoint : Endpoint
  body : Dict
  planned : Bool
  stream : Bool

def Sent.allowed (s : Sent) : Bool := exactCacheAllowed s.planned s.body.items

def Sent.wire (rt : Runtime) (s : Sent) : Py Json :=
  (s.endpoint.destination.adapter rt).prepareRequest (.obj s.body.items) (bodyModel s.body.items)
    s.stream

/-! ## Keys -/

theorem item_keyed_of (b : Fields) (ks : List String) (k : String) :
    Json.item k (ks.filterMap fun k => (Json.item k b).map fun v => (k, v)) =
      if k ∈ ks then Json.item k b else none := by
  induction ks with
  | nil => rfl
  | cons l ks ih =>
    rw [List.filterMap_cons]
    cases hl : Json.item l b with
    | none =>
      simp only [Option.map_none, ih, List.mem_cons]
      by_cases h : k = l
      · subst h
        simp [hl]
      · simp [h]
    | some v =>
      simp only [Option.map_some, Json.item, ih, List.mem_cons]
      by_cases h : l = k
      · subst h
        simp [hl]
      · simp [h, Ne.symm h]

theorem keyed_keys (b : Fields) (ks : List String) :
    ((ks.filterMap fun k => (Json.item k b).map fun v => (k, v)).map Prod.fst).Sublist ks := by
  induction ks with
  | nil => exact .slnil
  | cons l ks ih =>
    rw [List.filterMap_cons]
    cases Json.item l b with
    | none => exact ih.cons l
    | some v => exact ih.cons_cons l

theorem item_keyed (b : Fields) (k : String) :
    Json.item k (keyed b) = if k ∈ keyedFields then Json.item k b else none :=
  item_keyed_of b keyedFields k

theorem keyed_nodup (b : Fields) : ((keyed b).map Prod.fst).Nodup :=
  (keyed_keys b keyedFields).nodup (by decide)

theorem computeCacheKey_eq_iff {κ : Type} {digest : Json → κ} (hd : Function.Injective digest)
    (b₁ b₂ : Fields) : computeCacheKey digest b₁ = computeCacheKey digest b₂ ↔
      ∀ k ∈ keyedFields, AgreeAt b₁ b₂ k := by
  rw [computeCacheKey, computeCacheKey, hd.eq_iff]
  refine (alike_obj_iff (keyed_nodup b₁) (keyed_nodup b₂)).trans ?_
  refine forall_congr' fun k => ?_
  rw [AgreeAt, AgreeAt, item_keyed, item_keyed]
  by_cases hk : k ∈ keyedFields
  · simp [hk]
  · simp [hk]

/-! ## The OpenAI wire -/

theorem item_modelFields (k : String) (fields : Fields) :
    Json.item k (modelFields fields) = if k ∈ transportFields then none else Json.item k fields := by
  induction fields with
  | nil => simp [modelFields, Json.item]
  | cons f fields ih =>
    unfold modelFields at ih ⊢
    rw [List.filter_cons]
    by_cases hf : f.1 ∈ transportFields
    · simp only [hf, not_true_eq_false, decide_false, Bool.false_eq_true, if_false, ih, Json.item]
      by_cases hk : k ∈ transportFields
      · simp [hk]
      · have hne : f.1 ≠ k := fun h => hk (h ▸ hf)
        simp [hk, hne]
    · simp only [hf, not_false_eq_true, decide_true, if_true, Json.item, ih]
      by_cases hk : f.1 = k
      · subst hk
        simp [hf]
      · simp [hk]

theorem openai_wire (rt : Runtime) (b : Dict) (model : String) (stream : Bool) :
    ∃ w, (Provider.openai.adapter rt).prepareRequest (.obj b.items) model stream = .ok (.obj w) ∧
      (w.map Prod.fst).Nodup ∧ ∀ k ∉ transportFields,
        Json.item k w = if k = "model" then some (.str model) else Json.item k b.items := by
  have hn := Json.nodup_setItem (Json.nodup_setItem b.nodup "model" (.str model)) "stream" (.bool stream)
  refine ⟨_, rfl, ?_, fun k hk => ?_⟩
  · split_ifs
    · exact Json.nodup_setItem hn _ _
    · exact hn
  · have hs : "stream" ≠ k := fun h => hk (h ▸ by decide)
    have ho : "stream_options" ≠ k := fun h => hk (h ▸ by decide)
    have hw : Json.item k (Json.setItem "stream" (.bool stream)
        (Json.setItem "model" (.str model) b.items)) =
        if k = "model" then some (.str model) else Json.item k b.items := by
      rw [Json.item_setItem_of_ne hs]
      by_cases hm : k = "model"
      · subst hm
        rw [Json.item_setItem_self, if_pos rfl]
      · rw [Json.item_setItem_of_ne (Ne.symm hm), if_neg hm]
    refine Eq.trans ?_ hw
    split_ifs
    · exact Json.item_setItem_of_ne ho _ _
    · rfl

theorem bodyModel_agree {f g : Fields} (h : AgreeAt f g "model") : bodyModel f = bodyModel g := by
  unfold AgreeAt at h
  unfold bodyModel
  cases hf : Json.item "model" f with
  | none =>
    rw [hf] at h
    rw [Option.map_eq_none_iff.1 h.symm]
  | some v =>
    rw [hf] at h
    obtain ⟨w, hw, hvw⟩ := Option.map_eq_some_iff.1 h.symm
    rw [hw]
    cases v with
    | str s => rw [Alike.str_left hvw.symm]
    | _ => cases w <;> first | rfl | simp [sortKeys] at hvw

/-- Under one key, two OpenAI wires ask the same of the model when the fields outside the key
agree, transport fields apart. -/
theorem openai_sameWire_iff {rt : Runtime} {b₁ b₂ : Dict} {stream₁ stream₂ : Bool} {w₁ w₂ : Json}
    (hk : ∀ k ∈ keyedFields, AgreeAt b₁.items b₂.items k)
    (h₁ : (Provider.openai.adapter rt).prepareRequest (.obj b₁.items) (bodyModel b₁.items) stream₁ =
      .ok w₁)
    (h₂ : (Provider.openai.adapter rt).prepareRequest (.obj b₂.items) (bodyModel b₂.items) stream₂ =
      .ok w₂) : SameWire w₁ w₂ ↔
      ∀ k, k ∉ keyedFields → k ∉ transportFields → AgreeAt b₁.items b₂.items k := by
  obtain ⟨f, hf, hfn, hfi⟩ := openai_wire rt b₁ (bodyModel b₁.items) stream₁
  obtain ⟨g, hg, hgn, hgi⟩ := openai_wire rt b₂ (bodyModel b₂.items) stream₂
  obtain rfl := Except.ok.inj (hf.symm.trans h₁)
  obtain rfl := Except.ok.inj (hg.symm.trans h₂)
  have hmodel := bodyModel_agree (hk "model" (by decide))
  have hnodup : ∀ {w : Fields}, (w.map Prod.fst).Nodup → ((modelFields w).map Prod.fst).Nodup :=
    fun hw => hw.sublist (List.filter_sublist.map _)
  refine (alike_obj_iff (hnodup hfn) (hnodup hgn)).trans ⟨fun h k hkey ht => ?_, fun h k => ?_⟩
  · have hat := h k
    have hm : k ≠ "model" := fun hm => hkey (hm ▸ by decide)
    rwa [AgreeAt, item_modelFields, item_modelFields, if_neg ht, if_neg ht, hfi k ht, hgi k ht,
      if_neg hm, if_neg hm] at hat
  · rw [AgreeAt, item_modelFields, item_modelFields]
    by_cases ht : k ∈ transportFields
    · rw [if_pos ht, if_pos ht]
    · rw [if_neg ht, if_neg ht, hfi k ht, hgi k ht]
      by_cases hm : k = "model"
      · rw [if_pos hm, if_pos hm, hmodel]
      · rw [if_neg hm, if_neg hm]
        by_cases hkey : k ∈ keyedFields
        · exact hk k hkey
        · exact h k hkey ht

theorem gemini_sameWire {rt : Runtime} {b₁ b₂ : Dict} {stream₁ stream₂ : Bool} {w₁ w₂ : Json}
    (hk : ∀ k ∈ keyedFields, AgreeAt b₁.items b₂.items k)
    (h₁ : (Provider.gemini.adapter rt).prepareRequest (.obj b₁.items) (bodyModel b₁.items) stream₁ =
      .ok w₁)
    (h₂ : (Provider.gemini.adapter rt).prepareRequest (.obj b₂.items) (bodyModel b₂.items) stream₂ =
      .ok w₂) : SameWire w₁ w₂ := by
  change Providers.Gemini.prepareRequest rt _ (bodyModel b₁.items) stream₁ = _ at h₁
  change Providers.Gemini.prepareRequest rt _ (bodyModel b₂.items) stream₂ = _ at h₂
  obtain ⟨f, g, rfl, rfl, hfg⟩ := GeminiWire.prepareRequest_alike hk h₁ h₂
  apply alike_obj_of_sortFields
  have hfilter : ∀ w : Fields, sortFields (modelFields w) = modelFields (sortFields w) := by
    intro w
    rw [sortFields_eq, sortFields_eq, modelFields, modelFields, List.filter_map]
    rfl
  rw [hfilter, hfilter, hfg]

/-! ## Soundness of the key -/

/-- Requests that the policy lets into the cache under one key are one request to the model. -/
def KeySound {κ : Type} (digest : Json → κ) (s₁ s₂ : Sent) (w₁ w₂ : Json) : Prop :=
  s₁.allowed = true → s₂.allowed = true →
    computeCacheKey digest s₁.body.items = computeCacheKey digest s₂.body.items →
    s₁.endpoint.destination = s₂.endpoint.destination ∧ SameWire w₁ w₂

/-- The bodies differ in a keyed field, or they go to one provider and, on the OpenAI wire, agree
on all the fields that are neither keyed nor transport. -/
def Distinguished (s₁ s₂ : Sent) : Prop :=
  (∃ k ∈ keyedFields, ¬ AgreeAt s₁.body.items s₂.body.items k) ∨
    (s₁.endpoint.destination = s₂.endpoint.destination ∧
      (s₁.endpoint.destination = .openai → ∀ k, k ∉ keyedFields → k ∉ transportFields →
        AgreeAt s₁.body.items s₂.body.items k))

theorem sameWire_iff {rt : Runtime} {s₁ s₂ : Sent} {w₁ w₂ : Json} (h₁ : s₁.wire rt = .ok w₁)
    (h₂ : s₂.wire rt = .ok w₂) (hd : s₁.endpoint.destination = s₂.endpoint.destination)
    (hk : ∀ k ∈ keyedFields, AgreeAt s₁.body.items s₂.body.items k) :
    SameWire w₁ w₂ ↔ (s₁.endpoint.destination = .openai → ∀ k, k ∉ keyedFields →
      k ∉ transportFields → AgreeAt s₁.body.items s₂.body.items k) := by
  rw [Sent.wire, ← hd] at h₂
  rw [Sent.wire] at h₁
  cases he : s₁.endpoint with
  | chatCompletions =>
    rw [he] at h₁ h₂
    rw [openai_sameWire_iff hk h₁ h₂]
    exact ⟨fun h _ => h, fun h => h rfl⟩
  | geminiCompatible =>
    rw [he] at h₁ h₂
    exact iff_of_true (gemini_sameWire hk h₁ h₂) fun h => by cases h

/-- The key is sound for two requests exactly when it, their route and the fields it leaves out
distinguish them. -/
theorem key_sound_iff {κ : Type} {digest : Json → κ} (hinj : Function.Injective digest)
    {rt : Runtime} {s₁ s₂ : Sent} {w₁ w₂ : Json} (h₁ : s₁.wire rt = .ok w₁)
    (h₂ : s₂.wire rt = .ok w₂) : KeySound digest s₁ s₂ w₁ w₂ ↔
      (s₁.allowed = true → s₂.allowed = true → Distinguished s₁ s₂) := by
  unfold KeySound Distinguished
  refine forall_congr' fun _ => forall_congr' fun _ => ?_
  rw [computeCacheKey_eq_iff hinj]
  by_cases hk : ∀ k ∈ keyedFields, AgreeAt s₁.body.items s₂.body.items k
  · have hno : ¬ ∃ k ∈ keyedFields, ¬ AgreeAt s₁.body.items s₂.body.items k := by
      intro h
      obtain ⟨k, hm, hn⟩ := h
      exact hn (hk k hm)
    constructor
    · intro h
      obtain ⟨hd, hs⟩ := h hk
      exact Or.inr ⟨hd, (sameWire_iff h₁ h₂ hd hk).1 hs⟩
    · intro h _
      obtain ⟨hd, hs⟩ := h.resolve_left hno
      exact ⟨hd, (sameWire_iff h₁ h₂ hd hk).2 hs⟩
  · refine iff_of_true (fun h => absurd h hk) (Or.inl ?_)
    by_contra h
    exact hk fun k hm => by_contra fun hn => h ⟨k, hm, hn⟩

/-! ## One key, two requests -/

def plainBody : Dict where
  items := [("model", .str "gpt-4o"), ("messages", .arr [])]
  nodup := by decide

def penalizedBody : Dict where
  items := [("model", .str "gpt-4o"), ("messages", .arr []), ("presence_penalty", .int 2)]
  nodup := by decide

theorem key_sound_plain :
    ∃ w₁ w₂, Sent.wire Runtime.blank ⟨.chatCompletions, plainBody, true, false⟩ = .ok w₁ ∧
      Sent.wire Runtime.blank ⟨.chatCompletions, penalizedBody, true, false⟩ = .ok w₂ ∧
      (KeySound id ⟨.chatCompletions, plainBody, true, false⟩
          ⟨.chatCompletions, penalizedBody, true, false⟩ w₁ w₂ ↔
        (Sent.allowed ⟨.chatCompletions, plainBody, true, false⟩ = true →
          Sent.allowed ⟨.chatCompletions, penalizedBody, true, false⟩ = true →
          Distinguished ⟨.chatCompletions, plainBody, true, false⟩
            ⟨.chatCompletions, penalizedBody, true, false⟩)) :=
  ⟨_, _, rfl, rfl, key_sound_iff Function.injective_id (show Sent.wire Runtime.blank _ = _ from rfl)
    (show Sent.wire Runtime.blank _ = _ from rfl)⟩

/-- A request with a presence penalty gets the answer of the same request without one. -/
theorem penalty_shares_key :
    ¬ ∀ (rt : Runtime) (s₁ s₂ : Sent) (w₁ w₂ : Json), s₁.wire rt = .ok w₁ → s₂.wire rt = .ok w₂ →
      KeySound (id : Json → Json) s₁ s₂ w₁ w₂ := by
  intro h
  have hsound := h Runtime.blank ⟨.chatCompletions, plainBody, true, false⟩
    ⟨.chatCompletions, penalizedBody, true, false⟩ _ _ rfl rfl (by decide) (by decide) rfl
  have hat := Alike.agreeAt hsound.2 "presence_penalty"
  rw [AgreeAt, item_modelFields, item_modelFields] at hat
  cases hat

end Varsten.Proxy.CacheSoundness
