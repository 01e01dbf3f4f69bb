import Varsten.Engine.RequestFacts

/-!
# The replay tap

A captured request is its messages and the fields of a list; a replay builds a body from them.
-/

namespace Varsten.Eval.Capture

open Engine.RequestFacts (field)
open Python (Json)

inductive SampleSource where
  | traffic
  | golden
deriving DecidableEq

structure ReplaySample where
  id : ℕ
  routeKey : String
  source : SampleSource
  requestMessages : Json
  requestParams : List (String × Json)
  incumbentResponse : Option Json
  expectedOutput : Option String
  inputTokens : ℤ
  outputTokens : ℤ
  createdAt : ℚ

def paramFields : List String :=
  ["temperature", "top_p", "max_tokens", "max_completion_tokens", "tools", "tool_choice",
    "response_format", "seed", "stop", "n"]

structure Tap where
  captureEnabled : Bool
  roll : ℚ
  sampleRate : ℚ
  id : ℕ
  createdAt : ℚ
  commits : Bool

def capturedParams (body : List (String × Json)) : List (String × Json) :=
  paramFields.filterMap fun k => (Json.item k body).map fun v => (k, v)

def captureSample (tap : Tap) (body : List (String × Json)) (responsePayload : Json)
    (model : String) (inputTokens outputTokens : ℤ) : Option ReplaySample :=
  if !tap.captureEnabled || tap.sampleRate ≤ tap.roll then none
  else
    let messages := field "messages" body
    if !messages.truthy || !responsePayload.truthy || !tap.commits then none
    else some {
      id := tap.id
      routeKey := model
      source := .traffic
      requestMessages := messages
      requestParams := capturedParams body
      incumbentResponse := some responsePayload
      expectedOutput := none
      inputTokens
      outputTokens
      createdAt := tap.createdAt }

/-- `{**first, **second}`. -/
def merge (first second : List (String × Json)) : List (String × Json) :=
  second.foldl (fun body f => Json.setItem f.1 f.2 body) first

/-- `{"messages": sample.request_messages, **(sample.request_params or {})}`. -/
def ReplaySample.body (s : ReplaySample) : List (String × Json) :=
  merge [("messages", s.requestMessages)] s.requestParams

theorem captureSample_eq_some {tap : Tap} {body : List (String × Json)} {payload : Json}
    {model : String} {i o : ℤ} {s : ReplaySample}
    (h : captureSample tap body payload model i o = some s) :
    s.requestMessages = field "messages" body ∧ s.requestParams = capturedParams body ∧
      s.routeKey = model := by
  unfold captureSample at h
  split_ifs at h
  dsimp only at h
  split_ifs at h
  obtain rfl := Option.some.inj h
  exact ⟨rfl, rfl, rfl⟩

theorem item_eq_none {k : String} {fields : List (String × Json)} :
    Json.item k fields = none ↔ k ∉ fields.map (·.1) := by
  induction fields with
  | nil => simp [Json.item]
  | cons f fields ih =>
    rw [Json.item]
    split_ifs with hk
    · simp [hk]
    · rw [ih, List.map_cons, List.mem_cons, not_or]
      exact ⟨fun h => ⟨fun he => hk he.symm, h⟩, And.right⟩

theorem item_merge {second : List (String × Json)} (h : (second.map (·.1)).Nodup)
    (first : List (String × Json)) (k : String) :
    Json.item k (merge first second) = (Json.item k second).or (Json.item k first) := by
  induction second generalizing first with
  | nil => rfl
  | cons f second ih =>
    rw [List.map_cons, List.nodup_cons] at h
    have hrest := ih h.2 (Json.setItem f.1 f.2 first)
    rw [merge, List.foldl_cons, ← merge, hrest, Json.item]
    split_ifs with hk
    · subst hk
      rw [item_eq_none.2 h.1, Json.item_setItem_self]
      rfl
    · rw [Json.item_setItem_of_ne hk]

theorem item_filterMap {body : List (String × Json)} {k : String} {keys : List String} :
    Json.item k (keys.filterMap fun k => (Json.item k body).map fun v => (k, v)) =
      if k ∈ keys then Json.item k body else none := by
  induction keys with
  | nil => rfl
  | cons l keys ih =>
    rw [List.filterMap_cons]
    cases hl : Json.item l body with
    | none =>
      simp only [Option.map_none, ih, List.mem_cons]
      by_cases hk : k = l
      · simp [hk, hl]
      · simp [hk]
    | some v =>
      simp only [Option.map_some, Json.item, ih, List.mem_cons]
      by_cases hk : k = l
      · simp [hk, hl]
      · simp [hk, Ne.symm hk]

theorem keys_capturedParams (body : List (String × Json)) :
    ((capturedParams body).map (·.1)).Nodup := by
  have hkeys : (capturedParams body).map (·.1) =
      paramFields.filter fun k => (Json.item k body).isSome := by
    unfold capturedParams
    generalize paramFields = keys
    induction keys with
    | nil => rfl
    | cons k keys ih =>
      rw [List.filterMap_cons, List.filter_cons]
      cases hk : Json.item k body with
      | none => simpa using ih
      | some v => simpa using ih
  rw [hkeys]
  exact (by decide : paramFields.Nodup).filter _

theorem field_captured {tap : Tap} {body : List (String × Json)} {payload : Json} {model : String}
    {i o : ℤ} {s : ReplaySample} (h : captureSample tap body payload model i o = some s)
    (k : String) : field k s.body =
      if k = "messages" ∨ k ∈ paramFields then field k body else .null := by
  obtain ⟨hmessages, hparams, -⟩ := captureSample_eq_some h
  rw [field, ReplaySample.body, hmessages, hparams, item_merge (keys_capturedParams body),
    capturedParams, item_filterMap]
  by_cases hk : k ∈ paramFields
  · have hne : "messages" ≠ k := fun he => absurd (he ▸ hk) (by decide)
    simp [hk, field, Json.item, hne]
  · by_cases hm : k = "messages"
    · subst hm
      simp [hk, Json.item]
    · simp [hk, hm, Json.item, Ne.symm hm]

end Varsten.Eval.Capture
