import Varsten.Python.Floats
import Varsten.Python.JsonReader

/-!
# The context of a request

What the proxy reads of a request's `X-Varsten-*` headers. `digit` reads a decimal digit, `number`
a number of a JSON text; `rt` has the `str` of values that are no strings.
-/

namespace Varsten.Proxy.RequestMetadata

open Python (Json Runtime)
open Python.Floats (PyFloat)
open Python.Json (item setItem setItems)
open Python.Text (strip)
open Python.Utf8 (Text)

def maxValueLen : ℕ := 256

def maxExtraKeys : ℕ := 32

def stringFields : List String :=
  ["feature", "workflow", "customer_id", "external_user_id", "user_id", "team", "department",
    "environment", "task_type", "risk_level", "quality_threshold", "trace_id"]

def headerFields : List (String × String) :=
  [("x-varsten-feature", "feature"),
   ("x-varsten-workflow", "workflow"),
   ("x-varsten-customer-id", "customer_id"),
   ("x-varsten-external-user-id", "external_user_id"),
   ("x-varsten-user-id", "user_id"),
   ("x-varsten-team", "team"),
   ("x-varsten-department", "department"),
   ("x-varsten-environment", "environment"),
   ("x-varsten-task-type", "task_type"),
   ("x-varsten-risk-level", "risk_level"),
   ("x-varsten-quality-threshold", "quality_threshold"),
   ("x-varsten-trace-id", "trace_id")]

def sdkClientHeader : String := "x-varsten-client"

structure RequestContext where
  feature : Option String
  workflow : Option String
  customerId : Option String
  externalUserId : Option String
  userId : Option String
  team : Option String
  department : Option String
  environment : Option String
  taskType : Option String
  taskConfidence : Option ℚ
  riskLevel : Option String
  qualityThreshold : Option String
  traceId : Option String
  sdkClient : Option String
  extra : List (String × Json)

section

variable (digit : Char → Option ℕ) (number : Text → Option (Json × Text)) (rt : Runtime)
  (maxBytes : ℕ)

def bounded (text : String) : String := String.ofList (text.toList.take maxValueLen)

def sanitizeStr : Json → Option String
  | .null | .arr _ | .obj _ => none
  | value =>
    let text := match value with
      | .bool b => if b then "true" else "false"
      | value => rt.str value
    let text := String.ofList (strip text.toList)
    if text = "" then none else some (bounded text)

/-- `float(value)`: `none` where it raises `OverflowError`, `some none` where it raises another
exception. -/
def float : Json → Option (Option PyFloat)
  | .null | .arr _ | .obj _ => some none
  | .bool b => some (some (.finite (if b then 1 else 0)))
  | .int n => (PyFloat.ofNat n.natAbs).map fun x => some (if n < 0 then x.neg else x)
  | .float x => some (some (.finite x))
  | .str s => some (Python.Floats.parse digit s.toList)

/-- `max(0.0, min(1.0, conf))`, unless it is no number. -/
def clamp : PyFloat → Option ℚ
  | .finite x => some (max 0 (min 1 x))
  | .inf negative => some (if negative then 0 else 1)
  | .nan => none

def sanitizeConfidence (value : Json) : Option (Option ℚ) :=
  (float digit value).map (·.bind clamp)

def parseMetadataJson (raw : Option String) : List (String × Json) :=
  match raw with
  | none => []
  | some raw =>
    if raw = "" then []
    else if maxBytes < (Python.Utf8.encode raw.toList).length then []
    else match Python.JsonReader.loads number raw.toList with
      | some (.obj fields) => fields
      | _ => []

def lowerName (name : String) : String := String.ofList (name.toList.map Char.toLower)

/-- `{k.lower(): v for k, v in headers.items()}`: the last header of a name stands. -/
def lower (headers : List (String × String)) (name : String) : Option String :=
  (headers.reverse.find? fun h => lowerName h.1 = name).map Prod.snd

def known : List String := stringFields ++ ["task_confidence"]

def extras : List (String × Json) → List (String × Json) → List (String × Json)
  | [], extra => extra
  | (key, val) :: blob, extra =>
    if key ∈ known then extras blob extra
    else
      let extra := match sanitizeStr rt val with
        | some sanitized => setItem (bounded key) (.str sanitized) extra
        | none => extra
      if maxExtraKeys ≤ extra.length then extra else extras blob extra

/-- The fields, from the header's object and then from the headers of their own. -/
def fieldValues (blob : List (String × Json)) (lower : String → Option String) :
    String → Option String :=
  headerFields.foldl (fun values h => match (lower h.1).bind fun v => sanitizeStr rt (.str v) with
    | some sanitized => Function.update values h.2 (some sanitized)
    | none => values) fun field => sanitizeStr rt ((item field blob).getD .null)

def confidence (blob : List (String × Json)) (lower : String → Option String) :
    Option (Option ℚ) := do
  let confidence ← sanitizeConfidence digit ((item "task_confidence" blob).getD .null)
  match lower "x-varsten-task-confidence" with
  | some v => return (← sanitizeConfidence digit (.str v)).or confidence
  | none => return confidence

/-- `none` where it raises. -/
def parseRequestContext (headers : List (String × String)) : Option RequestContext := do
  let lower := lower headers
  let blob := parseMetadataJson number maxBytes (lower "x-varsten-metadata")
  let values := fieldValues rt blob lower
  let taskConfidence ← confidence digit blob lower
  return {
    feature := values "feature"
    workflow := values "workflow"
    customerId := values "customer_id"
    externalUserId := values "external_user_id"
    userId := values "user_id"
    team := values "team"
    department := values "department"
    environment := values "environment"
    taskType := values "task_type"
    taskConfidence := taskConfidence
    riskLevel := values "risk_level"
    qualityThreshold := values "quality_threshold"
    traceId := values "trace_id"
    sdkClient := (lower sdkClientHeader).bind fun v => sanitizeStr rt (.str v)
    extra := extras rt blob [] }

end

/-! ## What is kept as it is -/

/-- A text that `sanitizeStr` keeps as it is. -/
structure Trimmed (s : String) : Prop where
  ne : s ≠ ""
  strip : Python.Text.strip s.toList = s.toList
  length : s.toList.length ≤ maxValueLen

theorem bounded_of_le {s : String} (h : s.toList.length ≤ maxValueLen) : bounded s = s := by
  rw [bounded, List.take_of_length_le h, String.ofList_toList]

theorem bounded_length (s : String) : (bounded s).toList.length ≤ maxValueLen := by
  rw [bounded, String.toList_ofList]
  exact List.length_take_le _ _

theorem eq_of_bounded {s t : String} (h : s = bounded t) (hs : s.toList.length < maxValueLen) :
    t = s := by
  rw [h, bounded_of_le]
  rw [h, bounded, String.toList_ofList, List.length_take] at hs
  omega

section

variable (digit : Char → Option ℕ) (number : Text → Option (Json × Text)) (rt : Runtime)
  (maxBytes : ℕ)

theorem sanitizeStr_trimmed {s : String} (h : Trimmed s) : sanitizeStr rt (.str s) = some s := by
  simp only [sanitizeStr, Runtime.str, h.strip, String.ofList_toList, if_neg h.ne,
    bounded_of_le h.length]

def others (blob : List (String × Json)) : List (String × Json) := blob.filter (·.1 ∉ known)

theorem others_cons_known {key : String} (h : key ∈ known) (val : Json)
    (blob : List (String × Json)) : others ((key, val) :: blob) = others blob :=
  List.filter_cons_of_neg (by simpa using h)

theorem others_cons {key : String} (h : key ∉ known) (val : Json) (blob : List (String × Json)) :
    others ((key, val) :: blob) = (key, val) :: others blob :=
  List.filter_cons_of_pos (by simpa using h)

theorem extras_eq {blob extra : List (String × Json)}
    (hv : ∀ f ∈ others blob, ∃ s, f.2 = .str s ∧ Trimmed s)
    (hk : ∀ f ∈ others blob, f.1.toList.length ≤ maxValueLen)
    (hn : ((extra ++ others blob).map Prod.fst).Nodup)
    (hlen : (extra ++ others blob).length ≤ maxExtraKeys) :
    extras rt blob extra = extra ++ others blob := by
  induction blob generalizing extra with
  | nil => exact (List.append_nil extra).symm
  | cons f blob ih =>
    obtain ⟨key, val⟩ := f
    rw [extras]
    by_cases hkey : key ∈ known
    · rw [others_cons_known hkey] at hv hk hn hlen ⊢
      rw [if_pos hkey]
      exact ih hv hk hn hlen
    · rw [others_cons hkey] at hv hk hn hlen ⊢
      rw [List.forall_mem_cons] at hv hk
      obtain ⟨⟨s, rfl, hs⟩, hv⟩ := hv
      have hnew : key ∉ extra.map Prod.fst := by
        rw [List.map_append, List.nodup_append] at hn
        exact fun hm => hn.2.2 _ hm key List.mem_cons_self rfl
      rw [List.append_cons] at hn hlen ⊢
      rw [if_neg hkey]
      simp only [sanitizeStr_trimmed rt hs, bounded_of_le hk.1, Json.setItem_new hnew]
      split_ifs with hfull
      · have hrest : others blob = [] := by
          rw [List.length_append] at hlen
          exact List.length_eq_zero_iff.1 (by omega)
        rw [hrest, List.append_nil]
      · exact ih hv hk.2 hn hlen

theorem added_key {extra : List (String × Json)} {key k : String} {sanitized : Option String}
    (h : k ∈ (match sanitized with
      | some s => setItem key (.str s) extra
      | none => extra).map Prod.fst) : k ∈ extra.map Prod.fst ∨ k = key := by
  cases sanitized with
  | none => exact .inl h
  | some s =>
    obtain ⟨g, hg, rfl⟩ := List.mem_map.1 h
    rcases Json.mem_setItem hg with hg | rfl
    · exact .inl (List.mem_map_of_mem hg)
    · exact .inr rfl

theorem extras_key {blob extra : List (String × Json)} {k : String}
    (h : k ∈ (extras rt blob extra).map Prod.fst) :
    k ∈ extra.map Prod.fst ∨ ∃ f ∈ blob, f.1 ∉ known ∧ k = bounded f.1 := by
  induction blob generalizing extra with
  | nil => exact .inl h
  | cons f blob ih =>
    obtain ⟨key, val⟩ := f
    rw [extras] at h
    by_cases hkey : key ∈ known
    · rw [if_pos hkey] at h
      exact (ih h).imp_right fun ⟨f, hf, hk⟩ => ⟨f, List.mem_cons_of_mem _ hf, hk⟩
    · rw [if_neg hkey] at h
      dsimp only at h
      split_ifs at h
      · exact (added_key h).imp_right fun hk => ⟨_, List.mem_cons_self, hkey, hk⟩
      · rcases ih h with hm | ⟨f, hf, hk⟩
        · exact (added_key hm).imp_right fun hk => ⟨_, List.mem_cons_self, hkey, hk⟩
        · exact .inr ⟨f, List.mem_cons_of_mem _ hf, hk⟩

/-! ## One header -/

/-- No header but `X-Varsten-Metadata` is there. -/
def Alone (lower : String → Option String) : Prop :=
  ∀ name ≠ "x-varsten-metadata", lower name = none

def contextOf (blob : List (String × Json)) (taskConfidence : Option ℚ) : RequestContext :=
  let values field := sanitizeStr rt ((item field blob).getD .null)
  { feature := values "feature"
    workflow := values "workflow"
    customerId := values "customer_id"
    externalUserId := values "external_user_id"
    userId := values "user_id"
    team := values "team"
    department := values "department"
    environment := values "environment"
    taskType := values "task_type"
    taskConfidence := taskConfidence
    riskLevel := values "risk_level"
    qualityThreshold := values "quality_threshold"
    traceId := values "trace_id"
    sdkClient := none
    extra := extras rt blob [] }

theorem headerFields_ne : ∀ h ∈ headerFields, h.1 ≠ "x-varsten-metadata" := by decide

theorem fieldValues_alone {lower : String → Option String} (h : Alone lower)
    (blob : List (String × Json)) :
    fieldValues rt blob lower = fun field => sanitizeStr rt ((item field blob).getD .null) := by
  have hne := headerFields_ne
  rw [fieldValues]
  generalize headerFields = headers at hne ⊢
  induction headers with
  | nil => rfl
  | cons g headers ih =>
    rw [List.forall_mem_cons] at hne
    rw [List.foldl_cons, h g.1 hne.1]
    exact ih hne.2

theorem parseRequestContext_alone {headers : List (String × String)} (h : Alone (lower headers)) :
    parseRequestContext digit number rt maxBytes headers =
      let blob := parseMetadataJson number maxBytes (lower headers "x-varsten-metadata")
      (sanitizeConfidence digit ((item "task_confidence" blob).getD .null)).map
        (contextOf rt blob) := by
  have hclient : lower headers sdkClientHeader = none := h _ (by decide)
  have hconfidence : lower headers "x-varsten-task-confidence" = none := h _ (by decide)
  simp only [parseRequestContext, fieldValues_alone rt h, hclient, confidence, hconfidence,
    Option.bind_none]
  cases sanitizeConfidence digit _ <;> rfl

end

end Varsten.Proxy.RequestMetadata
