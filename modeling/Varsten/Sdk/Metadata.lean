import Varsten.Proxy.RequestMetadata

/-!
# Workflow labels on the wire

`metadataHeaderValue` writes the labels of a request as one header; the proxy's
`parse_request_context` reads it.
-/

namespace Varsten.Sdk.Metadata

open Proxy.RequestMetadata
open Python (Json Runtime)
open Python.Json (item setItem setItems)
open Python.JsonText (Numerals chars charsFields dumps)
open Python.Utf8 (Text)

def varstenMetadataHeader : String := "X-Varsten-Metadata"

inductive RiskLevel where
  | low
  | medium
  | high

def RiskLevel.name : RiskLevel → String
  | .low => "low"
  | .medium => "medium"
  | .high => "high"

/-- An object as `Object.entries` lists it. -/
structure Entries where
  items : List (String × Json)
  nodup : (items.map Prod.fst).Nodup

structure VarstenRequestMetadata where
  traceId : Option String
  feature : Option String
  workflow : Option String
  customerId : Option String
  externalUserId : Option String
  userId : Option String
  team : Option String
  department : Option String
  environment : Option String
  taskType : Option String
  riskLevel : Option RiskLevel
  qualityThreshold : Option String
  extra : Option Entries

def fieldToKey : List ((VarstenRequestMetadata → Option String) × String) :=
  [(fun m => m.traceId, "trace_id"),
   (fun m => m.feature, "feature"),
   (fun m => m.workflow, "workflow"),
   (fun m => m.customerId, "customer_id"),
   (fun m => m.externalUserId, "external_user_id"),
   (fun m => m.userId, "user_id"),
   (fun m => m.team, "team"),
   (fun m => m.department, "department"),
   (fun m => m.environment, "environment"),
   (fun m => m.taskType, "task_type"),
   (fun m => m.riskLevel.map RiskLevel.name, "risk_level"),
   (fun m => m.qualityThreshold, "quality_threshold")]

/-- `out[key] = value`, which sets the prototype under `__proto__`. -/
def assign (out : List (String × Json)) (p : String × Json) : List (String × Json) :=
  if p.1 = "__proto__" then out else setItem p.1 p.2 out

def labelItems (m : VarstenRequestMetadata) : List (String × Json) :=
  fieldToKey.filterMap fun f => match f.1 m with
    | some value => if value ≠ "" then some (f.2, .str value) else none
    | none => none

def extras (m : VarstenRequestMetadata) : List (String × Json) :=
  m.extra.elim [] Entries.items

def extraItems (m : VarstenRequestMetadata) : List (String × Json) :=
  (extras m).filter (·.2 ≠ .null)

def metadataOut (m : VarstenRequestMetadata) : List (String × Json) :=
  (labelItems m ++ extraItems m).foldl assign []

def arrayIndex (key : String) : Option ℕ :=
  let n := key.toList.foldl (fun n c => 10 * n + (c.toNat - '0'.toNat)) 0
  if toString n = key ∧ n < 2 ^ 32 - 1 then some n else none

/-- The order of `Object.keys`: array indices come first, by their numbers. -/
def ownOrder (out : List (String × Json)) : List (String × Json) :=
  (out.filter fun p => (arrayIndex p.1).isSome).insertionSort
      (fun p q => (arrayIndex p.1).getD 0 ≤ (arrayIndex q.1).getD 0) ++
    out.filter fun p => !(arrayIndex p.1).isSome

def metadataHeaderValue (num : Numerals) (m : Option VarstenRequestMetadata) : Option Text :=
  match m with
  | none => none
  | some m =>
    let out := metadataOut m
    if out.length > 0 then some (dumps num (.obj (ownOrder out))) else none

def Legal (value : Text) : Prop := ∀ c ∈ value, c.toNat < 0x100

def headers (value : Option Text) : List (String × String) :=
  value.elim [] fun value => [(varstenMetadataHeader, String.ofList value)]

/-! ## What should arrive -/

def labels : List ((VarstenRequestMetadata → Option String) × (RequestContext → Option String)) :=
  [(fun m => m.traceId, fun ctx => ctx.traceId),
   (fun m => m.feature, fun ctx => ctx.feature),
   (fun m => m.workflow, fun ctx => ctx.workflow),
   (fun m => m.customerId, fun ctx => ctx.customerId),
   (fun m => m.externalUserId, fun ctx => ctx.externalUserId),
   (fun m => m.userId, fun ctx => ctx.userId),
   (fun m => m.team, fun ctx => ctx.team),
   (fun m => m.department, fun ctx => ctx.department),
   (fun m => m.environment, fun ctx => ctx.environment),
   (fun m => m.taskType, fun ctx => ctx.taskType),
   (fun m => m.riskLevel.map RiskLevel.name, fun ctx => ctx.riskLevel),
   (fun m => m.qualityThreshold, fun ctx => ctx.qualityThreshold)]

/-- Metadata that should arrive: its labels and extras are short texts, and few. -/
structure Fits (num : Numerals) (maxBytes : ℕ) (m : VarstenRequestMetadata) : Prop where
  labels : ∀ l ∈ labels, ∀ v, l.1 m = some v → Trimmed v
  extras : ∀ p ∈ extras m, ∃ s, p.2 = .str s ∧ Trimmed s
  count : (Metadata.extras m).length ≤ 32
  size : ∀ value, metadataHeaderValue num (some m) = some value →
    (Python.Utf8.encode value).length ≤ maxBytes

structure Arrived (m : VarstenRequestMetadata) (ctx : RequestContext) : Prop where
  labels : ∀ l ∈ labels, ∀ v, l.1 m = some v → l.2 ctx = some v
  extras : ∀ p ∈ extras m, item p.1 ctx.extra = some p.2

/-- The header is legal, and what the proxy reads of it are the labels and extras. -/
def Survives (digit : Char → Option ℕ) (number : Text → Option (Json × Text)) (num : Numerals)
    (rt : Runtime) (maxBytes : ℕ) (m : VarstenRequestMetadata) : Prop :=
  (∀ value, metadataHeaderValue num (some m) = some value → Legal value) ∧
    ∃ ctx, parseRequestContext digit number rt maxBytes
      (headers (metadataHeaderValue num (some m))) = some ctx ∧ Arrived m ctx

structure FreeKey (key : String) : Prop where
  unknown : key ∉ known
  proto : key ≠ "__proto__"
  length : key.toList.length ≤ maxValueLen

/-- All texts are Latin-1, and no extra is under a key that the proxy reads as a field, that the
SDK drops or that the proxy cuts. -/
structure Portable (m : VarstenRequestMetadata) : Prop where
  labels : ∀ l ∈ labels, ∀ v, l.1 m = some v → Legal v.toList
  extras : ∀ p ∈ extras m, Legal p.1.toList ∧ Legal (chars p.2)
  keys : ∀ p ∈ Metadata.extras m, FreeKey p.1

/-! ## What is assigned -/

theorem fieldToKey_keys : (fieldToKey.map Prod.snd).Nodup ∧
    ∀ key ∈ fieldToKey.map Prod.snd, key ∈ known ∧ key ≠ "__proto__" := by decide

theorem fieldToKey_labels : fieldToKey.map Prod.fst = labels.map Prod.fst := rfl

theorem labelItems_sublist (m : VarstenRequestMetadata) :
    ((labelItems m).map Prod.fst).Sublist (fieldToKey.map Prod.snd) := by
  rw [labelItems]
  induction fieldToKey with
  | nil => exact List.Sublist.slnil
  | cons f table ih =>
    rw [List.filterMap_cons, List.map_cons]
    cases h : f.1 m with
    | none => exact ih.cons f.2
    | some value =>
      dsimp only
      split_ifs
      · exact ih.cons_cons f.2
      · exact ih.cons f.2

theorem mem_labelItems {m : VarstenRequestMetadata} {p : String × Json} :
    p ∈ labelItems m ↔ ∃ f ∈ fieldToKey, ∃ v, f.1 m = some v ∧ v ≠ "" ∧ p = (f.2, .str v) := by
  rw [labelItems, List.mem_filterMap]
  refine exists_congr fun f => and_congr_right fun _ => ?_
  cases f.1 m with
  | none => simp
  | some value => simp [eq_comm]

theorem extraItems_strings {m : VarstenRequestMetadata}
    (h : ∀ p ∈ extras m, ∃ s, p.2 = .str s ∧ Trimmed s) : extraItems m = extras m := by
  rw [extraItems, List.filter_eq_self]
  intro p hp
  obtain ⟨s, hs, -⟩ := h p hp
  simp [hs]

theorem extras_nodup (m : VarstenRequestMetadata) : ((extras m).map Prod.fst).Nodup := by
  rw [extras]
  cases m.extra with
  | none => exact List.nodup_nil
  | some entries => exact entries.nodup

structure Own (out : List (String × Json)) : Prop where
  nodup : (out.map Prod.fst).Nodup
  proto : "__proto__" ∉ out.map Prod.fst

theorem Own.assign {out : List (String × Json)} (h : Own out) (p : String × Json) :
    Own (assign out p) := by
  rw [Metadata.assign]
  split_ifs with hp
  · exact h
  · refine ⟨Json.nodup_setItem h.nodup p.1 p.2, fun hm => ?_⟩
    obtain ⟨q, hq, hkey⟩ := List.mem_map.1 hm
    rcases Json.mem_setItem hq with hq | rfl
    · exact h.proto (hkey ▸ List.mem_map_of_mem hq)
    · exact hp hkey

theorem own_metadataOut (m : VarstenRequestMetadata) : Own (metadataOut m) := by
  have hrun : ∀ {items out : List (String × Json)}, Own out → Own (items.foldl assign out) := by
    intro items
    induction items with
    | nil => exact id
    | cons p items ih => exact fun h => ih (h.assign p)
  exact hrun ⟨List.nodup_nil, List.not_mem_nil⟩

theorem mem_assigned {items out : List (String × Json)} {p : String × Json}
    (h : p ∈ items.foldl assign out) : p ∈ out ∨ p ∈ items := by
  induction items generalizing out with
  | nil => exact .inl h
  | cons q items ih =>
    rcases ih h with h | h
    · rw [assign] at h
      split_ifs at h
      · exact .inl h
      · rcases Json.mem_setItem h with h | rfl
        · exact .inl h
        · exact .inr List.mem_cons_self
    · exact .inr (List.mem_cons_of_mem q h)

theorem assigned_eq {items : List (String × Json)} (h : Own items) :
    items.foldl assign [] = items := by
  have hset : ∀ {items : List (String × Json)}, "__proto__" ∉ items.map Prod.fst → ∀ out,
      items.foldl assign out = setItems out items := by
    intro items hp
    induction items with
    | nil => exact fun _ => rfl
    | cons p items ih =>
      intro out
      rw [List.map_cons, List.mem_cons, not_or] at hp
      rw [List.foldl_cons, assign, if_neg (Ne.symm hp.1), ih hp.2]
      rfl
  have hnew : setItems [] items = [] ++ items := Json.setItems_new h.nodup
  rw [hset h.proto, hnew, List.nil_append]

theorem ownOrder_perm (out : List (String × Json)) : (ownOrder out).Perm out := by
  rw [ownOrder]
  exact ((List.perm_insertionSort _ _).append_right _).trans (List.filter_append_perm _ _)

theorem mem_ownOrder {out : List (String × Json)} {p : String × Json} :
    p ∈ ownOrder out ↔ p ∈ out := (ownOrder_perm out).mem_iff

theorem ownOrder_nodup {out : List (String × Json)} (h : Own out) :
    ((ownOrder out).map Prod.fst).Nodup :=
  ((ownOrder_perm out).map Prod.fst).nodup_iff.2 h.nodup

/-! ## The proxy's side -/

section

variable {digit : Char → Option ℕ} {number : Text → Option (Json × Text)} {num : Numerals}
  {rt : Runtime} {maxBytes : ℕ} {m : VarstenRequestMetadata}

theorem alone_headers (value : Option Text) : Alone (lower (headers value)) := by
  intro name hname
  have hkey : lowerName varstenMetadataHeader = "x-varsten-metadata" := by decide
  cases value with
  | none => rfl
  | some value => simp [headers, lower, hkey, hname.symm]

theorem lower_headers (value : Text) :
    lower (headers (some value)) "x-varsten-metadata" = some (String.ofList value) := by
  have hkey : lowerName varstenMetadataHeader = "x-varsten-metadata" := by decide
  simp [headers, lower, hkey]

theorem header_some {value : Text} (h : metadataHeaderValue num (some m) = some value) :
    value = dumps num (.obj (ownOrder (metadataOut m))) := by
  rw [metadataHeaderValue] at h
  split_ifs at h
  exact (Option.some.inj h).symm

theorem header_none (h : metadataHeaderValue num (some m) = none) : metadataOut m = [] := by
  rw [metadataHeaderValue] at h
  split_ifs at h with hout
  exact List.length_eq_zero_iff.1 (by omega)

theorem strings_metadataOut (h : Fits num maxBytes m) :
    Python.JsonReader.Strings (metadataOut m) := by
  intro p hp
  rcases mem_assigned hp with hp | hp
  · cases hp
  · rcases List.mem_append.1 hp with hp | hp
    · obtain ⟨f, -, v, -, -, rfl⟩ := mem_labelItems.1 hp
      exact ⟨v, rfl⟩
    · rw [extraItems_strings h.extras] at hp
      obtain ⟨s, hs, -⟩ := h.extras p hp
      exact ⟨s, hs⟩

theorem parse_headers (h : Fits num maxBytes m) :
    parseMetadataJson number maxBytes
      (lower (headers (metadataHeaderValue num (some m))) "x-varsten-metadata") =
        ownOrder (metadataOut m) := by
  cases hv : metadataHeaderValue num (some m) with
  | none =>
    rw [header_none hv]
    rfl
  | some value =>
    have hsize := h.size value hv
    have hvalue := header_some hv
    have hne : String.ofList value ≠ "" := by
      rw [hvalue]
      exact fun h => absurd (congrArg String.toList h) (by simp [dumps])
    have hs : Python.JsonReader.Strings (ownOrder (metadataOut m)) := fun p hp =>
      strings_metadataOut h p (mem_ownOrder.1 hp)
    have hloads := Python.JsonReader.loads_dumps number num hs (ownOrder_nodup (own_metadataOut m))
    rw [← hvalue] at hloads
    rw [lower_headers, parseMetadataJson]
    simp only [if_neg hne, String.toList_ofList, if_neg (not_lt.2 hsize), hloads]

theorem parse_context (h : Fits num maxBytes m) : ∃ conf,
    parseRequestContext digit number rt maxBytes (headers (metadataHeaderValue num (some m))) =
      some (contextOf rt (ownOrder (metadataOut m)) conf) := by
  have hconf : ∃ conf, sanitizeConfidence digit
      ((item "task_confidence" (ownOrder (metadataOut m))).getD .null) = some conf := by
    cases hi : item "task_confidence" (ownOrder (metadataOut m)) with
    | none => exact ⟨none, rfl⟩
    | some value =>
      obtain ⟨s, hs⟩ := strings_metadataOut h _ (mem_ownOrder.1 (Json.mem_of_item hi))
      dsimp only at hs
      rw [hs]
      exact ⟨_, rfl⟩
  obtain ⟨conf, hconf⟩ := hconf
  refine ⟨conf, ?_⟩
  rw [parseRequestContext_alone digit number rt maxBytes (alone_headers _)]
  dsimp only
  rw [parse_headers h, hconf, Option.map_some]

theorem label_key (rt : Runtime)
    {l : (VarstenRequestMetadata → Option String) × (RequestContext → Option String)}
    (hl : l ∈ labels) : ∃ key, (l.1, key) ∈ fieldToKey ∧ ∀ blob conf,
      l.2 (contextOf rt blob conf) = sanitizeStr rt ((item key blob).getD .null) := by
  simp only [labels, List.mem_cons, List.not_mem_nil, or_false] at hl
  rcases hl with rfl | rfl | rfl | rfl | rfl | rfl | rfl | rfl | rfl | rfl | rfl | rfl
  all_goals
    refine ⟨_, ?_, fun _ _ => rfl⟩
    simp [fieldToKey]

/-! ## Labels that survive -/

theorem freeKey_of_arrived {conf : Option ℚ}
    (h : Arrived m (contextOf rt (ownOrder (metadataOut m)) conf)) {p : String × Json}
    (hp : p ∈ extras m) : FreeKey p.1 := by
  have hmem := List.mem_map_of_mem (f := Prod.fst) (Json.mem_of_item (h.extras p hp))
  rcases extras_key rt hmem with hm | ⟨f, hf, hunknown, hbound⟩
  · cases hm
  · have hshort : ∀ key ∈ "__proto__" :: known, key.toList.length < maxValueLen := by decide
    have hsame : ∀ {key}, key ∈ "__proto__" :: known → p.1 = key → f.1 = key := by
      rintro key hkey rfl
      exact eq_of_bounded hbound (hshort _ hkey)
    refine ⟨fun hk => ?_, fun hk => ?_, ?_⟩
    · exact hunknown (hsame (List.mem_cons_of_mem _ hk) rfl ▸ hk)
    · have hproto := (own_metadataOut m).proto
      rw [← hsame List.mem_cons_self hk] at hproto
      exact hproto (List.mem_map_of_mem (mem_ownOrder.1 hf))
    · rw [hbound]
      exact bounded_length f.1

theorem metadataOut_eq (h : Fits num maxBytes m) (hk : ∀ p ∈ extras m, FreeKey p.1) :
    metadataOut m = labelItems m ++ extras m := by
  rw [metadataOut, extraItems_strings h.extras]
  have hlabel : ∀ key ∈ (labelItems m).map Prod.fst, key ∈ known ∧ key ≠ "__proto__" :=
    fun key hkey => fieldToKey_keys.2 key ((labelItems_sublist m).subset hkey)
  have hextra : ∀ key ∈ (extras m).map Prod.fst, FreeKey key := by
    intro key hkey
    obtain ⟨p, hp, rfl⟩ := List.mem_map.1 hkey
    exact hk p hp
  refine assigned_eq ⟨?_, ?_⟩
  · rw [List.map_append]
    refine ((labelItems_sublist m).nodup fieldToKey_keys.1).append (extras_nodup m) ?_
    exact fun key hm he => (hextra key he).unknown (hlabel key hm).1
  · rw [List.map_append, List.mem_append]
    rintro (hm | he)
    · exact (hlabel _ hm).2 rfl
    · exact (hextra _ he).proto rfl

theorem legal_iff {value : Text} (hv : metadataHeaderValue num (some m) = some value) :
    Legal value ↔ ∀ p ∈ metadataOut m, Legal p.1.toList ∧ Legal (chars p.2) := by
  have hchars : ∀ c, 0x80 ≤ c.toNat →
      (c ∈ value ↔ ∃ p ∈ metadataOut m, c ∈ p.1.toList ∨ c ∈ chars p.2) := by
    intro c hc
    rw [header_some hv, (Python.JsonText.written_dumps num _).chars c hc, chars,
      Python.JsonText.mem_charsFields]
    simp only [mem_ownOrder]
  constructor
  · intro hl p hp
    refine ⟨fun c hc => ?_, fun c hc => ?_⟩
    · by_contra hlt
      exact hlt (hl c ((hchars c (by omega)).2 ⟨p, hp, .inl hc⟩))
    · by_contra hlt
      exact hlt (hl c ((hchars c (by omega)).2 ⟨p, hp, .inr hc⟩))
  · intro hl c hc
    by_contra hlt
    obtain ⟨p, hp, hm | hm⟩ := (hchars c (by omega)).1 hc
    · exact hlt ((hl p hp).1 c hm)
    · exact hlt ((hl p hp).2 c hm)

theorem legal_of_all {t : Text} (h : (t.all fun c => c.toNat < 0x100) = true) : Legal t :=
  fun c hc => of_decide_eq_true (List.all_eq_true.1 h c hc)

theorem legal_fields : ∀ f ∈ fieldToKey, Legal f.2.toList := by
  have hall : ∀ key ∈ fieldToKey.map Prod.snd,
      (key.toList.all fun c => c.toNat < 0x100) = true := by decide +kernel
  exact fun f hf => legal_of_all (hall f.2 (List.mem_map_of_mem hf))

theorem legal_labelItems (h : Fits num maxBytes m) :
    (∀ p ∈ labelItems m, Legal p.1.toList ∧ Legal (chars p.2)) ↔
      ∀ l ∈ labels, ∀ v, l.1 m = some v → Legal v.toList := by
  constructor
  · intro hp l hl v hv
    obtain ⟨key, hkey, -⟩ := label_key Runtime.blank hl
    exact (hp _ (mem_labelItems.2 ⟨_, hkey, v, hv, (h.labels l hl v hv).ne, rfl⟩)).2
  · intro hl p hp
    obtain ⟨f, hf, v, hv, -, rfl⟩ := mem_labelItems.1 hp
    have hfst := List.mem_map_of_mem (f := Prod.fst) hf
    rw [fieldToKey_labels] at hfst
    obtain ⟨l, hlabel, hl₁⟩ := List.mem_map.1 hfst
    rw [← hl₁] at hv
    exact ⟨legal_fields f hf, hl l hlabel v hv⟩

theorem others_ownOrder (h : Fits num maxBytes m) (hk : ∀ p ∈ extras m, FreeKey p.1) :
    (others (ownOrder (metadataOut m))).Perm (extras m) := by
  have hperm := (ownOrder_perm (metadataOut m)).filter fun p => p.1 ∉ known
  have hlabel : (labelItems m).filter (fun p => p.1 ∉ known) = [] := by
    rw [List.filter_eq_nil_iff]
    intro p hp
    have hkey := (labelItems_sublist m).subset (List.mem_map_of_mem hp)
    simpa using (fieldToKey_keys.2 p.1 hkey).1
  have hextra : (extras m).filter (fun p => p.1 ∉ known) = extras m := by
    rw [List.filter_eq_self]
    intro p hp
    simpa using (hk p hp).unknown
  rwa [metadataOut_eq h hk, List.filter_append, hlabel, hextra, List.nil_append,
    ← metadataOut_eq h hk] at hperm

theorem arrived_of_free (h : Fits num maxBytes m) (hk : ∀ p ∈ extras m, FreeKey p.1)
    (conf : Option ℚ) : Arrived m (contextOf rt (ownOrder (metadataOut m)) conf) := by
  have hnodup := ownOrder_nodup (own_metadataOut m)
  refine ⟨fun l hl v hv => ?_, fun p hp => ?_⟩
  · obtain ⟨key, hkey, hfield⟩ := label_key rt hl
    have hv' := h.labels l hl v hv
    have hitem : (key, Json.str v) ∈ ownOrder (metadataOut m) := by
      rw [mem_ownOrder, metadataOut_eq h hk]
      exact List.mem_append_left _ (mem_labelItems.2 ⟨_, hkey, v, hv, hv'.ne, rfl⟩)
    rw [hfield, Json.item_of_mem hnodup hitem, Option.getD_some, sanitizeStr_trimmed rt hv']
  · have hperm := others_ownOrder h hk
    have hothers : ((others (ownOrder (metadataOut m))).map Prod.fst).Nodup :=
      (List.filter_sublist.map Prod.fst).nodup hnodup
    have hextras : Proxy.RequestMetadata.extras rt (ownOrder (metadataOut m)) [] =
        others (ownOrder (metadataOut m)) := by
      refine extras_eq rt (fun q hq => h.extras q (hperm.mem_iff.1 hq))
        (fun q hq => (hk q (hperm.mem_iff.1 hq)).length) hothers ?_
      rw [List.nil_append, hperm.length_eq]
      exact h.count
    have hitem := Json.item_of_mem hothers (hperm.mem_iff.2 hp)
    rwa [← hextras] at hitem

/-- Labels and extras survive exactly where the header can carry them and no key is taken. -/
theorem labels_survive_iff (h : Fits num maxBytes m) :
    Survives digit number num rt maxBytes m ↔ Portable m := by
  obtain ⟨conf, hparse⟩ := @parse_context digit number num rt maxBytes m h
  constructor
  · rintro ⟨hlegal, ctx, hctx, harrived⟩
    rw [hparse] at hctx
    obtain rfl := Option.some.inj hctx
    have hk : ∀ p ∈ extras m, FreeKey p.1 := fun p hp => freeKey_of_arrived harrived hp
    have hitems : ∀ p ∈ labelItems m ++ extras m, Legal p.1.toList ∧ Legal (chars p.2) := by
      rw [← metadataOut_eq h hk]
      cases hv : metadataHeaderValue num (some m) with
      | none =>
        rw [header_none hv]
        exact fun p hp => absurd hp List.not_mem_nil
      | some value => exact (legal_iff hv).1 (hlegal value hv)
    rw [List.forall_mem_append] at hitems
    exact ⟨(legal_labelItems h).1 hitems.1, hitems.2, hk⟩
  · intro hp
    refine ⟨fun value hv => (legal_iff hv).2 ?_, _, hparse, arrived_of_free h hp.keys conf⟩
    rw [metadataOut_eq h hp.keys, List.forall_mem_append]
    exact ⟨(legal_labelItems h).2 hp.labels, hp.extras⟩

end

/-! ## Two requests -/

def zeros : Numerals := ⟨fun _ => ['0'], fun _ => rfl⟩

def plan : Entries := ⟨[("plan", .str "pro")], List.nodup_singleton _⟩

/-- A call of a feature, on a plan. -/
def call (feature : String) : VarstenRequestMetadata where
  traceId := none
  feature := some feature
  workflow := none
  customerId := none
  externalUserId := none
  userId := none
  team := none
  department := none
  environment := none
  taskType := none
  riskLevel := none
  qualityThreshold := none
  extra := some plan

theorem forall_labels_call {feature : String} {P : String → Prop} (h : P feature) :
    ∀ l ∈ labels, ∀ v, l.1 (call feature) = some v → P v := by
  simpa [labels, call] using h

theorem fits_call {feature : String} (h : Trimmed feature)
    (hsize : (Python.Utf8.encode
      (dumps zeros (.obj (ownOrder (metadataOut (call feature)))))).length ≤ 8192) :
    Fits zeros 8192 (call feature) where
  labels := forall_labels_call h
  extras p hp := by
    obtain rfl := List.mem_singleton.1 hp
    exact ⟨"pro", rfl, by decide, by decide, by decide⟩
  count := Nat.le_of_ble_eq_true rfl
  size value hv := by rwa [header_some hv]

theorem support_fits : Fits zeros 8192 (call "support") :=
  fits_call ⟨by decide, by decide, by decide⟩ (by decide +kernel)

theorem support_portable : Portable (call "support") where
  labels := forall_labels_call (P := fun v => Legal v.toList) (legal_of_all rfl)
  extras p hp := by
    obtain rfl := List.mem_singleton.1 hp
    exact ⟨legal_of_all rfl, legal_of_all rfl⟩
  keys p hp := by
    obtain rfl := List.mem_singleton.1 hp
    exact ⟨by decide, by decide, by decide⟩

theorem support_survives : Fits zeros 8192 (call "support") ∧ Portable (call "support") ∧
    Survives (fun _ => none) (fun _ => none) zeros Runtime.blank 8192 (call "support") :=
  ⟨support_fits, support_portable, (labels_survive_iff support_fits).2 support_portable⟩

theorem kanji_illegal : Fits zeros 8192 (call "日本") ∧
    ¬ Survives (fun _ => none) (fun _ => none) zeros Runtime.blank 8192 (call "日本") := by
  refine ⟨fits_call ⟨by decide, by decide, by decide⟩ (by decide +kernel), fun h => ?_⟩
  have hillegal : ¬ Legal (dumps zeros (.obj (ownOrder (metadataOut (call "日本"))))) := by
    intro hl
    have hc := hl '日' (by decide +kernel)
    exact absurd hc (by decide)
  exact hillegal (h.1 _ rfl)

end Varsten.Sdk.Metadata
