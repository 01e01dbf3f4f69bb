import Varsten.Proxy.Providers.Anthropic
import Varsten.Proxy.Reports

/-!
# Anthropic streams of one message

A message, the event sequences that describe it, and what the translator makes of
them. The tool blocks are stopped one after the other, so at most one is open.
-/

namespace Varsten.Proxy.AnthropicStream

open Python (Json Py PyError Gen Runtime)
open Providers (CanonicalUsage CanonicalCompletion Out)
open Python.Json (HasItems truthy_str str_orElse_empty obj_orElse_empty)
open Providers.Anthropic
open Reports

/-! ## Usage reports -/

/-- A count in a usage object: no key, `null` or a number. -/
inductive Count where
  | absent
  | null
  | tokens (n : ℕ)
deriving DecidableEq

def Count.item : Count → Option Json
  | .absent => none
  | .null => some .null
  | .tokens n => some (.int n)

def Count.reported : Count → Option ℕ
  | .tokens n => some n
  | _ => none

def Count.value (c : Count) : ℕ := c.reported.getD 0

structure Report where
  input : Count
  cacheCreation : Count
  cacheRead : Count
  output : Count
deriving DecidableEq

def Report.inputs (u : Report) : Option ℕ := u.input.reported
def Report.creations (u : Report) : Option ℕ := u.cacheCreation.reported
def Report.reads (u : Report) : Option ℕ := u.cacheRead.reported
def Report.outputs (u : Report) : Option ℕ := u.output.reported

def Report.items (u : Report) : List (String × Count) :=
  [("input_tokens", u.input), ("cache_creation_input_tokens", u.cacheCreation),
    ("cache_read_input_tokens", u.cacheRead), ("output_tokens", u.output)]

/-- The usage object of the report; one that reports nothing may be missing. -/
def Report.Renders (u : Report) (j : Json) : Prop :=
  (∃ fields, j = .obj fields ∧ ∀ p ∈ u.items, Json.item p.1 fields = p.2.item) ∨
    (j = .null ∧ ∀ p ∈ u.items, p.2 = .absent)

def Report.apply (u : Report) (previous : CanonicalUsage) : CanonicalUsage :=
  let read := if u.cacheRead.value = 0 then previous.providerCachedInputTokens
    else u.cacheRead.value
  ⟨if u.input = .absent then previous.inputTokens
      else u.input.value + u.cacheCreation.value + read,
    if u.output = .absent then previous.outputTokens else u.output.value, read⟩

theorem toInt_int (n : ℤ) : (Json.int n).toInt = .ok n := rfl

theorem truthy_int (n : ℤ) : (Json.int n).truthy = decide (n ≠ 0) := rfl

theorem count_toInt (c : Count) (previous : ℤ) :
    ((c.item.getD .null).orElse (.int previous)).toInt =
      .ok (if c.value = 0 then previous else c.value) := by
  cases c with
  | absent => rfl
  | null => rfl
  | tokens n =>
    simp only [Count.item, Option.getD_some, Json.orElse, truthy_int, Count.value, Count.reported]
    by_cases hn : n = 0
    · simp [hn, toInt_int]
    · simp [hn, toInt_int]

theorem present_toInt {c : Count} {j : Json} (h : c.item = some j) :
    (j.orElse (.int 0)).toInt = .ok (c.value : ℤ) := by
  have hc := count_toInt c 0
  rw [h, Option.getD_some] at hc
  rw [hc]
  split_ifs with h0
  · rw [h0]
    rfl
  · rfl

theorem item_eq_none {c : Count} : c.item = none ↔ c = .absent := by
  cases c <;> simp [Count.item]

theorem apply_absent {u : Report} (h : ∀ p ∈ u.items, p.2 = .absent) (previous : CanonicalUsage) :
    u.apply previous = previous := by
  have hin := h ("input_tokens", u.input) (by simp [Report.items])
  have hrd := h ("cache_read_input_tokens", u.cacheRead) (by simp [Report.items])
  have hout := h ("output_tokens", u.output) (by simp [Report.items])
  dsimp only at hin hrd hout
  simp [Report.apply, hin, hrd, hout, Count.value, Count.reported]

theorem usageFromAnthropic_fields {u : Report} {fields : List (String × Json)}
    (h : ∀ p ∈ u.items, Json.item p.1 fields = p.2.item) (hne : fields ≠ [])
    (previous : CanonicalUsage) :
    usageFromAnthropic (.obj fields) previous = .ok (u.apply previous) := by
  have ht : (Json.obj fields).truthy = true := by
    cases fields with
    | nil => exact absurd rfl hne
    | cons f fields => rfl
  have hin := h ("input_tokens", u.input) (by simp [Report.items])
  have hcr := h ("cache_creation_input_tokens", u.cacheCreation) (by simp [Report.items])
  have hrd := h ("cache_read_input_tokens", u.cacheRead) (by simp [Report.items])
  have hout := h ("output_tokens", u.output) (by simp [Report.items])
  dsimp only at hin hcr hrd hout
  have hcreation : (if u.cacheCreation.value = 0 then (0 : ℤ) else u.cacheCreation.value) =
      u.cacheCreation.value := by
    split_ifs with h0
    · rw [h0]
      rfl
    · rfl
  simp only [usageFromAnthropic, ht, Bool.not_true, Bool.false_eq_true, if_false, Json.get,
    Json.member, hin, hcr, hrd, hout, Py.bind_ok, count_toInt, hcreation]
  cases hi : u.input.item <;> cases ho : u.output.item
  case none.none =>
    simp [Report.apply, item_eq_none.1 hi, item_eq_none.1 ho, pure, Except.pure, Py.bind_ok]
  case none.some o =>
    have hno : u.output ≠ .absent := fun h => by simp [item_eq_none.2 h] at ho
    simp [Report.apply, item_eq_none.1 hi, hno, pure, Except.pure, Py.bind_ok, present_toInt ho]
  case some.none i =>
    have hni : u.input ≠ .absent := fun h => by simp [item_eq_none.2 h] at hi
    simp [Report.apply, item_eq_none.1 ho, hni, pure, Except.pure, Py.bind_ok, present_toInt hi]
  case some.some i o =>
    have hni : u.input ≠ .absent := fun h => by simp [item_eq_none.2 h] at hi
    have hno : u.output ≠ .absent := fun h => by simp [item_eq_none.2 h] at ho
    simp [Report.apply, hni, hno, pure, Except.pure, Py.bind_ok, present_toInt hi,
      present_toInt ho]

theorem usageFromAnthropic_eq {u : Report} {j : Json} (h : u.Renders j)
    (previous : CanonicalUsage) : usageFromAnthropic j previous = .ok (u.apply previous) := by
  rcases h with ⟨fields, rfl, h⟩ | ⟨rfl, h⟩
  · by_cases hne : fields = []
    · subst hne
      rw [apply_absent fun p hp => item_eq_none.1 (h p hp).symm]
      rfl
    · exact usageFromAnthropic_fields h hne previous
  · rw [apply_absent h]
    rfl

def total (us : List Report) : CanonicalUsage := us.foldl (fun p u => u.apply p) .zero

theorem total_concat (us : List Report) (u : Report) : total (us ++ [u]) = u.apply (total us) := by
  simp [total]

theorem total_read {us : List Report} (h : Cumulative Report.reads us) :
    (total us).providerCachedInputTokens = final Report.reads us :=
  keep_nonzero (f := fun us => (total us).providerCachedInputTokens) rfl
    (fun us u => by rw [total_concat]; rfl) h

def LastKeyed (column : Report → Count) (us pre : List Report) (u : Report) (post : List Report) :
    Prop :=
  us = pre ++ u :: post ∧ column u ≠ .absent ∧ ∀ v ∈ post, column v = .absent

theorem exists_lastKeyed {column : Report → Count} {us : List Report}
    (h : ∃ u ∈ us, column u ≠ .absent) : ∃ pre u post, LastKeyed column us pre u post := by
  induction us using List.reverseRecOn with
  | nil =>
    obtain ⟨u, hu, -⟩ := h
    cases hu
  | append_singleton us v ih =>
    by_cases hv : column v = .absent
    · obtain ⟨u, hu, hc⟩ := h
      have hm : u ∈ us := by
        rcases List.mem_append.1 hu with hu | hu
        · exact hu
        · exact absurd hv (List.mem_singleton.1 hu ▸ hc)
      obtain ⟨pre, w, post, rfl, hw, hpost⟩ := ih ⟨u, hm, hc⟩
      refine ⟨pre, w, post ++ [v], by simp, hw, fun x hx => ?_⟩
      rcases List.mem_append.1 hx with hx | hx
      · exact hpost x hx
      · exact List.mem_singleton.1 hx ▸ hv
    · exact ⟨us, v, [], rfl, hv, by simp⟩

theorem total_post {field : CanonicalUsage → ℤ} {column : Report → Count}
    (hstep : ∀ (u : Report) p, column u = .absent → field (u.apply p) = field p)
    {pre post : List Report} (h : ∀ v ∈ post, column v = .absent) :
    field (total (pre ++ post)) = field (total pre) := by
  induction post using List.reverseRecOn with
  | nil => rw [List.append_nil]
  | append_singleton post v ih =>
    rw [← List.append_assoc, total_concat, hstep v _ (h v (by simp))]
    exact ih fun w hw => h w (List.mem_append_left _ hw)

/-- The last report with an output count gives the final one. -/
def OutputKept (us : List Report) : Prop :=
  ∃ pre u post, LastKeyed Report.output us pre u post ∧ u.output.value = final Report.outputs us

/-- The last report with an input count gives the final input and cache creation counts, and the
cache reads are final by then. -/
def InputKept (us : List Report) : Prop :=
  ∃ pre u post, LastKeyed Report.input us pre u post ∧ u.input.value = final Report.inputs us ∧
    u.cacheCreation.value = final Report.creations us ∧
    final Report.reads (pre ++ [u]) = final Report.reads us

theorem lastKeyed_eq {column : Report → Count} {us pre post : List Report} {u : Report}
    (h : LastKeyed column us pre u post) : us = (pre ++ [u]) ++ post := by
  simp [h.1]

theorem output_kept_iff {us : List Report} (h : ∃ u ∈ us, u.output ≠ .absent) :
    (total us).outputTokens = final Report.outputs us ↔ OutputKept us := by
  have hstep : ∀ (u : Report) p, u.output = .absent → (u.apply p).outputTokens = p.outputTokens :=
    fun u p hu => if_pos hu
  have hlast : ∀ {pre u post}, LastKeyed Report.output us pre u post →
      (total us).outputTokens = u.output.value := by
    intro pre u post hl
    rw [lastKeyed_eq hl, total_post hstep hl.2.2, total_concat]
    exact if_neg hl.2.1
  constructor
  · intro heq
    obtain ⟨pre, u, post, hl⟩ := exists_lastKeyed h
    exact ⟨pre, u, post, hl, by exact_mod_cast (hlast hl).symm.trans heq⟩
  · intro hk
    obtain ⟨pre, u, post, hl, hv⟩ := hk
    rw [hlast hl, hv]

theorem input_kept_iff {us : List Report} (h : ∃ u ∈ us, u.input ≠ .absent)
    (hin : Cumulative Report.inputs us) (hcr : Cumulative Report.creations us)
    (hrd : Cumulative Report.reads us) :
    (total us).inputTokens = final Report.inputs us + final Report.creations us +
      final Report.reads us ↔ InputKept us := by
  have hstep : ∀ (u : Report) p, u.input = .absent → (u.apply p).inputTokens = p.inputTokens :=
    fun u p hu => if_pos hu
  have hlast : ∀ {pre u post}, LastKeyed Report.input us pre u post →
      (total us).inputTokens = u.input.value + u.cacheCreation.value +
        final Report.reads (pre ++ [u]) := by
    intro pre u post hl
    have hread : Cumulative Report.reads (pre ++ [u]) := by
      rw [lastKeyed_eq hl] at hrd
      exact hrd.prefix
    rw [← total_read hread, lastKeyed_eq hl, total_post hstep hl.2.2, total_concat]
    exact if_neg hl.2.1
  constructor
  · intro heq
    obtain ⟨pre, u, post, hl⟩ := exists_lastKeyed h
    rw [hlast hl] at heq
    have h₁ : u.inputs.getD 0 ≤ final Report.inputs us := by
      rw [hl.1] at hin ⊢
      exact value_le_final hin
    have h₂ : u.creations.getD 0 ≤ final Report.creations us := by
      rw [hl.1] at hcr ⊢
      exact value_le_final hcr
    change u.input.value ≤ _ at h₁
    change u.cacheCreation.value ≤ _ at h₂
    have h₃ := final_mono (lastKeyed_eq hl ▸ hrd)
    rw [← lastKeyed_eq hl] at h₃
    exact ⟨pre, u, post, hl, by omega, by omega, by omega⟩
  · intro hk
    obtain ⟨pre, u, post, hl, h₁, h₂, h₃⟩ := hk
    rw [hlast hl, h₁, h₂, h₃]

/-! ## Events -/

inductive Event where
  | messageStart (model : String) (usage : Report)
  | textStart (index : ℕ) (text : String)
  | toolStart (index : ℕ) (id name : String) (input : List (String × Json))
  | textDelta (index : ℕ) (text : String)
  | inputDelta (index : ℕ) (piece : String)
  | blockStop (index : ℕ)
  | messageDelta (stopReason : Option String) (usage : Report)
  | messageStop

/-- A stop reason in JSON; a missing one may be `null`. -/
def IsStopReason (stopReason : Option String) (j : Json) : Prop :=
  j = (stopReason.map Json.str).getD .null

/-- The payload of the event; other fields are free. -/
def Renders : Event → Json → Prop
  | .messageStart model usage, j => ∃ message, HasItems j [("type", .str "message_start"),
      ("message", message)] ∧ HasItems message [("model", .str model)] ∧
      usage.Renders (message.val "usage")
  | .textStart index text, j => ∃ block, HasItems j [("type", .str "content_block_start"),
      ("index", .int index), ("content_block", block)] ∧
      HasItems block [("type", .str "text"), ("text", .str text)]
  | .toolStart index id name input, j => ∃ block, HasItems j
      [("type", .str "content_block_start"), ("index", .int index), ("content_block", block)] ∧
      HasItems block [("type", .str "tool_use"), ("id", .str id), ("name", .str name),
        ("input", .obj input)]
  | .textDelta index text, j => ∃ delta, HasItems j [("type", .str "content_block_delta"),
      ("index", .int index), ("delta", delta)] ∧
      HasItems delta [("type", .str "text_delta"), ("text", .str text)]
  | .inputDelta index piece, j => ∃ delta, HasItems j [("type", .str "content_block_delta"),
      ("index", .int index), ("delta", delta)] ∧
      HasItems delta [("type", .str "input_json_delta"), ("partial_json", .str piece)]
  | .blockStop index, j => HasItems j [("type", .str "content_block_stop"),
      ("index", .int index)]
  | .messageDelta stopReason usage, j => ∃ delta, HasItems j [("type", .str "message_delta"),
      ("delta", .obj delta)] ∧ IsStopReason stopReason ((Json.item "stop_reason" delta).getD .null) ∧
      usage.Renders (j.val "usage")
  | .messageStop, j => HasItems j [("type", .str "message_stop")]

def IsPing (j : Json) : Prop := HasItems j [("type", .str "ping")]

/-- Payloads of the events in order, with pings anywhere between them. -/
inductive Payloads : List Event → List Json → Prop
  | nil : Payloads [] []
  | ping {es : List Event} {j : Json} {js : List Json} (ping : IsPing j) (rest : Payloads es js) :
    Payloads es (j :: js)
  | event {e : Event} {es : List Event} {j : Json} {js : List Json} (event : Renders e j)
    (rest : Payloads es js) : Payloads (e :: es) (j :: js)

inductive Block where
  | text (text : String)
  | toolUse (id name : String) (input : List (String × Json))

variable {rt : Runtime} {s : Translator} {j : Json}

theorem index_of {items : List (String × Json)} (h : HasItems j items) {i : ℕ}
    (hk : ("index", Json.int i) ∈ items) : index j = .ok (i : ℤ) := by
  rw [Providers.Anthropic.index, h.get hk, Py.bind_ok]
  cases i <;> rfl

def addText (s : Translator) (text : String) : Translator :=
  if text = "" then s else { s with parts := s.parts ++ [text] }

theorem emitText_result {text : String} (h : text ≠ "") :
    (emitText rt s (.str text)).result = .ok (addText s text) := by
  rw [addText, if_neg h]
  rfl

theorem text_result {text : String} {other : Gen Out Translator} (ho : other.result = .ok s) :
    (if (Json.str text).truthy = true then emitText rt s (.str text) else other).result =
      .ok (addText s text) := by
  by_cases h : text = ""
  · rw [if_neg fun hc => (truthy_str text).1 hc h, ho, addText, if_pos h]
  · rw [if_pos ((truthy_str text).2 h), emitText_result h]

theorem handle_textStart {i : ℕ} {text : String} (h : Renders (.textStart i text) j) :
    (handleEvent rt s j).result = .ok (addText s text) := by
  obtain ⟨block, hj, hb⟩ := h
  have hor := hb.orElse
  obtain ⟨fields, rfl, hf⟩ := hb
  have htype := hf ("type", .str "text") (by simp)
  have htext := hf ("text", .str text) (by simp)
  dsimp only at htype htext
  rw [handleEvent, hj.get (v := .str "content_block_start") (by simp), Gen.lift_ok_bind]
  rw [handleContentBlockStart, index_of hj (i := i) (by simp), hj.get (v := .obj fields) (by simp)]
  simp only [Py.bind_ok, hor, pure, Except.pure, Gen.lift_ok_bind, htype, htext, Option.getD_some,
    true_and]
  exact text_result rfl

theorem handle_textDelta {i : ℕ} {text : String} (h : Renders (.textDelta i text) j) :
    (handleEvent rt s j).result = .ok (addText s text) := by
  obtain ⟨delta, hj, hd⟩ := h
  have hor := hd.orElse
  obtain ⟨fields, rfl, hf⟩ := hd
  have htype := hf ("type", .str "text_delta") (by simp)
  have htext := hf ("text", .str text) (by simp)
  dsimp only at htype htext
  rw [handleEvent, hj.get (v := .str "content_block_delta") (by simp), Gen.lift_ok_bind]
  rw [handleContentBlockDelta, index_of hj (i := i) (by simp), hj.get (v := .obj fields) (by simp)]
  simp only [Py.bind_ok, hor, pure, Except.pure, Gen.lift_ok_bind, htype, htext, Option.getD_some,
    true_and]
  exact text_result rfl

theorem handle_toolStart (rt : Runtime) {i : ℕ} {id name : String} {input : List (String × Json)}
    (h : Renders (.toolStart i id name input) j) :
    ∃ fields, HasItems (.obj fields) [("id", .str id), ("name", .str name), ("input", .obj input)] ∧
      (handleEvent rt s j).result =
        .ok { s with toolBlocks := setBlock i ⟨fields, ""⟩ s.toolBlocks } := by
  obtain ⟨block, hj, hb⟩ := h
  have hor := hb.orElse
  obtain ⟨fields, rfl, hf⟩ := hb
  have htype := hf ("type", .str "tool_use") (by simp)
  dsimp only at htype
  refine ⟨fields, ⟨fields, rfl, fun p hp => hf p (List.mem_cons_of_mem _ hp)⟩, ?_⟩
  rw [handleEvent, hj.get (v := .str "content_block_start") (by simp), Gen.lift_ok_bind]
  rw [handleContentBlockStart, index_of hj (i := i) (by simp), hj.get (v := .obj fields) (by simp)]
  simp only [Py.bind_ok, hor, pure, Except.pure, Gen.lift_ok_bind, htype, Option.getD_some]
  rfl

theorem handle_inputDelta {i : ℕ} {piece : String} {b : ToolBlock}
    (h : Renders (.inputDelta i piece) j) (hs : s.toolBlocks = [((i : ℤ), b)]) :
    (handleEvent rt s j).result =
      .ok { s with toolBlocks := [((i : ℤ), ⟨b.fields, b.partialJson ++ piece⟩)] } := by
  obtain ⟨delta, hj, hd⟩ := h
  have hor := hd.orElse
  obtain ⟨fields, rfl, hf⟩ := hd
  have htype := hf ("type", .str "input_json_delta") (by simp)
  have hpiece := hf ("partial_json", .str piece) (by simp)
  dsimp only at htype hpiece
  have hstr : rt.str ((Json.str piece).orElse (.str "")) = piece := by
    rw [Json.orElse]
    split_ifs with ht
    · rfl
    · rw [truthy_str, not_not] at ht
      rw [ht]
      rfl
  rw [handleEvent, hj.get (v := .str "content_block_delta") (by simp), Gen.lift_ok_bind]
  rw [handleContentBlockDelta, index_of hj (i := i) (by simp), hj.get (v := .obj fields) (by simp)]
  simp only [Py.bind_ok, hor, pure, Except.pure, Gen.lift_ok_bind, htype, hpiece, Option.getD_some, hs,
    hstr, blockAt, setBlock]
  simp [Gen.ok]

def toolCall (rt : Runtime) (id name : String) (input : List (String × Json)) : Json :=
  .obj [("id", .str id), ("type", .str "function"),
    ("function", .obj [("name", .str name), ("arguments", .str (rt.dumps (.obj input)))])]

theorem openaiToolCall_eq (rt : Runtime) {id name : String} {input fields : List (String × Json)}
    (hid : Json.item "id" fields = some (.str id)) (hn : Json.item "name" fields = some (.str name))
    (hi : Json.item "input" fields = some (.obj input)) :
    .obj (openaiToolCall rt fields) = toolCall rt id name input := by
  simp only [openaiToolCall, toolCall, hid, hn, hi, Option.getD_some, str_orElse_empty,
    obj_orElse_empty]

def InputPieces (rt : Runtime) (started input : List (String × Json)) (pieces : List String) :
    Prop :=
  (started = input ∧ String.join pieces = "") ∨
    (started = [] ∧ String.join pieces ≠ "" ∧
      rt.loads (String.join pieces).toList = some (.obj input))

theorem handle_blockStop {i : ℕ} {id name : String} {started input fields : List (String × Json)}
    {pieces : List String} (h : Renders (.blockStop i) j)
    (hf : HasItems (.obj fields) [("id", .str id), ("name", .str name), ("input", .obj started)])
    (hs : s.toolBlocks = [((i : ℤ), ⟨fields, String.join pieces⟩)])
    (hp : InputPieces rt started input pieces) :
    (handleEvent rt s j).result =
      .ok { s with toolBlocks := [], toolCalls := s.toolCalls ++ [toolCall rt id name input] } := by
  obtain ⟨_, hobj, hf⟩ := hf
  obtain rfl := Json.obj.inj hobj
  have hid := hf ("id", .str id) (by simp)
  have hname := hf ("name", .str name) (by simp)
  have hinput := hf ("input", .obj started) (by simp)
  dsimp only at hid hname hinput
  have hcall : Json.obj (openaiToolCall rt (if String.join pieces ≠ "" ∧
      !(Json.obj started).truthy then Json.setItem "input"
        (jsonObjectOrEmpty rt (String.join pieces)) fields else fields)) =
      toolCall rt id name input := by
    rcases hp with ⟨rfl, hp⟩ | ⟨rfl, hp, hl⟩
    · rw [if_neg fun h => h.1 hp]
      exact openaiToolCall_eq rt hid hname hinput
    · rw [if_pos ⟨hp, rfl⟩, jsonObjectOrEmpty, hl]
      apply openaiToolCall_eq
      · rw [Json.item_setItem_of_ne (by decide), hid]
      · rw [Json.item_setItem_of_ne (by decide), hname]
      · rw [Json.item_setItem_self]
  rw [handleEvent, h.get (v := .str "content_block_stop") (by simp), Gen.lift_ok_bind]
  rw [handleContentBlockStop, index_of h (i := i) (by simp), Gen.lift_ok_bind, hs]
  simp only [blockAt, List.find?_cons, decide_true, Option.map_some, hinput, Option.getD_some]
  simp only [Gen.yield, hcall, ne_eq, decide_not, List.filter_cons, decide_true, Bool.not_true,
    Bool.false_eq_true, if_false, List.filter_nil]

inductive BlockEvents (rt : Runtime) (i : ℕ) : Block → List Event → Prop
  | text (first : String) (deltas : List String) :
    BlockEvents rt i (.text (first ++ String.join deltas))
      (.textStart i first :: deltas.map (.textDelta i) ++ [.blockStop i])
  | toolUse (id name : String) {started input : List (String × Json)} {pieces : List String}
    (whole : InputPieces rt started input pieces) :
    BlockEvents rt i (.toolUse id name input)
      (.toolStart i id name started :: pieces.map (.inputDelta i) ++ [.blockStop i])

inductive BlocksEvents (rt : Runtime) : ℕ → List Block → List Event → Prop
  | nil (i : ℕ) : BlocksEvents rt i [] []
  | cons {i : ℕ} {b : Block} {bs : List Block} {es rest : List Event} (block : BlockEvents rt i b es)
    (others : BlocksEvents rt (i + 1) bs rest) : BlocksEvents rt i (b :: bs) (es ++ rest)

/-! ## Runs -/

theorem handle_ping (h : IsPing j) : (handleEvent rt s j).result = .ok s := by
  rw [handleEvent, HasItems.get h (v := .str "ping") (by simp), Gen.lift_ok_bind]
  rfl

theorem Payloads.split {es es' : List Event} {js : List Json} (h : Payloads (es ++ es') js) :
    ∃ js₁ js₂, js = js₁ ++ js₂ ∧ Payloads es js₁ ∧ Payloads es' js₂ := by
  generalize hes : es ++ es' = both at h
  induction h generalizing es with
  | nil =>
    obtain ⟨rfl, rfl⟩ := List.append_eq_nil_iff.1 hes
    exact ⟨[], [], rfl, .nil, .nil⟩
  | @ping _ j _ ping _ ih =>
    obtain ⟨js₁, js₂, rfl, h₁, h₂⟩ := ih hes
    exact ⟨j :: js₁, js₂, rfl, .ping ping h₁, h₂⟩
  | @event e _ j js event rest ih =>
    cases es with
    | nil =>
      rw [List.nil_append] at hes
      exact ⟨[], j :: js, rfl, .nil, hes ▸ .event event rest⟩
    | cons e' es =>
      obtain ⟨rfl, htail⟩ := List.cons.inj hes
      obtain ⟨js₁, js₂, rfl, h₁, h₂⟩ := ih htail
      exact ⟨j :: js₁, js₂, rfl, .event event h₁, h₂⟩

/-- Any payloads of these events take the translator to a state with the property. -/
def Reaches (rt : Runtime) (s : Translator) (es : List Event) (P : Translator → Prop) : Prop :=
  ∀ js, Payloads es js → ∃ s', (handleEvents rt s js).result = .ok s' ∧ P s'

theorem Reaches.nil {P : Translator → Prop} (h : P s) : Reaches rt s [] P := by
  intro js hjs
  generalize hes : ([] : List Event) = es at hjs
  induction hjs with
  | nil => exact ⟨s, rfl, h⟩
  | ping ping _ ih =>
    obtain ⟨s', hs', hp⟩ := ih hes
    exact ⟨s', Gen.bind_result_eq_ok.2 ⟨s, handle_ping ping, hs'⟩, hp⟩
  | event _ _ _ => cases hes

theorem Reaches.cons {e : Event} {es : List Event} {P : Translator → Prop}
    (h : ∀ j, Renders e j → ∃ s₁, (handleEvent rt s j).result = .ok s₁ ∧ Reaches rt s₁ es P) :
    Reaches rt s (e :: es) P := by
  intro js hjs
  generalize hes : e :: es = all at hjs
  induction hjs with
  | nil => cases hes
  | ping ping _ ih =>
    obtain ⟨s', hs', hp⟩ := ih hes
    exact ⟨s', Gen.bind_result_eq_ok.2 ⟨s, handle_ping ping, hs'⟩, hp⟩
  | event event rest _ =>
    obtain ⟨rfl, rfl⟩ := List.cons.inj hes
    obtain ⟨s₁, h₁, hes⟩ := h _ event
    obtain ⟨s', hs', hp⟩ := hes _ rest
    exact ⟨s', Gen.bind_result_eq_ok.2 ⟨s₁, h₁, hs'⟩, hp⟩

theorem Reaches.append {es es' : List Event} {P Q : Translator → Prop} (h : Reaches rt s es Q)
    (h' : ∀ s', Q s' → Reaches rt s' es' P) : Reaches rt s (es ++ es') P := by
  intro js hjs
  obtain ⟨js₁, js₂, rfl, h₁, h₂⟩ := hjs.split
  obtain ⟨s₁, hs₁, hq⟩ := h js₁ h₁
  obtain ⟨s₂, hs₂, hp⟩ := h' s₁ hq js₂ h₂
  exact ⟨s₂, Gen.fold_append hs₁ hs₂, hp⟩

theorem Reaches.weaken {es : List Event} {P Q : Translator → Prop} (h : Reaches rt s es P)
    (hpq : ∀ s', P s' → Q s') : Reaches rt s es Q := by
  intro js hjs
  obtain ⟨s', hs', hp⟩ := h js hjs
  exact ⟨s', hs', hpq s' hp⟩

structure Holds (s : Translator) (text : String) (calls : List Json) (model finish : Json)
    (usage : CanonicalUsage) : Prop where
  parts : String.join s.parts = text
  toolCalls : s.toolCalls = calls
  toolBlocks : s.toolBlocks = []
  model : s.model = model
  finishReason : s.finishReason = finish
  currentUsage : s.currentUsage = usage

section Blocks

variable {text : String} {calls : List Json} {model finish : Json} {usage : CanonicalUsage} {i : ℕ}

theorem Holds.addText (h : Holds s text calls model finish usage) (t : String) :
    Holds (addText s t) (text ++ t) calls model finish usage := by
  unfold AnthropicStream.addText
  split_ifs with ht
  · rw [ht, String.append_empty]
    exact h
  · refine ⟨?_, h.toolCalls, h.toolBlocks, h.model, h.finishReason, h.currentUsage⟩
    rw [String.join_append, h.parts]
    simp

theorem reaches_textDeltas (h : Holds s text calls model finish usage) (deltas : List String) :
    Reaches rt s (deltas.map (.textDelta i))
      fun s' => Holds s' (text ++ String.join deltas) calls model finish usage := by
  induction deltas generalizing s text with
  | nil =>
    apply Reaches.nil
    simpa using h
  | cons t deltas ih =>
    apply Reaches.cons
    intro j hj
    refine ⟨_, handle_textDelta hj, (ih (h.addText t)).weaken fun s' hs' => ?_⟩
    rwa [String.join_cons, ← String.append_assoc]

theorem handle_closedStop (h : Renders (.blockStop i) j) (hs : s.toolBlocks = []) :
    (handleEvent rt s j).result = .ok s := by
  rw [handleEvent, HasItems.get h (v := .str "content_block_stop") (by simp), Gen.lift_ok_bind]
  rw [handleContentBlockStop, index_of h (i := i) (by simp), Gen.lift_ok_bind, hs]
  rfl

theorem reaches_inputDeltas {b : ToolBlock} (hs : s.toolBlocks = [((i : ℤ), b)])
    (pieces : List String) :
    Reaches rt s (pieces.map (.inputDelta i)) fun s' =>
      s' = { s with toolBlocks := [((i : ℤ), ⟨b.fields, b.partialJson ++ String.join pieces⟩)] } := by
  induction pieces generalizing s b with
  | nil =>
    apply Reaches.nil
    simp [← hs]
  | cons piece pieces ih =>
    apply Reaches.cons
    intro j hj
    refine ⟨_, handle_inputDelta hj hs, (ih rfl).weaken fun s' hs' => ?_⟩
    rw [hs']
    simp [String.append_assoc]

def Block.shownText : Block → String
  | .text text => text
  | .toolUse .. => ""

def Block.toolCalls (rt : Runtime) : Block → List Json
  | .text _ => []
  | .toolUse id name input => [toolCall rt id name input]

theorem reaches_block {b : Block} {es : List Event} (hb : BlockEvents rt i b es)
    (h : Holds s text calls model finish usage) :
    Reaches rt s es fun s' =>
      Holds s' (text ++ b.shownText) (calls ++ b.toolCalls rt) model finish usage := by
  cases hb with
  | text first deltas =>
    rw [List.cons_append]
    apply Reaches.cons
    intro j hj
    refine ⟨_, handle_textStart hj, (reaches_textDeltas (h.addText first) deltas).append ?_⟩
    intro s' hs'
    apply Reaches.cons
    intro j hj
    refine ⟨s', handle_closedStop hj hs'.toolBlocks, Reaches.nil ?_⟩
    rw [Block.shownText, ← String.append_assoc, Block.toolCalls, List.append_nil]
    exact hs'
  | @toolUse id name started input pieces whole =>
    rw [List.cons_append]
    apply Reaches.cons
    intro j hj
    obtain ⟨fields, hf, hres⟩ := handle_toolStart rt (s := s) hj
    refine ⟨_, hres, ?_⟩
    have hopen : (setBlock i ⟨fields, ""⟩ s.toolBlocks) = [((i : ℤ), ⟨fields, ""⟩)] := by
      rw [h.toolBlocks]
      rfl
    refine (reaches_inputDeltas hopen pieces).append fun s' hs' => ?_
    apply Reaches.cons
    intro j hj
    have hblocks : s'.toolBlocks = [((i : ℤ), ⟨fields, String.join pieces⟩)] := by
      rw [hs', String.empty_append]
    refine ⟨_, handle_blockStop hj hf hblocks whole, Reaches.nil ?_⟩
    rw [hs', Block.shownText, String.append_empty, Block.toolCalls]
    refine ⟨h.parts, ?_, rfl, h.model, h.finishReason, h.currentUsage⟩
    exact congrArg (· ++ _) h.toolCalls

def blocksText (bs : List Block) : String := String.join (bs.map Block.shownText)

def blocksCalls (rt : Runtime) (bs : List Block) : List Json := bs.flatMap (Block.toolCalls rt)

theorem reaches_blocks {bs : List Block} {es : List Event} (hb : BlocksEvents rt i bs es)
    (h : Holds s text calls model finish usage) :
    Reaches rt s es fun s' =>
      Holds s' (text ++ blocksText bs) (calls ++ blocksCalls rt bs) model finish usage := by
  induction hb generalizing s text calls with
  | nil i =>
    apply Reaches.nil
    simpa [blocksText, blocksCalls] using h
  | cons block _ ih =>
    refine (reaches_block block h).append fun s' hs' => (ih hs').weaken fun s'' hs'' => ?_
    simpa [blocksText, blocksCalls, String.append_assoc, List.append_assoc] using hs''

end Blocks

/-! ## Messages -/

structure Message where
  model : String
  blocks : List Block
  stopReason : Option String
  usage : Report

def IsBlock : Block → Json → Prop
  | .text text, j => HasItems j [("type", .str "text"), ("text", .str text)]
  | .toolUse id name input, j => HasItems j [("type", .str "tool_use"), ("id", .str id),
      ("name", .str name), ("input", .obj input)]

/-- The whole message as the API returns it without streaming. -/
def IsMessage (m : Message) (raw : Json) : Prop :=
  ∃ content, HasItems raw [("model", .str m.model), ("content", .arr content)] ∧
    List.Forall₂ IsBlock m.blocks content ∧ IsStopReason m.stopReason (raw.val "stop_reason") ∧
    m.usage.Renders (raw.val "usage")

/-- A stream of one message: its first usage, its block events and its `message_delta` events. -/
structure Stream where
  startUsage : Report
  body : List Event
  deltas : List (Option String × Report)

def Stream.events (st : Stream) (model : String) : List Event :=
  .messageStart model st.startUsage ::
    (st.body ++ (st.deltas.map (fun d => .messageDelta d.1 d.2) ++ [.messageStop]))

def Stream.reports (st : Stream) : List Report := st.startUsage :: st.deltas.map Prod.snd

/-- The last stop reason that a `message_delta` carries. -/
def lastReason (deltas : List (Option String × Report)) : Option String :=
  (deltas.filterMap Prod.fst).getLast?

/-- The stream describes the message: its blocks one after the other, its last stop reason and its
last usage counts, which only grow. -/
structure Describes (rt : Runtime) (st : Stream) (m : Message) : Prop where
  blocks : BlocksEvents rt 0 m.blocks st.body
  stopReason : m.stopReason = lastReason st.deltas
  input : m.usage.input = .tokens (final Report.inputs st.reports)
  output : m.usage.output = .tokens (final Report.outputs st.reports)
  cacheCreation : m.usage.cacheCreation.value = final Report.creations st.reports
  cacheRead : m.usage.cacheRead.value = final Report.reads st.reports
  startInput : st.startUsage.input ≠ .absent
  startOutput : st.startUsage.output ≠ .absent
  inputGrows : Cumulative Report.inputs st.reports
  cacheCreationGrows : Cumulative Report.creations st.reports
  cacheReadGrows : Cumulative Report.reads st.reports

def reasonOf (reason : String) : Json :=
  if reason = "end_turn" ∨ reason = "stop_sequence" then .str "stop"
  else if reason = "max_tokens" then .str "length"
  else if reason = "tool_use" then .str "tool_calls"
  else (Json.str reason).orElse (.str "stop")

theorem openaiFinishReason_str (reason : String) :
    openaiFinishReason (.str reason) = .ok (reasonOf reason) := by
  rw [openaiFinishReason, str_orElse_empty, reasonOf]
  split
  · rename_i h
    cases h
  · rename_i h
    cases h
  · rename_i h
    rw [Json.str.inj h]
    rfl
  · rename_i h
    rw [Json.str.inj h]
    rfl
  · rename_i h
    rw [Json.str.inj h]
    rfl
  · rename_i h
    rw [Json.str.inj h]
    rfl
  · rename_i h₁ h₂ h₃ h₄
    have hne : ∀ {r : String}, (Json.str reason = .str r → False) → reason ≠ r :=
      fun h hr => h (hr ▸ rfl)
    rw [if_neg (by simp [hne h₁, hne h₂]), if_neg (hne h₃), if_neg (hne h₄)]

/-- The finish reason of a stop reason, which `stop` stands for when there is none. -/
def finishOf (stopReason : Option String) : Json :=
  match stopReason with
  | some reason => reasonOf reason
  | none => .str "stop"

theorem openaiFinishReason_of {stopReason : Option String} {v : Json}
    (h : IsStopReason stopReason v) : openaiFinishReason v = .ok (finishOf stopReason) := by
  obtain rfl := h
  cases stopReason with
  | none => rfl
  | some reason => exact openaiFinishReason_str reason

theorem deltaFinish_of {stopReason : Option String} {v : Json}
    (h : IsStopReason stopReason v) : deltaFinish v = .ok (finishOf stopReason) := by
  obtain rfl := h
  cases stopReason with
  | none => rfl
  | some reason =>
    rw [deltaFinish]
    split_ifs with ht
    · exact openaiFinishReason_str reason
    · rw [Option.map_some, Option.getD_some, truthy_str, not_not] at ht
      rw [ht]
      rfl

theorem handle_messageStart {model : String} {usage : Report}
    (h : Renders (.messageStart model usage) j) :
    (handleEvent rt s j).result = .ok { s with
      model := (Json.str model).orElse s.model, currentUsage := usage.apply s.currentUsage } := by
  obtain ⟨message, hj, hm, hu⟩ := h
  have hget : message.get "usage" = .ok (message.val "usage") := by
    obtain ⟨fields, rfl, -⟩ := hm
    rfl
  rw [handleEvent, hj.get (v := .str "message_start") (by simp), Gen.lift_ok_bind]
  rw [handleMessageStart, hj.get (v := message) (by simp)]
  simp only [Py.bind_ok, hm.orElse, hm.get (k := "model") (v := .str model) (by simp), hget,
    usageFromAnthropic_eq hu]
  rfl

theorem handle_messageDelta {stopReason : Option String} {usage : Report}
    (h : Renders (.messageDelta stopReason usage) j) :
    (handleEvent rt s j).result = .ok { s with
      currentUsage := usage.apply s.currentUsage, finishReason := finishOf stopReason } := by
  obtain ⟨delta, hj, hr, hu⟩ := h
  have hget : j.get "usage" = .ok (j.val "usage") := by
    obtain ⟨fields, rfl, -⟩ := hj
    rfl
  rw [handleEvent, hj.get (v := .str "message_delta") (by simp), Gen.lift_ok_bind]
  rw [handleMessageDelta, hget, hj.get (v := .obj delta) (by simp)]
  simp only [Py.bind_ok, usageFromAnthropic_eq hu, obj_orElse_empty, Json.get, deltaFinish_of hr]
  rfl

theorem handle_messageStop (h : Renders .messageStop j) :
    (handleEvent rt s j).result = .ok s := by
  rw [handleEvent, HasItems.get h (v := .str "message_stop") (by simp), Gen.lift_ok_bind]
  rfl

/-- The finish reason after the `message_delta` events: the last one's, reason or not. -/
def lastFinish (deltas : List (Option String × Report)) : Json :=
  match deltas.getLast? with
  | some d => finishOf d.1
  | none => .str "stop"

theorem reaches_deltas {text : String} {calls : List Json} {model finish : Json}
    {usage : CanonicalUsage} (h : Holds s text calls model finish usage)
    (deltas : List (Option String × Report)) :
    Reaches rt s (deltas.map fun d => .messageDelta d.1 d.2) fun s' =>
      Holds s' text calls model ((deltas.getLast?.map fun d => finishOf d.1).getD finish)
        ((deltas.map Prod.snd).foldl (fun p u => u.apply p) usage) := by
  induction deltas generalizing s finish usage with
  | nil => exact Reaches.nil h
  | cons d deltas ih =>
    apply Reaches.cons
    intro j hj
    have hd : Holds { s with currentUsage := d.2.apply s.currentUsage, finishReason := finishOf d.1 }
        text calls model (finishOf d.1) (d.2.apply usage) :=
      ⟨h.parts, h.toolCalls, h.toolBlocks, h.model, rfl, by rw [h.currentUsage]⟩
    refine ⟨_, handle_messageDelta hj, (ih hd).weaken fun s' hs' => ?_⟩
    cases deltas with
    | nil => exact hs'
    | cons d' deltas =>
      rw [List.getLast?_cons_cons]
      simpa [List.getLast?_cons] using hs'

theorem reaches_stream {m : Message} {st : Stream} (hb : BlocksEvents rt 0 m.blocks st.body) :
    Reaches rt .new (st.events m.model) fun s' =>
      Holds s' (blocksText m.blocks) (blocksCalls rt m.blocks) (.str m.model)
        (lastFinish st.deltas) (total st.reports) := by
  apply Reaches.cons
  intro j hj
  have hstart : Holds { Translator.new with
      model := (Json.str m.model).orElse (.str "")
      currentUsage := st.startUsage.apply .zero } "" [] (.str m.model) (.str "stop")
      (st.startUsage.apply .zero) := ⟨rfl, rfl, rfl, str_orElse_empty _, rfl, rfl⟩
  refine ⟨_, handle_messageStart hj, (reaches_blocks hb hstart).append fun s' hs' => ?_⟩
  refine (reaches_deltas hs' st.deltas).append fun s'' hs'' => ?_
  apply Reaches.cons
  intro j hj
  refine ⟨s'', handle_messageStop hj, Reaches.nil ?_⟩
  rw [String.empty_append, List.nil_append] at hs''
  have hfinish : (st.deltas.getLast?.map fun d => finishOf d.1).getD (.str "stop") =
      lastFinish st.deltas := by
    unfold lastFinish
    cases st.deltas.getLast? <;> rfl
  rw [hfinish] at hs''
  exact hs''

/-! ## The whole message -/

def shownTexts : List Block → List String
  | [] => []
  | .text text :: bs => text :: shownTexts bs
  | .toolUse .. :: bs => shownTexts bs

theorem join_shownTexts (bs : List Block) : String.join (shownTexts bs) = blocksText bs := by
  induction bs with
  | nil => rfl
  | cons b bs ih =>
    cases b <;> simp_all [shownTexts, blocksText, Block.shownText]

theorem parseBlocks {bs : List Block} {js : List Json} (h : List.Forall₂ IsBlock bs js)
    (p : List String × List Json) :
    js.foldl (parseBlock rt) p = (p.1 ++ shownTexts bs, p.2 ++ blocksCalls rt bs) := by
  induction h generalizing p with
  | nil => simp [shownTexts, blocksCalls]
  | @cons b j bs js hb _ ih =>
    rw [List.foldl_cons, ih]
    cases b with
    | text text =>
      obtain ⟨fields, rfl, hf⟩ := hb
      have htype := hf ("type", .str "text") (by simp)
      have htext := hf ("text", .str text) (by simp)
      dsimp only at htype htext
      simp [parseBlock, htype, htext, str_orElse_empty, Runtime.str, shownTexts, blocksCalls,
        Block.toolCalls]
    | toolUse id name input =>
      obtain ⟨fields, rfl, hf⟩ := hb
      have htype := hf ("type", .str "tool_use") (by simp)
      have hcall := openaiToolCall_eq rt (hf ("id", .str id) (by simp))
        (hf ("name", .str name) (by simp)) (hf ("input", .obj input) (by simp))
      dsimp only at htype
      simp [parseBlock, htype, hcall, shownTexts, blocksCalls, Block.toolCalls]

theorem parseCompletion_eq {m : Message} {raw : Json} (h : IsMessage m raw) :
    parseCompletion rt raw = .ok {
      model := .str m.model
      content := .str (blocksText m.blocks)
      toolCalls := if blocksCalls rt m.blocks = [] then .null else .arr (blocksCalls rt m.blocks)
      finishReason := finishOf m.stopReason
      usage := m.usage.apply .zero
      raw := none } := by
  obtain ⟨content, hraw, hblocks, hr, hu⟩ := h
  have hcontent : ((Json.arr content).orElse (.arr [])).iter = .ok content := by
    cases content <;> rfl
  have hget : ∀ k, raw.get k = .ok (raw.val k) := by
    obtain ⟨fields, rfl, -⟩ := hraw
    exact fun k => rfl
  rw [parseCompletion, hraw.get (k := "content") (v := .arr content) (by simp)]
  simp only [Py.bind_ok, hcontent, hget, hraw.val (k := "model") (v := .str m.model) (by simp),
    str_orElse_empty, openaiFinishReason_of hr, usageFromAnthropic_eq hu, parseBlocks hblocks,
    List.nil_append, join_shownTexts]
  rfl

/-- The last `message_delta` carries a stop reason, or the message stopped plainly. -/
def FinishKept (st : Stream) : Prop :=
  (∀ d, st.deltas.getLast? = some d → d.1 ≠ none) ∨
    finishOf (lastReason st.deltas) = .str "stop"

theorem lastReason_of_last {deltas : List (Option String × Report)} {d : Option String × Report}
    (h : deltas.getLast? = some d) (hd : d.1 ≠ none) : lastReason deltas = d.1 := by
  obtain ⟨pre, rfl⟩ := List.getLast?_eq_some_iff.1 h
  obtain ⟨r, hr⟩ := Option.ne_none_iff_exists'.1 hd
  rw [lastReason, List.filterMap_append]
  simp [hr]

theorem finish_kept_iff (st : Stream) :
    lastFinish st.deltas = finishOf (lastReason st.deltas) ↔ FinishKept st := by
  unfold FinishKept lastFinish
  cases hl : st.deltas.getLast? with
  | none =>
    rw [List.getLast?_eq_none_iff.1 hl]
    exact iff_of_true rfl (Or.inr rfl)
  | some d =>
    dsimp only
    by_cases hd : d.1 = none
    · rw [hd]
      constructor
      · exact fun h => Or.inr h.symm
      · intro h
        rcases h with h | h
        · exact absurd hd (h d rfl)
        · exact h.symm
    · rw [lastReason_of_last hl hd]
      refine iff_of_true rfl (Or.inl fun d' hd' => ?_)
      rwa [← Option.some.inj hd']

/-- The translator's usage is the whole message's when the last counts are kept. -/
theorem usage_kept_iff {st : Stream} {m : Message} (h : Describes rt st m) :
    m.usage.apply .zero = total st.reports ↔ InputKept st.reports ∧ OutputKept st.reports := by
  have hin : ∃ u ∈ st.reports, u.input ≠ .absent := ⟨_, List.mem_cons_self, h.startInput⟩
  have hout : ∃ u ∈ st.reports, u.output ≠ .absent := ⟨_, List.mem_cons_self, h.startOutput⟩
  rw [← input_kept_iff hin h.inputGrows h.cacheCreationGrows h.cacheReadGrows,
    ← output_kept_iff hout]
  have hread := total_read h.cacheReadGrows
  have hwhole : m.usage.apply .zero = ⟨final Report.inputs st.reports +
      final Report.creations st.reports + final Report.reads st.reports,
      final Report.outputs st.reports, final Report.reads st.reports⟩ := by
    have hzero : (if m.usage.cacheRead.value = 0 then CanonicalUsage.zero.providerCachedInputTokens
        else (m.usage.cacheRead.value : ℤ)) = final Report.reads st.reports := by
      rw [h.cacheRead]
      split_ifs with h0
      · rw [h0]
        rfl
      · rfl
    have hvalue : ∀ n, (Count.tokens n).value = n := fun _ => rfl
    simp only [Report.apply, hzero, h.input, h.output, h.cacheCreation, reduceCtorEq, if_false,
      hvalue]
  rw [hwhole]
  constructor
  · intro he
    rw [← he]
    exact ⟨rfl, rfl⟩
  · intro he
    rw [← he.1, ← he.2, ← hread]

/-- The translator ends with the whole message's completion exactly when the last `message_delta`
keeps its stop reason and the usage objects keep the last counts. -/
theorem anthropic_agree_iff {st : Stream} {m : Message} {js : List Json} {raw : Json}
    (hd : Describes rt st m) (hjs : Payloads (st.events m.model) js) (hraw : IsMessage m raw) :
    ∃ s, (handleEvents rt .new js).result = .ok s ∧
      (parseCompletion rt raw = .ok s.finish ↔
        FinishKept st ∧ InputKept st.reports ∧ OutputKept st.reports) := by
  obtain ⟨s, hs, h⟩ := reaches_stream hd.blocks js hjs
  refine ⟨s, hs, ?_⟩
  have hfinish : s.finish = {
      model := .str m.model
      content := .str (blocksText m.blocks)
      toolCalls := if blocksCalls rt m.blocks = [] then .null else .arr (blocksCalls rt m.blocks)
      finishReason := lastFinish st.deltas
      usage := total st.reports
      raw := none } := by
    rw [Translator.finish, h.parts, h.toolCalls, h.model, h.finishReason, h.currentUsage]
  rw [parseCompletion_eq hraw, hfinish, Except.ok.injEq, CanonicalCompletion.mk.injEq,
    hd.stopReason, ← finish_kept_iff, ← usage_kept_iff hd]
  constructor
  · exact fun he => ⟨he.2.2.2.1.symm, he.2.2.2.2.1⟩
  · exact fun he => ⟨rfl, rfl, rfl, he.1.symm, he.2, rfl⟩

end Varsten.Proxy.AnthropicStream
