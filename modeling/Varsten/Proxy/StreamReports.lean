import Varsten.Proxy.OpenAIDialect
import Varsten.Proxy.ForwardLog

/-!
# What a stream reports

The finish reason an event sequence reports and whether it carries an answer, read
off the events alone. The completion each translator assembles agrees with it.
-/

namespace Varsten.Proxy.StreamReports

open Python (Json Py PyError Gen Runtime)
open Python.Utf8 (Bytes Text decode)
open Providers (Adapter CanonicalCompletion Out)
open SseDecoder (feed feedAll anthropicBlock geminiBlock anthropicEvents geminiEvents)
open Forward OpenAIDialect

/-- The finish reason so far, whether text or a tool call came, and Anthropic's open tool blocks. -/
structure Seen where
  finish : Json
  answered : Bool
  openBlocks : List ℤ

def Seen.start : Seen := ⟨.str "stop", false, []⟩

/-- The assembled completion says what was seen. -/
structure Reports (result : CanonicalCompletion) (seen : Seen) : Prop where
  finish : result.finishReason = seen.finish
  answered : (result.content.truthy || result.toolCalls.truthy) = seen.answered
  content : ∃ s, result.content = .str s
  raw : result.raw = none

theorem join_truthy (parts : List String) :
    (Json.str (String.join parts)).truthy = parts.any (· ≠ "") := by
  induction parts with
  | nil => rfl
  | cons p ps ih =>
    simp only [Json.truthy, String.join_cons, List.any_cons] at ih ⊢
    rw [← ih]
    by_cases hp : p = "" <;> simp [hp]

theorem toolCalls_truthy (calls : List Json) :
    (if calls = [] then Json.null else .arr calls).truthy = !calls.isEmpty := by
  cases calls <;> rfl

/-- A translator that decodes each chunk and handles the events it completes simulates a fold over
all the events. `R` relates it to the decoder's buffer and to what was seen. -/
theorem feed_simulates {α σ γ : Type} {adapter : Adapter σ} {parse : Text → Option α}
    {loads : α → Option Json} {see : γ → Json → γ} {R : Text → σ → γ → Prop}
    (push : ∀ {buffer s seen chunk s'}, R buffer s seen → (adapter.push s chunk).result = .ok s' →
      R (feed parse buffer chunk).2 s'
        (((feed parse buffer chunk).1.filterMap loads).foldl see seen))
    {buffer : Text} {s s' : σ} {seen : γ} {chunks : List Bytes} (hr : R buffer s seen)
    (h : (pushAll adapter s chunks).result = .ok s') :
    ∃ rest, R rest s' (((feedAll parse buffer chunks).filterMap loads).foldl see seen) := by
  induction chunks generalizing buffer s seen with
  | nil =>
    obtain rfl := Except.ok.inj h
    exact ⟨buffer, hr⟩
  | cons c cs ih =>
    obtain ⟨s₁, h₁, h⟩ := Gen.bind_result_eq_ok.1 h
    rw [feedAll, List.filterMap_append, List.foldl_append]
    exact ih (push hr h₁) h

/-! ## OpenAI -/

namespace OpenAI

open Providers.OpenAI

def choices (ev : Json) : List Json :=
  ((ev.getD "choices" (.arr []) >>= Json.iter).toOption).getD []

def delta (choice : Json) : Json := (choice.val "delta").orElse (.obj [])

def seeChoice (seen : Seen) (choice : Json) : Seen where
  finish := (choice.val "finish_reason").orElse seen.finish
  answered := seen.answered || ((delta choice).val "content").truthy ||
    ((delta choice).val "tool_calls").truthy
  openBlocks := []

def see (seen : Seen) (ev : Json) : Seen := (choices ev).foldl seeChoice seen

structure Agrees (a : Assembly) (seen : Seen) : Prop where
  finish : a.finishReason.orElse (.str "stop") = seen.finish
  answered : (!a.parts.isEmpty || !a.slots.isEmpty) = seen.answered
  parts : ∀ p ∈ a.parts, p.truthy = true

theorem setSlot_ne (key : Json) (slot : Slot) (slots : Slots) :
    (setSlot key slot slots).isEmpty = false := by
  cases slots with
  | nil => rfl
  | cons s slots =>
    rw [setSlot]
    split_ifs <;> rfl

theorem accumulate_isEmpty {slots slots' : Slots} {deltas : List Json}
    (h : accumulateToolCalls slots deltas = .ok slots') :
    slots'.isEmpty = (slots.isEmpty && deltas.isEmpty) := by
  induction deltas generalizing slots with
  | nil =>
    obtain rfl := Except.ok.inj h
    simp
  | cons frag deltas ih =>
    obtain ⟨_, -, h⟩ := Py.bind_eq_ok.1 h
    obtain ⟨_, -, h⟩ := Py.bind_eq_ok.1 h
    obtain ⟨_, -, h⟩ := Py.bind_eq_ok.1 h
    rw [ih h, setSlot_ne]
    simp

/-- A list of fragments that is there has an element, or its elements are no dicts. -/
theorem accumulate_truthy {slots slots' : Slots} {calls : Json} {deltas : List Json}
    (ht : calls.truthy = true) (hi : calls.iter = .ok deltas)
    (h : accumulateToolCalls slots deltas = .ok slots') : slots'.isEmpty = false := by
  rw [accumulate_isEmpty h]
  cases deltas with
  | cons d ds => simp
  | nil =>
    cases calls with
    | arr xs =>
      obtain rfl := Except.ok.inj hi
      cases ht
    | str s =>
      have hs := List.map_eq_nil_iff.1 (Except.ok.inj hi)
      have : s = "" := by simpa using hs
      simp [Json.truthy, this] at ht
    | obj fields =>
      obtain rfl := List.map_eq_nil_iff.1 (Except.ok.inj hi)
      cases ht
    | _ => cases hi

theorem assembleChoice_agrees {a a' : Assembly} {seen : Seen} {choice : Json}
    (ha : Agrees a seen) (h : assembleChoice a choice = .ok a') :
    Agrees a' (seeChoice seen choice) := by
  obtain ⟨d, hd, h⟩ := Py.bind_eq_ok.1 h
  obtain rfl := Json.get_eq_ok hd
  obtain ⟨content, hc, h⟩ := Py.bind_eq_ok.1 h
  obtain rfl := Json.get_eq_ok hc
  obtain ⟨calls, ht, h⟩ := Py.bind_eq_ok.1 h
  obtain rfl := Json.get_eq_ok ht
  obtain ⟨slots, hs, h⟩ := Py.bind_eq_ok.1 h
  obtain ⟨finish, hf, h⟩ := Py.bind_eq_ok.1 h
  obtain rfl := Json.get_eq_ok hf
  obtain rfl := Except.ok.inj h
  have hslots : slots.isEmpty =
      (a.slots.isEmpty && !((delta choice).val "tool_calls").truthy) := by
    unfold withToolCalls at hs
    split_ifs at hs with htr
    · obtain ⟨deltas, hi, hs⟩ := Py.bind_eq_ok.1 hs
      rw [accumulate_truthy htr hi hs]
      simp [delta, htr]
    · obtain rfl := Except.ok.inj hs
      simp [delta, htr]
  constructor
  · simp only [seeChoice, ← ha.finish, Json.orElse]
    split_ifs <;> rfl
  · simp only [seeChoice, ← ha.answered, hslots]
    by_cases hct : ((delta choice).val "content").truthy = true
    · simp [delta] at hct
      simp [delta, hct]
    · simp [delta] at hct
      simp [delta, hct]
      cases a.parts.isEmpty <;> cases a.slots.isEmpty <;> simp
  · intro p hp
    dsimp only at hp
    split_ifs at hp with hct
    · rcases List.mem_append.1 hp with hp | hp
      · exact ha.parts p hp
      · rw [List.mem_singleton.1 hp]
        exact hct
    · exact ha.parts p hp

theorem assembleEvent_agrees {a a' : Assembly} {seen : Seen} {ev : Json} (ha : Agrees a seen)
    (h : assembleEvent a ev = .ok a') : Agrees a' (see seen ev) := by
  obtain ⟨model, -, h⟩ := Py.bind_eq_ok.1 h
  obtain ⟨usage, -, h⟩ := Py.bind_eq_ok.1 h
  obtain ⟨list, hl, h⟩ := Py.bind_eq_ok.1 h
  obtain ⟨cs, hcs, h⟩ := Py.bind_eq_ok.1 h
  have hchoices : choices ev = cs := by
    rw [choices, Py.bind_eq_ok.2 ⟨list, hl, hcs⟩]
    rfl
  rw [see, hchoices]
  refine Py.foldlM_simulates (f := assembleChoice) (R := Agrees) assembleChoice_agrees ?_ h
  exact ⟨ha.finish, ha.answered, ha.parts⟩

theorem joinParts_truthy {parts : List Json} {s t : String} (hp : ∀ p ∈ parts, p.truthy = true)
    (h : parts.foldlM Json.appendStr s = .ok t) :
    (Json.str t).truthy = ((Json.str s).truthy || !parts.isEmpty) := by
  induction parts generalizing s with
  | nil =>
    obtain rfl := Except.ok.inj h
    simp
  | cons p ps ih =>
    obtain ⟨u, hu, h⟩ := Py.bind_eq_ok.1 h
    rw [ih (fun q hq => hp q (List.mem_cons_of_mem _ hq)) h]
    cases p with
    | str q =>
      obtain rfl := Except.ok.inj hu
      have hq : q ≠ "" := by simpa [Json.truthy] using hp _ List.mem_cons_self
      simp [Json.truthy, hq]
    | _ => cases hu

theorem sortedSlots_isEmpty {slots : Slots} {calls : List Json}
    (h : sortedSlots slots = .ok calls) : calls.isEmpty = slots.isEmpty := by
  unfold sortedSlots at h
  split_ifs at h
  obtain rfl := Except.ok.inj h
  rw [Bool.eq_iff_iff, List.isEmpty_iff, List.isEmpty_iff, List.map_eq_nil_iff,
    ← List.length_eq_zero_iff, List.length_mergeSort, List.length_eq_zero_iff]

theorem assembleStream_reports {events : List Json} {result : CanonicalCompletion}
    (h : assembleStream events = .ok result) : Reports result (events.foldl see .start) := by
  obtain ⟨a, ha, h⟩ := Py.bind_eq_ok.1 h
  obtain ⟨calls, hc, h⟩ := Py.bind_eq_ok.1 h
  obtain ⟨s, hs, h⟩ := Py.bind_eq_ok.1 h
  obtain ⟨usage, -, h⟩ := Py.bind_eq_ok.1 h
  obtain rfl := Except.ok.inj h
  have hag : Agrees a (events.foldl see .start) :=
    Py.foldlM_simulates (f := assembleEvent) (R := Agrees) assembleEvent_agrees
      ⟨rfl, rfl, by simp [Assembly.start]⟩ ha
  refine ⟨hag.finish, ?_, ⟨s, rfl⟩, rfl⟩
  dsimp only
  rw [joinParts_truthy hag.parts hs, toolCalls_truthy, sortedSlots_isEmpty hc, ← hag.answered]
  rfl

def events (rt : Runtime) (chunks : List Bytes) : List Json :=
  parseSseEvents rt.loads (decode chunks.flatten)

theorem pushAll_buffer (rt : Runtime) (buffer : Bytes) (chunks : List Bytes) :
    (pushAll (adapter rt.loads) buffer chunks).result = .ok (buffer ++ chunks.flatten) := by
  induction chunks generalizing buffer with
  | nil => simp [pushAll, Gen.fold, Gen.ok]
  | cons c cs ih =>
    apply Gen.bind_result_eq_ok.2
    refine ⟨buffer ++ c, rfl, ?_⟩
    rw [List.flatten_cons, ← List.append_assoc]
    exact ih (buffer ++ c)

theorem assembled_eq (rt : Runtime) (chunks : List Bytes) :
    assembled (adapter rt.loads) chunks = assembleStream (events rt chunks) := by
  rw [assembled, pushAll_buffer rt (adapter rt.loads).translator chunks]
  rfl

theorem assembled_reports {rt : Runtime} {chunks : List Bytes} {result : CanonicalCompletion}
    (h : assembled (adapter rt.loads) chunks = .ok result) :
    Reports result ((events rt chunks).foldl see .start) := by
  rw [assembled_eq] at h
  exact assembleStream_reports h

end OpenAI

/-! ## Anthropic -/

namespace Anthropic

open Providers.Anthropic

def block (ev : Json) : Json := (ev.val "content_block").orElse (.obj [])

def delta (ev : Json) : Json := (ev.val "delta").orElse (.obj [])

def indexOf (ev : Json) : ℤ := ((index ev).toOption).getD 0

def finishOf (stopReason : Json) : Json :=
  ((openaiFinishReason stopReason).toOption).getD (.str "stop")

def openAt (i : ℤ) (openBlocks : List ℤ) : List ℤ := i :: openBlocks.filter (· ≠ i)

def see (seen : Seen) (ev : Json) : Seen :=
  match ev.val "type" with
  | .str "content_block_start" =>
    if (block ev).val "type" = .str "text" ∧ ((block ev).val "text").truthy then
      { seen with answered := true }
    else if (block ev).val "type" = .str "tool_use" then
      { seen with openBlocks := openAt (indexOf ev) seen.openBlocks }
    else seen
  | .str "content_block_delta" =>
    if (delta ev).val "type" = .str "text_delta" ∧ ((delta ev).val "text").truthy then
      { seen with answered := true }
    else if (delta ev).val "type" = .str "input_json_delta" then
      { seen with openBlocks := openAt (indexOf ev) seen.openBlocks }
    else seen
  | .str "content_block_stop" =>
    if indexOf ev ∈ seen.openBlocks then
      { seen with answered := true, openBlocks := seen.openBlocks.filter (· ≠ indexOf ev) }
    else seen
  | .str "message_delta" => { seen with finish := finishOf ((delta ev).val "stop_reason") }
  | _ => seen

structure Agrees (buffer : Text) (s : Translator) (seen : Seen) : Prop where
  buffer : s.buffer = buffer
  finish : s.finishReason = seen.finish
  answered : (s.parts.any (· ≠ "") || !s.toolCalls.isEmpty) = seen.answered
  openBlocks : s.toolBlocks.map Prod.fst = seen.openBlocks

variable {rt : Runtime} {buffer : Text} {s s' : Translator} {seen : Seen} {ev : Json}

theorem new_agrees : Agrees [] .new .start := ⟨rfl, rfl, rfl, rfl⟩

theorem index_eq {i : ℤ} (h : index ev = .ok i) : indexOf ev = i := by
  rw [indexOf, h]
  rfl

theorem filter_map_fst (i : ℤ) (blocks : List (ℤ × ToolBlock)) :
    (blocks.filter fun b => b.1 ≠ i).map Prod.fst = (blocks.map Prod.fst).filter (· ≠ i) := by
  rw [List.filter_map]
  rfl

theorem blockAt_isSome (i : ℤ) (blocks : List (ℤ × ToolBlock)) :
    (blockAt i blocks).isSome = true ↔ i ∈ blocks.map Prod.fst := by
  simp [blockAt, List.find?_isSome]

theorem emitText_agrees {text : Json} (ht : text.truthy = true) (ha : Agrees buffer s seen)
    (h : (emitText rt s text).result = .ok s') : Agrees buffer s' { seen with answered := true } := by
  obtain rfl := Except.ok.inj h
  refine ⟨ha.buffer, ha.finish, ?_, ha.openBlocks⟩
  have hne := Json.str_ne_of_truthy rt ht
  simp [List.any_append, hne]

theorem open_agrees {i : ℤ} {b : ToolBlock} (ha : Agrees buffer s seen) :
    Agrees buffer { s with toolBlocks := setBlock i b s.toolBlocks }
      { seen with openBlocks := openAt i seen.openBlocks } := by
  refine ⟨ha.buffer, ha.finish, ha.answered, ?_⟩
  simp only [setBlock, List.map_cons, filter_map_fst, ha.openBlocks, openAt]

theorem start_agrees (ha : Agrees buffer s seen) (ht : ev.val "type" = .str "content_block_start")
    (h : (handleContentBlockStart rt s ev).result = .ok s') : Agrees buffer s' (see seen ev) := by
  obtain ⟨⟨i, b⟩, hb, h⟩ := Gen.bind_result_eq_ok.1 h
  obtain ⟨_, hi, hb⟩ := Py.bind_eq_ok.1 hb
  obtain ⟨_, hc, hb⟩ := Py.bind_eq_ok.1 hb
  obtain ⟨rfl, rfl⟩ := Prod.mk.inj (Except.ok.inj hb)
  obtain rfl := Json.get_eq_ok hc
  dsimp only at h
  cases hblock : block ev with
  | obj fields =>
    simp only [see, ht, index_eq hi, hblock, Json.val_obj]
    rw [block] at hblock
    rw [hblock] at h
    dsimp only at h
    split_ifs at h with h1 h2
    · rw [if_pos h1]
      exact emitText_agrees h1.2 ha h
    · rw [if_neg h1, if_pos h2]
      obtain rfl := Except.ok.inj h
      exact open_agrees ha
    · rw [if_neg h1, if_neg h2]
      obtain rfl := Except.ok.inj h
      exact ha
  | _ =>
    rw [block] at hblock
    rw [hblock] at h
    cases h

theorem delta_agrees (ha : Agrees buffer s seen) (ht : ev.val "type" = .str "content_block_delta")
    (h : (handleContentBlockDelta rt s ev).result = .ok s') : Agrees buffer s' (see seen ev) := by
  obtain ⟨⟨i, b⟩, hb, h⟩ := Gen.bind_result_eq_ok.1 h
  obtain ⟨_, hi, hb⟩ := Py.bind_eq_ok.1 hb
  obtain ⟨_, hc, hb⟩ := Py.bind_eq_ok.1 hb
  obtain ⟨rfl, rfl⟩ := Prod.mk.inj (Except.ok.inj hb)
  obtain rfl := Json.get_eq_ok hc
  dsimp only at h
  cases hblock : delta ev with
  | obj fields =>
    simp only [see, ht, index_eq hi, hblock, Json.val_obj]
    rw [delta] at hblock
    rw [hblock] at h
    dsimp only at h
    split_ifs at h with h1 h2
    · rw [if_pos h1]
      exact emitText_agrees h1.2 ha h
    · rw [if_neg h1, if_pos h2]
      obtain rfl := Except.ok.inj h
      exact open_agrees ha
    · rw [if_neg h1, if_neg h2]
      obtain rfl := Except.ok.inj h
      exact ha
  | _ =>
    rw [delta] at hblock
    rw [hblock] at h
    cases h

theorem stop_agrees (ha : Agrees buffer s seen) (ht : ev.val "type" = .str "content_block_stop")
    (h : (handleContentBlockStop rt s ev).result = .ok s') : Agrees buffer s' (see seen ev) := by
  obtain ⟨i, hi, h⟩ := Gen.bind_result_eq_ok.1 h
  simp only [see, ht, index_eq hi, ← ha.openBlocks]
  have hmem := blockAt_isSome i s.toolBlocks
  cases hb : blockAt i s.toolBlocks with
  | none =>
    rw [hb] at h hmem
    obtain rfl := Except.ok.inj h
    rw [if_neg (by simpa using hmem)]
    exact ha
  | some b =>
    rw [hb] at h hmem
    obtain rfl := Except.ok.inj h
    rw [if_pos (hmem.1 rfl)]
    refine ⟨ha.buffer, ha.finish, by simp, ?_⟩
    exact filter_map_fst i s.toolBlocks

theorem finishReason_falsy {reason : Json} (h : reason.truthy = false) :
    openaiFinishReason reason = .ok (.str "stop") := by
  simp [openaiFinishReason, Json.orElse, h]

theorem messageDelta_agrees (ha : Agrees buffer s seen) (ht : ev.val "type" = .str "message_delta")
    (h : handleMessageDelta s ev = .ok s') : Agrees buffer s' (see seen ev) := by
  obtain ⟨_, -, h⟩ := Py.bind_eq_ok.1 h
  obtain ⟨usage, -, h⟩ := Py.bind_eq_ok.1 h
  obtain ⟨_, hd, h⟩ := Py.bind_eq_ok.1 h
  obtain rfl := Json.get_eq_ok hd
  obtain ⟨reason, hr, h⟩ := Py.bind_eq_ok.1 h
  obtain rfl := Json.get_eq_ok hr
  obtain ⟨finish, hf, h⟩ := Py.bind_eq_ok.1 h
  obtain rfl := Except.ok.inj h
  simp only [see, ht]
  refine ⟨ha.buffer, ?_, ha.answered, ha.openBlocks⟩
  dsimp only
  rw [← delta, deltaFinish] at hf
  split_ifs at hf with htr
  · rw [finishOf, hf]
    rfl
  · obtain rfl := Except.ok.inj hf
    rw [finishOf, finishReason_falsy (by simpa using htr)]
    rfl

theorem handleEvent_agrees (ha : Agrees buffer s seen) (h : (handleEvent rt s ev).result = .ok s') :
    Agrees buffer s' (see seen ev) := by
  obtain ⟨type, ht, h⟩ := Gen.bind_result_eq_ok.1 h
  have ht := (Json.get_eq_ok ht).symm
  split at h
  · obtain ⟨_, hm, h⟩ := Gen.bind_result_eq_ok.1 h
    obtain ⟨_, -, hm⟩ := Py.bind_eq_ok.1 hm
    obtain ⟨_, -, hm⟩ := Py.bind_eq_ok.1 hm
    obtain ⟨_, -, hm⟩ := Py.bind_eq_ok.1 hm
    obtain ⟨_, -, hm⟩ := Py.bind_eq_ok.1 hm
    obtain rfl := Except.ok.inj hm
    obtain rfl := Except.ok.inj h
    simp only [see, ht]
    exact ⟨ha.buffer, ha.finish, ha.answered, ha.openBlocks⟩
  · exact start_agrees ha ht h
  · exact delta_agrees ha ht h
  · exact stop_agrees ha ht h
  · exact messageDelta_agrees ha ht h
  · obtain rfl := Except.ok.inj h
    simp only [see, ht]
    exact ha
  · rename_i hstart hbs hbd hbx hmd hms
    obtain rfl := Except.ok.inj h
    have hsee : see seen ev = seen := by
      unfold see
      split
      · exact absurd (ht.symm.trans ‹_›) hbs
      · exact absurd (ht.symm.trans ‹_›) hbd
      · exact absurd (ht.symm.trans ‹_›) hbx
      · exact absurd (ht.symm.trans ‹_›) hmd
      · rfl
    rw [hsee]
    exact ha

/-- The events the translator reads from the chunks. -/
def events (rt : Runtime) (chunks : List Bytes) : List Json :=
  (anthropicEvents chunks).filterMap fun e => rt.loads e.2

theorem push_agrees {chunk : Bytes} (ha : Agrees buffer s seen)
    (h : (push rt s chunk).result = .ok s') :
    Agrees (feed anthropicBlock buffer chunk).2 s'
      (((feed anthropicBlock buffer chunk).1.filterMap fun e => rt.loads e.2).foldl see seen) := by
  obtain rfl := ha.buffer
  have hfed : Agrees (feed anthropicBlock s.buffer chunk).2
      { s with buffer := (feed anthropicBlock s.buffer chunk).2 } seen :=
    ⟨rfl, ha.finish, ha.answered, ha.openBlocks⟩
  exact Gen.fold_simulates (f := handleEvent rt) handleEvent_agrees hfed h

theorem finish_reports (ha : Agrees buffer s seen) : Reports s.finish seen := by
  refine ⟨ha.finish, ?_, ⟨_, rfl⟩, rfl⟩
  rw [← ha.answered, Translator.finish, join_truthy, toolCalls_truthy]

theorem assembled_reports {chunks : List Bytes} {result : CanonicalCompletion}
    (h : assembled (adapter rt) chunks = .ok result) :
    Reports result ((events rt chunks).foldl see .start) := by
  obtain ⟨s, hs, hr⟩ := Py.bind_eq_ok.1 h
  obtain rfl := Except.ok.inj hr
  obtain ⟨rest, ha⟩ := feed_simulates (R := Agrees) push_agrees new_agrees hs
  exact finish_reports ha

end Anthropic

/-! ## Gemini -/

namespace Gemini

open Providers.Gemini

def candidates (payload : Json) : List Json :=
  (((payload.val "candidates").orElse (.arr [])).iter.toOption).getD []

def parts (candidate : Json) : List Json := ((candidateParts candidate).toOption).getD []

def seePart (seen : Seen) (part : Json) : Seen :=
  if (part.val "text").truthy || (part.val "functionCall").truthy then
    { seen with answered := true } else seen

def seeFinish (seen : Seen) (reason : Json) : Seen :=
  if reason.truthy then { seen with finish := match finishReason reason with
    | .ok finish => .str finish
    | .error _ => seen.finish } else seen

def seeCandidate (seen : Seen) (candidate : Json) : Seen :=
  if candidate.isDict then
    seeFinish ((parts candidate).foldl seePart seen) (candidate.val "finishReason")
  else seen

def see (seen : Seen) (payload : Json) : Seen := (candidates payload).foldl seeCandidate seen

structure Agrees (buffer : Text) (s : Translator) (seen : Seen) : Prop where
  buffer : s.buffer = buffer
  finish : .str s.finishReason = seen.finish
  answered : (s.parts.any (· ≠ "") || !s.toolCalls.isEmpty) = seen.answered

variable {rt : Runtime} {buffer : Text} {s s' : Translator} {seen : Seen}

theorem new_agrees : Agrees [] .new .start := ⟨rfl, rfl, rfl⟩

theorem handlePart_agrees {part : Json} (ha : Agrees buffer s seen)
    (h : (handlePart rt s part).result = .ok s') : Agrees buffer s' (seePart seen part) := by
  unfold handlePart at h
  split at h
  · rename_i fields
    dsimp only at h
    have hsee : seePart seen (.obj fields) = if ((Json.item "text" fields).getD .null).truthy ||
        ((Json.item "functionCall" fields).getD .null).truthy then
        { seen with answered := true } else seen := rfl
    split_ifs at h with ht hc
    · obtain rfl := Except.ok.inj h
      rw [hsee, ht, Bool.true_or, if_pos rfl]
      refine ⟨ha.buffer, ha.finish, ?_⟩
      simp [List.any_append, Json.str_ne_of_truthy rt ht]
    · obtain ⟨call, -, h⟩ := Gen.bind_result_eq_ok.1 h
      obtain rfl := Except.ok.inj h
      rw [hsee, hc, Bool.or_true, if_pos rfl]
      exact ⟨ha.buffer, ha.finish, by simp⟩
    · obtain rfl := Except.ok.inj h
      rw [hsee, if_neg (by simp [ht, hc])]
      exact ha
  · rename_i hne
    obtain rfl := Except.ok.inj h
    have hv : ∀ k, part.val k = .null := by
      intro k
      cases part with
      | obj fields => exact absurd rfl (hne fields)
      | _ => rfl
    rw [seePart, hv, hv, if_neg (by simp [Json.truthy])]
    exact ha

theorem handleFinish_agrees {reason : Json} (ha : Agrees buffer s seen)
    (h : (handleFinish s reason).result = .ok s') : Agrees buffer s' (seeFinish seen reason) := by
  unfold handleFinish at h
  unfold seeFinish
  split_ifs at h ⊢
  · obtain ⟨finish, hf, h⟩ := Gen.bind_result_eq_ok.1 h
    obtain rfl := Except.ok.inj h
    rw [show finishReason reason = .ok finish from hf]
    exact ⟨ha.buffer, rfl, ha.answered⟩
  · obtain rfl := Except.ok.inj h
    exact ha

theorem handleCandidate_agrees {candidate : Json} (ha : Agrees buffer s seen)
    (h : (handleCandidate rt s candidate).result = .ok s') :
    Agrees buffer s' (seeCandidate seen candidate) := by
  unfold handleCandidate at h
  unfold seeCandidate
  split_ifs at h ⊢
  · obtain ⟨ps, hp, h⟩ := Gen.bind_result_eq_ok.1 h
    obtain ⟨s₁, h₁, h⟩ := Gen.bind_result_eq_ok.1 h
    obtain ⟨reason, hr, h⟩ := Gen.bind_result_eq_ok.1 h
    obtain rfl := Json.get_eq_ok hr
    have hparts : parts candidate = ps := by
      rw [parts, show candidateParts candidate = .ok ps from hp]
      rfl
    rw [hparts]
    exact handleFinish_agrees (Gen.fold_simulates (f := handlePart rt) (R := Agrees buffer)
      handlePart_agrees ha h₁) h
  · obtain rfl := Except.ok.inj h
    exact ha

theorem handlePayload_agrees {payload : Json} (ha : Agrees buffer s seen)
    (h : (handlePayload rt s payload).result = .ok s') : Agrees buffer s' (see seen payload) := by
  obtain ⟨⟨s₁, cs⟩, hp, h⟩ := Gen.bind_result_eq_ok.1 h
  obtain ⟨_, -, hp⟩ := Py.bind_eq_ok.1 hp
  obtain ⟨_, -, hp⟩ := Py.bind_eq_ok.1 hp
  obtain ⟨_, -, hp⟩ := Py.bind_eq_ok.1 hp
  obtain ⟨_, -, hp⟩ := Py.bind_eq_ok.1 hp
  obtain ⟨_, hc, hp⟩ := Py.bind_eq_ok.1 hp
  obtain rfl := Json.get_eq_ok hc
  obtain ⟨list, hi, hp⟩ := Py.bind_eq_ok.1 hp
  obtain ⟨rfl, rfl⟩ := Prod.mk.inj (Except.ok.inj hp)
  have hcands : candidates payload = list := by
    rw [candidates, hi]
    rfl
  have hset : ∀ model usage,
      Agrees buffer { s with model := model, currentUsage := usage } seen :=
    fun _ _ => ⟨ha.buffer, ha.finish, ha.answered⟩
  rw [see, hcands]
  exact Gen.fold_simulates (f := handleCandidate rt) handleCandidate_agrees (hset _ _) h

/-- The payloads the translator reads from the chunks. -/
def events (rt : Runtime) (chunks : List Bytes) : List Json :=
  (geminiEvents chunks).filterMap rt.loads

theorem push_agrees {chunk : Bytes} (ha : Agrees buffer s seen)
    (h : (push rt s chunk).result = .ok s') :
    Agrees (feed geminiBlock buffer chunk).2 s'
      (((feed geminiBlock buffer chunk).1.filterMap rt.loads).foldl see seen) := by
  obtain rfl := ha.buffer
  have hfed : Agrees (feed geminiBlock s.buffer chunk).2
      { s with buffer := (feed geminiBlock s.buffer chunk).2 } seen :=
    ⟨rfl, ha.finish, ha.answered⟩
  exact Gen.fold_simulates (f := handlePayload rt) handlePayload_agrees hfed h

theorem finish_reports (ha : Agrees buffer s seen) : Reports s.finish seen := by
  refine ⟨ha.finish, ?_, ⟨_, rfl⟩, rfl⟩
  rw [← ha.answered, Translator.finish, join_truthy, toolCalls_truthy]

theorem assembled_reports {chunks : List Bytes} {result : CanonicalCompletion}
    (h : assembled (adapter rt) chunks = .ok result) :
    Reports result ((events rt chunks).foldl see .start) := by
  obtain ⟨s, hs, hr⟩ := Py.bind_eq_ok.1 h
  obtain rfl := Except.ok.inj hr
  obtain ⟨rest, ha⟩ := feed_simulates (R := Agrees) push_agrees new_agrees hs
  exact finish_reports ha

end Gemini

end Varsten.Proxy.StreamReports
