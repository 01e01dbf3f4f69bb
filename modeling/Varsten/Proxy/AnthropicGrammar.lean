import Varsten.Python.Emits
import Varsten.Proxy.ClientCompletions

/-!
# The grammar of the Anthropic client stream

Content blocks are opened, written and stopped between one message start and one message
end. The renderer's open blocks and next index follow the blocks of the events so far.
-/

namespace Varsten.Proxy.AnthropicGrammar

open Python (Json Py Gen Runtime)
open Python.Gen (Emits)
open Python.Utf8 (Bytes Text)
open SseDecoder (feed feedAll openaiBlock openaiEvents)
open Providers (CanonicalUsage CanonicalCompletion)
open Providers.OpenAI (Slot)
open ClientRenderers
open ClientRenderers.Anthropic
open ClientCompletions (IsCall Typed)

variable {rt : Runtime}

/-! ## Blocks -/

inductive BlockKind where
  | text
  | tool
deriving DecidableEq

abbrev Block := BlockKind × ℕ

def starts : AnthropicEvent → Option Block
  | .textStart i => some (.text, i)
  | .toolStart i _ _ _ => some (.tool, i)
  | _ => none

def writes : AnthropicEvent → Option Block
  | .textDelta i _ => some (.text, i)
  | .inputJsonDelta i _ => some (.tool, i)
  | _ => none

def stops : AnthropicEvent → Option ℕ
  | .blockStop i => some i
  | _ => none

def started (events : List AnthropicEvent) : List Block := events.filterMap starts

def stopped (events : List AnthropicEvent) : List ℕ := events.filterMap stops

def Open (events : List AnthropicEvent) (block : Block) : Prop :=
  block ∈ started events ∧ block.2 ∉ stopped events

inductive Blocks : List AnthropicEvent → Prop
  | nil : Blocks []
  | start {body : List AnthropicEvent} {e : AnthropicEvent} {kind : BlockKind} (h : Blocks body)
      (he : starts e = some (kind, (started body).length)) : Blocks (body ++ [e])
  | write {body : List AnthropicEvent} {e : AnthropicEvent} {block : Block} (h : Blocks body)
      (he : writes e = some block) (ho : Open body block) : Blocks (body ++ [e])
  | stop {body : List AnthropicEvent} {i : ℕ} (kind : BlockKind) (h : Blocks body)
      (ho : Open body (kind, i)) : Blocks (body ++ [.blockStop i])

theorem started_snoc (body : List AnthropicEvent) (e : AnthropicEvent) :
    started (body ++ [e]) = started body ++ (starts e).toList := by
  rw [started, List.filterMap_append]
  cases h : starts e with
  | none => simp [h, started]
  | some b => simp [h, started]

theorem stopped_snoc (body : List AnthropicEvent) (e : AnthropicEvent) :
    stopped (body ++ [e]) = stopped body ++ (stops e).toList := by
  rw [stopped, List.filterMap_append]
  cases h : stops e with
  | none => simp [h, stopped]
  | some i => simp [h, stopped]

theorem writes_only {e : AnthropicEvent} {block : Block} (h : writes e = some block) :
    starts e = none ∧ stops e = none := by
  cases e with
  | textDelta i t => exact ⟨rfl, rfl⟩
  | inputJsonDelta i p => exact ⟨rfl, rfl⟩
  | _ => cases h

theorem starts_only {e : AnthropicEvent} {block : Block} (h : starts e = some block) :
    writes e = none ∧ stops e = none := by
  cases e with
  | textStart i => exact ⟨rfl, rfl⟩
  | toolStart i id name input => exact ⟨rfl, rfl⟩
  | _ => cases h

theorem Blocks.consecutive {body : List AnthropicEvent} (h : Blocks body) :
    (started body).map Prod.snd = List.range (started body).length := by
  induction h with
  | nil => rfl
  | start h he ih =>
    rw [started_snoc, he]
    simp [ih, List.range_succ]
  | write h he ho ih =>
    rw [started_snoc, (writes_only he).1]
    simpa using ih
  | stop kind h ho ih =>
    rw [started_snoc]
    simpa [starts] using ih

theorem index_lt {body : List AnthropicEvent} (h : Blocks body) {block : Block}
    (hb : block ∈ started body) : block.2 < (started body).length := by
  rw [← List.mem_range, ← h.consecutive]
  exact List.mem_map_of_mem hb

theorem Blocks.stopped_lt {body : List AnthropicEvent} (h : Blocks body) {i : ℕ}
    (hi : i ∈ stopped body) : i < (started body).length := by
  induction h with
  | nil => cases hi
  | @start body e kind h he ih =>
    rw [stopped_snoc, (starts_only he).2] at hi
    rw [started_snoc, he]
    simpa using Nat.lt_succ_of_lt (ih (by simpa using hi))
  | write h he ho ih =>
    rw [stopped_snoc, (writes_only he).2] at hi
    rw [started_snoc, (writes_only he).1]
    simpa using ih (by simpa using hi)
  | @stop body j kind h ho ih =>
    rw [stopped_snoc, List.mem_append] at hi
    rw [started_snoc]
    simp only [starts, Option.toList_none, List.append_nil]
    rcases hi with hi | hi
    · exact ih hi
    · obtain rfl : i = j := by simpa [stops] using hi
      exact index_lt h ho.1

theorem Blocks.stopped_nodup {body : List AnthropicEvent} (h : Blocks body) :
    (stopped body).Nodup := by
  induction h with
  | nil => exact List.nodup_nil
  | start h he ih => simpa [stopped_snoc, (starts_only he).2] using ih
  | write h he ho ih => simpa [stopped_snoc, (writes_only he).2] using ih
  | stop kind h ho ih =>
    rw [stopped_snoc]
    refine List.nodup_append.2 ⟨ih, by simp [stops], ?_⟩
    simp only [stops, Option.toList_some, List.mem_singleton, forall_eq]
    exact fun i hi heq => ho.2 (heq ▸ hi)

theorem Blocks.kind_unique {body : List AnthropicEvent} (h : Blocks body) {k l : BlockKind} {i : ℕ}
    (hk : (k, i) ∈ started body) (hl : (l, i) ∈ started body) : k = l := by
  have hinj : ((started body).map Prod.snd).Nodup := by
    rw [h.consecutive]
    exact List.nodup_range
  exact congrArg Prod.fst (List.inj_on_of_nodup_map hinj hk hl rfl)

theorem open_start {body : List AnthropicEvent} (h : Blocks body) {e : AnthropicEvent}
    {kind : BlockKind} (he : starts e = some (kind, (started body).length)) (b : Block) :
    Open (body ++ [e]) b ↔ Open body b ∨ b = (kind, (started body).length) := by
  rw [Open, Open, started_snoc, stopped_snoc, he, (starts_only he).2]
  simp only [Option.toList_some, Option.toList_none, List.append_nil, List.mem_append,
    List.mem_singleton]
  constructor
  · rintro ⟨hb | hb, hstop⟩
    · exact .inl ⟨hb, hstop⟩
    · exact .inr hb
  · rintro (⟨hb, hstop⟩ | rfl)
    · exact ⟨.inl hb, hstop⟩
    · exact ⟨.inr rfl, fun hi => absurd (h.stopped_lt hi) (lt_irrefl _)⟩

theorem open_write {body : List AnthropicEvent} {e : AnthropicEvent} {block : Block}
    (he : writes e = some block) (b : Block) : Open (body ++ [e]) b ↔ Open body b := by
  rw [Open, Open, started_snoc, stopped_snoc, (writes_only he).1, (writes_only he).2]
  simp

theorem open_stop (body : List AnthropicEvent) (i : ℕ) (b : Block) :
    Open (body ++ [.blockStop i]) b ↔ Open body b ∧ b.2 ≠ i := by
  rw [Open, Open, started_snoc, stopped_snoc]
  simp [starts, stops, and_assoc]

/-! ## Well-formed streams -/

/-- What an event before the end of a body may do, after the events before it. -/
structure Allowed (before : List AnthropicEvent) (e : AnthropicEvent) : Prop where
  inside : ∀ model usage reason tokens, e ≠ .messageStart model usage ∧
    e ≠ .messageDelta reason tokens ∧ e ≠ .messageStop
  fresh : ∀ block, starts e = some block → block.2 = (started before).length
  write_open : ∀ block, writes e = some block → Open before block
  stop_open : ∀ i, stops e = some i → ∃ kind, Open before (kind, i)

def Regular (body : List AnthropicEvent) : Prop :=
  ∀ before e after, body = before ++ e :: after → Allowed before e

def Framed (usage : CanonicalUsage) (tokens : ℤ) (events : List AnthropicEvent) : Prop :=
  ∃ model body reason, Regular body ∧
    events = .messageStart model usage :: (body ++ [.messageDelta reason tokens, .messageStop])

/-- Blocks have the indexes from 0 on, and each is started once, written only while open, and
stopped once. -/
structure WellFormed (events : List AnthropicEvent) : Prop where
  frame : ∃ usage tokens, Framed usage tokens events
  consecutive : (started events).map Prod.snd = List.range (started events).length
  stopped_once : (stopped events).Perm (List.range (started events).length)

/-- A stream that is not ended. -/
def Begun (events : List AnthropicEvent) : Prop :=
  events = [] ∨ ∃ model usage body, Regular body ∧ events = .messageStart model usage :: body

theorem allowed_start {body : List AnthropicEvent} {e : AnthropicEvent} {kind : BlockKind}
    (he : starts e = some (kind, (started body).length)) : Allowed body e := by
  refine ⟨fun _ _ _ _ => ⟨?_, ?_, ?_⟩, fun block hb => ?_, fun block hb => ?_, fun i hi => ?_⟩
  · rintro rfl
    cases he
  · rintro rfl
    cases he
  · rintro rfl
    cases he
  · rw [he] at hb
    exact congrArg Prod.snd (Option.some.inj hb).symm
  · simp [(starts_only he).1] at hb
  · simp [(starts_only he).2] at hi

theorem allowed_write {body : List AnthropicEvent} {e : AnthropicEvent} {block : Block}
    (he : writes e = some block) (ho : Open body block) : Allowed body e := by
  refine ⟨fun _ _ _ _ => ⟨?_, ?_, ?_⟩, fun b hb => ?_, fun b hb => ?_, fun i hi => ?_⟩
  · rintro rfl
    cases he
  · rintro rfl
    cases he
  · rintro rfl
    cases he
  · simp [(writes_only he).1] at hb
  · rw [he] at hb
    exact Option.some.inj hb ▸ ho
  · simp [(writes_only he).2] at hi

theorem allowed_stop {body : List AnthropicEvent} {kind : BlockKind} {i : ℕ}
    (ho : Open body (kind, i)) : Allowed body (.blockStop i) :=
  ⟨fun _ _ _ _ => ⟨nofun, nofun, nofun⟩, nofun, nofun,
    fun _ hj => ⟨kind, Option.some.inj hj ▸ ho⟩⟩

theorem Regular.snoc {body : List AnthropicEvent} {e : AnthropicEvent} (h : Regular body)
    (he : Allowed body e) : Regular (body ++ [e]) := by
  intro before d after hsplit
  rcases List.eq_nil_or_concat after with rfl | ⟨after, last, rfl⟩
  · obtain ⟨rfl, hd⟩ := List.append_inj' hsplit rfl
    obtain rfl := List.singleton_inj.1 hd
    exact he
  · have hsplit' : body ++ [e] = (before ++ d :: after) ++ [last] := by simpa using hsplit
    exact h before d after (List.append_inj' hsplit' rfl).1

theorem Blocks.regular {body : List AnthropicEvent} (h : Blocks body) : Regular body := by
  induction h with
  | nil => exact fun before e after hsplit => absurd hsplit.symm (by simp)
  | start h he ih => exact ih.snoc (allowed_start he)
  | write h he ho ih => exact ih.snoc (allowed_write he ho)
  | stop kind h ho ih => exact ih.snoc (allowed_stop ho)

theorem Blocks.wellFormed {body : List AnthropicEvent} (h : Blocks body)
    (hclosed : ∀ block, ¬ Open body block) (model : Json) (usage : CanonicalUsage)
    (reason : String) (tokens : ℤ) : WellFormed
      (.messageStart model usage :: (body ++ [.messageDelta reason tokens, .messageStop])) := by
  have hstarted : started (.messageStart model usage ::
      (body ++ [.messageDelta reason tokens, .messageStop])) = started body :=
    (List.filterMap_append ..).trans (List.append_nil _)
  have hstopped : stopped (.messageStart model usage ::
      (body ++ [.messageDelta reason tokens, .messageStop])) = stopped body :=
    (List.filterMap_append ..).trans (List.append_nil _)
  refine ⟨⟨usage, tokens, model, body, reason, h.regular, rfl⟩, ?_, ?_⟩
  · rw [hstarted]
    exact h.consecutive
  · rw [hstarted, hstopped]
    refine (List.perm_ext_iff_of_nodup h.stopped_nodup List.nodup_range).2 fun i => ?_
    refine ⟨fun hi => List.mem_range.2 (h.stopped_lt hi), fun hi => ?_⟩
    rw [← h.consecutive] at hi
    obtain ⟨block, hblock, rfl⟩ := List.mem_map.1 hi
    exact not_not.1 fun hstop => hclosed block ⟨hblock, hstop⟩

/-! ## Following the blocks -/

/-- The next index, the open text block and the open tool blocks after the events of a body. -/
structure Tracks (next : ℕ) (text : Option ℕ) (tools : List ℕ) (body : List AnthropicEvent) :
    Prop where
  blocks : Blocks body
  count : next = (started body).length
  texts : ∀ i, text = some i ↔ Open body (.text, i)
  calls : ∀ i, i ∈ tools ↔ Open body (.tool, i)
  nodup : tools.Nodup

variable {next : ℕ} {text : Option ℕ} {tools : List ℕ} {body : List AnthropicEvent}

theorem Tracks.nil : Tracks 0 none [] [] := by
  have hopen : ∀ block, ¬ Open [] block := fun block h => nomatch h.1
  exact ⟨.nil, rfl, fun i => ⟨nofun, fun h => absurd h (hopen _)⟩,
    fun i => ⟨nofun, fun h => absurd h (hopen _)⟩, List.nodup_nil⟩

theorem Tracks.not_open_next (h : Tracks next text tools body) (kind : BlockKind) :
    ¬ Open body (kind, next) := by
  intro ho
  have hlt := index_lt h.blocks ho.1
  rw [← h.count] at hlt
  exact lt_irrefl _ hlt

theorem Tracks.textStart (h : Tracks next none tools body) :
    Tracks (next + 1) (some next) tools (body ++ [.textStart next]) := by
  have he : starts (.textStart next) = some (.text, (started body).length) := by
    rw [← h.count]
    rfl
  refine ⟨h.blocks.start he, ?_, fun i => ?_, fun i => ?_, h.nodup⟩
  · rw [started_snoc, List.length_append, ← h.count]
    rfl
  · rw [open_start h.blocks he, ← h.texts, ← h.count]
    simp [eq_comm]
  · rw [open_start h.blocks he, ← h.calls]
    simp

theorem Tracks.toolStart (h : Tracks next text tools body) (id : Option Json) (name : Json)
    (input : Fields) :
    Tracks (next + 1) text (next :: tools) (body ++ [.toolStart next id name input]) := by
  have he : starts (.toolStart next id name input) = some (.tool, (started body).length) := by
    rw [← h.count]
    rfl
  refine ⟨h.blocks.start he, ?_, fun i => ?_, fun i => ?_, List.nodup_cons.2 ⟨fun hn => ?_, h.nodup⟩⟩
  · rw [started_snoc, List.length_append, ← h.count]
    rfl
  · rw [open_start h.blocks he, ← h.texts]
    simp
  · rw [open_start h.blocks he, ← h.calls, ← h.count]
    simp [or_comm]
  · exact h.not_open_next .tool ((h.calls next).1 hn)

theorem Tracks.write (h : Tracks next text tools body) {e : AnthropicEvent} {block : Block}
    (he : writes e = some block) (ho : Open body block) : Tracks next text tools (body ++ [e]) := by
  refine ⟨h.blocks.write he ho, ?_, fun i => ?_, fun i => ?_, h.nodup⟩
  · rw [started_snoc, (writes_only he).1]
    simpa using h.count
  · rw [open_write he, h.texts]
  · rw [open_write he, h.calls]

theorem Tracks.textStop {i : ℕ} (h : Tracks next (some i) tools body) :
    Tracks next none tools (body ++ [.blockStop i]) := by
  have ho : Open body (.text, i) := (h.texts i).1 rfl
  refine ⟨h.blocks.stop .text ho, ?_, fun j => ?_, fun j => ?_, h.nodup⟩
  · rw [started_snoc]
    simpa [starts] using h.count
  · rw [open_stop, ← h.texts]
    simp [eq_comm]
  · rw [open_stop, ← h.calls, iff_self_and]
    rintro hj rfl
    exact absurd (h.blocks.kind_unique ho.1 ((h.calls j).1 hj).1) (by decide)

theorem Tracks.toolStop {i : ℕ} (h : Tracks next text (i :: tools) body) :
    Tracks next text tools (body ++ [.blockStop i]) := by
  have ho : Open body (.tool, i) := (h.calls i).1 List.mem_cons_self
  have hi := List.nodup_cons.1 h.nodup
  refine ⟨h.blocks.stop .tool ho, ?_, fun j => ?_, fun j => ?_, hi.2⟩
  · rw [started_snoc]
    simpa [starts] using h.count
  · rw [open_stop, ← h.texts, iff_self_and]
    rintro hj rfl
    exact absurd (h.blocks.kind_unique ho.1 ((h.texts j).1 hj).1) (by decide)
  · rw [open_stop, ← h.calls, List.mem_cons]
    constructor
    · exact fun hj => ⟨.inr hj, fun heq => hi.1 (heq ▸ hj)⟩
    · exact fun hj => hj.1.resolve_left hj.2

theorem Tracks.toolStops (h : Tracks next text tools body) :
    Tracks next text [] (body ++ tools.map .blockStop) := by
  induction tools generalizing body with
  | nil => simpa using h
  | cons i tools ih => simpa using ih h.toolStop

theorem Tracks.perm {tools' : List ℕ} (h : Tracks next text tools body) (hp : tools.Perm tools') :
    Tracks next text tools' body :=
  ⟨h.blocks, h.count, h.texts, fun i => hp.mem_iff.symm.trans (h.calls i), hp.nodup_iff.1 h.nodup⟩

/-! ## The renderer -/

def openTools (s : AnthropicRenderer) : List ℕ := s.openToolIndexes.map (blockOf s)

/-- Events that are a message start and a body. -/
def Message (usage : CanonicalUsage) (events : List AnthropicEvent) (next : ℕ) (text : Option ℕ)
    (tools : List ℕ) : Prop :=
  ∃ model body, events = .messageStart model usage :: body ∧ Tracks next text tools body

variable {usage : CanonicalUsage}

theorem Message.snoc {events : List AnthropicEvent} {next' : ℕ} {text' : Option ℕ}
    {tools' : List ℕ} {more : List AnthropicEvent} (h : Message usage events next text tools)
    (step : ∀ body, Tracks next text tools body → Tracks next' text' tools' (body ++ more)) :
    Message usage (events ++ more) next' text' tools' := by
  obtain ⟨model, body, rfl, ht⟩ := h
  exact ⟨model, body ++ more, rfl, step body ht⟩

structure Rendering (buffer : Text) (closed : Bool) (usage : CanonicalUsage)
    (events : List AnthropicEvent) (s : AnthropicRenderer) : Prop where
  buffer : s.buffer = buffer
  closed : s.closed = closed
  started : s.messageStarted = true
  keys : ∀ i, i ∈ s.openToolIndexes ↔ (s.toolBlockIndexes.lookup i).isSome
  message : Message usage events s.nextBlockIndex s.textBlockIndex (openTools s)

structure Silent (buffer : Text) (closed : Bool) (events : List AnthropicEvent)
    (s : AnthropicRenderer) : Prop where
  buffer : s.buffer = buffer
  closed : s.closed = closed
  events : events = []
  started : s.messageStarted = false
  next : s.nextBlockIndex = 0
  text : s.textBlockIndex = none
  blocks : s.toolBlockIndexes = []
  open_tools : s.openToolIndexes = []

def Agrees (buffer : Text) (closed : Bool) (usage : CanonicalUsage)
    (events : List AnthropicEvent) (s : AnthropicRenderer) : Prop :=
  Silent buffer closed events s ∨ Rendering buffer closed usage events s

variable {buffer : Text} {closed : Bool} {events : List AnthropicEvent} {s : AnthropicRenderer}

theorem ensureMessageStart_emits (h : Agrees buffer closed usage events s) {first : CanonicalUsage}
    (hu : s.messageStarted = false → first = usage) :
    Emits (ensureMessageStart s first) events (Rendering buffer closed usage) := by
  rw [ensureMessageStart]
  rcases h with h | h
  · rw [if_neg (by simp [h.started]), hu h.started]
    refine .yield ⟨h.buffer, h.closed, rfl, fun i => ?_, s.model, [], ?_, ?_⟩
    · simp [h.blocks, h.open_tools]
    · rw [h.events]
      rfl
    · rw [openTools, h.next, h.text, h.open_tools]
      exact .nil
  · rw [if_pos h.started]
    exact .ok h

theorem emitText_emits (h : Agrees buffer closed usage events s)
    (hu : s.messageStarted = false → .zero = usage) (t : String) :
    Emits (emitText s t) events (Rendering buffer closed usage) := by
  refine .bind (ensureMessageStart_emits h hu) fun events s h => ?_
  obtain ⟨hbuffer, hclosed, hstarted, hkeys, hmessage⟩ := h
  cases hb : s.textBlockIndex with
  | some i =>
    rw [hb] at hmessage
    refine .yield ⟨hbuffer, hclosed, hstarted, hkeys, ?_⟩
    rw [hb]
    exact hmessage.snoc fun body ht => ht.write rfl ((ht.texts i).1 rfl)
  | none =>
    rw [hb] at hmessage
    refine .events ⟨hbuffer, hclosed, hstarted, hkeys, ?_⟩
    refine hmessage.snoc fun body ht => ?_
    have hopen := ht.textStart
    have hwrite := hopen.write (e := .textDelta s.nextBlockIndex t) rfl ((hopen.texts _).1 rfl)
    rw [List.append_assoc] at hwrite
    exact hwrite

theorem closeTextBlock_emits (h : Rendering buffer closed usage events s) :
    Emits (closeTextBlock s) events fun events s =>
      Rendering buffer closed usage events s ∧ s.textBlockIndex = none := by
  rw [closeTextBlock]
  cases hb : s.textBlockIndex with
  | none => exact .ok ⟨h, hb⟩
  | some i =>
    have hmessage := h.message
    rw [hb] at hmessage
    exact .yield ⟨⟨h.buffer, h.closed, h.started, h.keys,
      hmessage.snoc fun body ht => ht.textStop⟩, rfl⟩

theorem toolCallStart_ok (rt : Runtime) {call : Json} (h : IsCall call) (n : ℕ) :
    ∃ id name input, toolCallStart rt n call = .ok (.toolStart n id name input) := by
  rw [toolCallStart, Json.get_of_dict h.1, Python.Py.bind_ok]
  dsimp only
  rw [Json.get_of_dict h.1, Python.Py.bind_ok, Json.get_of_dict h.2, Python.Py.bind_ok,
    Json.get_of_dict h.2, Python.Py.bind_ok]
  exact ⟨_, _, _, rfl⟩

theorem slot_isCall (slot : Slot) : IsCall slot.toJson := ⟨rfl, rfl⟩

/-- A new block of tool call `i`. -/
def withBlock (s : AnthropicRenderer) (i : ℤ) : AnthropicRenderer :=
  { s with
    nextBlockIndex := s.nextBlockIndex + 1
    toolBlockIndexes := setKey i s.nextBlockIndex s.toolBlockIndexes
    openToolIndexes := i :: s.openToolIndexes }

theorem openTools_withBlock {i : ℤ} (h : i ∉ s.openToolIndexes) :
    openTools (withBlock s i) = s.nextBlockIndex :: openTools s := by
  have hblock : ∀ j, blockOf (withBlock s i) j = if j = i then s.nextBlockIndex else blockOf s j := by
    intro j
    rw [blockOf, withBlock, lookup_setKey]
    split_ifs
    · rfl
    · rfl
  rw [openTools, withBlock, List.map_cons, ← withBlock, hblock, if_pos rfl]
  refine congrArg _ (List.map_congr_left fun j hj => ?_)
  have hji : j ≠ i := fun heq => h (heq ▸ hj)
  rw [hblock, if_neg hji]

theorem toolBlock_emits (h : Rendering buffer closed usage events s) (i : ℤ) (slot : Slot) :
    Emits (toolBlock rt s i slot) events fun events out =>
      Rendering buffer closed usage events out.1 ∧ out.2 ∈ openTools out.1 := by
  rw [toolBlock]
  cases hl : s.toolBlockIndexes.lookup i with
  | some b =>
    have hi : i ∈ s.openToolIndexes := (h.keys i).2 (by rw [hl]; rfl)
    have hb : blockOf s i = b := by rw [blockOf, hl]; rfl
    exact .ok ⟨h, hb ▸ List.mem_map_of_mem hi⟩
  | none =>
    have hi : i ∉ s.openToolIndexes := fun hi => by simpa [hl] using (h.keys i).1 hi
    obtain ⟨id, name, input, hstart⟩ := toolCallStart_ok rt (slot_isCall slot)
      s.nextBlockIndex
    refine .bind_lift hstart (.yield ?_)
    have hopen := openTools_withBlock hi
    refine ⟨⟨h.buffer, h.closed, h.started, fun j => ?_, ?_⟩, hopen ▸ List.mem_cons_self⟩
    · rw [lookup_setKey]
      split_ifs with hj
      · simp [hj]
      · simp [hj, h.keys]
    · have hnew : Message usage (events ++ [.toolStart s.nextBlockIndex id name input])
          (s.nextBlockIndex + 1) s.textBlockIndex (openTools (withBlock s i)) := by
        rw [hopen]
        exact h.message.snoc fun body ht => ht.toolStart id name input
      exact hnew

def IsFragment (fragment : Json) : Prop :=
  fragment.isDict = true → ((fragment.val "function").orElse (.obj [])).isDict = true

theorem merge_ok (rt : Runtime) {fragment : Json} (hd : fragment.isDict = true) (h : IsFragment fragment)
    (slot : Slot) : ∃ merged, mergeToolCallFragment rt slot fragment = .ok merged := by
  have hget := Json.get_of_dict hd
  have hfunction := Json.get_of_dict (h hd)
  rw [mergeToolCallFragment]
  simp only [hget, Python.Py.bind_ok, hfunction]
  exact ⟨_, rfl⟩

theorem emitFragment_emits (h : Rendering buffer closed usage events s) {fragment : Json}
    (hf : IsFragment fragment) :
    Emits (emitFragment rt s fragment) events (Rendering buffer closed usage) := by
  rw [emitFragment]
  refine .ite (fun hd => ?_) fun _ => .ok h
  obtain ⟨merged, hmerged⟩ := merge_ok rt hd hf
    ((s.toolCallSlots.lookup (fragmentIndex fragment)).getD .empty)
  have hslot : Rendering buffer closed usage events { s with
      toolCallSlots := setKey (fragmentIndex fragment) merged.1 s.toolCallSlots } :=
    ⟨h.buffer, h.closed, h.started, h.keys, h.message⟩
  refine .bind_lift hmerged (.bind (toolBlock_emits hslot _ _) fun events out hout => ?_)
  refine .ite (fun _ => .ok hout.1) fun _ => .yield ?_
  refine ⟨hout.1.buffer, hout.1.closed, hout.1.started, hout.1.keys, ?_⟩
  exact hout.1.message.snoc fun body ht => ht.write rfl ((ht.calls _).1 hout.2)

theorem emitToolCallFragments_emits (h : Agrees buffer closed .zero events s)
    {fragments : List Json} (hf : ∀ fragment ∈ fragments, IsFragment fragment) :
    Emits (emitToolCallFragments rt s fragments) events (Rendering buffer closed .zero) :=
  .bind (ensureMessageStart_emits h fun _ => rfl) fun _ _ h => .bind (closeTextBlock_emits h)
    fun _ _ h => .fold (fun fragment hmem _ _ h => emitFragment_emits h (hf fragment hmem)) h.1

/-! ### Chunks -/

def IsDelta (delta : Json) : Prop :=
  delta.isDict = true ∧ ∀ fragments, delta.val "tool_calls" = .arr fragments →
    ∀ fragment ∈ fragments, IsFragment fragment

/-- The JSON types of an OpenAI chunk. -/
def IsChunk (payload : Json) : Prop :=
  payload.isDict = true ∧ ∃ choices, (payload.val "choices").orElse (.arr []) = .arr choices ∧
    ∀ choice ∈ choices, IsDelta ((choice.val "delta").orElse (.obj []))

def startsDelta (delta : Json) : Bool :=
  delta.val "role" = .str "assistant" || (delta.val "content").truthy ||
    match delta.val "tool_calls" with
    | .arr (_ :: _) => true
    | _ => false

def startsChoice (choice : Json) : Bool := startsDelta ((choice.val "delta").orElse (.obj []))

/-- A chunk with something to render: the assistant's role, a text or a tool call. -/
def startsMessage (payload : Json) : Bool :=
  match (payload.val "choices").orElse (.arr []) with
  | .arr choices => choices.any startsChoice
  | _ => false

/-- The renderer has started its message exactly where `started` says. -/
def Follows (buffer : Text) (closed started : Bool) (events : List AnthropicEvent)
    (s : AnthropicRenderer) : Prop :=
  Agrees buffer closed .zero events s ∧ s.messageStarted = started

variable {started : Bool}

theorem Follows.ite {c : Prop} [Decidable c] {run : Run AnthropicRenderer}
    (h : Follows buffer closed started events s)
    (hrun : Emits run events (Rendering buffer closed .zero)) :
    Emits (if c then run else .ok s) events (Follows buffer closed (started || decide c)) := by
  refine .ite (fun hc => hrun.mono fun _ _ hr => ⟨.inr hr, ?_⟩) fun hc => .ok ⟨h.1, ?_⟩
  · simp [hr.started, hc]
  · simp [h.2, hc]

theorem handleDelta_emits (h : Follows buffer closed started events s) {delta : Json}
    (hd : IsDelta delta) : Emits (handleDelta rt s delta) events
      (Follows buffer closed (started || startsDelta delta)) := by
  have hget := Json.get_of_dict hd.1
  rw [handleDelta]
  refine .bind_lift (a := (delta.val "role", delta.val "content", delta.val "tool_calls")) ?_ ?_
  · simp only [hget, Python.Py.bind_ok]
    rfl
  · refine .bind (h.ite (ensureMessageStart_emits h.1 fun _ => rfl)) fun events s h => ?_
    refine .bind (h.ite (emitText_emits h.1 (fun _ => rfl) _)) fun events s h => ?_
    simp only [Bool.decide_eq_true] at h
    split
    · next f fs hcalls =>
      refine (emitToolCallFragments_emits h.1 (hd.2 _ hcalls)).mono fun _ _ hr => ⟨.inr hr, ?_⟩
      rw [hr.started, startsDelta, hcalls]
      simp
    · next hcalls =>
      refine .ok ⟨h.1, ?_⟩
      have hnone : (match delta.val "tool_calls" with | .arr (_ :: _) => true | _ => false) =
          false := by
        split
        · next f fs heq => exact absurd heq (hcalls f fs)
        · rfl
      rw [h.2, startsDelta, hnone, Bool.or_false, Bool.or_assoc]

theorem Follows.congr (h : Follows buffer closed started events s) (model : Json)
    (finish : String) : Follows buffer closed started events
      { s with model := model, finishReason := finish } := by
  refine ⟨?_, h.2⟩
  rcases h.1 with h | h
  · exact .inl ⟨h.buffer, h.closed, h.events, h.started, h.next, h.text, h.blocks, h.open_tools⟩
  · exact .inr ⟨h.buffer, h.closed, h.started, h.keys, h.message⟩

theorem handleChoice_emits (h : Follows buffer closed started events s) {choice : Json}
    (hd : IsDelta ((choice.val "delta").orElse (.obj []))) :
    Emits (handleChoice rt s choice) events
      (Follows buffer closed (started || startsChoice choice)) := by
  have hskip : Follows buffer closed (started || false) events s := by rwa [Bool.or_false]
  cases choice with
  | obj fields => exact handleDelta_emits (h.congr s.model _) hd
  | _ => exact .ok hskip

theorem handlePayload_emits (h : Follows buffer closed started events s) {payload : Json}
    (hp : IsChunk payload) : Emits (handlePayload rt s payload) events
      (Follows buffer closed (started || startsMessage payload)) := by
  obtain ⟨hdict, choices, harr, hchoices⟩ := hp
  have hget := Json.get_of_dict hdict
  rw [handlePayload, startsMessage, harr]
  refine .bind_lift (a := ((payload.val "model").orElse s.model, choices)) ?_ ?_
  · simp only [hget, Python.Py.bind_ok, harr]
    rfl
  · refine .fold_seen (I := fun seen => Follows buffer closed (started || seen.any startsChoice))
      [] (fun choice hmem seen events s h => ?_) ?_
    · rw [List.any_append, ← Bool.or_assoc]
      simpa using handleChoice_emits h (hchoices choice hmem)
    · simpa using h.congr ((payload.val "model").orElse s.model) s.finishReason

/-- All chunks pushed, one after the other. -/
def pushAll (rt : Runtime) : AnthropicRenderer → List Bytes → Run AnthropicRenderer :=
  Gen.fold (push rt)

/-- All calls of `finish`. -/
def finishAll (rt : Runtime) : AnthropicRenderer → List CanonicalCompletion → Run AnthropicRenderer :=
  Gen.fold (finish rt)

theorem Follows.rest (h : Follows buffer closed started events s) (buffer' : Text) :
    Follows buffer' closed started events { s with buffer := buffer' } := by
  refine ⟨?_, h.2⟩
  rcases h.1 with h | h
  · exact .inl ⟨rfl, h.closed, h.events, h.started, h.next, h.text, h.blocks, h.open_tools⟩
  · exact .inr ⟨rfl, h.closed, h.started, h.keys, h.message⟩

theorem Agrees.kept (h : Agrees buffer closed usage events s) : s.buffer = buffer := by
  rcases h with h | h
  · exact h.buffer
  · exact h.buffer

theorem Agrees.open (h : Agrees buffer false usage events s) : ¬ s.closed = true := by
  rcases h with h | h
  · simp [h.closed]
  · simp [h.closed]

/-- After all chunks, the message is started exactly where one of them has something to render. -/
theorem pushAll_emits (rt : Runtime) {chunks : List Bytes} {started : Bool}
    (hc : ∀ payload ∈ feedAll (openaiBlock rt.loads) buffer chunks, IsChunk payload)
    (h : Follows buffer closed started events s) :
    Emits (pushAll rt s chunks) events fun events s => ∃ b, Follows b closed
      (started || (feedAll (openaiBlock rt.loads) buffer chunks).any startsMessage) events s := by
  induction chunks generalizing buffer events s started with
  | nil => exact .ok ⟨buffer, by simpa [feedAll] using h⟩
  | cons chunk chunks ih =>
    rw [feedAll] at hc ⊢
    have hpush : push rt s chunk = Gen.fold (handlePayload rt)
        { s with buffer := (feed (openaiBlock rt.loads) buffer chunk).2 }
        (feed (openaiBlock rt.loads) buffer chunk).1 := by rw [push, h.1.kept]
    refine .bind (P := Follows (feed (openaiBlock rt.loads) buffer chunk).2 closed (started ||
      (feed (openaiBlock rt.loads) buffer chunk).1.any startsMessage)) ?_ fun events s h => ?_
    · rw [hpush]
      refine .fold_seen (I := fun seen => Follows _ closed (started || seen.any startsMessage))
        [] (fun payload hmem seen events s h => ?_) ?_
      · rw [List.any_append, ← Bool.or_assoc]
        simpa using handlePayload_emits h (hc payload (List.mem_append_left _ hmem))
      · simpa using h.rest (feed (openaiBlock rt.loads) buffer chunk).2
    · rw [List.any_append, ← Bool.or_assoc]
      exact ih (fun payload hmem => hc payload (List.mem_append_right _ hmem)) h

theorem new_follows (model : Json) : Follows [] false false [] (.new model) :=
  ⟨.inl ⟨rfl, rfl, rfl, rfl, rfl, rfl, rfl, rfl⟩, rfl⟩

theorem Agrees.begun (h : Agrees buffer closed usage events s) : Begun events := by
  rcases h with h | h
  · exact .inl h.events
  · obtain ⟨model, body, heq, ht⟩ := h.message
    exact .inr ⟨model, usage, body, ht.blocks.regular, heq⟩

/-! ### The end -/

structure Closing (usage : CanonicalUsage) (events : List AnthropicEvent)
    (s : AnthropicRenderer) : Prop where
  closed : s.closed = true
  message : Message usage events s.nextBlockIndex none []

theorem closeToolBlocks_emits (h : Rendering buffer true usage events s)
    (ht : s.textBlockIndex = none) : Emits (closeToolBlocks s) events (Closing usage) := by
  refine .events ⟨h.closed, ?_⟩
  have hmessage := h.message
  rw [ht] at hmessage
  refine hmessage.snoc fun body htracks => ?_
  have hperm := (List.mergeSort_perm s.openToolIndexes
    fun i j => blockOf s i ≤ blockOf s j).symm.map (blockOf s)
  have hstops := (htracks.perm hperm).toolStops
  rwa [List.map_map] at hstops

theorem toolCallEvents_emits (h : Closing usage events s) {call : Json} (hc : IsCall call) :
    Emits (toolCallEvents rt s call) events (Closing usage) := by
  obtain ⟨id, name, input, hstart⟩ := toolCallStart_ok rt hc s.nextBlockIndex
  refine .bind_lift hstart (.events ⟨h.closed, h.message.snoc fun body ht => ?_⟩)
  have hstop := (ht.toolStart id name input).toolStop
  rw [List.append_assoc] at hstop
  exact hstop

structure Ended (usage : CanonicalUsage) (tokens : ℤ) (events : List AnthropicEvent)
    (s : AnthropicRenderer) : Prop where
  well_formed : WellFormed events
  framed : Framed usage tokens events
  closed : s.closed = true

theorem Closing.ended (h : Closing usage events s) (reason : String) (tokens : ℤ) :
    Ended usage tokens (events ++ [.messageDelta reason tokens, .messageStop]) s := by
  obtain ⟨model, body, rfl, ht⟩ := h.message
  refine ⟨ht.blocks.wellFormed (fun block ho => ?_) model usage reason tokens,
    ⟨model, body, reason, ht.blocks.regular, rfl⟩, h.closed⟩
  obtain ⟨kind, i⟩ := block
  cases kind with
  | text => exact absurd ((ht.texts i).2 ho) nofun
  | tool => exact absurd ((ht.calls i).2 ho) nofun

/-- The usage of a message start: the completion's where no chunk started the message. -/
def startUsage (started : Bool) (completion : CanonicalCompletion) : CanonicalUsage :=
  if started then .zero else completion.usage

theorem Follows.closing (h : Follows buffer closed started events s)
    (completion : CanonicalCompletion) (model : Json) :
    Agrees buffer true (startUsage started completion) events
      { s with closed := true, model := model } := by
  obtain ⟨h, rfl⟩ := h
  rcases h with h | h
  · exact .inl ⟨h.buffer, rfl, h.events, h.started, h.next, h.text, h.blocks, h.open_tools⟩
  · refine .inr ⟨h.buffer, rfl, h.started, h.keys, ?_⟩
    rw [h.started]
    exact h.message

theorem finishStream_emits (h : Follows buffer closed started events s)
    {completion : CanonicalCompletion} (ht : Typed completion) :
    Emits (finishStream rt s completion) events
      (Ended (startUsage started completion) completion.usage.outputTokens) := by
  have hfirst : s.messageStarted = false → completion.usage = startUsage started completion := by
    rintro hs
    rw [startUsage, ← h.2, hs]
    rfl
  obtain ⟨reason, hreason⟩ := ht.finishReason
  obtain ⟨hiter, hcalls, -⟩ := ht.calls rt
  refine .bind (ensureMessageStart_emits (h.closing completion _) hfirst) fun events s h => ?_
  have hnone : s.messageStarted = false → .zero = startUsage started completion := fun hs =>
    absurd (hs.symm.trans h.started) (by decide)
  refine .bind (.ite (fun _ => emitText_emits (.inr h) hnone _) fun _ => .ok h) fun events s h => ?_
  refine .bind (closeTextBlock_emits h) fun events s h => ?_
  refine .bind (closeToolBlocks_emits h.1 h.2) fun events s h => ?_
  refine .bind (P := Closing (startUsage started completion)) (.ite (fun _ => .bind_lift hiter
    (.fold (fun call hmem _ _ h => toolCallEvents_emits h (hcalls call hmem)) h))
      fun _ => .ok h) fun events s h => ?_
  obtain ⟨shown, hshown⟩ : ∃ shown, completion.finishReason.orElse (.str s.finishReason) =
      .str shown := by
    rw [hreason, Json.orElse]
    split_ifs
    · exact ⟨_, rfl⟩
    · exact ⟨_, rfl⟩
  obtain ⟨stop, hstop⟩ := ClientCompletions.stopReason_ok shown completion.toolCalls
  rw [hshown]
  exact .bind_lift hstop (.events (h.ended stop completion.usage.outputTokens))

theorem finishAll_emits (rt : Runtime) (h : Follows buffer false started events s)
    {completion : CanonicalCompletion} (ht : Typed completion) (again : List CanonicalCompletion) :
    Emits (finishAll rt s (completion :: again)) events
      (Ended (startUsage started completion) completion.usage.outputTokens) := by
  refine .bind (P := Ended (startUsage started completion) completion.usage.outputTokens) ?_
    fun events s h => .fold (fun completion _ events s h => ?_) h
  · rw [finish, if_neg h.1.open]
    exact finishStream_emits h ht
  · rw [finish, if_pos h.closed]
    exact .ok h

/-! ## Every stream -/

/-- Whatever chunks are pushed, the stream begins well; the first `finish` ends it well, and
no later one adds to it. -/
theorem stream_well_formed (rt : Runtime) (model : Json) (chunks : List Bytes)
    (hc : ∀ payload ∈ openaiEvents rt.loads chunks, IsChunk payload) :
    ∃ events s, pushAll rt (.new model) chunks = ⟨events, .ok s⟩ ∧ Begun events ∧
      ∀ completion, Typed completion → ∀ again, ∃ rest s',
        finishAll rt s (completion :: again) = ⟨rest, .ok s'⟩ ∧ WellFormed (events ++ rest) := by
  obtain ⟨events, s, hpush, buffer, h⟩ := pushAll_emits rt hc (new_follows model)
  refine ⟨events, s, hpush, h.1.begun, fun completion ht again => ?_⟩
  obtain ⟨rest, s', hfinish, hended⟩ := finishAll_emits rt h ht again
  exact ⟨rest, s', hfinish, hended.well_formed⟩

/-! ## A text -/

def greeting : Json :=
  .obj [("choices", .arr [.obj [("delta", .obj [("content", .str "hi")])]])]

def greetingText : Text :=
  "\x7b\"choices\":[\x7b\"delta\":\x7b\"content\":\"hi\"\x7d\x7d]\x7d".toList

def greetingRuntime : Runtime :=
  ⟨fun t => if t = greetingText then some greeting else none, fun _ => "", fun _ => "None",
    Python.none_ne⟩

def greetingChunk : Bytes :=
  Python.Utf8.encode ("data: ".toList ++ greetingText ++ "\n\n".toList)

def greetingCompletion : CanonicalCompletion :=
  ⟨.str "gpt", .str "hi", .null, .str "stop", ⟨3, 1, 0⟩, none⟩

theorem event_loaded {loads : Text → Option Json} {chunks : List Bytes} {payload : Json}
    (h : payload ∈ openaiEvents loads chunks) : ∃ t, loads t = some payload := by
  rw [SseDecoder.openaiEvents_eq] at h
  obtain ⟨block, -, hblock⟩ := List.mem_filterMap.1 h
  simp only [openaiBlock] at hblock
  split_ifs at hblock
  split at hblock
  · next fields hload => exact ⟨_, hload.trans hblock⟩
  · cases hblock

theorem greeting_chunks : ∀ payload ∈ openaiEvents greetingRuntime.loads [greetingChunk],
    IsChunk payload := by
  intro payload h
  obtain ⟨t, ht⟩ := event_loaded h
  simp only [greetingRuntime] at ht
  split_ifs at ht
  obtain rfl := Option.some.inj ht
  refine ⟨rfl, [.obj [("delta", .obj [("content", .str "hi")])]], rfl, fun choice hc => ?_⟩
  obtain rfl := List.mem_singleton.1 hc
  refine ⟨rfl, fun fragments hcalls => ?_⟩
  cases hcalls

theorem greeting_well_formed :
    ∃ events s, pushAll greetingRuntime (.new .null) [greetingChunk] = ⟨events, .ok s⟩ ∧
      events.length = 3 ∧ ∃ rest s',
        finishAll greetingRuntime s [greetingCompletion, greetingCompletion] = ⟨rest, .ok s'⟩ ∧
          WellFormed (events ++ rest) := by
  obtain ⟨events, s, hpush, -, hfinish⟩ := stream_well_formed greetingRuntime .null [greetingChunk]
    greeting_chunks
  have hlength : (pushAll greetingRuntime (.new .null) [greetingChunk]).out.length = 3 := by
    decide +kernel
  rw [hpush] at hlength
  exact ⟨events, s, hpush, hlength, hfinish greetingCompletion
    ⟨⟨_, rfl⟩, ⟨_, rfl⟩, .inl rfl, ⟨_, rfl⟩⟩ [greetingCompletion]⟩

end Varsten.Proxy.AnthropicGrammar
