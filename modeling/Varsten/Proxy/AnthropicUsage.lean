import Varsten.Proxy.AnthropicStream
import Varsten.Proxy.StreamReports

/-!
# The usage of an Anthropic stream

What the translator bills a stream for, against the latest counts that its usage blocks report.
-/

namespace Varsten.Proxy.AnthropicUsage

open Python (Json Py Gen Runtime)
open Python.Utf8 (Bytes Text)
open Providers (CanonicalUsage CanonicalCompletion)
open Providers.Anthropic
open SseDecoder (feed anthropicBlock)
open StreamReports (feed_simulates)
open StreamReports.Anthropic (events)
open AnthropicStream Reports
open Forward

/-- The usage block of an event, where it is one that the translator reads usage from. -/
def usageBlock (ev : Json) : Option Json :=
  match ev.val "type" with
  | .str "message_start" => some (((ev.val "message").orElse (.obj [])).val "usage")
  | .str "message_delta" => some (ev.val "usage")
  | _ => none

theorem usageBlock_none {ev : Json} (hstart : ev.val "type" ≠ .str "message_start")
    (hdelta : ev.val "type" ≠ .str "message_delta") : usageBlock ev = none := by
  unfold usageBlock
  split
  · exact absurd ‹_› hstart
  · exact absurd ‹_› hdelta
  · rfl

def addBlock (usage : CanonicalUsage) (block : Json) : CanonicalUsage :=
  ((usageFromAnthropic block usage).toOption).getD usage

def addEvent (usage : CanonicalUsage) (ev : Json) : CanonicalUsage :=
  (usageBlock ev).elim usage (addBlock usage)

theorem foldl_addEvent (js : List Json) (usage : CanonicalUsage) :
    js.foldl addEvent usage = (js.filterMap usageBlock).foldl addBlock usage := by
  induction js generalizing usage with
  | nil => rfl
  | cons j js ih =>
    rw [List.foldl_cons, ih, addEvent]
    cases hblock : usageBlock j with
    | none => rw [List.filterMap_cons_none hblock, Option.elim_none]
    | some block => rw [List.filterMap_cons_some hblock, Option.elim_some, List.foldl_cons]

theorem foldl_addBlock {us : List Report} {js : List Json}
    (h : List.Forall₂ Report.Renders us js) (usage : CanonicalUsage) :
    js.foldl addBlock usage = us.foldl (fun p u => u.apply p) usage := by
  induction h generalizing usage with
  | nil => rfl
  | cons hu _ ih =>
    rw [List.foldl_cons, List.foldl_cons, addBlock, usageFromAnthropic_eq hu]
    exact ih _

/-! ## The translator -/

section Translator

variable {rt : Runtime} {buffer : Text} {s s' : Translator} {ev : Json} {usage : CanonicalUsage}

structure Meters (buffer : Text) (s : Translator) (usage : CanonicalUsage) : Prop where
  buffer : s.buffer = buffer
  usage : s.currentUsage = usage

/-- A handler of an event that has no usage leaves it. -/
structure Keeps (s s' : Translator) : Prop where
  buffer : s'.buffer = s.buffer
  usage : s'.currentUsage = s.currentUsage

theorem emitText_keeps {text : Json} (h : (emitText rt s text).result = .ok s') : Keeps s s' := by
  obtain rfl := Except.ok.inj h
  exact ⟨rfl, rfl⟩

theorem start_keeps (h : (handleContentBlockStart rt s ev).result = .ok s') : Keeps s s' := by
  obtain ⟨⟨i, block⟩, -, h⟩ := Gen.bind_result_eq_ok.1 h
  dsimp only at h
  split at h
  · split_ifs at h
    · exact emitText_keeps h
    · obtain rfl := Except.ok.inj h
      exact ⟨rfl, rfl⟩
    · obtain rfl := Except.ok.inj h
      exact ⟨rfl, rfl⟩
  · cases h

theorem delta_keeps (h : (handleContentBlockDelta rt s ev).result = .ok s') : Keeps s s' := by
  obtain ⟨⟨i, delta⟩, -, h⟩ := Gen.bind_result_eq_ok.1 h
  dsimp only at h
  split at h
  · split_ifs at h
    · exact emitText_keeps h
    · obtain rfl := Except.ok.inj h
      exact ⟨rfl, rfl⟩
    · obtain rfl := Except.ok.inj h
      exact ⟨rfl, rfl⟩
  · cases h

theorem stop_keeps (h : (handleContentBlockStop rt s ev).result = .ok s') : Keeps s s' := by
  obtain ⟨i, -, h⟩ := Gen.bind_result_eq_ok.1 h
  dsimp only at h
  split at h
  · obtain rfl := Except.ok.inj h
    exact ⟨rfl, rfl⟩
  · obtain rfl := Except.ok.inj h
    exact ⟨rfl, rfl⟩

theorem addBlock_of {block : Json} {usage next : CanonicalUsage}
    (h : usageFromAnthropic block usage = .ok next) : addBlock usage block = next := by
  rw [addBlock, h]
  rfl

theorem messageStart_meters (h : (handleMessageStart s ev).result = .ok s') :
    s'.buffer = s.buffer ∧ s'.currentUsage =
      addBlock s.currentUsage (((ev.val "message").orElse (.obj [])).val "usage") := by
  obtain ⟨s₁, hm, h⟩ := Gen.bind_result_eq_ok.1 h
  obtain ⟨message, hmessage, hm⟩ := Py.bind_eq_ok.1 hm
  obtain rfl := Json.get_eq_ok hmessage
  obtain ⟨_, -, hm⟩ := Py.bind_eq_ok.1 hm
  obtain ⟨block, hblock, hm⟩ := Py.bind_eq_ok.1 hm
  obtain rfl := Json.get_eq_ok hblock
  obtain ⟨next, hnext, hm⟩ := Py.bind_eq_ok.1 hm
  obtain rfl := Except.ok.inj hm
  obtain rfl := Except.ok.inj h
  exact ⟨rfl, (addBlock_of hnext).symm⟩

theorem messageDelta_meters (h : handleMessageDelta s ev = .ok s') :
    s'.buffer = s.buffer ∧ s'.currentUsage = addBlock s.currentUsage (ev.val "usage") := by
  obtain ⟨block, hblock, h⟩ := Py.bind_eq_ok.1 h
  obtain rfl := Json.get_eq_ok hblock
  obtain ⟨next, hnext, h⟩ := Py.bind_eq_ok.1 h
  obtain ⟨_, -, h⟩ := Py.bind_eq_ok.1 h
  obtain ⟨_, -, h⟩ := Py.bind_eq_ok.1 h
  obtain ⟨_, -, h⟩ := Py.bind_eq_ok.1 h
  obtain rfl := Except.ok.inj h
  exact ⟨rfl, (addBlock_of hnext).symm⟩

theorem Meters.keeps (ha : Meters buffer s usage) (h : Keeps s s') (hev : usageBlock ev = none) :
    Meters buffer s' (addEvent usage ev) := by
  rw [addEvent, hev]
  exact ⟨h.buffer.trans ha.buffer, h.usage.trans ha.usage⟩

theorem handleEvent_meters (ha : Meters buffer s usage)
    (h : (handleEvent rt s ev).result = .ok s') : Meters buffer s' (addEvent usage ev) := by
  obtain ⟨type, ht, h⟩ := Gen.bind_result_eq_ok.1 h
  have ht := (Json.get_eq_ok ht).symm
  split at h
  · obtain ⟨hbuffer, husage⟩ := messageStart_meters h
    refine ⟨hbuffer.trans ha.buffer, ?_⟩
    simp only [addEvent, usageBlock, ht]
    rw [husage, ha.usage]
    rfl
  · exact ha.keeps (start_keeps h) (usageBlock_none (by rw [ht]; decide) (by rw [ht]; decide))
  · exact ha.keeps (delta_keeps h) (usageBlock_none (by rw [ht]; decide) (by rw [ht]; decide))
  · exact ha.keeps (stop_keeps h) (usageBlock_none (by rw [ht]; decide) (by rw [ht]; decide))
  · obtain ⟨hbuffer, husage⟩ := messageDelta_meters h
    refine ⟨hbuffer.trans ha.buffer, ?_⟩
    simp only [addEvent, usageBlock, ht]
    rw [husage, ha.usage]
    rfl
  · obtain rfl := Except.ok.inj h
    exact ha.keeps ⟨rfl, rfl⟩ (usageBlock_none (by rw [ht]; decide) (by rw [ht]; decide))
  · rename_i hstart _ _ _ hdelta _
    obtain rfl := Except.ok.inj h
    exact ha.keeps ⟨rfl, rfl⟩
      (usageBlock_none (by rw [ht]; exact hstart) (by rw [ht]; exact hdelta))

theorem push_meters {chunk : Bytes} (ha : Meters buffer s usage)
    (h : (push rt s chunk).result = .ok s') :
    Meters (feed anthropicBlock buffer chunk).2 s'
      (((feed anthropicBlock buffer chunk).1.filterMap fun e => rt.loads e.2).foldl
        addEvent usage) := by
  obtain rfl := ha.buffer
  have hfed : Meters (feed anthropicBlock s.buffer chunk).2
      { s with buffer := (feed anthropicBlock s.buffer chunk).2 } usage := ⟨rfl, ha.usage⟩
  exact Gen.fold_simulates (f := handleEvent rt) handleEvent_meters hfed h

/-- The usage of a stream is what its usage blocks come to, one after the other. -/
theorem assembled_usage {chunks : List Bytes} {result : CanonicalCompletion} {us : List Report}
    (h : assembled (adapter rt) chunks = .ok result)
    (hus : List.Forall₂ Report.Renders us ((events rt chunks).filterMap usageBlock)) :
    result.usage = total us := by
  obtain ⟨s, hs, hr⟩ := Py.bind_eq_ok.1 h
  obtain rfl := Except.ok.inj hr
  have hnew : Meters [] .new .zero := ⟨rfl, rfl⟩
  obtain ⟨rest, ha⟩ := feed_simulates (R := Meters) push_meters hnew hs
  have hfold := foldl_addEvent (events rt chunks) .zero
  rw [foldl_addBlock hus] at hfold
  exact ha.usage.trans hfold

end Translator

/-! ## The latest counts -/

def latest (us : List Report) : CanonicalUsage where
  inputTokens := final Report.inputs us + final Report.creations us + final Report.reads us
  outputTokens := final Report.outputs us
  providerCachedInputTokens := final Report.reads us

/-- The usage is the latest counts, and no more is cached than is put in. -/
structure Exact (us : List Report) (usage : CanonicalUsage) : Prop where
  eq : usage = latest us
  cached : usage.providerCachedInputTokens ≤ usage.inputTokens

/-- No count goes down along the stream. -/
structure Grows (us : List Report) : Prop where
  input : Cumulative Report.inputs us
  cacheCreation : Cumulative Report.creations us
  cacheRead : Cumulative Report.reads us
  output : Cumulative Report.outputs us

def Unkeyed (column : Report → Count) (us : List Report) : Prop := ∀ u ∈ us, column u = .absent

/-- The last block with an input count gives the latest input and cache creation counts, and with
the cache reads no later block adds to; and the last block with an output count gives the latest.
Where no block has an input count, none has cached tokens. -/
structure Kept (us : List Report) : Prop where
  input : InputKept us ∨ (Unkeyed Report.input us ∧ final Report.creations us = 0 ∧
    final Report.reads us = 0)
  output : OutputKept us ∨ Unkeyed Report.output us

theorem usage_ext {u v : CanonicalUsage} (hinput : u.inputTokens = v.inputTokens)
    (houtput : u.outputTokens = v.outputTokens)
    (hcached : u.providerCachedInputTokens = v.providerCachedInputTokens) : u = v := by
  obtain ⟨_, _, _⟩ := u
  obtain ⟨_, _, _⟩ := v
  rw [CanonicalUsage.mk.injEq]
  exact ⟨hinput, houtput, hcached⟩

theorem final_unkeyed {column : Report → Count} {us : List Report} (h : Unkeyed column us) :
    final (fun u => (column u).reported) us = 0 := by
  have hnone : us.filterMap (fun u => (column u).reported) = [] := by
    refine List.filterMap_eq_nil_iff.2 fun u hu => ?_
    rw [h u hu]
    rfl
  rw [final, hnone]
  rfl

theorem total_unkeyed {field : CanonicalUsage → ℤ} {column : Report → Count}
    (hstep : ∀ (u : Report) p, column u = .absent → field (u.apply p) = field p)
    {us : List Report} (h : Unkeyed column us) : field (total us) = field .zero :=
  @total_post field column hstep [] us h

theorem keyed_of_not {column : Report → Count} {us : List Report} (h : ¬ Unkeyed column us) :
    ∃ u ∈ us, column u ≠ .absent := by
  simpa [Unkeyed] using h

theorem not_lastKeyed {column : Report → Count} {us pre post : List Report} {u : Report}
    (h : Unkeyed column us) : ¬ LastKeyed column us pre u post := fun hl =>
  hl.2.1 (h u (by rw [hl.1]; simp))

theorem input_exact_iff {us : List Report} (h : Grows us) :
    (total us).inputTokens = (latest us).inputTokens ↔
      InputKept us ∨ (Unkeyed Report.input us ∧ final Report.creations us = 0 ∧
        final Report.reads us = 0) := by
  by_cases hkey : Unkeyed Report.input us
  · have hzero : (total us).inputTokens = 0 :=
      total_unkeyed (fun u p hu => if_pos hu) hkey
    have hinput : final Report.inputs us = 0 := final_unkeyed hkey
    have hnot : ¬ InputKept us := fun ⟨_, _, _, hl, _⟩ => not_lastKeyed hkey hl
    simp only [hzero, latest, hinput, hnot, hkey, false_or, true_and]
    omega
  · simp only [hkey, false_and, or_false]
    exact input_kept_iff (keyed_of_not hkey) h.input h.cacheCreation h.cacheRead

theorem output_exact_iff {us : List Report} :
    (total us).outputTokens = (latest us).outputTokens ↔
      OutputKept us ∨ Unkeyed Report.output us := by
  by_cases hkey : Unkeyed Report.output us
  · have hzero : (total us).outputTokens = 0 :=
      total_unkeyed (fun u p hu => if_pos hu) hkey
    have houtput : final Report.outputs us = 0 := final_unkeyed hkey
    simp [hzero, latest, houtput, hkey]
  · simp only [hkey, or_false]
    exact output_kept_iff (keyed_of_not hkey)

/-- The usage of a stream is exact exactly when its last blocks keep the latest counts. -/
theorem usage_exact_iff {rt : Runtime} {chunks : List Bytes} {result : CanonicalCompletion}
    {us : List Report} (h : assembled (adapter rt) chunks = .ok result)
    (hus : List.Forall₂ Report.Renders us ((events rt chunks).filterMap usageBlock))
    (hgrows : Grows us) : Exact us result.usage ↔ Kept us := by
  rw [assembled_usage h hus]
  have hread : (total us).providerCachedInputTokens = (latest us).providerCachedInputTokens :=
    total_read hgrows.cacheRead
  constructor
  · rintro ⟨husage, -⟩
    exact ⟨(input_exact_iff hgrows).1 (by rw [husage]), output_exact_iff.1 (by rw [husage])⟩
  · rintro ⟨hinput, houtput⟩
    have husage : total us = latest us :=
      usage_ext ((input_exact_iff hgrows).2 hinput) (output_exact_iff.2 houtput) hread
    refine ⟨husage, ?_⟩
    rw [husage]
    simp only [latest]
    omega

/-! ## A stream that loses its cache creation -/

def startReport : Report := ⟨.tokens 10, .tokens 5, .absent, .tokens 1⟩

def outputReport : Report := ⟨.absent, .absent, .null, .tokens 20⟩

def repeatedReport : Report := ⟨.tokens 10, .absent, .absent, .tokens 20⟩

def startEvent : Json := .obj [("type", .str "message_start"), ("message", .obj
  [("model", .str "claude"), ("usage", .obj [("input_tokens", .int 10),
    ("cache_creation_input_tokens", .int 5), ("output_tokens", .int 1)])])]

def outputEvent : Json := .obj [("type", .str "message_delta"),
  ("usage", .obj [("output_tokens", .int 20), ("cache_read_input_tokens", .null)])]

def repeatedEvent : Json := .obj [("type", .str "message_delta"),
  ("usage", .obj [("input_tokens", .int 10), ("output_tokens", .int 20)])]

/-- Reads the start event, and one delta by the name `o` or `r`. -/
def eventRuntime : Runtime :=
  { Runtime.blank with loads := fun t =>
      if t = ['s'] then some startEvent else if t = ['o'] then some outputEvent
      else if t = ['r'] then some repeatedEvent else none }

def chunkOf (text : String) : Bytes := text.toList.map fun c => UInt8.ofNat c.toNat

def keptChunk : Bytes := chunkOf "data: s\n\ndata: o\n\n"

def lostChunk : Bytes := chunkOf "data: s\n\ndata: r\n\n"

theorem kept_reports : List.Forall₂ Report.Renders [startReport, outputReport]
    ((events eventRuntime [keptChunk]).filterMap usageBlock) := by
  have hevents : events eventRuntime [keptChunk] = [startEvent, outputEvent] := by decide +kernel
  rw [hevents]
  exact .cons (.inl ⟨_, rfl, by decide⟩) (.cons (.inl ⟨_, rfl, by decide⟩) .nil)

theorem lost_reports : List.Forall₂ Report.Renders [startReport, repeatedReport]
    ((events eventRuntime [lostChunk]).filterMap usageBlock) := by
  have hevents : events eventRuntime [lostChunk] = [startEvent, repeatedEvent] := by decide +kernel
  rw [hevents]
  exact .cons (.inl ⟨_, rfl, by decide⟩) (.cons (.inl ⟨_, rfl, by decide⟩) .nil)

theorem kept_exact : ∃ result, assembled (adapter eventRuntime) [keptChunk] = .ok result ∧
    Exact [startReport, outputReport] result.usage := by
  refine ⟨_, rfl, (usage_exact_iff rfl kept_reports ⟨by decide, by decide, by decide, by decide⟩).2
    ⟨.inl ⟨[], startReport, [outputReport], ⟨rfl, by decide, by decide⟩, by decide⟩,
      .inl ⟨[startReport], outputReport, [], ⟨rfl, by decide, by decide⟩, by decide⟩⟩⟩

/-- The delta repeats the input tokens without the five of the cache creation: 10 are billed, not
15. -/
theorem creation_lost : ∃ result, assembled (adapter eventRuntime) [lostChunk] = .ok result ∧
    List.Forall₂ Report.Renders [startReport, repeatedReport]
      ((events eventRuntime [lostChunk]).filterMap usageBlock) ∧
    Grows [startReport, repeatedReport] ∧ ¬ Exact [startReport, repeatedReport] result.usage := by
  refine ⟨_, rfl, lost_reports, ⟨by decide, by decide, by decide, by decide⟩, fun h => ?_⟩
  have husage := h.eq
  rw [assembled_usage rfl lost_reports] at husage
  exact absurd husage (by decide)

end Varsten.Proxy.AnthropicUsage
