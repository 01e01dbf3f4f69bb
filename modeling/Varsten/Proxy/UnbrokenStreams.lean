import Varsten.Proxy.AssemblyShapes
import Varsten.Proxy.DeliveredStreams
import Varsten.Proxy.RendererRuns
import Varsten.Proxy.RetrySleeps
import Varsten.Proxy.StreamMetering

/-!
# Streams that arrive unbroken

A stream's generator, translator and renderers take whatever the upstream sends exactly where
every event they read has a shape that they handle.
-/

namespace Varsten.Proxy.UnbrokenStreams

open Python (Json Py Gen Runtime Returns returns_ok not_returns_error returns_bind_iff
  returns_bind_total)
open Python.Json
open Python.Utf8 (Bytes Text encode)
open SseDecoder (feed feedAll anthropicBlock geminiBlock openaiEvents)
open Providers (Adapter CanonicalCompletion Out)
open Forward
open OpenAIDialect (Provider)
open StreamMetering (last)
open ClientStreams (AllSent Sent geminiPushAll)
open DeliveredStreams (anthropicClient anthropicPushAll geminiClient helloChunk sampleText
  sampleRuntime sample_sent find_text)
open RendererShapes (payloadFits callsFit finishFits)
open RetrySleeps (Rests streamLoop_rests)

variable {σ : Type} {rt : Runtime}

/-! ## The generator -/

theorem streamPass_raised {adapter : Adapter σ} {more : Bool} {a : Attempt} {s : σ}
    {e : Python.PyError} (h : (streamPass adapter more a s).2 = .raised e) : ∃ chunks complete,
      a.response = some ⟨200, chunks, complete⟩ ∧ ¬Returns (pushAll adapter s chunks).result := by
  have hexcept : ∀ hasStreamed (s : σ), (streamExcept more a hasStreamed s).2 ≠ .raised e := by
    intro hasStreamed s
    rw [streamExcept]
    split_ifs <;> simp
  cases hr : a.response with
  | none => exact absurd (by rwa [streamPass, hr] at h) (hexcept false s)
  | some r =>
    obtain ⟨status, chunks, complete⟩ := r
    by_cases hstatus : status = 200
    · subst hstatus
      refine ⟨chunks, complete, rfl, fun ⟨s', hs'⟩ => ?_⟩
      cases complete <;> simp [streamPass, hr, hs', hexcept] at h
    · cases complete <;> cases hfail : isUpstreamFailure status <;> cases more <;>
        cases hbudget : a.inBudget <;>
          simp [streamPass, hr, hstatus, hfail, hbudget, hexcept] at h

/-- The generator raises where the answer it ends with does not get through the translator. -/
theorem streamLoop_raised {adapter : Adapter σ} {sent : Effect} {net : Network} {n i : ℕ} {s : σ}
    {e : Python.PyError} (h : (streamLoop adapter sent net n i s).2 = .raised e) :
    ∃ chunks complete, (last net n i).response = some ⟨200, chunks, complete⟩ ∧
      ¬Returns (pushAll adapter s chunks).result := by
  induction n generalizing i with
  | zero => exact streamPass_raised h
  | succ n ih =>
    rw [streamLoop] at h
    rw [last]
    rcases streamPass_ends adapter true (net i) s with ⟨hagain, hpass⟩ | ⟨hagain, hpass⟩
    · rw [Bool.true_and] at hagain
      rw [if_pos hagain]
      simp only [hpass] at h
      exact ih h
    · rw [Bool.true_and] at hagain
      rw [hagain, if_neg Bool.false_ne_true]
      split at h
      · rename_i s' hs
        exact absurd hs (hpass.not_retry s')
      · exact streamPass_raised h

/-! ## The translators -/

namespace Anthropic

open Providers.Anthropic
open StreamReports.Anthropic (events)
open StreamShapes.Anthropic (eventFits returns_event)

theorem push_buffer (s : Translator) (chunk : Bytes) : Gen.Ensures (push rt s chunk) fun s' =>
    s'.buffer = (feed anthropicBlock s.buffer chunk).2 := by
  have hagrees : StreamReports.Anthropic.Agrees s.buffer s
      ⟨s.finishReason, _, s.toolBlocks.map Prod.fst⟩ := ⟨rfl, rfl, rfl, rfl⟩
  exact fun _ hs' => (StreamReports.Anthropic.push_agrees hagrees hs').buffer

/-- The translator takes the chunks exactly where all of their events have its shapes. -/
theorem returns_pushes (chunks : List Bytes) :
    Returns (pushAll (adapter rt) .new chunks).result ↔
      (events rt chunks).all eventFits = true := by
  have hpush : ∀ (s : Translator) chunk, Returns (push rt s chunk).result ↔
      ((feed anthropicBlock s.buffer chunk).1.filterMap fun e => rt.loads e.2).all eventFits =
        true := by
    intro s chunk
    rw [List.all_eq_true]
    exact Gen.returns_fold (fun ev => eventFits ev = true) (fun _ _ _ => returns_event) _
  exact RendererRuns.feed_returns anthropicBlock (fun e => rt.loads e.2) Translator.buffer
    eventFits hpush push_buffer chunks .new

/-- What the translator yields is one item after the other, and it ends with these items. -/
theorem assembled_ends {chunks : List Bytes} {completion : CanonicalCompletion}
    (h : assembled (adapter rt) chunks = .ok completion) :
    ∃ items, TranslatedItems.Items 0 items (pushAll (adapter rt) .new chunks).out ∧
      ClientStreams.Ends completion items := by
  obtain ⟨s, hs, hfinish⟩ := Python.Py.bind_eq_ok.1 h
  obtain rfl := Except.ok.inj hfinish
  have hpush : ∀ {s s' : Translator} {chunk : Bytes} {outs : List Out},
      push rt s chunk = ⟨outs, .ok s'⟩ → TranslatedItems.Advances s outs s' := by
    intro s s' chunk outs h
    exact TranslatedItems.anthropic_events
      (s := { s with buffer := (feed anthropicBlock s.buffer chunk).2 }) h
  have hadvances : TranslatedItems.Advances .new (pushAll (adapter rt) .new chunks).out s :=
    Gen.fold_relates (f := push rt) (R := TranslatedItems.Advances) (fun _ => ⟨.refl _, id⟩)
      TranslatedItems.Advances.trans hpush (by rw [← hs]; rfl)
  obtain ⟨⟨items, hitems, htexts, hcalls⟩, hfinish⟩ := hadvances
  refine ⟨items, hitems, DeliveredStreams.translator_ends ?_ ?_ rfl rfl
    (hfinish (TranslatedItems.hashable_str "stop"))⟩
  · simpa [TranslatedItems.collected, Translator.new] using htexts
  · simpa [TranslatedItems.collected, Translator.new] using hcalls

end Anthropic

namespace Gemini

open Providers.Gemini
open StreamReports.Gemini (events)
open StreamShapes.Gemini (eventFits returns_event)

theorem push_buffer (s : Translator) (chunk : Bytes) : Gen.Ensures (push rt s chunk) fun s' =>
    s'.buffer = (feed geminiBlock s.buffer chunk).2 := by
  have hagrees : StreamReports.Gemini.Agrees s.buffer s ⟨.str s.finishReason, _, []⟩ :=
    ⟨rfl, rfl, rfl⟩
  exact fun _ hs' => (StreamReports.Gemini.push_agrees hagrees hs').buffer

theorem returns_pushes (chunks : List Bytes) :
    Returns (pushAll (adapter rt) .new chunks).result ↔
      (events rt chunks).all eventFits = true := by
  have hpush : ∀ (s : Translator) chunk, Returns (push rt s chunk).result ↔
      ((feed geminiBlock s.buffer chunk).1.filterMap rt.loads).all eventFits = true := by
    intro s chunk
    rw [List.all_eq_true]
    exact Gen.returns_fold (fun ev => eventFits ev = true) (fun _ _ _ => returns_event) _
  exact RendererRuns.feed_returns geminiBlock rt.loads Translator.buffer eventFits hpush
    push_buffer chunks .new

theorem assembled_ends {chunks : List Bytes} {completion : CanonicalCompletion}
    (h : assembled (adapter rt) chunks = .ok completion) :
    ∃ items, TranslatedItems.Items 0 items (pushAll (adapter rt) .new chunks).out ∧
      ClientStreams.Ends completion items := by
  obtain ⟨s, hs, hfinish⟩ := Python.Py.bind_eq_ok.1 h
  obtain rfl := Except.ok.inj hfinish
  have hpush : ∀ {s s' : Translator} {chunk : Bytes} {outs : List Out},
      push rt s chunk = ⟨outs, .ok s'⟩ → TranslatedItems.Translated (TranslatedItems.gathered s)
        outs (TranslatedItems.gathered s') := by
    intro s s' chunk outs h
    exact TranslatedItems.gemini_payloads
      (s := { s with buffer := (feed geminiBlock s.buffer chunk).2 }) h
  have htranslated : TranslatedItems.Translated (TranslatedItems.gathered .new)
      (pushAll (adapter rt) .new chunks).out (TranslatedItems.gathered s) :=
    Gen.fold_relates (f := push rt) (R := fun s outs s' => TranslatedItems.Translated
      (TranslatedItems.gathered s) outs (TranslatedItems.gathered s')) (fun _ => .refl _)
      TranslatedItems.Translated.trans hpush (by rw [← hs]; rfl)
  obtain ⟨items, hitems, htexts, hcalls⟩ := htranslated
  refine ⟨items, hitems, DeliveredStreams.translator_ends ?_ ?_ rfl rfl
    (TranslatedItems.hashable_str _)⟩
  · simpa [TranslatedItems.gathered, Translator.new] using htexts
  · simpa [TranslatedItems.gathered, Translator.new] using hcalls

end Gemini

theorem fold_map {ω α β γ : Type} (f : β → γ → Gen ω β) (g : α → γ) (as : List α) (b : β) :
    Gen.fold f b (as.map g) = Gen.fold (fun b a => f b (g a)) b as := by
  induction as generalizing b with
  | nil => rfl
  | cons a as ih =>
    have hrest : (fun b => Gen.fold f b (as.map g)) =
        fun b => Gen.fold (fun b a => f b (g a)) b as := funext ih
    rw [List.map_cons, Gen.fold, Gen.fold, hrest]

namespace OpenAI

open Providers.OpenAI
open StreamReports.OpenAI (events see)
open StreamShapes.OpenAI (assembles returns_assembleStream)

theorem pushes_eq (buffer : Bytes) (chunks : List Bytes) :
    pushAll (adapter rt.loads) buffer chunks =
      ⟨chunks.map .bytes, .ok (buffer ++ chunks.flatten)⟩ := by
  induction chunks generalizing buffer with
  | nil => simp [pushAll, Gen.fold, Gen.ok]
  | cons chunk chunks ih =>
    have hpush : (adapter rt.loads).push buffer chunk =
        ⟨[.bytes chunk], .ok (buffer ++ chunk)⟩ := rfl
    have hrest := ih (buffer ++ chunk)
    rw [pushAll] at hrest ⊢
    rw [Gen.fold, Gen.bind_ok hpush, hrest]
    simp

theorem returns_assembled (chunks : List Bytes) : Returns (assembled (adapter rt.loads) chunks) ↔
    assembles (events rt chunks) = true := by
  rw [StreamReports.OpenAI.assembled_eq, returns_assembleStream]

theorem assembled_calls {chunks : List Bytes} {result : CanonicalCompletion}
    (h : assembled (adapter rt.loads) chunks = .ok result) : callsFit result.toolCalls = true := by
  rw [StreamReports.OpenAI.assembled_eq] at h
  obtain ⟨a, -, h⟩ := Python.Py.bind_eq_ok.1 h
  obtain ⟨calls, hcalls, h⟩ := Python.Py.bind_eq_ok.1 h
  obtain ⟨text, -, h⟩ := Python.Py.bind_eq_ok.1 h
  obtain ⟨usage, -, h⟩ := Python.Py.bind_eq_ok.1 h
  obtain rfl := Except.ok.inj h
  rw [sortedSlots] at hcalls
  split_ifs at hcalls
  obtain rfl := Except.ok.inj hcalls
  dsimp only
  split_ifs
  · rfl
  · exact RendererShapes.slots_fit _

theorem anthropic_client {chunks : List Bytes} {completion : CanonicalCompletion}
    (hcalls : callsFit completion.toolCalls = true) (model : Json) :
    Returns (anthropicClient rt model (chunks.map .bytes) completion).result ↔
      (openaiEvents rt.loads chunks).all payloadFits = true ∧
        (completion.toolCalls.truthy = true ∨ finishFits completion = true) := by
  have hpushes : anthropicPushAll rt (.new model) (chunks.map .bytes) =
      Gen.fold (ClientRenderers.Anthropic.push rt) (.new model) chunks := fold_map _ _ _ _
  rw [anthropicClient, hpushes, Gen.returns_bind_iff fun s hs => ?_,
    RendererRuns.Anthropic.returns_pushes]
  have hopen : s.closed = false := RendererRuns.Anthropic.pushes_open rfl chunks s hs
  rw [RendererShapes.anthropic_finish hcalls, hopen, or_iff_right Bool.false_ne_true]

theorem gemini_client {chunks : List Bytes} {completion : CanonicalCompletion}
    (hcalls : callsFit completion.toolCalls = true) (model : Json) :
    Returns (geminiClient rt model (chunks.map .bytes) completion).result ↔
      (openaiEvents rt.loads chunks).all payloadFits = true ∧ finishFits completion = true := by
  have hpushes : geminiPushAll rt (.new model) (chunks.map .bytes) =
      Gen.fold (ClientRenderers.Gemini.push rt) (.new model) chunks := fold_map _ _ _ _
  rw [geminiClient, hpushes, Gen.returns_bind_iff fun s hs => ?_,
    RendererRuns.Gemini.returns_pushes]
  have hopen : s.closed = false := RendererRuns.Gemini.pushes_open rfl chunks s hs
  rw [RendererShapes.gemini_finish hcalls, hopen, or_iff_right Bool.false_ne_true]

def reported (rt : Runtime) (chunks : List Bytes) : Json :=
  ((events rt chunks).foldl see .start).finish

theorem finish_fits {chunks : List Bytes} {result : CanonicalCompletion}
    (h : assembled (adapter rt.loads) chunks = .ok result) :
    finishFits result = (reported rt chunks).orDefault isHashable := by
  rw [finishFits, (StreamReports.OpenAI.assembled_reports h).finish, reported]

end OpenAI

/-! ## The stream -/

/-- What is read of a stream has the shapes that its readers handle: the events the translator
reads and, where they are sent on untouched, the payloads the renderers read and the end. -/
def streamFits (rt : Runtime) (chunks : List Bytes) : Provider → Bool
  | .anthropic => (StreamReports.Anthropic.events rt chunks).all StreamShapes.Anthropic.eventFits
  | .gemini => (StreamReports.Gemini.events rt chunks).all StreamShapes.Gemini.eventFits
  | .openai => StreamShapes.OpenAI.assembles (StreamReports.OpenAI.events rt chunks) &&
      ((openaiEvents rt.loads chunks).all payloadFits &&
        (OpenAI.reported rt chunks).orDefault isHashable)

/-- What the translator yields for the chunks. -/
def yielded (rt : Runtime) (p : Provider) (chunks : List Bytes) : List Out :=
  (pushAll (p.adapter rt) (p.adapter rt).translator chunks).out

/-- Nothing raises on the way of a stream: the translator takes the chunks and ends, the renderers
of both native clients render what it yields and its end, and the generator does not raise, where
its sleeps return. -/
structure Unbroken (rt : Runtime) (p : Provider) (model : Json) (chunks : List Bytes) : Prop where
  taken : Returns (pushAll (p.adapter rt) (p.adapter rt).translator chunks).result
  finished : Returns (assembled (p.adapter rt) chunks)
  rendered : ∀ completion, assembled (p.adapter rt) chunks = .ok completion →
    Returns (anthropicClient rt model (yielded rt p chunks) completion).result ∧
      Returns (geminiClient rt model (yielded rt p chunks) completion).result
  ended : ∀ sent net wakes retries complete, Rests Attempt.again net wakes retries 0 →
    (last net retries 0).response = some ⟨200, chunks, complete⟩ → ∀ e,
      (RetrySleeps.streamLoop (p.adapter rt) sent net wakes retries 0
        (p.adapter rt).translator).2 ≠ some (.raised e)

theorem ended {p : Provider} {chunks : List Bytes}
    (h : Returns (pushAll (p.adapter rt) (p.adapter rt).translator chunks).result)
    {sent : Effect} {net : Network} {wakes : ℕ → Bool} {retries : ℕ} {complete : Bool}
    (hrests : Rests Attempt.again net wakes retries 0)
    (hlast : (last net retries 0).response = some ⟨200, chunks, complete⟩) (e : Python.PyError) :
    (RetrySleeps.streamLoop (p.adapter rt) sent net wakes retries 0
      (p.adapter rt).translator).2 ≠ some (.raised e) := by
  intro hslept
  rw [streamLoop_rests _ hrests] at hslept
  obtain ⟨chunks', complete', hlast', hraises⟩ := streamLoop_raised (Option.some.inj hslept)
  obtain ⟨-, rfl, -⟩ := Response.mk.inj (Option.some.inj (hlast.symm.trans hlast'))
  exact hraises h

theorem translated_iff {p : Provider} {chunks : List Bytes} {model : Json}
    (hfinish : ∀ s, Returns ((p.adapter rt).finish s))
    (hclients : ∀ completion, assembled (p.adapter rt) chunks = .ok completion →
      Returns (anthropicClient rt model (yielded rt p chunks) completion).result ∧
        Returns (geminiClient rt model (yielded rt p chunks) completion).result) :
    Unbroken rt p model chunks ↔
      Returns (pushAll (p.adapter rt) (p.adapter rt).translator chunks).result := by
  refine ⟨fun h => h.taken, fun h => ⟨h, ?_, hclients, fun _ _ _ _ _ => ended h⟩⟩
  exact (returns_bind_total hfinish).2 h

theorem clients_return {items : List TranslatedItems.Item} {outs : List Out}
    {completion : CanonicalCompletion} (hitems : TranslatedItems.Items 0 items outs)
    (hends : ClientStreams.Ends completion items) (hsent : AllSent rt outs) (model : Json) :
    Returns (anthropicClient rt model outs completion).result ∧
      Returns (geminiClient rt model outs completion).result := by
  obtain ⟨_, s, hanthropic, -⟩ := DeliveredStreams.anthropic_client hitems hends hsent model
  obtain ⟨_, t, hgemini, -⟩ := DeliveredStreams.gemini_client hitems hends hsent model
  rw [hanthropic, hgemini]
  exact ⟨returns_ok s, returns_ok t⟩

theorem openai_iff {chunks : List Bytes} {model : Json} :
    Unbroken rt .openai model chunks ↔ streamFits rt chunks .openai = true := by
  have hyielded : yielded rt .openai chunks = chunks.map .bytes :=
    congrArg Gen.out (OpenAI.pushes_eq [] chunks)
  have htaken : Returns (pushAll (Provider.openai.adapter rt)
      (Provider.openai.adapter rt).translator chunks).result := by
    exact ⟨_, congrArg Gen.result (OpenAI.pushes_eq [] chunks)⟩
  rw [streamFits, Bool.and_eq_true, Bool.and_eq_true, ← OpenAI.returns_assembled]
  constructor
  · intro h
    obtain ⟨completion, hcompletion⟩ := h.finished
    have hgemini := (h.rendered completion hcompletion).2
    rw [hyielded, OpenAI.gemini_client (OpenAI.assembled_calls hcompletion),
      OpenAI.finish_fits hcompletion] at hgemini
    exact ⟨⟨completion, hcompletion⟩, hgemini⟩
  · rintro ⟨hassembled, hrendered⟩
    refine ⟨htaken, hassembled, fun completion hcompletion => ?_, fun _ _ _ _ _ => ended htaken⟩
    rw [← OpenAI.finish_fits hcompletion] at hrendered
    rw [hyielded, OpenAI.anthropic_client (OpenAI.assembled_calls hcompletion),
      OpenAI.gemini_client (OpenAI.assembled_calls hcompletion)]
    exact ⟨hrendered.imp_right .inr, hrendered⟩

def textEvent : Json := .obj [("type", .str "content_block_delta"),
  ("delta", .obj [("type", .str "text_delta"), ("text", .str "hi")])]

def textPayloads : List Json := [textEvent, helloChunk]

def textRuntime : Runtime :=
  ⟨fun t => textPayloads.find? fun payload => sampleText payload = t,
    fun payload => String.ofList (sampleText payload), fun _ => "None", Python.none_ne⟩

def dataChunk (text : Text) : Bytes := encode (SseDecoder.dataField ++ text ++ ['\n', '\n'])

theorem text_sent : Sent textRuntime helloChunk := by
  have hsample : Sent sampleRuntime helloChunk := sample_sent List.mem_cons_self
  have hlengths : (textPayloads.map fun payload => (sampleText payload).length).Nodup := by
    decide +kernel
  refine ⟨?_, hsample.ascii, hsample.braces⟩
  have htext : (textRuntime.dumps helloChunk).toList = sampleText helloChunk :=
    String.toList_ofList
  rw [htext]
  exact find_text hlengths helloChunk (by simp [textPayloads])

def textBytes : Bytes := dataChunk (sampleText textEvent)

theorem text_read : ((feed anthropicBlock [] textBytes).1.filterMap fun e =>
    textRuntime.loads e.2) = [textEvent] := by decide +kernel

theorem text_yielded : yielded textRuntime .anthropic [textBytes] = [.chunk helloChunk] := by
  have hpush : pushAll (Provider.anthropic.adapter textRuntime)
      (Provider.anthropic.adapter textRuntime).translator [textBytes] =
      Providers.Anthropic.push textRuntime .new textBytes := Gen.fold_single _ _ _
  have hevents : Providers.Anthropic.push textRuntime .new textBytes =
      Providers.Anthropic.handleEvents textRuntime { Providers.Anthropic.Translator.new with
        buffer := (feed anthropicBlock [] textBytes).2 } [textEvent] := by
    rw [← text_read]
    rfl
  rw [yielded, hpush, hevents]
  rfl

def listRuntime : Runtime :=
  ⟨fun t => if t = "[]".toList then some (.arr []) else none, fun _ => "[]", fun _ => "None",
    Python.none_ne⟩

def listBytes : Bytes := dataChunk "[]".toList

def listNetwork : Network := fun _ => ⟨some ⟨200, [listBytes], true⟩, true, true⟩

theorem list_read : (feed geminiBlock [] listBytes).1.filterMap listRuntime.loads =
    [.arr []] := by decide +kernel

theorem list_refused : (pushAll (Provider.gemini.adapter listRuntime)
    (Provider.gemini.adapter listRuntime).translator [listBytes]).result =
      .error .attributeError := by
  have hpush : pushAll (Provider.gemini.adapter listRuntime)
      (Provider.gemini.adapter listRuntime).translator [listBytes] =
      Providers.Gemini.push listRuntime .new listBytes := Gen.fold_single _ _ _
  have hpayloads : Providers.Gemini.push listRuntime .new listBytes =
      Providers.Gemini.handlePayloads listRuntime { Providers.Gemini.Translator.new with
        buffer := (feed geminiBlock [] listBytes).2 } [.arr []] := by
    rw [← list_read]
    rfl
  rw [hpush, hpayloads]
  rfl

end Varsten.Proxy.UnbrokenStreams
