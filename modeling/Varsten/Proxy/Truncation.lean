import Varsten.Proxy.Capture
import Varsten.Proxy.StreamReports

/-!
# Truncated streams

A stream that ends without its terminal event, or that carries a provider error
event, should leave no cache row and no completion that reports `stop`. The
translators fill in `stop` and the capture asks for content only, so this holds
just where the events report another reason and the row is not stored anyway.
-/

namespace Varsten.Proxy.Truncation

open Python (Json Py PyError Runtime)
open Python.Utf8 (Bytes Text)
open Engine.RequestFacts (field)
open Providers (CanonicalCompletion CanonicalUsage completionPayload)
open Cache (CacheEntry)
open Capture (CaptureWorld capture qualityOk wantsJson)
open Forward OpenAIDialect StreamReports

/-! ## Events -/

def events (rt : Runtime) : Provider → List Bytes → List Json
  | .openai => OpenAI.events rt
  | .anthropic => Anthropic.events rt
  | .gemini => Gemini.events rt

def see : Provider → Seen → Json → Seen
  | .openai => OpenAI.see
  | .anthropic => Anthropic.see
  | .gemini => Gemini.see

/-- What the events report: the last finish reason and whether an answer came. -/
def seen (p : Provider) (evs : List Json) : Seen := evs.foldl (see p) .start

theorem assembled_reports {rt : Runtime} {p : Provider} {chunks : List Bytes}
    {result : CanonicalCompletion} (h : assembled (p.adapter rt) chunks = .ok result) :
    Reports result (seen p (events rt p chunks)) := by
  cases p with
  | openai => exact OpenAI.assembled_reports h
  | anthropic => exact Anthropic.assembled_reports h
  | gemini => exact Gemini.assembled_reports h

def Terminal (evs : List Json) : Provider → Prop
  | .openai => ∃ ev ∈ evs, ∃ choice ∈ OpenAI.choices ev, (choice.val "finish_reason").truthy = true
  | .anthropic =>
    (∃ ev ∈ evs, ev.val "type" = .str "message_delta" ∧
      ((Anthropic.delta ev).val "stop_reason").truthy = true) ∧
    ∃ ev ∈ evs, ev.val "type" = .str "message_stop"
  | .gemini => ∃ ev ∈ evs, ∃ candidate ∈ Gemini.candidates ev,
      (candidate.val "finishReason").truthy = true

def IsErrorEvent (ev : Json) : Provider → Prop
  | .anthropic => ev.val "type" = .str "error"
  | .openai | .gemini => (ev.val "error").truthy = true

def Truncated (p : Provider) (evs : List Json) : Prop :=
  ¬ Terminal evs p ∨ ∃ ev ∈ evs, IsErrorEvent ev p

/-! ## Without a terminal event the reported reason is the default -/

theorem foldl_finish {α : Type} {f : Seen → α → Seen} {xs : List α}
    (h : ∀ s, ∀ x ∈ xs, (f s x).finish = s.finish) (s : Seen) :
    (xs.foldl f s).finish = s.finish := by
  induction xs generalizing s with
  | nil => rfl
  | cons x xs ih =>
    rw [List.foldl_cons, ih fun s y hy => h s y (List.mem_cons_of_mem _ hy)]
    exact h s x List.mem_cons_self

theorem openai_unfinished {evs : List Json} (h : ¬ Terminal evs .openai) :
    (seen .openai evs).finish = .str "stop" := by
  apply foldl_finish
  intro s ev hev
  apply foldl_finish
  intro s choice hc
  have hf : (choice.val "finish_reason").truthy = false := by
    rw [← Bool.not_eq_true]
    exact fun ht => h ⟨ev, hev, choice, hc, ht⟩
  simp [OpenAI.seeChoice, Json.orElse, hf]

theorem gemini_unfinished {evs : List Json} (h : ¬ Terminal evs .gemini) :
    (seen .gemini evs).finish = .str "stop" := by
  apply foldl_finish
  intro s ev hev
  apply foldl_finish
  intro s candidate hc
  have hf : ¬ (candidate.val "finishReason").truthy = true :=
    fun ht => h ⟨ev, hev, candidate, hc, ht⟩
  unfold Gemini.seeCandidate
  split_ifs
  · rw [Gemini.seeFinish, if_neg hf]
    apply foldl_finish
    intro s part _
    unfold Gemini.seePart
    split_ifs <;> rfl
  · rfl

/-! ## What is stored -/

def unhashable : Json → Bool
  | .arr _ | .obj _ => true
  | _ => false

/-- The health signal of an arm-tagged request raises, so nothing is written. -/
def SignalRaises (req : Request) (seen : Seen) : Prop :=
  req.arm.any (· ≠ "") = true ∧
    ((∃ e, wantsJson req.body = .error e) ∨
      seen.answered = true ∧ unhashable seen.finish = true)

def Stored (w : CaptureWorld) (req : Request) (rows : List CacheEntry) (seen : Seen) : Prop :=
  seen.answered = true ∧ ¬ SignalRaises req seen ∧ w.ledgerWritten = true ∧
    req.storeCache = true ∧ w.cacheEnabled = true ∧ w.commits = true ∧
    ∀ e ∈ rows, e.cacheKey ≠ req.cacheKey

theorem get_obj (fields : List (String × Json)) (k : String) :
    (Json.obj fields).get k = .ok ((Json.obj fields).val k) := rfl

theorem isDegradedFinish_ok {fields : List (String × Json)}
    (h : unhashable ((Json.obj fields).val "finish_reason") = false) :
    ∃ b, Capture.isDegradedFinish (.obj fields) = .ok b := by
  rw [Capture.isDegradedFinish, get_obj, Py.bind_ok]
  cases hf : (Json.obj fields).val "finish_reason" with
  | arr _ | obj _ =>
    rw [hf] at h
    cases h
  | _ => exact ⟨_, rfl⟩

theorem isBlankContent_ok {content : Json} (h : content = .null ∨ ∃ s, content = .str s) :
    ∃ b, Capture.isBlankContent content = .ok b := by
  unfold Capture.isBlankContent
  rcases h with rfl | ⟨s, rfl⟩
  · exact ⟨_, rfl⟩
  · split_ifs
    · exact ⟨_, rfl⟩
    · exact ⟨_, rfl⟩

theorem contentOf_eq {message : List (String × Json)} {content : Json}
    (hm : (Json.obj message).val "content" = content)
    (h : content = .null ∨ ∃ s, content = .str s) :
    Capture.contentOf (.obj message) = .ok content := by
  rw [Capture.contentOf, get_obj, Py.bind_ok, hm]
  rcases h with rfl | ⟨s, rfl⟩ <;> rfl

/-- On a choice whose message has a text or no content, only an unhashable reason raises. -/
theorem choiceQualityOk_ok {loads : Text → Option Json} {jsonExpected : Bool}
    {fields message : List (String × Json)} {content : Json}
    (hm : (Json.obj fields).val "message" = .obj message)
    (hc : (Json.obj message).val "content" = content)
    (ht : content = .null ∨ ∃ s, content = .str s)
    (hf : unhashable ((Json.obj fields).val "finish_reason") = false) :
    ∃ q, Capture.choiceQualityOk loads (.obj fields) jsonExpected = .ok q := by
  obtain ⟨degraded, hd⟩ := isDegradedFinish_ok hf
  obtain ⟨blank, hb⟩ := isBlankContent_ok ht
  simp only [Capture.choiceQualityOk, hd, Py.bind_ok, get_obj, hm, Json.obj_orElse_empty,
    contentOf_eq hc ht, hb]
  split_ifs
  · exact ⟨_, rfl⟩
  · exact ⟨_, rfl⟩
  · exact ⟨_, rfl⟩
  · exact ⟨_, rfl⟩
  · rcases ht with rfl | ⟨s, rfl⟩ <;> exact ⟨_, rfl⟩

theorem choiceQualityOk_error {loads : Text → Option Json} {jsonExpected : Bool}
    {fields : List (String × Json)}
    (hf : unhashable ((Json.obj fields).val "finish_reason") = true) :
    Capture.choiceQualityOk loads (.obj fields) jsonExpected = .error .typeError := by
  have hd : Capture.isDegradedFinish (.obj fields) = .error .typeError := by
    rw [Capture.isDegradedFinish, get_obj, Py.bind_ok]
    cases h : (Json.obj fields).val "finish_reason" with
    | arr _ | obj _ => rfl
    | _ =>
      rw [h] at hf
      cases hf
  rw [Capture.choiceQualityOk, hd]
  rfl

theorem payload_choice {result : CanonicalCompletion} {seen : Seen} (h : Reports result seen) :
    ∃ fields message content, Capture.firstChoice (completionPayload result) = some (.obj fields) ∧
      (Json.obj fields).val "message" = .obj message ∧
      (Json.obj message).val "content" = content ∧ (content = .null ∨ ∃ s, content = .str s) ∧
      (Json.obj fields).val "finish_reason" = seen.finish := by
  obtain ⟨s, hs⟩ := h.content
  rw [completionPayload, h.raw]
  refine ⟨_, _, result.content.orElse .null, rfl, rfl, ?_, ?_, h.finish⟩
  · split_ifs <;> rfl
  · rw [hs, Json.orElse]
    split_ifs
    · exact Or.inr ⟨s, rfl⟩
    · exact Or.inl rfl

theorem payload_truthy {result : CanonicalCompletion} {seen : Seen} (h : Reports result seen) :
    (completionPayload result).truthy = true := by
  rw [completionPayload, h.raw]
  rfl

theorem streamPayload_eq {provider : String} {req : Request} {result : CanonicalCompletion}
    {seen : Seen} (h : Reports result seen) :
    (streamCaptureArgs provider req result).responsePayload =
      if seen.answered then completionPayload result else .obj [] := by
  rw [← h.answered]
  rfl

theorem responseQualityOk_iff {loads : Text → Option Json} {jsonExpected : Bool}
    {provider : String} {req : Request} {result : CanonicalCompletion} {seen : Seen}
    (h : Reports result seen) :
    (∃ q, Capture.responseQualityOk loads (streamCaptureArgs provider req result).responsePayload
      jsonExpected = .ok q) ↔ ¬ (seen.answered = true ∧ unhashable seen.finish = true) := by
  rw [streamPayload_eq h]
  cases ha : seen.answered with
  | false => exact iff_of_true ⟨false, rfl⟩ fun hc => Bool.false_ne_true hc.1
  | true =>
    obtain ⟨fields, message, content, hchoice, hm, hc, ht, hf⟩ := payload_choice h
    simp only [if_true, Capture.responseQualityOk, payload_truthy h, hchoice, Bool.not_true,
      Bool.false_eq_true, if_false, true_and, Bool.not_eq_true]
    cases hu : unhashable seen.finish with
    | false => exact iff_of_true (choiceQualityOk_ok hm hc ht (hf ▸ hu)) rfl
    | true =>
      rw [choiceQualityOk_error (hf ▸ hu)]
      exact iff_of_false (fun hq => by obtain ⟨_, hq⟩ := hq; cases hq) (fun hq => by cases hq)

theorem qualityOk_iff {loads : Text → Option Json} {provider : String} {req : Request}
    {result : CanonicalCompletion} {seen : Seen} (h : Reports result seen) :
    (∃ q, qualityOk loads (streamCaptureArgs provider req result) = .ok q) ↔
      ¬ SignalRaises req seen := by
  have harm : (streamCaptureArgs provider req result).arm = req.arm := rfl
  have hbody : (streamCaptureArgs provider req result).body = req.body := rfl
  unfold qualityOk SignalRaises
  rw [harm, hbody]
  by_cases ha : req.arm.any (· ≠ "") = true
  · rw [if_pos ha]
    cases hw : wantsJson req.body with
    | error e =>
      refine iff_of_false (fun hq => ?_) fun hn => hn ⟨ha, Or.inl ⟨e, rfl⟩⟩
      obtain ⟨_, hq⟩ := hq
      cases hq
    | ok jsonExpected =>
      have hr : (∃ q, Capture.responseQualityOk loads
          (streamCaptureArgs provider req result).responsePayload jsonExpected = .ok q) ↔
          ¬ (seen.answered = true ∧ unhashable seen.finish = true) := responseQualityOk_iff h
      rw [Py.bind_ok]
      constructor
      · intro hq hn
        obtain ⟨q, hq⟩ := hq
        obtain ⟨b, hb, -⟩ := Py.bind_eq_ok.1 hq
        rcases hn.2 with ⟨e, he⟩ | hn
        · cases he
        · exact hr.1 ⟨b, hb⟩ hn
      · intro hn
        obtain ⟨b, hb⟩ := hr.2 fun hu => hn ⟨ha, Or.inr hu⟩
        exact ⟨some b, by rw [hb]; rfl⟩
  · rw [if_neg ha]
    exact iff_of_true ⟨none, rfl⟩ fun hn => ha hn.1

/-- The capture of a stream leaves the rows alone exactly when nothing is stored. -/
theorem capture_stream_iff {w : CaptureWorld} {provider : String} {req : Request}
    {rows : List CacheEntry} {result : CanonicalCompletion} {seen : Seen}
    (h : Reports result seen) :
    capture w (streamCaptureArgs provider req result) rows = rows ↔ ¬ Stored w req rows seen := by
  have hpay : (streamCaptureArgs provider req result).responsePayload.truthy = seen.answered := by
    rw [streamPayload_eq h]
    cases seen.answered with
    | true => exact payload_truthy h
    | false => rfl
  rw [Capture.capture_eq_self_iff, qualityOk_iff h, hpay]
  unfold Stored
  rw [and_left_comm]
  rfl

/-! ## Runs -/

/-- The whole answer the run ends with, if any, is truncated. -/
def CutShort (rt : Runtime) (p : Provider) (retries : ℕ) (net : Network) : Prop :=
  ∀ chunks, delivered net retries 0 = some chunks → Truncated p (events rt p chunks)

/-- The run stores nothing and assembles no completion that stopped. -/
structure Sound (rt : Runtime) (p : Provider) (w : CaptureWorld) (rows : List CacheEntry)
    (retries : ℕ) (net : Network) (log : List Effect) : Prop where
  uncached : (captures log).foldl (fun rows args => capture w args rows) rows = rows
  incomplete : ∀ chunks, delivered net retries 0 = some chunks → ∀ result,
    assembled (p.adapter rt) chunks = .ok result → result.finishReason ≠ .str "stop"

/-- The translator raises on the events, or they report another reason than `stop` and the answer
is not stored. -/
def Spared (rt : Runtime) (p : Provider) (w : CaptureWorld) (req : Request)
    (rows : List CacheEntry) (chunks : List Bytes) : Prop :=
  (∃ e, assembled (p.adapter rt) chunks = .error e) ∨
    ((seen p (events rt p chunks)).finish ≠ .str "stop" ∧
      ¬ Stored w req rows (seen p (events rt p chunks)))

theorem sound_iff_spared {rt : Runtime} {p : Provider} {w : CaptureWorld} {req : Request}
    {rows : List CacheEntry} {retries : ℕ} {net : Network} {log : List Effect} {chunks : List Bytes}
    (h : streamThrough (p.adapter rt) retries req net = .ok log)
    (hd : delivered net retries 0 = some chunks) :
    Sound rt p w rows retries net log ↔ Spared rt p w req rows chunks := by
  have hcap := streamThrough_captures h
  rw [hd] at hcap
  dsimp only at hcap
  have hwhole : ∀ chunks', delivered net retries 0 = some chunks' → chunks' = chunks :=
    fun chunks' hc => Option.some.inj (hc.symm.trans hd)
  cases hr : assembled (p.adapter rt) chunks with
  | error e =>
    rw [hr] at hcap
    refine iff_of_true ⟨by rw [hcap]; rfl, fun chunks' hc result hres => ?_⟩ (Or.inl ⟨e, hr⟩)
    rw [hwhole chunks' hc, hr] at hres
    cases hres
  | ok result =>
    rw [hr] at hcap
    have hrep := assembled_reports hr
    have hstore : capture w (streamCaptureArgs (p.adapter rt).provider req result) rows = rows ↔
        ¬ Stored w req rows (seen p (events rt p chunks)) := capture_stream_iff hrep
    constructor
    · intro hs
      refine Or.inr ⟨?_, hstore.1 ?_⟩
      · rw [← hrep.finish]
        exact hs.incomplete chunks hd result hr
      · have huncached := hs.uncached
        rwa [hcap] at huncached
    · intro hs
      rcases hs with ⟨e, he⟩ | ⟨hf, hn⟩
      · rw [hr] at he
        cases he
      · refine ⟨?_, fun chunks' hc result' hres => ?_⟩
        · rw [hcap]
          exact hstore.2 hn
        · rw [hwhole chunks' hc, hr] at hres
          obtain rfl := Except.ok.inj hres
          rwa [hrep.finish]

theorem sound_of_broken {rt : Runtime} {p : Provider} {w : CaptureWorld} {req : Request}
    {rows : List CacheEntry} {retries : ℕ} {net : Network} {log : List Effect}
    (h : streamThrough (p.adapter rt) retries req net = .ok log)
    (hd : delivered net retries 0 = none) : Sound rt p w rows retries net log := by
  have hcap := streamThrough_captures h
  rw [hd] at hcap
  refine ⟨by rw [hcap]; rfl, fun chunks hc => ?_⟩
  rw [hd] at hc
  cases hc

/-- OpenAI and Gemini answers without a terminal event are kept out only where the translator
raises. -/
theorem unfinished_sound_iff {rt : Runtime} {p : Provider} {w : CaptureWorld} {req : Request}
    {rows : List CacheEntry} {retries : ℕ} {net : Network} {log : List Effect} {chunks : List Bytes}
    (h : streamThrough (p.adapter rt) retries req net = .ok log)
    (hd : delivered net retries 0 = some chunks) (hp : p ≠ .anthropic)
    (hu : ¬ Terminal (events rt p chunks) p) :
    Sound rt p w rows retries net log ↔ ∃ e, assembled (p.adapter rt) chunks = .error e := by
  have hf : (seen p (events rt p chunks)).finish = .str "stop" := by
    cases p with
    | openai => exact openai_unfinished hu
    | anthropic => exact absurd rfl hp
    | gemini => exact gemini_unfinished hu
  rw [sound_iff_spared h hd]
  constructor
  · intro hs
    rcases hs with he | hs
    · exact he
    · exact absurd hf hs.1
  · exact Or.inl

/-- Truncated answers are kept out of the cache and not reported complete exactly when those that
arrive whole are spared. -/
theorem truncated_sound_iff {rt : Runtime} {p : Provider} {w : CaptureWorld} {req : Request}
    {rows : List CacheEntry} {retries : ℕ} {net : Network} {log : List Effect}
    (h : streamThrough (p.adapter rt) retries req net = .ok log) :
    (CutShort rt p retries net → Sound rt p w rows retries net log) ↔
      ∀ chunks, delivered net retries 0 = some chunks → Truncated p (events rt p chunks) →
        Spared rt p w req rows chunks := by
  constructor
  · intro hsound chunks hd ht
    refine (sound_iff_spared h hd).1 (hsound fun chunks' hd' => ?_)
    obtain rfl := Option.some.inj (hd.symm.trans hd')
    exact ht
  · intro hspared hcut
    cases hd : delivered net retries 0 with
    | none => exact sound_of_broken h hd
    | some chunks => exact (sound_iff_spared h hd).2 (hspared chunks hd (hcut chunks hd))

/-! ## Half an answer is stored as a whole one -/

def halfText : Text := "\x7b\"choices\":[\x7b\"delta\":\x7b\"content\":\"Hel\"\x7d\x7d]\x7d".toList

def halfAnswer : Json := .obj [("choices", .arr [.obj [("delta", .obj [("content", .str "Hel")])]])]

def halfRuntime : Runtime :=
  { Runtime.blank with loads := fun t => if t = halfText then some halfAnswer else none }

def halfChunk : Bytes :=
  ("data: ".toList ++ halfText ++ "\n\n".toList).map fun c => UInt8.ofNat c.toNat

def halfNetwork : Network := fun _ => ⟨some ⟨200, [halfChunk], true⟩, true, true⟩

def streamRequest : Request where
  body := .obj [("model", .str "gpt-4o"), ("messages", .arr []), ("stream", .bool true)]
  model := "gpt-4o"
  cacheKey := "key"
  storeCache := true
  upstreamModel := none
  routedFrom := none
  routedFromProvider := none
  arm := none
  expFrom := none
  expTo := none
  idempotencyKey := none

def captureWorld : CaptureWorld := ⟨fun _ => none, true, true, true, 0, 3600⟩

theorem half_delivered : delivered halfNetwork 0 0 = some [halfChunk] := rfl

theorem half_events : events halfRuntime .openai [halfChunk] = [halfAnswer] := by decide

theorem half_truncated : Truncated .openai (events halfRuntime .openai [halfChunk]) := by
  rw [half_events]
  refine Or.inl fun ht => ?_
  obtain ⟨ev, hev, choice, hc, hf⟩ := ht
  obtain rfl := List.mem_singleton.1 hev
  obtain rfl := List.mem_singleton.1 hc
  cases hf

theorem truncated_sound_half :
    ∃ log, streamThrough (Provider.openai.adapter halfRuntime) 0 streamRequest halfNetwork =
        .ok log ∧
      ((CutShort halfRuntime .openai 0 halfNetwork →
          Sound halfRuntime .openai captureWorld [] 0 halfNetwork log) ↔
        ∀ chunks, delivered halfNetwork 0 0 = some chunks →
          Truncated .openai (events halfRuntime .openai chunks) →
          Spared halfRuntime .openai captureWorld streamRequest [] chunks) :=
  ⟨_, rfl, truncated_sound_iff rfl⟩

theorem half_assembled : assembled (Provider.openai.adapter halfRuntime) [halfChunk] =
    .ok ⟨.str "", .str "Hel", .null, .str "stop", .zero, none⟩ := by
  refine (OpenAI.assembled_eq halfRuntime [halfChunk]).trans ?_
  have hfold : [halfAnswer].foldlM Providers.OpenAI.assembleEvent .start =
      .ok ⟨[.str "Hel"], [], .obj [], .str "", .null⟩ := rfl
  have hsorted : Providers.OpenAI.sortedSlots [] = .ok [] := by
    simp [Providers.OpenAI.sortedSlots, Providers.OpenAI.comparable]
  rw [show OpenAI.events halfRuntime [halfChunk] = [halfAnswer] from half_events,
    Providers.OpenAI.assembleStream, hfold, Py.bind_ok, hsorted]
  rfl

/-- A stream of one content chunk and no `finish_reason` is cached as a finished answer. -/
theorem half_answer_cached :
    ∃ log, streamThrough (Provider.openai.adapter halfRuntime) 0 streamRequest halfNetwork =
        .ok log ∧
      CutShort halfRuntime .openai 0 halfNetwork ∧
      ¬ Sound halfRuntime .openai captureWorld [] 0 halfNetwork log ∧
      ((captures log).foldl (fun rows args => capture captureWorld args rows) []).map
        CacheEntry.cacheKey = ["key"] := by
  obtain ⟨log, hlog⟩ : ∃ log, streamThrough (Provider.openai.adapter halfRuntime) 0 streamRequest
    halfNetwork = .ok log := ⟨_, rfl⟩
  refine ⟨log, hlog, fun chunks hd => ?_, fun hs => ?_, ?_⟩
  · obtain rfl := Option.some.inj (half_delivered.symm.trans hd)
    exact half_truncated
  · exact hs.incomplete [halfChunk] half_delivered _ half_assembled rfl
  · rw [streamThrough_captures hlog, half_delivered]
    dsimp only
    rw [half_assembled]
    rfl

end Varsten.Proxy.Truncation
