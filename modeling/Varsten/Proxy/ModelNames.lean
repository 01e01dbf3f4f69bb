import Varsten.Proxy.StreamReports
import Varsten.Python.Returns

/-!
# Model names in answers

The name of the model that answered, read off a body or off the events of a stream. A completion
has the one, or the last one, that is not empty.
-/

namespace Varsten.Proxy.ModelNames

open Python (Json Py Gen Runtime)
open Python.Json
open Python.Utf8 (Bytes Text)
open Providers (CanonicalCompletion)
open SseDecoder (feed anthropicBlock geminiBlock)
open Forward
open OpenAIDialect (Provider)

variable {rt : Runtime}

/-! ## The name in an answer -/

/-- `name or model`. -/
def later (model name : Json) : Json := name.orElse model

def lastName (names : List Json) : Json := ((names.filter Json.truthy).getLast?).getD .null

def shortName : Json → Json
  | .str s => .str (if s.startsWith "models/" then (s.drop 7).toString else s)
  | _ => .null

def bodyName (raw : Json) : Provider → Json
  | .openai | .anthropic => raw.val "model"
  | .gemini => shortName (raw.val "modelVersion")

def eventName (ev : Json) : Provider → Json
  | .openai => ev.val "model"
  | .anthropic => if ev.val "type" = .str "message_start" then (ev.val "message").val "model"
    else .null
  | .gemini => shortName (ev.val "modelVersion")

def events (rt : Runtime) (chunks : List Bytes) : Provider → List Json
  | .openai => StreamReports.OpenAI.events rt chunks
  | .anthropic => StreamReports.Anthropic.events rt chunks
  | .gemini => StreamReports.Gemini.events rt chunks

/-- The model name in a 200 answer. -/
def answerName (rt : Runtime) (http : BodyReader) (p : Provider) (r : Response) (stream : Bool) :
    Json :=
  if stream then lastName ((events rt r.chunks p).map (eventName · p))
  else bodyName ((http.json r.chunks.flatten).getD .null) p

/-- What a 200 answer is parsed or assembled to. -/
def completion (rt : Runtime) (http : BodyReader) (p : Provider) (r : Response) (stream : Bool) :
    Py CanonicalCompletion :=
  if stream then assembled (p.adapter rt) r.chunks
  else r.json http >>= (p.adapter rt).parseCompletion

theorem orElse_assoc (a b c : Json) : (a.orElse b).orElse c = a.orElse (b.orElse c) := by
  unfold Json.orElse
  split_ifs <;> simp_all

theorem foldl_later (names : List Json) (model : Json) :
    names.foldl later model = (lastName names).orElse model := by
  induction names using List.reverseRecOn with
  | nil => rfl
  | append_singleton names name ih =>
    rw [List.foldl_append, ih]
    cases hname : name.truthy with
    | true => simp [later, Json.orElse, hname, lastName]
    | false => simp [later, Json.orElse, hname, lastName]

theorem foldl_orElse (names : List Json) (d : Json) :
    (names.foldl later (.str "")).orElse d = (lastName names).orElse d := by
  rw [foldl_later, orElse_assoc]
  rfl

namespace OpenAI

open Providers.OpenAI

theorem choices_model {choices : List Json} {a a' : Assembly}
    (h : choices.foldlM assembleChoice a = .ok a') : a'.model = a.model := by
  refine (Py.foldlM_simulates (f := assembleChoice) (g := fun model _ => model)
    (R := fun a model => a.model = model) ?_ rfl h).trans ?_
  · rintro a model choice a' rfl h
    obtain ⟨_, -, h⟩ := Py.bind_eq_ok.1 h
    obtain ⟨_, -, h⟩ := Py.bind_eq_ok.1 h
    obtain ⟨_, -, h⟩ := Py.bind_eq_ok.1 h
    obtain ⟨_, -, h⟩ := Py.bind_eq_ok.1 h
    obtain ⟨_, -, h⟩ := Py.bind_eq_ok.1 h
    obtain rfl := Except.ok.inj h
    rfl
  · exact List.foldl_fixed _

theorem event_model {a a' : Assembly} {ev : Json} (h : assembleEvent a ev = .ok a') :
    a'.model = later a.model (ev.val "model") := by
  obtain ⟨_, hmodel, h⟩ := Py.bind_eq_ok.1 h
  obtain ⟨_, -, h⟩ := Py.bind_eq_ok.1 h
  obtain ⟨_, -, h⟩ := Py.bind_eq_ok.1 h
  obtain ⟨_, -, h⟩ := Py.bind_eq_ok.1 h
  rw [choices_model h, get_eq_ok hmodel]
  rfl

theorem assembled_model {events : List Json} {result : CanonicalCompletion}
    (h : assembleStream events = .ok result) :
    result.model = (events.map (eventName · .openai)).foldl later (.str "") := by
  obtain ⟨a, ha, h⟩ := Py.bind_eq_ok.1 h
  obtain ⟨_, -, h⟩ := Py.bind_eq_ok.1 h
  obtain ⟨_, -, h⟩ := Py.bind_eq_ok.1 h
  obtain ⟨_, -, h⟩ := Py.bind_eq_ok.1 h
  obtain rfl := Except.ok.inj h
  rw [List.foldl_map]
  refine Py.foldlM_simulates (f := assembleEvent) (R := fun a model => a.model = model) ?_ rfl ha
  rintro a model ev a' rfl h
  exact event_model h

theorem parsed_model {raw : Json} {result : CanonicalCompletion}
    (h : parseCompletion raw = .ok result) : result.model = (raw.val "model").orElse (.str "") := by
  obtain ⟨_, -, h⟩ := Py.bind_eq_ok.1 h
  obtain ⟨_, -, h⟩ := Py.bind_eq_ok.1 h
  obtain ⟨_, -, h⟩ := Py.bind_eq_ok.1 h
  obtain ⟨_, -, h⟩ := Py.bind_eq_ok.1 h
  obtain ⟨_, -, h⟩ := Py.bind_eq_ok.1 h
  obtain ⟨_, -, h⟩ := Py.bind_eq_ok.1 h
  obtain ⟨_, -, h⟩ := Py.bind_eq_ok.1 h
  obtain ⟨_, -, h⟩ := Py.bind_eq_ok.1 h
  obtain ⟨_, hmodel, h⟩ := Py.bind_eq_ok.1 h
  obtain rfl := Except.ok.inj h
  rw [← get_eq_ok hmodel]

end OpenAI

namespace Anthropic

open Providers.Anthropic

variable {s s' : Translator} {ev : Json}

structure Holds (buffer : Text) (s : Translator) (model : Json) : Prop where
  buffer : s.buffer = buffer
  model : s.model = model

/-- What an event other than the first leaves as it was. -/
def Kept (s s' : Translator) : Prop := s'.buffer = s.buffer ∧ s'.model = s.model

theorem emitText_kept {text : Json} (h : (emitText rt s text).result = .ok s') : Kept s s' := by
  obtain rfl := Except.ok.inj h
  exact ⟨rfl, rfl⟩

theorem blockStart_kept (h : (handleContentBlockStart rt s ev).result = .ok s') : Kept s s' := by
  obtain ⟨⟨i, block⟩, -, h⟩ := Gen.bind_result_eq_ok.1 h
  cases block with
  | obj fields =>
    dsimp only at h
    split_ifs at h
    · exact emitText_kept h
    · obtain rfl := Except.ok.inj h
      exact ⟨rfl, rfl⟩
    · obtain rfl := Except.ok.inj h
      exact ⟨rfl, rfl⟩
  | _ => cases h

theorem blockDelta_kept (h : (handleContentBlockDelta rt s ev).result = .ok s') : Kept s s' := by
  obtain ⟨⟨i, delta⟩, -, h⟩ := Gen.bind_result_eq_ok.1 h
  cases delta with
  | obj fields =>
    dsimp only at h
    split_ifs at h
    · exact emitText_kept h
    · obtain rfl := Except.ok.inj h
      exact ⟨rfl, rfl⟩
    · obtain rfl := Except.ok.inj h
      exact ⟨rfl, rfl⟩
  | _ => cases h

theorem blockStop_kept (h : (handleContentBlockStop rt s ev).result = .ok s') : Kept s s' := by
  obtain ⟨i, -, h⟩ := Gen.bind_result_eq_ok.1 h
  cases hblock : blockAt i s.toolBlocks with
  | none =>
    rw [hblock] at h
    obtain rfl := Except.ok.inj h
    exact ⟨rfl, rfl⟩
  | some block =>
    rw [hblock] at h
    obtain rfl := Except.ok.inj h
    exact ⟨rfl, rfl⟩

theorem messageDelta_kept (h : handleMessageDelta s ev = .ok s') : Kept s s' := by
  obtain ⟨_, -, h⟩ := Py.bind_eq_ok.1 h
  obtain ⟨_, -, h⟩ := Py.bind_eq_ok.1 h
  obtain ⟨_, -, h⟩ := Py.bind_eq_ok.1 h
  obtain ⟨_, -, h⟩ := Py.bind_eq_ok.1 h
  obtain ⟨_, -, h⟩ := Py.bind_eq_ok.1 h
  obtain rfl := Except.ok.inj h
  exact ⟨rfl, rfl⟩

theorem messageStart_model (h : (handleMessageStart s ev).result = .ok s') :
    s'.buffer = s.buffer ∧ s'.model = later s.model ((ev.val "message").val "model") := by
  obtain ⟨_, hs, h⟩ := Gen.bind_result_eq_ok.1 h
  obtain ⟨_, hmessage, hs⟩ := Py.bind_eq_ok.1 hs
  obtain ⟨_, hmodel, hs⟩ := Py.bind_eq_ok.1 hs
  obtain ⟨_, -, hs⟩ := Py.bind_eq_ok.1 hs
  obtain ⟨_, -, hs⟩ := Py.bind_eq_ok.1 hs
  obtain rfl := Except.ok.inj hs
  obtain rfl := Except.ok.inj h
  refine ⟨rfl, ?_⟩
  dsimp only
  rw [get_eq_ok hmodel, val_orElse_empty, get_eq_ok hmessage]
  rfl

theorem event_model (h : (handleEvent rt s ev).result = .ok s') :
    s'.buffer = s.buffer ∧ s'.model = later s.model (eventName ev .anthropic) := by
  obtain ⟨type, htype, h⟩ := Gen.bind_result_eq_ok.1 h
  have htype := get_eq_ok htype
  have hother : type ≠ .str "message_start" → Kept s s' →
      s'.buffer = s.buffer ∧ s'.model = later s.model (eventName ev .anthropic) := by
    rintro hne ⟨hbuffer, hmodel⟩
    rw [eventName, ← htype, if_neg hne]
    exact ⟨hbuffer, hmodel⟩
  split at h
  · rw [eventName, ← htype, if_pos rfl]
    exact messageStart_model h
  · exact hother (by simp) (blockStart_kept h)
  · exact hother (by simp) (blockDelta_kept h)
  · exact hother (by simp) (blockStop_kept h)
  · exact hother (by simp) (messageDelta_kept h)
  · obtain rfl := Except.ok.inj h
    exact hother (by simp) ⟨rfl, rfl⟩
  · rename_i hne _ _ _ _ _
    obtain rfl := Except.ok.inj h
    exact hother hne ⟨rfl, rfl⟩

theorem push_holds {buffer : Text} {model : Json} {chunk : Bytes} (hs : Holds buffer s model)
    (h : (push rt s chunk).result = .ok s') : Holds (feed anthropicBlock buffer chunk).2 s'
      (((feed anthropicBlock buffer chunk).1.filterMap fun e => rt.loads e.2).foldl
        (fun model ev => later model (eventName ev .anthropic)) model) := by
  obtain ⟨rfl, rfl⟩ := hs
  have hfed : Holds (feed anthropicBlock s.buffer chunk).2
      { s with buffer := (feed anthropicBlock s.buffer chunk).2 } s.model := ⟨rfl, rfl⟩
  refine Gen.fold_simulates (f := handleEvent rt) ?_ hfed h
  rintro t model ev t' ⟨hbuffer, rfl⟩ ht
  obtain ⟨hkept, hmodel⟩ := event_model ht
  exact ⟨hkept.trans hbuffer, hmodel⟩

theorem assembled_model {chunks : List Bytes} {result : CanonicalCompletion}
    (h : assembled (adapter rt) chunks = .ok result) :
    result.model = ((events rt chunks .anthropic).map (eventName · .anthropic)).foldl later
      (.str "") := by
  obtain ⟨s, hs, hr⟩ := Py.bind_eq_ok.1 h
  obtain rfl := Except.ok.inj hr
  obtain ⟨_, hholds⟩ := StreamReports.feed_simulates (R := Holds) push_holds
    (⟨rfl, rfl⟩ : Holds [] .new (.str "")) hs
  rw [List.foldl_map]
  exact hholds.model

theorem parsed_model {raw : Json} {result : CanonicalCompletion}
    (h : parseCompletion rt raw = .ok result) :
    result.model = (raw.val "model").orElse (.str "") := by
  obtain ⟨_, -, h⟩ := Py.bind_eq_ok.1 h
  obtain ⟨_, -, h⟩ := Py.bind_eq_ok.1 h
  obtain ⟨_, hmodel, h⟩ := Py.bind_eq_ok.1 h
  obtain ⟨_, -, h⟩ := Py.bind_eq_ok.1 h
  obtain ⟨_, -, h⟩ := Py.bind_eq_ok.1 h
  obtain ⟨_, -, h⟩ := Py.bind_eq_ok.1 h
  obtain ⟨_, -, h⟩ := Py.bind_eq_ok.1 h
  obtain rfl := Except.ok.inj h
  rw [← get_eq_ok hmodel]

end Anthropic

namespace Gemini

open Providers.Gemini

variable {s s' : Translator}

structure Holds (buffer : Text) (s : Translator) (model : Json) : Prop where
  buffer : s.buffer = buffer
  model : .str s.model = model

/-- What the candidates of a payload leave as it was. -/
def Kept (s s' : Translator) : Prop := s'.buffer = s.buffer ∧ s'.model = s.model

theorem Kept.trans {s'' : Translator} (h : Kept s s') (h' : Kept s' s'') : Kept s s'' :=
  ⟨h'.1.trans h.1, h'.2.trans h.2⟩

theorem fold_kept {f : Translator → Json → Gen Providers.Out Translator} {xs : List Json}
    (hf : ∀ {t x t'}, (f t x).result = .ok t' → Kept t t')
    (h : (Gen.fold f s xs).result = .ok s') : Kept s s' := by
  have hrun := Gen.fold_simulates (f := f) (g := fun t _ => t) (R := fun t c => Kept c t)
    (fun ht hstep => Kept.trans ht (hf hstep)) (⟨rfl, rfl⟩ : Kept s s) h
  rwa [List.foldl_fixed] at hrun

theorem part_kept {part : Json} (h : (handlePart rt s part).result = .ok s') : Kept s s' := by
  cases part with
  | obj fields =>
    rw [handlePart] at h
    split_ifs at h
    · obtain rfl := Except.ok.inj h
      exact ⟨rfl, rfl⟩
    · obtain ⟨_, -, h⟩ := Gen.bind_result_eq_ok.1 h
      obtain rfl := Except.ok.inj h
      exact ⟨rfl, rfl⟩
    · obtain rfl := Except.ok.inj h
      exact ⟨rfl, rfl⟩
  | _ =>
    obtain rfl := Except.ok.inj h
    exact ⟨rfl, rfl⟩

theorem finish_kept {reason : Json} (h : (handleFinish s reason).result = .ok s') :
    Kept s s' := by
  rw [handleFinish] at h
  split_ifs at h
  · obtain ⟨_, -, h⟩ := Gen.bind_result_eq_ok.1 h
    obtain rfl := Except.ok.inj h
    exact ⟨rfl, rfl⟩
  · obtain rfl := Except.ok.inj h
    exact ⟨rfl, rfl⟩

theorem candidate_kept {candidate : Json} (h : (handleCandidate rt s candidate).result = .ok s') :
    Kept s s' := by
  rw [handleCandidate] at h
  split_ifs at h
  · obtain ⟨_, -, h⟩ := Gen.bind_result_eq_ok.1 h
    obtain ⟨_, hparts, h⟩ := Gen.bind_result_eq_ok.1 h
    obtain ⟨_, -, h⟩ := Gen.bind_result_eq_ok.1 h
    exact (fold_kept part_kept hparts).trans (finish_kept h)
  · obtain rfl := Except.ok.inj h
    exact ⟨rfl, rfl⟩

theorem modelName_eq {raw : Json} {name : String} (h : modelName raw = .ok name) (d : Json) :
    (Json.str name).orElse d = (shortName raw).orElse d := by
  rw [modelName, Json.orElse] at h
  split_ifs at h with htruthy
  · cases raw with
    | str s =>
      obtain rfl := Except.ok.inj h
      rfl
    | _ => cases h
  · obtain rfl := Except.ok.inj h
    cases raw with
    | str s =>
      obtain rfl : s = "" := by simpa [Json.truthy] using htruthy
      rfl
    | _ => rfl

theorem payload_model {payload : Json} (h : (handlePayload rt s payload).result = .ok s') :
    s'.buffer = s.buffer ∧ .str s'.model = later (.str s.model) (eventName payload .gemini) := by
  obtain ⟨⟨s₁, candidates⟩, hhead, h⟩ := Gen.bind_result_eq_ok.1 h
  obtain ⟨hbuffer, hmodel⟩ := fold_kept candidate_kept h
  obtain ⟨_, hversion, hhead⟩ := Py.bind_eq_ok.1 hhead
  obtain ⟨name, hname, hhead⟩ := Py.bind_eq_ok.1 hhead
  obtain ⟨_, -, hhead⟩ := Py.bind_eq_ok.1 hhead
  obtain ⟨_, -, hhead⟩ := Py.bind_eq_ok.1 hhead
  obtain ⟨_, -, hhead⟩ := Py.bind_eq_ok.1 hhead
  obtain ⟨_, -, hhead⟩ := Py.bind_eq_ok.1 hhead
  obtain ⟨rfl, rfl⟩ := Prod.mk.inj (Except.ok.inj hhead)
  refine ⟨hbuffer, ?_⟩
  rw [hmodel, later, eventName, ← get_eq_ok hversion, ← modelName_eq hname]
  by_cases hempty : name = ""
  · simp [hempty, Json.orElse, Json.truthy]
  · simp [hempty, Json.orElse, Json.truthy]

theorem push_holds {buffer : Text} {model : Json} {chunk : Bytes} (hs : Holds buffer s model)
    (h : (push rt s chunk).result = .ok s') : Holds (feed geminiBlock buffer chunk).2 s'
      (((feed geminiBlock buffer chunk).1.filterMap rt.loads).foldl
        (fun model ev => later model (eventName ev .gemini)) model) := by
  obtain ⟨rfl, rfl⟩ := hs
  have hfed : Holds (feed geminiBlock s.buffer chunk).2
      { s with buffer := (feed geminiBlock s.buffer chunk).2 } (.str s.model) := ⟨rfl, rfl⟩
  refine Gen.fold_simulates (f := handlePayload rt) ?_ hfed h
  rintro t model ev t' ⟨hbuffer, rfl⟩ ht
  obtain ⟨hkept, hmodel⟩ := payload_model ht
  exact ⟨hkept.trans hbuffer, hmodel⟩

theorem assembled_model {chunks : List Bytes} {result : CanonicalCompletion}
    (h : assembled (adapter rt) chunks = .ok result) :
    result.model = ((events rt chunks .gemini).map (eventName · .gemini)).foldl later
      (.str "") := by
  obtain ⟨s, hs, hr⟩ := Py.bind_eq_ok.1 h
  obtain rfl := Except.ok.inj hr
  obtain ⟨_, hholds⟩ := StreamReports.feed_simulates (R := Holds) push_holds
    (⟨rfl, rfl⟩ : Holds [] .new (.str "")) hs
  rw [List.foldl_map]
  exact hholds.model

theorem parsed_model {raw : Json} {result : CanonicalCompletion}
    (h : parseCompletion rt raw = .ok result) (d : Json) :
    result.model.orElse d = (shortName (raw.val "modelVersion")).orElse d := by
  obtain ⟨_, -, h⟩ := Py.bind_eq_ok.1 h
  obtain ⟨_, -, h⟩ := Py.bind_eq_ok.1 h
  obtain ⟨_, -, h⟩ := Py.bind_eq_ok.1 h
  obtain ⟨_, hversion, h⟩ := Py.bind_eq_ok.1 h
  obtain ⟨_, hname, h⟩ := Py.bind_eq_ok.1 h
  obtain ⟨_, -, h⟩ := Py.bind_eq_ok.1 h
  obtain ⟨_, -, h⟩ := Py.bind_eq_ok.1 h
  obtain rfl := Except.ok.inj h
  rw [← get_eq_ok hversion]
  exact modelName_eq hname d

end Gemini

theorem completion_model {http : BodyReader} {p : Provider} {r : Response} {stream : Bool}
    {result : CanonicalCompletion} (h : completion rt http p r stream = .ok result) (d : Json) :
    result.model.orElse d = (answerName rt http p r stream).orElse d := by
  cases stream with
  | true =>
    rw [completion, if_pos rfl] at h
    rw [answerName, if_pos rfl, ← foldl_orElse]
    refine congrArg (Json.orElse · d) ?_
    cases p with
    | openai =>
      have h : assembled (Providers.OpenAI.adapter rt.loads) r.chunks = .ok result := h
      rw [StreamReports.OpenAI.assembled_eq] at h
      exact OpenAI.assembled_model h
    | anthropic => exact Anthropic.assembled_model h
    | gemini => exact Gemini.assembled_model h
  | false =>
    rw [completion, if_neg Bool.false_ne_true, Response.json] at h
    rw [answerName, if_neg Bool.false_ne_true]
    cases hjson : http.json r.chunks.flatten with
    | none =>
      rw [hjson] at h
      cases h
    | some raw =>
      rw [hjson] at h
      have hempty : ∀ name : Json, (name.orElse (.str "")).orElse d = name.orElse d :=
        fun name => orElse_assoc name (.str "") d
      cases p with
      | openai => exact (congrArg (Json.orElse · d) (OpenAI.parsed_model h)).trans (hempty _)
      | anthropic => exact (congrArg (Json.orElse · d) (Anthropic.parsed_model h)).trans (hempty _)
      | gemini => exact Gemini.parsed_model h d

end Varsten.Proxy.ModelNames
