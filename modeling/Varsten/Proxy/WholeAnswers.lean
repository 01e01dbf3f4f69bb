import Varsten.Proxy.AnswerShapes
import Varsten.Proxy.ForwardLog
import Varsten.Proxy.OpenAIDialect
import Varsten.Proxy.RetrySleeps

/-!
# Whole answers

What the non-streaming paths do with a 200 answer. The client has it and its ledger row is
written exactly where its body is JSON of the shape that the parser, the health signal and the
client's renderer read, and where what is answered can be written.
-/

namespace Varsten.Proxy.WholeAnswers

open Python (Json Py Runtime Returns returns_ok not_returns_error returns_bind returns_bind_iff)
open Python.Json
open Python.Utf8 (Bytes Text encode)
open Providers (Adapter CanonicalCompletion completionPayload)
open Forward
open OpenAIDialect (Provider)
open ClientRequests (ClientDialect)
open ClientCompletions (completionToAnthropic completionToGemini)
open Capture (qualityOk)
open RendererShapes (callsFit)
open AnswerShapes
open RetrySleeps (Setup)

variable {σ : Type} {rt : Runtime}

/-! ## The paths -/

def renderCompletionForClient (rt : Runtime) (dialect : ClientDialect)
    (completion : CanonicalCompletion) : Py Json :=
  match dialect with
  | .openai => .ok (completionPayload completion)
  | .anthropic => completionToAnthropic rt completion
  | .geminiNative => completionToGemini rt completion

/-- What a path hands to `_capture`, which reads three fields of it before the ledger write. -/
structure Capturing where
  arm : Option String
  body : Json
  args : CanonicalCompletion → CaptureArgs
  reads : ∀ result, (args result).arm = arm ∧ (args result).body = body ∧
    (args result).responsePayload = completionPayload result

/-- A reply that is made once `_capture` is awaited. -/
def awaited (rt : Runtime) (capture : CaptureArgs) (reply : Py Json) : List Effect × Reply :=
  ([.recordSuccess, .capture capture], match qualityOk rt.loads capture >>= fun _ => reply with
    | .ok body => .json 200 body none
    | .error e => .raised e)

/-- `_native_cross_provider_once` after a 200 answer. -/
def nativeCrossProviderAnswered (rt : Runtime) (adapter : Adapter σ) (http : BodyReader)
    (r : Response) (dialect : ClientDialect) (c : Capturing) : List Effect × Reply :=
  match r.json http >>= adapter.parseCompletion with
  | .ok result => awaited rt (c.args result) (renderCompletionForClient rt dialect result)
  | .error e => ([.recordSuccess], .raised e)

/-- `_native_forward_once` after a 200 answer to an operation that is metered. -/
def nativeForwardAnswered (rt : Runtime) (adapter : Adapter σ) (http : BodyReader)
    (r : Response) (c : Capturing) : List Effect × Reply :=
  match r.json http with
  | .ok raw => match adapter.parseCompletion raw with
    | .ok result => awaited rt (c.args result) (.ok raw)
    | .error e => ([.recordSuccess], .raised e)
  | .error e => ([.recordSuccess], .raised e)

/-- The ways a client is answered that does not stream. -/
inductive Path where
  | forwardOnce (req : Request)
  | forwardFallback (req : Request) (fbModel : String)
  | nativeCrossProvider (dialect : ClientDialect) (c : Capturing)
  | nativeForward (c : Capturing)

/-- What a path does once the upstream has answered 200, up to its `JSONResponse`. -/
def Path.run (rt : Runtime) (http : BodyReader) (adapter : Adapter σ) (r : Response) :
    Path → List Effect × Reply
  | .forwardOnce req => answered adapter http r (onceArgs adapter req) none
  | .forwardFallback req fbModel =>
    answered adapter http r (fallbackArgs adapter req fbModel) (some fbModel)
  | .nativeCrossProvider dialect c => nativeCrossProviderAnswered rt adapter http r dialect c
  | .nativeForward c => nativeForwardAnswered rt adapter http r c

/-- The capture runs although the answer is not written: it is awaited before, or detached. -/
def Path.captures (t : Setup) : Path → Bool
  | .forwardOnce _ => t.captureDetached
  | _ => true

/-- A path with its `JSONResponse`. -/
def Path.respond (rt : Runtime) (t : Setup) (adapter : Adapter σ) (r : Response) (path : Path) :
    List Effect × Reply :=
  let run := path.run rt t.http adapter r
  match run.2 with
  | .json .. =>
    if t.writes r then run
    else (if path.captures t then run.1 else [.recordSuccess], .raised .valueError)
  | _ => run

def Path.arm : Path → Option String
  | .forwardOnce req => req.arm
  | .forwardFallback _ _ => none
  | .nativeCrossProvider _ c | .nativeForward c => c.arm

def Path.body : Path → Json
  | .forwardOnce req | .forwardFallback req _ => req.body
  | .nativeCrossProvider _ c | .nativeForward c => c.body

def Path.dialect : Path → ClientDialect
  | .nativeCrossProvider dialect _ => dialect
  | _ => .openai

/-- The client has the answer, and the ledger write is reached. -/
def Delivered (loads : Text → Option Json) (run : List Effect × Reply) : Prop :=
  (∃ body model, run.2 = .json 200 body model) ∧
    ∃ capture ∈ captures run.1, Returns (qualityOk loads capture)

theorem forwardOnce_answered {adapter : Adapter σ} {http : BodyReader} {cfg : Resilience}
    {req : Request} {net fbNet : Network} {wire : Json} {r : Response} {sent : List Effect}
    (hwire : adapter.prepareRequest req.body req.upstream false = .ok wire)
    (hposted : postLoop (send adapter req req.upstream wire) net cfg.retries 0 = (sent, some r))
    (h200 : r.status = 200) : forwardOnce adapter http cfg req net fbNet =
      .ok (sent ++ ((Path.forwardOnce req).run rt http adapter r).1,
        ((Path.forwardOnce req).run rt http adapter r).2) := by
  rw [forwardOnce, hwire, Python.Py.bind_ok, hposted]
  dsimp only
  rw [if_pos h200]
  rfl

theorem forwardFallback_answered {adapter : Adapter σ} {http : BodyReader} {retries : ℕ}
    {req : Request} {fbModel : String} {net : Network} {wire : Json} {r : Response}
    {sent : List Effect} (hwire : adapter.prepareRequest req.body fbModel false = .ok wire)
    (hposted : postLoop (send adapter req fbModel wire) net retries 0 = (sent, some r))
    (h200 : r.status = 200) : forwardFallback adapter http retries req fbModel net =
      (sent ++ ((Path.forwardFallback req fbModel).run rt http adapter r).1,
        some ((Path.forwardFallback req fbModel).run rt http adapter r).2) := by
  rw [forwardFallback, hwire]
  dsimp only
  rw [hposted]
  dsimp only
  rw [if_pos h200]
  rfl

theorem respond_answered (t : Setup) (adapter : Adapter σ) (r : Response) (req : Request)
    (fbModel : String) :
    (Path.forwardOnce req).respond rt t adapter r =
        t.answered adapter r (onceArgs adapter req) none t.captureDetached ∧
      (Path.forwardFallback req fbModel).respond rt t adapter r =
        t.answered adapter r (fallbackArgs adapter req fbModel) (some fbModel) true := ⟨rfl, rfl⟩

/-! ## When an answer is delivered -/

/-- A completion that the health signal and the renderer of the path's client read. -/
def Readable (rt : Runtime) (path : Path) (completion : CanonicalCompletion) : Prop :=
  signalFits path.arm path.body (completionPayload completion) = true ∧
    Returns (renderCompletionForClient rt path.dialect completion)

theorem not_delivered {log : List Effect} {e : Python.PyError} :
    ¬Delivered rt.loads (log, .raised e) := fun ⟨⟨_, _, h⟩, _⟩ => by cases h

theorem answered_delivered {adapter : Adapter σ} {http : BodyReader} {r : Response}
    {capture : CanonicalCompletion → CaptureArgs} {model : Option String} :
    Delivered rt.loads (answered adapter http r capture model) ↔ ∃ completion,
      (r.json http >>= adapter.parseCompletion) = .ok completion ∧
        Returns (qualityOk rt.loads (capture completion)) := by
  rw [answered]
  cases r.json http >>= adapter.parseCompletion with
  | error e => exact iff_of_false not_delivered fun ⟨_, h, _⟩ => by cases h
  | ok completion => simp [Delivered, captures, Effect.captured]

theorem awaited_delivered {capture : CaptureArgs} {reply : Py Json} :
    Delivered rt.loads (awaited rt capture reply) ↔
      Returns (qualityOk rt.loads capture) ∧ Returns reply := by
  have hcaptures : captures (awaited rt capture reply).1 = [capture] := rfl
  rw [Delivered, hcaptures, awaited]
  simp only [List.mem_singleton, exists_eq_left]
  rw [and_comm]
  refine and_congr_right fun ⟨quality, hquality⟩ => ?_
  rw [hquality, Python.Py.bind_ok]
  cases reply with
  | error e => exact iff_of_false (fun ⟨_, _, h⟩ => by cases h) (not_returns_error e)
  | ok body => exact iff_of_true ⟨body, none, rfl⟩ (returns_ok body)

theorem refused {e : Python.PyError} {P : CanonicalCompletion → Prop} :
    Delivered rt.loads ([.recordSuccess], .raised e) ↔
      ∃ completion, (.error e : Py CanonicalCompletion) = .ok completion ∧ P completion :=
  iff_of_false not_delivered fun ⟨_, h, _⟩ => by cases h

theorem only {completion : CanonicalCompletion} {P : CanonicalCompletion → Prop} :
    (∃ c, (.ok completion : Py CanonicalCompletion) = .ok c ∧ P c) ↔ P completion :=
  ⟨fun ⟨_, h, hp⟩ => Except.ok.inj h ▸ hp, fun hp => ⟨completion, rfl, hp⟩⟩

theorem Capturing.signal (c : Capturing) (completion : CanonicalCompletion) :
    Returns (qualityOk rt.loads (c.args completion)) ↔
      signalFits c.arm c.body (completionPayload completion) = true := by
  obtain ⟨harm, hbody, hpayload⟩ := c.reads completion
  rw [returns_signal, harm, hbody, hpayload]

theorem run_delivered {adapter : Adapter σ} {http : BodyReader} {r : Response} (path : Path) :
    Delivered rt.loads (path.run rt http adapter r) ↔ ∃ completion,
      (r.json http >>= adapter.parseCompletion) = .ok completion ∧
        Readable rt path completion := by
  cases path with
  | forwardOnce req =>
    refine answered_delivered.trans (exists_congr fun completion => and_congr_right fun _ => ?_)
    rw [returns_signal]
    exact (and_iff_left (returns_ok _)).symm
  | forwardFallback req fbModel =>
    refine answered_delivered.trans (exists_congr fun completion => and_congr_right fun _ => ?_)
    rw [returns_signal]
    exact (and_iff_left (returns_ok _)).symm
  | nativeCrossProvider dialect c =>
    rw [Path.run, nativeCrossProviderAnswered]
    cases r.json http >>= adapter.parseCompletion with
    | error e => exact refused
    | ok completion => rw [only, awaited_delivered, c.signal]; rfl
  | nativeForward c =>
    rw [Path.run, nativeForwardAnswered]
    cases r.json http with
    | error e => exact refused
    | ok raw =>
      rw [Python.Py.bind_ok]
      dsimp only
      cases adapter.parseCompletion raw with
      | error e => exact refused
      | ok completion =>
        rw [only, awaited_delivered, c.signal, and_iff_left (returns_ok raw)]
        exact (and_iff_left (returns_ok _)).symm

theorem respond_delivered {t : Setup} {adapter : Adapter σ} {r : Response} (path : Path) :
    Delivered rt.loads (path.respond rt t adapter r) ↔
      Delivered rt.loads (path.run rt t.http adapter r) ∧ t.writes r = true := by
  rw [Path.respond]
  generalize path.run rt t.http adapter r = run
  obtain ⟨log, reply⟩ := run
  cases reply with
  | json status body model =>
    dsimp only
    split_ifs with hwrites
    · exact (and_iff_left hwrites).symm
    all_goals exact iff_of_false not_delivered fun h => hwrites h.2
  | upstreamUnreachable =>
    exact iff_of_false (fun ⟨⟨_, _, h⟩, _⟩ => by cases h) fun ⟨⟨⟨_, _, h⟩, _⟩, _⟩ => by cases h
  | raised e => exact iff_of_false not_delivered fun h => not_delivered h.1

/-! ## The condition on the body -/

namespace OpenAI

def choiceOf (raw : Json) : Json :=
  match raw.val "choices" with
  | .arr (choice :: _) => choice
  | _ => .obj []

def toolCallsOf (raw : Json) : Json := ((choiceOf raw).val "message").val "tool_calls"

def finishOf (raw : Json) : Json := ((choiceOf raw).val "finish_reason").orElse (.str "stop")

/-- The tool calls and the finish reason of the answer are rendered for the client. -/
def renders (raw : Json) : ClientDialect → Bool
  | .openai => true
  | .anthropic => callsFit (toolCallsOf raw) &&
      ((toolCallsOf raw).truthy || (finishOf raw).orDefault isHashable)
  | .geminiNative => callsFit (toolCallsOf raw) && (finishOf raw).orDefault isHashable

theorem choice_eq {raw choice : Json}
    (h : Providers.OpenAI.firstChoice (raw.val "choices") = .ok choice)
    (hd : choice.isDict = true) : choice = choiceOf raw := by
  rw [Providers.OpenAI.firstChoice, orElse] at h
  rw [choiceOf]
  split_ifs at h with htruthy
  · cases hchoices : raw.val "choices" with
    | arr cs =>
      rw [hchoices] at h htruthy
      cases cs with
      | nil => cases htruthy
      | cons c cs => exact (Except.ok.inj h).symm
    | str s =>
      rw [hchoices] at h
      dsimp only at h
      cases hs : s.toList with
      | nil =>
        rw [hs] at h
        cases h
      | cons c cs =>
        rw [hs] at h
        obtain rfl := Except.ok.inj h
        cases hd
    | _ =>
      rw [hchoices] at h
      cases h
  · obtain rfl := Except.ok.inj h
    cases hchoices : raw.val "choices" with
    | arr cs =>
      cases cs with
      | nil => rfl
      | cons c cs => exact absurd (hchoices ▸ rfl) htruthy
    | _ => rfl

theorem parsed {raw : Json} {completion : CanonicalCompletion}
    (h : Providers.OpenAI.parseCompletion raw = .ok completion) : completion.raw = some raw ∧
      completion.toolCalls = toolCallsOf raw ∧ completion.finishReason = finishOf raw := by
  obtain ⟨choices, hchoices, h⟩ := Python.Py.bind_eq_ok.1 h
  obtain ⟨choice, hchoice, h⟩ := Python.Py.bind_eq_ok.1 h
  obtain ⟨message, hmessage, h⟩ := Python.Py.bind_eq_ok.1 h
  obtain ⟨content, -, h⟩ := Python.Py.bind_eq_ok.1 h
  obtain ⟨toolCalls, htoolCalls, h⟩ := Python.Py.bind_eq_ok.1 h
  obtain ⟨finish, hfinish, h⟩ := Python.Py.bind_eq_ok.1 h
  obtain ⟨_, -, h⟩ := Python.Py.bind_eq_ok.1 h
  obtain ⟨usage, -, h⟩ := Python.Py.bind_eq_ok.1 h
  obtain ⟨_, -, h⟩ := Python.Py.bind_eq_ok.1 h
  obtain rfl := Except.ok.inj h
  obtain rfl := get_eq_ok hchoices
  obtain rfl := choice_eq hchoice (returns_get.1 ⟨_, hmessage⟩)
  refine ⟨rfl, ?_, ?_⟩
  · dsimp only
    rw [get_eq_ok htoolCalls, val_orElse_empty, get_eq_ok hmessage, toolCallsOf]
  · dsimp only
    rw [get_eq_ok hfinish, finishOf]

end OpenAI

def requestFits (path : Path) : Bool := !path.arm.any (· ≠ "") || wantsFits path.body

/-- The body has the shape that its readers on the path read: the parser, the health signal of an
experiment arm and the renderer of the client. -/
def answerFits (path : Path) (raw : Json) : Provider → Bool
  | .openai => OpenAI.bodyFits raw &&
      (signalFits path.arm path.body raw && OpenAI.renders raw path.dialect)
  | .anthropic => Anthropic.bodyFits raw && requestFits path
  | .gemini => StreamShapes.Gemini.eventFits raw && requestFits path

theorem signal_iff {path : Path} {payload : Json} (h : payloadFits payload = true) :
    signalFits path.arm path.body payload = requestFits path := by
  rw [signalFits, requestFits, h, Bool.and_true]

theorem readable_of_rendered {path : Path} {completion : CanonicalCompletion}
    (h : Rendered completion) : Readable rt path completion ↔ requestFits path = true := by
  have hfinish := orDefault_of_fits h.finish
  rw [Readable, signal_iff h.payload_read]
  refine and_iff_left ?_
  cases path.dialect with
  | openai => exact returns_ok _
  | anthropic => exact returns_anthropic.2 ⟨h.calls, .inr hfinish⟩
  | geminiNative => exact returns_gemini.2 ⟨h.calls, hfinish⟩

theorem readable_of_parsed {path : Path} {raw : Json} {completion : CanonicalCompletion}
    (h : Providers.OpenAI.parseCompletion raw = .ok completion) : Readable rt path completion ↔
      (signalFits path.arm path.body raw && OpenAI.renders raw path.dialect) = true := by
  obtain ⟨hraw, hcalls, hfinish⟩ := OpenAI.parsed h
  have hpayload : completionPayload completion = raw := by rw [completionPayload, hraw]
  rw [Readable, hpayload, Bool.and_eq_true]
  refine and_congr_right fun _ => ?_
  cases path.dialect with
  | openai => exact iff_of_true (returns_ok _) rfl
  | anthropic =>
    rw [OpenAI.renders, Bool.and_eq_true, Bool.or_eq_true, ← hcalls, ← hfinish]
    exact returns_anthropic
  | geminiNative =>
    rw [OpenAI.renders, Bool.and_eq_true, ← hcalls, ← hfinish]
    exact returns_gemini

theorem parsed_and_read {parsed : Py CanonicalCompletion} {P : CanonicalCompletion → Prop}
    {fits reads : Bool} (hparsed : Returns parsed ↔ fits = true)
    (hread : ∀ completion, parsed = .ok completion → (P completion ↔ reads = true)) :
    (∃ completion, parsed = .ok completion ∧ P completion) ↔ (fits && reads) = true := by
  rw [Bool.and_eq_true, ← hparsed]
  constructor
  · rintro ⟨completion, hcompletion, hp⟩
    exact ⟨⟨completion, hcompletion⟩, (hread completion hcompletion).1 hp⟩
  · rintro ⟨⟨completion, hcompletion⟩, hreads⟩
    exact ⟨completion, hcompletion, (hread completion hcompletion).2 hreads⟩

def armRequest : Request :=
  ⟨.obj [], "gpt-4o", "k", false, none, none, none, some "treatment", none, none, none⟩

def numberAnswer : Json :=
  .obj [("choices", .arr [.obj [("message", .obj [("content", .int 5)])]])]

def numberBytes : Bytes :=
  encode "\x7b\"choices\":[\x7b\"message\":\x7b\"content\":5\x7d\x7d]\x7d".toList

def plainBytes : Bytes := encode "OK".toList

def answerReader : BodyReader :=
  ⟨fun body => if body = numberBytes then some numberAnswer else none, fun _ => "OK"⟩

def answerSetup : Setup where
  settings := Proxy.Resilience.defaultSettings
  fallbackEnabled := false
  configuredFallback := none
  captureDetached := false
  digit := Python.Floats.asciiDigit
  header _ := none
  encodes _ := true
  http := answerReader
  writes _ := true

def armRun (body : Bytes) : List Effect × Reply :=
  (Path.forwardOnce armRequest).respond .blank answerSetup (Provider.openai.adapter .blank)
    ⟨200, [body], true⟩

theorem plain_read : Response.json answerReader ⟨200, [plainBytes], true⟩ = .error .valueError := by
  decide +kernel

theorem number_read : Response.json answerReader ⟨200, [numberBytes], true⟩ = .ok numberAnswer := by
  simp [Response.json, answerReader]

end Varsten.Proxy.WholeAnswers
