import Varsten.Proxy.AnsweringModel
import Varsten.Proxy.UnbrokenStreams

/-!
# The native endpoints

A request in Anthropic's or Gemini's own dialect, from its gates to the ledger: it is sent to its
provider as it is, or translated and sent to another one where a routing policy treats it. The
routing decision is what the lookup returned, and its arm the one that is drawn; an exception that
nothing handles is an answer of its own. The decision rows, which name the policy and the arm, are
left out.
-/

namespace Varsten.Proxy.NativePassthrough

open Python (Json Py PyError Runtime Returns)
open Python.Utf8 (Bytes)
open Providers (Adapter CanonicalCompletion Out completionPayload)
open Forward
open OpenAIDialect (Provider RouteDecision getAdapter)
open ClientRequests (ClientDialect ParsedClientRequest crossProviderIneligibility
  requestToOpenaiShape)
open AnsweringModel (NativeRequest nativeArgs crossProviderArgs nativeCacheModel streamPayload)
open WholeAnswers (Capturing nativeCrossProviderAnswered nativeForwardAnswered)

inductive Endpoint where
  | anthropicNative
  | geminiNative
deriving DecidableEq

def Endpoint.provider : Endpoint → Provider
  | .anthropicNative => .anthropic
  | .geminiNative => .gemini

def Endpoint.dialect : Endpoint → ClientDialect
  | .anthropicNative => .anthropic
  | .geminiNative => .geminiNative

structure Incoming where
  endpoint : Endpoint
  parsed : ParsedClientRequest
  operation : String
  path : String
  query : String

/-- What the process and the upstream make of the request; `baseUrl` has no slash at its end. -/
structure World where
  rt : Runtime
  http : BodyReader
  baseUrl : Provider → String
  cacheKey : Json → String
  rateLimited : Bool
  bypass : Bool
  observeOnly : Bool
  overBudget : Bool
  breakerAllows : Bool
  hasKey : Provider → Bool
  route : Py (Option RouteDecision)
  response : Option Response

/-- What happens in a request: it is sent as it is or routed, a route is noted as ineligible, the
client is handed a rendered chunk, or what happens in every forward. -/
inductive Event where
  | forwarded (provider url : String) (body : Json)
  | routed (provider model : String) (wire : Json)
  | ineligible (reason : String)
  | rendered (payload : Json)
  | effect (e : Effect)

inductive Answer where
  | refused (status : ℕ) (code : String)
  | json (status : ℕ) (body : Json)
  | raw (status : ℕ) (body : Bytes)
  | stream
  | raised (e : PyError)

abbrev Run := List Event × Answer

def Run.after (events : List Event) (run : Run) : Run := (events ++ run.1, run.2)

/-! ## Forwarding -/

section Forwarding

variable (w : World) (inc : Incoming)

def provider : Provider := inc.endpoint.provider

def adapter (p : Provider) : Adapter p.State := p.adapter w.rt

def nativeRequestUrl : String :=
  let url := w.baseUrl (provider inc) ++ inc.path
  if inc.query = "" then url else url ++ "?" ++ inc.query

def nativeOperationIsMetered : Bool :=
  inc.operation ∈ ["messages", "generate_content", "stream_generate_content"]

def body : Json := .obj inc.parsed.body

def verdict (status : ℕ) : Event :=
  .effect (if isUpstreamFailure status then .recordFailure else .recordSuccess)

def responseFromUpstream (r : Response) : Answer :=
  match w.http.json r.chunks.flatten with
  | some payload => .json r.status payload
  | none => .raw r.status r.chunks.flatten

def unreachable : Answer := .refused 502 "upstream_unreachable"

/-- The `except` branch of both streams. -/
def brokenOff : List Event := [.effect .recordFailure, .effect .upstreamError]

def streamRefused (r : Response) : List Event :=
  verdict r.status ::
    if r.complete then [.effect (.yield (.bytes r.chunks.flatten))] else brokenOff

def ofReply (run : List Effect × Reply) : Run :=
  (run.1.map .effect, match run.2 with
    | .json status payload _ => .json status payload
    | .upstreamUnreachable => unreachable
    | .raised e => .raised e)

def nativeRequest (translated : Json) (arm : String) : NativeRequest where
  dialect := inc.parsed.dialect
  model := inc.parsed.model
  body := translated
  cacheKey := w.cacheKey translated
  requestedProvider := (provider inc).name
  arm

def nativeForwardOnce : Run :=
  let p := provider inc
  let args := nativeArgs p.name (nativeRequest w inc (body inc) "")
  match w.response.filter (·.complete) with
  | none => ([.effect .recordFailure], unreachable)
  | some r =>
    if r.status ≠ 200 then ([verdict r.status], responseFromUpstream w r)
    else if nativeOperationIsMetered inc then
      ofReply (nativeForwardAnswered w.rt (adapter w p) w.http r
        ⟨none, .null, fun result => args (completionPayload result) result,
          fun _ => ⟨rfl, rfl, rfl⟩⟩)
    else match r.json w.http with
      | .ok raw => ([.effect .recordSuccess], .json 200 raw)
      | .error e => ([.effect .recordSuccess], .raised e)

def relayed {σ : Type} (adapter : Adapter σ) : σ → List Bytes → List Bytes × Py σ
  | s, [] => ([], .ok s)
  | s, chunk :: chunks =>
    match (adapter.push s chunk).result with
    | .ok s =>
      let rest := relayed adapter s chunks
      (chunk :: rest.1, rest.2)
    | .error e => ([], .error e)

def yields (chunks : List Bytes) : List Event := chunks.map fun c => .effect (.yield (.bytes c))

def nativeStreamCapture (p : Provider) (s : p.State) : List Event :=
  match (adapter w p).finish s with
  | .error _ => []
  | .ok result => [.effect (.capture (nativeArgs p.name (nativeRequest w inc (body inc) "")
      (streamPayload result) result))]

/-- What follows the last chunk of a stream, where it breaks off and where it ends. -/
def streamEnd (r : Response) (finished : List Event) : List Event :=
  if r.complete then finished else brokenOff

def nativeStreamThrough : Run :=
  let p := provider inc
  match w.response with
  | none => (brokenOff, .stream)
  | some r =>
    if r.status ≠ 200 then (streamRefused r, .stream)
    else if nativeOperationIsMetered inc then
      let relay := relayed (adapter w p) (adapter w p).translator r.chunks
      match relay.2 with
      | .error e => (.effect .recordSuccess :: yields relay.1, .raised e)
      | .ok s => (.effect .recordSuccess :: (yields relay.1 ++
          streamEnd r (nativeStreamCapture w inc p s)), .stream)
    else (.effect .recordSuccess :: (yields r.chunks ++ streamEnd r []), .stream)

structure Treatment where
  candidate : Provider
  model : String
  body : Json

def treatedRequest (t : Treatment) : NativeRequest := nativeRequest w inc t.body "treatment"

def nativeCrossProviderOnce (t : Treatment) : Run :=
  let adapter := adapter w t.candidate
  match adapter.prepareRequest t.body t.model false with
  | .error e => ([], .raised e)
  | .ok wire =>
    .after [.routed t.candidate.name t.model wire] <|
      match w.response.filter (·.complete) with
      | none => ([.effect .recordFailure], unreachable)
      | some r =>
        if r.status ≠ 200 then ([verdict r.status], responseFromUpstream w r)
        else ofReply (nativeCrossProviderAnswered w.rt adapter w.http r inc.parsed.dialect
          ⟨some "treatment", t.body, fun result => crossProviderArgs t.candidate.name
            (treatedRequest w inc t) t.model (inc.parsed.model.getD "") (completionPayload result)
            result, fun _ => ⟨rfl, rfl, rfl⟩⟩)

/-- What the client's renderer makes of the translated chunks and, at the end, of the completion. -/
def rendering (outs : List Out) (finished : Option CanonicalCompletion) : List Event × Py Unit :=
  let model := Json.str (inc.parsed.model.getD "")
  match inc.parsed.dialect with
  | .openai => ([], .ok ())
  | .anthropic =>
    let run := match finished with
      | none => DeliveredStreams.anthropicPushAll w.rt (.new model) outs
      | some completion => DeliveredStreams.anthropicClient w.rt model outs completion
    (run.out.map fun e => .rendered e.payload, run.result.map fun _ => ())
  | .geminiNative =>
    let run := match finished with
      | none => ClientStreams.geminiPushAll w.rt (.new model) outs
      | some completion => DeliveredStreams.geminiClient w.rt model outs completion
    (run.out.map fun e => .rendered e.payload, run.result.map fun _ => ())

/-- The end of a translated stream: an exception is logged, and what was yielded stays. -/
def crossProviderEnd (t : Treatment) (outs : List Out) (s : t.candidate.State) : List Event :=
  match (adapter w t.candidate).finish s with
  | .error _ => (rendering w inc outs none).1
  | .ok result =>
    let client := rendering w inc outs (some result)
    match client.2 with
    | .error _ => client.1
    | .ok _ => client.1 ++ [.effect (.capture (crossProviderArgs t.candidate.name
        (treatedRequest w inc t) t.model (nativeCacheModel (treatedRequest w inc t) result)
        (streamPayload result) result))]

def crossProviderRelay (t : Treatment) (r : Response) : Run :=
  let adapter := adapter w t.candidate
  let pushed := pushAll adapter adapter.translator r.chunks
  let client := rendering w inc pushed.out none
  match client.2, pushed.result with
  | .error e, _ => (.effect .recordSuccess :: client.1, .raised e)
  | .ok _, .error e => (.effect .recordSuccess :: client.1, .raised e)
  | .ok _, .ok s =>
    if r.complete then (.effect .recordSuccess :: crossProviderEnd w inc t pushed.out s, .stream)
    else (.effect .recordSuccess :: (client.1 ++ brokenOff), .stream)

def nativeCrossProviderStream (t : Treatment) : Run :=
  match (adapter w t.candidate).prepareRequest t.body t.model true with
  | .error e => ([], .raised e)
  | .ok wire =>
    .after [.routed t.candidate.name t.model wire] <|
      match w.response with
      | none => (brokenOff, .stream)
      | some r =>
        if r.status ≠ 200 then (streamRefused r, .stream) else crossProviderRelay w inc t r

/-! ## Routing -/

def nativeRouteOperationIneligible : Bool :=
  !nativeOperationIsMetered inc || inc.parsed.model.getD "" = ""

def nativeRoutePolicyMissing (decision : RouteDecision) : Bool :=
  decision.candidateProvider = (provider inc).name

/-- `_forward_native_cross_provider_route` up to the forward; `none` is the incumbent. -/
def forwardNativeCrossProviderRoute (decision : RouteDecision) : Py (Option Treatment) :=
  match getAdapter decision.candidateProvider with
  | none => .error .keyError
  | some candidate =>
    if w.hasKey candidate then do
      let translated ← requestToOpenaiShape w.rt inc.parsed
      return some ⟨candidate, decision.candidateModel, translated⟩
    else .ok none

def nativeRouteAllowed (decision : RouteDecision) : List Event × Py Bool :=
  match crossProviderIneligibility inc.parsed (provider inc).name decision.candidateProvider with
  | .error e => ([], .error e)
  | .ok (some reason) => ([.ineligible reason], .ok false)
  | .ok none => ([], .ok !decision.rejected)

/-- A decision's own part of `_maybe_route_native_cross_provider`. -/
def routeDecided (decision : RouteDecision) : List Event × Py (Option Treatment) :=
  if nativeRoutePolicyMissing inc decision then ([], .ok none)
  else
    let allowed := nativeRouteAllowed inc decision
    (allowed.1, allowed.2 >>= fun allowed =>
      if allowed && decision.arm = .treatment then forwardNativeCrossProviderRoute w inc decision
      else .ok none)

def maybeRouteNativeCrossProvider : List Event × Py (Option Treatment) :=
  if nativeRouteOperationIneligible inc then ([], .ok none)
  else match w.route with
    | .error e => ([], .error e)
    | .ok none => ([], .ok none)
    | .ok (some decision) => routeDecided w inc decision

def optimizes : Bool := !w.bypass && !w.observeOnly

def forwardIncumbent : Run :=
  if !w.hasKey (provider inc) then ([], .refused 502 "no_provider_key")
  else
    .after [.forwarded (provider inc).name (nativeRequestUrl w inc) (body inc)] <|
      if inc.parsed.stream then nativeStreamThrough w inc else nativeForwardOnce w inc

def forwardTreated (t : Treatment) : Run :=
  if inc.parsed.stream then nativeCrossProviderStream w inc t else nativeCrossProviderOnce w inc t

def routing : List Event × Py (Option Treatment) :=
  if optimizes w then maybeRouteNativeCrossProvider w inc else ([], .ok none)

def refusal : Option Answer :=
  if inc.parsed.dialect ≠ inc.endpoint.dialect then some (.refused 404 "unsupported proxy operation")
  else if w.rateLimited then some (.refused 429 "rate_limited")
  else if optimizes w && w.overBudget then some (.refused 402 "budget_exceeded")
  else if !w.breakerAllows then some (.refused 503 "circuit_open")
  else none

def nativeProviderPassthrough : Run :=
  match refusal w inc with
  | some answer => ([], answer)
  | none =>
    .after (routing w inc).1 <|
      match (routing w inc).2 with
      | .error e => ([], .raised e)
      | .ok (some t) => forwardTreated w inc t
      | .ok none => forwardIncumbent w inc

end Forwarding

/-! ## What is sent and recorded -/

section Log

def Event.isSend : Event → Bool
  | .forwarded .. | .routed .. => true
  | _ => false

def Event.captured : Event → Option CaptureArgs
  | .effect (.capture args) => some args
  | _ => none

def Event.received : Event → Option Bytes
  | .effect (.yield (.bytes chunk)) => some chunk
  | _ => none

def sends (log : List Event) : List Event := log.filter Event.isSend

def ledger (log : List Event) : List CaptureArgs := log.filterMap Event.captured

def received (log : List Event) : List Bytes := log.filterMap Event.received

def Quiet (log : List Event) : Prop := ∀ e ∈ log, e.isSend = false ∧ e.captured = none

/-- Nothing is sent, and at most one answer of the provider is recorded, with the arm. -/
inductive Recorded (provider : String) (arm : Option String) : List Event → Prop
  | quiet {log : List Event} (h : Quiet log) : Recorded provider arm log
  | captured {log : List Event} (h : Quiet log) {args : CaptureArgs}
      (hprovider : args.provider = provider) (harm : args.arm = arm) :
      Recorded provider arm (log ++ [.effect (.capture args)])

variable {log xs ys : List Event} {provider : String} {arm : Option String} {e : Event}

theorem sends_append (xs ys : List Event) : sends (xs ++ ys) = sends xs ++ sends ys :=
  List.filter_append ..

theorem ledger_append (xs ys : List Event) : ledger (xs ++ ys) = ledger xs ++ ledger ys :=
  List.filterMap_append

theorem received_append (xs ys : List Event) : received (xs ++ ys) = received xs ++ received ys :=
  List.filterMap_append

theorem ledger_capture (args : CaptureArgs) : ledger [.effect (.capture args)] = [args] := rfl

theorem quiet_nil : Quiet [] := List.forall_mem_nil _

theorem Quiet.cons (he : e.isSend = false ∧ e.captured = none) (h : Quiet log) :
    Quiet (e :: log) := List.forall_mem_cons.2 ⟨he, h⟩

theorem Quiet.append (hx : Quiet xs) (hy : Quiet ys) : Quiet (xs ++ ys) :=
  List.forall_mem_append.2 ⟨hx, hy⟩

theorem Quiet.sends (h : Quiet log) : sends log = [] :=
  List.filter_eq_nil_iff.2 fun e he => by simp [(h e he).1]

theorem Quiet.ledger (h : Quiet log) : ledger log = [] :=
  List.filterMap_eq_nil_iff.2 fun e he => (h e he).2

theorem Recorded.cons (he : e.isSend = false ∧ e.captured = none)
    (h : Recorded provider arm log) : Recorded provider arm (e :: log) := by
  cases h with
  | quiet h => exact .quiet (h.cons he)
  | captured h hprovider harm => exact .captured (h.cons he) hprovider harm

theorem Recorded.append (hx : Quiet xs) (h : Recorded provider arm log) :
    Recorded provider arm (xs ++ log) := by
  cases h with
  | quiet h => exact .quiet (hx.append h)
  | captured h hprovider harm =>
    rw [← List.append_assoc]
    exact .captured (hx.append h) hprovider harm

theorem Recorded.sends (h : Recorded provider arm log) : sends log = [] := by
  cases h with
  | quiet h => exact h.sends
  | captured h =>
    rw [sends_append, h.sends]
    rfl

theorem Recorded.ledger (h : Recorded provider arm log) : (ledger log).length ≤ 1 ∧
    ∀ args ∈ ledger log, args.provider = provider ∧ args.arm = arm := by
  cases h with
  | quiet h =>
    rw [h.ledger]
    exact ⟨Nat.zero_le 1, List.forall_mem_nil _⟩
  | captured h hprovider harm =>
    rw [ledger_append, h.ledger, List.nil_append, ledger_capture]
    exact ⟨le_rfl, List.forall_mem_singleton.2 ⟨hprovider, harm⟩⟩

end Log

section Forwards

variable {w : World} {inc : Incoming} {t : Treatment}

theorem quiet_verdict (status : ℕ) : Quiet [verdict status] := by
  unfold verdict
  split_ifs <;> exact quiet_nil.cons ⟨rfl, rfl⟩

theorem quiet_brokenOff : Quiet brokenOff :=
  (quiet_nil.cons ⟨rfl, rfl⟩).cons ⟨rfl, rfl⟩

theorem quiet_streamRefused (r : Response) : Quiet (streamRefused r) := by
  unfold streamRefused
  cases r.complete with
  | true => exact (quiet_verdict r.status).append (quiet_nil.cons ⟨rfl, rfl⟩)
  | false => exact (quiet_verdict r.status).append quiet_brokenOff

theorem quiet_yields (chunks : List Bytes) : Quiet (yields chunks) :=
  List.forall_mem_map.2 fun _ _ => ⟨rfl, rfl⟩

theorem quiet_rendering (outs : List Out) (finished : Option CanonicalCompletion) :
    Quiet (rendering w inc outs finished).1 := by
  unfold rendering
  cases inc.parsed.dialect with
  | openai => exact quiet_nil
  | anthropic => exact List.forall_mem_map.2 fun _ _ => ⟨rfl, rfl⟩
  | geminiNative => exact List.forall_mem_map.2 fun _ _ => ⟨rfl, rfl⟩

theorem recorded_success {provider : String} {arm : Option String} {answer : Reply} :
    Recorded provider arm (ofReply ([.recordSuccess], answer)).1 :=
  .quiet (quiet_nil.cons ⟨rfl, rfl⟩)

theorem recorded_awaited {provider : String} {arm : Option String} {capture : CaptureArgs}
    {reply : Py Json} (hprovider : capture.provider = provider) (harm : capture.arm = arm) :
    Recorded provider arm (ofReply (WholeAnswers.awaited w.rt capture reply)).1 :=
  .captured (quiet_nil.cons ⟨rfl, rfl⟩) hprovider harm

theorem recorded_once : Recorded (provider inc).name none (nativeForwardOnce w inc).1 := by
  unfold nativeForwardOnce
  dsimp only
  cases w.response.filter (·.complete) with
  | none => exact .quiet (quiet_nil.cons ⟨rfl, rfl⟩)
  | some r =>
    dsimp only
    split_ifs
    · exact .quiet (quiet_verdict r.status)
    · unfold nativeForwardAnswered
      cases r.json w.http with
      | error e => exact recorded_success
      | ok raw =>
        dsimp only
        cases (adapter w (provider inc)).parseCompletion raw with
        | error e => exact recorded_success
        | ok result => exact recorded_awaited rfl rfl
    · cases r.json w.http with
      | error e => exact .quiet (quiet_nil.cons ⟨rfl, rfl⟩)
      | ok raw => exact .quiet (quiet_nil.cons ⟨rfl, rfl⟩)

theorem recorded_streamEnd {r : Response} {provider : String} {arm : Option String}
    {finished : List Event} (h : Recorded provider arm finished) :
    Recorded provider arm (streamEnd r finished) := by
  unfold streamEnd
  split_ifs
  · exact h
  · exact .quiet quiet_brokenOff

theorem recorded_stream : Recorded (provider inc).name none (nativeStreamThrough w inc).1 := by
  unfold nativeStreamThrough
  dsimp only
  cases w.response with
  | none => exact .quiet quiet_brokenOff
  | some r =>
    dsimp only
    split_ifs
    · exact .quiet (quiet_streamRefused r)
    · cases (relayed (adapter w (provider inc)) (adapter w (provider inc)).translator
          r.chunks).2 with
      | error e => exact .quiet ((quiet_yields _).cons ⟨rfl, rfl⟩)
      | ok s =>
        refine (Recorded.append (quiet_yields _) (recorded_streamEnd ?_)).cons ⟨rfl, rfl⟩
        unfold nativeStreamCapture
        cases (adapter w (provider inc)).finish s with
        | error e => exact .quiet quiet_nil
        | ok result => exact .captured quiet_nil rfl rfl
    · exact (Recorded.append (quiet_yields _) (recorded_streamEnd (.quiet quiet_nil))).cons
        ⟨rfl, rfl⟩

inductive SentOn (w : World) (inc : Incoming) (t : Treatment) : List Event → Prop
  | raised {e : PyError}
      (h : (adapter w t.candidate).prepareRequest t.body t.model inc.parsed.stream = .error e) :
      SentOn w inc t []
  | sent {wire : Json} {log : List Event}
      (h : (adapter w t.candidate).prepareRequest t.body t.model inc.parsed.stream = .ok wire)
      (hlog : Recorded t.candidate.name (some "treatment") log) :
      SentOn w inc t (.routed t.candidate.name t.model wire :: log)

theorem sentOn_once (hstream : inc.parsed.stream = false) :
    SentOn w inc t (nativeCrossProviderOnce w inc t).1 := by
  unfold nativeCrossProviderOnce
  dsimp only
  cases hwire : (adapter w t.candidate).prepareRequest t.body t.model false with
  | error e => exact .raised (hstream ▸ hwire)
  | ok wire =>
    refine .sent (hstream ▸ hwire) ?_
    cases w.response.filter (·.complete) with
    | none => exact .quiet (quiet_nil.cons ⟨rfl, rfl⟩)
    | some r =>
      dsimp only
      split_ifs
      · exact .quiet (quiet_verdict r.status)
      · unfold nativeCrossProviderAnswered
        cases r.json w.http >>= (adapter w t.candidate).parseCompletion with
        | error e => exact recorded_success
        | ok result => exact recorded_awaited rfl rfl

theorem recorded_crossProviderEnd {outs : List Out} {s : t.candidate.State} :
    Recorded t.candidate.name (some "treatment") (crossProviderEnd w inc t outs s) := by
  unfold crossProviderEnd
  cases (adapter w t.candidate).finish s with
  | error e => exact .quiet (quiet_rendering outs none)
  | ok result =>
    dsimp only
    cases (rendering w inc outs (some result)).2 with
    | error e => exact .quiet (quiet_rendering outs (some result))
    | ok _ => exact .captured (quiet_rendering outs (some result)) rfl rfl

theorem recorded_crossProviderRelay {r : Response} :
    Recorded t.candidate.name (some "treatment") (crossProviderRelay w inc t r).1 := by
  unfold crossProviderRelay
  dsimp only
  have hclient : Quiet (rendering w inc
      (pushAll (adapter w t.candidate) (adapter w t.candidate).translator r.chunks).out none).1 :=
    quiet_rendering _ none
  split
  · exact .quiet (hclient.cons ⟨rfl, rfl⟩)
  · exact .quiet (hclient.cons ⟨rfl, rfl⟩)
  · split_ifs
    · exact recorded_crossProviderEnd.cons ⟨rfl, rfl⟩
    · exact .quiet ((hclient.append quiet_brokenOff).cons ⟨rfl, rfl⟩)

theorem sentOn_stream (hstream : inc.parsed.stream = true) :
    SentOn w inc t (nativeCrossProviderStream w inc t).1 := by
  unfold nativeCrossProviderStream
  cases hwire : (adapter w t.candidate).prepareRequest t.body t.model true with
  | error e => exact .raised (hstream ▸ hwire)
  | ok wire =>
    refine .sent (hstream ▸ hwire) ?_
    cases w.response with
    | none => exact .quiet quiet_brokenOff
    | some r =>
      dsimp only
      split_ifs
      · exact .quiet (quiet_streamRefused r)
      · exact recorded_crossProviderRelay

theorem sentOn_treated : SentOn w inc t (forwardTreated w inc t).1 := by
  unfold forwardTreated
  split_ifs with hstream
  · exact sentOn_stream hstream
  · exact sentOn_once (Bool.eq_false_iff.2 hstream)

end Forwards

/-! ## Who is treated -/

section Requests

variable {w : World} {inc : Incoming} {decision : RouteDecision} {t : Treatment}

/-- A policy for another provider treats the request, which can be translated, is not held back,
and has a key there. -/
structure Treats (w : World) (inc : Incoming) (decision : RouteDecision) (t : Treatment) : Prop where
  optimizes : optimizes w = true
  metered : nativeOperationIsMetered inc = true
  model : inc.parsed.model.getD "" ≠ ""
  route : w.route = .ok (some decision)
  other : decision.candidateProvider ≠ (provider inc).name
  eligible : crossProviderIneligibility inc.parsed (provider inc).name
    decision.candidateProvider = .ok none
  accepted : decision.rejected = false
  arm : decision.arm = .treatment
  candidate : getAdapter decision.candidateProvider = some t.candidate
  key : w.hasKey t.candidate = true
  candidateModel : t.model = decision.candidateModel
  translated : requestToOpenaiShape w.rt inc.parsed = .ok t.body

theorem forwardRoute_eq_some
    (h : forwardNativeCrossProviderRoute w inc decision = .ok (some t)) :
    getAdapter decision.candidateProvider = some t.candidate ∧ w.hasKey t.candidate = true ∧
      t.model = decision.candidateModel ∧ requestToOpenaiShape w.rt inc.parsed = .ok t.body := by
  unfold forwardNativeCrossProviderRoute at h
  cases hadapter : getAdapter decision.candidateProvider with
  | none =>
    rw [hadapter] at h
    cases h
  | some candidate =>
    rw [hadapter] at h
    dsimp only at h
    split_ifs at h with hkey
    · obtain ⟨translated, htranslated, h⟩ := Python.Py.bind_eq_ok.1 h
      obtain rfl := Option.some.inj (Except.ok.inj h)
      exact ⟨rfl, hkey, rfl, htranslated⟩
    · cases h

theorem allowed_iff : (nativeRouteAllowed inc decision).2 = .ok true ↔
    crossProviderIneligibility inc.parsed (provider inc).name decision.candidateProvider =
      .ok none ∧ decision.rejected = false := by
  unfold nativeRouteAllowed
  rcases crossProviderIneligibility inc.parsed (provider inc).name decision.candidateProvider with
    e | _ | reason <;> simp

theorem routeDecided_eq_some (h : (routeDecided w inc decision).2 = .ok (some t)) :
    decision.candidateProvider ≠ (provider inc).name ∧
      (nativeRouteAllowed inc decision).2 = .ok true ∧ decision.arm = .treatment ∧
      forwardNativeCrossProviderRoute w inc decision = .ok (some t) := by
  unfold routeDecided at h
  split_ifs at h with hmissing
  · cases h
  · obtain ⟨allowed, hallowed, h⟩ := Python.Py.bind_eq_ok.1 h
    split_ifs at h with htreated
    · rw [Bool.and_eq_true, decide_eq_true_eq] at htreated
      obtain ⟨rfl, harm⟩ := htreated
      exact ⟨fun ho => hmissing (decide_eq_true ho), hallowed, harm, h⟩
    · cases h

theorem routing_eq_some : (routing w inc).2 = .ok (some t) ↔
    ∃ decision, Treats w inc decision t := by
  unfold routing maybeRouteNativeCrossProvider
  constructor
  · intro h
    split_ifs at h with hoptimizes hineligible
    · cases h
    · simp only [nativeRouteOperationIneligible, Bool.or_eq_true, Bool.not_eq_true',
        decide_eq_true_eq, not_or, Bool.not_eq_false] at hineligible
      rcases hroute : w.route with e | _ | decision
      · rw [hroute] at h
        cases h
      · rw [hroute] at h
        cases h
      · rw [hroute] at h
        obtain ⟨hother, hallowed, harm, hforward⟩ := routeDecided_eq_some h
        obtain ⟨heligible, haccepted⟩ := allowed_iff.1 hallowed
        obtain ⟨hadapter, hkey, hmodel, htranslated⟩ := forwardRoute_eq_some hforward
        exact ⟨decision, hoptimizes, hineligible.1, hineligible.2, hroute, hother, heligible,
          haccepted, harm, hadapter, hkey, hmodel, htranslated⟩
    · cases h
  · rintro ⟨decision, h⟩
    have hineligible : nativeRouteOperationIneligible inc = false := by
      simp [nativeRouteOperationIneligible, h.metered, h.model]
    have hmissing : nativeRoutePolicyMissing inc decision = false := decide_eq_false h.other
    have hallowed := allowed_iff.2 ⟨h.eligible, h.accepted⟩
    have hforward : forwardNativeCrossProviderRoute w inc decision = .ok (some t) := by
      rw [forwardNativeCrossProviderRoute, h.candidate]
      dsimp only
      rw [if_pos h.key, h.translated, Python.Py.bind_ok, ← h.candidateModel]
      rfl
    rw [if_pos h.optimizes, hineligible, h.route]
    dsimp only
    rw [routeDecided, hmissing]
    dsimp only
    rw [hallowed, Python.Py.bind_ok, h.arm, ← hforward]
    rfl

theorem audits_ineligible : ∀ e ∈ (routing w inc).1, ∃ reason, e = .ineligible reason := by
  have hallowed : ∀ decision, ∀ e ∈ (nativeRouteAllowed inc decision).1,
      ∃ reason, e = .ineligible reason := by
    intro decision
    unfold nativeRouteAllowed
    rcases crossProviderIneligibility inc.parsed (provider inc).name
      decision.candidateProvider with e | _ | reason
    · exact List.forall_mem_nil _
    · exact List.forall_mem_nil _
    · exact List.forall_mem_singleton.2 ⟨reason, rfl⟩
  unfold routing maybeRouteNativeCrossProvider
  split_ifs
  · exact List.forall_mem_nil _
  · rcases w.route with e | _ | decision
    · exact List.forall_mem_nil _
    · exact List.forall_mem_nil _
    · dsimp only
      unfold routeDecided
      split_ifs
      · exact List.forall_mem_nil _
      · exact hallowed decision
  · exact List.forall_mem_nil _

theorem quiet_routing : Quiet (routing w inc).1 := by
  intro e he
  obtain ⟨reason, rfl⟩ := audits_ineligible e he
  exact ⟨rfl, rfl⟩

theorem routing_none (h : w.route = .ok none) : routing w inc = ([], .ok none) := by
  unfold routing maybeRouteNativeCrossProvider
  rw [h]
  split_ifs <;> rfl

theorem forwardIncumbent_cases : (forwardIncumbent w inc).1 = [] ∨
    ∃ log, Recorded (provider inc).name none log ∧ (forwardIncumbent w inc).1 =
      .forwarded (provider inc).name (nativeRequestUrl w inc) (body inc) :: log := by
  unfold forwardIncumbent
  split_ifs
  · exact .inl rfl
  · exact .inr ⟨_, recorded_stream, rfl⟩
  · exact .inr ⟨_, recorded_once, rfl⟩

/-- A native request is sent once at most: as it is to its own provider, and what is recorded of
the answer names no arm, or translated to another provider where a policy treats it, and what is
recorded names the treatment. -/
theorem native_account (w : World) (inc : Incoming) :
    let log := (nativeProviderPassthrough w inc).1
    (sends log = [] ∧ ledger log = []) ∨
    (sends log = [.forwarded (provider inc).name (nativeRequestUrl w inc) (body inc)] ∧
      (ledger log).length ≤ 1 ∧
      ∀ args ∈ ledger log, args.provider = (provider inc).name ∧ args.arm = none) ∨
    ∃ decision t wire, Treats w inc decision t ∧
      (adapter w t.candidate).prepareRequest t.body t.model inc.parsed.stream = .ok wire ∧
      sends log = [.routed t.candidate.name t.model wire] ∧ (ledger log).length ≤ 1 ∧
      ∀ args ∈ ledger log, args.provider = t.candidate.name ∧ args.arm = some "treatment" := by
  dsimp only
  unfold nativeProviderPassthrough
  cases refusal w inc with
  | some answer => exact .inl ⟨rfl, rfl⟩
  | none =>
    dsimp only [Run.after]
    rw [sends_append, ledger_append, quiet_routing.sends, quiet_routing.ledger, List.nil_append,
      List.nil_append]
    rcases hrouting : (routing w inc).2 with e | _ | t
    · exact .inl ⟨rfl, rfl⟩
    · rcases @forwardIncumbent_cases w inc with hnothing | ⟨log, hrecorded, hlog⟩
      · dsimp only
        rw [hnothing]
        exact .inl ⟨rfl, rfl⟩
      · dsimp only
        rw [hlog]
        exact .inr (.inl ⟨congrArg _ hrecorded.sends, hrecorded.ledger⟩)
    · obtain ⟨decision, htreats⟩ := routing_eq_some.1 hrouting
      have hsent := @sentOn_treated w inc t
      dsimp only
      generalize (forwardTreated w inc t).1 = log at hsent
      cases hsent with
      | raised hwire => exact .inl ⟨rfl, rfl⟩
      | sent hwire hrecorded =>
        exact .inr (.inr ⟨decision, t, _, htreats, hwire, congrArg _ hrecorded.sends,
          hrecorded.ledger⟩)

end Requests

/-! ## What is relayed -/

section Relay

variable {w : World} {inc : Incoming} {r : Response}

theorem relayed_result {σ : Type} (adapter : Adapter σ) (s : σ) (chunks : List Bytes) :
    (relayed adapter s chunks).2 = (pushAll adapter s chunks).result := by
  induction chunks generalizing s with
  | nil => rfl
  | cons chunk chunks ih =>
    have hfold : pushAll adapter s (chunk :: chunks) =
        (adapter.push s chunk).bind fun s => pushAll adapter s chunks := rfl
    rw [hfold, relayed, Python.Gen.bind]
    cases (adapter.push s chunk).result with
    | error e => rfl
    | ok s' => exact ih s'

theorem relayed_initial {σ : Type} (adapter : Adapter σ) (s : σ) (chunks : List Bytes) :
    (relayed adapter s chunks).1 <+: chunks := by
  induction chunks generalizing s with
  | nil => exact List.nil_prefix
  | cons chunk chunks ih =>
    unfold relayed
    cases (adapter.push s chunk).result with
    | error e => exact List.nil_prefix
    | ok s' => exact (List.prefix_cons_inj chunk).2 (ih s')

theorem relayed_all {σ : Type} (adapter : Adapter σ) (s : σ) (chunks : List Bytes) :
    (relayed adapter s chunks).1 = chunks ↔ Returns (relayed adapter s chunks).2 := by
  induction chunks generalizing s with
  | nil => exact iff_of_true rfl ⟨s, rfl⟩
  | cons chunk chunks ih =>
    unfold relayed
    cases (adapter.push s chunk).result with
    | error e => exact iff_of_false (List.cons_ne_nil _ _).symm (Python.not_returns_error e)
    | ok s' => exact List.cons_inj_right chunk |>.trans (ih s')

theorem received_yields (chunks : List Bytes) : received (yields chunks) = chunks := by
  induction chunks with
  | nil => rfl
  | cons chunk chunks ih => exact congrArg (chunk :: ·) ih

theorem received_streamEnd {finished : List Event} (h : received finished = []) :
    received (streamEnd r finished) = [] := by
  unfold streamEnd
  split_ifs
  · exact h
  · rfl

theorem received_capture (p : Provider) (s : p.State) :
    received (nativeStreamCapture w inc p s) = [] := by
  unfold nativeStreamCapture
  cases (adapter w p).finish s <;> rfl

/-- The translator of a native endpoint takes a stream exactly where its events have the shapes that
are handled. -/
theorem taken_iff (chunks : List Bytes) :
    Returns (pushAll (adapter w (provider inc)) (adapter w (provider inc)).translator
      chunks).result ↔ UnbrokenStreams.streamFits w.rt chunks (provider inc) = true := by
  unfold provider
  cases inc.endpoint with
  | anthropicNative => exact UnbrokenStreams.Anthropic.returns_pushes chunks
  | geminiNative => exact UnbrokenStreams.Gemini.returns_pushes chunks

theorem received_stream (hr : w.response = some r) (h200 : r.status = 200) :
    received (nativeStreamThrough w inc).1 =
      if nativeOperationIsMetered inc then
        (relayed (adapter w (provider inc)) (adapter w (provider inc)).translator r.chunks).1
      else r.chunks := by
  unfold nativeStreamThrough
  rw [hr]
  dsimp only
  rw [if_neg (not_not.2 h200)]
  split_ifs with hmetered
  · cases (relayed (adapter w (provider inc)) (adapter w (provider inc)).translator
        r.chunks).2 with
    | error e => exact received_yields _
    | ok s =>
      have hrest := received_streamEnd (r := r) (@received_capture w inc _ s)
      exact (received_append _ _).trans (by rw [received_yields, hrest, List.append_nil])
  · have hrest := @received_streamEnd r [] rfl
    exact (received_append _ _).trans (by rw [received_yields, hrest, List.append_nil])

theorem received_audits : received (routing w inc).1 = [] :=
  List.filterMap_eq_nil_iff.2 fun e he => by
    obtain ⟨reason, rfl⟩ := audits_ineligible e he
    rfl

/-- A stream that is sent to its own provider and answered reaches the client as the first chunks
of the answer, unchanged, and all of them exactly where the operation is not metered or every event
has a shape that the metering reads. -/
theorem native_stream_relayed {url : String} {sent : Json}
    (hsent : sends (nativeProviderPassthrough w inc).1 =
      [.forwarded (provider inc).name url sent])
    (hstream : inc.parsed.stream = true) (hr : w.response = some r) (h200 : r.status = 200) :
    received (nativeProviderPassthrough w inc).1 <+: r.chunks ∧
      (received (nativeProviderPassthrough w inc).1 = r.chunks ↔
        nativeOperationIsMetered inc = false ∨
          UnbrokenStreams.streamFits w.rt r.chunks (provider inc) = true) := by
  have hreceived : received (nativeProviderPassthrough w inc).1 =
      received (nativeStreamThrough w inc).1 := by
    unfold nativeProviderPassthrough at hsent ⊢
    cases hrefusal : refusal w inc with
    | some answer =>
      rw [hrefusal] at hsent
      cases hsent
    | none =>
      rw [hrefusal] at hsent
      dsimp only [Run.after] at hsent ⊢
      rw [sends_append, quiet_routing.sends, List.nil_append] at hsent
      rw [received_append, received_audits, List.nil_append]
      rcases hrouting : (routing w inc).2 with e | _ | t
      · rw [hrouting] at hsent
        cases hsent
      · rw [hrouting] at hsent
        dsimp only at hsent ⊢
        unfold forwardIncumbent at hsent ⊢
        split_ifs at hsent ⊢
        · cases hsent
        · rfl
      · rw [hrouting] at hsent
        dsimp only at hsent
        have htreated := @sentOn_treated w inc t
        generalize (forwardTreated w inc t).1 = log at hsent htreated
        cases htreated with
        | raised => cases hsent
        | sent => cases hsent
  rw [hreceived, received_stream hr h200]
  split_ifs with hmetered
  · refine ⟨relayed_initial _ _ _, ?_⟩
    rw [relayed_all, relayed_result, taken_iff, hmetered]
    simp
  · exact ⟨List.prefix_refl _, iff_of_true rfl (.inl (Bool.eq_false_iff.2 hmetered))⟩

end Relay

/-! ## A request that is held back -/

def heldBack : World where
  rt := UnbrokenStreams.listRuntime
  http := ⟨fun _ => none, fun _ => ""⟩
  baseUrl := fun _ => "https://generativelanguage.googleapis.com"
  cacheKey := fun _ => ""
  rateLimited := false
  bypass := false
  observeOnly := false
  overBudget := false
  breakerAllows := true
  hasKey := fun _ => true
  route := .ok (some ⟨"gpt-4o-mini", "openai", false, .control⟩)
  response := some ⟨200, [UnbrokenStreams.listBytes], true⟩

def streamedCall : Incoming where
  endpoint := .geminiNative
  parsed := ⟨.geminiNative, [], [], some "gemini-2.5-pro", true⟩
  operation := "stream_generate_content"
  path := "/v1beta/models/gemini-2.5-pro:streamGenerateContent"
  query := "alt=sse"

theorem heldBack_untreated (decision : RouteDecision) (t : Treatment) :
    ¬ Treats heldBack streamedCall decision t := by
  intro h
  obtain rfl := Option.some.inj (Except.ok.inj h.route)
  cases h.arm

theorem heldBack_routing : routing heldBack streamedCall = ([], .ok none) := by
  simp [routing, optimizes, maybeRouteNativeCrossProvider, nativeRouteOperationIneligible,
    nativeOperationIsMetered, routeDecided, nativeRoutePolicyMissing, nativeRouteAllowed,
    crossProviderIneligibility, ClientRequests.geminiNativeIneligibility,
    ClientRequests.hasUnmappedGeminiPart, Engine.RequestFacts.field, Json.item, Json.orElse,
    Json.truthy, ClientRequests.iterDicts, ClientRequests.itemDicts, provider, Endpoint.provider,
    Provider.name, heldBack, streamedCall, Python.Py.bind_ok]

theorem sends_forwarded {provider url : String} {sent : Json} {log : List Event} :
    sends (.forwarded provider url sent :: log) = .forwarded provider url sent :: sends log := rfl

theorem heldBack_sends : sends (nativeProviderPassthrough heldBack streamedCall).1 =
    [.forwarded "gemini" (nativeRequestUrl heldBack streamedCall) (.obj [])] := by
  have hrefusal : refusal heldBack streamedCall = none := rfl
  have hincumbent : (forwardIncumbent heldBack streamedCall).1 =
      .forwarded "gemini" (nativeRequestUrl heldBack streamedCall) (.obj []) ::
        (nativeStreamThrough heldBack streamedCall).1 := rfl
  have hstream : sends (nativeStreamThrough heldBack streamedCall).1 = [] :=
    recorded_stream.sends
  unfold nativeProviderPassthrough
  rw [hrefusal, heldBack_routing]
  dsimp only [Run.after]
  rw [List.nil_append, hincumbent, sends_forwarded, hstream]

theorem heldBack_relayed :
    received (nativeProviderPassthrough heldBack streamedCall).1 <+: [UnbrokenStreams.listBytes] ∧
      (received (nativeProviderPassthrough heldBack streamedCall).1 =
        [UnbrokenStreams.listBytes] ↔ nativeOperationIsMetered streamedCall = false ∨
          UnbrokenStreams.streamFits heldBack.rt [UnbrokenStreams.listBytes] .gemini = true) :=
  @native_stream_relayed heldBack streamedCall ⟨200, [UnbrokenStreams.listBytes], true⟩ _ _
    heldBack_sends rfl rfl rfl

end Varsten.Proxy.NativePassthrough
