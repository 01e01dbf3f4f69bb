import Varsten.Proxy.Providers.Canonical

/-!
# The forward path

`_stream_through`, `_forward_once` and `_forward_fallback` as functions of what
the network does at each attempt. A run is the list of its effects: the requests
sent upstream, the breaker calls, what the client is handed and the captures.
Sleeping, latencies and log lines are left out, and a client that disconnects is
not modelled.
-/

namespace Varsten.Proxy.Forward

open Python (Json Py PyError Gen)
open Python.Utf8 (Bytes)
open Providers (Adapter CanonicalCompletion CanonicalUsage Out completionPayload)

def isUpstreamFailure (status : ℕ) : Bool :=
  status ∈ [429, 500, 502, 503, 504] || status ≥ 500

/-- An answer whose body arrives in `chunks`; reading it raises after them unless `complete`. -/
structure Response where
  status : ℕ
  chunks : List Bytes
  complete : Bool

/-- What the network does at one attempt, and the two readings of the retry deadline: after a
status and after an exception. No response is an exception before any status. -/
structure Attempt where
  response : Option Response
  inBudget : Bool
  stillInBudget : Bool

abbrev Network := ℕ → Attempt

/-- The arguments both forward paths share. -/
structure Request where
  body : Json
  model : String
  cacheKey : String
  storeCache : Bool
  upstreamModel : Option String
  routedFrom : Option String
  routedFromProvider : Option String
  arm : Option String
  expFrom : Option String
  expTo : Option String
  idempotencyKey : Option String

/-- The arguments of `_capture`. -/
structure CaptureArgs where
  provider : String
  model : Json
  cacheModel : String
  responsePayload : Json
  cacheKey : String
  usage : CanonicalUsage
  storeCache : Bool
  body : Json
  routedFrom : Option String
  routedFromProvider : Option String
  arm : Option String
  expFrom : Option String
  expTo : Option String
  fallbackUsed : Bool

inductive Effect where
  | send (provider model : String) (idempotencyKey : Option String) (body : Json)
  | recordSuccess
  | recordFailure
  | yield (out : Out)
  | upstreamError
  | capture (args : CaptureArgs)

/-- `_with_idempotency`: an empty key is no key. -/
def withIdempotency (key : Option String) : Option String := key.filter (· ≠ "")

def Request.upstream (req : Request) : String :=
  match req.upstreamModel with
  | some m => if m = "" then req.model else m
  | none => req.model

variable {σ : Type}

def send (adapter : Adapter σ) (req : Request) (model : String) (wire : Json) : Effect :=
  .send adapter.provider model (withIdempotency req.idempotencyKey) wire

/-! ## Streaming -/

inductive Pass (σ : Type) where
  | retry (s : σ)
  | streamed (s : σ)
  | returned
  | raised (e : PyError)

/-- The `except` branch. -/
def streamExcept (moreAttempts : Bool) (a : Attempt) (hasStreamed : Bool) (s : σ) :
    List Effect × Pass σ :=
  if !hasStreamed && moreAttempts && a.stillInBudget then ([], .retry s)
  else ([.recordFailure, .upstreamError, .yield .doneMarker], .returned)

def pushAll (adapter : Adapter σ) : σ → List Bytes → Gen Out σ := Gen.fold adapter.push

/-- One attempt after its request was sent; `moreAttempts` is `attempt < len(delays)`. -/
def streamPass (adapter : Adapter σ) (moreAttempts : Bool) (a : Attempt) (s : σ) :
    List Effect × Pass σ :=
  match a.response with
  | none => streamExcept moreAttempts a false s
  | some r =>
    let read (record : Effect) : List Effect × Pass σ :=
      if r.complete then ([record, .yield (.bytes r.chunks.flatten)], .returned)
      else
        let rest := streamExcept moreAttempts a false s
        (record :: rest.1, rest.2)
    if r.status ≠ 200 then
      if isUpstreamFailure r.status then
        if moreAttempts && a.inBudget then
          if r.complete then ([], .retry s) else streamExcept moreAttempts a false s
        else read .recordFailure
      else read .recordSuccess
    else
      let pushed := pushAll adapter s r.chunks
      let effects := .recordSuccess :: pushed.out.map .yield
      match pushed.result with
      | .error e => (effects, .raised e)
      | .ok s =>
        if r.complete then (effects, .streamed s)
        else
          let rest := streamExcept moreAttempts a (!r.chunks.isEmpty) s
          (effects ++ rest.1, rest.2)

/-- `for attempt in range(1 + len(delays))` with `retries` attempts left after this one. -/
def streamLoop (adapter : Adapter σ) (sent : Effect) (net : Network) :
    ℕ → ℕ → σ → List Effect × Pass σ
  | 0, attempt, s =>
    let pass := streamPass adapter false (net attempt) s
    (sent :: pass.1, pass.2)
  | retries + 1, attempt, s =>
    let pass := streamPass adapter true (net attempt) s
    match pass.2 with
    | .retry s =>
      let rest := streamLoop adapter sent net retries (attempt + 1) s
      (sent :: pass.1 ++ rest.1, rest.2)
    | _ => (sent :: pass.1, pass.2)

def streamCaptureArgs (provider : String) (req : Request) (result : CanonicalCompletion) :
    CaptureArgs where
  provider := provider
  model := result.model.orElse (.str req.model)
  cacheModel := req.model
  responsePayload :=
    if result.content.truthy || result.toolCalls.truthy then completionPayload result else .obj []
  cacheKey := req.cacheKey
  usage := result.usage
  storeCache := req.storeCache
  body := req.body
  routedFrom := req.routedFrom
  routedFromProvider := req.routedFromProvider
  arm := req.arm
  expFrom := req.expFrom
  expTo := req.expTo
  fallbackUsed := false

def streamCapture (adapter : Adapter σ) (req : Request) (s : σ) : List Effect :=
  match adapter.finish s with
  | .error _ => []
  | .ok result => [.capture (streamCaptureArgs adapter.provider req result)]

/-- `_stream_through` with `retries` backoff delays. -/
def streamThrough (adapter : Adapter σ) (retries : ℕ) (req : Request) (net : Network) :
    Py (List Effect) := do
  let wire ← adapter.prepareRequest req.body req.upstream true
  let run := streamLoop adapter (send adapter req req.upstream wire) net retries 0
    adapter.translator
  match run.2 with
  | .streamed s | .retry s => return run.1 ++ streamCapture adapter req s
  | _ => return run.1

/-! ## Not streaming -/

/-- A response `client.post` returns: its body was read. -/
def Attempt.posted (a : Attempt) : Option Response := a.response.filter (·.complete)

/-- `post_with_retry` with the request `sent`. -/
def postLoop (sent : Effect) (net : Network) : ℕ → ℕ → List Effect × Option Response
  | 0, attempt => ([sent], (net attempt).posted)
  | retries + 1, attempt =>
    let a := net attempt
    let retry :=
      let rest := postLoop sent net retries (attempt + 1)
      (sent :: rest.1, rest.2)
    match a.posted with
    | none => if a.stillInBudget then retry else ([sent], none)
    | some r =>
      if r.status = 200 || !isUpstreamFailure r.status then ([sent], some r)
      else if a.inBudget then retry
      else ([sent], some r)

/-- How `resp.json()` and `resp.text` read a body. -/
structure BodyReader where
  json : Bytes → Option Json
  text : Bytes → String

def Response.json (http : BodyReader) (r : Response) : Py Json :=
  match http.json r.chunks.flatten with
  | some j => .ok j
  | none => .error .valueError

def Response.detail (http : BodyReader) (r : Response) : Json :=
  (http.json r.chunks.flatten).getD (.obj [("error", .str (http.text r.chunks.flatten))])

inductive Reply where
  | json (status : ℕ) (body : Json) (fallbackModel : Option String)
  | upstreamUnreachable
  | raised (e : PyError)

/-- What `_forward_once` and `_forward_fallback` do with a 200 answer. -/
def answered (adapter : Adapter σ) (http : BodyReader) (r : Response)
    (capture : CanonicalCompletion → CaptureArgs) (fallbackModel : Option String) :
    List Effect × Reply :=
  match r.json http >>= adapter.parseCompletion with
  | .ok result =>
    ([.recordSuccess, .capture (capture result)],
      .json 200 (completionPayload result) fallbackModel)
  | .error e => ([.recordSuccess], .raised e)

def onceArgs (adapter : Adapter σ) (req : Request) (result : CanonicalCompletion) :
    CaptureArgs where
  provider := adapter.provider
  model := result.model.orElse (.str req.model)
  cacheModel := req.model
  responsePayload := completionPayload result
  cacheKey := req.cacheKey
  usage := result.usage
  storeCache := req.storeCache
  body := req.body
  routedFrom := req.routedFrom
  routedFromProvider := req.routedFromProvider
  arm := req.arm
  expFrom := req.expFrom
  expTo := req.expTo
  fallbackUsed := false

def fallbackArgs (adapter : Adapter σ) (req : Request) (fbModel : String)
    (result : CanonicalCompletion) : CaptureArgs where
  provider := adapter.provider
  model := result.model.orElse (.str fbModel)
  cacheModel := req.model
  responsePayload := completionPayload result
  cacheKey := req.cacheKey
  usage := result.usage
  storeCache := false
  body := req.body
  routedFrom := none
  routedFromProvider := none
  arm := none
  expFrom := none
  expTo := none
  fallbackUsed := true

/-- `_forward_fallback` once a degradation model is configured; `none` when it did not answer. -/
def forwardFallback (adapter : Adapter σ) (http : BodyReader) (retries : ℕ) (req : Request)
    (fbModel : String) (net : Network) : List Effect × Option Reply :=
  match adapter.prepareRequest req.body fbModel false with
  | .error e => ([], some (.raised e))
  | .ok wire =>
    let posted := postLoop (send adapter req fbModel wire) net retries 0
    match posted.2 with
    | some r =>
      if r.status = 200 then
        let done := answered adapter http r (fallbackArgs adapter req fbModel) (some fbModel)
        (posted.1 ++ done.1, some done.2)
      else (posted.1, none)
    | none => (posted.1, none)

/-- `resilience.fallback_model`: never the model that just failed, never an empty name. -/
def fallbackModel (enabled : Bool) (configured : Option String) (failed : String) :
    Option String :=
  if enabled then configured.filter fun m => m ≠ "" ∧ m ≠ failed else none

structure Resilience where
  retries : ℕ
  fallbackEnabled : Bool
  configuredFallback : Option String

/-- `_forward_once` after the primary failed: one breaker failure, then the degradation model. -/
def forwardFailed (adapter : Adapter σ) (http : BodyReader) (cfg : Resilience) (req : Request)
    (fbNet : Network) (posted : List Effect × Option Response) : List Effect × Reply :=
  let relayed : Reply := match posted.2 with
    | some r => .json r.status (r.detail http) none
    | none => .upstreamUnreachable
  match fallbackModel cfg.fallbackEnabled cfg.configuredFallback req.upstream with
  | none => (posted.1 ++ [.recordFailure], relayed)
  | some fbModel =>
    let fb := forwardFallback adapter http cfg.retries req fbModel fbNet
    (posted.1 ++ .recordFailure :: fb.1, fb.2.getD relayed)

/-- `_forward_once`; the degradation model meets the network `fbNet`. -/
def forwardOnce (adapter : Adapter σ) (http : BodyReader) (cfg : Resilience) (req : Request)
    (net fbNet : Network) : Py (List Effect × Reply) := do
  let wire ← adapter.prepareRequest req.body req.upstream false
  let posted := postLoop (send adapter req req.upstream wire) net cfg.retries 0
  match posted.2 with
  | some r =>
    if r.status = 200 then
      let done := answered adapter http r (onceArgs adapter req) none
      return (posted.1 ++ done.1, done.2)
    else if !isUpstreamFailure r.status then
      return (posted.1 ++ [.recordSuccess], .json r.status (r.detail http) none)
    else return forwardFailed adapter http cfg req fbNet posted
  | none => return forwardFailed adapter http cfg req fbNet posted

end Varsten.Proxy.Forward
