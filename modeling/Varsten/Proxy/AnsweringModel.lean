import Varsten.Proxy.CacheSavings
import Varsten.Proxy.DeliveredStreams
import Varsten.Proxy.ModelNames
import Varsten.Proxy.WholeAnswers

/-!
# The model that answered

Every forwarding function has a name of its own for an answer that brings none. On the paths of
the OpenAI dialect it is the model that was asked for, also where another one was sent.
-/

namespace Varsten.Proxy.AnsweringModel

open Python (Json Py Runtime)
open Python.Utf8 (Bytes Text encode)
open Pricing.Service (Prices priceUsageEvent)
open Providers (CanonicalCompletion completionPayload)
open Forward
open OpenAIDialect (Provider)
open ClientRequests (ClientDialect)
open DeliveredStreams (anthropicClient geminiClient)
open ModelNames
open Capture (qualityOk)
open CacheSavings (captureUsage)
open Ledger

variable {rt : Runtime}

/-! ## The paths -/

/-- What the native paths pass on of a request; `arm` and `body` are read where it is routed. -/
structure NativeRequest where
  dialect : ClientDialect
  model : Option String
  body : Json
  cacheKey : String
  requestedProvider : String
  arm : String

/-- The ways a 200 answer comes to `_capture`. -/
inductive Path where
  | forwardOnce (req : Request)
  | streamThrough (req : Request)
  | forwardFallback (req : Request) (fbModel : String)
  | nativeCrossProviderOnce (req : NativeRequest) (candidateModel : String)
  | nativeCrossProviderStream (req : NativeRequest) (upstreamModel : String)
  | nativeForwardOnce (req : NativeRequest)
  | nativeStreamThrough (req : NativeRequest)

/-- `parsed.model or result.model or ""`. -/
def nativeCacheModel (req : NativeRequest) (result : CanonicalCompletion) : String :=
  match req.model.filter (· ≠ "") with
  | some model => model
  | none => match result.model with
    | .str model => model
    | _ => ""

def streamPayload (result : CanonicalCompletion) : Json :=
  if result.content.truthy || result.toolCalls.truthy then completionPayload result else .obj []

def nativeArgs (provider : String) (req : NativeRequest) (payload : Json)
    (result : CanonicalCompletion) : CaptureArgs where
  provider
  model := result.model.orElse (.str (req.model.getD ""))
  cacheModel := nativeCacheModel req result
  responsePayload := payload
  cacheKey := req.cacheKey
  usage := result.usage
  storeCache := false
  body := .null
  routedFrom := none
  routedFromProvider := none
  arm := none
  expFrom := none
  expTo := none
  fallbackUsed := false

def crossProviderArgs (provider : String) (req : NativeRequest) (model cacheModel : String)
    (payload : Json) (result : CanonicalCompletion) : CaptureArgs where
  provider
  model := result.model.orElse (.str model)
  cacheModel
  responsePayload := payload
  cacheKey := req.cacheKey
  usage := result.usage
  storeCache := false
  body := req.body
  routedFrom := req.model
  routedFromProvider := some req.requestedProvider
  arm := some req.arm
  expFrom := req.model
  expTo := some model
  fallbackUsed := false

namespace Path

def streams : Path → Bool
  | streamThrough _ | nativeCrossProviderStream .. | nativeStreamThrough _ => true
  | _ => false

/-- The arguments of `_capture`. -/
def args (rt : Runtime) (p : Provider) : Path → CanonicalCompletion → CaptureArgs
  | forwardOnce req => onceArgs (p.adapter rt) req
  | streamThrough req => streamCaptureArgs (p.adapter rt).provider req
  | forwardFallback req fbModel => fallbackArgs (p.adapter rt) req fbModel
  | nativeCrossProviderOnce req candidateModel => fun result =>
    crossProviderArgs (p.adapter rt).provider req candidateModel (req.model.getD "")
      (completionPayload result) result
  | nativeCrossProviderStream req upstreamModel => fun result =>
    crossProviderArgs (p.adapter rt).provider req upstreamModel (nativeCacheModel req result)
      (streamPayload result) result
  | nativeForwardOnce req => fun result =>
    nativeArgs (p.adapter rt).provider req (completionPayload result) result
  | nativeStreamThrough req => fun result =>
    nativeArgs (p.adapter rt).provider req (streamPayload result) result

/-- The client's renderer takes the stream and its end, which come before the capture. -/
def rendered (rt : Runtime) (p : Provider) (r : Response) (result : CanonicalCompletion) :
    Path → Bool
  | nativeCrossProviderStream req _ =>
    let model := Json.str (req.model.getD "")
    let outs := (pushAll (p.adapter rt) (p.adapter rt).translator r.chunks).out
    match req.dialect with
    | .openai => true
    | .anthropic => (anthropicClient rt model outs result).result.isOk
    | .geminiNative => (geminiClient rt model outs result).result.isOk
  | _ => true

/-- The model that the request was sent with. -/
def sentModel : Path → String
  | forwardOnce req | streamThrough req => req.upstream
  | forwardFallback _ fbModel => fbModel
  | nativeCrossProviderOnce _ model | nativeCrossProviderStream _ model => model
  | nativeForwardOnce req | nativeStreamThrough req => req.model.getD ""

/-- The path falls back to the model that it sent. -/
def Remembers : Path → Prop
  | forwardOnce req | streamThrough req => req.upstream = req.model
  | _ => True

instance : DecidablePred Remembers := fun path => by
  cases path <;> unfold Remembers <;> infer_instance

end Path

/-- The usage row of a 200 answer, where the path comes to write one. -/
def usageRow (rt : Runtime) (http : BodyReader) (str : ℚ → String) (lower : Text → Text)
    (prices : Prices) (p : Provider) (path : Path) (r : Response)
    (context : Option RequestContext) (receivedAt : ℚ) : Option UsageEvent :=
  match completion rt http p r path.streams with
  | .error _ => none
  | .ok result =>
    if path.rendered rt p r result then
      match qualityOk rt.loads (path.args rt p result) with
      | .error _ => none
      | .ok quality => (captureUsage (path.args rt p result) quality context).map fun u =>
        recordProxyUsage str lower prices u receivedAt
    else none

/-! ## The runs of the OpenAI paths -/

theorem answered_captures {σ : Type} {adapter : Providers.Adapter σ} {http : BodyReader}
    {r : Response} {capture : CanonicalCompletion → CaptureArgs} {model : Option String} :
    captures (answered adapter http r capture model).1 =
      ((r.json http >>= adapter.parseCompletion).toOption.map capture).toList := by
  rw [answered]
  cases r.json http >>= adapter.parseCompletion <;> rfl

/-- A whole answer of the first-choice model is captured with the arguments of its path. -/
theorem forwardOnce_captures {http : BodyReader} {p : Provider} {cfg : Resilience} {req : Request}
    {net fbNet : Network} {wire : Json} {r : Response} {sent : List Effect}
    (hwire : (p.adapter rt).prepareRequest req.body req.upstream false = .ok wire)
    (hposted : postLoop (send (p.adapter rt) req req.upstream wire) net cfg.retries 0 =
      (sent, some r)) (h200 : r.status = 200) :
    (forwardOnce (p.adapter rt) http cfg req net fbNet).toOption.map (captures ·.1) =
      some ((completion rt http p r false).toOption.map
        ((Path.forwardOnce req).args rt p)).toList := by
  have hsent : captures sent = [] := by
    rw [← postLoop_captures net cfg.retries 0, hposted]
  rw [@WholeAnswers.forwardOnce_answered _ rt _ _ _ _ _ _ _ _ _ hwire hposted h200]
  exact congrArg some ((captures_append _ _).trans (hsent ▸ answered_captures))

theorem forwardFallback_captures {http : BodyReader} {p : Provider} {retries : ℕ} {req : Request}
    {fbModel : String} {net : Network} {wire : Json} {r : Response} {sent : List Effect}
    (hwire : (p.adapter rt).prepareRequest req.body fbModel false = .ok wire)
    (hposted : postLoop (send (p.adapter rt) req fbModel wire) net retries 0 = (sent, some r))
    (h200 : r.status = 200) :
    captures (forwardFallback (p.adapter rt) http retries req fbModel net).1 =
      ((completion rt http p r false).toOption.map
        ((Path.forwardFallback req fbModel).args rt p)).toList := by
  have hsent : captures sent = [] := by
    rw [← postLoop_captures net retries 0, hposted]
  rw [@WholeAnswers.forwardFallback_answered _ rt _ _ _ _ _ _ _ _ _ hwire hposted h200]
  exact (captures_append _ _).trans (hsent ▸ answered_captures)

theorem streamThrough_captured {http : BodyReader} {p : Provider} {retries : ℕ} {req : Request}
    {net : Network} {log : List Effect} {r : Response}
    (h : streamThrough (p.adapter rt) retries req net = .ok log)
    (hr : delivered net retries 0 = some r.chunks) :
    captures log = ((completion rt http p r true).toOption.map
      ((Path.streamThrough req).args rt p)).toList := by
  rw [streamThrough_captures h, hr, completion, if_pos rfl]
  dsimp only
  cases assembled (p.adapter rt) r.chunks <;> rfl

/-! ## The name in the row -/

/-- The row has the provider and the model, and the price of that model there. -/
structure Names (prices : Prices) (p : Provider) (answering : Json) (row : UsageEvent) : Prop where
  provider : row.provider = p.name
  model : .str row.model = answering
  cost : ∀ name, answering = .str name → row.costUsd = some ((priceUsageEvent prices name p.name
    row.inputTokens row.outputTokens row.cachedInputTokens none).costUsd.getD 0)

variable {http : BodyReader} {str : ℚ → String} {lower : Text → Text} {prices : Prices}
  {p : Provider} {path : Path} {r : Response} {context : Option RequestContext} {receivedAt : ℚ}
  {row : UsageEvent}

theorem args_provider (result : CanonicalCompletion) :
    (path.args rt p result).provider = p.name := by
  cases path <;> cases p <;> rfl

theorem args_model (result : CanonicalCompletion) :
    (path.args rt p result).model = result.model.orElse (.str (match path with
      | .forwardOnce req | .streamThrough req => req.model
      | path => path.sentModel)) := by
  cases path <;> rfl

theorem captureUsage_eq {args : CaptureArgs} {quality : Option Bool} {u : ProxyUsage}
    (h : captureUsage args quality context = some u) : .str u.model = args.model ∧
      u.provider = args.provider ∧ u.cacheHit = false := by
  rw [captureUsage] at h
  split at h
  · rename_i hmodel
    obtain rfl := Option.some.inj h
    exact ⟨hmodel.symm, rfl, rfl⟩
  · cases h

theorem missed_cost {u : ProxyUsage} (h : u.cacheHit = false) :
    (costAndBaseMetadata prices u).1 = (u.usedCost prices).getD 0 := by
  rw [costAndBaseMetadata, h]
  cases u.routedFrom <;> rfl

theorem usageRow_eq (h : usageRow rt http str lower prices p path r context receivedAt =
    some row) : ∃ result u, completion rt http p r path.streams = .ok result ∧
      .str u.model = (path.args rt p result).model ∧ u.provider = p.name ∧
      u.cacheHit = false ∧ row = recordProxyUsage str lower prices u receivedAt := by
  rw [usageRow] at h
  split at h
  · cases h
  · rename_i result hresult
    split_ifs at h
    split at h
    · cases h
    · obtain ⟨u, hu, rfl⟩ := Option.map_eq_some_iff.1 h
      obtain ⟨hmodel, hprovider, hmiss⟩ := captureUsage_eq hu
      exact ⟨result, u, hresult, hmodel, hprovider.trans (args_provider result), hmiss, rfl⟩

/-- The row says who answered exactly where the answer has a name or the path remembers which
model it sent. -/
theorem names_answering_iff
    (h : usageRow rt http str lower prices p path r context receivedAt = some row) :
    Names prices p ((answerName rt http p r path.streams).orElse (.str path.sentModel)) row ↔
      (answerName rt http p r path.streams).truthy = true ∨ path.Remembers := by
  obtain ⟨result, u, hresult, hmodel, hprovider, hmiss, rfl⟩ := usageRow_eq h
  rw [args_model, completion_model hresult] at hmodel
  have hnames : ∀ model, Json.str u.model = model →
      Names prices p model (recordProxyUsage str lower prices u receivedAt) := by
    rintro _ rfl
    refine ⟨hprovider, rfl, fun name hname => ?_⟩
    obtain rfl := Json.str.inj hname
    change some (costAndBaseMetadata prices u).1 = _
    rw [missed_cost hmiss, ← hprovider]
    rfl
  cases hname : (answerName rt http p r path.streams).truthy with
  | true =>
    rw [Json.orElse, if_pos hname] at hmodel ⊢
    exact iff_of_true (hnames _ hmodel) (.inl rfl)
  | false =>
    rw [Json.orElse, hname] at hmodel ⊢
    have hempty : ¬(false = true) := Bool.false_ne_true
    rw [if_neg hempty] at hmodel ⊢
    rw [or_iff_right hempty]
    cases path with
    | forwardOnce req | streamThrough req =>
      constructor
      · intro hrow
        exact Json.str.inj (hrow.model.symm.trans hmodel)
      · intro hremembers
        exact hnames _ (hmodel.trans (congrArg Json.str hremembers.symm))
    | _ => exact iff_of_true (hnames _ hmodel) trivial

/-! ## A routed request whose answer has no name -/

def routedRequest : Request :=
  ⟨.obj [("model", .str "gpt-4o")], "gpt-4o", "key", false, some "gpt-4o-mini", some "gpt-4o",
    some "openai", some "treatment", some "gpt-4o", some "gpt-4o-mini", none⟩

def answerBody (name : List (String × Json)) : Json :=
  .obj (name ++ [("choices", .arr [.obj [("message", .obj [("content", .str "OK")])]]),
    ("usage", .obj [("prompt_tokens", .int 1000), ("completion_tokens", .int 100)])])

def reads (body : Json) : BodyReader := ⟨fun _ => some body, fun _ => ""⟩

def listPrices : Prices := fun model provider =>
  if provider ≠ "openai" then none
  else if model = "gpt-4o" then some ⟨25 / 10 ^ 7, 10 / 10 ^ 6, none, "catalog", none⟩
  else if model = "gpt-4o-mini" then some ⟨15 / 10 ^ 8, 6 / 10 ^ 7, none, "catalog", none⟩
  else none

def routedRow (body : Json) : Option UsageEvent :=
  usageRow .blank (reads body) (fun _ => "") id listPrices .openai (.forwardOnce routedRequest)
    ⟨200, [], true⟩ none 0

def routedTo (body : Json) : Json :=
  (answerName .blank (reads body) .openai ⟨200, [], true⟩ false).orElse (.str "gpt-4o-mini")

def namedBody : Json := answerBody [("model", .str "gpt-4o-mini-2024-07-18")]

theorem named_body :
    (answerName .blank (reads namedBody) .openai ⟨200, [], true⟩ false).truthy = true := by
  decide +kernel

theorem named_row : ∃ row, routedRow namedBody = some row ∧
    Names listPrices .openai (routedTo namedBody) row := by
  obtain ⟨row, hrow⟩ : ∃ row, routedRow namedBody = some row := ⟨_, rfl⟩
  exact ⟨row, hrow, (names_answering_iff hrow).2 (.inl named_body)⟩

/-- The request went to the candidate, and its row is one of the incumbent, at its price and as
if nothing was routed. -/
theorem unnamed_row : ∃ row, routedRow (answerBody []) = some row ∧ row.model = "gpt-4o" ∧
    row.costUsd = some (7 / 2000) ∧ Json.item "routed" row.metadata = none ∧
    routedTo (answerBody []) = .str "gpt-4o-mini" ∧
    ¬Names listPrices .openai (routedTo (answerBody [])) row := by
  refine ⟨_, rfl, rfl, by decide +kernel, by decide +kernel, by decide +kernel, fun h => ?_⟩
  exact absurd h.model (by decide +kernel)

end Varsten.Proxy.AnsweringModel
