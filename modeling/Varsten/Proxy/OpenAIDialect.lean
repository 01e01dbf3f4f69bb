import Varsten.Proxy.Forward
import Varsten.Proxy.RoutingEligibility
import Varsten.Proxy.Trim
import Varsten.Proxy.Providers.Anthropic
import Varsten.Proxy.Providers.Gemini
import Varsten.Proxy.Providers.OpenAI

/-!
# Chat completions in the OpenAI dialect

The forward path of `_openai_dialect_completions`: the body is parsed, the levers
decide the optimization state, the candidate provider is resolved and the request
goes upstream. The lookups of the levers are what the database and the draws
returned; one that raises stands for any exception of its branch. Cache hits,
budget blocks and an open circuit answer without a send and come before it.
-/

namespace Varsten.Proxy.OpenAIDialect

open Python (Json Py PyError Runtime)
open Python.Utf8 (Bytes)
open Engine.RequestFacts (field wantsJson)
open RoutingEligibility (crossProviderIneligibility)
open Trim (applyTrim applyCompression)
open Providers (Adapter)
open Forward

/-! ## The request -/

structure ParsedClientRequest where
  body : List (String × Json)
  model : String
  stream : Bool

/-- `_body_model(body) or ""`. -/
def bodyModel (body : List (String × Json)) : String :=
  match Json.item "model" body with
  | some (.str model) => model
  | _ => ""

def parseOpenaiCompatible (body : Json) : Py ParsedClientRequest :=
  match body with
  | .obj fields => do
    let _ ← wantsJson fields
    return ⟨fields, bodyModel fields, (field "stream" fields).truthy⟩
  | _ => .error .attributeError

/-! ## Providers -/

inductive Provider where
  | openai
  | anthropic
  | gemini
deriving DecidableEq

def Provider.name : Provider → String
  | .openai => "openai"
  | .anthropic => "anthropic"
  | .gemini => "gemini"

/-- The state of a provider's stream translator. -/
def Provider.State : Provider → Type
  | .openai => Bytes
  | .anthropic => Providers.Anthropic.Translator
  | .gemini => Providers.Gemini.Translator

def Provider.adapter (rt : Runtime) : (p : Provider) → Adapter p.State
  | .openai => Providers.OpenAI.adapter rt.loads
  | .anthropic => Providers.Anthropic.adapter rt
  | .gemini => Providers.Gemini.adapter rt

/-- The chat completion routes: `/v1/chat/completions` and Gemini's compatible ones. -/
inductive Endpoint where
  | chatCompletions
  | geminiCompatible

def proxyDefaultProvider : Provider := .openai

def Endpoint.destination : Endpoint → Provider
  | .chatCompletions => proxyDefaultProvider
  | .geminiCompatible => .gemini

/-- `get_adapter`; `none` is `UnknownProvider`. -/
def getAdapter (provider : String) : Option Provider :=
  [Provider.openai, .anthropic, .gemini].find? fun p => p.name = provider

/-! ## Optimization state -/

inductive Arm where
  | treatment
  | control
deriving DecidableEq

def Arm.name : Arm → String
  | .treatment => "treatment"
  | .control => "control"

/-- A routing decision, whether the planner rejected the lever, and the arm drawn. -/
structure RouteDecision where
  candidateModel : String
  candidateProvider : String
  rejected : Bool
  arm : Arm

structure TrimDecision where
  params : Json
  rejected : Bool
  arm : Arm

/-- `artifact` is the original hash and the rewrite, `none` when it cannot be loaded. -/
structure CompressionDecision where
  hasArtifactId : Bool
  artifact : Option (String × String)
  rejected : Bool
  arm : Arm

structure Lookups where
  route : Py (Option RouteDecision)
  trim : Py (Option TrimDecision)
  compression : Py (Option CompressionDecision)

structure OptimizationState where
  body : List (String × Json)
  upstreamModel : String
  upstreamProvider : String
  routedFrom : Option String
  routedFromProvider : Option String
  arm : Option Arm
  expFrom : Option String
  expTo : Option String
  trimApplied : Bool
  compressionApplied : Bool

def passthroughState (body : List (String × Json)) (model requestedProvider : String) :
    OptimizationState :=
  ⟨body, model, requestedProvider, none, none, none, none, none, false, false⟩

/-- The state of a body transform's arm: the incumbent, whatever was transformed. -/
def transformState (body : List (String × Json)) (model requestedProvider : String) (arm : Arm)
    (trimApplied compressionApplied : Bool) : OptimizationState :=
  ⟨body, model, requestedProvider, none, none, some arm, some model, some model, trimApplied,
    compressionApplied⟩

def transformed (x : Py (Json × Bool)) : Py (List (String × Json) × Bool) := do
  match ← x with
  | (.obj body, applied) => return (body, applied)
  | _ => .error .typeError

def lookup {α : Type} (model : String) (found : Py (Option α)) : Py (Option α) :=
  if model = "" then .ok none else found

section Resolve

variable (sha256 : Bytes → String) (lookups : Lookups) (parsed : ParsedClientRequest)
  (requestedProvider : String)

def resolveCompressionState : Py OptimizationState := do
  let passthrough := passthroughState parsed.body parsed.model requestedProvider
  match ← lookup parsed.model lookups.compression with
  | none => return passthrough
  | some decision =>
    if !decision.hasArtifactId || decision.rejected then return passthrough
    else match decision.arm, decision.artifact with
      | .control, _ =>
        return transformState parsed.body parsed.model requestedProvider .control false false
      | .treatment, none => return passthrough
      | .treatment, some (originalHash, compressedText) =>
        let (body, applied) ← transformed
          (applyCompression sha256 (.obj parsed.body) originalHash compressedText)
        return transformState body parsed.model requestedProvider .treatment false applied

def resolveTrimState : Py OptimizationState := do
  match ← lookup parsed.model lookups.trim with
  | none => resolveCompressionState sha256 lookups parsed requestedProvider
  | some decision =>
    if decision.rejected then
      return passthroughState parsed.body parsed.model requestedProvider
    else match decision.arm with
      | .control =>
        return transformState parsed.body parsed.model requestedProvider .control false false
      | .treatment =>
        let (body, applied) ← transformed (applyTrim (.obj parsed.body) decision.params)
        return transformState body parsed.model requestedProvider .treatment applied false

def hasCrossProviderRoute (decision : RouteDecision) (model requestedProvider : String) : Bool :=
  decision.candidateModel ≠ "" &&
    (decision.candidateModel ≠ model || decision.candidateProvider ≠ requestedProvider)

def routeArmState (decision : RouteDecision) : OptimizationState :=
  match decision.arm with
  | .treatment => ⟨parsed.body, decision.candidateModel, decision.candidateProvider,
      some parsed.model, some requestedProvider, some .treatment, some parsed.model,
      some decision.candidateModel, false, false⟩
  | .control => ⟨parsed.body, parsed.model, requestedProvider, none, none, some .control,
      some parsed.model, some decision.candidateModel, false, false⟩

def resolveRouteState (decision : RouteDecision) : Py OptimizationState := do
  let ineligibility ← crossProviderIneligibility parsed.body requestedProvider
    decision.candidateProvider
  if ineligibility.isSome || decision.rejected then
    return passthroughState parsed.body parsed.model requestedProvider
  else return routeArmState parsed requestedProvider decision

/-- A request joins at most one lever: routing first, then trim, then compression. -/
def resolveOptimizations (bypass : Bool) : Py OptimizationState := do
  if bypass then return passthroughState parsed.body parsed.model requestedProvider
  else match ← lookup parsed.model lookups.route with
    | some decision =>
      if hasCrossProviderRoute decision parsed.model requestedProvider then
        resolveRouteState parsed requestedProvider decision
      else resolveTrimState sha256 lookups parsed requestedProvider
    | none => resolveTrimState sha256 lookups parsed requestedProvider

/-- An exception in the resolution costs the optimization, never the request. -/
def resolveFailOpen (bypass : Bool) : OptimizationState :=
  match resolveOptimizations sha256 lookups parsed requestedProvider bypass with
  | .ok opt => opt
  | .error _ => passthroughState parsed.body parsed.model requestedProvider

end Resolve

/-- `_resolve_openai_candidate_provider`: the provider the state names, or the incumbent when it
has no key. -/
def resolveCandidateProvider (incumbent : Provider) (hasKey : Provider → Bool)
    (opt : OptimizationState) : Py (Provider × OptimizationState) :=
  if opt.upstreamProvider = incumbent.name then .ok (incumbent, opt)
  else match getAdapter opt.upstreamProvider with
    | none => .error .keyError
    | some candidate =>
      if hasKey candidate then .ok (candidate, opt)
      else
        let incumbentModel := match opt.routedFrom with
          | some model => if model = "" then opt.upstreamModel else model
          | none => opt.upstreamModel
        .ok (incumbent, ⟨opt.body, incumbentModel, incumbent.name, none, none, none,
          none, none, opt.trimApplied, false⟩)

/-! ## Forwarding -/

/-- The client's key goes upstream only when the request is forwarded unchanged. -/
def forwardIdem (header : Option String) (opt : OptimizationState) : Option String :=
  if opt.routedFrom = none ∧ !opt.trimApplied ∧ !opt.compressionApplied then header else none

/-- The request as its endpoint received it. -/
structure Incoming where
  endpoint : Endpoint
  body : Json
  idempotencyKey : Option String
  optimizeEnabled : Bool
  storeCache : Bool
  cacheKey : String

/-- What the process and the world supply. -/
structure World where
  rt : Runtime
  sha256 : Bytes → String
  http : BodyReader
  cfg : Resilience
  hasKey : Provider → Bool
  lookups : Lookups
  net : Network
  fbNet : Network

def forwardRequest (inc : Incoming) (parsed : ParsedClientRequest) (opt : OptimizationState) :
    Request where
  body := .obj opt.body
  model := parsed.model
  cacheKey := inc.cacheKey
  storeCache := inc.optimizeEnabled && inc.storeCache
  upstreamModel := some opt.upstreamModel
  routedFrom := opt.routedFrom
  routedFromProvider := opt.routedFromProvider
  arm := opt.arm.map Arm.name
  expFrom := opt.expFrom
  expTo := opt.expTo
  idempotencyKey := forwardIdem inc.idempotencyKey opt

/-- A request on its way upstream. -/
structure Resolved where
  parsed : ParsedClientRequest
  upstream : Provider
  opt : OptimizationState

def resolveRequest (w : World) (inc : Incoming) : Py Resolved := do
  let parsed ← parseOpenaiCompatible inc.body
  let opt := resolveFailOpen w.sha256 w.lookups parsed inc.endpoint.destination.name
    (!inc.optimizeEnabled)
  let (upstream, opt) ← resolveCandidateProvider inc.endpoint.destination w.hasKey opt
  return ⟨parsed, upstream, opt⟩

def forwardResolved (w : World) (inc : Incoming) (r : Resolved) : Py (List Effect) :=
  let req := forwardRequest inc r.parsed r.opt
  let adapter := r.upstream.adapter w.rt
  if r.parsed.stream then streamThrough adapter w.cfg.retries req w.net
  else return (← forwardOnce adapter w.http w.cfg req w.net w.fbNet).1

def completions (w : World) (inc : Incoming) : Py (List Effect) := do
  forwardResolved w inc (← resolveRequest w inc)

/-! ## What a resolved state says about its body -/

def Unchanged (opt : OptimizationState) : Prop :=
  opt.routedFrom = none ∧ opt.trimApplied = false ∧ opt.compressionApplied = false

structure Consistent (parsed : ParsedClientRequest) (requestedProvider : String)
    (opt : OptimizationState) : Prop where
  incumbent : opt.routedFrom = none →
    opt.upstreamModel = parsed.model ∧ opt.upstreamProvider = requestedProvider
  untouched : opt.trimApplied = false → opt.compressionApplied = false → opt.body = parsed.body
  routed : ∀ m, opt.routedFrom = some m →
    m = parsed.model ∧ m ≠ "" ∧ opt.trimApplied = false ∧ opt.compressionApplied = false

section Consistency

variable {sha256 : Bytes → String} {lookups : Lookups} {parsed : ParsedClientRequest}
  {requestedProvider : String} {opt : OptimizationState}

theorem passthrough_consistent :
    Consistent parsed requestedProvider
      (passthroughState parsed.body parsed.model requestedProvider) :=
  ⟨fun _ => ⟨rfl, rfl⟩, fun _ _ => rfl, fun _ h => by cases h⟩

theorem transform_consistent {body : List (String × Json)} {arm : Arm} {trim compression : Bool}
    (h : trim = false → compression = false → body = parsed.body) :
    Consistent parsed requestedProvider
      (transformState body parsed.model requestedProvider arm trim compression) :=
  ⟨fun _ => ⟨rfl, rfl⟩, h, fun _ h => by cases h⟩

theorem routeArm_consistent {decision : RouteDecision} (hm : parsed.model ≠ "") :
    Consistent parsed requestedProvider (routeArmState parsed requestedProvider decision) := by
  unfold routeArmState
  cases decision.arm with
  | treatment =>
    refine ⟨fun h => absurd h (Option.some_ne_none _), fun _ _ => rfl, fun m h => ?_⟩
    obtain rfl := Option.some.inj h
    exact ⟨rfl, hm, rfl, rfl⟩
  | control => exact ⟨fun _ => ⟨rfl, rfl⟩, fun _ _ => rfl, fun _ h => by cases h⟩

theorem transformed_eq_ok {x : Py (Json × Bool)} {body : List (String × Json)} {applied : Bool}
    (h : transformed x = .ok (body, applied)) : x = .ok (.obj body, applied) := by
  obtain ⟨⟨out, a⟩, rfl, h⟩ := Python.Py.bind_eq_ok.1 h
  cases out with
  | obj fields =>
    obtain ⟨rfl, rfl⟩ := Prod.mk.inj (Except.ok.inj h)
    rfl
  | _ => cases h

theorem lookup_some {α : Type} {model : String} {found : Py (Option α)} {a : α}
    (h : lookup model found = .ok (some a)) : model ≠ "" := by
  intro hm
  rw [lookup, if_pos hm] at h
  cases Except.ok.inj h

theorem resolveCompressionState_consistent
    (h : resolveCompressionState sha256 lookups parsed requestedProvider = .ok opt) :
    Consistent parsed requestedProvider opt := by
  obtain ⟨decision, -, h⟩ := Python.Py.bind_eq_ok.1 h
  cases decision with
  | none =>
    obtain rfl := Except.ok.inj h
    exact passthrough_consistent
  | some decision =>
    dsimp only at h
    split_ifs at h
    · obtain rfl := Except.ok.inj h
      exact passthrough_consistent
    · split at h
      · obtain rfl := Except.ok.inj h
        exact transform_consistent fun _ _ => rfl
      · obtain rfl := Except.ok.inj h
        exact passthrough_consistent
      · obtain ⟨⟨body, applied⟩, hc, h⟩ := Python.Py.bind_eq_ok.1 h
        obtain rfl := Except.ok.inj h
        refine transform_consistent fun _ ha => ?_
        obtain rfl : applied = false := ha
        exact Json.obj.inj (Trim.applyCompression_unchanged (transformed_eq_ok hc))

theorem resolveTrimState_consistent
    (h : resolveTrimState sha256 lookups parsed requestedProvider = .ok opt) :
    Consistent parsed requestedProvider opt := by
  obtain ⟨decision, -, h⟩ := Python.Py.bind_eq_ok.1 h
  cases decision with
  | none => exact resolveCompressionState_consistent h
  | some decision =>
    dsimp only at h
    split_ifs at h
    · obtain rfl := Except.ok.inj h
      exact passthrough_consistent
    · split at h
      · obtain rfl := Except.ok.inj h
        exact transform_consistent fun _ _ => rfl
      · obtain ⟨⟨body, applied⟩, hc, h⟩ := Python.Py.bind_eq_ok.1 h
        obtain rfl := Except.ok.inj h
        refine transform_consistent fun ha _ => ?_
        obtain rfl : applied = false := ha
        exact Json.obj.inj (Trim.applyTrim_unchanged (transformed_eq_ok hc))

theorem resolveRouteState_consistent {decision : RouteDecision} (hm : parsed.model ≠ "")
    (h : resolveRouteState parsed requestedProvider decision = .ok opt) :
    Consistent parsed requestedProvider opt := by
  obtain ⟨ineligibility, -, h⟩ := Python.Py.bind_eq_ok.1 h
  split_ifs at h
  · obtain rfl := Except.ok.inj h
    exact passthrough_consistent
  · obtain rfl := Except.ok.inj h
    exact routeArm_consistent hm

theorem resolveOptimizations_consistent {bypass : Bool}
    (h : resolveOptimizations sha256 lookups parsed requestedProvider bypass = .ok opt) :
    Consistent parsed requestedProvider opt := by
  unfold resolveOptimizations at h
  split_ifs at h
  · obtain rfl := Except.ok.inj h
    exact passthrough_consistent
  · obtain ⟨decision, hd, h⟩ := Python.Py.bind_eq_ok.1 h
    cases decision with
    | none => exact resolveTrimState_consistent h
    | some decision =>
      dsimp only at h
      split_ifs at h
      · exact resolveRouteState_consistent (lookup_some hd) h
      · exact resolveTrimState_consistent h

theorem resolveFailOpen_consistent (bypass : Bool) :
    Consistent parsed requestedProvider
      (resolveFailOpen sha256 lookups parsed requestedProvider bypass) := by
  unfold resolveFailOpen
  cases h : resolveOptimizations sha256 lookups parsed requestedProvider bypass with
  | ok opt => exact resolveOptimizations_consistent h
  | error e => exact passthrough_consistent

theorem resolveCandidateProvider_unchanged {incumbent upstream : Provider}
    {hasKey : Provider → Bool} {out : OptimizationState}
    (hc : Consistent parsed incumbent.name opt)
    (h : resolveCandidateProvider incumbent hasKey opt = .ok (upstream, out))
    (hu : Unchanged out) :
    upstream = incumbent ∧ out.body = parsed.body ∧ out.upstreamModel = parsed.model := by
  unfold resolveCandidateProvider at h
  split_ifs at h with hp
  · obtain ⟨rfl, rfl⟩ := Prod.mk.inj (Except.ok.inj h)
    exact ⟨rfl, hc.untouched hu.2.1 hu.2.2, (hc.incumbent hu.1).1⟩
  · cases ha : getAdapter opt.upstreamProvider with
    | none =>
      rw [ha] at h
      cases h
    | some candidate =>
      rw [ha] at h
      dsimp only at h
      split_ifs at h
      · obtain ⟨rfl, rfl⟩ := Prod.mk.inj (Except.ok.inj h)
        exact absurd (hc.incumbent hu.1).2 hp
      · obtain ⟨rfl, rfl⟩ := Prod.mk.inj (Except.ok.inj h)
        cases hr : opt.routedFrom with
        | none => exact absurd (hc.incumbent hr).2 hp
        | some m =>
          obtain ⟨rfl, hm, ht, hx⟩ := hc.routed m hr
          exact ⟨rfl, hc.untouched ht hx, by simp [hm]⟩

theorem resolveRequest_unchanged {w : World} {inc : Incoming} {r : Resolved}
    (h : resolveRequest w inc = .ok r) (hu : Unchanged r.opt) :
    r.upstream = inc.endpoint.destination ∧ r.opt.body = r.parsed.body ∧
      r.opt.upstreamModel = r.parsed.model := by
  obtain ⟨parsed, -, h⟩ := Python.Py.bind_eq_ok.1 h
  obtain ⟨⟨upstream, out⟩, hc, h⟩ := Python.Py.bind_eq_ok.1 h
  obtain rfl := Except.ok.inj h
  exact resolveCandidateProvider_unchanged (resolveFailOpen_consistent _) hc hu

theorem resolveRequest_parsed {w : World} {inc : Incoming} {r : Resolved}
    (h : resolveRequest w inc = .ok r) :
    inc.body = .obj r.parsed.body ∧ r.parsed.model = bodyModel r.parsed.body ∧
      r.parsed.stream = (field "stream" r.parsed.body).truthy := by
  obtain ⟨parsed, hp, h⟩ := Python.Py.bind_eq_ok.1 h
  obtain ⟨⟨upstream, out⟩, -, h⟩ := Python.Py.bind_eq_ok.1 h
  obtain rfl := Except.ok.inj h
  unfold parseOpenaiCompatible at hp
  split at hp
  · rename_i fields hb
    obtain ⟨-, -, hp⟩ := Python.Py.bind_eq_ok.1 hp
    obtain rfl := Except.ok.inj hp
    exact ⟨hb, rfl, rfl⟩
  · cases hp

end Consistency

end Varsten.Proxy.OpenAIDialect
