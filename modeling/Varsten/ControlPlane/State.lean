import Varsten.Engine.RouteIdentity
import Varsten.Machine.Table

/-!
# The control plane of a project

Recommendations with their evals, change requests and policies. A recommendation is its number;
what it says does not change, its status does. `lower` is `str.lower`.
-/

namespace Varsten.ControlPlane

open Engine.RouteIdentity
open Machine (Table)
open Python.Utf8 (Text)

inductive Lever where
  | smartRouting
  | semanticCache
  | tokenTrim
  | modelDownshift
  | batching
  | promptCompression
deriving DecidableEq

/-- `ROUTING_LEVERS`. -/
def Lever.isRouting : Lever → Bool
  | .modelDownshift | .smartRouting => true
  | _ => false

/-- `GATED_LEVERS`, which are `GOVERNED_LEVERS` too. -/
def Lever.isGated (l : Lever) : Bool := l.isRouting || l = .promptCompression

structure Recommendation where
  lever : Option Lever
  targetType : Option String
  targetKey : Option String
  relatedModel : Option String
  relatedFeature : Option String

/-- The recommendations of the project, by number. -/
abbrev Recommendations := ℕ → Option Recommendation

/-- `route_key_from_recommendation(…) or DEFAULT_ROUTE`. -/
def Recommendation.routeKey (lower : Text → Text) (r : Recommendation) : String :=
  let key :=
    if r.targetType = some "feature" then
      let feature := (r.targetKey.filter (· ≠ "")).or r.relatedFeature
      canonicalRouteKey lower ⟨feature, none, none, none⟩
    else if r.targetType = some "route" then
      canonicalRouteKey lower ⟨r.relatedFeature, none, r.targetKey, none⟩
    else canonicalRouteKey lower ⟨r.relatedFeature, none, none, none⟩
  if key = "" then defaultRoute else key

inductive RecommendationStatus where
  | opened
  | applied
  | dismissed
  | rolledBack
deriving DecidableEq

inductive Verdict where
  | safe
  | needsHuman
  | notSafe
  | insufficient
deriving DecidableEq

inductive RunStatus where
  | pending
  | running
  | completed
  | failed
deriving DecidableEq

/-- `createdAt` is the begin of the transaction that made the row. -/
structure PromptCompression where
  id : ℕ
  recommendation : ℕ
  createdAt : ℕ
  originalSystemHash : String
  compressedSystemPrompt : String
deriving DecidableEq

/-- `artifact` is the rewrite that the replays of its last execution substituted. -/
structure EvalRun where
  id : ℕ
  recommendation : ℕ
  createdAt : ℕ
  candidateModel : String
  status : RunStatus
  verdict : Option Verdict
  artifact : Option PromptCompression
deriving DecidableEq

structure Execution where
  run : ℕ
  artifact : Option PromptCompression

inductive ChangeRequestStatus where
  | proposed
  | approved
  | rejected
  | active
  | rolledBack
deriving DecidableEq

structure Evidence where
  run : ℕ
  candidateModel : String
  artifact : Option PromptCompression
deriving DecidableEq

structure ChangeRequest where
  status : ChangeRequestStatus
  evidence : Evidence
  decidedBy : Option ℕ
deriving DecidableEq

structure PolicyKey where
  lever : Lever
  targetKey : String
  routeKey : String
deriving DecidableEq

/-- `driftRolledBack` remembers a rollback by the drift guard until the next activation. -/
structure ProxyPolicy where
  key : PolicyKey
  enabled : Bool
  source : Option ℕ
  candidateModel : Option String
  artifactId : Option ℕ
  driftRolledBack : Bool
deriving DecidableEq

/-- `queued` are the runs that background tasks wait to execute. -/
structure Evals where
  runs : Table EvalRun.id
  queued : List ℕ
  executions : List Execution
  artifacts : Table PromptCompression.id

/-- `artifactCache` is what the proxy has read of artifacts. -/
structure State where
  status : ℕ → RecommendationStatus
  evals : Evals
  changeRequests : ℕ → Option ChangeRequest
  policies : Table ProxyPolicy.key
  artifactCache : ℕ → Option (String × String)

/-- Nothing evaluated, proposed or applied yet. -/
def State.initial : State where
  status := fun _ => .opened
  evals := ⟨Table.empty, [], [], Table.empty⟩
  changeRequests := fun _ => none
  policies := Table.empty
  artifactCache := fun _ => none

def State.setStatus (s : State) (rec : ℕ) (status : RecommendationStatus) : State :=
  { s with status := Function.update s.status rec status }

def State.setEvals (s : State) (evals : Evals) : State := { s with evals }

def State.setChangeRequest (s : State) (rec : ℕ) (cr : ChangeRequest) : State :=
  { s with changeRequests := Function.update s.changeRequests rec (some cr) }

def State.setArtifactCache (s : State) (artifactCache : ℕ → Option (String × String)) : State :=
  { s with artifactCache }

def Evals.latestRun (e : Evals) (rec : ℕ) : Option EvalRun :=
  e.runs.latest (fun r => r.recommendation = rec) EvalRun.createdAt

def Evals.pendingRun (e : Evals) (rec : ℕ) : Option EvalRun :=
  e.runs.latest (fun r => r.recommendation = rec && r.status = .pending) EvalRun.createdAt

def Evals.latestArtifact (e : Evals) (rec : ℕ) : Option PromptCompression :=
  e.artifacts.latest (fun a => a.recommendation = rec) PromptCompression.createdAt

def latestRun (s : State) (rec : ℕ) : Option EvalRun := s.evals.latestRun rec

def artifactForRecommendation (s : State) (rec : ℕ) : Option ℕ :=
  (s.evals.latestArtifact rec).map (·.id)

end Varsten.ControlPlane
