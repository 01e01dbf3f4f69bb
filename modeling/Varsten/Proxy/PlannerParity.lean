import Varsten.Engine.Planner
import Varsten.Proxy.Origins
import Varsten.Proxy.Resolution
import Varsten.Proxy.WholeAnswers

/-!
# Planner parity

The lever that a recorded decision is taken to have applied, reconstructed from the arm and the
flags, and the trace that holds it against the attached plan. The flags of the draft are those of
the state the request was resolved to.
-/

namespace Varsten.Proxy.PlannerParity

open Python (Json Py)
open Python.Utf8 (Bytes Text)
open Engine.Planner
open Forward OpenAIDialect
open Providers (Adapter CanonicalCompletion)
open Resolution (Other controlState treatmentState)
open Trim (applyTrim applyCompression)

abbrev Fields := List (String × Json)

/-! ## The trace -/

inductive CacheStatus where
  | hit
  | semantic
  | miss
deriving DecidableEq

def appliedLever (cacheStatus : CacheStatus) (arm : Option String)
    (trimApplied routed compressionApplied : Bool) : Option PlannerLever :=
  if cacheStatus = .hit then some .exactCache
  else if cacheStatus = .semantic then some .semanticCache
  else if routed then some .modelRouting
  else if trimApplied then some .tokenTrim
  else if compressionApplied then some .promptCompression
  else if arm = some "treatment" then some .modelRouting
  else none

inductive ParityAction where
  | matched
  | mismatch
deriving DecidableEq

structure ParityTrace where
  lever : String
  action : ParityAction
  reasonCode : String
  plannerSelected : Option PlannerLever
  applied : Option PlannerLever

def statusValue : CandidateStatus → String
  | .eligible => "eligible"
  | .recommendable => "recommendable"
  | .rejected => "rejected"
  | .shadowOnly => "shadow_only"
  | .unavailable => "unavailable"

def candidateFor (plan : OptimizationPlan) (lever : PlannerLever) : Option CandidateOptimization :=
  plan.candidates.find? (·.lever = lever)

def blocked (status : CandidateStatus) : Bool := status = .rejected ∨ status = .unavailable

def appliedTrace (plan : OptimizationPlan) (lever : PlannerLever) : ParityTrace :=
  let trace (action : ParityAction) (reason : String) : ParityTrace :=
    ⟨lever.name, action, reason, plan.selected.action, some lever⟩
  match candidateFor plan lever with
  | none => trace .mismatch "no_candidate"
  | some x =>
    if blocked x.status then trace .mismatch ("applied_" ++ statusValue x.status)
    else trace .matched (statusValue x.status)

def parityTrace (plan : OptimizationPlan) : Option PlannerLever → ParityTrace
  | none => ⟨"none", .matched, "passthrough", plan.selected.action, none⟩
  | some lever => appliedTrace plan lever

/-- `add_planner_parity_trace`; `none` is no trace. -/
def addPlannerParityTrace (plan : Option OptimizationPlan) (bypassed : Bool)
    (cacheStatus : CacheStatus) (arm : Option String)
    (trimApplied routed compressionApplied : Bool) : Option ParityTrace :=
  if bypassed then none
  else plan.map (parityTrace · (appliedLever cacheStatus arm trimApplied routed compressionApplied))

/-! ## Recorded decisions -/

/-- A decision that is recorded: of a cache hit, or of a captured answer. -/
inductive Decision where
  | hit (semantic : Bool)
  | miss (r : Resolved) (args : CaptureArgs)

/-- The decisions of a request: any cache outcome, and any answer that is captured. -/
inductive Records (w : World) (inc : Incoming) : Decision → Prop where
  | hit (semantic : Bool) : Records w inc (.hit semantic)
  | miss {r : Resolved} {log : List Effect} {args : CaptureArgs}
      (resolved : resolveRequest w inc = .ok r) (forwarded : forwardResolved w inc r = .ok log)
      (captured : args ∈ captures log) : Records w inc (.miss r args)

/-- The parity that `record_request_decision` traces. -/
def recordParity (plan : Option OptimizationPlan) (bypassed : Bool) : Decision → Option ParityTrace
  | .hit semantic => addPlannerParityTrace plan bypassed (if semantic then .semantic else .hit) none
      false false false
  | .miss r args => addPlannerParityTrace plan bypassed .miss args.arm r.opt.trimApplied
      args.routedFrom.isSome r.opt.compressionApplied

/-! ## What was changed -/

def transformLever (lookups : Lookups) (model : String) : PlannerLever :=
  match lookup model lookups.trim with
  | .ok (some _) => .tokenTrim
  | _ => .promptCompression

/-- An answer was asked of another provider, or of another model. The degradation model is no
lever's. -/
def rerouted (inc : Incoming) (r : Resolved) (args : CaptureArgs) : Prop :=
  args.provider ≠ inc.endpoint.destination.name ∨
    args.fallbackUsed = false ∧ (forwardRequest inc r.parsed r.opt).upstream ≠ r.parsed.model

instance (inc : Incoming) (r : Resolved) (args : CaptureArgs) : Decidable (rerouted inc r args) :=
  inferInstanceAs (Decidable (_ ∨ _))

/-- The lever that changed what was served. -/
def changedBy (w : World) (inc : Incoming) : Decision → Option PlannerLever
  | .hit semantic => some (if semantic then .semanticCache else .exactCache)
  | .miss r args =>
    if rerouted inc r args then some .modelRouting
    else if args.body ≠ .obj r.parsed.body then some (transformLever w.lookups r.parsed.model)
    else none

/-- The alarm is raised for a changed answer whose lever the plan blocks, and names that lever. -/
structure Exact (plan : OptimizationPlan) (trace : ParityTrace) (changed : Option PlannerLever) :
    Prop where
  alarm : trace.action = .mismatch ↔ ∃ lever, changed = some lever ∧
    ∃ x ∈ plan.candidates, x.lever = lever ∧ (x.status = .rejected ∨ x.status = .unavailable)
  named : trace.lever = changed.elim "none" PlannerLever.name

theorem PlannerLever.name_inj {a b : PlannerLever} (h : a.name = b.name) : a = b := by
  revert h
  cases a <;> cases b <;> decide

theorem PlannerLever.name_ne_none (a : PlannerLever) : a.name ≠ "none" := by
  cases a <;> decide

section Plan

variable (lower : Text → Text) (i : PlannerInput)

theorem exists_candidateFor (lever : PlannerLever) : ∃ x,
    candidateFor (buildOptimizationPlan lower i) lever = some x ∧
      ∀ y ∈ (buildOptimizationPlan lower i).candidates, y.lever = lever ↔ y = x := by
  refine ⟨withOutcomePrior (candidate i (classifyRequest lower i.facts i.context) lever) i,
    ?_, fun y hy => ?_⟩
  · rw [candidateFor, candidates_eq]
    cases lever <;> simp [selectionPriority]
  · rw [candidates_eq] at hy
    obtain ⟨l, -, rfl⟩ := List.mem_map.1 hy
    rw [withOutcomePrior_lever, candidate_lever]
    constructor
    · rintro rfl
      rfl
    · intro h
      have hl := congrArg CandidateOptimization.lever h
      rwa [withOutcomePrior_lever, withOutcomePrior_lever, candidate_lever, candidate_lever] at hl

theorem parityTrace_lever (plan : OptimizationPlan) (applied : Option PlannerLever) :
    (parityTrace plan applied).lever = applied.elim "none" PlannerLever.name := by
  cases applied with
  | none => rfl
  | some lever =>
    rw [parityTrace, appliedTrace]
    cases candidateFor plan lever with
    | none => rfl
    | some x =>
      dsimp only
      split_ifs <;> rfl

theorem parityTrace_mismatch (applied : Option PlannerLever) :
    (parityTrace (buildOptimizationPlan lower i) applied).action = .mismatch ↔
      ∃ lever, applied = some lever ∧ ∃ x ∈ (buildOptimizationPlan lower i).candidates,
        x.lever = lever ∧ (x.status = .rejected ∨ x.status = .unavailable) := by
  cases applied with
  | none => simp [parityTrace]
  | some lever =>
    obtain ⟨x, hx, hone⟩ := exists_candidateFor lower i lever
    have hmem := List.mem_of_find?_eq_some hx
    have hlever := (hone x hmem).2 rfl
    have haction : (parityTrace (buildOptimizationPlan lower i) (some lever)).action = .mismatch ↔
        blocked x.status = true := by
      rw [parityTrace, appliedTrace, hx]
      dsimp only
      split_ifs with hb <;> simp [hb]
    rw [haction, blocked, decide_eq_true_iff]
    constructor
    · exact fun hb => ⟨lever, rfl, x, hmem, hlever, hb⟩
    · rintro ⟨l, heq, y, hy, hl, hb⟩
      obtain rfl := Option.some.inj heq
      rwa [(hone y hy).1 hl] at hb

/-- The trace is exact where the lever that it takes as applied is the one that changed the
answer. -/
theorem exact_iff (applied changed : Option PlannerLever) :
    Exact (buildOptimizationPlan lower i) (parityTrace (buildOptimizationPlan lower i) applied)
      changed ↔ applied = changed := by
  constructor
  · intro h
    have hname := h.named
    rw [parityTrace_lever] at hname
    cases applied with
    | none =>
      cases changed with
      | none => rfl
      | some b => exact absurd hname.symm (PlannerLever.name_ne_none b)
    | some a =>
      cases changed with
      | none => exact absurd hname (PlannerLever.name_ne_none a)
      | some b => exact congrArg some (PlannerLever.name_inj hname)
  · rintro rfl
    exact ⟨parityTrace_mismatch lower i applied, parityTrace_lever _ applied⟩

end Plan

/-! ## What is captured -/

section Captures

variable {σ : Type} {adapter : Adapter σ} {http : BodyReader} {req : Request}
  {args : CaptureArgs}

theorem answered_captured {r : Response} {capture : CanonicalCompletion → CaptureArgs}
    {fbModel : Option String} (h : args ∈ captures (answered adapter http r capture fbModel).1) :
    ∃ result, args = capture result := by
  unfold answered at h
  split at h
  · exact ⟨_, List.mem_singleton.1 h⟩
  · exact absurd h List.not_mem_nil

/-- The degradation model's answer. -/
def Degraded (adapter : Adapter σ) (req : Request) (args : CaptureArgs) : Prop :=
  ∃ fbModel result, args = fallbackArgs adapter req fbModel result

theorem forwardFallback_captured {retries : ℕ} {fbModel : String} {net : Network}
    (h : args ∈ captures (forwardFallback adapter http retries req fbModel net).1) :
    Degraded adapter req args := by
  unfold forwardFallback at h
  cases hw : adapter.prepareRequest req.body fbModel false with
  | error e =>
    rw [hw] at h
    exact absurd h List.not_mem_nil
  | ok wire =>
    rw [hw] at h
    dsimp only at h
    split at h
    · split_ifs at h
      · rw [captures_append, postLoop_captures, List.nil_append] at h
        obtain ⟨result, rfl⟩ := answered_captured h
        exact ⟨fbModel, result, rfl⟩
      · rw [postLoop_captures] at h
        exact absurd h List.not_mem_nil
    · rw [postLoop_captures] at h
      exact absurd h List.not_mem_nil

theorem forwardFailed_captured {cfg : Resilience} {fbNet : Network}
    {posted : List Effect × Option Response} (hposted : captures posted.1 = [])
    (h : args ∈ captures (forwardFailed adapter http cfg req fbNet posted).1) :
    Degraded adapter req args := by
  unfold forwardFailed at h
  dsimp only at h
  split at h
  · rw [captures_append, hposted] at h
    exact absurd h List.not_mem_nil
  · rw [captures_append, hposted] at h
    exact forwardFallback_captured h

theorem forwardOnce_captured {cfg : Resilience} {net fbNet : Network} {log : List Effect}
    {reply : Reply} (h : forwardOnce adapter http cfg req net fbNet = .ok (log, reply))
    (ha : args ∈ captures log) :
    (∃ result, args = onceArgs adapter req result) ∨ Degraded adapter req args := by
  obtain ⟨wire, -, h⟩ := Python.Py.bind_eq_ok.1 h
  have hpost : captures (postLoop (send adapter req req.upstream wire) net cfg.retries 0).1 = [] :=
    postLoop_captures _ _ _
  have hfailed : log = (forwardFailed adapter http cfg req fbNet
      (postLoop (send adapter req req.upstream wire) net cfg.retries 0)).1 →
        Degraded adapter req args := by
    rintro rfl
    exact forwardFailed_captured hpost ha
  dsimp only at h
  split at h
  · split_ifs at h
    · obtain ⟨rfl, -⟩ := Prod.mk.inj (Except.ok.inj h)
      rw [captures_append, hpost, List.nil_append] at ha
      obtain ⟨result, rfl⟩ := answered_captured ha
      exact .inl ⟨result, rfl⟩
    · obtain ⟨rfl, -⟩ := Prod.mk.inj (Except.ok.inj h)
      rw [captures_append, hpost] at ha
      exact absurd ha List.not_mem_nil
    · exact .inr (hfailed (congrArg Prod.fst (Except.ok.inj h)).symm)
  · exact .inr (hfailed (congrArg Prod.fst (Except.ok.inj h)).symm)

theorem streamThrough_captured {retries : ℕ} {net : Network} {log : List Effect}
    (h : streamThrough adapter retries req net = .ok log) (ha : args ∈ captures log) :
    ∃ result, args = streamCaptureArgs adapter.provider req result := by
  rw [streamThrough_captures h] at ha
  split at ha
  · exact absurd ha List.not_mem_nil
  · split at ha
    · exact ⟨_, List.mem_singleton.1 ha⟩
    · exact absurd ha List.not_mem_nil

end Captures

structure PassedOn (provider : String) (req : Request) (args : CaptureArgs) : Prop where
  provider : args.provider = provider
  body : args.body = req.body
  primary : args.fallbackUsed = false → args.arm = req.arm ∧ args.routedFrom = req.routedFrom
  degraded : args.fallbackUsed = true → args.arm = none ∧ args.routedFrom = none

theorem adapter_provider (rt : Python.Runtime) (p : Provider) :
    (p.adapter rt).provider = p.name := by
  cases p <;> rfl

theorem forwardResolved_captured {w : World} {inc : Incoming} {r : Resolved} {log : List Effect}
    {args : CaptureArgs} (h : forwardResolved w inc r = .ok log) (ha : args ∈ captures log) :
    PassedOn r.upstream.name (forwardRequest inc r.parsed r.opt) args := by
  have hname := adapter_provider w.rt r.upstream
  unfold forwardResolved at h
  dsimp only at h
  split_ifs at h
  · obtain ⟨result, rfl⟩ := streamThrough_captured h ha
    exact ⟨hname, rfl, fun _ => ⟨rfl, rfl⟩, fun hf => by cases hf⟩
  · obtain ⟨⟨log', reply⟩, hrun, hlog⟩ := Python.Py.bind_eq_ok.1 h
    obtain rfl := Except.ok.inj hlog
    obtain ⟨result, rfl⟩ | ⟨fbModel, result, rfl⟩ := forwardOnce_captured hrun ha
    · exact ⟨hname, rfl, fun _ => ⟨rfl, rfl⟩, fun hf => by cases hf⟩
    · exact ⟨hname, rfl, fun hf => (by cases hf), fun _ => ⟨rfl, rfl⟩⟩

/-! ## The treatments -/

section Joined

variable (sha256 : Bytes → String) (lookups : Lookups) (parsed : ParsedClientRequest)
  (requestedProvider : String)

def compressionTreatment : Option (PlannerLever × Py (Fields × Bool)) :=
  match lookup parsed.model lookups.compression with
  | .ok (some d) =>
    if d.hasArtifactId = false ∨ d.rejected = true ∨ d.arm = .control then none
    else d.artifact.map fun a => (.promptCompression,
      transformed (applyCompression sha256 (.obj parsed.body) a.1 a.2))
  | _ => none

/-- What the treatment arm of the transform whose turn it is makes of the body. -/
def transformTreatment : Option (PlannerLever × Py (Fields × Bool)) :=
  match lookup parsed.model lookups.trim with
  | .ok (some d) =>
    if d.rejected = true ∨ d.arm = .control then none
    else some (.tokenTrim, transformed (applyTrim (.obj parsed.body) d.params))
  | .ok none => compressionTreatment sha256 lookups parsed
  | .error _ => none

/-- The body transform that a request is treated with, where no route takes it. -/
def treatment (bypass : Bool) : Option (PlannerLever × Py (Fields × Bool)) :=
  if bypass then none
  else match lookup parsed.model lookups.route with
    | .ok (some d) =>
      if hasCrossProviderRoute d parsed.model requestedProvider then none
      else transformTreatment sha256 lookups parsed
    | .ok none => transformTreatment sha256 lookups parsed
    | .error _ => none

end Joined

inductive Treated (lookups : Lookups) (parsed : ParsedClientRequest) (requestedProvider : String) :
    Option (PlannerLever × Py (Fields × Bool)) → OptimizationState → Prop where
  | passthrough {t : Option (PlannerLever × Py (Fields × Bool))}
      (none : ∀ lever out, t ≠ some (lever, .ok out)) :
      Treated lookups parsed requestedProvider t
        (passthroughState parsed.body parsed.model requestedProvider)
  | held : Treated lookups parsed requestedProvider none
      (transformState parsed.body parsed.model requestedProvider .control false false)
  | control {candidateModel : String} : Treated lookups parsed requestedProvider none
      (controlState parsed requestedProvider candidateModel)
  | routed {candidateModel candidateProvider : String} (named : parsed.model ≠ "")
      (other : Other candidateModel candidateProvider parsed.model requestedProvider) :
      Treated lookups parsed requestedProvider none
        (treatmentState parsed requestedProvider candidateModel candidateProvider)
  | trimmed {body : Fields} {applied : Bool}
      (lever : transformLever lookups parsed.model = .tokenTrim)
      (same : applied = false → body = parsed.body) :
      Treated lookups parsed requestedProvider (some (.tokenTrim, .ok (body, applied)))
        (transformState body parsed.model requestedProvider .treatment applied false)
  | compressed {body : Fields} {applied : Bool}
      (lever : transformLever lookups parsed.model = .promptCompression)
      (same : applied = false → body = parsed.body) :
      Treated lookups parsed requestedProvider (some (.promptCompression, .ok (body, applied)))
        (transformState body parsed.model requestedProvider .treatment false applied)

section Resolve

variable {sha256 : Bytes → String} {lookups : Lookups} {parsed : ParsedClientRequest}
  {requestedProvider : String}

def failOpen (parsed : ParsedClientRequest) (requestedProvider : String)
    (x : Py OptimizationState) : OptimizationState :=
  match x with
  | .ok opt => opt
  | .error _ => passthroughState parsed.body parsed.model requestedProvider

theorem resolveCompressionState_treated
    (hlever : transformLever lookups parsed.model = .promptCompression) :
    Treated lookups parsed requestedProvider (compressionTreatment sha256 lookups parsed)
      (failOpen parsed requestedProvider
        (resolveCompressionState sha256 lookups parsed requestedProvider)) := by
  unfold compressionTreatment resolveCompressionState
  cases lookup parsed.model lookups.compression with
  | error e => exact .passthrough (by simp)
  | ok decision =>
    rw [Python.Py.bind_ok]
    cases decision with
    | none => exact .passthrough (by simp)
    | some d =>
      obtain ⟨hasId, artifact, rejected, arm⟩ := d
      cases hasId <;> cases rejected <;> try exact .passthrough (by simp)
      cases arm with
      | control => exact .held
      | treatment =>
        cases artifact with
        | none => exact .passthrough (by simp)
        | some a =>
          obtain ⟨original, text⟩ := a
          dsimp only
          cases ht : transformed (applyCompression sha256 (.obj parsed.body) original text) with
          | error e => exact .passthrough (by simp [ht])
          | ok out =>
            obtain ⟨body, applied⟩ := out
            have hsame : applied = false → body = parsed.body := by
              rintro rfl
              exact Json.obj.inj (Trim.applyCompression_unchanged (transformed_eq_ok ht))
            simpa [failOpen, ht] using Treated.compressed hlever hsame

theorem resolveTrimState_treated :
    Treated lookups parsed requestedProvider (transformTreatment sha256 lookups parsed)
      (failOpen parsed requestedProvider
        (resolveTrimState sha256 lookups parsed requestedProvider)) := by
  unfold transformTreatment resolveTrimState
  cases hl : lookup parsed.model lookups.trim with
  | error e => exact .passthrough (by simp)
  | ok decision =>
    rw [Python.Py.bind_ok]
    cases decision with
    | none => exact resolveCompressionState_treated (by simp [transformLever, hl])
    | some d =>
      obtain ⟨params, rejected, arm⟩ := d
      cases rejected with
      | true => exact .passthrough (by simp)
      | false =>
        cases arm with
        | control => exact .held
        | treatment =>
          dsimp only
          cases ht : transformed (applyTrim (.obj parsed.body) params) with
          | error e => exact .passthrough (by simp)
          | ok out =>
            obtain ⟨body, applied⟩ := out
            have hlever : transformLever lookups parsed.model = .tokenTrim := by
              simp [transformLever, hl]
            have hsame : applied = false → body = parsed.body := by
              rintro rfl
              exact Json.obj.inj (Trim.applyTrim_unchanged (transformed_eq_ok ht))
            simpa [failOpen, ht] using Treated.trimmed hlever hsame

theorem resolveRouteState_treated {d : RouteDecision} (named : parsed.model ≠ "")
    (hother : hasCrossProviderRoute d parsed.model requestedProvider = true) :
    Treated lookups parsed requestedProvider none
      (failOpen parsed requestedProvider (resolveRouteState parsed requestedProvider d)) := by
  unfold resolveRouteState
  cases RoutingEligibility.crossProviderIneligibility parsed.body requestedProvider
      d.candidateProvider with
  | error e => exact .passthrough (by simp)
  | ok ineligibility =>
    rw [Python.Py.bind_ok]
    split_ifs
    · exact .passthrough (by simp)
    · have hstate : Treated lookups parsed requestedProvider none
          (routeArmState parsed requestedProvider d) := by
        cases harm : d.arm with
        | control =>
          rw [Resolution.routeArmState_control harm]
          exact .control
        | treatment =>
          rw [Resolution.routeArmState_treatment harm]
          exact .routed named (Resolution.other_of_hasCrossProviderRoute hother)
      exact hstate

theorem resolveFailOpen_treated (bypass : Bool) :
    Treated lookups parsed requestedProvider
      (treatment sha256 lookups parsed requestedProvider bypass)
      (resolveFailOpen sha256 lookups parsed requestedProvider bypass) := by
  change Treated _ _ _ _ (failOpen parsed requestedProvider
    (resolveOptimizations sha256 lookups parsed requestedProvider bypass))
  unfold treatment resolveOptimizations
  cases bypass with
  | true => exact .passthrough (by simp)
  | false =>
    cases hl : lookup parsed.model lookups.route with
    | error e => exact .passthrough (by simp)
    | ok decision =>
      cases decision with
      | none => exact resolveTrimState_treated
      | some d =>
        simp only [Bool.false_eq_true, if_false, Python.Py.bind_ok]
        split_ifs with hother
        · exact resolveRouteState_treated (lookup_some hl) hother
        · exact resolveTrimState_treated

end Resolve

/-- A request that no lever changes goes out as it came, in no treatment arm. -/
structure Idle (incumbent : Provider) (r : Resolved) : Prop where
  upstream : r.upstream = incumbent
  body : r.opt.body = r.parsed.body
  model : r.opt.upstreamModel = r.parsed.model
  routedFrom : r.opt.routedFrom = none
  arm : r.opt.arm ≠ some .treatment
  flags : r.opt.trimApplied = false ∧ r.opt.compressionApplied = false

inductive Outcome (lookups : Lookups) (parsed : ParsedClientRequest) (incumbent : Provider) :
    Option (PlannerLever × Py (Fields × Bool)) → Resolved → Prop where
  | idle {t : Option (PlannerLever × Py (Fields × Bool))} {r : Resolved}
      (none : ∀ lever out, t ≠ some (lever, .ok out)) (same : r.parsed = parsed)
      (idle : Idle incumbent r) : Outcome lookups parsed incumbent t r
  | routed {candidateModel : String} {candidate : Provider}
      (other : Other candidateModel candidate.name parsed.model incumbent.name) :
      Outcome lookups parsed incumbent none ⟨parsed, candidate,
        treatmentState parsed incumbent.name candidateModel candidate.name⟩
  | trimmed {body : Fields} {applied : Bool}
      (lever : transformLever lookups parsed.model = .tokenTrim)
      (same : applied = false → body = parsed.body) :
      Outcome lookups parsed incumbent (some (.tokenTrim, .ok (body, applied)))
        ⟨parsed, incumbent,
          transformState body parsed.model incumbent.name .treatment applied false⟩
  | compressed {body : Fields} {applied : Bool}
      (lever : transformLever lookups parsed.model = .promptCompression)
      (same : applied = false → body = parsed.body) :
      Outcome lookups parsed incumbent (some (.promptCompression, .ok (body, applied)))
        ⟨parsed, incumbent,
          transformState body parsed.model incumbent.name .treatment false applied⟩

theorem outcome_of_treated {lookups : Lookups} {parsed : ParsedClientRequest}
    {incumbent upstream : Provider} {hasKey : Provider → Bool} {opt out : OptimizationState}
    {t : Option (PlannerLever × Py (Fields × Bool))}
    (ht : Treated lookups parsed incumbent.name t opt)
    (h : resolveCandidateProvider incumbent hasKey opt = .ok (upstream, out)) :
    Outcome lookups parsed incumbent t ⟨parsed, upstream, out⟩ := by
  cases ht with
  | passthrough hnone =>
    rw [Resolution.resolveCandidateProvider_self rfl] at h
    obtain ⟨rfl, rfl⟩ := Prod.mk.inj (Except.ok.inj h)
    exact .idle hnone rfl ⟨rfl, rfl, rfl, rfl, by simp [passthroughState], rfl, rfl⟩
  | held =>
    rw [Resolution.resolveCandidateProvider_self rfl] at h
    obtain ⟨rfl, rfl⟩ := Prod.mk.inj (Except.ok.inj h)
    exact .idle (by simp) rfl ⟨rfl, rfl, rfl, rfl, by simp [transformState], rfl, rfl⟩
  | control =>
    rw [Resolution.resolveCandidateProvider_self rfl] at h
    obtain ⟨rfl, rfl⟩ := Prod.mk.inj (Except.ok.inj h)
    exact .idle (by simp) rfl ⟨rfl, rfl, rfl, rfl, by simp [controlState], rfl, rfl⟩
  | trimmed hlever hsame =>
    rw [Resolution.resolveCandidateProvider_self rfl] at h
    obtain ⟨rfl, rfl⟩ := Prod.mk.inj (Except.ok.inj h)
    exact .trimmed hlever hsame
  | compressed hlever hsame =>
    rw [Resolution.resolveCandidateProvider_self rfl] at h
    obtain ⟨rfl, rfl⟩ := Prod.mk.inj (Except.ok.inj h)
    exact .compressed hlever hsame
  | routed named hother =>
    obtain ⟨rfl, rfl⟩ | ⟨hother', rfl⟩ :=
      Resolution.resolveCandidateProvider_treatment named hother h
    · exact .idle (by simp) rfl ⟨rfl, rfl, rfl, rfl, by simp [passthroughState], rfl, rfl⟩
    · exact .routed hother'

theorem resolveRequest_outcome {w : World} {inc : Incoming} {r : Resolved}
    (h : resolveRequest w inc = .ok r) :
    Outcome w.lookups r.parsed inc.endpoint.destination
      (treatment w.sha256 w.lookups r.parsed inc.endpoint.destination.name
        (!inc.optimizeEnabled)) r := by
  obtain ⟨parsed, -, h⟩ := Python.Py.bind_eq_ok.1 h
  obtain ⟨⟨upstream, out⟩, hc, h⟩ := Python.Py.bind_eq_ok.1 h
  obtain rfl := Except.ok.inj h
  exact outcome_of_treated (resolveFailOpen_treated _) hc

/-! ## Exact alarms -/

def taken : Decision → Option PlannerLever
  | .hit semantic => appliedLever (if semantic then .semantic else .hit) none false false false
  | .miss r args => appliedLever .miss args.arm r.opt.trimApplied args.routedFrom.isSome
      r.opt.compressionApplied

theorem recordParity_eq (plan : OptimizationPlan) (d : Decision) :
    recordParity (some plan) false d = some (parityTrace plan (taken d)) := by
  cases d <;> rfl

/-- The treatment of the request changes its body. Of a degraded answer only the flags of the
draft are recorded: there a treatment counts where it reports a change, and the provider must be
the request's own. -/
def Effective (w : World) (inc : Incoming) : Decision → Prop
  | .hit _ => True
  | .miss r args =>
    let t := treatment w.sha256 w.lookups r.parsed inc.endpoint.destination.name
      (!inc.optimizeEnabled)
    if args.fallbackUsed then r.upstream = inc.endpoint.destination ∧
      ∀ lever, t ≠ some (lever, .ok (r.parsed.body, true))
    else ∀ lever applied, t ≠ some (lever, .ok (r.parsed.body, applied))

section Miss

variable {w : World} {inc : Incoming} {r : Resolved} {args : CaptureArgs}

theorem forwardRequest_upstream (h : r.opt.upstreamModel = r.parsed.model) :
    (forwardRequest inc r.parsed r.opt).upstream = r.parsed.model := by
  simp only [Request.upstream, forwardRequest, h, ite_self]

theorem changedBy_stayed (hp : PassedOn r.upstream.name (forwardRequest inc r.parsed r.opt) args)
    (hup : r.upstream = inc.endpoint.destination) (hm : r.opt.upstreamModel = r.parsed.model) :
    changedBy w inc (.miss r args) = if r.opt.body ≠ r.parsed.body then
      some (transformLever w.lookups r.parsed.model) else none := by
  have hstay : ¬ rerouted inc r args := by
    rintro (hne | ⟨-, hne⟩)
    · exact hne (by rw [hp.provider, hup])
    · exact hne (forwardRequest_upstream hm)
  have hbody : args.body = .obj r.opt.body := hp.body
  rw [changedBy, if_neg hstay, hbody]
  simp only [ne_eq, Json.obj.injEq]

theorem taken_idle (hp : PassedOn r.upstream.name (forwardRequest inc r.parsed r.opt) args)
    (h : Idle inc.endpoint.destination r) : taken (.miss r args) = none := by
  obtain ⟨harm, hfrom⟩ : args.arm ≠ some "treatment" ∧ args.routedFrom = none := by
    cases hf : args.fallbackUsed with
    | true =>
      obtain ⟨ha, hr⟩ := hp.degraded hf
      exact ⟨by simp [ha], hr⟩
    | false =>
      obtain ⟨ha, hr⟩ := hp.primary hf
      refine ⟨?_, hr.trans h.routedFrom⟩
      rw [ha]
      change r.opt.arm.map Arm.name ≠ _
      have harm := h.arm
      revert harm
      rcases r.opt.arm with _ | _ | _ <;> decide
  simp [taken, appliedLever, harm, hfrom, h.flags.1, h.flags.2]

theorem taken_transform {lever : PlannerLever} {body : Fields} {trim compression : Bool}
    (hr : r.opt = transformState body r.parsed.model inc.endpoint.destination.name .treatment trim
      compression)
    (hl : lever = .tokenTrim ∧ compression = false ∨ lever = .promptCompression ∧ trim = false)
    (hp : PassedOn r.upstream.name (forwardRequest inc r.parsed r.opt) args) :
    taken (.miss r args) = if trim || compression then some lever
      else if args.fallbackUsed then none else some .modelRouting := by
  obtain ⟨hfrom, harm⟩ : args.routedFrom = none ∧
      (args.arm = if args.fallbackUsed then none else some "treatment") := by
    cases hf : args.fallbackUsed with
    | true =>
      obtain ⟨ha, hr⟩ := hp.degraded hf
      exact ⟨hr, ha⟩
    | false =>
      obtain ⟨ha, hfrom⟩ := hp.primary hf
      rw [hr] at ha hfrom
      exact ⟨hfrom, ha⟩
  obtain ⟨htrim, hcompression⟩ : r.opt.trimApplied = trim ∧
      r.opt.compressionApplied = compression := by
    rw [hr]
    exact ⟨rfl, rfl⟩
  rw [taken, appliedLever, hfrom, htrim, hcompression, harm]
  obtain ⟨rfl, rfl⟩ | ⟨rfl, rfl⟩ := hl
  · cases trim <;> cases args.fallbackUsed <;> rfl
  · cases compression <;> cases args.fallbackUsed <;> rfl

theorem transform_exact {lever : PlannerLever} {body : Fields} {trim compression : Bool}
    (hr : r.opt = transformState body r.parsed.model inc.endpoint.destination.name .treatment trim
      compression) (hup : r.upstream = inc.endpoint.destination)
    (hl : lever = .tokenTrim ∧ compression = false ∨ lever = .promptCompression ∧ trim = false)
    (hturn : transformLever w.lookups r.parsed.model = lever)
    (hsame : (trim || compression) = false → body = r.parsed.body)
    (ht : treatment w.sha256 w.lookups r.parsed inc.endpoint.destination.name
      (!inc.optimizeEnabled) = some (lever, .ok (body, trim || compression)))
    (hp : PassedOn r.upstream.name (forwardRequest inc r.parsed r.opt) args) :
    taken (.miss r args) = changedBy w inc (.miss r args) ↔ Effective w inc (.miss r args) := by
  rw [taken_transform hr hl hp, changedBy_stayed hp hup (by rw [hr]; rfl), hturn, Effective, ht]
  rw [show r.opt.body = body by rw [hr]; rfl]
  generalize (trim || compression) = applied at hsame ⊢
  cases applied with
  | false =>
    obtain rfl := hsame rfl
    cases args.fallbackUsed <;> simp [hup]
  | true =>
    by_cases hb : body = r.parsed.body <;> cases args.fallbackUsed <;> simp [hb, hup]

theorem routed_exact {candidateModel : String}
    (hr : r.opt = treatmentState r.parsed inc.endpoint.destination.name candidateModel
      r.upstream.name)
    (hother : Other candidateModel r.upstream.name r.parsed.model inc.endpoint.destination.name)
    (ht : treatment w.sha256 w.lookups r.parsed inc.endpoint.destination.name
      (!inc.optimizeEnabled) = none)
    (hp : PassedOn r.upstream.name (forwardRequest inc r.parsed r.opt) args) :
    taken (.miss r args) = changedBy w inc (.miss r args) ↔ Effective w inc (.miss r args) := by
  have hbody : args.body = .obj r.parsed.body := hp.body.trans (by rw [hr]; rfl)
  have hmodel : (forwardRequest inc r.parsed r.opt).upstream = candidateModel := by
    rw [hr]
    exact if_neg hother.1
  have hname : r.upstream.name ≠ inc.endpoint.destination.name ↔
      r.upstream ≠ inc.endpoint.destination :=
    not_congr ⟨Resolution.Provider.name_inj, congrArg Provider.name⟩
  rw [Effective, ht]
  cases hf : args.fallbackUsed with
  | true =>
    obtain ⟨harm, hfrom⟩ := hp.degraded hf
    have htaken : taken (.miss r args) = none := by
      rw [taken, harm, hfrom, hr]
      rfl
    have hre : rerouted inc r args ↔ r.upstream ≠ inc.endpoint.destination := by
      simp [rerouted, hf, hp.provider, hname]
    rw [htaken, changedBy, hbody]
    by_cases hup : r.upstream = inc.endpoint.destination <;> simp [hre, hup]
  | false =>
    obtain ⟨-, hfrom⟩ := hp.primary hf
    have htaken : taken (.miss r args) = some .modelRouting := by
      rw [taken, hfrom, hr]
      rfl
    have hre : rerouted inc r args := by
      rw [rerouted, hp.provider, hmodel]
      exact hother.2.symm.imp id fun hne => ⟨hf, hne⟩
    rw [htaken, changedBy, if_pos hre]
    simp

theorem miss_exact (hr : resolveRequest w inc = .ok r)
    (hp : PassedOn r.upstream.name (forwardRequest inc r.parsed r.opt) args) :
    taken (.miss r args) = changedBy w inc (.miss r args) ↔ Effective w inc (.miss r args) := by
  have hout := resolveRequest_outcome hr
  obtain ⟨parsed, upstream, opt⟩ := r
  dsimp only at hout
  generalize ht : treatment w.sha256 w.lookups parsed inc.endpoint.destination.name
    (!inc.optimizeEnabled) = t at hout
  cases hout with
  | idle hnone _ hidle =>
    rw [taken_idle hp hidle, changedBy_stayed hp hidle.upstream hidle.model, Effective, ht,
      if_neg (not_not.2 hidle.body)]
    refine iff_of_true rfl ?_
    split_ifs
    · exact ⟨hidle.upstream, fun lever => hnone lever _⟩
    · exact fun lever applied => hnone lever _
  | routed hother => exact routed_exact rfl hother ht hp
  | trimmed hturn hsame =>
    exact transform_exact rfl rfl (.inl ⟨rfl, rfl⟩) hturn (by simpa using hsame) (by simpa using ht)
      hp
  | compressed hturn hsame => exact transform_exact rfl rfl (.inr ⟨rfl, rfl⟩) hturn hsame ht hp

end Miss

theorem taken_iff {w : World} {inc : Incoming} {d : Decision} (h : Records w inc d) :
    taken d = changedBy w inc d ↔ Effective w inc d := by
  cases h with
  | hit semantic => cases semantic <;> exact iff_of_true rfl trivial
  | miss hr hlog hargs => exact miss_exact hr (forwardResolved_captured hlog hargs)

/-- A recorded parity is exact if and only if the treatment is effective. -/
theorem parity_exact_iff (lower : Text → Text) (i : PlannerInput) {w : World} {inc : Incoming}
    {d : Decision} (h : Records w inc d) : ∃ trace,
      recordParity (some (buildOptimizationPlan lower i)) false d = some trace ∧
      (Exact (buildOptimizationPlan lower i) trace (changedBy w inc d) ↔ Effective w inc d) := by
  refine ⟨_, recordParity_eq _ d, ?_⟩
  rw [exact_iff]
  exact taken_iff h

/-! ## A trim that finds nothing to trim -/

def trimming : World :=
  { Origins.answeredBy "gpt-4o" none with
    lookups := ⟨.ok none, .ok (some ⟨.obj [], false, .treatment⟩), .ok none⟩ }

def spaced : Incoming :=
  { Origins.greeting with
    body := .obj [("model", .str "gpt-4o"),
      ("messages", .arr [.obj [("role", .str "user"), ("content", .str "hi    there")]])] }

def trimInput : PlannerInput where
  facts := ⟨false, false, false, false, false, false⟩
  context := ⟨none, none, none, some "classification.intent", some (9 / 10), some "low"⟩
  optimizeEnabled := true
  exactCacheEnabled := true
  semanticCacheEnabled := false
  routingPolicyPresent := false
  trimPolicyPresent := true
  compressionPolicyPresent := false
  outcomePriors := []

def capturesOf (w : World) (inc : Incoming) : Option (Resolved × List CaptureArgs) :=
  match resolveRequest w inc with
  | .ok r => (forwardResolved w inc r).toOption.map fun log => (r, captures log)
  | .error _ => none

theorem records_of_capturesOf {w : World} {inc : Incoming} {r : Resolved}
    {all : List CaptureArgs} (h : capturesOf w inc = some (r, all)) {args : CaptureArgs}
    (ha : args ∈ all) : Records w inc (.miss r args) := by
  unfold capturesOf at h
  cases hr : resolveRequest w inc with
  | error e =>
    rw [hr] at h
    cases h
  | ok r' =>
    rw [hr] at h
    dsimp only at h
    cases hl : forwardResolved w inc r' with
    | error e =>
      rw [hl] at h
      cases h
    | ok log =>
      rw [hl] at h
      obtain ⟨rfl, rfl⟩ := Prod.mk.inj (Option.some.inj h)
      exact .miss hr hl ha

/-- Of each capture of a request, the lever it is taken for and the one that changed it. -/
def report (w : World) (inc : Incoming) :
    Option (List (Option PlannerLever × Option PlannerLever)) :=
  (capturesOf w inc).map fun c => c.2.map fun args =>
    (taken (.miss c.1 args), changedBy w inc (.miss c.1 args))

theorem records_of_report {w : World} {inc : Incoming} {t c : Option PlannerLever}
    (h : report w inc = some [(t, c)]) :
    ∃ r args, Records w inc (.miss r args) ∧ taken (.miss r args) = t ∧
      changedBy w inc (.miss r args) = c := by
  obtain ⟨⟨r, all⟩, hc, hall⟩ := Option.map_eq_some_iff.1 h
  obtain ⟨args, rest, rfl, hargs, -⟩ := List.map_eq_cons_iff.1 hall
  obtain ⟨ht, hch⟩ := Prod.mk.inj hargs
  exact ⟨r, args, records_of_capturesOf hc List.mem_cons_self, ht, hch⟩

/-- A trim that changes nothing raises an alarm about routing. -/
theorem noop_alarm : ∃ d trace, Records trimming Origins.greeting d ∧
    recordParity (some (buildOptimizationPlan id trimInput)) false d = some trace ∧
    trace.action = .mismatch ∧ trace.lever = "model_routing" ∧
    changedBy trimming Origins.greeting d = none ∧
    ¬ Exact (buildOptimizationPlan id trimInput) trace (changedBy trimming Origins.greeting d) := by
  obtain ⟨r, args, hrec, ht, hc⟩ := records_of_report
    (by decide +kernel : report trimming Origins.greeting = some [(some .modelRouting, none)])
  refine ⟨.miss r args, _, hrec, recordParity_eq _ _, ?_, ?_, hc, ?_⟩
  · rw [ht]
    decide +kernel
  · rw [ht]
    decide +kernel
  · rw [exact_iff, ht, hc]
    decide

/-- A trim that shortens a run of blanks is named. -/
theorem spaced_exact : ∃ d trace, Records trimming spaced d ∧
    recordParity (some (buildOptimizationPlan id trimInput)) false d = some trace ∧
    trace.lever = "token_trim" ∧
    Exact (buildOptimizationPlan id trimInput) trace (changedBy trimming spaced d) := by
  obtain ⟨r, args, hrec, ht, hc⟩ := records_of_report
    (by decide +kernel : report trimming spaced = some [(some .tokenTrim, some .tokenTrim)])
  obtain ⟨trace, htrace, hiff⟩ := parity_exact_iff id trimInput hrec
  have hexact := hiff.2 ((taken_iff hrec).1 (ht.trans hc.symm))
  refine ⟨.miss r args, trace, hrec, htrace, ?_, hexact⟩
  rw [hexact.named, hc]
  rfl

end Varsten.Proxy.PlannerParity
