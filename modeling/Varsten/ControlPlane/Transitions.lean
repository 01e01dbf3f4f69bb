import Varsten.ControlPlane.State

/-!
# Operations on the control plane

Each operation is a transaction: it raises, and nothing changes, or it commits.
-/

namespace Varsten.ControlPlane

open Engine.RouteIdentity (defaultRoute)
open Python.Utf8 (Text)

/-- What the gates of an operation find: the plan, the lever switches, governance. -/
structure Gates where
  performance : Bool
  leverEnabled : Lever → Bool
  enforced : Bool

def Gates.lever (g : Gates) (lever : Option Lever) : Bool := lever.all g.leverEnabled

/-- Everything is on and nothing governed. -/
def Gates.allow : Gates := ⟨true, fun _ => true, false⟩

/-! ## Policies -/

def blankPolicy (key : PolicyKey) : ProxyPolicy := ⟨key, false, none, none, none, false⟩

def State.policyAt (s : State) (key : PolicyKey) : ProxyPolicy :=
  (s.policies.find key).getD (blankPolicy key)

def State.putPolicy (s : State) (p : ProxyPolicy) : State :=
  { s with policies := s.policies.put p }

def ProxyPolicy.activate (p : ProxyPolicy) (rec : ℕ) : ProxyPolicy :=
  { p with enabled := true, source := some rec, driftRolledBack := false }

def nonempty (s : Option String) : Option String := s.filter (· ≠ "")

section Activation

variable (lower : Text → Text)

def activateRule (s : State) (rec : ℕ) (r : Recommendation) (candidateModel : String) : State :=
  match nonempty r.relatedModel with
  | none => s
  | some incumbent =>
    if candidateModel = "" ∨ incumbent = candidateModel then s
    else
      let lever := (r.lever.filter Lever.isRouting).getD .modelDownshift
      let key : PolicyKey := ⟨lever, incumbent, r.routeKey lower⟩
      s.putPolicy { (s.policyAt key).activate rec with
        key, candidateModel := some candidateModel }

def activateTrimPolicy (s : State) (rec : ℕ) (r : Recommendation) : State :=
  match nonempty r.relatedModel with
  | none => s
  | some model =>
    let key : PolicyKey := ⟨.tokenTrim, model, r.routeKey lower⟩
    s.putPolicy { (s.policyAt key).activate rec with key }

def trimConflicts (model routeKey : String) (p : ProxyPolicy) : Bool :=
  p.key.lever = .tokenTrim && p.key.targetKey = model && p.enabled &&
    (routeKey = defaultRoute || p.key.routeKey = routeKey || p.key.routeKey = defaultRoute)

/-- `none` is a `TransformConflictError`. -/
def activateCompressionPolicy (s : State) (rec : ℕ) (r : Recommendation) : Option State :=
  match (nonempty r.relatedModel).or (nonempty r.targetKey) with
  | none => some s
  | some model =>
    match artifactForRecommendation s rec with
    | none => some s
    | some artifact =>
      let key : PolicyKey := ⟨.promptCompression, model, r.routeKey lower⟩
      if s.policies.rows.any (trimConflicts model key.routeKey) then none
      else some ((s.putPolicy { (s.policyAt key).activate rec with
        key, artifactId := some artifact }).setArtifactCache fun _ => none)

def activateExecution (s : State) (rec : ℕ) (r : Recommendation) (gatingRun : Option EvalRun) :
    Option State :=
  match r.lever with
  | some .modelDownshift | some .smartRouting =>
    some (gatingRun.elim s fun run => activateRule lower s rec r run.candidateModel)
  | some .tokenTrim => some (activateTrimPolicy lower s rec r)
  | some .promptCompression => activateCompressionPolicy lower s rec r
  | _ => some s

end Activation

/-- Whatever the lever, the first of the three updates turns off every policy of the source. -/
def ProxyPolicy.deactivateFor (rec : ℕ) (p : ProxyPolicy) : ProxyPolicy :=
  if p.source = some rec then { p with enabled := false } else p

theorem deactivateFor_key (rec : ℕ) (p : ProxyPolicy) : (p.deactivateFor rec).key = p.key := by
  unfold ProxyPolicy.deactivateFor
  split_ifs <;> rfl

@[simp] theorem deactivateFor_source (rec : ℕ) (p : ProxyPolicy) :
    (p.deactivateFor rec).source = p.source := by
  unfold ProxyPolicy.deactivateFor
  split_ifs <;> rfl

theorem deactivateFor_enabled {rec : ℕ} {p : ProxyPolicy}
    (h : (p.deactivateFor rec).enabled = true) : p.enabled = true ∧ p.source ≠ some rec := by
  unfold ProxyPolicy.deactivateFor at h
  split_ifs at h with hs
  exact ⟨h, hs⟩

def deactivateExecution (s : State) (rec : ℕ) : State :=
  { s with policies := s.policies.update (·.deactivateFor rec) (deactivateFor_key rec) }

/-! ## Gates -/

/-- The gating run, `none` for a lever without a gate; the outer `none` is an `EvalGateError`. -/
def assertAppliable (s : State) (rec : ℕ) (r : Recommendation) (automated : Bool) :
    Option (Option EvalRun) :=
  if ¬ r.lever.any Lever.isGated then some none
  else do
    let run ← latestRun s rec
    if run.status ≠ .completed then none
    else match run.verdict with
      | some .safe => some (some run)
      | some .needsHuman => if automated then none else some (some run)
      | _ => none

def changeRequestApproved (g : Gates) (s : State) (rec : ℕ) (r : Recommendation) : Bool :=
  !r.lever.any Lever.isGated || !g.enforced ||
    (s.changeRequests rec).any fun cr => cr.status = .approved

def markActive (s : State) (rec : ℕ) : State :=
  match s.changeRequests rec with
  | some cr =>
    if cr.status = .proposed ∨ cr.status = .approved then
      s.setChangeRequest rec { cr with status := .active }
    else s
  | none => s

def markRolledBack (s : State) (rec : ℕ) : State :=
  match s.changeRequests rec with
  | some cr =>
    if cr.status = .active then s.setChangeRequest rec { cr with status := .rolledBack } else s
  | none => s

/-- Propose a change from a completed run with an actionable verdict, or refresh the evidence of
one that nobody has decided. -/
def ensureChangeRequest (recs : Recommendations) (s : State) (run : EvalRun) : State :=
  if run.status ≠ .completed ∨ ¬ (run.verdict = some .safe ∨ run.verdict = some .needsHuman) then s
  else match recs run.recommendation with
    | none => s
    | some r =>
      if ¬ r.lever.any Lever.isGated then s
      else
        let evidence : Evidence := ⟨run.id, run.candidateModel, run.artifact⟩
        match s.changeRequests run.recommendation with
        | some cr =>
          if cr.status = .proposed then s.setChangeRequest run.recommendation { cr with evidence }
          else s
        | none => s.setChangeRequest run.recommendation ⟨.proposed, evidence, none⟩

def decideChangeRequest (s : State) (rec : ℕ) (approve : Bool) (user : ℕ) : Option State := do
  let cr ← s.changeRequests rec
  if cr.status ≠ .proposed then none
  else some (s.setChangeRequest rec { cr with
    status := if approve then .approved else .rejected
    decidedBy := some user })

/-! ## Recommendations -/

def applyRecommendation (lower : Text → Text) (g : Gates) (s : State) (rec : ℕ)
    (r : Recommendation) (automated : Bool) : Option State := do
  if !g.performance || !g.lever r.lever then none
  else
    let gatingRun ← assertAppliable s rec r automated
    if !changeRequestApproved g s rec r then none
    else
      let s ← activateExecution lower s rec r gatingRun
      some (markActive s rec)

def transitionRecommendation (lower : Text → Text) (recs : Recommendations) (g : Gates)
    (s : State) (rec : ℕ) (next : RecommendationStatus) : Option State := do
  let r ← recs rec
  match next with
  | .applied =>
    let s ← applyRecommendation lower g s rec r false
    some (s.setStatus rec .applied)
  | .dismissed | .rolledBack =>
    some ((markRolledBack (deactivateExecution s rec) rec).setStatus rec next)
  | .opened => some (s.setStatus rec .opened)

def applyRecommendationAutomated (lower : Text → Text) (recs : Recommendations) (g : Gates)
    (s : State) (rec : ℕ) : Option State := do
  let r ← recs rec
  if s.status rec ≠ .opened then some s
  else
    let s ← applyRecommendation lower g s rec r true
    some (s.setStatus rec .applied)

/-! ## The drift guard and the switches -/

/-- The rules that `check_and_rollback_drift` sweeps. -/
def isSwept (p : ProxyPolicy) : Bool :=
  p.enabled && (p.key.lever = .tokenTrim || p.key.lever = .promptCompression ||
    (p.key.lever.isRouting && (nonempty p.candidateModel).isSome))

def recordRollback (recs : Recommendations) (s : State) (p : ProxyPolicy) : State :=
  let s := s.putPolicy { p with enabled := false, driftRolledBack := true }
  match p.source with
  | none => s
  | some rec =>
    match recs rec with
    | none => s
    | some _ => markRolledBack (s.setStatus rec .rolledBack) rec

/-- The guard finds a regression of the policy of the key, where that is swept. -/
def driftRollback (recs : Recommendations) (s : State) (key : PolicyKey) : Option State := do
  let p ← s.policies.find key
  if isSwept p then some (recordRollback recs s p) else none

def updatePolicy (g : Gates) (s : State) (key : PolicyKey) (enabled : Option Bool) :
    Option State := do
  let p ← s.policies.find key
  if !(key.lever.isRouting || key.lever = .tokenTrim || key.lever = .promptCompression) then none
  else if enabled = some true ∧ (!g.performance || !g.leverEnabled key.lever) = true then none
  else if enabled = some true ∧ key.lever = .promptCompression ∧ p.artifactId = none then none
  else some (s.putPolicy { p with enabled := enabled.getD p.enabled })

/-! ## Evals -/

/-- The identity of a new row and the begin of its transaction. -/
structure Fresh where
  id : ℕ
  createdAt : ℕ

def newRun (rec : ℕ) (candidateModel : String) (f : Fresh) : EvalRun :=
  ⟨f.id, rec, f.createdAt, candidateModel, .pending, none, none⟩

def Evals.enqueue (e : Evals) (run : ℕ) : Evals := { e with queued := e.queued ++ [run] }

/-- `create_run_for_recommendation`. -/
def Evals.createRun (e : Evals) (run : EvalRun) : Option Evals :=
  (e.runs.add run).map fun runs => { e with runs }

/-- `evaluate_recommendation`; `substitute` is what the catalog suggests. -/
def evaluateRecommendation (recs : Recommendations) (e : Evals) (rec : ℕ)
    (substitute : Option String) (f : Fresh) : Option Evals := do
  let r ← recs rec
  if ¬ r.lever.any Lever.isGated then none
  else if r.lever = some .promptCompression ∧ e.latestArtifact rec = none then none
  else
    let candidate := nonempty (if r.lever = some .promptCompression
      then (nonempty r.relatedModel).or r.targetKey else substitute)
    let model ← candidate
    match e.pendingRun rec with
    | some run => some (e.enqueue run.id)
    | none => (e.createRun (newRun rec model f)).map (·.enqueue f.id)

def startRun (recs : Recommendations) (e : Evals) (task : ℕ) : Option Evals := do
  let i ← e.queued[task]?
  let run ← e.runs.find i
  let r ← recs run.recommendation
  let queued := e.queued.eraseIdx task
  let running := e.runs.put { run with status := .running }
  if r.lever = some .promptCompression then
    match e.latestArtifact run.recommendation with
    | none => some { e with queued, runs := e.runs.put { run with status := .failed } }
    | some artifact => some { e with
        queued, runs := running, executions := e.executions ++ [⟨i, some artifact⟩] }
  else some { e with queued, runs := running, executions := e.executions ++ [⟨i, none⟩] }

def EvalRun.ended (run : EvalRun) (artifact : Option PromptCompression) : Option Verdict → EvalRun
  | some verdict => { run with status := .completed, verdict := some verdict, artifact }
  | none => { run with status := .failed }

def finishRun (recs : Recommendations) (s : State) (n : ℕ) (outcome : Option Verdict) :
    Option State := do
  let x ← s.evals.executions[n]?
  let run ← s.evals.runs.find x.run
  let ended := run.ended x.artifact outcome
  let evals : Evals := { s.evals with
    executions := s.evals.executions.eraseIdx n, runs := s.evals.runs.put ended }
  some (ensureChangeRequest recs (s.setEvals evals) ended)

/-- `generate_compression_candidate` once its rewrite is accepted. It goes to a recommendation that
is new or open, and its transaction began before the rewrite was asked for. -/
def generateCompression (recs : Recommendations) (s : State) (rec : ℕ) (model : String)
    (hash text : String) (artifact : ℕ) (f : Fresh) : Option Evals := do
  let r ← recs rec
  if r.lever ≠ some .promptCompression ∨ s.status rec ≠ .opened then none
  else
    let artifacts ← s.evals.artifacts.add ⟨artifact, rec, f.createdAt, hash, text⟩
    Evals.createRun { s.evals with artifacts } (newRun rec model f)

/-! ## Artifacts in the proxy -/

def PromptCompression.substitution (a : PromptCompression) : String × String :=
  (a.originalSystemHash, a.compressedSystemPrompt)

/-- `load_artifact`: what it returns and what it leaves in its cache. -/
def loadArtifact (s : State) (artifact : ℕ) : Option (String × String) × State :=
  match s.artifactCache artifact with
  | some cached => (some cached, s)
  | none =>
    match s.evals.artifacts.find artifact with
    | none => (none, s)
    | some row => (some row.substitution,
        s.setArtifactCache (Function.update s.artifactCache artifact (some row.substitution)))

def expireArtifact (s : State) (artifact : ℕ) : State :=
  s.setArtifactCache (Function.update s.artifactCache artifact none)

/-! ## Steps -/

inductive Operation where
  | transition (rec : ℕ) (next : RecommendationStatus)
  | applyAutomated (rec : ℕ)
  | driftRollback (key : PolicyKey)
  | updatePolicy (key : PolicyKey) (enabled : Option Bool)
  | evaluate (rec : ℕ) (substitute : Option String) (f : Fresh)
  | startRun (task : ℕ)
  | finishRun (execution : ℕ) (outcome : Option Verdict)
  | generate (rec : ℕ) (model hash text : String) (artifact : ℕ) (f : Fresh)
  | decide (rec : ℕ) (approve : Bool) (user : ℕ)
  | loadArtifact (artifact : ℕ)
  | expireArtifact (artifact : ℕ)

/-- An operation and what its gates find. -/
structure Input where
  gates : Gates
  operation : Operation

section Steps

variable (lower : Text → Text) (recs : Recommendations)

def perform (s : State) (a : Input) : Option State :=
  match a.operation with
  | .transition rec next => transitionRecommendation lower recs a.gates s rec next
  | .applyAutomated rec => applyRecommendationAutomated lower recs a.gates s rec
  | .driftRollback key => driftRollback recs s key
  | .updatePolicy key enabled => updatePolicy a.gates s key enabled
  | .evaluate rec substitute f =>
    (evaluateRecommendation recs s.evals rec substitute f).map s.setEvals
  | .startRun task => (startRun recs s.evals task).map s.setEvals
  | .finishRun execution outcome => finishRun recs s execution outcome
  | .generate rec model hash text artifact f =>
    (generateCompression recs s rec model hash text artifact f).map s.setEvals
  | .decide rec approve user => decideChangeRequest s rec approve user
  | .loadArtifact artifact => some (loadArtifact s artifact).2
  | .expireArtifact artifact => some (expireArtifact s artifact)

/-- An operation that raises changes nothing. -/
def step (s : State) (a : Input) : State := (perform lower recs s a).getD s

end Steps

/-! ## What the operations do -/

section Fields

variable (s : State) (rec : ℕ)

@[simp] theorem setStatus_policies (st : RecommendationStatus) :
    (s.setStatus rec st).policies = s.policies := rfl

@[simp] theorem setStatus_status (st : RecommendationStatus) :
    (s.setStatus rec st).status = Function.update s.status rec st := rfl

@[simp] theorem putPolicy_policies (p : ProxyPolicy) :
    (s.putPolicy p).policies = s.policies.put p := rfl

@[simp] theorem putPolicy_status (p : ProxyPolicy) : (s.putPolicy p).status = s.status := rfl

@[simp] theorem setEvals_policies (e : Evals) : (s.setEvals e).policies = s.policies := rfl

@[simp] theorem setEvals_status (e : Evals) : (s.setEvals e).status = s.status := rfl

@[simp] theorem setArtifactCache_policies (c : ℕ → Option (String × String)) :
    (s.setArtifactCache c).policies = s.policies := rfl

@[simp] theorem setArtifactCache_status (c : ℕ → Option (String × String)) :
    (s.setArtifactCache c).status = s.status := rfl

@[simp] theorem markActive_policies : (markActive s rec).policies = s.policies := by
  unfold markActive
  split
  · split_ifs <;> rfl
  · rfl

@[simp] theorem markActive_status : (markActive s rec).status = s.status := by
  unfold markActive
  split
  · split_ifs <;> rfl
  · rfl

@[simp] theorem markRolledBack_policies : (markRolledBack s rec).policies = s.policies := by
  unfold markRolledBack
  split
  · split_ifs <;> rfl
  · rfl

@[simp] theorem markRolledBack_status : (markRolledBack s rec).status = s.status := by
  unfold markRolledBack
  split
  · split_ifs <;> rfl
  · rfl

@[simp] theorem deactivateExecution_status : (deactivateExecution s rec).status = s.status := rfl

end Fields

section Inversion

variable {lower : Text → Text} {recs : Recommendations} {s s' : State} {rec : ℕ}
  {r : Recommendation}

def Recommendation.policyModel (r : Recommendation) : Option String :=
  if r.lever = some .promptCompression then (nonempty r.relatedModel).or (nonempty r.targetKey)
  else nonempty r.relatedModel

def Lever.hasPolicy (l : Lever) : Bool := l.isGated || l = .tokenTrim

def Recommendation.policyKey (lower : Text → Text) (r : Recommendation) : Option PolicyKey := do
  let lever ← r.lever.filter Lever.hasPolicy
  let model ← r.policyModel
  return ⟨lever, model, r.routeKey lower⟩

def namesPolicy (s : State) (rec : ℕ) (r : Recommendation) : Bool :=
  match r.policyModel with
  | none => false
  | some model =>
    if r.lever = some .tokenTrim then true
    else if r.lever = some .promptCompression then (artifactForRecommendation s rec).isSome
    else (latestRun s rec).any fun run => run.candidateModel ≠ "" ∧ model ≠ run.candidateModel

structure Activated (lower : Text → Text) (s : State) (rec : ℕ) (r : Recommendation)
    (p : ProxyPolicy) : Prop where
  key : r.policyKey lower = some p.key
  enabled : p.enabled = true
  source : p.source = some rec
  fresh : p.driftRolledBack = false
  candidate : p.key.lever.isRouting = true → ∃ run, latestRun s rec = some run ∧
    p.candidateModel = some run.candidateModel
  artifact : p.key.lever = .promptCompression →
    (artifactForRecommendation s rec).isSome = true ∧
      p.artifactId = artifactForRecommendation s rec
  exclusive : p.key.lever = .promptCompression →
    s.policies.rows.any (trimConflicts p.key.targetKey p.key.routeKey) = false

/-- The outcomes of an activation: it writes the one policy of its recommendation, or the
recommendation names none. -/
inductive Activation (lower : Text → Text) (s : State) (rec : ℕ) (r : Recommendation) :
    State → Prop where
  | wrote {p : ProxyPolicy} (cache : ℕ → Option (String × String)) :
      (∀ i v, cache i = some v → s.artifactCache i = some v) → namesPolicy s rec r = true →
      Activated lower s rec r p →
      Activation lower s rec r ((s.putPolicy p).setArtifactCache cache)
  | nothing : (r.lever.any Lever.hasPolicy && namesPolicy s rec r) = false →
      Activation lower s rec r s

theorem policyKey_eq {l : Lever} {model : String} (hl : r.lever = some l)
    (hp : l.hasPolicy = true) (hm : r.policyModel = some model) :
    r.policyKey lower = some ⟨l, model, r.routeKey lower⟩ := by
  rw [Recommendation.policyKey, hl, hm]
  simp [Option.filter, hp]

theorem lever_of_policyKey {key : PolicyKey} (h : r.policyKey lower = some key) :
    r.lever = some key.lever := by
  simp only [Recommendation.policyKey, Option.bind_eq_bind, Option.bind_eq_some_iff,
    Option.filter_eq_some_iff, Option.pure_def, Option.some.injEq] at h
  obtain ⟨l, ⟨hl, -⟩, model, -, rfl⟩ := h
  exact hl

theorem namesPolicy_trim {key : PolicyKey} (hl : r.lever = some .tokenTrim)
    (h : r.policyKey lower = some key) : namesPolicy s rec r = true := by
  simp only [Recommendation.policyKey, Option.bind_eq_bind, Option.bind_eq_some_iff] at h
  obtain ⟨-, -, model, hmodel, -⟩ := h
  simp [namesPolicy, hmodel, hl]

theorem activateRule_cases {l : Lever} {run : EvalRun} (hl : r.lever = some l)
    (hrouting : l.isRouting = true) (hrun : latestRun s rec = some run) :
    Activation lower s rec r (activateRule lower s rec r run.candidateModel) := by
  have hpolicy : l.hasPolicy = true := by simp [Lever.hasPolicy, Lever.isGated, hrouting]
  have htrim : l ≠ .tokenTrim := by rintro rfl; exact absurd hrouting (by decide)
  have hcompress : l ≠ .promptCompression := by rintro rfl; exact absurd hrouting (by decide)
  have hmodel : r.policyModel = nonempty r.relatedModel := by
    simp [Recommendation.policyModel, hl, hcompress]
  have hlever : (r.lever.filter Lever.isRouting).getD .modelDownshift = l := by
    simp [hl, Option.filter, hrouting]
  unfold activateRule
  cases hm : nonempty r.relatedModel with
  | none => exact .nothing (by simp [namesPolicy, hmodel, hm])
  | some incumbent =>
    have hnames : namesPolicy s rec r =
        decide (run.candidateModel ≠ "" ∧ incumbent ≠ run.candidateModel) := by
      simp [namesPolicy, hmodel, hm, hl, htrim, hcompress, hrun]
    dsimp only
    split_ifs with hsame
    · refine .nothing ?_
      rw [hnames, Bool.and_eq_false_iff, decide_eq_false_iff_not]
      exact .inr fun h => hsame.elim h.1 h.2
    · rw [not_or] at hsame
      refine .wrote s.artifactCache (fun _ _ h => h) (by rw [hnames]; exact decide_eq_true hsame)
        ⟨?_, rfl, rfl, rfl, fun _ => ⟨run, hrun, rfl⟩, fun h => ?_, fun h => ?_⟩
      · rw [policyKey_eq hl hpolicy (hmodel.trans hm), hlever]
      · exact absurd (hlever.symm.trans h) hcompress
      · exact absurd (hlever.symm.trans h) hcompress

theorem activateTrimPolicy_cases (hl : r.lever = some .tokenTrim) :
    Activation lower s rec r (activateTrimPolicy lower s rec r) := by
  have hmodel : r.policyModel = nonempty r.relatedModel := by
    simp [Recommendation.policyModel, hl]
  unfold activateTrimPolicy
  cases hm : nonempty r.relatedModel with
  | none => exact .nothing (by simp [namesPolicy, hmodel, hm])
  | some model =>
    refine .wrote s.artifactCache (fun _ _ h => h) (by simp [namesPolicy, hmodel, hm, hl])
      ⟨policyKey_eq hl rfl (hmodel.trans hm), rfl, rfl, rfl, fun h => ?_, fun h => ?_, fun h => ?_⟩
    · simp [Lever.isRouting] at h
    · simp at h
    · simp at h

theorem activateCompressionPolicy_cases (hl : r.lever = some .promptCompression)
    (h : activateCompressionPolicy lower s rec r = some s') : Activation lower s rec r s' := by
  have hmodel : r.policyModel = (nonempty r.relatedModel).or (nonempty r.targetKey) := by
    simp [Recommendation.policyModel, hl]
  unfold activateCompressionPolicy at h
  rw [← hmodel] at h
  cases hm : r.policyModel with
  | none =>
    rw [hm] at h
    obtain rfl := Option.some.inj h
    exact .nothing (by simp [namesPolicy, hm])
  | some model =>
    rw [hm] at h
    cases ha : artifactForRecommendation s rec with
    | none =>
      rw [ha] at h
      obtain rfl := Option.some.inj h
      exact .nothing (by simp [namesPolicy, hm, hl, ha])
    | some artifact =>
      rw [ha] at h
      dsimp only at h
      split_ifs at h with hconflict
      obtain rfl := Option.some.inj h
      refine .wrote (fun _ => none) (fun _ _ h => absurd h (by simp))
        (by simp [namesPolicy, hm, hl, ha])
        ⟨policyKey_eq hl rfl hm, rfl, rfl, rfl, fun h => ?_, fun _ => ⟨by rw [ha]; rfl, ha.symm⟩,
          fun _ => Bool.eq_false_iff.2 hconflict⟩
      simp [Lever.isRouting] at h

theorem assertAppliable_gated {l : Lever} {automated : Bool} {run : Option EvalRun}
    (hl : r.lever = some l) (hg : l.isGated = true)
    (h : assertAppliable s rec r automated = some run) :
    ∃ x, run = some x ∧ latestRun s rec = some x ∧ x.status = .completed ∧
      (x.verdict = some .safe ∨ x.verdict = some .needsHuman) := by
  simp only [assertAppliable, hl, Option.any_some, hg, not_true, if_false,
    Option.bind_eq_bind, Option.bind_eq_some_iff] at h
  obtain ⟨x, hx, h⟩ := h
  have hdone : x.status = .completed := by
    by_contra hs
    rw [if_pos hs] at h
    exact absurd h (by simp)
  rw [if_neg (not_not.2 hdone)] at h
  cases hv : x.verdict with
  | none => simp [hv] at h
  | some v =>
    cases v with
    | safe => exact ⟨x, by simpa [hv] using h.symm, hx, hdone, .inl hv⟩
    | needsHuman =>
      cases automated with
      | true => simp [hv] at h
      | false => exact ⟨x, by simpa [hv] using h.symm, hx, hdone, .inr hv⟩
    | notSafe => simp [hv] at h
    | insufficient => simp [hv] at h

theorem activateExecution_cases {automated : Bool} {run : Option EvalRun}
    (hrun : assertAppliable s rec r automated = some run)
    (h : activateExecution lower s rec r run = some s') : Activation lower s rec r s' := by
  have hother : ∀ l : Option Lever, r.lever = l → l.any Lever.hasPolicy = false →
      Activation lower s rec r s := fun l hl hp => .nothing (by rw [hl, hp]; rfl)
  have hroute : ∀ l, r.lever = some l → l.isRouting = true →
      some (run.elim s fun x => activateRule lower s rec r x.candidateModel) = some s' →
        Activation lower s rec r s' := by
    intro l hl hrouting h
    obtain ⟨x, rfl, hx, -, -⟩ :=
      assertAppliable_gated hl (by simp [Lever.isGated, hrouting]) hrun
    obtain rfl := Option.some.inj h
    exact activateRule_cases hl hrouting hx
  unfold activateExecution at h
  cases hl : r.lever with
  | none =>
    rw [hl] at h
    obtain rfl := Option.some.inj h
    exact hother _ hl rfl
  | some l =>
    rw [hl] at h
    cases l with
    | modelDownshift => exact hroute _ hl rfl h
    | smartRouting => exact hroute _ hl rfl h
    | tokenTrim =>
      obtain rfl := Option.some.inj h
      exact activateTrimPolicy_cases hl
    | promptCompression => exact activateCompressionPolicy_cases hl h
    | semanticCache =>
      obtain rfl := Option.some.inj h
      exact hother _ hl rfl
    | batching =>
      obtain rfl := Option.some.inj h
      exact hother _ hl rfl

def gatesPass (g : Gates) (s : State) (rec : ℕ) (r : Recommendation) (automated : Bool) : Bool :=
  g.performance && g.lever r.lever && (assertAppliable s rec r automated).isSome &&
    changeRequestApproved g s rec r

theorem applyRecommendation_eq {g : Gates} {automated : Bool} :
    applyRecommendation lower g s rec r automated =
      if gatesPass g s rec r automated then
        ((assertAppliable s rec r automated).bind fun run =>
          activateExecution lower s rec r run).map fun s => markActive s rec
      else none := by
  unfold applyRecommendation gatesPass
  cases g.performance <;> cases g.lever r.lever <;>
    cases assertAppliable s rec r automated <;> cases changeRequestApproved g s rec r <;>
    simp [Option.map_eq_bind]

theorem applies_trim {g : Gates} {automated : Bool} (hl : r.lever = some .tokenTrim)
    (hg : gatesPass g s rec r automated = true) :
    ∃ s', applyRecommendation lower g s rec r automated = some s' := by
  have hgate : assertAppliable s rec r automated = some none := by
    simp [assertAppliable, hl, Lever.isGated, Lever.isRouting]
  rw [applyRecommendation_eq, if_pos hg, hgate]
  simp [activateExecution, hl]

theorem applyRecommendation_cases {g : Gates} {automated : Bool}
    (h : applyRecommendation lower g s rec r automated = some s') :
    gatesPass g s rec r automated = true ∧
      ∃ s₁, Activation lower s rec r s₁ ∧ s' = markActive s₁ rec := by
  rw [applyRecommendation_eq] at h
  split_ifs at h with hg
  obtain ⟨s₁, h₁, rfl⟩ := Option.map_eq_some_iff.1 h
  obtain ⟨run, hrun, h₁⟩ := Option.bind_eq_some_iff.1 h₁
  exact ⟨hg, s₁, activateExecution_cases hrun h₁, rfl⟩

end Inversion

section Frames

variable {lower : Text → Text} {recs : Recommendations} {s s' : State} {a : Input}

def application (s : State) (a : Input) : Option (ℕ × Bool) :=
  match a.operation with
  | .transition rec .applied => some (rec, false)
  | .applyAutomated rec => if s.status rec = .opened then some (rec, true) else none
  | _ => none

theorem ensureChangeRequest_frame (run : EvalRun) :
    (ensureChangeRequest recs s run).policies = s.policies ∧
      (ensureChangeRequest recs s run).status = s.status := by
  unfold ensureChangeRequest
  repeat' split
  all_goals exact ⟨rfl, rfl⟩

theorem loadArtifact_frame (artifact : ℕ) :
    (loadArtifact s artifact).2.policies = s.policies ∧
      (loadArtifact s artifact).2.status = s.status := by
  unfold loadArtifact
  repeat' split
  all_goals exact ⟨rfl, rfl⟩

/-- An application that commits passed the gates and activated what its recommendation names. -/
theorem application_cases {rec : ℕ} {automated : Bool}
    (happ : application s a = some (rec, automated)) (h : perform lower recs s a = some s') :
    ∃ r, recs rec = some r ∧ gatesPass a.gates s rec r automated = true ∧
      ∃ s₁, Activation lower s rec r s₁ ∧ s' = (markActive s₁ rec).setStatus rec .applied := by
  unfold application at happ
  unfold perform at h
  cases ha : a.operation with
  | transition rec' next =>
    rw [ha] at happ h
    cases next with
    | applied =>
      obtain ⟨rfl, rfl⟩ := Prod.mk.inj (Option.some.inj happ)
      simp only [transitionRecommendation, Option.bind_eq_bind, Option.bind_eq_some_iff,
        Option.some.injEq] at h
      obtain ⟨r, hr, s₂, h₂, rfl⟩ := h
      obtain ⟨hg, s₁, h₁, rfl⟩ := applyRecommendation_cases h₂
      exact ⟨r, hr, hg, s₁, h₁, rfl⟩
    | _ => exact absurd happ (by simp)
  | applyAutomated rec' =>
    rw [ha] at happ h
    dsimp only at happ
    split_ifs at happ with hopen
    obtain ⟨rfl, rfl⟩ := Prod.mk.inj (Option.some.inj happ)
    simp only [applyRecommendationAutomated, Option.bind_eq_bind, Option.bind_eq_some_iff,
      hopen, ne_eq, not_true, if_false, Option.some.injEq] at h
    obtain ⟨r, hr, s₂, h₂, rfl⟩ := h
    obtain ⟨hg, s₁, h₁, rfl⟩ := applyRecommendation_cases h₂
    exact ⟨r, hr, hg, s₁, h₁, rfl⟩
  | _ =>
    rw [ha] at happ
    exact absurd happ (by simp)

theorem perform_application {rec : ℕ} {automated : Bool} {r : Recommendation}
    (happ : application s a = some (rec, automated)) (hr : recs rec = some r)
    (h : applyRecommendation lower a.gates s rec r automated = some s') :
    perform lower recs s a = some (s'.setStatus rec .applied) := by
  unfold application at happ
  unfold perform
  cases ha : a.operation with
  | transition rec' next =>
    rw [ha] at happ
    cases next with
    | applied =>
      obtain ⟨rfl, rfl⟩ := Prod.mk.inj (Option.some.inj happ)
      simp [transitionRecommendation, hr, h]
    | _ => exact absurd happ (by simp)
  | applyAutomated rec' =>
    rw [ha] at happ
    dsimp only at happ
    split_ifs at happ with hopen
    obtain ⟨rfl, rfl⟩ := Prod.mk.inj (Option.some.inj happ)
    simp [applyRecommendationAutomated, hr, hopen, h]
  | _ =>
    rw [ha] at happ
    exact absurd happ (by simp)

/-- Without a policy to name, an application that passes the gates changes the status alone. -/
theorem application_unnamed {rec : ℕ} {automated : Bool} {r : Recommendation} {l : Lever}
    (happ : application s a = some (rec, automated)) (hr : recs rec = some r)
    (hl : r.lever = some l) (hp : l.hasPolicy = true) (hn : namesPolicy s rec r = false)
    (hg : gatesPass a.gates s rec r automated = true) :
    perform lower recs s a = some ((markActive s rec).setStatus rec .applied) := by
  have hactivate : ∀ run, assertAppliable s rec r automated = some run →
      activateExecution lower s rec r run = some s := by
    intro run hrun
    cases hx : activateExecution lower s rec r run with
    | some s₁ =>
      cases activateExecution_cases hrun hx with
      | wrote _ _ hnames _ => rw [hn] at hnames; exact absurd hnames (by simp)
      | nothing _ => rfl
    | none =>
      exfalso
      cases l with
      | promptCompression =>
        simp only [activateExecution, hl, activateCompressionPolicy] at hx
        have hmodel : r.policyModel = (nonempty r.relatedModel).or (nonempty r.targetKey) := by
          simp [Recommendation.policyModel, hl]
        cases hm : (nonempty r.relatedModel).or (nonempty r.targetKey) with
        | none => simp [hm] at hx
        | some model =>
          cases hart : artifactForRecommendation s rec with
          | none => simp [hm, hart] at hx
          | some artifact => simp [namesPolicy, hmodel, hm, hl, hart] at hn
      | _ => simp [activateExecution, hl] at hx
  have happly : applyRecommendation lower a.gates s rec r automated = some (markActive s rec) := by
    rw [applyRecommendation_eq, if_pos hg]
    have hsome : (assertAppliable s rec r automated).isSome = true := by
      simp only [gatesPass, Bool.and_eq_true] at hg
      exact hg.1.2
    obtain ⟨run, hrun⟩ := Option.isSome_iff_exists.1 hsome
    rw [hrun, Option.bind_some, hactivate run hrun, Option.map_some]
  exact perform_application happ hr happly

end Frames

end Varsten.ControlPlane
