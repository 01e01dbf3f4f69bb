import Varsten.ControlPlane.Changes
import Varsten.Machine.Commits

/-!
# Operations that overlap

An application, a decision and the end of an eval read their rows at several times before they
commit, and the ORM writes the columns that differ from what it has read. Where the rows are still
as they were read, that is what the operation does at once. The other operations stay transactions
of one step.
-/

namespace Varsten.ControlPlane.Sessions

open Machine (Table)
open Machine.Commits (Flight alone committed committing)
open Machine.Runs (final steps)
open Python.Utf8 (Text)

inductive Part where
  | status
  | runs
  | artifacts
  | changeRequests
  | policies

def read (part : Part) (s view : State) : State :=
  match part with
  | .status => { view with status := s.status }
  | .runs => { view with evals := { view.evals with runs := s.evals.runs } }
  | .artifacts => { view with evals := { view.evals with artifacts := s.evals.artifacts } }
  | .changeRequests => { view with changeRequests := s.changeRequests }
  | .policies => { view with policies := s.policies }

/-- What a column holds after the flush of a row that was read as `seen`. -/
def column {α : Type} [DecidableEq α] (seen new current : α) : α :=
  if new = seen then current else new

@[simp] theorem column_same {α : Type} [DecidableEq α] (seen new : α) :
    column seen new seen = new := by
  unfold column
  split_ifs with h
  · exact h.symm
  · rfl

/-! ## Applications -/

/-- `params` is one column. -/
def writtenPolicy (seen new current : ProxyPolicy) : ProxyPolicy :=
  let params := column (seen.candidateModel, seen.artifactId) (new.candidateModel, new.artifactId)
    (current.candidateModel, current.artifactId)
  { current with
    enabled := column seen.enabled new.enabled current.enabled
    source := column seen.source new.source current.source
    candidateModel := params.1
    artifactId := params.2
    driftRolledBack :=
      column seen.driftRolledBack new.driftRolledBack current.driftRolledBack }

/-- The flush of a policy; `none` where the row that it adds is there by now. -/
def flushPolicy (seen new : Option ProxyPolicy) (policies : Table ProxyPolicy.key) :
    Option (Table ProxyPolicy.key) :=
  match new with
  | none => some policies
  | some p =>
    match seen, policies.find p.key with
    | none, none => some (policies.put p)
    | none, some _ => none
    | some o, some current => some (policies.put (writtenPolicy o p current))
    | some _, none => some policies

def flushActive (view s : State) (rec : ℕ) : State :=
  match view.changeRequests rec, s.changeRequests rec with
  | some seen, some cr =>
    if seen.status = .proposed ∨ seen.status = .approved then
      s.setChangeRequest rec { cr with status := .active }
    else s
  | _, _ => s

def clearsCache (view : State) (rec : ℕ) (r : Recommendation) : Bool :=
  r.lever = some .promptCompression && namesPolicy view rec r

section Commit

variable (lower : Text → Text) (recs : Recommendations)

def commitApplication (g : Gates) (view s : State) (rec : ℕ) (automated : Bool) :
    Option State := do
  let r ← recs rec
  if !gatesPass g view rec r automated then none
  else
    let run ← assertAppliable view rec r automated
    let after ← activateExecution lower view rec r run
    let key := r.policyKey lower
    let policies ← flushPolicy (key.bind view.policies.find) (key.bind after.policies.find)
      s.policies
    let s := { s with policies }
    let s := if clearsCache view rec r then s.setArtifactCache fun _ => none else s
    some ((flushActive view s rec).setStatus rec
      (column (view.status rec) .applied (s.status rec)))

/-! ## Decisions and ends of evals -/

def commitDecision (view s : State) (rec : ℕ) (approve : Bool) (user : ℕ) : Option State := do
  let seen ← view.changeRequests rec
  let cr ← s.changeRequests rec
  if seen.status ≠ .proposed then none
  else some (s.setChangeRequest rec { cr with
    status := if approve then .approved else .rejected
    decidedBy := column seen.decidedBy (some user) cr.decidedBy })

def writtenRun (seen ended current : EvalRun) : EvalRun :=
  { current with
    status := column seen.status ended.status current.status
    verdict := column seen.verdict ended.verdict current.verdict
    artifact := column seen.artifact ended.artifact current.artifact }

def commitEnd (view s : State) (n : ℕ) (outcome : Option Verdict) : Option State := do
  let x ← s.evals.executions[n]?
  let seen ← view.evals.runs.find x.run
  let run ← s.evals.runs.find x.run
  let after (outcome : Option Verdict) : State := s.setEvals { s.evals with
    executions := s.evals.executions.eraseIdx n
    runs := s.evals.runs.put (writtenRun seen (seen.ended x.artifact outcome) run) }
  let i := seen.recommendation
  match view.changeRequests i,
      (ensureChangeRequest recs view (seen.ended x.artifact outcome)).changeRequests i,
      s.changeRequests i with
  | none, some cr, none => some ((after outcome).setChangeRequest i cr)
  | none, some _, some _ => some (after none)
  | some old, some new, some cr => some ((after outcome).setChangeRequest i { cr with
      evidence := column old.evidence new.evidence cr.evidence })
  | _, _, _ => some (after outcome)

def commit (x : Flight State Input) (s : State) : Option State :=
  match x.input.operation with
  | .transition rec .applied =>
    commitApplication lower recs x.input.gates x.view s rec false
  | .applyAutomated rec => do
    let _ ← recs rec
    if x.view.status rec ≠ .opened then some s
    else commitApplication lower recs x.input.gates x.view s rec true
  | .decide rec approve user => commitDecision x.view s rec approve user
  | .finishRun n outcome => commitEnd recs x.view s n outcome
  | _ => perform lower recs s x.input

end Commit

/-! ## Rows that are as they were read -/

def transformConflict (lower : Text → Text) (s : State) (r : Recommendation) : Bool :=
  r.lever = some .promptCompression && (r.policyKey lower).any fun k =>
    s.policies.rows.any (trimConflicts k.targetKey k.routeKey)

structure ApplicationFresh (lower : Text → Text) (view s : State) (rec : ℕ) (r : Recommendation) :
    Prop where
  status : view.status rec = s.status rec
  run : latestRun view rec = latestRun s rec
  request : view.changeRequests rec = s.changeRequests rec
  artifact : artifactForRecommendation view rec = artifactForRecommendation s rec
  policy : ∀ key, r.policyKey lower = some key → view.policies.find key = s.policies.find key
  trims : transformConflict lower view r = transformConflict lower s r

/-- What the operation has read of its rows is there. -/
def Fresh (lower : Text → Text) (recs : Recommendations) (x : Flight State Input) (s : State) :
    Prop :=
  match x.input.operation with
  | .transition rec .applied | .applyAutomated rec =>
    ∀ r, recs rec = some r → ApplicationFresh lower x.view s rec r
  | .decide rec _ _ => x.view.changeRequests rec = s.changeRequests rec
  | .finishRun n _ => ∀ y run, s.evals.executions[n]? = some y →
      s.evals.runs.find y.run = some run → x.view.evals.runs.find y.run = some run ∧
        x.view.changeRequests run.recommendation = s.changeRequests run.recommendation
  | _ => True

theorem fresh_self (lower : Text → Text) (recs : Recommendations) (a : Input) (s : State) :
    Fresh lower recs ⟨a, s⟩ s := by
  unfold Fresh
  split
  · exact fun r _ => ⟨rfl, rfl, rfl, rfl, fun _ _ => rfl, rfl⟩
  · exact fun r _ => ⟨rfl, rfl, rfl, rfl, fun _ _ => rfl, rfl⟩
  · rfl
  · exact fun y run _ hrun => ⟨hrun, rfl⟩
  · trivial

section Fresh

variable {lower : Text → Text} {recs : Recommendations} {view s : State} {rec : ℕ}
  {r : Recommendation} {g : Gates} {automated : Bool}

theorem writtenPolicy_same {o p : ProxyPolicy} (h : o.key = p.key) : writtenPolicy o p o = p := by
  cases o
  cases p
  cases h
  simp [writtenPolicy]

theorem flush_kept {key : Option PolicyKey}
    (h : ∀ k, key = some k → view.policies.find k = s.policies.find k) :
    flushPolicy (key.bind view.policies.find) (key.bind view.policies.find) s.policies =
      some s.policies := by
  cases key with
  | none => rfl
  | some k =>
    rw [Option.bind_some, h k rfl]
    cases hp : s.policies.find k with
    | none => rfl
    | some p =>
      obtain ⟨-, rfl⟩ := Table.find_eq_some.1 hp
      simp only [flushPolicy, hp, writtenPolicy_same rfl, Table.put_self hp]

theorem flush_put {key : Option PolicyKey} {p : ProxyPolicy} (hkey : key = some p.key)
    (h : view.policies.find p.key = s.policies.find p.key) :
    flushPolicy (key.bind view.policies.find) (key.bind (view.putPolicy p).policies.find)
      s.policies = some (s.policies.put p) := by
  rw [hkey, Option.bind_some, Option.bind_some, putPolicy_policies, Table.find_put, if_pos rfl, h]
  cases hp : s.policies.find p.key with
  | none => simp only [flushPolicy, hp]
  | some o =>
    obtain ⟨-, ho⟩ := Table.find_eq_some.1 hp
    simp only [flushPolicy, hp, writtenPolicy_same ho]

theorem policyAt_fresh {key : PolicyKey} (h : view.policies.find key = s.policies.find key) :
    view.policyAt key = s.policyAt key := by
  unfold State.policyAt
  rw [h]

def flushed (lower : Text → Text) (view s : State) (rec : ℕ) (r : Recommendation)
    (after : State) : Option State :=
  (flushPolicy ((r.policyKey lower).bind view.policies.find)
    ((r.policyKey lower).bind after.policies.find) s.policies).map fun policies =>
      if clearsCache view rec r then { s with policies }.setArtifactCache fun _ => none
      else { s with policies }

theorem flushed_kept (h : ApplicationFresh lower view s rec r)
    (hclears : clearsCache view rec r = false) : flushed lower view s rec r view = some s := by
  rw [flushed, flush_kept h.policy, hclears]
  rfl

theorem flushed_rule {l : Lever} (hl : r.lever = some l) (hrouting : l.isRouting = true)
    (h : ApplicationFresh lower view s rec r) (model : String) :
    flushed lower view s rec r (activateRule lower view rec r model) =
      some (activateRule lower s rec r model) := by
  have hpolicy : l.hasPolicy = true := by simp [Lever.hasPolicy, Lever.isGated, hrouting]
  have hcompress : l ≠ .promptCompression := by rintro rfl; exact absurd hrouting (by decide)
  have hclears : clearsCache view rec r = false := by simp [clearsCache, hl, hcompress]
  have hmodel : r.policyModel = nonempty r.relatedModel := by
    simp [Recommendation.policyModel, hl, hcompress]
  have hlever : (r.lever.filter Lever.isRouting).getD .modelDownshift = l := by
    simp [hl, Option.filter, hrouting]
  unfold activateRule
  cases hm : nonempty r.relatedModel with
  | none => exact flushed_kept h hclears
  | some incumbent =>
    dsimp only
    split_ifs
    · exact flushed_kept h hclears
    · have hkey := @policyKey_eq lower r l incumbent hl hpolicy (hmodel.trans hm)
      rw [hlever, policyAt_fresh (h.policy _ hkey), flushed, flush_put hkey (h.policy _ hkey),
        hclears]
      rfl

theorem flushed_trim (hl : r.lever = some .tokenTrim) (h : ApplicationFresh lower view s rec r) :
    flushed lower view s rec r (activateTrimPolicy lower view rec r) =
      some (activateTrimPolicy lower s rec r) := by
  have hclears : clearsCache view rec r = false := by simp [clearsCache, hl]
  have hmodel : r.policyModel = nonempty r.relatedModel := by
    simp [Recommendation.policyModel, hl]
  unfold activateTrimPolicy
  cases hm : nonempty r.relatedModel with
  | none => exact flushed_kept h hclears
  | some model =>
    have hkey := @policyKey_eq lower r .tokenTrim model hl rfl (hmodel.trans hm)
    dsimp only
    rw [policyAt_fresh (h.policy _ hkey), flushed, flush_put hkey (h.policy _ hkey), hclears]
    rfl

theorem flushed_compression (hl : r.lever = some .promptCompression)
    (h : ApplicationFresh lower view s rec r) :
    (activateCompressionPolicy lower view rec r).bind (flushed lower view s rec r) =
      activateCompressionPolicy lower s rec r := by
  have hmodel : r.policyModel = (nonempty r.relatedModel).or (nonempty r.targetKey) := by
    simp [Recommendation.policyModel, hl]
  unfold activateCompressionPolicy
  rw [← hmodel, ← h.artifact]
  cases hm : r.policyModel with
  | none => exact flushed_kept h (by simp [clearsCache, namesPolicy, hm])
  | some model =>
    cases ha : artifactForRecommendation view rec with
    | none => exact flushed_kept h (by simp [clearsCache, namesPolicy, hm, hl, ha])
    | some artifact =>
      have hkey := @policyKey_eq lower r .promptCompression model hl rfl hm
      have htrims := h.trims
      simp only [transformConflict, hl, hkey, Option.any_some, decide_true, Bool.true_and] at htrims
      dsimp only
      rw [htrims]
      split_ifs
      · rfl
      · have hclears : clearsCache view rec r = true := by
          simp [clearsCache, namesPolicy, hm, hl, ha]
        rw [Option.bind_some, policyAt_fresh (h.policy _ hkey), flushed,
          setArtifactCache_policies, flush_put hkey (h.policy _ hkey), hclears]
        rfl

theorem activation_fresh (h : ApplicationFresh lower view s rec r) (run : Option EvalRun) :
    (activateExecution lower view rec r run).bind (flushed lower view s rec r) =
      activateExecution lower s rec r run := by
  have hroute : ∀ l, r.lever = some l → l.isRouting = true →
      flushed lower view s rec r
        (run.elim view fun x => activateRule lower view rec r x.candidateModel) =
          some (run.elim s fun x => activateRule lower s rec r x.candidateModel) := by
    intro l hl hrouting
    cases run with
    | none =>
      have hcompress : l ≠ .promptCompression := by rintro rfl; exact absurd hrouting (by decide)
      exact flushed_kept h (by simp [clearsCache, hl, hcompress])
    | some x => exact flushed_rule hl hrouting h x.candidateModel
  unfold activateExecution
  cases hl : r.lever with
  | none => exact flushed_kept h (by simp [clearsCache, hl])
  | some l =>
    cases l with
    | modelDownshift => exact hroute _ hl rfl
    | smartRouting => exact hroute _ hl rfl
    | tokenTrim => exact flushed_trim hl h
    | promptCompression => exact flushed_compression hl h
    | semanticCache => exact flushed_kept h (by simp [clearsCache, hl])
    | batching => exact flushed_kept h (by simp [clearsCache, hl])

theorem assertAppliable_fresh (h : ApplicationFresh lower view s rec r) :
    assertAppliable view rec r automated = assertAppliable s rec r automated := by
  unfold assertAppliable
  rw [h.run]

theorem gatesPass_fresh (h : ApplicationFresh lower view s rec r) :
    gatesPass g view rec r automated = gatesPass g s rec r automated := by
  unfold gatesPass changeRequestApproved
  rw [assertAppliable_fresh h, h.request]

theorem flushActive_fresh (h : view.changeRequests rec = s.changeRequests rec) :
    flushActive view s rec = markActive s rec := by
  unfold flushActive markActive
  rw [h]
  cases s.changeRequests rec <;> rfl

theorem commitApplication_fresh (hr : recs rec = some r)
    (h : ApplicationFresh lower view s rec r) :
    commitApplication lower recs g view s rec automated =
      (applyRecommendation lower g s rec r automated).map fun s => s.setStatus rec .applied := by
  have hcommit : commitApplication lower recs g view s rec automated =
      if gatesPass g view rec r automated then
        ((assertAppliable view rec r automated).bind fun run =>
          (activateExecution lower view rec r run).bind (flushed lower view s rec r)).map
            fun s' => (flushActive view s' rec).setStatus rec
              (column (view.status rec) .applied (s.status rec))
      else none := by
    simp only [commitApplication, hr, Option.bind_eq_bind, Option.bind_some]
    cases gatesPass g view rec r automated with
    | false => rfl
    | true =>
      simp only [Bool.not_true, Bool.false_eq_true, if_false, if_true, Option.map_bind]
      refine congrArg _ (funext fun run => ?_)
      simp only [Function.comp, Option.map_bind]
      refine congrArg _ (funext fun after => ?_)
      simp only [flushed, Option.map_map]
      cases flushPolicy ((r.policyKey lower).bind view.policies.find)
        ((r.policyKey lower).bind after.policies.find) s.policies with
      | none => rfl
      | some policies =>
        simp only [Option.bind_some, Option.map_some, Function.comp]
        split_ifs <;> rfl
  rw [hcommit, applyRecommendation_eq, gatesPass_fresh h, assertAppliable_fresh h, h.status,
    column_same]
  split_ifs
  · simp only [activation_fresh h, Option.map_map]
    refine Option.map_congr fun s' hs' => ?_
    obtain ⟨run, hrun, hactivate⟩ := Option.bind_eq_some_iff.1 hs'
    have hrequests : s'.changeRequests = s.changeRequests := by
      cases activateExecution_cases hrun hactivate <;> rfl
    rw [flushActive_fresh (h.request.trans (congrFun hrequests rec).symm)]
    rfl
  · rfl

/-! ## Decisions and ends of evals -/

theorem commitDecision_fresh {approve : Bool} {user : ℕ}
    (h : view.changeRequests rec = s.changeRequests rec) :
    commitDecision view s rec approve user = decideChangeRequest s rec approve user := by
  unfold commitDecision decideChangeRequest
  rw [h]
  cases s.changeRequests rec with
  | none => rfl
  | some cr => simp

theorem writtenRun_same (run : EvalRun) (artifact : Option PromptCompression)
    (outcome : Option Verdict) :
    writtenRun run (run.ended artifact outcome) run = run.ended artifact outcome := by
  cases outcome <;> simp [writtenRun, EvalRun.ended]

/-- The evidence that the end of an eval proposes. -/
def proposal (recs : Recommendations) (run : EvalRun) : Option Evidence := do
  let r ← recs run.recommendation
  if run.status = .completed ∧ (run.verdict = some .safe ∨ run.verdict = some .needsHuman) ∧
    r.lever.any Lever.isGated = true then some ⟨run.id, run.candidateModel, run.artifact⟩ else none

/-- What the end of an eval does to the request of its recommendation. -/
def proposed (evidence : Evidence) : Option ChangeRequest → ChangeRequest
  | some cr => if cr.status = .proposed then { cr with evidence } else cr
  | none => ⟨.proposed, evidence, none⟩

theorem setChangeRequest_self {i : ℕ} {cr : ChangeRequest} (h : s.changeRequests i = some cr) :
    s.setChangeRequest i cr = s := by
  unfold State.setChangeRequest
  rw [← h, Function.update_eq_self]

theorem ensureChangeRequest_eq (s : State) (run : EvalRun) :
    ensureChangeRequest recs s run = (proposal recs run).elim s fun evidence =>
      s.setChangeRequest run.recommendation
        (proposed evidence (s.changeRequests run.recommendation)) := by
  unfold ensureChangeRequest proposal
  simp only [Option.bind_eq_bind]
  cases recs run.recommendation with
  | none =>
    dsimp only
    split_ifs <;> rfl
  | some r =>
    rw [Option.bind_some]
    by_cases hdone : run.status = .completed ∧
        (run.verdict = some .safe ∨ run.verdict = some .needsHuman)
    · rw [if_neg (by simpa [or_iff_not_imp_left] using hdone)]
      dsimp only
      by_cases hgated : r.lever.any Lever.isGated = true
      · rw [if_neg (not_not.2 hgated), if_pos ⟨hdone.1, hdone.2, hgated⟩, Option.elim_some]
        cases hcr : s.changeRequests run.recommendation with
        | none => rfl
        | some cr =>
          dsimp only [proposed]
          split_ifs
          · rfl
          · exact (setChangeRequest_self hcr).symm
      · rw [if_pos hgated, if_neg fun h => hgated h.2.2]
        rfl
    · rw [if_pos (by simpa [or_iff_not_imp_left] using hdone), if_neg fun h => hdone ⟨h.1, h.2.1⟩]
      rfl

theorem commitEnd_fresh {n : ℕ} {outcome : Option Verdict}
    (h : ∀ y run, s.evals.executions[n]? = some y → s.evals.runs.find y.run = some run →
      view.evals.runs.find y.run = some run ∧
        view.changeRequests run.recommendation = s.changeRequests run.recommendation) :
    commitEnd recs view s n outcome = finishRun recs s n outcome := by
  unfold commitEnd finishRun
  simp only [Option.bind_eq_bind]
  cases hx : s.evals.executions[n]? with
  | none => rfl
  | some x =>
    cases hrun : s.evals.runs.find x.run with
    | none => cases hview : view.evals.runs.find x.run <;> simp [hrun, hview]
    | some run =>
      obtain ⟨hview, hrequest⟩ := h x run hx hrun
      have hrec : (run.ended x.artifact outcome).recommendation = run.recommendation := by
        cases outcome <;> rfl
      simp only [Option.bind_some, hview, hrun, writtenRun_same, ensureChangeRequest_eq, hrec,
        hrequest]
      cases proposal recs (run.ended x.artifact outcome) with
      | none =>
        simp only [Option.elim_none, hrequest]
        cases hcr : s.changeRequests run.recommendation with
        | none => rfl
        | some cr =>
          dsimp only
          rw [column_same, setChangeRequest_self]
          exact hcr
      | some evidence =>
        simp only [Option.elim_some, State.setChangeRequest, Function.update_self]
        cases hcr : s.changeRequests run.recommendation with
        | none =>
          simp only [State.setEvals, hcr]
        | some cr =>
          simp only [State.setEvals, hcr, proposed, column_same]
          split_ifs <;> rfl

theorem commit_fresh {x : Flight State Input} (h : Fresh lower recs x s) :
    commit lower recs x s = perform lower recs s x.input := by
  obtain ⟨a, view⟩ := x
  unfold Fresh at h
  unfold commit perform
  dsimp only at h ⊢
  cases ha : a.operation with
  | transition rec next =>
    rw [ha] at h
    cases next with
    | applied =>
      simp only [transitionRecommendation, Option.bind_eq_bind]
      cases hr : recs rec with
      | none => simp [commitApplication, hr]
      | some r =>
        rw [commitApplication_fresh hr (h r hr), Option.bind_some, Option.map_eq_bind]
        rfl
    | _ => rfl
  | applyAutomated rec =>
    rw [ha] at h
    simp only [applyRecommendationAutomated, Option.bind_eq_bind]
    cases hr : recs rec with
    | none => rfl
    | some r =>
      rw [Option.bind_some, Option.bind_some, (h r hr).status]
      split_ifs
      · rfl
      · rw [commitApplication_fresh hr (h r hr), Option.map_eq_bind]
        rfl
  | decide rec approve user =>
    rw [ha] at h
    exact commitDecision_fresh h
  | finishRun n outcome =>
    rw [ha] at h
    exact commitEnd_fresh h
  | _ => rfl

end Fresh

/-! ## Runs -/

abbrev Store := Machine.Commits.Store State Input

abbrev Event := Machine.Commits.Event Input Part

def step (lower : Text → Text) (recs : Recommendations) : Store → Event → Store :=
  Machine.Commits.step read (commit lower recs)

def idle : Store := ⟨.initial, []⟩

/-- Each operation that a run commits finds its rows as it has read them. -/
def AllFresh (lower : Text → Text) (recs : Recommendations) (run : List (Store × Event)) : Prop :=
  ∀ q ∈ run, ∀ x, committing q.1 q.2 = some x → Fresh lower recs x q.1.base

section Runs

variable {lower : Text → Text} {recs : Recommendations}

theorem run_fresh {t : Store} {es : List Event}
    (h : AllFresh lower recs (steps (step lower recs) t es)) :
    ∃ as, committed (steps (step lower recs) t es) =
        steps (ControlPlane.step lower recs) t.base as ∧
      (final (step lower recs) t es).base = final (ControlPlane.step lower recs) t.base as :=
  Machine.Commits.run_of_serial fun q hq x hx => commit_fresh (h q hq x hx)

theorem commit_self (lower : Text → Text) (recs : Recommendations) (s : State) (a : Input) :
    commit lower recs ⟨a, s⟩ s = perform lower recs s a := commit_fresh (fresh_self lower recs a s)

def oneByOne (as : List Input) : List Event := as.flatMap alone

theorem run_oneByOne (lower : Text → Text) (recs : Recommendations) (s : State)
    (as : List Input) :
    final (step lower recs) ⟨s, []⟩ (oneByOne as) =
        ⟨final (ControlPlane.step lower recs) s as, []⟩ ∧
      committed (steps (step lower recs) ⟨s, []⟩ (oneByOne as)) =
        steps (ControlPlane.step lower recs) s as :=
  Machine.Commits.run_alone read (commit_self lower recs) s as

theorem fresh_oneByOne (lower : Text → Text) (recs : Recommendations) (s : State)
    (as : List Input) : AllFresh lower recs (steps (step lower recs) ⟨s, []⟩ (oneByOne as)) := by
  intro q hq x hx
  rw [Machine.Commits.view_alone read (commit_self lower recs) s as q hq x hx]
  exact fresh_self lower recs x.input q.1.base

end Runs

end Varsten.ControlPlane.Sessions
