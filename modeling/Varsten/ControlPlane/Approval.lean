import Varsten.ControlPlane.Evaluations
import Varsten.ControlPlane.Sessions
import Varsten.Machine.Runs

/-!
# Approved and activated changes

An approval is of a recommendation, with the evidence of one run. What an application puts live
comes from the latest run and the latest artifact. Where operations overlap, each is to find its
rows as it has read them.
-/

namespace Varsten.ControlPlane.Approval

open Machine.Commits (Flight committed committing mem_committed)
open Machine.Runs
open Sessions (AllFresh Event Store commit idle oneByOne transformConflict)
open Python.Utf8 (Text)

variable {lower : Text → Text} {recs : Recommendations} {s s' : State} {a : Input}

/-- A change request that a user has approved, and the evidence the user saw. -/
structure Approved (past : List (State × Input)) (rec : ℕ) (cr : ChangeRequest) : Prop where
  status : cr.status = .approved
  decided : ∃ q ∈ past, ∃ user seen, q.2.operation = .decide rec true user ∧
    cr.decidedBy = some user ∧ q.1.changeRequests rec = some seen ∧ seen.evidence = cr.evidence

structure Holds (p : ProxyPolicy) (e : Evidence) : Prop where
  candidate : p.key.lever.isRouting = true → p.candidateModel = some e.candidateModel
  artifact : p.key.lever = .promptCompression → p.artifactId = e.artifact.map (·.id)

/-- An application of a governed lever that commits as `outcome` and enables a policy is of an
approved change, and the policy holds what was approved. -/
def ApprovedChange (lower : Text → Text) (recs : Recommendations) (past : List (State × Input))
    (s : State) (a : Input) (outcome : Option State) : Prop :=
  ∀ rec automated r s', application s a = some (rec, automated) → recs rec = some r →
    r.lever.any Lever.isGated = true → namesPolicy s rec r = true →
      outcome = some s' →
        ∃ cr, s.changeRequests rec = some cr ∧ Approved past rec cr ∧
          ∃ p ∈ s'.policies.rows, r.policyKey lower = some p.key ∧ p.enabled = true ∧
            Holds p cr.evidence

/-- The evidence is still current: the latest run tests the candidate of the evidence, and the
latest artifact is the one of the evidence. -/
structure EvidenceCurrent (s : State) (rec : ℕ) (r : Recommendation) (e : Evidence) : Prop where
  candidate : r.lever.any Lever.isRouting = true →
    (latestRun s rec).map (·.candidateModel) = some e.candidateModel
  artifact : r.lever = some .promptCompression →
    artifactForRecommendation s rec = e.artifact.map (·.id)

/-- Where an application of a governed lever passes its gates and enables a policy, the evidence of
its change request is current. -/
def AppliesCurrent (lower : Text → Text) (recs : Recommendations) (s : State) (a : Input) : Prop :=
  ∀ rec automated r cr, application s a = some (rec, automated) → recs rec = some r →
    r.lever.any Lever.isGated = true → namesPolicy s rec r = true →
      gatesPass a.gates s rec r automated = true → transformConflict lower s r = false →
        s.changeRequests rec = some cr → EvidenceCurrent s rec r cr.evidence

/-! ## Change requests -/

section Requests

variable {rec : ℕ} {cr : ChangeRequest}

theorem setChangeRequest_cases {i : ℕ} {cr' : ChangeRequest}
    (h : (s.setChangeRequest i cr').changeRequests rec = some cr) :
    (i = rec ∧ cr = cr') ∨ s.changeRequests rec = some cr := by
  by_cases hi : rec = i
  · subst hi
    simp only [State.setChangeRequest, Function.update_self, Option.some.injEq] at h
    exact .inl ⟨rfl, h.symm⟩
  · simp only [State.setChangeRequest, Function.update_of_ne hi] at h
    exact .inr h

theorem markActive_approved {i : ℕ} (h : (markActive s i).changeRequests rec = some cr)
    (hs : cr.status = .approved) : s.changeRequests rec = some cr := by
  unfold markActive at h
  split at h
  · split at h
    · rcases setChangeRequest_cases h with ⟨-, rfl⟩ | h
      · exact absurd hs (by simp)
      · exact h
    · exact h
  · exact h

theorem markRolledBack_approved {i : ℕ} (h : (markRolledBack s i).changeRequests rec = some cr)
    (hs : cr.status = .approved) : s.changeRequests rec = some cr := by
  unfold markRolledBack at h
  split at h
  · split at h
    · rcases setChangeRequest_cases h with ⟨-, rfl⟩ | h
      · exact absurd hs (by simp)
      · exact h
    · exact h
  · exact h

theorem ensureChangeRequest_approved {run : EvalRun}
    (h : (ensureChangeRequest recs s run).changeRequests rec = some cr)
    (hs : cr.status = .approved) : s.changeRequests rec = some cr := by
  unfold ensureChangeRequest at h
  split at h
  · exact h
  split at h
  · exact h
  split at h
  · exact h
  dsimp only at h
  split at h
  · split at h
    · next hproposed =>
      rcases setChangeRequest_cases h with ⟨-, rfl⟩ | h
      · exact absurd (hproposed.symm.trans hs) (by simp)
      · exact h
    · exact h
  · rcases setChangeRequest_cases h with ⟨-, rfl⟩ | h
    · exact absurd hs (by simp)
    · exact h

theorem recordRollback_approved {p : ProxyPolicy}
    (h : (recordRollback recs s p).changeRequests rec = some cr)
    (hs : cr.status = .approved) : s.changeRequests rec = some cr := by
  unfold recordRollback at h
  dsimp only at h
  split at h
  · exact h
  · split at h
    · exact h
    · next i _ =>
      have hold := markRolledBack_approved h hs
      exact hold

theorem loadArtifact_requests (artifact : ℕ) :
    (loadArtifact s artifact).2.changeRequests = s.changeRequests := by
  unfold loadArtifact
  repeat' split
  all_goals rfl

theorem approved_cases (h : perform lower recs s a = some s')
    (hcr : s'.changeRequests rec = some cr) (hs : cr.status = .approved) :
    s.changeRequests rec = some cr ∨
      ∃ user seen, a.operation = .decide rec true user ∧ cr.decidedBy = some user ∧
        s.changeRequests rec = some seen ∧ seen.evidence = cr.evidence := by
  cases performed_of_step h with
  | @applied s₁ i _ _ _ _ _ h₁ =>
    have hold : s₁.changeRequests rec = some cr := markActive_approved (i := i) hcr hs
    cases h₁ <;> exact .inl hold
  | @dropped i _ _ _ =>
    exact .inl (markRolledBack_approved (s := deactivateExecution s i) (i := i) hcr hs)
  | drifted _ _ _ => exact .inl (recordRollback_approved hcr hs)
  | finished _ _ _ =>
    have hold := ensureChangeRequest_approved hcr hs
    exact .inl hold
  | @decided i user approve seen ha hseen _ =>
    rcases setChangeRequest_cases hcr with ⟨rfl, rfl⟩ | hold
    · cases approve with
      | true => exact .inr ⟨user, seen, ha, rfl, hseen, rfl⟩
      | false => exact absurd hs (by simp)
    · exact .inl hold
  | loaded _ =>
    rw [loadArtifact_requests] at hcr
    exact .inl hcr
  | _ => exact .inl hcr

end Requests

/-- Every approved request of a run was approved by a user who saw its evidence. -/
def AllApproved (past : List (State × Input)) (s : State) : Prop :=
  ∀ rec cr, s.changeRequests rec = some cr → cr.status = .approved → Approved past rec cr

theorem Approved.later {past : List (State × Input)} {rec : ℕ} {cr : ChangeRequest}
    (h : Approved past rec cr) (q : State × Input) : Approved (past ++ [q]) rec cr where
  status := h.status
  decided := by
    obtain ⟨q', hq, hrest⟩ := h.decided
    exact ⟨q', List.mem_append_left _ hq, hrest⟩

theorem allApproved_step {past : List (State × Input)} (h : AllApproved past s) :
    AllApproved (past ++ [(s, a)]) (step lower recs s a) := by
  intro rec cr hcr hs
  unfold step at hcr
  cases hp : perform lower recs s a with
  | none =>
    rw [hp] at hcr
    exact (h rec cr hcr hs).later _
  | some s' =>
    rw [hp] at hcr
    rcases approved_cases hp hcr hs with hold | ⟨user, seen, hop, hby, hseen, hevidence⟩
    · exact (h rec cr hold hs).later _
    · exact ⟨hs, (s, a), List.mem_append_right _ List.mem_cons_self, user, seen, hop, hby, hseen,
        hevidence⟩

theorem allApproved_run (as : List Input) :
    AllApproved (steps (step lower recs) .initial as) (final (step lower recs) .initial as) := by
  have hstart : AllApproved [] .initial := fun rec cr hcr _ => absurd hcr (by simp [State.initial])
  have hstep : ∀ past s a, True → AllApproved past s →
      AllApproved (past ++ [(s, a)]) (step lower recs s a) := fun _ _ _ _ h => allApproved_step h
  exact history hstep hstart (fun _ _ => trivial)

/-! ## One application -/

section Applications

variable {rec : ℕ} {automated : Bool} {r : Recommendation}

/-- An application that passes its gates commits, unless a live trim is in the way. -/
theorem performs (happ : application s a = some (rec, automated)) (hr : recs rec = some r)
    (hgated : r.lever.any Lever.isGated = true)
    (hg : gatesPass a.gates s rec r automated = true)
    (hconflict : transformConflict lower s r = false) :
    ∃ s', perform lower recs s a = some s' := by
  have hsome : (assertAppliable s rec r automated).isSome = true := by
    simp only [gatesPass, Bool.and_eq_true] at hg
    exact hg.1.2
  obtain ⟨run, hrun⟩ := Option.isSome_iff_exists.1 hsome
  have hactivate : ∃ s₁, activateExecution lower s rec r run = some s₁ := by
    unfold activateExecution
    cases hl : r.lever with
    | none => simp [hl] at hgated
    | some l =>
      cases l with
      | promptCompression =>
        have hmodel : r.policyModel = (nonempty r.relatedModel).or (nonempty r.targetKey) := by
          simp [Recommendation.policyModel, hl]
        dsimp only
        unfold activateCompressionPolicy
        rw [← hmodel]
        cases hm : r.policyModel with
        | none => exact ⟨s, rfl⟩
        | some model =>
          cases ha : artifactForRecommendation s rec with
          | none => exact ⟨s, rfl⟩
          | some artifact =>
            have hkey : r.policyKey lower = some ⟨.promptCompression, model, r.routeKey lower⟩ :=
              policyKey_eq hl rfl hm
            have hfree : s.policies.rows.any (trimConflicts model (r.routeKey lower)) = false := by
              simpa [transformConflict, hl, hkey] using hconflict
            exact ⟨_, if_neg (by rw [hfree]; simp)⟩
      | _ => exact ⟨_, rfl⟩
  obtain ⟨s₁, h₁⟩ := hactivate
  have happly : applyRecommendation lower a.gates s rec r automated =
      some (markActive s₁ rec) := by
    rw [applyRecommendation_eq, if_pos hg, hrun, Option.bind_some, h₁, Option.map_some]
  exact ⟨_, perform_application happ hr happly⟩

theorem writes (happ : application s a = some (rec, automated)) (hr : recs rec = some r)
    (hgated : r.lever.any Lever.isGated = true) (hn : namesPolicy s rec r = true)
    (h : perform lower recs s a = some s') :
    gatesPass a.gates s rec r automated = true ∧ transformConflict lower s r = false ∧
      ∃ p ∈ s'.policies.rows, Activated lower s rec r p := by
  obtain ⟨r', hr', hg, s₁, h₁, rfl⟩ := application_cases happ h
  obtain rfl := Option.some.inj (hr.symm.trans hr')
  have hpolicy : r.lever.any Lever.hasPolicy = true := by
    cases hl : r.lever with
    | none => simp [hl] at hgated
    | some l =>
      have hl' : l.isGated = true := by simpa [hl] using hgated
      simp [Lever.hasPolicy, hl']
  cases h₁ with
  | nothing hnone => exact absurd hnone (by simp [hpolicy, hn])
  | @wrote p _ _ _ hact =>
    refine ⟨hg, ?_, p, by simpa using Machine.Table.mem_put.2 (.inl rfl), hact⟩
    have hl : r.lever = some p.key.lever := lever_of_policyKey hact.key
    unfold transformConflict
    by_cases hc : p.key.lever = .promptCompression
    · simp only [hact.key, Option.any_some, hact.exclusive hc, Bool.and_false]
    · simp [hl, hc]

theorem holds_iff {p : ProxyPolicy} {e : Evidence} (hact : Activated lower s rec r p) :
    Holds p e ↔ EvidenceCurrent s rec r e := by
  have hl : r.lever = some p.key.lever := lever_of_policyKey hact.key
  have hcandidate : p.key.lever.isRouting = true →
      p.candidateModel = (latestRun s rec).map (·.candidateModel) := by
    intro hrouting
    obtain ⟨run, hrun, hp⟩ := hact.candidate hrouting
    rw [hp, hrun, Option.map_some]
  constructor
  · intro h
    refine ⟨fun hrouting => ?_, fun hcompress => ?_⟩
    · have hrouting' : p.key.lever.isRouting = true := by simpa [hl] using hrouting
      rw [← hcandidate hrouting', h.candidate hrouting']
    · have hcompress' : p.key.lever = .promptCompression :=
        Option.some.inj (hl.symm.trans hcompress)
      rw [← (hact.artifact hcompress').2, h.artifact hcompress']
  · intro h
    refine ⟨fun hrouting => ?_, fun hcompress => ?_⟩
    · rw [hcandidate hrouting, h.candidate (by simpa [hl] using hrouting)]
    · rw [(hact.artifact hcompress).2, h.artifact (hl.trans (congrArg some hcompress))]

end Applications

/-! ## Runs -/

theorem approved_iff_current {as : List Input} {a : Input} (hon : a.gates.enforced = true) :
    ApprovedChange lower recs (steps (step lower recs) .initial as)
        (final (step lower recs) .initial as) a
        (perform lower recs (final (step lower recs) .initial as) a) ↔
      AppliesCurrent lower recs (final (step lower recs) .initial as) a := by
  constructor
  · intro h rec automated r cr happ hr hgated hn hg hconflict hcr
    obtain ⟨s', hs'⟩ := performs happ hr hgated hg hconflict
    obtain ⟨cr', hcr', -, p, hp, hkey, -, hholds⟩ := h rec automated r s' happ hr hgated hn hs'
    obtain rfl := Option.some.inj (hcr.symm.trans hcr')
    obtain ⟨-, -, p', hp', hact⟩ := writes happ hr hgated hn hs'
    obtain rfl := Machine.Table.eq_of_key_eq hp hp' (Option.some.inj (hkey.symm.trans hact.key))
    exact (holds_iff hact).1 hholds
  · intro h rec automated r s' happ hr hgated hn hs'
    obtain ⟨hg, hconflict, p, hp, hact⟩ := writes happ hr hgated hn hs'
    have happroved : ∃ cr, (final (step lower recs) .initial as).changeRequests rec = some cr ∧
        cr.status = .approved := by
      simp only [gatesPass, changeRequestApproved, hgated, hon, Bool.and_eq_true, Bool.not_true,
        Bool.false_or] at hg
      cases hcr : (final (step lower recs) .initial as).changeRequests rec with
      | none => simp [hcr] at hg
      | some cr => exact ⟨cr, rfl, by simpa [hcr] using hg.2⟩
    obtain ⟨cr, hcr, hs⟩ := happroved
    exact ⟨cr, hcr, allApproved_run as rec cr hcr hs, p, hp, hact.key, hact.enabled,
      (holds_iff hact).2 (h rec automated r cr happ hr hgated hn hg hconflict hcr)⟩

/-- With governance enforced throughout, and each operation that commits finding its rows as it
has read them, what a run of overlapping operations commits next is of an approved change exactly
when the evidence of its request is current. -/
theorem approved_is_activated_iff (lower : Text → Text) (recs : Recommendations)
    {es : List Event} {e : Event} {x : Flight State Input}
    (hx : committing (final (Sessions.step lower recs) idle es) e = some x)
    (hfresh : AllFresh lower recs (steps (Sessions.step lower recs) idle (es ++ [e])))
    (henforced : ∀ p ∈ committed (steps (Sessions.step lower recs) idle (es ++ [e])),
      p.2.gates.enforced = true) :
    ApprovedChange lower recs (committed (steps (Sessions.step lower recs) idle es))
        (final (Sessions.step lower recs) idle es).base x.input
        (commit lower recs x (final (Sessions.step lower recs) idle es).base) ↔
      AppliesCurrent lower recs (final (Sessions.step lower recs) idle es).base x.input := by
  rw [steps_append] at hfresh henforced
  have hin : (final (Sessions.step lower recs) idle es, e) ∈
      steps (Sessions.step lower recs) idle es ++
        steps (Sessions.step lower recs) (final (Sessions.step lower recs) idle es) [e] :=
    List.mem_append_right _ List.mem_cons_self
  have hlast := hfresh _ hin x hx
  have hon : x.input.gates.enforced = true := henforced _ (mem_committed hin hx)
  obtain ⟨as, hcommitted, hbase⟩ := Sessions.run_fresh
    (fun q hq => hfresh q (List.mem_append_left _ hq))
  rw [Sessions.commit_fresh hlast, hcommitted, hbase]
  exact approved_iff_current hon

/-! ## An approval overtaken by another eval -/

def enforced : Gates := ⟨true, fun _ => true, true⟩

/-- A downshift of the model `m`. -/
def downshiftOfM : Recommendations := fun rec =>
  if rec = 0 then some ⟨some .modelDownshift, none, none, some "m", none⟩ else none

/-- The candidate `n` is evaluated and approved, then the catalog suggests `o`, which clears too. -/
def approvedThenEvaluated : List Input :=
  [⟨enforced, .evaluate 0 (some "n") ⟨0, 0⟩⟩, ⟨enforced, .startRun 0⟩,
    ⟨enforced, .finishRun 0 (some .safe)⟩, ⟨enforced, .decide 0 true 7⟩,
    ⟨enforced, .evaluate 0 (some "o") ⟨1, 1⟩⟩, ⟨enforced, .startRun 0⟩,
    ⟨enforced, .finishRun 0 (some .safe)⟩]

def applyOfM : Input := ⟨enforced, .transition 0 .applied⟩

def overtaken : List Event := oneByOne approvedThenEvaluated ++ [.begins applyOfM]

def overtakenState : State := final (step id downshiftOfM) .initial approvedThenEvaluated

theorem overtaken_final : final (Sessions.step id downshiftOfM) idle overtaken =
    ⟨overtakenState, [⟨applyOfM, overtakenState⟩]⟩ := by
  rw [overtaken, final_append, idle,
    (Sessions.run_oneByOne id downshiftOfM .initial approvedThenEvaluated).1]
  rfl

theorem other_candidate_activated :
    ¬ ApprovedChange id downshiftOfM
      (committed (steps (Sessions.step id downshiftOfM) idle overtaken))
      (final (Sessions.step id downshiftOfM) idle overtaken).base applyOfM
      (commit id downshiftOfM ⟨applyOfM, overtakenState⟩
        (final (Sessions.step id downshiftOfM) idle overtaken).base) := by
  rw [overtaken_final, Sessions.commit_self]
  intro h
  obtain ⟨cr, hcr, -, p, hp, -, -, hholds⟩ := h 0 false _ _ rfl rfl rfl (by decide +kernel) rfl
  obtain rfl := List.mem_singleton.1 hp
  have hn : cr.evidence.candidateModel = "n" :=
    congrArg (fun cr => cr.elim "" (·.evidence.candidateModel)) hcr.symm
  have ho := hholds.candidate rfl
  rw [hn] at ho
  exact absurd ho (by decide +kernel)

theorem approved_is_activated_overtaken :
    ApprovedChange id downshiftOfM
        (committed (steps (Sessions.step id downshiftOfM) idle overtaken))
        (final (Sessions.step id downshiftOfM) idle overtaken).base applyOfM
        (commit id downshiftOfM ⟨applyOfM, overtakenState⟩
          (final (Sessions.step id downshiftOfM) idle overtaken).base) ↔
      AppliesCurrent id downshiftOfM (final (Sessions.step id downshiftOfM) idle overtaken).base
        applyOfM := by
  have hwhole : overtaken ++ [.commits 0] = oneByOne (approvedThenEvaluated ++ [applyOfM]) := rfl
  have hx : committing (final (Sessions.step id downshiftOfM) idle overtaken)
      (.commits 0 : Event) = some ⟨applyOfM, overtakenState⟩ := by
    rw [overtaken_final]
    rfl
  refine approved_is_activated_iff id downshiftOfM hx ?_ ?_
  · rw [hwhole]
    exact Sessions.fresh_oneByOne id downshiftOfM .initial _
  · rw [hwhole, idle, (Sessions.run_oneByOne id downshiftOfM .initial _).2]
    have hin : ∀ a ∈ approvedThenEvaluated ++ [applyOfM], a.gates.enforced = true := by
      simp [approvedThenEvaluated, applyOfM, enforced]
    exact input_of_steps hin

end Varsten.ControlPlane.Approval
