import Varsten.ControlPlane.Transitions

/-!
# What a step does to policies and statuses

One inversion for all operations, from which the invariants of the control plane follow.
-/

namespace Varsten.ControlPlane

open Python.Utf8 (Text)

variable {lower : Text → Text} {recs : Recommendations} {s s' : State} {a : Input}

def resumable (g : Gates) (p : ProxyPolicy) : Bool :=
  g.performance && g.leverEnabled p.key.lever &&
    (p.key.lever.isRouting || p.key.lever = .tokenTrim ||
      (p.key.lever = .promptCompression && p.artifactId.isSome))

theorem updatePolicy_cases {g : Gates} {key : PolicyKey} {enabled : Option Bool}
    (h : updatePolicy g s key enabled = some s') :
    ∃ p, s.policies.find key = some p ∧ (enabled = some true → resumable g p = true) ∧
      s' = s.putPolicy { p with enabled := enabled.getD p.enabled } := by
  simp only [updatePolicy, Option.bind_eq_bind, Option.bind_eq_some_iff] at h
  obtain ⟨p, hp, h⟩ := h
  obtain ⟨-, rfl⟩ := Machine.Table.find_eq_some.1 hp
  split_ifs at h with hlever hgates hartifact
  obtain rfl := Option.some.inj h
  refine ⟨p, hp, fun hon => ?_, rfl⟩
  subst hon
  have hopen : g.performance = true ∧ g.leverEnabled p.key.lever = true := by
    simpa using hgates
  have hheld : p.key.lever = .promptCompression → p.artifactId.isSome = true := by
    simpa [Option.isSome_iff_ne_none] using hartifact
  simp only [resumable, hopen, Bool.true_and]
  by_cases hc : p.key.lever = .promptCompression
  · simp [hc, hheld hc]
  · simpa [hc, or_iff_not_imp_left] using hlever

theorem updatePolicy_resume {g : Gates} {p : ProxyPolicy} (hp : s.policies.find p.key = some p)
    (hr : resumable g p = true) :
    updatePolicy g s p.key (some true) = some (s.putPolicy { p with enabled := true }) := by
  simp only [resumable, Bool.and_eq_true] at hr
  obtain ⟨⟨hperf, hen⟩, hlever⟩ := hr
  simp only [updatePolicy, hp, Option.bind_eq_bind, Option.bind_some, hperf, hen]
  by_cases hc : p.key.lever = .promptCompression
  · have hart : p.artifactId ≠ none := by
      simpa [hc, Lever.isRouting, Option.isSome_iff_ne_none] using hlever
    simp [hc, hart]
  · have hpatch : (p.key.lever.isRouting || decide (p.key.lever = .tokenTrim)) = true := by
      simpa [hc] using hlever
    simp [hc, hpatch]

inductive Performed (lower : Text → Text) (recs : Recommendations) (s : State) (a : Input) :
    State → Prop where
  | applied {s₁ : State} {rec : ℕ} {automated : Bool} {r : Recommendation} :
      application s a = some (rec, automated) → recs rec = some r →
      gatesPass a.gates s rec r automated = true → Activation lower s rec r s₁ →
      Performed lower recs s a ((markActive s₁ rec).setStatus rec .applied)
  | reopened {rec : ℕ} : a.operation = .transition rec .opened → recs rec ≠ none →
      Performed lower recs s a (s.setStatus rec .opened)
  | dropped {rec : ℕ} {next : RecommendationStatus} : a.operation = .transition rec next →
      next ≠ .applied →
      Performed lower recs s a
        ((markRolledBack (deactivateExecution s rec) rec).setStatus rec next)
  | passed {rec : ℕ} : a.operation = .applyAutomated rec → s.status rec ≠ .opened →
      Performed lower recs s a s
  | drifted {p : ProxyPolicy} {key : PolicyKey} : a.operation = .driftRollback key →
      s.policies.find key = some p → isSwept p = true →
      Performed lower recs s a (recordRollback recs s p)
  | patched {p : ProxyPolicy} {key : PolicyKey} {enabled : Option Bool} :
      a.operation = .updatePolicy key enabled → s.policies.find key = some p →
      (enabled = some true → resumable a.gates p = true) →
      Performed lower recs s a (s.putPolicy { p with enabled := enabled.getD p.enabled })
  | evaluated {rec : ℕ} {substitute : Option String} {f : Fresh} {e : Evals} :
      a.operation = .evaluate rec substitute f →
      evaluateRecommendation recs s.evals rec substitute f = some e →
      Performed lower recs s a (s.setEvals e)
  | started {task : ℕ} {e : Evals} : a.operation = .startRun task →
      startRun recs s.evals task = some e → Performed lower recs s a (s.setEvals e)
  | finished {n : ℕ} {outcome : Option Verdict} {x : Execution} {run : EvalRun} :
      a.operation = .finishRun n outcome → s.evals.executions[n]? = some x →
      s.evals.runs.find x.run = some run →
      Performed lower recs s a (ensureChangeRequest recs (s.setEvals { s.evals with
        executions := s.evals.executions.eraseIdx n
        runs := s.evals.runs.put (run.ended x.artifact outcome) }) (run.ended x.artifact outcome))
  | generated {rec id : ℕ} {model hash text : String} {f : Fresh} {e : Evals} :
      a.operation = .generate rec model hash text id f →
      generateCompression recs s rec model hash text id f = some e →
      Performed lower recs s a (s.setEvals e)
  | decided {rec user : ℕ} {approve : Bool} {cr : ChangeRequest} :
      a.operation = .decide rec approve user → s.changeRequests rec = some cr →
      cr.status = .proposed →
      Performed lower recs s a (s.setChangeRequest rec { cr with
        status := if approve then .approved else .rejected
        decidedBy := some user })
  | loaded {artifact : ℕ} : a.operation = .loadArtifact artifact →
      Performed lower recs s a (loadArtifact s artifact).2
  | expired {artifact : ℕ} : a.operation = .expireArtifact artifact →
      Performed lower recs s a (expireArtifact s artifact)

theorem performed_of_step (h : perform lower recs s a = some s') :
    Performed lower recs s a s' := by
  cases happ : application s a with
  | some x =>
    obtain ⟨rec, automated⟩ := x
    obtain ⟨r, hr, hg, s₁, h₁, rfl⟩ := application_cases happ h
    exact .applied happ hr hg h₁
  | none =>
    unfold perform at h
    cases ha : a.operation with
    | transition rec next =>
      rw [ha] at h
      simp only [transitionRecommendation, Option.bind_eq_bind, Option.bind_eq_some_iff] at h
      obtain ⟨r, hr, h⟩ := h
      cases next with
      | applied => simp [application, ha] at happ
      | opened =>
        obtain rfl := Option.some.inj h
        exact .reopened ha (by simp [hr])
      | dismissed =>
        obtain rfl := Option.some.inj h
        exact .dropped ha (by decide)
      | rolledBack =>
        obtain rfl := Option.some.inj h
        exact .dropped ha (by decide)
    | applyAutomated rec =>
      rw [ha] at h
      have hne : s.status rec ≠ .opened := by
        intro hopen
        simp [application, ha, hopen] at happ
      simp only [applyRecommendationAutomated, Option.bind_eq_bind, Option.bind_eq_some_iff,
        if_pos hne] at h
      obtain ⟨r, -, h⟩ := h
      obtain rfl := Option.some.inj h
      exact .passed ha hne
    | driftRollback key =>
      simp only [ha, driftRollback, Option.bind_eq_bind, Option.bind_eq_some_iff] at h
      obtain ⟨p, hp, h⟩ := h
      split_ifs at h with hswept
      obtain rfl := Option.some.inj h
      exact .drifted ha hp hswept
    | updatePolicy key enabled =>
      rw [ha] at h
      obtain ⟨p, hp, hresume, rfl⟩ := updatePolicy_cases h
      exact .patched ha hp hresume
    | evaluate rec substitute f =>
      rw [ha] at h
      obtain ⟨e, he, rfl⟩ := Option.map_eq_some_iff.1 h
      exact .evaluated ha he
    | startRun task =>
      rw [ha] at h
      obtain ⟨e, he, rfl⟩ := Option.map_eq_some_iff.1 h
      exact .started ha he
    | finishRun n outcome =>
      simp only [ha, finishRun, Option.bind_eq_bind, Option.bind_eq_some_iff,
        Option.some.injEq] at h
      obtain ⟨x, hx, run, hrun, rfl⟩ := h
      exact .finished ha hx hrun
    | generate rec model hash text id f =>
      rw [ha] at h
      obtain ⟨e, he, rfl⟩ := Option.map_eq_some_iff.1 h
      exact .generated ha he
    | decide rec approve user =>
      simp only [ha, decideChangeRequest, Option.bind_eq_bind, Option.bind_eq_some_iff] at h
      obtain ⟨cr, hcr, h⟩ := h
      split at h
      · exact absurd h (by simp)
      · next hproposed =>
        obtain rfl := Option.some.inj h
        exact .decided ha hcr (not_not.1 hproposed)
    | loadArtifact artifact =>
      rw [ha] at h
      obtain rfl := Option.some.inj h
      exact .loaded ha
    | expireArtifact artifact =>
      rw [ha] at h
      obtain rfl := Option.some.inj h
      exact .expired ha

inductive Change (lower : Text → Text) (recs : Recommendations) (s : State) (a : Input) :
    State → Prop where
  | same {s' : State} : application s a = none → s'.policies = s.policies →
      s'.status = s.status → Change lower recs s a s'
  | applied {s₁ s' : State} {rec : ℕ} {automated : Bool} {r : Recommendation} :
      application s a = some (rec, automated) → recs rec = some r →
      gatesPass a.gates s rec r automated = true → Activation lower s rec r s₁ →
      s'.policies = s₁.policies → s'.status = Function.update s.status rec .applied →
      Change lower recs s a s'
  | dropped {s' : State} {rec : ℕ} {next : RecommendationStatus} : application s a = none →
      s'.policies.rows = s.policies.rows.map (·.deactivateFor rec) →
      s'.status = Function.update s.status rec next → Change lower recs s a s'
  | reopened {s' : State} {rec : ℕ} : a.operation = .transition rec .opened →
      recs rec ≠ none → s'.policies = s.policies →
      s'.status = Function.update s.status rec .opened → Change lower recs s a s'
  | drifted {s' : State} {p : ProxyPolicy} : application s a = none → p ∈ s.policies.rows →
      s'.policies = s.policies.put { p with enabled := false, driftRolledBack := true } →
      (s'.status = s.status ∨ ∃ rec, p.source = some rec ∧
        s'.status = Function.update s.status rec .rolledBack) → Change lower recs s a s'
  | patched {s' : State} {p : ProxyPolicy} {key : PolicyKey} {enabled : Option Bool} :
      a.operation = .updatePolicy key enabled → s.policies.find key = some p →
      (enabled = some true → resumable a.gates p = true) →
      s'.policies = s.policies.put { p with enabled := enabled.getD p.enabled } →
      s'.status = s.status → Change lower recs s a s'

theorem Activation.status {rec : ℕ} {r : Recommendation} {s₁ : State}
    (h : Activation lower s rec r s₁) : s₁.status = s.status := by
  cases h <;> rfl

theorem recordRollback_frame (p : ProxyPolicy) :
    (recordRollback recs s p).policies =
        s.policies.put { p with enabled := false, driftRolledBack := true } ∧
      ((recordRollback recs s p).status = s.status ∨ ∃ rec, p.source = some rec ∧
        (recordRollback recs s p).status = Function.update s.status rec .rolledBack) := by
  unfold recordRollback
  dsimp only
  split
  · exact ⟨rfl, .inl rfl⟩
  · next rec hsource =>
    split
    · exact ⟨rfl, .inl rfl⟩
    · refine ⟨by simp, .inr ⟨rec, hsource, by simp⟩⟩

theorem change_of_step (h : perform lower recs s a = some s') :
    Change lower recs s a s' := by
  cases performed_of_step h with
  | applied happ hr hg h₁ =>
    refine .applied happ hr hg h₁ (by simp) ?_
    simp [Activation.status h₁]
  | reopened ha hr => exact .reopened ha hr rfl rfl
  | @dropped rec next ha hne =>
    have happ : application s a = none := by
      cases next <;> simp_all [application]
    have hrows :
        ((markRolledBack (deactivateExecution s rec) rec).setStatus rec next).policies.rows =
          s.policies.rows.map (·.deactivateFor rec) := by
      simp [deactivateExecution, Machine.Table.update]
    have hstatus : ((markRolledBack (deactivateExecution s rec) rec).setStatus rec next).status =
        Function.update s.status rec next := by simp
    exact .dropped happ hrows hstatus
  | passed ha hne => exact .same (by simp [application, ha, hne]) rfl rfl
  | @drifted p key ha hp hswept =>
    obtain ⟨hpolicies, hstatus⟩ := @recordRollback_frame recs s p
    exact .drifted (by simp [application, ha]) (Machine.Table.find_eq_some.1 hp).1 hpolicies hstatus
  | patched ha hp hresume => exact .patched ha hp hresume rfl rfl
  | evaluated ha _ => exact .same (by simp [application, ha]) rfl rfl
  | started ha _ => exact .same (by simp [application, ha]) rfl rfl
  | finished ha _ _ =>
    obtain ⟨hpolicies, hstatus⟩ := ensureChangeRequest_frame _
    exact .same (by simp [application, ha]) hpolicies hstatus
  | generated ha _ => exact .same (by simp [application, ha]) rfl rfl
  | decided ha _ _ => exact .same (by simp [application, ha]) rfl rfl
  | loaded ha =>
    obtain ⟨hpolicies, hstatus⟩ := loadArtifact_frame _
    exact .same (by simp [application, ha]) hpolicies hstatus
  | expired ha => exact .same (by simp [application, ha]) rfl rfl

structure SameContent (p q : ProxyPolicy) : Prop where
  key : p.key = q.key
  source : p.source = q.source
  candidate : p.candidateModel = q.candidateModel
  artifact : p.artifactId = q.artifactId

theorem SameContent.refl (p : ProxyPolicy) : SameContent p p := ⟨rfl, rfl, rfl, rfl⟩

theorem SameContent.trans {p q r : ProxyPolicy} (h : SameContent p q) (h' : SameContent q r) :
    SameContent p r where
  key := h.key.trans h'.key
  source := h.source.trans h'.source
  candidate := h.candidate.trans h'.candidate
  artifact := h.artifact.trans h'.artifact

theorem sameContent_deactivateFor (rec : ℕ) (p : ProxyPolicy) :
    SameContent p (p.deactivateFor rec) := by
  unfold ProxyPolicy.deactivateFor
  split_ifs <;> exact ⟨rfl, rfl, rfl, rfl⟩

theorem policy_origin (h : perform lower recs s a = some s') {p : ProxyPolicy}
    (hp : p ∈ s'.policies.rows) :
    (∃ q ∈ s.policies.rows, SameContent q p) ∨
      ∃ rec automated r, application s a = some (rec, automated) ∧ recs rec = some r ∧
        gatesPass a.gates s rec r automated = true ∧ Activated lower s rec r p := by
  cases change_of_step h with
  | same _ hpolicies _ => exact .inl ⟨p, hpolicies ▸ hp, .refl p⟩
  | @applied s₁ _ rec automated r happ hr hg hact hpolicies _ =>
    rw [hpolicies] at hp
    cases hact with
    | nothing _ => exact .inl ⟨p, hp, .refl p⟩
    | wrote _ _ _ hactivated =>
      rw [setArtifactCache_policies, putPolicy_policies, Machine.Table.mem_put] at hp
      rcases hp with rfl | ⟨hp, -⟩
      · exact .inr ⟨rec, automated, r, happ, hr, hg, hactivated⟩
      · exact .inl ⟨p, hp, .refl p⟩
  | dropped _ hrows _ =>
    rw [hrows] at hp
    obtain ⟨q, hq, rfl⟩ := List.mem_map.1 hp
    exact .inl ⟨q, hq, sameContent_deactivateFor _ q⟩
  | reopened _ _ hpolicies _ => exact .inl ⟨p, hpolicies ▸ hp, .refl p⟩
  | drifted _ hq hpolicies _ =>
    rw [hpolicies, Machine.Table.mem_put] at hp
    rcases hp with rfl | ⟨hp, -⟩
    · exact .inl ⟨_, hq, rfl, rfl, rfl, rfl⟩
    · exact .inl ⟨p, hp, .refl p⟩
  | patched _ hfind _ hpolicies _ =>
    rw [hpolicies, Machine.Table.mem_put] at hp
    rcases hp with rfl | ⟨hp, -⟩
    · exact .inl ⟨_, (Machine.Table.find_eq_some.1 hfind).1, rfl, rfl, rfl, rfl⟩
    · exact .inl ⟨p, hp, .refl p⟩

/-- An enabled policy was enabled before, or an application or a resume turned it on. -/
theorem enabled_origin (h : perform lower recs s a = some s') {p : ProxyPolicy}
    (hp : p ∈ s'.policies.rows) (hen : p.enabled = true) :
    (∃ q ∈ s.policies.rows, q.enabled = true ∧ q.key = p.key) ∨
      (∃ rec automated r, application s a = some (rec, automated) ∧ recs rec = some r ∧
        gatesPass a.gates s rec r automated = true ∧ Activated lower s rec r p) ∨
      ∃ q, a.operation = .updatePolicy q.key (some true) ∧ s.policies.find q.key = some q ∧
        q.enabled = false ∧ resumable a.gates q = true ∧ p = { q with enabled := true } := by
  cases change_of_step h with
  | same _ hpolicies _ => exact .inl ⟨p, hpolicies ▸ hp, hen, rfl⟩
  | @applied s₁ _ rec automated r happ hr hg hact hpolicies _ =>
    rw [hpolicies] at hp
    cases hact with
    | nothing _ => exact .inl ⟨p, hp, hen, rfl⟩
    | wrote _ _ _ hactivated =>
      rw [setArtifactCache_policies, putPolicy_policies, Machine.Table.mem_put] at hp
      rcases hp with rfl | ⟨hp, -⟩
      · exact .inr (.inl ⟨rec, automated, r, happ, hr, hg, hactivated⟩)
      · exact .inl ⟨p, hp, hen, rfl⟩
  | dropped _ hrows _ =>
    rw [hrows] at hp
    obtain ⟨q, hq, rfl⟩ := List.mem_map.1 hp
    exact .inl ⟨q, hq, (deactivateFor_enabled hen).1, (deactivateFor_key _ _).symm⟩
  | reopened _ _ hpolicies _ => exact .inl ⟨p, hpolicies ▸ hp, hen, rfl⟩
  | drifted _ hq hpolicies _ =>
    rw [hpolicies, Machine.Table.mem_put] at hp
    rcases hp with rfl | ⟨hp, -⟩
    · exact absurd hen (by simp)
    · exact .inl ⟨p, hp, hen, rfl⟩
  | @patched _ q key enabled hop hfind hresume hpolicies _ =>
    obtain ⟨hq, rfl⟩ := Machine.Table.find_eq_some.1 hfind
    rw [hpolicies, Machine.Table.mem_put] at hp
    rcases hp with rfl | ⟨hp, -⟩
    · by_cases hqen : q.enabled = true
      · exact .inl ⟨q, hq, hqen, rfl⟩
      · cases enabled with
        | none => exact absurd hen hqen
        | some b =>
          obtain rfl : b = true := hen
          exact .inr (.inr ⟨q, hop, hfind, Bool.eq_false_iff.2 hqen, hresume rfl, rfl⟩)
    · exact .inl ⟨p, hp, hen, rfl⟩

theorem policyKey_of_wrote {rec : ℕ} {r : Recommendation} {s₁ : State}
    (h : Activation lower s rec r s₁) {p : ProxyPolicy} (hp : p ∈ s₁.policies.rows) :
    (r.policyKey lower = some p.key ∧ p.source = some rec ∧ p.enabled = true) ∨
      p ∈ s.policies.rows := by
  cases h with
  | nothing _ => exact .inr hp
  | wrote _ _ _ hactivated =>
    rw [setArtifactCache_policies, putPolicy_policies, Machine.Table.mem_put] at hp
    rcases hp with rfl | ⟨hp, -⟩
    · exact .inl ⟨hactivated.key, hactivated.source, hactivated.enabled⟩
    · exact .inr hp

end Varsten.ControlPlane
