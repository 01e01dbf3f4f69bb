import Varsten.ControlPlane.Evaluations
import Varsten.Machine.Runs

/-!
# What turns a gated policy on

An application turns a policy on behind its gate. The endpoints that resume one look at no run, and
not at who turned the policy off.
-/

namespace Varsten.ControlPlane.Clearance

open Machine.Runs
open Python.Utf8 (Text)

variable {lower : Text → Text} {recs : Recommendations} {s s' : State} {a : Input}

def TurnsOn (s s' : State) (p : ProxyPolicy) : Prop :=
  p ∈ s'.policies.rows ∧ p.enabled = true ∧
    ∀ q ∈ s.policies.rows, q.key = p.key → q.enabled = false

def ClearedFor (s : State) (p : ProxyPolicy) : Prop :=
  ∃ rec run, p.source = some rec ∧ latestRun s rec = some run ∧ Cleared run ∧
    (p.key.lever.isRouting = true → p.candidateModel = some run.candidateModel) ∧
    (p.key.lever = .promptCompression → p.artifactId = run.artifact.map (·.id))

/-- What turns on has cleared its gate, and again only by an application where the drift guard
turned it off. -/
structure Gated (s : State) (a : Input) (s' : State) : Prop where
  cleared : ∀ p, TurnsOn s s' p → p.key.lever.isGated = true → ClearedFor s' p
  fresh : ∀ p, TurnsOn s s' p →
    (∃ q ∈ s.policies.rows, q.key = p.key ∧ q.driftRolledBack = true) →
      ∃ rec automated, application s a = some (rec, automated) ∧ p.source = some rec

/-- A resumed policy that was off is still cleared, and not turned off by the drift guard. -/
def ResumesCleared (s : State) (a : Input) : Prop :=
  ∀ p, a.operation = .updatePolicy p.key (some true) → s.policies.find p.key = some p →
    p.enabled = false → resumable a.gates p = true →
      (p.key.lever.isGated = true → ClearedFor s p) ∧ p.driftRolledBack = false

/-! ## One step -/

theorem clearedFor_of_evals {p : ProxyPolicy} (hevals : s'.evals = s.evals) (h : ClearedFor s p) :
    ClearedFor s' p := by
  obtain ⟨rec, run, hsource, hrun, hrest⟩ := h
  refine ⟨rec, run, hsource, ?_, hrest⟩
  rw [latestRun, hevals]
  exact hrun

theorem application_evals {rec : ℕ} {automated : Bool}
    (happ : application s a = some (rec, automated)) (h : perform lower recs s a = some s') :
    s'.evals = s.evals := by
  obtain ⟨r, -, -, s₁, h₁, rfl⟩ := application_cases happ h
  simp [Activation.evals h₁]

theorem clearedFor_of_activated {p : ProxyPolicy} {rec : ℕ} {automated : Bool} {r : Recommendation}
    (hcur : s.evals.Current recs) (hr : recs rec = some r)
    (hg : gatesPass a.gates s rec r automated = true) (hact : Activated lower s rec r p)
    (hgated : p.key.lever.isGated = true) : ClearedFor s p := by
  have hl : r.lever = some p.key.lever := lever_of_policyKey hact.key
  simp only [gatesPass, Bool.and_eq_true] at hg
  obtain ⟨run, hrun⟩ := Option.isSome_iff_exists.1 hg.1.2
  obtain ⟨x, -, hx, hdone, hverdict⟩ := assertAppliable_gated hl hgated hrun
  refine ⟨rec, x, hact.source, hx, ⟨hdone, hverdict⟩, fun hrouting => ?_, fun hcompress => ?_⟩
  · obtain ⟨y, hy, hcandidate⟩ := hact.candidate hrouting
    rw [hcandidate, Option.some.inj (hx.symm.trans hy)]
  · have hrow : x.artifact = s.evals.latestArtifact rec :=
      hcur.run rec r x hr (hl.trans (congrArg some hcompress)) hx hdone
    rw [(hact.artifact hcompress).2, artifactForRecommendation, hrow]

theorem gated_perform (hcur : s.evals.Current recs) (hc : ResumesCleared s a)
    (h : perform lower recs s a = some s') : Gated s a s' where
  cleared := by
    rintro p ⟨hp, hen, hoff⟩ hgated
    rcases enabled_origin h hp hen with ⟨q, hq, hqen, hkey⟩ | ⟨rec, automated, r, happ, hr, hg, hact⟩ |
      ⟨q, hop, hfind, hqoff, hresume, rfl⟩
    · exact absurd hqen (by rw [hoff q hq hkey]; simp)
    · exact clearedFor_of_evals (application_evals happ h)
        (clearedFor_of_activated hcur hr hg hact hgated)
    · have hevals : s'.evals = s.evals := by
        simp only [perform, hop, updatePolicy_resume hfind hresume] at h
        obtain rfl := Option.some.inj h
        rfl
      exact clearedFor_of_evals hevals ((hc q hop hfind hqoff hresume).1 hgated)
  fresh := by
    rintro p ⟨hp, hen, hoff⟩ ⟨q₀, hq₀, hkey₀, hdrift⟩
    rcases enabled_origin h hp hen with ⟨q, hq, hqen, hkey⟩ | ⟨rec, automated, r, happ, hr, hg, hact⟩ |
      ⟨q, hop, hfind, hqoff, hresume, rfl⟩
    · exact absurd hqen (by rw [hoff q hq hkey]; simp)
    · exact ⟨rec, automated, happ, hact.source⟩
    · have hq := (Machine.Table.find_eq_some.1 hfind).1
      obtain rfl := Machine.Table.eq_of_key_eq hq₀ hq hkey₀
      exact absurd hdrift (by rw [(hc q₀ hop hfind hqoff hresume).2]; simp)

theorem gated_step (hcur : s.evals.Current recs) (hc : ResumesCleared s a) :
    Gated s a (step lower recs s a) := by
  unfold step
  cases h : perform lower recs s a with
  | some s' => exact gated_perform hcur hc h
  | none =>
    have hnone : ∀ p, ¬ TurnsOn s s p := by
      rintro p ⟨hp, hen, hoff⟩
      exact absurd hen (by rw [hoff p hp rfl]; simp)
    exact ⟨fun p hp => absurd hp (hnone p), fun p hp => absurd hp (hnone p)⟩

theorem resumesCleared_of_gated (h : Gated s a (step lower recs s a)) : ResumesCleared s a := by
  intro p hop hfind hoff hresume
  obtain ⟨hp, -⟩ := Machine.Table.find_eq_some.1 hfind
  have hstep : step lower recs s a = s.putPolicy { p with enabled := true } := by
    simp [step, perform, hop, updatePolicy_resume hfind hresume]
  have hon : TurnsOn s (step lower recs s a) { p with enabled := true } := by
    rw [hstep]
    refine ⟨Machine.Table.mem_put.2 (.inl rfl), rfl, fun q hq hkey => ?_⟩
    rw [Machine.Table.eq_of_key_eq hq hp hkey]
    exact hoff
  refine ⟨fun hgated => ?_, ?_⟩
  · obtain ⟨rec, run, hcleared⟩ := h.cleared _ hon hgated
    rw [hstep] at hcleared
    exact ⟨rec, run, hcleared⟩
  · by_contra hdrift
    obtain ⟨rec, automated, happ, -⟩ :=
      h.fresh _ hon ⟨p, hp, rfl, Bool.not_eq_false _ ▸ hdrift⟩
    simp [application, hop] at happ

/-! ## Runs -/

/-- In a run whose generations commit in order, every policy that turns on has passed its gate
exactly when every resumed one is still cleared and not turned off by the drift guard. -/
theorem turned_on_gated_iff (lower : Text → Text) (recs : Recommendations) {as : List Input}
    (hord : ∀ q ∈ steps (step lower recs) .initial as, InOrder q.1 q.2) :
    (∀ q ∈ steps (step lower recs) .initial as, Gated q.1 q.2 (step lower recs q.1 q.2)) ↔
      ∀ q ∈ steps (step lower recs) .initial as, ResumesCleared q.1 q.2 := by
  have hiff : ∀ s a, InOrder s a → s.evals.Current recs → True →
      ((True ∧ Gated s a (step lower recs s a)) ↔ ResumesCleared s a) := by
    intro s a _ hcur _
    rw [true_and]
    exact ⟨resumesCleared_of_gated, gated_step hcur⟩
  have hstep : ∀ s a, InOrder s a → s.evals.Current recs →
      (step lower recs s a).evals.Current recs := fun s a hord hcur => current_step hcur hord
  simpa only [true_and] using steps_iff hstep hiff current_initial trivial hord

/-! ## A resume after a drift rollback -/

/-- A downshift of the model `m`. -/
def downshiftOfM : Recommendations := fun rec =>
  if rec = 0 then some ⟨some .modelDownshift, none, none, some "m", none⟩ else none

def routeOfM : PolicyKey := ⟨.modelDownshift, "m", Engine.RouteIdentity.defaultRoute⟩

/-- The downshift is evaluated and applied, and the drift guard turns its route off. -/
def drifted : List Input :=
  [⟨.allow, .evaluate 0 (some "n") ⟨0, 0⟩⟩, ⟨.allow, .startRun 0⟩,
    ⟨.allow, .finishRun 0 (some .safe)⟩, ⟨.allow, .transition 0 .applied⟩,
    ⟨.allow, .driftRollback routeOfM⟩]

def resumeOfM : Input := ⟨.allow, .updatePolicy routeOfM (some true)⟩

theorem drifted_inOrder :
    ∀ q ∈ steps (step id downshiftOfM) .initial (drifted ++ [resumeOfM]), InOrder q.1 q.2 := by
  have hin : ∀ a ∈ drifted ++ [resumeOfM], ∀ s, InOrder s a := by
    simp [drifted, resumeOfM, InOrder]
  exact fun q hq => input_of_steps hin q hq q.1

theorem resumed_ungated : ¬ Gated (final (step id downshiftOfM) .initial drifted) resumeOfM
    (final (step id downshiftOfM) .initial (drifted ++ [resumeOfM])) := by
  intro h
  have hoff : ∀ q ∈ (final (step id downshiftOfM) .initial drifted).policies.rows,
      q.enabled = false := by decide +kernel
  obtain ⟨rec, automated, happ, -⟩ := h.fresh _
    ⟨List.mem_of_getElem? (i := 0) rfl, rfl, fun q hq _ => hoff q hq⟩
    ⟨_, List.mem_of_getElem? (i := 0) rfl, rfl, rfl⟩
  simp [application, resumeOfM] at happ

theorem turned_on_gated_drifted :
    (∀ q ∈ steps (step id downshiftOfM) .initial (drifted ++ [resumeOfM]),
        Gated q.1 q.2 (step id downshiftOfM q.1 q.2)) ↔
      ∀ q ∈ steps (step id downshiftOfM) .initial (drifted ++ [resumeOfM]),
        ResumesCleared q.1 q.2 :=
  turned_on_gated_iff id downshiftOfM drifted_inOrder

end Varsten.ControlPlane.Clearance
