import Varsten.ControlPlane.Changes

/-!
# What a step does to evals and artifacts

The latest run of a compression and its latest artifact are read at different times. They belong
together as long as no generation commits behind a newer run.
-/

namespace Varsten.ControlPlane

open Python.Utf8 (Text)

variable {lower : Text → Text} {recs : Recommendations} {s s' : State} {a : Input}

section Frames

variable (s : State) (rec : ℕ)

@[simp] theorem setStatus_evals (st : RecommendationStatus) :
    (s.setStatus rec st).evals = s.evals := rfl

@[simp] theorem setEvals_evals (e : Evals) : (s.setEvals e).evals = e := rfl

@[simp] theorem putPolicy_evals (p : ProxyPolicy) : (s.putPolicy p).evals = s.evals := rfl

@[simp] theorem setArtifactCache_evals (c : ℕ → Option (String × String)) :
    (s.setArtifactCache c).evals = s.evals := rfl

@[simp] theorem setChangeRequest_evals (cr : ChangeRequest) :
    (s.setChangeRequest rec cr).evals = s.evals := rfl

@[simp] theorem deactivateExecution_evals : (deactivateExecution s rec).evals = s.evals := rfl

@[simp] theorem markActive_evals : (markActive s rec).evals = s.evals := by
  unfold markActive
  repeat' split
  all_goals rfl

@[simp] theorem markRolledBack_evals : (markRolledBack s rec).evals = s.evals := by
  unfold markRolledBack
  repeat' split
  all_goals rfl

@[simp] theorem ensureChangeRequest_evals (run : EvalRun) :
    (ensureChangeRequest recs s run).evals = s.evals := by
  unfold ensureChangeRequest
  repeat' split
  all_goals rfl

@[simp] theorem recordRollback_evals (p : ProxyPolicy) :
    (recordRollback recs s p).evals = s.evals := by
  unfold recordRollback
  dsimp only
  repeat' split
  all_goals simp

@[simp] theorem loadArtifact_evals (artifact : ℕ) :
    (loadArtifact s artifact).2.evals = s.evals := by
  unfold loadArtifact
  repeat' split
  all_goals rfl

end Frames

theorem Activation.evals {rec : ℕ} {r : Recommendation} {s₁ : State}
    (h : Activation lower s rec r s₁) : s₁.evals = s.evals := by
  cases h <;> rfl

inductive EvalMove (recs : Recommendations) (s : State) (a : Input) : Evals → Prop where
  | same {e : Evals} : e.runs = s.evals.runs → e.executions = s.evals.executions →
      e.artifacts = s.evals.artifacts → EvalMove recs s a e
  | opened {e : Evals} {run : EvalRun} : s.evals.runs.find run.id = none →
      run.status = .pending → e.runs = s.evals.runs.put run →
      e.executions = s.evals.executions → e.artifacts = s.evals.artifacts → EvalMove recs s a e
  | started {e : Evals} {run : EvalRun} {artifact : Option PromptCompression} :
      s.evals.runs.find run.id = some run →
      (∀ r, recs run.recommendation = some r → r.lever = some .promptCompression →
        artifact = s.evals.latestArtifact run.recommendation) →
      e.runs = s.evals.runs.put { run with status := .running } →
      e.executions = s.evals.executions ++ [⟨run.id, artifact⟩] →
      e.artifacts = s.evals.artifacts → EvalMove recs s a e
  | failed {e : Evals} {run : EvalRun} : s.evals.runs.find run.id = some run →
      e.runs = s.evals.runs.put { run with status := .failed } →
      e.executions = s.evals.executions → e.artifacts = s.evals.artifacts → EvalMove recs s a e
  | finished {e : Evals} {x : Execution} {run : EvalRun} {outcome : Option Verdict} :
      x ∈ s.evals.executions → s.evals.runs.find x.run = some run →
      e.runs = s.evals.runs.put (run.ended x.artifact outcome) →
      (∀ y ∈ e.executions, y ∈ s.evals.executions) →
      e.artifacts = s.evals.artifacts → EvalMove recs s a e
  | generated {e : Evals} {model hash text : String} {rec id : ℕ} {f : Fresh} :
      a.operation = .generate rec model hash text id f →
      s.evals.runs.find f.id = none → s.evals.artifacts.find id = none →
      e.runs = s.evals.runs.put (newRun rec model f) →
      e.executions = s.evals.executions →
      e.artifacts = s.evals.artifacts.put ⟨id, rec, f.createdAt, hash, text⟩ → EvalMove recs s a e

theorem evaluate_move {rec : ℕ} {substitute : Option String} {f : Fresh} {e : Evals}
    (h : evaluateRecommendation recs s.evals rec substitute f = some e) :
    EvalMove recs s a e := by
  simp only [evaluateRecommendation, Option.bind_eq_bind, Option.bind_eq_some_iff] at h
  obtain ⟨r, -, h⟩ := h
  split at h
  · exact absurd h (by simp)
  split at h
  · exact absurd h (by simp)
  obtain ⟨model, -, h⟩ := Option.bind_eq_some_iff.1 h
  split at h
  · obtain rfl := Option.some.inj h
    exact .same rfl rfl rfl
  · obtain ⟨e₁, h₁, rfl⟩ := Option.map_eq_some_iff.1 h
    obtain ⟨runs, hruns, rfl⟩ := Option.map_eq_some_iff.1 h₁
    obtain ⟨hfree, rfl⟩ := Machine.Table.add_eq_some.1 hruns
    exact .opened hfree rfl rfl rfl rfl

theorem startRun_move {task : ℕ} {e : Evals} (h : startRun recs s.evals task = some e) :
    EvalMove recs s a e := by
  simp only [startRun, Option.bind_eq_bind, Option.bind_eq_some_iff] at h
  obtain ⟨i, -, run, hrun, r, hr, h⟩ := h
  obtain ⟨-, rfl⟩ := Machine.Table.find_eq_some.1 hrun
  split at h
  · split at h
    · obtain rfl := Option.some.inj h
      exact .failed hrun rfl rfl rfl
    · next artifact hartifact =>
      obtain rfl := Option.some.inj h
      exact .started hrun (fun _ _ _ => hartifact.symm) rfl rfl rfl
  · next hlever =>
    obtain rfl := Option.some.inj h
    refine .started hrun (fun r' hr' hl => ?_) rfl rfl rfl
    rw [hr] at hr'
    exact absurd (Option.some.inj hr' ▸ hl) hlever

theorem generate_move {rec id : ℕ} {model hash text : String} {f : Fresh} {e : Evals}
    (ha : a.operation = .generate rec model hash text id f)
    (h : generateCompression recs s rec model hash text id f = some e) :
    EvalMove recs s a e := by
  simp only [generateCompression, Option.bind_eq_bind, Option.bind_eq_some_iff] at h
  obtain ⟨r, -, h⟩ := h
  split at h
  · exact absurd h (by simp)
  obtain ⟨artifacts, hartifacts, h⟩ := Option.bind_eq_some_iff.1 h
  obtain ⟨runs, hruns, rfl⟩ := Option.map_eq_some_iff.1 h
  obtain ⟨hfree, rfl⟩ := Machine.Table.add_eq_some.1 hartifacts
  obtain ⟨hnew, rfl⟩ := Machine.Table.add_eq_some.1 hruns
  exact .generated ha hnew hfree rfl rfl rfl

theorem evals_cases (h : perform lower recs s a = some s') : EvalMove recs s a s'.evals := by
  cases performed_of_step h with
  | evaluated _ he => exact evaluate_move he
  | started _ he => exact startRun_move he
  | finished _ hx hrun =>
    rw [ensureChangeRequest_evals]
    exact .finished (List.mem_of_getElem? hx) hrun rfl (fun y hy => List.mem_of_mem_eraseIdx hy) rfl
  | generated ha he => exact generate_move ha he
  | applied _ _ _ h₁ =>
    have hevals := Activation.evals h₁
    exact .same (by simp [hevals]) (by simp [hevals]) (by simp [hevals])
  | dropped _ _ => exact .same (by simp) (by simp) (by simp)
  | drifted _ _ _ => exact .same (by simp) (by simp) (by simp)
  | loaded _ => exact .same (by simp) (by simp) (by simp)
  | _ => exact .same rfl rfl rfl

/-! ## The latest run and the latest artifact -/

def Cleared (run : EvalRun) : Prop :=
  run.status = .completed ∧ (run.verdict = some .safe ∨ run.verdict = some .needsHuman)

/-- A generation whose rewrite becomes the latest began after every run of its recommendation. -/
def InOrder (s : State) (a : Input) : Prop :=
  ∀ rec model hash text id f, a.operation = .generate rec model hash text id f →
    (∀ b, s.evals.latestArtifact rec = some b → b.createdAt < f.createdAt) →
      ∀ x, s.evals.latestRun rec = some x → x.createdAt < f.createdAt

/-- The latest run of a compression, where it is completed, and its executions have the latest
artifact. -/
structure Evals.Current (recs : Recommendations) (e : Evals) : Prop where
  known : ∀ y ∈ e.executions, ∃ x, e.runs.find y.run = some x
  run : ∀ rec r x, recs rec = some r → r.lever = some .promptCompression →
    e.latestRun rec = some x → x.status = .completed → x.artifact = e.latestArtifact rec
  execution : ∀ rec r x, recs rec = some r → r.lever = some .promptCompression →
    e.latestRun rec = some x → ∀ y ∈ e.executions, y.run = x.id →
      y.artifact = e.latestArtifact rec

theorem Evals.latestRun_mem {e : Evals} {rec : ℕ} {x : EvalRun} (h : e.latestRun rec = some x) :
    x ∈ e.runs.rows ∧ x.recommendation = rec := by
  obtain ⟨hx, hrec⟩ := Machine.Table.latest_mem h
  exact ⟨hx, of_decide_eq_true hrec⟩

theorem Evals.latestRun_put_old {e e' : Evals} {run run' : EvalRun} {rec : ℕ}
    (hfind : e.runs.find run'.id = some run) (hrec : run'.recommendation = run.recommendation)
    (htime : run'.createdAt = run.createdAt) (he : e'.runs = e.runs.put run') :
    e'.latestRun rec = (e.latestRun rec).map fun x => if x.id = run'.id then run' else x := by
  rw [latestRun, he]
  exact Machine.Table.latest_put_old hfind (by rw [hrec]) htime

theorem Evals.latestRun_put_new {e e' : Evals} {run x : EvalRun} {rec : ℕ}
    (hfind : e.runs.find run.id = none) (he : e'.runs = e.runs.put run)
    (hx : e'.latestRun rec = some x) :
    (x = run ∧ ∀ y, e.latestRun rec = some y → y.createdAt < run.createdAt) ∨
      (e.latestRun rec = some x ∧
        (run.recommendation = rec → run.createdAt ≤ x.createdAt)) := by
  rw [latestRun, he, Machine.Table.latest_put_new hfind, ← latestRun] at hx
  split_ifs at hx with hrec
  · cases hl : e.latestRun rec with
    | none =>
      rw [hl] at hx
      exact .inl ⟨(Option.some.inj hx).symm, by simp⟩
    | some y =>
      rw [hl] at hx
      dsimp only [Option.elim_some] at hx
      split_ifs at hx with hlt
      · refine .inl ⟨(Option.some.inj hx).symm, fun z hz => ?_⟩
        rw [← Option.some.inj hz]
        exact hlt
      · rw [← Option.some.inj hx]
        exact .inr ⟨rfl, fun _ => not_lt.1 hlt⟩
  · exact .inr ⟨hx, fun h => absurd (decide_eq_true h) hrec⟩

theorem Evals.latestRun_id {e : Evals} {rec i : ℕ} {x run : EvalRun}
    (hx : e.latestRun rec = some x) (hfind : e.runs.find i = some run) (hid : x.id = i) :
    x = run := by
  obtain ⟨hrun, hkey⟩ := Machine.Table.find_eq_some.1 hfind
  exact Machine.Table.eq_of_key_eq (latestRun_mem hx).1 hrun (hid.trans hkey.symm)

theorem Evals.Current.put_old {e e' : Evals} {run run' : EvalRun} (h : e.Current recs)
    (hfind : e.runs.find run'.id = some run) (hrec : run'.recommendation = run.recommendation)
    (htime : run'.createdAt = run.createdAt) (hruns : e'.runs = e.runs.put run')
    (hartifacts : e'.artifacts = e.artifacts)
    (hdone : run'.status = .completed → ∀ r, recs run.recommendation = some r →
      r.lever = some .promptCompression → e.latestRun run.recommendation = some run →
        run'.artifact = e.latestArtifact run.recommendation)
    (hexec : ∀ y ∈ e'.executions, y ∈ e.executions ∨ (y.run = run'.id ∧
      ∀ r, recs run.recommendation = some r → r.lever = some .promptCompression →
        y.artifact = e.latestArtifact run.recommendation)) : e'.Current recs := by
  have hartifact : ∀ rec, e'.latestArtifact rec = e.latestArtifact rec := by
    intro rec
    rw [latestArtifact, hartifacts]
    rfl
  -- a latest run afterwards is the latest run before, or the one written over it
  have hback : ∀ rec x, e'.latestRun rec = some x →
      (e.latestRun rec = some x ∧ x.id ≠ run'.id) ∨
        (x = run' ∧ e.latestRun rec = some run ∧ run.recommendation = rec) := by
    intro rec x hx
    rw [latestRun_put_old hfind hrec htime hruns] at hx
    obtain ⟨y, hy, hyx⟩ := Option.map_eq_some_iff.1 hx
    split_ifs at hyx with hid
    · have hyrun := latestRun_id hy hfind hid
      rw [hyrun] at hy
      exact .inr ⟨hyx.symm, hy, (latestRun_mem hy).2⟩
    · rw [← hyx]
      exact .inl ⟨hy, hid⟩
  refine ⟨fun y hy => ?_, fun rec r x hr hl hx hstatus => ?_, fun rec r x hr hl hx y hy hid => ?_⟩
  · rw [hruns, Machine.Table.find_put]
    split_ifs with hid
    · exact ⟨run', rfl⟩
    · rcases hexec y hy with hy | ⟨hyid, -⟩
      · exact h.known y hy
      · exact absurd hyid.symm hid
  · rw [hartifact]
    rcases hback rec x hx with ⟨hx, -⟩ | ⟨rfl, hrun, rfl⟩
    · exact h.run rec r x hr hl hx hstatus
    · exact hdone hstatus r hr hl hrun
  · rw [hartifact]
    rcases hback rec x hx with ⟨hx, hne⟩ | ⟨rfl, hrun, rfl⟩
    · rcases hexec y hy with hy | ⟨hyid, -⟩
      · exact h.execution rec r x hr hl hx y hy hid
      · exact absurd (hid.symm.trans hyid) hne
    · rcases hexec y hy with hy | ⟨-, hcurrent⟩
      · have hkey : run.id = x.id := (Machine.Table.find_eq_some.1 hfind).2
        exact h.execution _ r run hr hl hrun y hy (hid.trans hkey.symm)
      · exact hcurrent r hr hl

theorem Evals.Current.put_new {e e' : Evals} {run : EvalRun} (h : e.Current recs)
    (hfind : e.runs.find run.id = none) (hpending : run.status = .pending)
    (hruns : e'.runs = e.runs.put run) (hexec : e'.executions = e.executions)
    (hartifact : ∀ rec x, e.latestRun rec = some x →
      (run.recommendation = rec → run.createdAt ≤ x.createdAt) →
        e'.latestArtifact rec = e.latestArtifact rec) : e'.Current recs := by
  have hother : ∀ y ∈ e.executions, y.run ≠ run.id := by
    intro y hy hid
    obtain ⟨x, hx⟩ := h.known y hy
    rw [hid, hfind] at hx
    exact absurd hx (by simp)
  refine ⟨fun y hy => ?_, fun rec r x hr hl hx hstatus => ?_, fun rec r x hr hl hx y hy hid => ?_⟩
  · rw [hexec] at hy
    obtain ⟨x, hx⟩ := h.known y hy
    refine ⟨x, ?_⟩
    rw [hruns, Machine.Table.find_put, if_neg (hother y hy).symm]
    exact hx
  · rcases latestRun_put_new hfind hruns hx with ⟨rfl, -⟩ | ⟨hx, hlate⟩
    · rw [hpending] at hstatus
      exact absurd hstatus (by simp)
    · rw [hartifact rec x hx hlate]
      exact h.run rec r x hr hl hx hstatus
  · rw [hexec] at hy
    rcases latestRun_put_new hfind hruns hx with ⟨rfl, -⟩ | ⟨hx, hlate⟩
    · exact absurd hid (hother y hy)
    · rw [hartifact rec x hx hlate]
      exact h.execution rec r x hr hl hx y hy hid

theorem Evals.Current.move {e : Evals} (h : s.evals.Current recs) (hord : InOrder s a)
    (hm : EvalMove recs s a e) : e.Current recs := by
  cases hm with
  | same hruns hexec hartifacts =>
    have hlatest : ∀ rec, e.latestRun rec = s.evals.latestRun rec := fun rec => by
      rw [latestRun, hruns]
      rfl
    have hartifact : ∀ rec, e.latestArtifact rec = s.evals.latestArtifact rec := fun rec => by
      rw [latestArtifact, hartifacts]
      rfl
    refine ⟨by rw [hruns, hexec]; exact h.known, fun rec r x hr hl hx hstatus => ?_,
      fun rec r x hr hl hx y hy hid => ?_⟩
    · rw [hartifact]
      exact h.run rec r x hr hl (hlatest rec ▸ hx) hstatus
    · rw [hartifact]
      exact h.execution rec r x hr hl (hlatest rec ▸ hx) y (hexec ▸ hy) hid
  | opened hfind hpending hruns hexec hartifacts =>
    refine h.put_new hfind hpending hruns hexec fun rec x _ _ => ?_
    rw [latestArtifact, hartifacts]
    rfl
  | @started run artifact hfind hcurrent hruns hexec hartifacts =>
    have hfind' : s.evals.runs.find ({ run with status := .running } : EvalRun).id = some run :=
      hfind
    refine h.put_old hfind' rfl rfl hruns hartifacts
      (fun hdone => absurd hdone (by simp)) fun y hy => ?_
    rw [hexec, List.mem_append, List.mem_singleton] at hy
    rcases hy with hy | rfl
    · exact .inl hy
    · exact .inr ⟨rfl, hcurrent⟩
  | @failed run hfind hruns hexec hartifacts =>
    have hfind' : s.evals.runs.find ({ run with status := .failed } : EvalRun).id = some run :=
      hfind
    exact h.put_old hfind' rfl rfl hruns hartifacts
      (fun hdone => absurd hdone (by simp)) fun y hy => .inl (hexec ▸ hy)
  | @finished x run outcome hx hfind hruns hexec hartifacts =>
    have hkey : run.id = x.run := (Machine.Table.find_eq_some.1 hfind).2
    have hid : (run.ended x.artifact outcome).id = run.id := by cases outcome <;> rfl
    have hrec : (run.ended x.artifact outcome).recommendation = run.recommendation := by
      cases outcome <;> rfl
    have htime : (run.ended x.artifact outcome).createdAt = run.createdAt := by
      cases outcome <;> rfl
    refine h.put_old (by rw [hid, hkey]; exact hfind) hrec htime hruns hartifacts
      (fun hdone r hr hl hlatest => ?_) fun y hy => .inl (hexec y hy)
    cases outcome with
    | none => exact absurd hdone (by simp [EvalRun.ended])
    | some v => exact h.execution _ r run hr hl hlatest x hx hkey.symm
  | @generated model hash text rec id f hop hfind hfree hruns hexec hartifacts =>
    refine h.put_new hfind rfl hruns hexec fun rec' x hx hlate => ?_
    rw [latestArtifact, hartifacts, Machine.Table.latest_put_new hfree, ← latestArtifact]
    split_ifs with hrec
    · obtain rfl : rec = rec' := of_decide_eq_true hrec
      have hbehind : ¬ x.createdAt < f.createdAt := not_lt.2 (hlate rfl)
      cases hb : s.evals.latestArtifact rec with
      | none =>
        refine absurd (hord rec model hash text id f hop (fun b hb' => ?_) x hx) hbehind
        rw [hb] at hb'
        exact absurd hb' (by simp)
      | some b =>
        refine if_neg fun hlt => hbehind ?_
        refine hord rec model hash text id f hop (fun b' hb' => ?_) x hx
        rw [← Option.some.inj (hb.symm.trans hb')]
        exact hlt
    · rfl

theorem current_step (h : s.evals.Current recs) (hord : InOrder s a) :
    (step lower recs s a).evals.Current recs := by
  unfold step
  cases hp : perform lower recs s a with
  | none => exact h
  | some s' => exact h.move hord (evals_cases hp)

theorem current_initial : State.initial.evals.Current recs where
  known := fun _ hy => absurd hy List.not_mem_nil
  run := fun _ _ _ _ _ hx => absurd (Evals.latestRun_mem hx).1 List.not_mem_nil
  execution := fun _ _ _ _ _ _ _ hy => absurd hy List.not_mem_nil

end Varsten.ControlPlane
