import Varsten.ControlPlane.Evaluations
import Varsten.ControlPlane.Sessions
import Varsten.Machine.Runs

/-!
# Only evaluated rewrites go live

A live compression holds the rewrite that the replays of the run behind its application
substituted, and the proxy substitutes that one, in a run whose generations commit in order and
whose overlapping operations find their rows as they have read them.
-/

namespace Varsten.ControlPlane.LiveRewrites

open Machine.Commits (committed)
open Machine.Runs
open Sessions (AllFresh Event idle oneByOne)
open Python.Utf8 (Text)

variable {lower : Text → Text} {recs : Recommendations} {s s' : State} {a : Input}

/-- An earlier application of the source of the policy wrote it, on the ground of a cleared run
whose replays substituted the rewrite `row`. -/
structure Backed (lower : Text → Text) (recs : Recommendations) (past : List (State × Input))
    (p : ProxyPolicy) (row : PromptCompression) : Prop where
  application : ∃ q ∈ past, ∃ rec automated run, application q.1 q.2 = some (rec, automated) ∧
    p.source = some rec ∧ latestRun q.1 rec = some run ∧ Cleared run ∧ run.artifact = some row ∧
    ∃ p₀ ∈ (step lower recs q.1 q.2).policies.rows, SameContent p₀ p
  artifact : p.artifactId = some row.id

/-- What the proxy substitutes for the artifact is the text of the rewrite, where the system prompt
has the hash of its original. -/
def Substitutes (s : State) (row : PromptCompression) : Prop :=
  (loadArtifact s row.id).1 = some (row.originalSystemHash, row.compressedSystemPrompt)

def CacheCoherent (s : State) : Prop :=
  ∀ i v, s.artifactCache i = some v →
    ∃ row, s.evals.artifacts.find i = some row ∧ v = row.substitution

structure History (lower : Text → Text) (recs : Recommendations) (past : List (State × Input))
    (s : State) : Prop where
  current : s.evals.Current recs
  cache : CacheCoherent s
  backed : ∀ p ∈ s.policies.rows, p.key.lever = .promptCompression →
    ∃ row, s.evals.artifacts.find row.id = some row ∧ Backed lower recs past p row

theorem substitutes_of_coherent {row : PromptCompression} (hc : CacheCoherent s)
    (hrow : s.evals.artifacts.find row.id = some row) : Substitutes s row := by
  unfold Substitutes loadArtifact
  cases hcached : s.artifactCache row.id with
  | some v =>
    obtain ⟨row', hrow', rfl⟩ := hc row.id v hcached
    obtain rfl := Option.some.inj (hrow.symm.trans hrow')
    rfl
  | none =>
    dsimp only
    rw [hrow]
    rfl

theorem artifact_kept {row : PromptCompression} {i : ℕ} (h : perform lower recs s a = some s')
    (hrow : s.evals.artifacts.find i = some row) : s'.evals.artifacts.find i = some row := by
  cases evals_cases h with
  | same _ _ hartifacts => rw [hartifacts, hrow]
  | opened _ _ _ _ hartifacts => rw [hartifacts, hrow]
  | started _ _ _ _ hartifacts => rw [hartifacts, hrow]
  | failed _ _ _ hartifacts => rw [hartifacts, hrow]
  | finished _ _ _ _ hartifacts => rw [hartifacts, hrow]
  | @generated _ _ _ _ id _ _ _ hfree _ _ hartifacts =>
    have hne : id ≠ i := by
      rintro rfl
      rw [hfree] at hrow
      exact absurd hrow (by simp)
    rw [hartifacts, Machine.Table.find_put, if_neg hne, hrow]

section Cache

variable (s : State) (rec : ℕ)

theorem setStatus_cache (st : RecommendationStatus) :
    (s.setStatus rec st).artifactCache = s.artifactCache := rfl

theorem markActive_cache : (markActive s rec).artifactCache = s.artifactCache := by
  unfold markActive
  repeat' split
  all_goals rfl

theorem markRolledBack_cache : (markRolledBack s rec).artifactCache = s.artifactCache := by
  unfold markRolledBack
  repeat' split
  all_goals rfl

theorem ensureChangeRequest_cache (run : EvalRun) :
    (ensureChangeRequest recs s run).artifactCache = s.artifactCache := by
  unfold ensureChangeRequest
  repeat' split
  all_goals rfl

theorem recordRollback_cache (p : ProxyPolicy) :
    (recordRollback recs s p).artifactCache = s.artifactCache := by
  unfold recordRollback
  dsimp only
  repeat' split
  · rfl
  · rfl
  · exact markRolledBack_cache _ _

end Cache

theorem cache_cases (h : perform lower recs s a = some s') {i : ℕ} {v : String × String}
    (hv : s'.artifactCache i = some v) :
    s.artifactCache i = some v ∨
      ∃ row, s.evals.artifacts.find i = some row ∧ v = row.substitution := by
  cases performed_of_step h with
  | applied _ _ _ h₁ =>
    rw [setStatus_cache, markActive_cache] at hv
    cases h₁ with
    | nothing _ => exact .inl hv
    | wrote _ hforgets _ _ => exact .inl (hforgets i v hv)
  | dropped _ _ =>
    rw [setStatus_cache, markRolledBack_cache] at hv
    exact .inl hv
  | drifted _ _ _ =>
    rw [recordRollback_cache] at hv
    exact .inl hv
  | finished _ _ _ =>
    rw [ensureChangeRequest_cache] at hv
    exact .inl hv
  | @loaded artifact _ =>
    unfold loadArtifact at hv
    split at hv
    · exact .inl hv
    · split at hv
      · exact .inl hv
      · next row hrow =>
        by_cases hi : i = artifact
        · subst hi
          refine .inr ⟨row, hrow, ?_⟩
          simpa [State.setArtifactCache, eq_comm] using hv
        · refine .inl ?_
          simpa [State.setArtifactCache, Function.update_of_ne hi] using hv
  | @expired artifact _ =>
    by_cases hi : i = artifact
    · subst hi
      simp [expireArtifact, State.setArtifactCache] at hv
    · refine .inl ?_
      simpa [expireArtifact, State.setArtifactCache, Function.update_of_ne hi] using hv
  | _ => exact .inl hv

theorem coherent_perform (hc : CacheCoherent s) (h : perform lower recs s a = some s') :
    CacheCoherent s' := by
  intro i v hv
  rcases cache_cases h hv with hold | ⟨row, hrow, rfl⟩
  · obtain ⟨row, hrow, rfl⟩ := hc i v hold
    exact ⟨row, artifact_kept h hrow, rfl⟩
  · exact ⟨row, artifact_kept h hrow, rfl⟩

theorem latestArtifact_find {e : Evals} {rec : ℕ} {row : PromptCompression}
    (h : e.latestArtifact rec = some row) : e.artifacts.find row.id = some row :=
  Machine.Table.find_eq_some.2 ⟨(Machine.Table.latest_mem h).1, rfl⟩

theorem Backed.later {past : List (State × Input)} {p p' : ProxyPolicy} {row : PromptCompression}
    (h : Backed lower recs past p row) (hs : SameContent p p') (q : State × Input) :
    Backed lower recs (past ++ [q]) p' row where
  application := by
    obtain ⟨q', hq, rec, automated, run, happ, hsource, hrun, hclear, hrow, p₀, hp₀, hsame⟩ :=
      h.application
    exact ⟨q', List.mem_append_left _ hq, rec, automated, run, happ, hs.source ▸ hsource, hrun,
      hclear, hrow, p₀, hp₀, hsame.trans hs⟩
  artifact := hs.artifact ▸ h.artifact

theorem backed_of_activated {past : List (State × Input)} {p : ProxyPolicy} {rec : ℕ}
    {automated : Bool} {r : Recommendation} (hcur : s.evals.Current recs)
    (h : perform lower recs s a = some s') (happ : application s a = some (rec, automated))
    (hr : recs rec = some r) (hg : gatesPass a.gates s rec r automated = true)
    (hact : Activated lower s rec r p) (hp : p ∈ s'.policies.rows)
    (hlever : p.key.lever = .promptCompression) :
    ∃ row, s.evals.artifacts.find row.id = some row ∧
      Backed lower recs (past ++ [(s, a)]) p row := by
  have hl : r.lever = some .promptCompression := hlever ▸ lever_of_policyKey hact.key
  obtain ⟨hsome, hartifact⟩ := hact.artifact hlever
  obtain ⟨id, hid⟩ := Option.isSome_iff_exists.1 hsome
  obtain ⟨row, hrow, -⟩ := Option.map_eq_some_iff.1 hid
  simp only [gatesPass, Bool.and_eq_true] at hg
  obtain ⟨run, hrun⟩ := Option.isSome_iff_exists.1 hg.1.2
  obtain ⟨x, -, hx, hdone, hverdict⟩ := assertAppliable_gated hl rfl hrun
  have hxrow : x.artifact = some row := (hcur.run rec r x hr hl hx hdone).trans hrow
  have hstep : step lower recs s a = s' := by rw [step, h, Option.getD_some]
  refine ⟨row, latestArtifact_find hrow, ⟨(s, a), List.mem_append_right _ List.mem_cons_self, rec,
    automated, x, happ, hact.source, hx, ⟨hdone, hverdict⟩, hxrow, p, ?_, .refl p⟩, ?_⟩
  · dsimp only
    rw [hstep]
    exact hp
  · rw [hartifact, artifactForRecommendation, hrow, Option.map_some]

theorem history_step {past : List (State × Input)} (hord : InOrder s a)
    (h : History lower recs past s) :
    History lower recs (past ++ [(s, a)]) (step lower recs s a) := by
  cases hp : perform lower recs s a with
  | none =>
    have hstep : step lower recs s a = s := by rw [step, hp, Option.getD_none]
    rw [hstep]
    refine ⟨h.current, h.cache, fun p hpr hl => ?_⟩
    obtain ⟨row, hrow, hb⟩ := h.backed p hpr hl
    exact ⟨row, hrow, hb.later (.refl p) _⟩
  | some s' =>
    have hstep : step lower recs s a = s' := by rw [step, hp, Option.getD_some]
    refine ⟨current_step h.current hord, ?_, ?_⟩
    · rw [hstep]
      exact coherent_perform h.cache hp
    · rw [hstep]
      intro p hpr hl
      rcases policy_origin hp hpr with ⟨q, hq, hsame⟩ | ⟨rec, automated, r, happ, hr, hg, hact⟩
      · obtain ⟨row, hrow, hb⟩ := h.backed q hq (hsame.key ▸ hl)
        exact ⟨row, artifact_kept hp hrow, hb.later hsame _⟩
      · obtain ⟨row, hrow, hb⟩ := backed_of_activated h.current hp happ hr hg hact hpr hl
        exact ⟨row, artifact_kept hp hrow, hb⟩

theorem history_initial : History lower recs [] .initial where
  current := current_initial
  cache := fun _ _ h => absurd h (by simp [State.initial])
  backed := fun _ h => absurd h List.not_mem_nil

theorem live_run {as : List Input}
    (hord : ∀ q ∈ steps (step lower recs) .initial as, InOrder q.1 q.2) :
    ∀ p ∈ (final (step lower recs) .initial as).policies.rows, p.enabled = true →
      p.key.lever = .promptCompression →
        ∃ row, Backed lower recs (steps (step lower recs) .initial as) p row ∧
          Substitutes (final (step lower recs) .initial as) row := by
  have hrun : History lower recs ([] ++ steps (step lower recs) .initial as)
      (final (step lower recs) .initial as) :=
    history (fun past s a hord h => history_step hord h) history_initial hord
  intro p hp _ hl
  obtain ⟨row, hrow, hb⟩ := hrun.backed p hp hl
  exact ⟨row, hb, substitutes_of_coherent hrun.cache hrow⟩

/-- In a run of overlapping operations that find their rows as they have read them, and whose
generations commit in order, a live compression holds the rewrite that the cleared run behind its
application evaluated, and the proxy substitutes it. -/
theorem evaluated_rewrite_live (lower : Text → Text) (recs : Recommendations) {es : List Event}
    (hfresh : AllFresh lower recs (steps (Sessions.step lower recs) idle es))
    (hord : ∀ q ∈ committed (steps (Sessions.step lower recs) idle es), InOrder q.1 q.2) :
    ∀ p ∈ (final (Sessions.step lower recs) idle es).base.policies.rows, p.enabled = true →
      p.key.lever = .promptCompression →
        ∃ row, Backed lower recs (committed (steps (Sessions.step lower recs) idle es)) p row ∧
          Substitutes (final (Sessions.step lower recs) idle es).base row := by
  obtain ⟨as, hcommitted, hbase⟩ := Sessions.run_fresh hfresh
  rw [hcommitted] at hord ⊢
  rw [hbase]
  exact live_run hord

/-! ## A rewrite that commits behind a newer run -/

/-- A compression of the model `m`. -/
def compressionOfM : Recommendations := fun rec =>
  if rec = 0 then some ⟨some .promptCompression, none, none, some "m", none⟩ else none

/-- The first rewrite fails its eval. A second generation begins at 10; before it commits, an
evaluation of the first rewrite is asked for at 11, and it ends safe after. -/
def overtaken : List Input :=
  [⟨.allow, .generate 0 "m" "hash" "first" 0 ⟨0, 0⟩⟩, ⟨.allow, .evaluate 0 none ⟨1, 1⟩⟩,
    ⟨.allow, .startRun 0⟩, ⟨.allow, .finishRun 0 (some .insufficient)⟩,
    ⟨.allow, .evaluate 0 none ⟨2, 11⟩⟩, ⟨.allow, .startRun 0⟩,
    ⟨.allow, .generate 0 "m" "hash" "second" 1 ⟨3, 10⟩⟩, ⟨.allow, .finishRun 0 (some .safe)⟩]

def applyOfM : Input := ⟨.allow, .transition 0 .applied⟩

theorem overtaken_applies_none :
    ∀ q ∈ steps (step id compressionOfM) .initial overtaken, application q.1 q.2 = none := by
  have hin : ∀ a ∈ overtaken, ∀ s, application s a = none := by simp [overtaken, application]
  exact fun q hq => input_of_steps hin q hq q.1

/-- The second rewrite is live, no run ever replayed it. -/
theorem unevaluated_rewrite_live :
    ∃ p ∈ (final (Sessions.step id compressionOfM) idle
        (oneByOne (overtaken ++ [applyOfM]))).base.policies.rows,
      p.enabled = true ∧ p.key.lever = .promptCompression ∧
        ∀ row, ¬ Backed id compressionOfM (committed (steps (Sessions.step id compressionOfM) idle
          (oneByOne (overtaken ++ [applyOfM])))) p row := by
  obtain ⟨hfinal, hcommitted⟩ :=
    Sessions.run_oneByOne id compressionOfM .initial (overtaken ++ [applyOfM])
  rw [idle, hfinal, hcommitted]
  refine ⟨_, List.mem_of_getElem? (i := 0) rfl, rfl, rfl, fun row hb => ?_⟩
  obtain ⟨q, hq, rec, automated, run, happ, -, hrun, -, hrow, -⟩ := hb.application
  rw [steps_append, List.mem_append] at hq
  rcases hq with hq | hq
  · rw [overtaken_applies_none q hq] at happ
    exact absurd happ (by simp)
  · obtain rfl := List.mem_singleton.1 hq
    obtain rfl : 0 = rec := congrArg Prod.fst (Option.some.inj happ)
    have hfirst : (latestRun (final (step id compressionOfM) .initial overtaken) 0).bind
        (fun run => run.artifact.map (·.id)) = some 0 := by decide +kernel
    have hid : row.id = 0 := by simpa [hrun, hrow] using hfirst
    exact absurd (hb.artifact.trans (congrArg some hid)) (by decide +kernel)

def generated : List Input :=
  [⟨.allow, .generate 0 "m" "hash" "first" 0 ⟨0, 0⟩⟩, ⟨.allow, .evaluate 0 none ⟨1, 1⟩⟩,
    ⟨.allow, .startRun 0⟩, ⟨.allow, .finishRun 0 (some .safe)⟩, applyOfM]

theorem generated_rewrite_live :
    ∃ p ∈ (final (Sessions.step id compressionOfM) idle (oneByOne generated)).base.policies.rows,
      p.enabled = true ∧ ∃ row,
        Backed id compressionOfM
          (committed (steps (Sessions.step id compressionOfM) idle (oneByOne generated))) p row ∧
        Substitutes (final (Sessions.step id compressionOfM) idle (oneByOne generated)).base
          row := by
  obtain ⟨hfinal, hcommitted⟩ := Sessions.run_oneByOne id compressionOfM .initial generated
  have hlive : ∃ p ∈ (final (Sessions.step id compressionOfM) idle
      (oneByOne generated)).base.policies.rows,
        p.enabled = true ∧ p.key.lever = .promptCompression := by
    rw [idle, hfinal]
    decide +kernel
  obtain ⟨p, hp, hen, hl⟩ := hlive
  refine ⟨p, hp, hen, evaluated_rewrite_live id compressionOfM
    (Sessions.fresh_oneByOne id compressionOfM .initial generated) ?_ p hp hen hl⟩
  rw [idle, hcommitted]
  simp only [generated, steps, List.forall_mem_cons]
  refine ⟨?_, ?_, ?_, ?_, ?_, List.forall_mem_nil _⟩
  · rintro rec model hash text id f hop - x hx
    obtain ⟨rfl, -⟩ := Operation.generate.inj hop
    exact absurd hx (by simp [State.initial, Evals.latestRun, Machine.Table.latest,
      Machine.Table.empty])
  all_goals
    intro rec model hash text id f hop
    exact absurd hop (by simp [applyOfM])

end Varsten.ControlPlane.LiveRewrites
