import Varsten.ControlPlane.Changes
import Varsten.Machine.Runs

/-!
# One body transform on a route

The activation of a compression looks for a live trim, the other ways to turn a transform on look
for nothing.
-/

namespace Varsten.ControlPlane.Exclusion

open Engine.RouteIdentity (defaultRoute)
open Machine.Runs
open Python.Utf8 (Text)

variable {lower : Text → Text} {recs : Recommendations} {s s' : State} {a : Input}

def Overlap (k k' : String) : Prop := k = k' ∨ k = defaultRoute ∨ k' = defaultRoute

def OtherTransform (l l' : Lever) : Prop :=
  (l = .tokenTrim ∧ l' = .promptCompression) ∨ (l = .promptCompression ∧ l' = .tokenTrim)

structure Contends (k k' : PolicyKey) : Prop where
  lever : OtherTransform k.lever k'.lever
  target : k.targetKey = k'.targetKey
  route : Overlap k.routeKey k'.routeKey

/-- No model has two live transforms on a route. -/
def OneTransform (s : State) : Prop :=
  ∀ p ∈ s.policies.rows, ∀ q ∈ s.policies.rows, p.enabled = true → q.enabled = true →
    ¬ Contends p.key q.key

def Free (s : State) (k : PolicyKey) : Prop :=
  ∀ q ∈ s.policies.rows, q.enabled = true → ¬ Contends k q.key

/-- The key that an input turns on without a look at the others: of the trim it applies, or of the
policy it resumes. -/
def uncheckedKey (lower : Text → Text) (recs : Recommendations) (s : State) (a : Input) :
    Option PolicyKey :=
  match application s a, a.operation with
  | some (rec, automated), _ => do
    let r ← recs rec
    if r.lever = some .tokenTrim ∧ gatesPass a.gates s rec r automated = true then
      r.policyKey lower
    else none
  | none, .updatePolicy key (some true) => do
    let p ← s.policies.find key
    if resumable a.gates p then some key else none
  | none, _ => none

/-- What the input turns on unchecked contends with nothing live. -/
def Exclusive (lower : Text → Text) (recs : Recommendations) (s : State) (a : Input) : Prop :=
  ∀ k ∈ uncheckedKey lower recs s a, Free s k

theorem OtherTransform.symm {l l' : Lever} (h : OtherTransform l l') : OtherTransform l' l := by
  unfold OtherTransform at *
  tauto

theorem Contends.symm {k k' : PolicyKey} (h : Contends k k') : Contends k' k where
  lever := h.lever.symm
  target := h.target.symm
  route := by
    have hroute := h.route
    unfold Overlap at *
    tauto

theorem Contends.irrefl (k : PolicyKey) : ¬ Contends k k := by
  rintro ⟨⟨h, h'⟩ | ⟨h, h'⟩, -, -⟩ <;> rw [h] at h' <;> exact absurd h' (by decide)

theorem oneTransform_put {p : ProxyPolicy} (hp : p.enabled = true) (hinv : OneTransform s)
    (hs : s'.policies = s.policies.put p) : OneTransform s' ↔ Free s p.key := by
  unfold OneTransform
  rw [hs]
  constructor
  · intro h q hq hen hcon
    have hne : q.key ≠ p.key := fun he => Contends.irrefl p.key (he ▸ hcon)
    exact h p (Machine.Table.mem_put.2 (.inl rfl)) q (Machine.Table.mem_put.2 (.inr ⟨hq, hne⟩))
      hp hen hcon
  · intro hfree x hx y hy hxe hye hcon
    rcases Machine.Table.mem_put.1 hx with rfl | ⟨hx', -⟩
    · rcases Machine.Table.mem_put.1 hy with rfl | ⟨hy', -⟩
      · exact Contends.irrefl _ hcon
      · exact hfree y hy' hye hcon
    · rcases Machine.Table.mem_put.1 hy with rfl | ⟨hy', -⟩
      · exact hfree x hx' hxe hcon.symm
      · exact hinv x hx' y hy' hxe hye hcon

theorem oneTransform_quiet (hinv : OneTransform s)
    (h : ∀ p ∈ s'.policies.rows, p.enabled = true →
      ∃ q ∈ s.policies.rows, q.enabled = true ∧ q.key = p.key) : OneTransform s' := by
  intro p hp q hq hpe hqe
  obtain ⟨p', hp', hpe', hpk⟩ := h p hp hpe
  obtain ⟨q', hq', hqe', hqk⟩ := h q hq hqe
  rw [← hpk, ← hqk]
  exact hinv p' hp' q' hq' hpe' hqe'

theorem free_of_trimConflicts {k : PolicyKey} (hk : k.lever = .promptCompression)
    (h : s.policies.rows.any (trimConflicts k.targetKey k.routeKey) = false) : Free s k := by
  intro q hq hen hcon
  have hlever : q.key.lever = .tokenTrim := by
    rcases hcon.lever with ⟨h', -⟩ | ⟨-, h'⟩
    · rw [hk] at h'
      exact absurd h' (by decide)
    · exact h'
  have hconflict : trimConflicts k.targetKey k.routeKey q = true := by
    have hroute := hcon.route
    unfold Overlap at hroute
    simp only [trimConflicts, hlever, hcon.target, hen, decide_true, Bool.and_self, Bool.true_and,
      Bool.or_eq_true, decide_eq_true_eq]
    tauto
  exact absurd (List.any_eq_true.2 ⟨q, hq, hconflict⟩) (by rw [h]; simp)

/-! ## One step -/

theorem Free.of_lever {k : PolicyKey} (h₁ : k.lever ≠ .tokenTrim)
    (h₂ : k.lever ≠ .promptCompression) : Free s k :=
  fun _ _ _ hcon => hcon.lever.elim (fun h => h₁ h.1) (fun h => h₂ h.1)

theorem oneTransform_activation {rec : ℕ} {r : Recommendation} {s₁ : State}
    (hinv : OneTransform s) (h : Activation lower s rec r s₁)
    (hfree : r.lever = some .tokenTrim → ∀ k, r.policyKey lower = some k → Free s k) :
    OneTransform s₁ := by
  cases h with
  | nothing _ => exact hinv
  | @wrote p _ _ _ hact =>
    have hlever : r.lever = some p.key.lever := lever_of_policyKey hact.key
    refine (oneTransform_put hact.enabled hinv rfl).2 ?_
    by_cases htrim : p.key.lever = .tokenTrim
    · exact hfree (htrim ▸ hlever) _ hact.key
    · by_cases hcompress : p.key.lever = .promptCompression
      · exact free_of_trimConflicts hcompress (hact.exclusive hcompress)
      · exact .of_lever htrim hcompress

theorem oneTransform_perform (hinv : OneTransform s) (hc : Exclusive lower recs s a)
    (h : perform lower recs s a = some s') : OneTransform s' := by
  cases change_of_step h with
  | same _ hpolicies _ => exact oneTransform_quiet hinv fun p hp hen => ⟨p, hpolicies ▸ hp, hen, rfl⟩
  | @applied s₁ _ rec automated r happ hr hg hact hpolicies _ =>
    refine oneTransform_quiet (s := s₁) (oneTransform_activation hinv hact fun hl k hk => ?_)
      fun p hp hen => ⟨p, hpolicies ▸ hp, hen, rfl⟩
    exact hc k (by simp [uncheckedKey, happ, hr, hl, hg, hk])
  | dropped _ hrows _ =>
    refine oneTransform_quiet hinv fun p hp hen => ?_
    rw [hrows] at hp
    obtain ⟨q, hq, rfl⟩ := List.mem_map.1 hp
    exact ⟨q, hq, (deactivateFor_enabled hen).1, (deactivateFor_key _ _).symm⟩
  | reopened _ _ hpolicies _ =>
    exact oneTransform_quiet hinv fun p hp hen => ⟨p, hpolicies ▸ hp, hen, rfl⟩
  | drifted _ _ hpolicies _ =>
    refine oneTransform_quiet hinv fun p hp hen => ?_
    rw [hpolicies, Machine.Table.mem_put] at hp
    rcases hp with rfl | ⟨hp, -⟩
    · exact absurd hen (by simp)
    · exact ⟨p, hp, hen, rfl⟩
  | @patched _ p key enabled hop hfind hresume hpolicies _ =>
    obtain ⟨hp, rfl⟩ := Machine.Table.find_eq_some.1 hfind
    have hsame : p.enabled = true ∨ enabled ≠ some true → OneTransform s' := by
      intro hon
      refine oneTransform_quiet hinv fun q hq hen => ?_
      rw [hpolicies, Machine.Table.mem_put] at hq
      rcases hq with rfl | ⟨hq, -⟩
      · refine ⟨p, hp, ?_, rfl⟩
        rcases hon with hon | hon
        · exact hon
        · cases enabled with
          | none => exact hen
          | some b => exact absurd (congrArg some hen) hon
      · exact ⟨q, hq, hen, rfl⟩
    by_cases hon : enabled = some true
    · subst hon
      refine (oneTransform_put (p := { p with enabled := true }) rfl hinv hpolicies).2 ?_
      refine hc _ ?_
      simp [uncheckedKey, application, hop, hfind, hresume rfl]
    · exact hsame (.inr hon)

theorem exclusive_of_step (hinv : OneTransform s) (h : OneTransform (step lower recs s a)) :
    Exclusive lower recs s a := by
  intro k hk
  unfold uncheckedKey at hk
  cases happ : application s a with
  | some x =>
    obtain ⟨rec, automated⟩ := x
    simp only [happ, Option.bind_eq_bind, Option.mem_def, Option.bind_eq_some_iff] at hk
    obtain ⟨r, hr, hk⟩ := hk
    split_ifs at hk with hif
    obtain ⟨s₂, h₂⟩ : ∃ s₂, applyRecommendation lower a.gates s rec r automated = some s₂ :=
      applies_trim hif.1 hif.2
    have hperform := perform_application happ hr h₂
    obtain ⟨-, s₁, h₁, rfl⟩ := applyRecommendation_cases h₂
    have hpolicies : (step lower recs s a).policies = s₁.policies := by
      simp [step, hperform]
    cases h₁ with
    | wrote _ _ _ hact =>
      rw [Option.some.inj (hk.symm.trans hact.key)]
      exact (oneTransform_put hact.enabled hinv hpolicies).1 h
    | nothing hnames =>
      rw [hif.1, namesPolicy_trim hif.1 hk] at hnames
      exact absurd hnames (by decide)
  | none =>
    rw [happ] at hk
    split at hk
    · next hnone => exact absurd hnone (by simp)
    · next key hnone hop =>
      simp only [Option.bind_eq_bind, Option.mem_def, Option.bind_eq_some_iff] at hk
      obtain ⟨p, hfind, hk⟩ := hk
      split_ifs at hk with hresume
      obtain rfl := Option.some.inj hk
      obtain ⟨-, rfl⟩ := Machine.Table.find_eq_some.1 hfind
      have hpolicies : (step lower recs s a).policies =
          s.policies.put { p with enabled := true } := by
        simp [step, perform, hop, updatePolicy_resume hfind hresume]
      exact (oneTransform_put (p := { p with enabled := true }) rfl hinv hpolicies).1 h
    · exact absurd hk (by simp)

theorem step_iff (hinv : OneTransform s) :
    OneTransform (step lower recs s a) ↔ Exclusive lower recs s a := by
  refine ⟨exclusive_of_step hinv, fun hc => ?_⟩
  unfold step
  cases h : perform lower recs s a with
  | none => exact hinv
  | some s' => exact oneTransform_perform hinv hc h

/-! ## Runs -/

/-- In a run from the start no model ever has two live transforms on a route exactly when no step
turns one on, unchecked, where another is live. -/
theorem one_transform_iff (lower : Text → Text) (recs : Recommendations) (as : List Input) :
    (∀ p ∈ steps (step lower recs) .initial as, OneTransform (step lower recs p.1 p.2)) ↔
      ∀ p ∈ steps (step lower recs) .initial as, Exclusive lower recs p.1 p.2 := by
  have hstart : OneTransform .initial := fun p hp => absurd hp List.not_mem_nil
  have hstep : ∀ s a, True → True → OneTransform s →
      ((OneTransform (step lower recs s a) ∧ True) ↔ Exclusive lower recs s a) := by
    intro s a _ _ hinv
    rw [and_true]
    exact step_iff hinv
  simpa only [and_true] using
    steps_iff (P := fun _ => True) (fun _ _ _ _ => trivial) hstep trivial hstart
      (fun _ _ => trivial)

/-! ## A trim over a compression -/

/-- A compression and a trim of the model `m`. -/
def transformsOfM : Recommendations := fun rec =>
  if rec = 0 then some ⟨some .promptCompression, none, none, some "m", none⟩
  else if rec = 1 then some ⟨some .tokenTrim, none, none, some "m", none⟩
  else none

/-- The compression is generated, evaluated and applied, then the trim is applied. -/
def trimOverCompression : List Input :=
  [⟨.allow, .generate 0 "m" "hash" "text" 0 ⟨0, 0⟩⟩, ⟨.allow, .evaluate 0 none ⟨1, 1⟩⟩,
    ⟨.allow, .startRun 0⟩, ⟨.allow, .finishRun 0 (some .safe)⟩,
    ⟨.allow, .transition 0 .applied⟩, ⟨.allow, .transition 1 .applied⟩]

theorem trim_over_compression :
    ∃ p ∈ steps (step id transformsOfM) .initial trimOverCompression,
      ¬ OneTransform (step id transformsOfM p.1 p.2) := by
  refine ⟨_, List.mem_of_getElem? (i := 5) rfl, fun h => ?_⟩
  refine h _ (List.mem_of_getElem? (i := 0) rfl) _ (List.mem_of_getElem? (i := 1) rfl) rfl rfl ?_
  exact ⟨.inr ⟨rfl, rfl⟩, rfl, .inl rfl⟩

end Varsten.ControlPlane.Exclusion
