import Varsten.ControlPlane.Changes
import Varsten.Machine.Runs

/-!
# Recommendations and their policies

An enabled policy comes from an applied recommendation, and an application leaves one, in a run
that reopens no recommendation with a live policy and applies none that names no policy.
-/

namespace Varsten.ControlPlane.Agreement

open Machine.Runs
open Python.Utf8 (Text)

variable {lower : Text → Text} {recs : Recommendations} {s s' : State} {a : Input}

/-- The source of every enabled policy is applied. -/
def SourcesApplied (s : State) : Prop :=
  ∀ p ∈ s.policies.rows, p.enabled = true → ∃ rec, p.source = some rec ∧ s.status rec = .applied

def HasPolicy (s : State) (rec : ℕ) : Prop :=
  ∃ p ∈ s.policies.rows, p.enabled = true ∧ p.source = some rec

def Keyed (lower : Text → Text) (recs : Recommendations) (s : State) : Prop :=
  ∀ p ∈ s.policies.rows, ∀ rec, p.source = some rec →
    ∃ r, recs rec = some r ∧ r.policyKey lower = some p.key

/-- An application of a lever with a policy that commits leaves an enabled policy. -/
def LeavesPolicy (lower : Text → Text) (recs : Recommendations) (s : State) (a : Input) : Prop :=
  ∀ rec automated r s', application s a = some (rec, automated) → recs rec = some r →
    r.lever.any Lever.hasPolicy = true → perform lower recs s a = some s' → HasPolicy s' rec

/-- The operations on recommendations, the drift guard, evals and change requests. -/
def InScope (a : Input) : Prop := ∀ key enabled, a.operation ≠ .updatePolicy key enabled

/-- No live recommendation is reopened, and what passes the gates names a policy or has one. -/
structure Agreeable (recs : Recommendations) (s : State) (a : Input) : Prop where
  reopen : ∀ rec, a.operation = .transition rec .opened → recs rec ≠ none → ¬ HasPolicy s rec
  named : ∀ rec automated r, application s a = some (rec, automated) → recs rec = some r →
    r.lever.any Lever.hasPolicy = true → gatesPass a.gates s rec r automated = true →
      namesPolicy s rec r = true ∨ HasPolicy s rec

/-! ## One step -/

theorem keyed_perform (hs : InScope a) (hk : Keyed lower recs s)
    (h : perform lower recs s a = some s') : Keyed lower recs s' := by
  intro p hp rec hsource
  cases change_of_step h with
  | same _ hpolicies _ => exact hk p (hpolicies ▸ hp) rec hsource
  | @applied s₁ _ rec' _ r _ hr _ hact hpolicies _ =>
    rw [hpolicies] at hp
    rcases policyKey_of_wrote hact hp with ⟨hkey, hsource', -⟩ | hold
    · obtain rfl := Option.some.inj (hsource.symm.trans hsource')
      exact ⟨r, hr, hkey⟩
    · exact hk p hold rec hsource
  | dropped _ hrows _ =>
    rw [hrows] at hp
    obtain ⟨q, hq, rfl⟩ := List.mem_map.1 hp
    rw [deactivateFor_source] at hsource
    rw [deactivateFor_key]
    exact hk q hq rec hsource
  | reopened _ _ hpolicies _ => exact hk p (hpolicies ▸ hp) rec hsource
  | drifted _ hq hpolicies _ =>
    rw [hpolicies, Machine.Table.mem_put] at hp
    rcases hp with rfl | ⟨hp, -⟩
    · exact hk _ hq rec hsource
    · exact hk p hp rec hsource
  | patched hop _ _ _ _ => exact absurd hop (hs _ _)

theorem keyed_step (hs : InScope a) (hk : Keyed lower recs s) :
    Keyed lower recs (step lower recs s a) := by
  unfold step
  cases h : perform lower recs s a with
  | none => exact hk
  | some s' => exact keyed_perform hs hk h

theorem Keyed.key_eq (hk : Keyed lower recs s) {p q : ProxyPolicy} (hp : p ∈ s.policies.rows)
    (hq : q ∈ s.policies.rows) {rec : ℕ} (hps : p.source = some rec) (hqs : q.source = some rec) :
    p.key = q.key := by
  obtain ⟨r, hr, hpk⟩ := hk p hp rec hps
  obtain ⟨r', hr', hqk⟩ := hk q hq rec hqs
  obtain rfl := Option.some.inj (hr.symm.trans hr')
  exact Option.some.inj (hpk.symm.trans hqk)

theorem update_applied {rec rec' : ℕ} (h : s.status rec' = .applied) :
    Function.update s.status rec .applied rec' = .applied := by
  by_cases hne : rec' = rec
  · rw [hne, Function.update_self]
  · rw [Function.update_of_ne hne, h]

theorem sourcesApplied_perform (hs : InScope a) (hk : Keyed lower recs s) (hc : Agreeable recs s a)
    (hinv : SourcesApplied s) (h : perform lower recs s a = some s') : SourcesApplied s' := by
  intro p hp hen
  cases change_of_step h with
  | same _ hpolicies hstatus =>
    rw [hstatus]
    exact hinv p (hpolicies ▸ hp) hen
  | @applied s₁ _ rec _ r _ _ _ hact hpolicies hstatus =>
    rw [hpolicies] at hp
    rw [hstatus]
    rcases policyKey_of_wrote hact hp with ⟨-, hsource, -⟩ | hold
    · exact ⟨rec, hsource, Function.update_self ..⟩
    · obtain ⟨rec', hsource, happlied⟩ := hinv p hold hen
      exact ⟨rec', hsource, update_applied happlied⟩
  | @dropped _ rec _ _ hrows hstatus =>
    rw [hrows] at hp
    obtain ⟨q, hq, rfl⟩ := List.mem_map.1 hp
    obtain ⟨hq_enabled, hother⟩ := deactivateFor_enabled hen
    obtain ⟨rec', hsource, happlied⟩ := hinv q hq hq_enabled
    have hne : rec' ≠ rec := fun he => hother (he ▸ hsource)
    refine ⟨rec', by rw [deactivateFor_source, hsource], ?_⟩
    rw [hstatus, Function.update_of_ne hne]
    exact happlied
  | @reopened _ rec hop hrec hpolicies hstatus =>
    rw [hpolicies] at hp
    obtain ⟨rec', hsource, happlied⟩ := hinv p hp hen
    have hne : rec' ≠ rec := by
      rintro rfl
      exact hc.reopen rec' hop hrec ⟨p, hp, hen, hsource⟩
    refine ⟨rec', hsource, ?_⟩
    rw [hstatus, Function.update_of_ne hne]
    exact happlied
  | @drifted _ q _ hq hpolicies hstatus =>
    rw [hpolicies, Machine.Table.mem_put] at hp
    rcases hp with rfl | ⟨hp, hkey⟩
    · exact absurd hen (by simp)
    · obtain ⟨rec', hsource, happlied⟩ := hinv p hp hen
      refine ⟨rec', hsource, ?_⟩
      rcases hstatus with hstatus | ⟨rec, hqsource, hstatus⟩
      · rw [hstatus]
        exact happlied
      · have hne : rec' ≠ rec := fun he => hkey (hk.key_eq (q := q) hp hq hsource (he ▸ hqsource))
        rw [hstatus, Function.update_of_ne hne]
        exact happlied
  | patched hop _ _ _ _ => exact absurd hop (hs _ _)

theorem leavesPolicy_of_agreeable (hc : Agreeable recs s a) : LeavesPolicy lower recs s a := by
  intro rec automated r s' happ hr hlever h
  obtain ⟨r', hr', hg, s₁, h₁, rfl⟩ := application_cases happ h
  obtain rfl := Option.some.inj (hr.symm.trans hr')
  have hkept : HasPolicy s₁ rec := by
    cases h₁ with
    | wrote _ _ _ hact => exact ⟨_, Machine.Table.mem_put.2 (.inl rfl), hact.enabled, hact.source⟩
    | nothing hnames =>
      rw [hlever, Bool.true_and] at hnames
      rcases hc.named rec automated r happ hr hlever hg with hn | hhas
      · exact absurd (hn.symm.trans hnames) (by simp)
      · exact hhas
  simpa [HasPolicy] using hkept

theorem agreeable_of_step (hinv : SourcesApplied (step lower recs s a))
    (hl' : LeavesPolicy lower recs s a) : Agreeable recs s a where
  reopen := by
    rintro rec hop hrec ⟨p, hp, hen, hsource⟩
    obtain ⟨r, hr⟩ := Option.ne_none_iff_exists'.1 hrec
    have hstep : step lower recs s a = s.setStatus rec .opened := by
      simp [step, perform, hop, transitionRecommendation, hr]
    rw [hstep] at hinv
    obtain ⟨rec', hsource', happlied⟩ := hinv p hp hen
    obtain rfl := Option.some.inj (hsource.symm.trans hsource')
    simp at happlied
  named := by
    intro rec automated r happ hr hlever hg
    cases hn : namesPolicy s rec r with
    | true => exact .inl rfl
    | false =>
      obtain ⟨l, hl, hp⟩ : ∃ l, r.lever = some l ∧ l.hasPolicy = true := by
        cases hl : r.lever with
        | none => simp [hl] at hlever
        | some l => exact ⟨l, rfl, by simpa [hl] using hlever⟩
      have happlied : perform lower recs s a = some ((markActive s rec).setStatus rec .applied) :=
        application_unnamed happ hr hl hp hn hg
      obtain ⟨p, hp, hen, hsource⟩ := hl' rec automated r _ happ hr hlever happlied
      exact .inr ⟨p, by simpa using hp, hen, hsource⟩

theorem step_iff (hs : InScope a) (hk : Keyed lower recs s) (hinv : SourcesApplied s) :
    (SourcesApplied (step lower recs s a) ∧ LeavesPolicy lower recs s a) ↔ Agreeable recs s a := by
  refine ⟨fun h => agreeable_of_step h.1 h.2, fun hc => ⟨?_, leavesPolicy_of_agreeable hc⟩⟩
  unfold step
  cases h : perform lower recs s a with
  | none => exact hinv
  | some s' => exact sourcesApplied_perform hs hk hc hinv h

/-! ## Runs -/

/-- In a run from the start, recommendations and policies agree after every step exactly when every
step is agreeable. -/
theorem recommendations_agree_iff (lower : Text → Text) (recs : Recommendations) {as : List Input}
    (hin : ∀ a ∈ as, InScope a) :
    (∀ p ∈ steps (step lower recs) .initial as,
        SourcesApplied (step lower recs p.1 p.2) ∧ LeavesPolicy lower recs p.1 p.2) ↔
      ∀ p ∈ steps (step lower recs) .initial as, Agreeable recs p.1 p.2 := by
  have hkeyed : Keyed lower recs .initial := fun p hp => absurd hp List.not_mem_nil
  have hsources : SourcesApplied .initial := fun p hp => absurd hp List.not_mem_nil
  have hstep : ∀ s a, InScope a → Keyed lower recs s → Keyed lower recs (step lower recs s a) :=
    fun s a hs hk => keyed_step hs hk
  exact steps_iff hstep (fun s a hs hk hinv => step_iff hs hk hinv) hkeyed hsources
    (input_of_steps hin)

/-! ## A live policy of an open recommendation -/

/-- A trim of the model `m`, applied and then reopened. -/
def trimOfM : Recommendations := fun rec =>
  if rec = 0 then some ⟨some .tokenTrim, none, none, some "m", none⟩ else none

def applyThenReopen : List Input :=
  [⟨.allow, .transition 0 .applied⟩, ⟨.allow, .transition 0 .opened⟩]

theorem applyThenReopen_inScope : ∀ a ∈ applyThenReopen, InScope a := by
  simp [applyThenReopen, InScope]

theorem reopened_policy_live : ∃ s, (s, ⟨.allow, .transition 0 .opened⟩) ∈
      steps (step id trimOfM) .initial applyThenReopen ∧
    ¬ SourcesApplied (step id trimOfM s ⟨.allow, .transition 0 .opened⟩) := by
  refine ⟨_, List.mem_cons_of_mem _ List.mem_cons_self, fun h => ?_⟩
  obtain ⟨rec, hsource, hstatus⟩ := h _ List.mem_cons_self rfl
  obtain rfl := Option.some.inj hsource
  exact absurd hstatus (by decide)

theorem recommendations_agree_reopened :
    (∀ p ∈ steps (step id trimOfM) .initial applyThenReopen,
        SourcesApplied (step id trimOfM p.1 p.2) ∧ LeavesPolicy id trimOfM p.1 p.2) ↔
      ∀ p ∈ steps (step id trimOfM) .initial applyThenReopen, Agreeable trimOfM p.1 p.2 :=
  recommendations_agree_iff id trimOfM applyThenReopen_inScope

end Varsten.ControlPlane.Agreement
