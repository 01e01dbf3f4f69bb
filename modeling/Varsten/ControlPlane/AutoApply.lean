import Varsten.ControlPlane.Changes
import Varsten.Machine.Runs
import Varsten.Python.Decimals

/-!
# The automatic applies of a sweep

The applies share one session, an exception is swallowed, and the commit at the end keeps what the
session holds: also what an apply changed before it raised.
-/

namespace Varsten.ControlPlane.AutoApply

open Machine.Runs
open Python.Decimals (quantize roundHalfUp)
open Python.Utf8 (Text)

structure Savings where
  estimated : Option ℚ
  method : Option String

structure RecommendationAction where
  recommendation : ℕ
  lever : Option Lever
  estimated : Option ℚ
  realized : Option ℚ

structure SavingsAttribution where
  recommendation : ℕ
  month : ℕ
  lever : Lever
  method : String
  measured : Bool
  gross : ℚ
  fee : ℚ
  net : ℚ

/-- The session that the applies of a sweep share. -/
structure Session where
  control : State
  savings : ℕ → Savings
  actions : List RecommendationAction
  attributions : List SavingsAttribution
  savingsToDate : Lever → ℚ

/-- The calls of an apply, at each of which an error can strike that no gate raises. -/
inductive Point where
  | performance
  | lever
  | evalGate
  | governance
  | activation
  | record
  | attribution
deriving DecidableEq

/-- What a sweep finds: the recommendations of the project, its gates, the measured savings of
runs, the gain share, the month, and the errors that strike. -/
structure Sweep where
  lower : Text → Text
  recs : Recommendations
  gates : Gates
  costDelta : ℕ → Option ℚ
  feePercent : ℚ
  month : ℕ
  strikes : ℕ → Point → Bool

variable {w : Sweep} {S : Session} {rec : ℕ} {r : Recommendation}

/-- `apply_measured_savings`: what it makes of the savings of a recommendation. -/
def measuredSavings (w : Sweep) (old : Savings) (run : Option EvalRun) : Savings :=
  match run.bind fun run => w.costDelta run.id with
  | none => old
  | some delta => if delta ≤ 0 then old else ⟨some delta, some "replay_measured"⟩

def Session.setSavings (S : Session) (rec : ℕ) (savings : Savings) : Session :=
  { S with savings := Function.update S.savings rec savings }

/-- The four gates, and the gating run they hand on; the outer `none` is an exception. -/
def passGates (w : Sweep) (S : Session) (rec : ℕ) (r : Recommendation) : Option (Option EvalRun) :=
  if w.strikes rec .performance || !w.gates.performance then none
  else if w.strikes rec .lever || !w.gates.lever r.lever then none
  else if w.strikes rec .evalGate then none
  else do
    let run ← assertAppliable S.control rec r true
    if w.strikes rec .governance || !changeRequestApproved w.gates S.control rec r then none
    else some run

/-- `_apply_recommendation` in the session, and whether it raises. -/
def applyRecommendation (w : Sweep) (S : Session) (rec : ℕ) (r : Recommendation) :
    Session × Bool :=
  match passGates w S rec r with
  | none => (S, true)
  | some run =>
    let S := S.setSavings rec (measuredSavings w (S.savings rec) run)
    if w.strikes rec .activation then (S, true)
    else match activateExecution w.lower S.control rec r run with
      | none => (S, true)
      | some control => ({ S with control := markActive control rec }, false)

/-- `_q`. -/
def cents (x : ℚ) : ℚ := quantize roundHalfUp 100 x

def measuredMethods : List String := ["direct_measured", "holdback_measured", "replay_measured"]

def levelTotal (rows : List SavingsAttribution) (lever : Lever) (month : ℕ) : ℚ :=
  cents ((rows.filter fun x => x.lever = lever ∧ x.month = month).map (·.gross)).sum

/-- `record_applied_savings`, and whether it raises. -/
def recordAppliedSavings (w : Sweep) (S : Session) (rec : ℕ) (r : Recommendation) :
    Session × Bool :=
  if w.strikes rec .record then (S, true)
  else
    let raw := (S.savings rec).estimated
    let act (realized : Option ℚ) : Session :=
      { S with actions := S.actions ++ [⟨rec, r.lever, raw, realized⟩] }
    match r.lever, raw with
    | some lever, some amount =>
      if amount ≤ 0 then (act none, false)
      else if w.strikes rec .attribution then (act none, true)
      else
        let gross := cents amount
        let fee := cents (gross * w.feePercent)
        let method := ((S.savings rec).method.filter (· ≠ "")).getD "estimated"
        let row : SavingsAttribution :=
          ⟨rec, w.month, lever, method, decide (method ∈ measuredMethods), gross, fee, gross - fee⟩
        let rows := S.attributions.filter (fun x => ¬ (x.recommendation = rec ∧ x.month = w.month))
          ++ [row]
        let S := act (some (gross - fee))
        ({ S with
            attributions := rows
            savingsToDate := Function.update S.savingsToDate lever
              (levelTotal rows lever w.month) }, false)
    | _, _ => (act none, false)

/-- `apply_recommendation_automated` in the session, and whether it raises. -/
def applyRecommendationAutomated (w : Sweep) (S : Session) (rec : ℕ) : Session × Bool :=
  match w.recs rec with
  | none => (S, true)
  | some r =>
    if S.control.status rec ≠ .opened then (S, false)
    else match applyRecommendation w S rec r with
      | (S, true) => (S, true)
      | (S, false) =>
        recordAppliedSavings w { S with control := S.control.setStatus rec .applied } rec r

/-- One recommendation of the sweep: what the session holds after it. -/
def turn (w : Sweep) (S : Session) (rec : ℕ) : Session := (applyRecommendationAutomated w S rec).1

def raises (w : Sweep) (S : Session) (rec : ℕ) : Bool := (applyRecommendationAutomated w S rec).2

/-- The fields of a recommendation that an apply writes. -/
def fields (S : Session) (rec : ℕ) : RecommendationStatus × Savings :=
  (S.control.status rec, S.savings rec)

/-- An apply that raises leaves the session as it was, and its recommendation has its fields after
the commit. -/
def SkippedUntouched (w : Sweep) (S : Session) (recs : List ℕ) : Prop :=
  ∀ q ∈ steps (turn w) S recs, raises w q.1 q.2 = true →
    turn w q.1 q.2 = q.1 ∧ fields (final (turn w) S recs) q.2 = fields S q.2

/-- The exception is of a gate; or it is of the activation, and the gating run measured no savings
other than those the recommendation has. -/
def RaisesEarly (w : Sweep) (S : Session) (rec : ℕ) : Prop :=
  ∀ r, w.recs rec = some r → ∀ run, passGates w S rec r = some run →
    measuredSavings w (S.savings rec) run = S.savings rec ∧
      (w.strikes rec .activation = true ∨ activateExecution w.lower S.control rec r run = none)

/-! ## One apply -/

theorem setSavings_self : S.setSavings rec (S.savings rec) = S := by
  simp [Session.setSavings]

theorem applyRecommendation_raises (h : (applyRecommendation w S rec r).2 = true) :
    (passGates w S rec r = none ∧ applyRecommendation w S rec r = (S, true)) ∨
      ∃ run, passGates w S rec r = some run ∧
        (w.strikes rec .activation = true ∨
          activateExecution w.lower S.control rec r run = none) ∧
        applyRecommendation w S rec r =
          (S.setSavings rec (measuredSavings w (S.savings rec) run), true) := by
  unfold applyRecommendation at h ⊢
  cases hg : passGates w S rec r with
  | none => exact .inl ⟨rfl, rfl⟩
  | some run =>
    simp only [hg] at h ⊢
    split_ifs at h ⊢ with hs
    · exact .inr ⟨run, rfl, .inl hs, rfl⟩
    · have hcontrol : (S.setSavings rec (measuredSavings w (S.savings rec) run)).control =
          S.control := rfl
      rw [hcontrol] at h ⊢
      cases ha : activateExecution w.lower S.control rec r run with
      | none => exact .inr ⟨run, rfl, .inr ha, rfl⟩
      | some control => simp [ha] at h

theorem applyRecommendation_commits (h : (applyRecommendation w S rec r).2 = false) :
    ∃ run control, passGates w S rec r = some run ∧ w.strikes rec .activation = false ∧
      activateExecution w.lower S.control rec r run = some control := by
  unfold applyRecommendation at h
  cases hg : passGates w S rec r with
  | none => simp [hg] at h
  | some run =>
    simp only [hg] at h
    split_ifs at h with hs
    have hcontrol : (S.setSavings rec (measuredSavings w (S.savings rec) run)).control =
        S.control := rfl
    rw [hcontrol] at h
    cases ha : activateExecution w.lower S.control rec r run with
    | none => simp [ha] at h
    | some control => exact ⟨run, control, rfl, Bool.eq_false_iff.2 hs, ha⟩

theorem recordAppliedSavings_control : (recordAppliedSavings w S rec r).1.control = S.control := by
  unfold recordAppliedSavings
  dsimp only
  repeat' split
  all_goals rfl

theorem recordAppliedSavings_savings : (recordAppliedSavings w S rec r).1.savings = S.savings := by
  unfold recordAppliedSavings
  dsimp only
  repeat' split
  all_goals rfl

theorem turn_eq_iff (hraise : raises w S rec = true) : turn w S rec = S ↔ RaisesEarly w S rec := by
  unfold raises at hraise
  unfold turn RaisesEarly
  unfold applyRecommendationAutomated at *
  cases hr : w.recs rec with
  | none => simp
  | some r =>
    simp only [hr] at hraise ⊢
    split_ifs at hraise ⊢ with hopen
    rw [not_not] at hopen
    cases h : (applyRecommendation w S rec r).2 with
    | true =>
      rcases applyRecommendation_raises h with ⟨hg, happly⟩ | ⟨run, hg, hearly, happly⟩
      · simp [happly, hg]
      · have hsame : S.setSavings rec (measuredSavings w (S.savings rec) run) = S ↔
            measuredSavings w (S.savings rec) run = S.savings rec := by
          refine ⟨fun he => ?_, fun he => by rw [he, setSavings_self]⟩
          have hrec := congrArg (fun S => S.savings rec) he
          simpa [Session.setSavings] using hrec
        simp [happly, hg, hearly, hsame]
    | false =>
      obtain ⟨run, control, hg, hstrike, hactivate⟩ := applyRecommendation_commits h
      have hpair : applyRecommendation w S rec r = ((applyRecommendation w S rec r).1, false) :=
        Prod.ext rfl h
      rw [hpair]
      dsimp only
      constructor
      · intro he
        have hstatus := congrArg (fun S => S.control.status rec) he
        rw [recordAppliedSavings_control, hopen] at hstatus
        simp at hstatus
      · intro hearly
        rcases (hearly r rfl run hg).2 with hs | hnone
        · rw [hstrike] at hs
          exact absurd hs (by simp)
        · rw [hactivate] at hnone
          exact absurd hnone (by simp)

/-! ## The fields of the others -/

theorem passGates_run {run : Option EvalRun} (h : passGates w S rec r = some run) :
    assertAppliable S.control rec r true = some run := by
  unfold passGates at h
  split at h
  · exact absurd h (by simp)
  split at h
  · exact absurd h (by simp)
  split at h
  · exact absurd h (by simp)
  obtain ⟨run', hrun, h⟩ := Option.bind_eq_some_iff.1 h
  split at h
  · exact absurd h (by simp)
  · rw [hrun, h]

theorem applyRecommendation_fields {rec' : ℕ} (hne : rec' ≠ rec) :
    fields (applyRecommendation w S rec r).1 rec' = fields S rec' := by
  unfold applyRecommendation
  cases hg : passGates w S rec r with
  | none => rfl
  | some run =>
    dsimp only
    have hsavings : (S.setSavings rec (measuredSavings w (S.savings rec) run)).savings rec' =
        S.savings rec' := Function.update_of_ne hne ..
    split_ifs
    · exact Prod.ext rfl hsavings
    · split
      · exact Prod.ext rfl hsavings
      · next control hcontrol =>
        have hstatus := Activation.status (activateExecution_cases (passGates_run hg) hcontrol)
        refine Prod.ext ?_ hsavings
        simp [fields, hstatus, Session.setSavings]

theorem turn_fields {rec' : ℕ} (hne : rec' ≠ rec) :
    fields (turn w S rec) rec' = fields S rec' := by
  unfold turn applyRecommendationAutomated
  cases hr : w.recs rec with
  | none => rfl
  | some r =>
    dsimp only
    split_ifs
    · rfl
    · have happly := applyRecommendation_fields (w := w) (S := S) (r := r) hne
      cases h : applyRecommendation w S rec r with
      | mk S' raised =>
        rw [h] at happly
        cases raised with
        | true => exact happly
        | false =>
          refine Eq.trans ?_ happly
          refine Prod.ext ?_ ?_
          · simp [fields, recordAppliedSavings_control, Function.update_of_ne hne]
          · simp [fields, recordAppliedSavings_savings]

theorem final_fields {recs : List ℕ} (h : rec ∉ recs) :
    fields (final (turn w) S recs) rec = fields S rec := by
  induction recs generalizing S with
  | nil => rfl
  | cons i recs ih =>
    rw [List.mem_cons, not_or] at h
    exact (ih h.2).trans (turn_fields h.1)

/-! ## The sweep -/

/-- Over any list of recommendations, the applies that raise change nothing exactly when each of
them raises early. -/
theorem skipped_untouched_iff (w : Sweep) (S : Session) {recs : List ℕ} (hnodup : recs.Nodup) :
    SkippedUntouched w S recs ↔
      ∀ q ∈ steps (turn w) S recs, raises w q.1 q.2 = true → RaisesEarly w q.1 q.2 := by
  unfold SkippedUntouched
  constructor
  · intro h q hq hraise
    exact (turn_eq_iff hraise).1 (h q hq hraise).1
  · intro h q hq hraise
    have hturn := (turn_eq_iff hraise).2 (h q hq hraise)
    refine ⟨hturn, ?_⟩
    induction recs generalizing S with
    | nil => exact absurd hq List.not_mem_nil
    | cons i recs ih =>
      obtain ⟨hi, hnodup'⟩ := List.nodup_cons.1 hnodup
      rcases List.mem_cons.1 hq with rfl | hq'
      · refine (final_fields hi).trans ?_
        exact congrArg (fun S' => fields S' i) hturn
      · have hmem : (fun a => a ∈ recs) q.2 := input_of_steps (fun _ ha => ha) q hq'
        have hne : q.2 ≠ i := fun he => hi (he ▸ hmem)
        have hrest := ih (turn w S i) hnodup'
          (fun q hq => h q (List.mem_cons_of_mem _ hq)) hq'
        exact hrest.trans (turn_fields hne)

/-! ## A compression behind a live trim -/

/-- A compression and a trim of the model `m`. -/
def transformsOfM : Recommendations := fun rec =>
  if rec = 0 then some ⟨some .promptCompression, none, none, some "m", none⟩
  else if rec = 1 then some ⟨some .tokenTrim, none, none, some "m", none⟩
  else none

def trimLive : Session where
  control := final (step id transformsOfM) .initial
    [⟨.allow, .transition 1 .applied⟩, ⟨.allow, .generate 0 "m" "hash" "text" 0 ⟨0, 0⟩⟩,
      ⟨.allow, .evaluate 0 none ⟨1, 1⟩⟩, ⟨.allow, .startRun 0⟩,
      ⟨.allow, .finishRun 0 (some .safe)⟩]
  savings := fun _ => ⟨some 3, some "estimated"⟩
  actions := []
  attributions := []
  savingsToDate := fun _ => 0

def sweepOfM : Sweep where
  lower := id
  recs := transformsOfM
  gates := .allow
  costDelta := fun _ => some 5
  feePercent := 1 / 4
  month := 0
  strikes := fun _ _ => false

theorem conflict_changes_savings : ¬ SkippedUntouched sweepOfM trimLive [0] := by
  intro h
  have hraise : raises sweepOfM trimLive 0 = true := by decide +kernel
  have hfields := (h (trimLive, 0) List.mem_cons_self hraise).2
  have hestimated := congrArg (fun f => f.2.estimated) hfields
  exact absurd hestimated (by decide +kernel)

theorem skipped_untouched_conflict :
    SkippedUntouched sweepOfM trimLive [0] ↔ ∀ q ∈ steps (turn sweepOfM) trimLive [0],
      raises sweepOfM q.1 q.2 = true → RaisesEarly sweepOfM q.1 q.2 :=
  skipped_untouched_iff sweepOfM trimLive (List.nodup_singleton 0)

end Varsten.ControlPlane.AutoApply
