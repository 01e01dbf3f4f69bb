import Varsten.Engine.RouteIdentity
import Varsten.Machine.Runs
import Varsten.Machine.Table
import Varsten.Proxy.Experiment
import Varsten.Savings.Billing

/-!
# The canary ramp

Policies are activated, serve traffic and are swept. Beside its rollout a policy keeps how much
of the ledger there was at its last activation or promotion, and whether a sweep has confirmed a
regression since; an event keeps the policy it was served under. The program has no such fields.
The confidence sequences are parameters.
-/

namespace Varsten.Proxy.Canary

open Engine.RouteIdentity (defaultRoute)
open Machine (Table)
open Machine.Runs (steps final steps_append inv_of_steps)
open Proxy.Experiment (armControl armTreatment minArmSamples)
open Savings.Billing (monthStart)

inductive Lever where
  | modelDownshift
  | smartRouting
  | tokenTrim
  | promptCompression
deriving DecidableEq

/-- `ROUTING_LEVERS`. -/
def Lever.routes : Lever → Bool
  | .modelDownshift | .smartRouting => true
  | _ => false

structure PolicyKey where
  project : ℕ
  lever : Lever
  targetKey : String
  routeKey : String
deriving DecidableEq

structure ProxyPolicy where
  key : PolicyKey
  candidateModel : Option String
  enabled : Bool
  rolloutPercent : ℕ
  stageBegan : ℕ
  regressed : Bool

structure ArmEvent where
  project : ℕ
  policy : PolicyKey
  holdback : Bool
  arm : String
  experimentFrom : String
  experimentTo : String
  routeKey : Option String
  qualityOk : Option Bool
  latencyMs : Option ℕ
  receivedAt : ℚ

structure Settings where
  driftAutoRollbackEnabled : Bool
  canaryEnabled : Bool
  canaryInitialPercent : ℕ
  canaryStages : List ℕ

/-- What the confidence sequences confirm of enough events: of the objective outcomes of the arms,
of their latencies, and of the latencies of the treatment arm against the ceiling of its route. -/
structure Guards where
  drifted : List Bool → List Bool → Bool
  slower : List ℕ → List ℕ → Bool
  sloBreached : PolicyKey → String → List ℕ → Bool

def fullyLive : ℕ := 100

/-! ## The arms of a policy -/

/-- `candidate_model` of a routing policy, the model itself of a transform; none to skip. -/
def ProxyPolicy.candidate (r : ProxyPolicy) : Option String :=
  (if r.key.lever.routes then r.candidateModel else some r.key.targetKey).filter (· ≠ "")

def ofExperiment (r : ProxyPolicy) (candidate : String) (periodStart : ℚ) (e : ArmEvent) : Bool :=
  e.project = r.key.project && periodStart ≤ e.receivedAt && e.holdback &&
    e.experimentFrom = r.key.targetKey && e.experimentTo = candidate &&
    (r.key.routeKey = "" || r.key.routeKey = defaultRoute || e.routeKey = some r.key.routeKey)

def armRows (arm : String) (events : List ArmEvent) : List ArmEvent := events.filter (·.arm = arm)

def outcomes (arm : String) (events : List ArmEvent) : List Bool :=
  (armRows arm events).filterMap (·.qualityOk)

def latencies (arm : String) (events : List ArmEvent) : List ℕ :=
  (armRows arm events).filterMap (·.latencyMs)

def enough {α : Type} (control treatment : List α) : Bool :=
  minArmSamples ≤ control.length && minArmSamples ≤ treatment.length

def qualityEnough (events : List ArmEvent) : Bool :=
  enough (outcomes armControl events) (outcomes armTreatment events)

def latencyEnough (events : List ArmEvent) : Bool :=
  enough (latencies armControl events) (latencies armTreatment events)

def regression (g : Guards) (r : ProxyPolicy) (candidate : String) (events : List ArmEvent) :
    Bool :=
  (qualityEnough events &&
      g.drifted (outcomes armControl events) (outcomes armTreatment events)) ||
    (latencyEnough events &&
      (g.slower (latencies armControl events) (latencies armTreatment events) ||
        g.sloBreached r.key candidate (latencies armTreatment events)))

/-! ## The sweep -/

def initialRolloutPercent (c : Settings) : ℕ :=
  if !c.canaryEnabled then fullyLive else max 1 (min fullyLive c.canaryInitialPercent)

def nextStage (c : Settings) (current : ℕ) : Option ℕ := c.canaryStages.find? (current < ·)

structure State where
  policies : Table ProxyPolicy.key
  ledger : List ArmEvent

def maybePromoteCanary (c : Settings) (s : State) (events : List ArmEvent) (r : ProxyPolicy) :
    ProxyPolicy :=
  if !c.canaryEnabled || fullyLive ≤ r.rolloutPercent then r
  else if !(qualityEnough events || latencyEnough events) then r
  else match nextStage c r.rolloutPercent with
    | none => r
    | some target =>
      if target ≤ r.rolloutPercent then r
      else { r with rolloutPercent := target, stageBegan := s.ledger.length }

def sweepPolicy (c : Settings) (g : Guards) (s : State) (project : ℕ) (periodStart : ℚ)
    (r : ProxyPolicy) : ProxyPolicy :=
  if !c.driftAutoRollbackEnabled || r.key.project ≠ project || !r.enabled then r
  else match r.candidate with
    | none => r
    | some candidate =>
      let events := s.ledger.filter (ofExperiment r candidate periodStart)
      if regression g r candidate events then { r with enabled := false, regressed := true }
      else maybePromoteCanary c s events r

theorem maybePromoteCanary_key (c : Settings) (s : State) (events : List ArmEvent)
    (r : ProxyPolicy) : (maybePromoteCanary c s events r).key = r.key := by
  unfold maybePromoteCanary
  split_ifs
  · rfl
  · rfl
  · cases nextStage c r.rolloutPercent with
    | none => rfl
    | some target =>
      dsimp only
      split_ifs <;> rfl

theorem sweepPolicy_key (c : Settings) (g : Guards) (s : State) (project : ℕ) (periodStart : ℚ)
    (r : ProxyPolicy) : (sweepPolicy c g s project periodStart r).key = r.key := by
  unfold sweepPolicy
  split_ifs
  · rfl
  · cases r.candidate with
    | none => rfl
    | some candidate =>
      dsimp only
      split_ifs
      · rfl
      · exact maybePromoteCanary_key c s _ r

/-! ## Steps -/

/-- `activate` is also what refreshes a live policy. -/
inductive Op where
  | record (e : ArmEvent)
  | activate (key : PolicyKey) (candidateModel : Option String)
  | setEnabled (key : PolicyKey) (enabled : Bool)
  | sweep (project : ℕ) (now : ℚ)

def activated (c : Settings) (s : State) (key : PolicyKey) (candidateModel : Option String) :
    ProxyPolicy :=
  let fresh : ProxyPolicy :=
    ⟨key, candidateModel, true, initialRolloutPercent c, s.ledger.length, false⟩
  match s.policies.find key with
  | none => fresh
  | some r => if r.enabled then { fresh with rolloutPercent := r.rolloutPercent } else fresh

def toggled (s : State) (key : PolicyKey) (enabled : Bool) (r : ProxyPolicy) : ProxyPolicy :=
  if r.key ≠ key then r
  else if enabled && !r.enabled then
    { r with enabled := true, stageBegan := s.ledger.length, regressed := false }
  else { r with enabled := enabled }

theorem toggled_key (s : State) (key : PolicyKey) (enabled : Bool) (r : ProxyPolicy) :
    (toggled s key enabled r).key = r.key := by
  unfold toggled
  split_ifs <;> rfl

def step (c : Settings) (g : Guards) (s : State) : Op → State
  | .record e => { s with ledger := s.ledger ++ [e] }
  | .activate key candidateModel =>
    { s with policies := s.policies.put (activated c s key candidateModel) }
  | .setEnabled key enabled =>
    { s with policies := s.policies.update (toggled s key enabled) (toggled_key s key enabled) }
  | .sweep project now =>
    ⟨s.policies.update (sweepPolicy c g s project (monthStart now))
      (sweepPolicy_key c g s project (monthStart now)), s.ledger⟩

/-! ## Stages and their evidence -/

def stageEvents (s : State) (r : ProxyPolicy) (arm : String) : List ArmEvent :=
  (s.ledger.drop r.stageBegan).filter fun e => e.policy = r.key && e.holdback && e.arm = arm

def earned (s : State) (r : ProxyPolicy) : Bool :=
  enough (stageEvents s r armControl) (stageEvents s r armTreatment)

def evidence (s : State) (r : ProxyPolicy) (candidate : String) (now : ℚ) : List ArmEvent :=
  s.ledger.filter (ofExperiment r candidate (monthStart now))

/-- A promotion in a step comes after enough events of its stage and no regression. -/
def Good (c : Settings) (g : Guards) (s : State) : Op → Prop
  | .sweep project now => ∀ r ∈ s.policies.rows,
      r.rolloutPercent < (sweepPolicy c g s project (monthStart now) r).rolloutPercent →
        earned s r = true ∧ r.regressed = false ∧ ∀ candidate ∈ r.candidate,
          regression g r candidate (evidence s r candidate now) = false
  | _ => True

/-- A live policy of the project, mid-ramp, whose month shows enough and no regression. -/
structure Due (c : Settings) (g : Guards) (s : State) (project : ℕ) (now : ℚ) (r : ProxyPolicy)
    (candidate : String) : Prop where
  guarded : c.driftAutoRollbackEnabled = true ∧ c.canaryEnabled = true
  live : r.key.project = project ∧ r.enabled = true ∧ candidate ∈ r.candidate
  midRamp : r.rolloutPercent < fullyLive ∧ (nextStage c r.rolloutPercent).isSome = true
  unregressed : regression g r candidate (evidence s r candidate now) = false
  signal : qualityEnough (evidence s r candidate now) = true ∨
    latencyEnough (evidence s r candidate now) = true

/-- A row a sweep counts: of the experiment, in an arm, with an outcome or a latency. -/
def counted (r : ProxyPolicy) (candidate : String) (now : ℚ) (e : ArmEvent) : Bool :=
  ofExperiment r candidate (monthStart now) e && (e.arm = armControl || e.arm = armTreatment) &&
    (e.qualityOk.isSome || e.latencyMs.isSome)

/-- What a sweep counts for a live policy mid-ramp was served under it, in its present stage. -/
def OwnEvidence (s : State) : Op → Prop
  | .sweep project now => ∀ r ∈ s.policies.rows,
      r.key.project = project → r.enabled = true → r.rolloutPercent < fullyLive →
        ∀ candidate ∈ r.candidate,
          (∀ e ∈ s.ledger.take r.stageBegan, counted r candidate now e = false) ∧
            ∀ e ∈ s.ledger.drop r.stageBegan, counted r candidate now e = true → e.policy = r.key
  | _ => True

instance (s : State) : (op : Op) → Decidable (OwnEvidence s op)
  | .sweep project now => inferInstanceAs (Decidable (∀ r ∈ s.policies.rows,
      r.key.project = project → r.enabled = true → r.rolloutPercent < fullyLive →
        ∀ candidate ∈ r.candidate,
          (∀ e ∈ s.ledger.take r.stageBegan, counted r candidate now e = false) ∧
            ∀ e ∈ s.ledger.drop r.stageBegan,
              counted r candidate now e = true → e.policy = r.key))
  | .record _ | .activate _ _ | .setEnabled _ _ => isTrue trivial

theorem nextStage_gt {c : Settings} {current target : ℕ} (h : nextStage c current = some target) :
    current < target := by
  simpa using List.find?_some h

theorem maybePromoteCanary_lt {c : Settings} {s : State} {events : List ArmEvent}
    {r : ProxyPolicy} : r.rolloutPercent < (maybePromoteCanary c s events r).rolloutPercent ↔
      c.canaryEnabled = true ∧
        (r.rolloutPercent < fullyLive ∧ (nextStage c r.rolloutPercent).isSome = true) ∧
          (qualityEnough events = true ∨ latencyEnough events = true) := by
  unfold maybePromoteCanary
  by_cases hramp : (!c.canaryEnabled || fullyLive ≤ r.rolloutPercent) = true
  · rw [if_pos hramp]
    simp only [Bool.or_eq_true, Bool.not_eq_true', decide_eq_true_eq] at hramp
    refine iff_of_false (lt_irrefl _) fun h => ?_
    rcases hramp with hoff | hfull
    · exact absurd h.1 (by simp [hoff])
    · exact absurd h.2.1.1 (not_lt.2 hfull)
  · rw [if_neg hramp]
    simp only [Bool.or_eq_true, Bool.not_eq_true', decide_eq_true_eq, not_or, Bool.not_eq_false,
      not_le] at hramp
    by_cases hsignal : (qualityEnough events || latencyEnough events) = true
    · rw [if_neg (by simp [hsignal])]
      rw [Bool.or_eq_true] at hsignal
      cases hn : nextStage c r.rolloutPercent with
      | none => exact iff_of_false (lt_irrefl _) fun h => absurd h.2.1.2 (by simp)
      | some target =>
        have hlt := nextStage_gt hn
        dsimp only
        rw [if_neg (not_le.2 hlt)]
        exact iff_of_true hlt ⟨hramp.1, ⟨hramp.2, rfl⟩, hsignal⟩
    · rw [if_pos (by simpa using hsignal)]
      refine iff_of_false (lt_irrefl _) fun h => hsignal ?_
      rw [Bool.or_eq_true]
      exact h.2.2

theorem promoted_iff {c : Settings} {g : Guards} {s : State} {project : ℕ} {now : ℚ}
    {r : ProxyPolicy} :
    r.rolloutPercent < (sweepPolicy c g s project (monthStart now) r).rolloutPercent ↔
      ∃ candidate, Due c g s project now r candidate := by
  unfold sweepPolicy
  by_cases hlive : (!c.driftAutoRollbackEnabled || r.key.project ≠ project || !r.enabled) = true
  · rw [if_pos hlive]
    refine iff_of_false (lt_irrefl _) ?_
    rintro ⟨candidate, hd⟩
    simp [hd.guarded.1, hd.live.1, hd.live.2.1] at hlive
  · rw [if_neg hlive]
    simp only [Bool.or_eq_true, Bool.not_eq_true', decide_eq_true_eq, not_or, Bool.not_eq_false,
      ne_eq, not_not] at hlive
    cases hc : r.candidate with
    | none =>
      refine iff_of_false (lt_irrefl _) ?_
      rintro ⟨candidate, hd⟩
      exact absurd hd.live.2.2 (by simp [hc])
    | some candidate =>
      have hcand : candidate ∈ r.candidate := hc
      dsimp only
      by_cases hreg : regression g r candidate (evidence s r candidate now) = true
      · have hreg' : regression g r candidate
            (s.ledger.filter (ofExperiment r candidate (monthStart now))) = true := hreg
        rw [if_pos hreg']
        refine iff_of_false (lt_irrefl _) ?_
        rintro ⟨other, hd⟩
        obtain rfl : candidate = other := Option.some.inj (hc.symm.trans hd.live.2.2)
        exact absurd hreg (by simp [hd.unregressed])
      · have hreg' : ¬ regression g r candidate
            (s.ledger.filter (ofExperiment r candidate (monthStart now))) = true := hreg
        rw [if_neg hreg', maybePromoteCanary_lt]
        constructor
        · rintro ⟨hcanary, hramp, hsignal⟩
          exact ⟨candidate, ⟨hlive.1.1, hcanary⟩, ⟨hlive.1.2, hlive.2, hcand⟩, hramp,
            Bool.eq_false_iff.2 hreg, hsignal⟩
        · rintro ⟨other, hd⟩
          obtain rfl : candidate = other := Option.some.inj (hc.symm.trans hd.live.2.2)
          exact ⟨hd.guarded.2, hd.midRamp, hd.signal⟩

/-! ## Runs -/

def Unregressed (s : State) : Prop :=
  ∀ r ∈ s.policies.rows, r.enabled = true → r.regressed = false

theorem maybePromoteCanary_flags (c : Settings) (s : State) (events : List ArmEvent)
    (r : ProxyPolicy) : (maybePromoteCanary c s events r).enabled = r.enabled ∧
      (maybePromoteCanary c s events r).regressed = r.regressed := by
  unfold maybePromoteCanary
  split_ifs
  · exact ⟨rfl, rfl⟩
  · exact ⟨rfl, rfl⟩
  · cases nextStage c r.rolloutPercent with
    | none => exact ⟨rfl, rfl⟩
    | some target =>
      dsimp only
      split_ifs <;> exact ⟨rfl, rfl⟩

theorem sweepPolicy_enabled {c : Settings} {g : Guards} {s : State} {project : ℕ}
    {periodStart : ℚ} {r : ProxyPolicy}
    (h : (sweepPolicy c g s project periodStart r).enabled = true) :
    r.enabled = true ∧ (sweepPolicy c g s project periodStart r).regressed = r.regressed := by
  unfold sweepPolicy at h ⊢
  split at h
  · rename_i hlive
    rw [if_pos hlive]
    exact ⟨h, rfl⟩
  · rename_i hlive
    rw [if_neg hlive]
    cases hc : r.candidate with
    | none =>
      rw [hc] at h
      exact ⟨h, rfl⟩
    | some candidate =>
      rw [hc] at h
      dsimp only at h ⊢
      split at h
      · exact absurd h Bool.false_ne_true
      · rename_i hreg
        rw [if_neg hreg]
        obtain ⟨hon, hflag⟩ := maybePromoteCanary_flags c s
          (s.ledger.filter (ofExperiment r candidate periodStart)) r
        exact ⟨hon ▸ h, hflag⟩

theorem unregressed_step {c : Settings} {g : Guards} {s : State} (h : Unregressed s) (op : Op) :
    Unregressed (step c g s op) := by
  cases op with
  | record e => exact h
  | activate key candidateModel =>
    intro r hr hon
    rcases Table.mem_put.1 hr with rfl | ⟨hr, -⟩
    · unfold activated
      cases s.policies.find key with
      | none => rfl
      | some old =>
        dsimp only
        split_ifs <;> rfl
    · exact h r hr hon
  | setEnabled key enabled =>
    intro r hr hon
    obtain ⟨old, hold, rfl⟩ := List.mem_map.1 hr
    unfold toggled at hon ⊢
    split_ifs at hon ⊢ with hkey hfresh
    · exact h old hold hon
    · rfl
    · refine h old hold ?_
      have hon : enabled = true := hon
      simpa [hon] using hfresh
  | sweep project now =>
    intro r hr hon
    obtain ⟨old, hold, rfl⟩ := List.mem_map.1 hr
    obtain ⟨hold_on, hflag⟩ := sweepPolicy_enabled hon
    rw [hflag]
    exact h old hold hold_on

/-! ## The rows a sweep counts -/

theorem outcomes_length_le (arm : String) (events : List ArmEvent) :
    (outcomes arm events).length ≤
      (events.filter fun e => e.arm = arm && e.qualityOk.isSome).length := by
  unfold outcomes armRows
  induction events with
  | nil => exact le_rfl
  | cons e events ih =>
    by_cases harm : e.arm = arm
    · cases hq : e.qualityOk <;> simpa [List.filter_cons, harm, hq] using ih
    · simpa [List.filter_cons, harm] using ih

theorem latencies_length_le (arm : String) (events : List ArmEvent) :
    (latencies arm events).length ≤
      (events.filter fun e => e.arm = arm && e.latencyMs.isSome).length := by
  unfold latencies armRows
  induction events with
  | nil => exact le_rfl
  | cons e events ih =>
    by_cases harm : e.arm = arm
    · cases hl : e.latencyMs <;> simpa [List.filter_cons, harm, hl] using ih
    · simpa [List.filter_cons, harm] using ih

def countedIn (s : State) (r : ProxyPolicy) (candidate : String) (now : ℚ) (arm : String) :
    List ArmEvent :=
  s.ledger.filter fun e => counted r candidate now e && e.arm = arm

theorem filter_arm_le {s : State} {r : ProxyPolicy} {candidate : String} {now : ℚ} {arm : String}
    {seen : ArmEvent → Bool} (harm : arm = armControl ∨ arm = armTreatment)
    (hseen : ∀ e, seen e = true → e.qualityOk.isSome = true ∨ e.latencyMs.isSome = true) :
    ((evidence s r candidate now).filter fun e => e.arm = arm && seen e).length ≤
      (countedIn s r candidate now arm).length := by
  unfold evidence countedIn
  rw [List.filter_filter]
  refine (List.monotone_filter_right _ fun e he => ?_).length_le
  simp only [Bool.and_eq_true, decide_eq_true_eq] at he
  obtain ⟨⟨rfl, hs⟩, hexp⟩ := he
  simp only [counted, Bool.and_eq_true, Bool.or_eq_true, decide_eq_true_eq]
  exact ⟨⟨⟨hexp, harm⟩, hseen e hs⟩, trivial⟩

theorem counted_of_signal {s : State} {r : ProxyPolicy} {candidate : String} {now : ℚ}
    (h : qualityEnough (evidence s r candidate now) = true ∨
      latencyEnough (evidence s r candidate now) = true) :
    minArmSamples ≤ (countedIn s r candidate now armControl).length ∧
      minArmSamples ≤ (countedIn s r candidate now armTreatment).length := by
  simp only [qualityEnough, latencyEnough, enough, Bool.and_eq_true, decide_eq_true_eq] at h
  rcases h with ⟨hcontrol, htreatment⟩ | ⟨hcontrol, htreatment⟩
  · exact ⟨(hcontrol.trans (outcomes_length_le _ _)).trans
        (filter_arm_le (.inl rfl) fun _ => .inl),
      (htreatment.trans (outcomes_length_le _ _)).trans
        (filter_arm_le (.inr rfl) fun _ => .inl)⟩
  · exact ⟨(hcontrol.trans (latencies_length_le _ _)).trans
        (filter_arm_le (.inl rfl) fun _ => .inr),
      (htreatment.trans (latencies_length_le _ _)).trans
        (filter_arm_le (.inr rfl) fun _ => .inr)⟩

theorem countedIn_le {s : State} {r : ProxyPolicy} {candidate : String} {now : ℚ}
    (hbefore : ∀ e ∈ s.ledger.take r.stageBegan, counted r candidate now e = false)
    (hsince : ∀ e ∈ s.ledger.drop r.stageBegan, counted r candidate now e = true →
      e.policy = r.key) (arm : String) :
    (countedIn s r candidate now arm).length ≤ (stageEvents s r arm).length := by
  have hnone : (s.ledger.take r.stageBegan).filter
      (fun e => counted r candidate now e && e.arm = arm) = [] :=
    List.filter_eq_nil_iff.2 fun e he => by simp [hbefore e he]
  have hsplit : countedIn s r candidate now arm = (s.ledger.drop r.stageBegan).filter
      fun e => counted r candidate now e && e.arm = arm := by
    conv_lhs => rw [countedIn, ← List.take_append_drop r.stageBegan s.ledger]
    rw [List.filter_append, hnone, List.nil_append]
  rw [hsplit, ← List.countP_eq_length_filter]
  unfold stageEvents
  rw [← List.countP_eq_length_filter]
  refine List.countP_mono_left fun e he hcount => ?_
  simp only [Bool.and_eq_true, decide_eq_true_eq] at hcount ⊢
  have hown := hsince e he hcount.1
  simp only [counted, ofExperiment, Bool.and_eq_true] at hcount
  exact ⟨⟨hown, hcount.1.1.1.1.1.1.2⟩, hcount.2⟩

theorem good_of_own {c : Settings} {g : Guards} {s : State} {op : Op} (hinv : Unregressed s)
    (h : OwnEvidence s op) : Good c g s op := by
  cases op with
  | record e => trivial
  | activate key candidateModel => trivial
  | setEnabled key enabled => trivial
  | sweep project now =>
    intro r hr hlt
    obtain ⟨candidate, hd⟩ := promoted_iff.1 hlt
    obtain ⟨hproject, hon, hcand⟩ := hd.live
    obtain ⟨hbefore, hsince⟩ := h r hr hproject hon hd.midRamp.1 candidate hcand
    obtain ⟨hcontrol, htreatment⟩ := counted_of_signal hd.signal
    have hearned : earned s r = true := by
      simp only [earned, enough, Bool.and_eq_true, decide_eq_true_eq]
      exact ⟨hcontrol.trans (countedIn_le hbefore hsince armControl),
        htreatment.trans (countedIn_le hbefore hsince armTreatment)⟩
    refine ⟨hearned, hinv r hr hon, fun other hother => ?_⟩
    obtain rfl : candidate = other := Option.some.inj (hcand.symm.trans hother)
    exact hd.unregressed

/-- Before any policy is activated. -/
def start (ledger : List ArmEvent) : State := ⟨Table.empty, ledger⟩

/-- In a run whose sweeps count for each live policy only what its stage recorded under it,
every promotion is earned. -/
theorem promotions_earned (c : Settings) (g : Guards) (ledger : List ArmEvent) (ops : List Op)
    (h : ∀ p ∈ steps (step c g) (start ledger) ops, OwnEvidence p.1 p.2) :
    ∀ p ∈ steps (step c g) (start ledger) ops, Good c g p.1 p.2 := by
  have hstart : Unregressed (start ledger) := fun _ hr => absurd hr List.not_mem_nil
  intro p hp
  refine good_of_own (inv_of_steps (P := Unregressed) (fun _ op hs => ?_) hstart p hp) (h p hp)
  exact unregressed_step hs op

/-! ## Two sweeps of one stage -/

def sampleSettings : Settings := ⟨true, true, 10, [10, 50, 100]⟩

def sampleGuards : Guards := ⟨fun _ _ => false, fun _ _ => false, fun _ _ _ => false⟩

def sampleKey : PolicyKey := ⟨1, .modelDownshift, "gpt-4o", "default"⟩

def sampleEvent (arm : String) : ArmEvent :=
  ⟨1, sampleKey, true, arm, "gpt-4o", "gpt-4o-mini", none, some true, none, 0⟩

def firstStage : List Op :=
  [.activate sampleKey (some "gpt-4o-mini")] ++
    List.replicate 30 (.record (sampleEvent armControl)) ++
    List.replicate 30 (.record (sampleEvent armTreatment)) ++ [.sweep 1 60]

theorem second_sweep_promotes :
    ¬ ∀ p ∈ steps (step sampleSettings sampleGuards) (start []) (firstStage ++ [.sweep 1 120]),
      Good sampleSettings sampleGuards p.1 p.2 := by
  intro h
  have hlast := h (final (step sampleSettings sampleGuards) (start []) firstStage, .sweep 1 120)
    (by rw [steps_append]; exact List.mem_append_right _ List.mem_cons_self)
  have hbad : ∃ r ∈ (final (step sampleSettings sampleGuards) (start []) firstStage).policies.rows,
      r.rolloutPercent < (sweepPolicy sampleSettings sampleGuards
        (final (step sampleSettings sampleGuards) (start []) firstStage) 1 (monthStart 120)
          r).rolloutPercent ∧
      earned (final (step sampleSettings sampleGuards) (start []) firstStage) r = false := by
    decide +kernel
  obtain ⟨r, hr, hlt, hno⟩ := hbad
  exact absurd (hlast r hr hlt).1 (by simp [hno])

def secondStage : List Op :=
  List.replicate 30 (.record { sampleEvent armControl with receivedAt := 31 * 86400 }) ++
    List.replicate 30 (.record { sampleEvent armTreatment with receivedAt := 31 * 86400 }) ++
      [.sweep 1 (31 * 86400 + 60)]

theorem next_month_promotes :
    (final (step sampleSettings sampleGuards) (start [])
        (firstStage ++ secondStage)).policies.rows.map (·.rolloutPercent) = [100] ∧
      ∀ p ∈ steps (step sampleSettings sampleGuards) (start []) (firstStage ++ secondStage),
        Good sampleSettings sampleGuards p.1 p.2 :=
  ⟨by decide +kernel, promotions_earned sampleSettings sampleGuards [] _ (by decide +kernel)⟩

end Varsten.Proxy.Canary
