import Varsten.Machine.Runs
import Varsten.Sdk.Execute

/-!
# The probes of a shared breaker

Requests that share one breaker ask it before the Varsten call and tell it how the call ended,
in any order. Beside the breaker stands what it promises: after an opening one request, once
the cooldown has elapsed, until the end of that probe.
-/

namespace Varsten.Sdk.Probes

open Machine (Runs.steps Runs.final)
open LocalBreaker (allow_cases recordVarstenFailure_cases)

variable {ι : Type}

/-- An opening of the breaker: since when, for how long, and whether its probe is spent. -/
structure Opening where
  since : ℚ
  cooldown : ℚ
  spent : Bool
deriving DecidableEq

/-- The requests that Varsten is asked for, each with whether it was let through as a probe. -/
structure State (ι : Type) where
  breaker : LocalBreaker
  flights : ι → Option Bool
  opening : Option Opening

def start : State ι := ⟨.new, fun _ => none, none⟩

inductive Op (ι : Type) where
  | ask (i : ι) (now : ℚ)
  | resolve (i : ι)
  | fail (i : ι) (now random : ℚ)
  | reject (i : ι)

def opens (c : BreakerConfig) (b : LocalBreaker) : Bool :=
  b.halfOpen ∨ (b.failures + 1 : ℕ) ≥ c.threshold

section Steps

variable [DecidableEq ι]

def State.land (s : State ι) (i : ι) : ι → Option Bool := Function.update s.flights i none

/-- A probe's success ends the opening, and no other request is a probe of a later one. -/
def State.closed (s : State ι) (i : ι) (probe : Bool) : State ι :=
  if probe then ⟨s.breaker.recordSuccess, fun j => (s.land i j).map fun _ => false, none⟩
  else ⟨s.breaker.recordSuccess, s.land i, s.opening⟩

def step (c : BreakerConfig) (s : State ι) : Op ι → State ι
  | .ask i now =>
    match s.flights i, s.breaker.allow now with
    | none, (true, b) =>
      ⟨b, Function.update s.flights i (some s.opening.isSome),
        s.opening.map fun o => { o with spent := true }⟩
    | none, (false, b) => { s with breaker := b }
    | some _, _ => s
  | .resolve i =>
    match s.flights i with
    | none => s
    | some probe => s.closed i probe
  | .fail i now random =>
    match s.flights i with
    | none => s
    | some _ =>
      let b := s.breaker.recordVarstenFailure c now random
      ⟨b, s.land i, if opens c s.breaker then some ⟨now, b.cooldownWithJitter, false⟩ else s.opening⟩
  | .reject i => { s with flights := s.land i }

end Steps

/-- A request let through after an opening is the first since its cooldown elapsed. -/
def SingleProbe (s : State ι) : Op ι → Prop
  | .ask i now => s.flights i = none → (s.breaker.allow now).1 = true →
      ∀ o ∈ s.opening, o.cooldown ≤ now - o.since ∧ o.spent = false
  | _ => True

instance (s : State ι) : (op : Op ι) → Decidable (SingleProbe s op)
  | .ask i _ => inferInstanceAs (Decidable (s.flights i = none → _ → ∀ o ∈ s.opening, _))
  | .resolve _ | .fail _ _ _ | .reject _ => inferInstanceAs (Decidable True)

/-- No request asks once the cooldown has elapsed and a probe was let through, none that was let
through before an opening succeeds after it, and the clock does not open the breaker at zero. -/
def Orderly (c : BreakerConfig) (s : State ι) : Op ι → Prop
  | .ask _ now => s.breaker.halfOpen = true → ¬ s.breaker.Elapsed now
  | .resolve i => s.breaker.openedAt ≠ 0 → s.flights i ≠ some false
  | .fail i now _ => s.flights i ≠ none → opens c s.breaker = true → now ≠ 0
  | .reject _ => True

instance (c : BreakerConfig) (s : State ι) : (op : Op ι) → Decidable (Orderly c s op)
  | .ask _ _ => inferInstanceAs (Decidable (_ → ¬ _ ≥ _))
  | .resolve _ | .fail _ _ _ => inferInstanceAs (Decidable (_ → _))
  | .reject _ => inferInstanceAs (Decidable True)

def Agrees (b : LocalBreaker) : Option Opening → Prop
  | none => b.openedAt = 0 ∧ b.halfOpen = false
  | some o => b.openedAt = o.since ∧ o.since ≠ 0 ∧ b.cooldownWithJitter = o.cooldown ∧
      b.halfOpen = o.spent

section Opened

variable {b : LocalBreaker} {opening : Option Opening} {c : BreakerConfig} {now random : ℚ}

theorem opening_none (h : Agrees b opening) (hclosed : b.openedAt = 0) : opening = none := by
  cases opening with
  | none => rfl
  | some o => exact absurd (h.1.symm.trans hclosed) h.2.1

theorem opening_some (h : Agrees b opening) (hopen : b.openedAt ≠ 0) : ∃ o, opening = some o := by
  cases opening with
  | none => exact absurd h.1 hopen
  | some o => exact ⟨o, rfl⟩

theorem agrees_allow (h : Agrees b opening) {allowed : Bool} {b' : LocalBreaker}
    (hallow : b.allow now = (allowed, b')) :
    Agrees b' (if allowed then opening.map fun o => { o with spent := true } else opening) := by
  rcases @allow_cases b now with ⟨hclosed, hrun⟩ | ⟨hopen, -, hrun⟩ | ⟨-, -, hrun⟩
  · obtain ⟨rfl, rfl⟩ := Prod.mk.inj (hrun.symm.trans hallow)
    obtain rfl := opening_none h hclosed
    exact h
  · obtain ⟨rfl, rfl⟩ := Prod.mk.inj (hrun.symm.trans hallow)
    obtain ⟨o, rfl⟩ := opening_some h hopen
    exact ⟨h.1, h.2.1, h.2.2.1, rfl⟩
  · obtain ⟨rfl, rfl⟩ := Prod.mk.inj (hrun.symm.trans hallow)
    exact h

theorem agrees_success : Agrees b.recordSuccess none := ⟨rfl, rfl⟩

theorem agrees_failure (h : Agrees b opening) (hnow : opens c b = true → now ≠ 0) :
    Agrees (b.recordVarstenFailure c now random)
      (if opens c b then
        some ⟨now, (b.recordVarstenFailure c now random).cooldownWithJitter, false⟩
      else opening) := by
  rw [LocalBreaker.recordVarstenFailure]
  by_cases hopens : opens c b = true
  · have hif := of_decide_eq_true hopens
    dsimp only
    rw [if_pos hopens, if_pos hif]
    exact ⟨rfl, hnow hopens, rfl, rfl⟩
  · have hif := fun hopen => hopens (decide_eq_true hopen)
    dsimp only
    rw [if_neg hopens, if_neg hif]
    cases opening with
    | none => exact h
    | some o => exact h

end Opened

variable {c : BreakerConfig} {s : State ι} {op : Op ι}

theorem singleProbe_of_orderly (h : Agrees s.breaker s.opening) (hop : Orderly c s op) :
    SingleProbe s op := by
  cases op with
  | ask i now =>
    intro _ hallowed o ho
    rw [Option.mem_def] at ho
    rw [ho] at h
    obtain ⟨hsince, hne, hcooldown, hspent⟩ := h
    rcases @allow_cases s.breaker now with
      ⟨hclosed, -⟩ | ⟨-, helapsed, -⟩ | ⟨-, -, hrun⟩
    · exact absurd (hsince.symm.trans hclosed) hne
    · have hhalf : s.breaker.halfOpen = false := Bool.eq_false_iff.2 fun hhalf => hop hhalf helapsed
      rw [LocalBreaker.Elapsed, hsince, hcooldown] at helapsed
      exact ⟨helapsed, hspent.symm.trans hhalf⟩
    · rw [hrun] at hallowed
      cases hallowed
  | _ => trivial

variable [DecidableEq ι]

theorem agrees_step (h : Agrees s.breaker s.opening) (hop : Orderly c s op) :
    Agrees (step c s op).breaker (step c s op).opening := by
  cases op with
  | ask i now =>
    rw [step]
    cases hflight : s.flights i with
    | some probe => exact h
    | none =>
      cases hallow : s.breaker.allow now with
      | mk allowed b =>
        have hnext := agrees_allow h hallow
        cases allowed with
        | true => exact hnext
        | false => exact hnext
  | resolve i =>
    rw [step]
    cases hflight : s.flights i with
    | none => exact h
    | some probe =>
      cases probe with
      | true => exact agrees_success
      | false =>
        have hclosed : s.breaker.openedAt = 0 := by
          by_contra hopen
          exact hop hopen hflight
        have hnone := opening_none h hclosed
        change Agrees s.breaker.recordSuccess s.opening
        rw [hnone]
        exact agrees_success
  | fail i now random =>
    rw [step]
    cases hflight : s.flights i with
    | none => exact h
    | some probe => exact agrees_failure h (hop (by simp [hflight]))
  | reject i => exact h

/-- After every opening of an orderly run one request is let through, once the cooldown has
elapsed, until the probe ends it. -/
theorem single_probe (c : BreakerConfig) (ops : List (Op ι))
    (h : ∀ p ∈ Runs.steps (step c) start ops, Orderly c p.1 p.2) :
    ∀ p ∈ Runs.steps (step c) start ops, SingleProbe p.1 p.2 := by
  have hagrees : Agrees (start : State ι).breaker (start : State ι).opening := ⟨rfl, rfl⟩
  generalize (start : State ι) = s at h hagrees ⊢
  induction ops generalizing s with
  | nil => exact fun p hp => absurd hp List.not_mem_nil
  | cons op ops ih =>
    simp only [Machine.Runs.steps, List.forall_mem_cons] at h ⊢
    exact ⟨singleProbe_of_orderly hagrees h.1, ih _ h.2 (agrees_step hagrees h.1)⟩

/-! ## The steps of one request -/

section Request

open Execute

variable {β ρ ε : Type}

structure Alone (p : ExecuteParams β ρ ε) : Prop where
  varsten : ∀ body key b, (p.primaryCreate body key b).2 = b
  direct : ∀ f ∈ p.fallbackCreate, ∀ body key b, (f body key b).2 = b

def told (p : ExecuteParams β ρ ε) (r : Readings) (i : ι) : Js ε ρ → Op ι
  | .ok _ => .resolve i
  | .error err =>
    match classifyError p.errorAdapter err p.fallbackOnReadTimeout with
    | .ok decision => if decision.fallback then .fail i r.failedAt r.random else .reject i
    | .error _ => .reject i

def requestOps (p : ExecuteParams β ρ ε) (r : Readings) (b : LocalBreaker) (i : ι) : List (Op ι) :=
  .ask i r.askedAt :: ((varstenCall p r b).map (told p r i)).toList

theorem doFallback_breaker {p : ExecuteParams β ρ ε} (h : Alone p) (r : Readings)
    (reasonCode : String) (status : Option ℚ) (requestId : Option String) (b : LocalBreaker) :
    (doFallback p r reasonCode status requestId b).breaker = b := by
  rw [doFallback]
  cases hdirect : p.fallbackCreate with
  | none => rfl
  | some fallbackCreate =>
    have hsame := h.direct fallbackCreate hdirect p.body r.idempotencyKey b
    dsimp only
    generalize fallbackCreate p.body r.idempotencyKey b = outcome at hsame ⊢
    obtain ⟨result, after⟩ := outcome
    cases result <;> exact hsame

theorem handleError_breaker {p : ExecuteParams β ρ ε} (h : Alone p) (r : Readings) (err : ε)
    (b : LocalBreaker) (i : ι) (o : Option Opening) (flights : ι → Option Bool)
    (hflight : flights i ≠ none) : (handleError p r err b).breaker =
      (step p.breaker ⟨b, flights, o⟩ (told p r i (.error err : Js ε ρ))).breaker := by
  obtain ⟨probe, hprobe⟩ := Option.ne_none_iff_exists'.1 hflight
  rw [handleError, told]
  cases classifyError p.errorAdapter err p.fallbackOnReadTimeout with
  | error thrown => rfl
  | ok decision =>
    dsimp only
    cases decision.fallback with
    | false => rfl
    | true =>
      simp only [Bool.not_true, Bool.false_eq_true, if_false, if_true, step, hprobe]
      cases p.errorAdapter.requestId err with
      | error thrown => rfl
      | ok requestId => exact doFallback_breaker h r _ _ _ _

theorem execute_breaker {p : ExecuteParams β ρ ε} (h : Alone p) (hon : p.mode ≠ .off)
    (r : Readings) (b : LocalBreaker) (i : ι) (o : Option Opening) :
    (executeWithFallback p r b).breaker =
      (Runs.final (step p.breaker) ⟨b, fun _ => none, o⟩ (requestOps p r b i)).breaker := by
  rw [executeWithFallback, if_neg hon, requestOps, varstenCall, if_neg hon]
  cases hask : b.allow r.askedAt with
  | mk allowed asked =>
    cases allowed with
    | false =>
      have hsame := doFallback_breaker h r "breaker_open" none none asked
      simpa [Machine.Runs.final, step, hask] using hsame
    | true =>
      have hsame := h.varsten p.body r.idempotencyKey asked
      cases hend : p.primaryCreate p.body r.idempotencyKey asked with
      | mk result after =>
        rw [hend] at hsame
        obtain rfl : after = asked := hsame
        cases result with
        | ok res => cases o <;> simp [Machine.Runs.final, step, hask, hend, told, State.closed]
        | error err =>
          have herror := handleError_breaker h r err after i
            (o.map fun o => { o with spent := true })
            (Function.update (fun _ => none) i (some o.isSome)) (by simp)
          simpa [Machine.Runs.final, step, hask, hend, Execution.after] using herror

end Request

/-! ## Two requests after one cooldown -/

def oneFailure : BreakerConfig := ⟨1, 100⟩

def twoProbes : List (Op ℕ) := [.ask 0 1000, .fail 0 1000 (1 / 2), .ask 1 1200, .ask 2 1200]

theorem second_probe : ¬ ∀ p ∈ Runs.steps (step oneFailure) start twoProbes, SingleProbe p.1 p.2 := by
  decide +kernel

def oneProbe : List (Op ℕ) :=
  [.ask 0 1000, .fail 0 1000 (1 / 2), .ask 1 1200, .resolve 1, .ask 2 1200]

theorem one_probe :
    (∀ p ∈ Runs.steps (step oneFailure) start oneProbe, Orderly oneFailure p.1 p.2) ∧
    ∀ p ∈ Runs.steps (step oneFailure) start oneProbe, SingleProbe p.1 p.2 :=
  ⟨by decide +kernel, single_probe oneFailure oneProbe (by decide +kernel)⟩

end Varsten.Sdk.Probes
