import Varsten.Accounts.Lifecycle

/-!
# Entitlements

Whether optimizations may run, as a request on the hot path and as the control plane decide it.
-/

namespace Varsten.Accounts.Entitlements

open Accounts.Lifecycle

/-- `free_monthly_request_limit` and `free_trial_days`. -/
structure Settings where
  freeMonthlyRequestLimit : ℤ
  freeTrialDays : ℚ

structure EntitlementState where
  planTier : PlanTier
  observeOnly : Bool
  reason : Option String
  monthlyRequests : ℤ
  monthlyRequestLimit : ℤ
  requestsRemaining : Option ℤ
  trialEndsAt : Option ℚ
  trialExpired : Bool
deriving DecidableEq

variable (settings : Settings)

def defaultTrialEnd (o : Organization) : Option ℚ :=
  if o.subscriptionStatus ≠ .trialing then o.trialEndsAt
  else o.trialEndsAt.or (some (o.createdAt + settings.freeTrialDays * secondsPerDay))

def requestsRemaining (monthlyRequests limit : ℤ) : ℤ := max 0 (limit - monthlyRequests)

def missingOrganization (monthlyRequests : ℤ) : EntitlementState :=
  let limit := settings.freeMonthlyRequestLimit
  ⟨.free, true, some "missing_organization", monthlyRequests, limit,
    some (requestsRemaining monthlyRequests limit), none, false⟩

def trialExpired (now : ℚ) (o : Organization) : Bool :=
  o.subscriptionStatus = .trialing && (defaultTrialEnd settings o).any (· ≤ now)

def quotaExceeded (monthlyRequests : ℤ) (o : Organization) : Bool :=
  o.subscriptionStatus = .trialing && 0 < settings.freeMonthlyRequestLimit &&
    settings.freeMonthlyRequestLimit ≤ monthlyRequests

/-- The gates in their order: whether the first that applies observes only, and its reason. -/
def gate (monthlyRequests : ℤ) (now : ℚ) (o : Organization) : Bool × Option String :=
  if trialExpired settings now o then (true, some "trial_expired")
  else if o.subscriptionStatus = .pastDue then (true, some "past_due")
  else if o.subscriptionStatus = .canceled ∨ o.subscriptionStatus = .expired then
    (true, some o.subscriptionStatus.text)
  else if quotaExceeded settings monthlyRequests o then
    (true, some "monthly_request_limit_exceeded")
  else if o.planTier ≠ .performance then (true, some "free_plan")
  else (false, none)

def entitlementState (monthlyRequests : ℤ) (now : ℚ) : Option Organization → EntitlementState
  | none => missingOrganization settings monthlyRequests
  | some o =>
    let limit := settings.freeMonthlyRequestLimit
    ⟨o.planTier, (gate settings monthlyRequests now o).1, (gate settings monthlyRequests now o).2,
      monthlyRequests, limit,
      if 0 < limit then some (requestsRemaining monthlyRequests limit) else none,
      defaultTrialEnd settings o, trialExpired settings now o⟩

/-- `_entitlement_state_for_org`: the trial ends before the row is judged. -/
def entitlementStateForOrg (monthlyRequests : ℤ) (now : ℚ) :
    Option Organization → EntitlementState
  | none => entitlementState settings 0 now none
  | some o => entitlementState settings monthlyRequests now (some (maybeExpire o now).1)

/-- `entitlement_state_async`, of an empty cache and reads that succeed. -/
def entitlementStateAsync (monthlyRequests : ℤ) (now : ℚ) (o : Option Organization) :
    EntitlementState :=
  entitlementState settings monthlyRequests now o

/-! ## Where the two agree -/

/-- A trial that ran out, with a payment method on file. -/
def EndsPaid (now : ℚ) (o : Organization) : Prop :=
  isTrialExpired o now = true ∧ hasPaymentMethodReady o = true

variable {settings} {monthlyRequests : ℤ} {now : ℚ} {o : Organization}

theorem trialExpired_of_isTrialExpired (h : isTrialExpired o now = true) :
    trialExpired settings now o = true := by
  obtain ⟨hs, t, ht, hle⟩ := (isTrialExpired_iff o now).1 h
  simp [trialExpired, defaultTrialEnd, hs, Option.mem_def.1 ht, hle]

theorem gate_active (h : o.subscriptionStatus = .active) :
    (gate settings monthlyRequests now o).1 = decide (o.planTier ≠ .performance) := by
  simp only [gate, trialExpired, quotaExceeded, h]
  by_cases ht : o.planTier = .performance <;> simp [ht]

theorem gate_expired (h : o.subscriptionStatus = .expired) :
    (gate settings monthlyRequests now o).1 = true := by
  simp [gate, trialExpired, h]

/-- Hot path and control plane agree on whether optimizations may run exactly where no paid trial
has run out. -/
theorem observeOnly_eq_iff (org : Option Organization) :
    (entitlementStateAsync settings monthlyRequests now org).observeOnly =
        (entitlementStateForOrg settings monthlyRequests now org).observeOnly ↔
      ∀ o ∈ org, ¬ EndsPaid now o := by
  cases org with
  | none => simp [entitlementStateAsync, entitlementStateForOrg, entitlementState,
      missingOrganization]
  | some o =>
    simp only [Option.mem_def, Option.some.injEq, forall_eq', EndsPaid]
    change (gate settings monthlyRequests now o).1 =
      (gate settings monthlyRequests now (maybeExpire o now).1).1 ↔ _
    cases hexp : isTrialExpired o now with
    | false =>
      have hsame : (maybeExpire o now).1 = o := by rw [maybeExpire, if_neg (by simp [hexp])]
      simp [hsame]
    | true =>
      have hgate : (gate settings monthlyRequests now o).1 = true := by
        rw [gate, if_pos (trialExpired_of_isTrialExpired hexp)]
      have hnext : (maybeExpire o now).1 = endTrial o now := by
        rw [maybeExpire, if_pos hexp]
      rw [hgate, hnext, endTrial]
      cases hready : hasPaymentMethodReady o with
      | true =>
        rw [if_pos rfl, gate_active (activatePerformance_status o now none)]
        simp
      | false =>
        rw [if_neg (by simp), gate_expired rfl]
        simp

/-- A trial paid for in time: requests are observed, and the control plane sells optimizations. -/
theorem paid_trial_disagrees :
    (entitlementStateAsync ⟨100000, 14⟩ 0 20 (some ⟨.performance, .trialing, some 0, some 0,
      some 14, none, none, some 3, 0⟩)).observeOnly = true ∧
    (entitlementStateForOrg ⟨100000, 14⟩ 0 20 (some ⟨.performance, .trialing, some 0, some 0,
      some 14, none, none, some 3, 0⟩)).observeOnly = false := by
  decide +kernel

end Varsten.Accounts.Entitlements
