import Mathlib

/-!
# The billing state of an organization

The transitions of `billing_lifecycle.py`. They mutate the row; here each is the row after it.
-/

namespace Varsten.Accounts.Lifecycle

inductive PlanTier where
  | free
  | performance
deriving DecidableEq

inductive SubscriptionStatus where
  | trialing
  | active
  | pastDue
  | canceled
  | expired
deriving DecidableEq

def SubscriptionStatus.text : SubscriptionStatus → String
  | .trialing => "trialing"
  | .active => "active"
  | .pastDue => "past_due"
  | .canceled => "canceled"
  | .expired => "expired"

structure Organization where
  planTier : PlanTier
  subscriptionStatus : SubscriptionStatus
  planEffectiveAt : Option ℚ
  trialStartedAt : Option ℚ
  trialEndsAt : Option ℚ
  stripeCustomerId : Option String
  stripeSubscriptionId : Option String
  paymentMethodReadyAt : Option ℚ
  createdAt : ℚ
deriving DecidableEq

def secondsPerDay : ℚ := 86400

/-- `start_trial`, for a trial of `days`. -/
def startTrial (o : Organization) (days now : ℚ) : Organization :=
  { o with
    planTier := .performance
    subscriptionStatus := .trialing
    trialStartedAt := some now
    trialEndsAt := some (now + days * secondsPerDay)
    planEffectiveAt := some now
    paymentMethodReadyAt := none }

def activatePerformance (o : Organization) (stripeSubscriptionId : Option String) (now : ℚ) :
    Organization :=
  { o with
    planTier := .performance
    subscriptionStatus := .active
    stripeSubscriptionId := (stripeSubscriptionId.filter (· ≠ "")).or o.stripeSubscriptionId
    planEffectiveAt := some now }

def hasPaymentMethodReady (o : Organization) : Bool := o.paymentMethodReadyAt.isSome

def isTrialElapsed (o : Organization) (now : ℚ) : Bool := o.trialEndsAt.any (· ≤ now)

def isTrialExpired (o : Organization) (now : ℚ) : Bool :=
  o.subscriptionStatus = .trialing && isTrialElapsed o now

/-- `org.subscription_status == SUBSCRIPTION_TRIALING and not is_trial_elapsed(org, now=now)`. -/
def isTrialLive (o : Organization) (now : ℚ) : Bool :=
  o.subscriptionStatus = .trialing && !isTrialElapsed o now

def setPaymentMethodReady (o : Organization) (now : ℚ) : Organization :=
  { o with paymentMethodReadyAt := o.paymentMethodReadyAt.or (some now) }

def completePaymentMethodSetup (o : Organization) (now : ℚ) : Organization :=
  let o := setPaymentMethodReady o now
  if isTrialLive o now then { o with planTier := .performance } else activatePerformance o none now

def expireTrial (o : Organization) (now : ℚ) : Organization :=
  { o with planTier := .free, subscriptionStatus := .expired, planEffectiveAt := some now }

def markPastDue (o : Organization) (now : ℚ) : Organization :=
  { o with subscriptionStatus := .pastDue, planEffectiveAt := some now }

def cancelSubscription (o : Organization) (now : ℚ) : Organization :=
  { o with
    planTier := .free
    subscriptionStatus := .canceled
    stripeSubscriptionId := none
    planEffectiveAt := some now }

def endTrial (o : Organization) (now : ℚ) : Organization :=
  if hasPaymentMethodReady o then activatePerformance o none now else expireTrial o now

def maybeExpire (o : Organization) (now : ℚ) : Organization × Bool :=
  if isTrialExpired o now then (endTrial o now, true) else (o, false)

def sweepExpiredTrials (orgs : List Organization) (now : ℚ) : List Organization :=
  orgs.map fun o => if isTrialExpired o now then endTrial o now else o

/-! ## What the transitions leave -/

variable (o : Organization) (now : ℚ)

@[simp] theorem activatePerformance_customer (id : Option String) :
    (activatePerformance o id now).stripeCustomerId = o.stripeCustomerId := rfl

@[simp] theorem activatePerformance_status (id : Option String) :
    (activatePerformance o id now).subscriptionStatus = .active := rfl

@[simp] theorem activatePerformance_tier (id : Option String) :
    (activatePerformance o id now).planTier = .performance := rfl

@[simp] theorem activatePerformance_ready (id : Option String) :
    (activatePerformance o id now).paymentMethodReadyAt = o.paymentMethodReadyAt := rfl

theorem isTrialExpired_iff : isTrialExpired o now = true ↔
    o.subscriptionStatus = .trialing ∧ ∃ t ∈ o.trialEndsAt, t ≤ now := by
  rw [isTrialExpired, Bool.and_eq_true, decide_eq_true_eq, isTrialElapsed, Option.any_eq_true]
  simp

theorem sweepExpiredTrials_eq (orgs : List Organization) :
    sweepExpiredTrials orgs now = orgs.map fun o => (maybeExpire o now).1 := by
  rw [sweepExpiredTrials]
  congr 1
  funext o
  rw [maybeExpire]
  split_ifs <;> rfl

theorem completePaymentMethodSetup_live {o : Organization} {now : ℚ}
    (h : isTrialLive o now = true) : completePaymentMethodSetup o now =
      { setPaymentMethodReady o now with planTier := .performance } := if_pos h

theorem completePaymentMethodSetup_over {o : Organization} {now : ℚ}
    (h : isTrialLive o now = false) : completePaymentMethodSetup o now =
      activatePerformance (setPaymentMethodReady o now) none now :=
  if_neg (Bool.eq_false_iff.1 h)

theorem completePaymentMethodSetup_ready :
    hasPaymentMethodReady (completePaymentMethodSetup o now) = true := by
  cases h : isTrialLive o now with
  | true =>
    rw [completePaymentMethodSetup_live h]
    simp [hasPaymentMethodReady, setPaymentMethodReady]
  | false =>
    rw [completePaymentMethodSetup_over h]
    simp [hasPaymentMethodReady, setPaymentMethodReady]

end Varsten.Accounts.Lifecycle
