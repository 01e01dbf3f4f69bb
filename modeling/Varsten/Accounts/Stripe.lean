import Varsten.Accounts.Lifecycle
import Varsten.Machine.Overwrites

/-!
# Stripe events

`handle_event` and the row it changes, through deliveries in any order with trial ends between
them. A row is found by its customer id, which is unique.
-/

namespace Varsten.Accounts.Stripe

open Accounts.Lifecycle
open Machine.Runs (final)
open Machine.Overwrites (WritesField)

/-- The items of a verified event that the handler reads. -/
structure StripeEvent where
  type : Option String
  customer : Option String
  subscription : Option String

/-- `_org_by_customer` finds the row. -/
def isCustomer (o : Organization) (customer : Option String) : Bool :=
  customer.any fun c => c ≠ "" && o.stripeCustomerId = some c

def handleEvent (o : Organization) (now : ℚ) (e : StripeEvent) : Organization × Bool :=
  if isCustomer o e.customer then
    if e.type = some "checkout.session.completed" then
      match e.subscription.filter (· ≠ "") with
      | some id => (activatePerformance o (some id) now, true)
      | none => (completePaymentMethodSetup o now, true)
    else if e.type = some "customer.subscription.deleted" then (cancelSubscription o now, true)
    else if e.type = some "invoice.payment_failed" then (markPastDue o now, true)
    else (o, false)
  else (o, false)

/-- A delivery, or a read or sweep that ends the trial. -/
inductive Step where
  | deliver (now : ℚ) (e : StripeEvent)
  | expire (now : ℚ)

def step (o : Organization) : Step → Organization
  | .deliver now e => (handleEvent o now e).1
  | .expire now => (maybeExpire o now).1

/-! ## What an event writes -/

inductive Action where
  | activate (id : String)
  | setup
  | cancel
  | fail
deriving DecidableEq

/-- The transition an event makes of the row of `customerId`. -/
def action (customerId : Option String) (e : StripeEvent) : Option Action :=
  if e.customer.any fun c => c ≠ "" && customerId = some c then
    if e.type = some "checkout.session.completed" then
      some ((e.subscription.filter (· ≠ "")).elim .setup .activate)
    else if e.type = some "customer.subscription.deleted" then some .cancel
    else if e.type = some "invoice.payment_failed" then some .fail
    else none
  else none

def Action.apply (o : Organization) (now : ℚ) : Action → Organization
  | .activate id => activatePerformance o (some id) now
  | .setup => completePaymentMethodSetup o now
  | .cancel => cancelSubscription o now
  | .fail => markPastDue o now

theorem handleEvent_eq (o : Organization) (now : ℚ) (e : StripeEvent) :
    (handleEvent o now e).1 = (action o.stripeCustomerId e).elim o (Action.apply o now) := by
  unfold handleEvent action isCustomer
  split_ifs
  · cases e.subscription.filter (· ≠ "") <;> rfl
  · rfl
  · rfl
  · rfl
  · rfl

structure Writes where
  tier : Option PlanTier
  status : Option SubscriptionStatus
  subscription : Option (Option String)

def Action.writes (o : Organization) (now : ℚ) : Action → Writes
  | .activate id => ⟨some .performance, some .active, some (some id)⟩
  | .setup => ⟨some .performance, if isTrialLive o now then none else some .active, none⟩
  | .cancel => ⟨some .free, some .canceled, some none⟩
  | .fail => ⟨none, some .pastDue, none⟩

def writes (o : Organization) : Step → Writes
  | .deliver now e =>
    (action o.stripeCustomerId e).elim ⟨none, none, none⟩ (Action.writes o now)
  | .expire now =>
    if isTrialExpired o now then
      if hasPaymentMethodReady o then ⟨some .performance, some .active, none⟩
      else ⟨some .free, some .expired, none⟩
    else ⟨none, none, none⟩

structure After (o o' : Organization) (v : Writes) : Prop where
  tier : o'.planTier = v.tier.getD o.planTier
  status : o'.subscriptionStatus = v.status.getD o.subscriptionStatus
  subscription : o'.stripeSubscriptionId = v.subscription.getD o.stripeSubscriptionId
  customer : o'.stripeCustomerId = o.stripeCustomerId
  trialEnd : o'.trialEndsAt = o.trialEndsAt

theorem Action.after (o : Organization) (now : ℚ) {a : Action}
    (ha : ∀ id, a = .activate id → id ≠ "") : After o (a.apply o now) (a.writes o now) := by
  cases a with
  | activate id =>
    refine ⟨rfl, rfl, ?_, rfl, rfl⟩
    simp [Action.apply, Action.writes, activatePerformance, ha id rfl]
  | setup =>
    rw [Action.apply, Action.writes]
    cases h : isTrialLive o now with
    | true =>
      rw [completePaymentMethodSetup_live h]
      exact ⟨rfl, rfl, rfl, rfl, rfl⟩
    | false =>
      rw [completePaymentMethodSetup_over h]
      exact ⟨rfl, rfl, rfl, rfl, rfl⟩
  | cancel => exact ⟨rfl, rfl, rfl, rfl, rfl⟩
  | fail => exact ⟨rfl, rfl, rfl, rfl, rfl⟩

theorem action_activate {customerId : Option String} {e : StripeEvent} {id : String}
    (h : action customerId e = some (.activate id)) : id ≠ "" := by
  unfold action at h
  split_ifs at h with h1 h2 h3 h4
  · cases hs : e.subscription.filter (· ≠ "") with
    | none =>
      rw [hs] at h
      cases h
    | some s =>
      rw [hs] at h
      obtain rfl : s = id := by simpa using h
      simpa using (Option.filter_eq_some_iff.1 hs).2
  · cases h
  · cases h

theorem step_after (o : Organization) (s : Step) : After o (step o s) (writes o s) := by
  cases s with
  | deliver now e =>
    rw [step, handleEvent_eq, writes]
    cases ha : action o.stripeCustomerId e with
    | none => exact ⟨rfl, rfl, rfl, rfl, rfl⟩
    | some a =>
      refine Action.after o now fun id hid => ?_
      rw [hid] at ha
      exact action_activate ha
  | expire now =>
    simp only [step, maybeExpire, writes, endTrial]
    split_ifs
    · exact ⟨rfl, rfl, rfl, rfl, rfl⟩
    · exact ⟨rfl, rfl, rfl, rfl, rfl⟩
    · exact ⟨rfl, rfl, rfl, rfl, rfl⟩

/-! ## What a handled event leaves behind -/

def Handled (o : Organization) : Option Action → Prop
  | none => True
  | some .setup => hasPaymentMethodReady o = true ∧
      (o.subscriptionStatus = .trialing → o.planTier = .performance)
  | some _ => o.subscriptionStatus ≠ .trialing

theorem writes_status_ne (o : Organization) (s : Step) : (writes o s).status ≠ some .trialing := by
  cases s with
  | deliver now e =>
    rw [writes]
    cases action o.stripeCustomerId e with
    | none => simp
    | some a =>
      cases a with
      | setup => cases h : isTrialLive o now <;> simp [Action.writes, h]
      | _ => simp [Action.writes]
  | expire now =>
    rw [writes]
    split_ifs <;> simp

theorem not_trialing_step {o : Organization} (h : o.subscriptionStatus ≠ .trialing) (s : Step) :
    (step o s).subscriptionStatus ≠ .trialing := by
  rw [(step_after o s).status]
  cases hv : (writes o s).status with
  | none => exact h
  | some v => exact fun he => writes_status_ne o s (hv.trans (congrArg some he))

theorem ready_step {o : Organization} (h : hasPaymentMethodReady o = true) (s : Step) :
    hasPaymentMethodReady (step o s) = true := by
  cases s with
  | deliver now e =>
    rw [step, handleEvent_eq]
    cases action o.stripeCustomerId e with
    | none => exact h
    | some a =>
      cases a with
      | setup => exact completePaymentMethodSetup_ready o now
      | _ => exact h
  | expire now =>
    rw [step, maybeExpire, endTrial]
    split_ifs <;> exact h

/-- A step that leaves the status of a trial leaves the plan, or writes the trial's. -/
theorem writes_of_status_none {o : Organization} {s : Step} (h : (writes o s).status = none) :
    ((writes o s).tier = none ∨ (writes o s).tier = some .performance) ∧
      (writes o s).subscription = none := by
  cases s with
  | deliver now e =>
    rw [writes] at h ⊢
    cases ha : action o.stripeCustomerId e with
    | none => exact ⟨.inl rfl, rfl⟩
    | some a =>
      rw [ha] at h
      cases a with
      | setup => exact ⟨.inr rfl, rfl⟩
      | _ => cases h
  | expire now =>
    rw [writes] at h ⊢
    split_ifs at h ⊢
    exact ⟨.inl rfl, rfl⟩

theorem handled_step {o : Organization} {a : Option Action} (h : Handled o a) (s : Step) :
    Handled (step o s) a := by
  cases a with
  | none => trivial
  | some a =>
    cases a with
    | setup =>
      refine ⟨ready_step h.1 s, fun htrial => ?_⟩
      have hnone : (writes o s).status = none := by
        cases hv : (writes o s).status with
        | none => rfl
        | some v =>
          rw [(step_after o s).status, hv, Option.getD_some] at htrial
          exact absurd (hv.trans (congrArg some htrial)) (writes_status_ne o s)
      rw [(step_after o s).status, hnone, Option.getD_none] at htrial
      rw [(step_after o s).tier]
      rcases (writes_of_status_none hnone).1 with hv | hv
      · rw [hv]
        exact h.2 htrial
      · rw [hv]
        rfl
    | _ => exact not_trialing_step h s

theorem handled_deliver (o : Organization) (now : ℚ) (e : StripeEvent) :
    Handled (step o (.deliver now e)) (action o.stripeCustomerId e) := by
  have hafter := step_after o (.deliver now e)
  rw [writes] at hafter
  cases ha : action o.stripeCustomerId e with
  | none => trivial
  | some a =>
    rw [ha] at hafter
    cases a with
    | setup =>
      refine ⟨?_, fun _ => hafter.tier⟩
      rw [step, handleEvent_eq, ha]
      exact completePaymentMethodSetup_ready o now
    | activate id =>
      change (step o (.deliver now e)).subscriptionStatus ≠ _
      rw [hafter.status]
      simp [Action.writes]
    | cancel =>
      change (step o (.deliver now e)).subscriptionStatus ≠ _
      rw [hafter.status]
      simp [Action.writes]
    | fail =>
      change (step o (.deliver now e)).subscriptionStatus ≠ _
      rw [hafter.status]
      simp [Action.writes]

theorem customer_final (o : Organization) (as : List Step) :
    (final step o as).stripeCustomerId = o.stripeCustomerId := by
  induction as generalizing o with
  | nil => rfl
  | cons s as ih => exact (ih (step o s)).trans (step_after o s).customer

theorem handled_final {o : Organization} {a : Option Action} (h : Handled o a) (as : List Step) :
    Handled (final step o as) a := by
  induction as generalizing o with
  | nil => exact h
  | cons s as ih => exact ih (handled_step h s)

theorem handled_of_mem {e : StripeEvent} {as : List Step} (h : ∃ t, .deliver t e ∈ as)
    (o : Organization) : Handled (final step o as) (action o.stripeCustomerId e) := by
  obtain ⟨t, ht⟩ := h
  obtain ⟨before, after, rfl⟩ := List.append_of_mem ht
  have hdelivered := handled_deliver (final step o before) t e
  rw [customer_final] at hdelivered
  have hrest := handled_final hdelivered after
  simpa [final] using hrest

/-! ## Re-delivery -/

/-- The claimed fields. -/
def fields (o : Organization) : PlanTier × SubscriptionStatus × Option String :=
  (o.planTier, o.subscriptionStatus, o.stripeSubscriptionId)

theorem fields_eq_iff {o o' : Organization} : fields o = fields o' ↔ o.planTier = o'.planTier ∧
    o.subscriptionStatus = o'.subscriptionStatus ∧
      o.stripeSubscriptionId = o'.stripeSubscriptionId := by
  simp [fields]

/-- What the event writes is there already, or a later step writes over it. -/
structure Harmless (o : Organization) (now : ℚ) (e : StripeEvent) (later : List Step) : Prop where
  tier : ∀ v ∈ (writes o (.deliver now e)).tier,
    o.planTier = v ∨ ∃ s ∈ later, (writes o s).tier ≠ none
  status : ∀ v ∈ (writes o (.deliver now e)).status,
    o.subscriptionStatus = v ∨ ∃ s ∈ later, (writes o s).status ≠ none
  subscription : ∀ v ∈ (writes o (.deliver now e)).subscription,
    o.stripeSubscriptionId = v ∨ ∃ s ∈ later, (writes o s).subscription ≠ none

theorem writes_congr {o o' : Organization} (h : o.subscriptionStatus ≠ .trialing)
    (h' : o'.subscriptionStatus ≠ .trialing) (hc : o.stripeCustomerId = o'.stripeCustomerId)
    (s : Step) : writes o s = writes o' s := by
  cases s with
  | deliver now e =>
    rw [writes, writes, hc]
    cases action o'.stripeCustomerId e with
    | none => rfl
    | some a =>
      cases a with
      | setup => simp [Action.writes, isTrialLive, h, h']
      | _ => rfl
  | expire now => simp [writes, isTrialExpired, h, h']

def Settled (o o' : Organization) : Prop :=
  o'.subscriptionStatus ≠ .trialing ∧ o'.stripeCustomerId = o.stripeCustomerId

theorem settled_step {o o' : Organization} (s : Step) (h : Settled o o') : Settled o (step o' s) :=
  ⟨not_trialing_step h.1 s, (step_after o' s).customer.trans h.2⟩

section Settled

variable {o : Organization} (h : o.subscriptionStatus ≠ .trialing)
include h

theorem writes_settled {o' : Organization} (h' : Settled o o') (s : Step) :
    writes o' s = writes o s := writes_congr h'.1 h h'.2 s

theorem writesTier : WritesField step (Settled o) (·.planTier) fun s => (writes o s).tier where
  keeps s hs := settled_step s hs
  written {o'} s hs := by rw [(step_after o' s).tier, writes_settled h hs]

theorem writesStatus :
    WritesField step (Settled o) (·.subscriptionStatus) fun s => (writes o s).status where
  keeps s hs := settled_step s hs
  written {o'} s hs := by rw [(step_after o' s).status, writes_settled h hs]

theorem writesSubscription :
    WritesField step (Settled o) (·.stripeSubscriptionId) fun s => (writes o s).subscription where
  keeps s hs := settled_step s hs
  written {o'} s hs := by rw [(step_after o' s).subscription, writes_settled h hs]

theorem harmless_of_settled (now : ℚ) (e : StripeEvent) (later : List Step) :
    fields (final step (step o (.deliver now e)) later) = fields (final step o later) ↔
      Harmless o now e later := by
  have ho : Settled o o := ⟨h, rfl⟩
  rw [fields_eq_iff, (writesTier h).again_iff ho, (writesStatus h).again_iff ho,
    (writesSubscription h).again_iff ho]
  exact ⟨fun ⟨h1, h2, h3⟩ => ⟨h1, h2, h3⟩, fun ⟨h1, h2, h3⟩ => ⟨h1, h2, h3⟩⟩

end Settled

/-! ## Within a trial -/

structure Promoted (o o' : Organization) : Prop where
  trialing : o.subscriptionStatus = .trialing
  active : o'.subscriptionStatus = .active
  tier : o.planTier = .performance
  tier' : o'.planTier = .performance
  subscription : o'.stripeSubscriptionId = o.stripeSubscriptionId
  customer : o'.stripeCustomerId = o.stripeCustomerId
  ready : hasPaymentMethodReady o = true

variable {o o' : Organization}

theorem writes_same (hs : o'.subscriptionStatus = o.subscriptionStatus)
    (ht : o'.trialEndsAt = o.trialEndsAt) (hc : o'.stripeCustomerId = o.stripeCustomerId)
    (hr : hasPaymentMethodReady o' = hasPaymentMethodReady o) (s : Step) :
    writes o' s = writes o s := by
  cases s with
  | deliver now e =>
    rw [writes, writes, hc]
    cases action o.stripeCustomerId e with
    | none => rfl
    | some a => cases a <;> simp [Action.writes, isTrialLive, isTrialElapsed, hs, ht]
  | expire now => simp [writes, isTrialExpired, isTrialElapsed, hs, ht, hr]

/-- What a step writes into the promoted row: where the trial stays on, what is there. -/
theorem Promoted.writes_promoted (h : Promoted o o') {s : Step} (hs : (writes o s).status = none) :
    After o' o' (writes o' s) := by
  have hout : o'.subscriptionStatus ≠ .trialing := by
    rw [h.active]
    decide
  cases s with
  | deliver now e =>
    rw [writes] at hs ⊢
    rw [h.customer]
    cases ha : action o.stripeCustomerId e with
    | none => exact ⟨rfl, rfl, rfl, rfl, rfl⟩
    | some a =>
      rw [ha] at hs
      cases a with
      | setup =>
        have hlive : isTrialLive o' now = false := by simp [isTrialLive, hout]
        simp only [Option.elim, Action.writes, hlive]
        exact ⟨h.tier', h.active, rfl, rfl, rfl⟩
      | _ => cases hs
  | expire now =>
    rw [writes, if_neg (by simp [isTrialExpired, hout])]
    exact ⟨rfl, rfl, rfl, rfl, rfl⟩

theorem Promoted.step_live (h : Promoted o o') {s : Step} (hs : (writes o s).status = none) :
    Promoted (step o s) (step o' s) ∧ ∀ s', writes (step o s) s' = writes o s' := by
  obtain ⟨htier, hsub⟩ := writes_of_status_none hs
  have hafter := step_after o s
  have hafter' := step_after o' s
  have hkept := h.writes_promoted hs
  have hready := ready_step h.ready s
  have hstatus : (step o s).subscriptionStatus = o.subscriptionStatus := by
    rw [hafter.status, hs, Option.getD_none]
  refine ⟨⟨hstatus.trans h.trialing, ?_, ?_, ?_, ?_, ?_, hready⟩, fun s' => ?_⟩
  · rw [hafter'.status, ← hkept.status, h.active]
  · rw [hafter.tier]
    rcases htier with hv | hv
    · rw [hv, Option.getD_none, h.tier]
    · rw [hv, Option.getD_some]
  · rw [hafter'.tier, ← hkept.tier, h.tier']
  · rw [hafter'.subscription, ← hkept.subscription, hafter.subscription, hsub, Option.getD_none,
      h.subscription]
  · rw [hafter'.customer, hafter.customer, h.customer]
  · exact writes_same hstatus hafter.trialEnd hafter.customer (hready.trans h.ready.symm) s'

theorem Promoted.step_over (h : Promoted o o') {s : Step} (hs : (writes o s).status ≠ none) :
    fields (step o' s) = fields (step o s) := by
  have hout : o'.subscriptionStatus ≠ .trialing := by
    rw [h.active]
    decide
  have hafter := step_after o s
  have hafter' := step_after o' s
  rw [fields_eq_iff, hafter.tier, hafter.status, hafter.subscription, hafter'.tier,
    hafter'.status, hafter'.subscription, h.tier, h.tier', h.subscription, h.active]
  cases s with
  | deliver now e =>
    rw [writes] at hs
    rw [writes, writes, h.customer]
    cases ha : action o.stripeCustomerId e with
    | none =>
      rw [ha] at hs
      exact absurd rfl hs
    | some a =>
      rw [ha] at hs
      cases a with
      | setup =>
        have hlive' : isTrialLive o' now = false := by simp [isTrialLive, hout]
        have hlive : isTrialLive o now = false := by
          cases hl : isTrialLive o now with
          | false => rfl
          | true => exact absurd (by simp [Action.writes, hl]) hs
        simp [Action.writes, hlive, hlive']
      | _ => simp [Action.writes]
  | expire now =>
    rw [writes] at hs
    rw [writes, writes, if_neg (by simp [isTrialExpired, hout])]
    split_ifs at hs ⊢ with hexpired hready
    · exact ⟨rfl, rfl, rfl⟩
    · exact absurd h.ready hready
    · exact absurd rfl hs

theorem Promoted.final_eq_iff (h : Promoted o o') (later : List Step) :
    fields (final step o' later) = fields (final step o later) ↔
      ∃ s ∈ later, (writes o s).status ≠ none := by
  induction later generalizing o o' with
  | nil =>
    refine iff_of_false (fun heq => ?_) (by simp)
    have hstatus := (fields_eq_iff.1 heq).2.1
    change o'.subscriptionStatus = o.subscriptionStatus at hstatus
    rw [h.active, h.trialing] at hstatus
    exact absurd hstatus (by decide)
  | cons s later ih =>
    change fields (final step (step o' s) later) = fields (final step (step o s) later) ↔ _
    rw [List.exists_mem_cons_iff]
    by_cases hs : (writes o s).status = none
    · obtain ⟨hnext, hwrites⟩ := h.step_live hs
      rw [ih hnext, or_iff_right (not_not.2 hs)]
      simp only [hwrites]
    · refine iff_of_true ?_ (.inl hs)
      have hover : (step o s).subscriptionStatus ≠ .trialing := by
        rw [(step_after o s).status]
        cases hv : (writes o s).status with
        | none => exact absurd hv hs
        | some v => exact fun he => writes_status_ne o s (hv.trans (congrArg some he))
      have hcustomer := (step_after o' s).customer.trans
        (h.customer.trans (step_after o s).customer.symm)
      have heq := fields_eq_iff.1 (h.step_over hs)
      have ho : Settled (step o s) (step o s) := ⟨hover, rfl⟩
      have ho' : Settled (step o s) (step o' s) := ⟨heq.2.1 ▸ hover, hcustomer⟩
      rw [fields_eq_iff]
      exact ⟨((writesTier hover).final_eq_iff ho' ho later).2 (.inl heq.1),
        ((writesStatus hover).final_eq_iff ho' ho later).2 (.inl heq.2.1),
        ((writesSubscription hover).final_eq_iff ho' ho later).2 (.inl heq.2.2)⟩

theorem harmless_of_trialing (h : o.subscriptionStatus = .trialing) {e : StripeEvent}
    (ha : Handled o (action o.stripeCustomerId e)) (now : ℚ) (later : List Step) :
    fields (final step (step o (.deliver now e)) later) = fields (final step o later) ↔
      Harmless o now e later := by
  have hafter := step_after o (.deliver now e)
  have hwrites : writes o (.deliver now e) =
    (action o.stripeCustomerId e).elim ⟨none, none, none⟩ (Action.writes o now) := rfl
  cases hact : action o.stripeCustomerId e with
  | none =>
    have hsame : step o (.deliver now e) = o := by rw [step, handleEvent_eq, hact, Option.elim]
    rw [hact] at hwrites
    rw [hsame]
    refine iff_of_true rfl ⟨?_, ?_, ?_⟩ <;> simp [hwrites]
  | some a =>
    rw [hact] at ha hwrites
    cases a with
    | setup =>
      obtain ⟨hready, htier⟩ := ha
      have hperformance := htier h
      cases hlive : isTrialLive o now with
      | true =>
        have hset : setPaymentMethodReady o now = o := by
          rw [setPaymentMethodReady, Option.or_of_isSome hready]
        have hsame : step o (.deliver now e) = o := by
          rw [step, handleEvent_eq, hact, Option.elim, Action.apply,
            completePaymentMethodSetup_live hlive, hset, ← hperformance]
        rw [hsame]
        refine iff_of_true rfl ⟨?_, ?_, ?_⟩ <;> simp [hwrites, Action.writes, hlive, hperformance]
      | false =>
        have hnew : writes o (.deliver now e) = ⟨some .performance, some .active, none⟩ := by
          rw [hwrites, Option.elim, Action.writes, hlive]
          rfl
        rw [hnew] at hafter
        have hpromoted : Promoted o (step o (.deliver now e)) :=
          ⟨h, hafter.status, hperformance, hafter.tier, hafter.subscription, hafter.customer,
            hready⟩
        rw [hpromoted.final_eq_iff]
        constructor
        · intro hlater
          refine ⟨?_, ?_, ?_⟩
          · simp [hnew, hperformance]
          · simp only [hnew, Option.mem_def, Option.some.injEq, forall_eq']
            exact .inr hlater
          · simp [hnew]
        · rintro ⟨-, hstatus, -⟩
          simp only [hnew, Option.mem_def, Option.some.injEq, forall_eq', h] at hstatus
          exact hstatus.resolve_left (by decide)
    | _ => exact absurd h ha

/-- Delivering a handled event again makes no difference exactly when it is harmless. -/
theorem redelivery_iff (o : Organization) {before : List Step} {e : StripeEvent}
    (h : ∃ t, .deliver t e ∈ before) (now : ℚ) (later : List Step) :
    fields (final step o (before ++ .deliver now e :: later)) =
        fields (final step o (before ++ later)) ↔
      Harmless (final step o before) now e later := by
  have hhandled := handled_of_mem h o
  rw [← customer_final o before] at hhandled
  have hsplit (as : List Step) :
      final step o (before ++ as) = final step (final step o before) as := List.foldl_append
  rw [hsplit, hsplit]
  by_cases htrial : (final step o before).subscriptionStatus = .trialing
  · exact harmless_of_trialing htrial hhandled now later
  · exact harmless_of_settled htrial now e later

/-! ## A cancellation delivered again -/

def customer : Option String := some "cus_1"

def sampleOrg : Organization :=
  ⟨.performance, .active, none, none, none, customer, some "sub_1", some 0, 0⟩

def deleted : StripeEvent := ⟨some "customer.subscription.deleted", customer, none⟩

def checkout : StripeEvent := ⟨some "checkout.session.completed", customer, none⟩

theorem again_at_once :
    fields (final step sampleOrg ([.deliver 1 deleted] ++ [.deliver 2 deleted])) =
      fields (final step sampleOrg ([.deliver 1 deleted] ++ [])) := by
  refine (redelivery_iff sampleOrg ⟨1, List.mem_singleton.2 rfl⟩ 2 []).2 ⟨?_, ?_, ?_⟩
  all_goals decide

/-- A customer who came back is cancelled by the old event. -/
theorem canceled_again :
    fields (final step sampleOrg [.deliver 1 deleted, .deliver 2 checkout]) =
        (.performance, .active, none) ∧
      fields (final step sampleOrg [.deliver 1 deleted, .deliver 2 checkout, .deliver 3 deleted]) =
        (.free, .canceled, none) := by
  decide +kernel

end Varsten.Accounts.Stripe
