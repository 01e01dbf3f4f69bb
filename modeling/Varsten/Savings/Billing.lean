import Varsten.Python.Calendar
import Varsten.Python.Precision
import Varsten.Savings.Measurement

/-!
# Billing

The fee on the verified savings of an organization: the preview of the running month, and the
invoice of the month before.
-/

namespace Varsten.Savings.Billing

open Python.Calendar
open Python.Decimals
open Python.Precision (context contextSum mul)
open Proxy.Ledger
open Proxy.Experiment (Queries Window)
open Savings.Measurement

/-- The value of `_q`. -/
def money (value : ℚ) : ℚ := quantize roundHalfUp 100 value

/-- `_q`, of `billing.py`, which raises past 28 digits. -/
def money? (value : ℚ) : Option ℚ := Python.Precision.quantize roundHalfUp 100 value

def maxGainSharePercent : ℚ := 25 / 100

def effectiveGainSharePercent (percent : ℚ) : ℚ := max 0 (min percent maxGainSharePercent)

structure Billable where
  verifiedSavingsUsd : ℚ
  gainSharePercent : ℚ
  monthlyFeeFloorUsd : ℚ
  feeUsd : ℚ
  netSavingsUsd : ℚ

def liftFee (floor fee : ℚ) : Option ℚ :=
  if 0 < floor then (money? floor).map (max fee) else some fee

def computeFee (verifiedSavings percent floor : ℚ) : Option Billable := do
  let gross := max (← money? verifiedSavings) 0
  let effectivePercent := effectiveGainSharePercent percent
  let fee ← money? (mul gross effectivePercent)
  let fee ← liftFee floor fee
  let fee := min fee (← money? (mul gross maxGainSharePercent))
  return ⟨gross, effectivePercent, ← money? floor, fee, context (gross - fee)⟩

structure Project where
  id : ℕ
  events : List UsageEvent

structure Organization where
  gainSharePercent : ℚ
  monthlyFeeFloorUsd : ℚ
  projects : List Project

abbrev RoutingLevers := ℕ → String

def projectSavings (q : Queries) (levers : RoutingLevers) (w : Window) (p : Project) : Option ℚ :=
  (computeVerifiedSavings q (levers p.id) p.events w).map (·.verifiedSavingsUsd)

def orgVerifiedSavings (q : Queries) (levers : RoutingLevers) (org : Organization) (w : Window) :
    Option ℚ :=
  (org.projects.mapM (projectSavings q levers w)).bind fun xs => money? (contextSum 0 xs)

/-! ## Periods -/

def monthStart (now : ℚ) : ℚ := startOf (monthOf now)

/-- `replace(day=1)` of a midnight is the start of its month. -/
def monthEnd (now : ℚ) : ℚ := monthStart (monthStart now + 32 * secondsPerDay) - 1

def previousMonthPeriod (now : ℚ) : ℚ × ℚ :=
  let thisMonthStart := monthStart now
  (monthStart (thisMonthStart - secondsPerDay), thisMonthStart)

def period (start stop : ℚ) : Window := ⟨start, some stop⟩

def currentPeriodBillable (q : Queries) (levers : RoutingLevers) (org : Organization) (now : ℚ) :
    Option Billable :=
  (orgVerifiedSavings q levers org (period (monthStart now) (monthEnd now))).bind fun verified =>
    computeFee verified org.gainSharePercent org.monthlyFeeFloorUsd

/-! ## Invoices -/

structure Invoice where
  periodStart : ℚ
  periodEnd : ℚ
  amounts : Billable
  status : String

def generateInvoice (q : Queries) (levers : RoutingLevers) (org : Organization)
    (invoice : Option Invoice) (start stop : ℚ) : Option Invoice :=
  (orgVerifiedSavings q levers org (period start stop)).bind fun verified =>
    (computeFee verified org.gainSharePercent org.monthlyFeeFloorUsd).map fun billable =>
      match invoice with
      | some i =>
        if i.status ≠ "draft" then i else { i with amounts := billable, status := "draft" }
      | none => ⟨start, stop, billable, "draft"⟩

/-! ## The bounds of a month -/

def InMonth (k : ℕ) (t : ℚ) : Prop := startOf k ≤ t ∧ t < startOf (k + 1)

theorem monthStart_eq {k : ℕ} {t : ℚ} (h : InMonth k t) : monthStart t = startOf k := by
  rw [monthStart, monthOf_eq h.1 h.2]

theorem length_bounds (k : ℕ) : startOf k + 28 * secondsPerDay ≤ startOf (k + 1) ∧
    startOf (k + 1) ≤ startOf k + 31 * secondsPerDay := by
  have hday : (0 : ℚ) ≤ secondsPerDay := by norm_num [secondsPerDay]
  obtain ⟨hlo, hhi⟩ := monthLength_bounds k
  have hlo' : (28 : ℚ) ≤ monthLength k := by exact_mod_cast hlo
  have hhi' : (monthLength k : ℚ) ≤ 31 := by exact_mod_cast hhi
  rw [startOf_succ]
  exact ⟨by nlinarith, by nlinarith⟩

theorem monthEnd_eq {k : ℕ} {now : ℚ} (h : InMonth k now) :
    monthEnd now = startOf (k + 1) - 1 := by
  have hthis := length_bounds k
  have hnext := length_bounds (k + 1)
  have hday : (0 : ℚ) < secondsPerDay := by norm_num [secondsPerDay]
  rw [monthEnd, monthStart_eq h, monthStart_eq (k := k + 1) ⟨by linarith, by linarith⟩]

theorem previousMonthPeriod_eq {k : ℕ} {now : ℚ} (h : InMonth (k + 1) now) :
    previousMonthPeriod now = (startOf k, startOf (k + 1)) := by
  have hthis := length_bounds k
  have hday : (0 : ℚ) < secondsPerDay := by norm_num [secondsPerDay]
  rw [previousMonthPeriod, monthStart_eq h, monthStart_eq (k := k) ⟨by linarith, by linarith⟩]

/-! ## The preview and the invoice -/

section Converges

variable (q : Queries) (levers levers' : RoutingLevers) (org : Organization)
  (invoice : Option Invoice) (now later : ℚ)

def previewWindow : Window := period (monthStart now) (monthEnd now)

def invoiceWindow : Window := period (previousMonthPeriod later).1 (previousMonthPeriod later).2

/-- The amounts agree, and both count every event of the month. -/
structure Converges (k : ℕ) : Prop where
  amounts : (currentPeriodBillable q levers org now).map
      (fun b => (b.verifiedSavingsUsd, b.feeUsd, b.netSavingsUsd)) =
    (generateInvoice q levers' org invoice (previousMonthPeriod later).1
      (previousMonthPeriod later).2).map fun i =>
        (i.amounts.verifiedSavingsUsd, i.amounts.feeUsd, i.amounts.netSavingsUsd)
  counted : ∀ p ∈ org.projects, ∀ e ∈ p.events, InMonth k e.receivedAt →
    (previewWindow now).holds e = true ∧ (invoiceWindow later).holds e = true

def LastSecond (k : ℕ) (t : ℚ) : Prop := startOf (k + 1) - 1 ≤ t ∧ t < startOf (k + 1)

variable {q levers levers' org invoice now later} {k : ℕ}

theorem holds_period {start stop : ℚ} {e : UsageEvent} :
    (period start stop).holds e = true ↔ start ≤ e.receivedAt ∧ e.receivedAt < stop := by
  rw [Window.holds, Bool.and_eq_true, decide_eq_true_eq]
  simp [period]

theorem holds_preview (h : InMonth k now) (e : UsageEvent) :
    (previewWindow now).holds e = true ↔
      startOf k ≤ e.receivedAt ∧ e.receivedAt < startOf (k + 1) - 1 := by
  rw [previewWindow, holds_period, monthStart_eq h, monthEnd_eq h]

theorem holds_invoice (h : InMonth (k + 1) later) (e : UsageEvent) :
    (invoiceWindow later).holds e = true ↔ InMonth k e.receivedAt := by
  rw [invoiceWindow, holds_period, previousMonthPeriod_eq h, InMonth]

theorem orgVerifiedSavings_congr {w w' : Window}
    (h : ∀ p ∈ org.projects, ∀ e ∈ p.events, w.holds e = w'.holds e) :
    orgVerifiedSavings q levers org w = orgVerifiedSavings q levers' org w' := by
  have hproject : ∀ ps : List Project, (∀ p ∈ ps, ∀ e ∈ p.events, w.holds e = w'.holds e) →
      ps.mapM (projectSavings q levers w) = ps.mapM (projectSavings q levers' w') := by
    intro ps hps
    induction ps with
    | nil => rw [List.mapM_nil, List.mapM_nil]
    | cons p ps ih =>
      have hp : projectSavings q levers w p = projectSavings q levers' w' p :=
        verifiedSavingsUsd_congr (hps p List.mem_cons_self) _ _
      rw [List.mapM_cons, List.mapM_cons, hp, ih fun x hx => hps x (List.mem_cons_of_mem p hx)]
  rw [orgVerifiedSavings, orgVerifiedSavings, hproject _ h]

theorem generateInvoice_draft (h : ∀ i ∈ invoice, i.status = "draft") (start stop : ℚ) :
    (generateInvoice q levers org invoice start stop).map (·.amounts) =
      (orgVerifiedSavings q levers org (period start stop)).bind fun verified =>
        computeFee verified org.gainSharePercent org.monthlyFeeFloorUsd := by
  rw [generateInvoice, Option.map_bind]
  congr 1
  funext verified
  rw [Function.comp_apply, Option.map_map]
  cases invoice with
  | none => exact Option.map_id'
  | some i => simp [h i rfl, Function.comp_def]

/-- The preview of a month converges to its invoice exactly when its last second has no event. -/
theorem converges_iff (hnow : InMonth k now) (hlater : InMonth (k + 1) later)
    (hdraft : ∀ i ∈ invoice, i.status = "draft") :
    Converges q levers levers' org invoice now later k ↔
      ∀ p ∈ org.projects, ∀ e ∈ p.events, ¬ LastSecond k e.receivedAt := by
  constructor
  · intro h p hp e he hlast
    have hmonth := length_bounds k
    have hday : secondsPerDay = 86400 := rfl
    have hin : InMonth k e.receivedAt := ⟨by linarith [hlast.1], hlast.2⟩
    have hheld := (holds_preview hnow e).1 (h.counted p hp e he hin).1
    exact absurd hlast.1 (not_le.2 hheld.2)
  · intro h
    have hwindows : ∀ p ∈ org.projects, ∀ e ∈ p.events,
        (previewWindow now).holds e = (invoiceWindow later).holds e := by
      intro p hp e he
      rw [Bool.eq_iff_iff, holds_preview hnow, holds_invoice hlater]
      constructor
      · rintro ⟨hlo, hhi⟩
        exact ⟨hlo, by linarith⟩
      · rintro ⟨hlo, hhi⟩
        exact ⟨hlo, not_le.1 fun hlast => h p hp e he ⟨hlast, hhi⟩⟩
    refine ⟨?_, fun p hp e he hin => ?_⟩
    · have hsum : orgVerifiedSavings q levers org (period (monthStart now) (monthEnd now)) =
          orgVerifiedSavings q levers' org (period (previousMonthPeriod later).1
            (previousMonthPeriod later).2) := orgVerifiedSavings_congr hwindows
      have hinvoice : (generateInvoice q levers' org invoice (previousMonthPeriod later).1
          (previousMonthPeriod later).2).map (·.amounts) = _ := generateInvoice_draft hdraft _ _
      rw [← hsum] at hinvoice
      have hamounts := congrArg (Option.map fun b : Billable =>
        (b.verifiedSavingsUsd, b.feeUsd, b.netSavingsUsd)) hinvoice
      rw [Option.map_map] at hamounts
      exact hamounts.symm
    · have hinvoice := (holds_invoice hlater e).2 hin
      exact ⟨by rw [hwindows p hp e he]; exact hinvoice, hinvoice⟩

end Converges

/-! ## January 2026 -/

def january : ℕ := 12 * 2025

def newYear : ℚ := startOf (january + 1) - 1 / 4

theorem newYear_inMonth : InMonth january newYear := ⟨by decide +kernel, by decide +kernel⟩

theorem february_inMonth : InMonth (january + 1) (startOf (january + 1)) :=
  ⟨le_refl _, by decide +kernel⟩

def sampleQueries : Queries := ⟨fun _ => "", fun _ => some 5, fun _ _ _ _ _ _ => none⟩

def sampleHit (receivedAt : ℚ) : UsageEvent where
  source := "proxy"
  provider := "openai"
  model := "gpt-4o"
  inputTokens := 0
  outputTokens := 0
  cachedInputTokens := 0
  costUsd := some 0
  costSource := "catalog"
  pricingStatus := "priced"
  metadata := [("cache", .str "hit"), ("saved_usd", .str "5.00")]
  idempotencyKey := none
  receivedAt

def sampleOrg (receivedAt : ℚ) : Organization := ⟨1 / 5, 0, [⟨1, [sampleHit receivedAt]⟩]⟩

def sampleLevers : RoutingLevers := fun _ => "smart_routing"

theorem first_day_converges : Converges sampleQueries sampleLevers sampleLevers
    (sampleOrg (startOf january)) none newYear (startOf (january + 1)) january := by
  refine (converges_iff newYear_inMonth february_inMonth (by simp)).2 fun p hp e he hlast => ?_
  obtain rfl := List.mem_singleton.1 hp
  obtain rfl := List.mem_singleton.1 he
  exact absurd hlast.1 (by decide +kernel)

theorem preview_savings : orgVerifiedSavings sampleQueries sampleLevers (sampleOrg newYear)
    (period (startOf january) (startOf (january + 1) - 1)) = some 0 := by decide +kernel

theorem invoice_savings : orgVerifiedSavings sampleQueries sampleLevers (sampleOrg newYear)
    (period (startOf january) (startOf (january + 1))) = some 5 := by decide +kernel

theorem last_second_missed : ¬ Converges sampleQueries sampleLevers sampleLevers
    (sampleOrg newYear) none newYear (startOf (january + 1)) january := by
  intro h
  have hamounts := h.amounts
  rw [currentPeriodBillable, monthStart_eq newYear_inMonth, monthEnd_eq newYear_inMonth,
    previousMonthPeriod_eq february_inMonth, generateInvoice, preview_savings,
    invoice_savings] at hamounts
  have hsavings := congrArg (Option.map Prod.fst) hamounts
  exact absurd hsavings (by decide +kernel)

end Varsten.Savings.Billing
