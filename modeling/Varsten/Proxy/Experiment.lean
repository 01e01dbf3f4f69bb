import Varsten.Proxy.Ledger
import Varsten.Python.Value

/-!
# Holdback experiments

The arm aggregates of one swap and their measured difference, from the rows of a project. Averages
and variances are exact, where PostgreSQL keeps sixteen significant digits or more.
-/

namespace Varsten.Proxy.Experiment

open Python (Json)
open Python.Decimals
open Ledger

/-- What the database and floating point supply: the text of a JSON number, array or object, a
cast to `numeric(20, 12)`, which may raise, and the confidence sequence. -/
structure Queries where
  text : Json → String
  numeric : String → Option ℚ
  confidence : ℕ → ℚ → Option ℚ → ℕ → ℚ → Option ℚ → Option (ℚ × ℚ)

def itemText (q : Queries) : Option Json → Option String
  | none | some .null => none
  | some (.str s) => s
  | some (.bool b) => some (if b then "true" else "false")
  | some j => some (q.text j)

/-- `metadata[key].astext`. -/
def astext (q : Queries) (key : String) (e : UsageEvent) : Option String :=
  itemText q (Json.item key e.metadata)

structure Window where
  start : ℚ
  stop : Option ℚ

def Window.holds (w : Window) (e : UsageEvent) : Bool :=
  w.start ≤ e.receivedAt && w.stop.all fun t => e.receivedAt < t

def isHoldback (q : Queries) (e : UsageEvent) : Bool := astext q "holdback" e = some "true"

def inPair (q : Queries) (pair : String × String) (e : UsageEvent) : Bool :=
  isHoldback q e && astext q "experiment_from" e = some pair.1 &&
    astext q "experiment_to" e = some pair.2

def mean (costs : List ℚ) : Option ℚ :=
  if costs.isEmpty then none else some (costs.sum / costs.length)

def varSamp (costs : List ℚ) : Option ℚ :=
  if costs.length < 2 then none
  else
    let m := costs.sum / costs.length
    some ((costs.map fun c => (c - m) ^ 2).sum / (costs.length - 1))

/-- One group of the query: `count` counts every row, the averages skip a null cost. -/
structure Arm where
  n : ℕ
  mean : Option ℚ
  var : Option ℚ

def armOf (q : Queries) (arm : String) (rows : List UsageEvent) : Arm :=
  let group := rows.filter fun e => astext q "arm" e = some arm
  let costs := group.filterMap (·.costUsd)
  ⟨group.length, mean costs, varSamp costs⟩

def armControl : String := "control"

def armTreatment : String := "treatment"

def minArmSamples : ℕ := 30

def eightDigits (value : ℚ) : ℚ := quantize roundHalfEven (10 ^ 8) value

theorem eightDigits_intCast (n : ℤ) : eightDigits n = n :=
  quantize_intCast roundHalfEven_intCast (by norm_num) n

structure ExperimentResult where
  incumbentModel : String
  candidateModel : String
  controlRequests : ℕ
  treatmentRequests : ℕ
  controlAvgCostUsd : Option ℚ
  treatmentAvgCostUsd : Option ℚ
  savingsPerRequestUsd : Option ℚ
  savingsPerRequestCiLowUsd : Option ℚ
  savingsPerRequestCiHighUsd : Option ℚ
  measuredSavingsUsd : Option ℚ
  measuredSavingsCiLowUsd : Option ℚ
  measuredSavingsCiHighUsd : Option ℚ
  hasSignal : Bool

def compareArms (q : Queries) (pair : String × String) (control treatment : Arm) :
    ExperimentResult :=
  let perRequest : Option ℚ := do return (← control.mean) - (← treatment.mean)
  let interval : Option (ℚ × ℚ) := do
    q.confidence control.n (← control.mean) control.var treatment.n (← treatment.mean)
      treatment.var
  { incumbentModel := pair.1
    candidateModel := pair.2
    controlRequests := control.n
    treatmentRequests := treatment.n
    controlAvgCostUsd := control.mean.map eightDigits
    treatmentAvgCostUsd := treatment.mean.map eightDigits
    savingsPerRequestUsd := perRequest.map eightDigits
    savingsPerRequestCiLowUsd := interval.map fun ci => eightDigits ci.1
    savingsPerRequestCiHighUsd := interval.map fun ci => eightDigits ci.2
    measuredSavingsUsd := perRequest.map fun d => eightDigits (d * treatment.n)
    measuredSavingsCiLowUsd := interval.map fun ci => eightDigits (ci.1 * treatment.n)
    measuredSavingsCiHighUsd := interval.map fun ci => eightDigits (ci.2 * treatment.n)
    hasSignal := minArmSamples ≤ control.n && minArmSamples ≤ treatment.n }

def computeExperiment (q : Queries) (rows : List UsageEvent) (w : Window)
    (pair : String × String) : ExperimentResult :=
  let group := rows.filter fun e => w.holds e && inPair q pair e
  compareArms q pair (armOf q armControl group) (armOf q armTreatment group)

theorem compareArms_measured {q : Queries} {pair : String × String} {c t : Arm} {a b : ℚ}
    (hc : c.mean = some a) (ht : t.mean = some b) :
    (compareArms q pair c t).measuredSavingsUsd = some (eightDigits ((a - b) * t.n)) := by
  simp [compareArms, hc, ht]

theorem compareArms_unmeasured {q : Queries} {pair : String × String} {c t : Arm}
    (h : c.mean = none ∨ t.mean = none) :
    (compareArms q pair c t).measuredSavingsUsd = none := by
  rcases h with h | h <;> simp [compareArms, h]

end Varsten.Proxy.Experiment
