import Varsten.Machine.Runs
import Varsten.Python.Precision

/-!
# Alerts

Evaluations of the alert rules of one project, any number at once. An evaluation checks that a
crossing has no delivery, sends, and inserts the delivery: three steps, between which others run.
Nothing changes or deletes a rule that there is.
-/

namespace Varsten.ControlPlane.Alerts

open Machine.Runs (steps final)
open Python.Decimals
open Python.Precision (context mul)

/-- How decimals are written: with so many places, and as an amount with two and separators. -/
structure Texts where
  str : ℕ → ℚ → String
  money : ℚ → String

structure AlertRule where
  id : String
  enabled : Bool
  thresholdUsd : Option ℚ
  thresholdPercent : Option ℚ
  destinationType : String
  destination : String
deriving DecidableEq

/-- `BudgetStatus`, of one enabled budget. -/
structure BudgetStatus where
  ownerType : String
  ownerKey : String
  budgetUsd : ℚ
  spendUsd : ℚ

def BudgetStatus.percentUsed (b : BudgetStatus) : Option ℚ :=
  if b.budgetUsd ≤ 0 then none
  else some (quantize roundHalfEven 10 (mul (context (b.spendUsd / b.budgetUsd)) 100))

/-- What an evaluation reads of the project: the rules, the spend of the month and the budgets. -/
structure Project where
  rules : List AlertRule
  spend : ℚ
  budgets : List BudgetStatus

/-- The arguments of `_fire_once`, less the body of the message. -/
structure Crossing where
  rule : AlertRule
  dedupeKey : String
  alertType : String
  subject : String
  observedUsd : ℚ
  thresholdUsd : Option ℚ
  thresholdPercent : Option ℚ
  ownerType : Option String
  ownerKey : Option String
deriving DecidableEq

inductive DeliveryStatus where
  | sent
  | failed
  | skipped
deriving DecidableEq

structure AlertDelivery where
  crossing : Crossing
  status : DeliveryStatus

section Crossings

variable (texts : Texts)

def spendKey (rule : AlertRule) (period : String) (threshold : ℚ) : String :=
  rule.id ++ ":" ++ period ++ ":spend:" ++ texts.str 2 threshold

def budgetKey (rule : AlertRule) (period : String) (b : BudgetStatus) (threshold : ℚ) : String :=
  rule.id ++ ":" ++ period ++ ":budget:" ++ b.ownerType ++ ":" ++ b.ownerKey ++ ":" ++
    texts.str 4 threshold

def spendSubject (spend : ℚ) : String :=
  "Varsten spend alert: $" ++ texts.money spend ++ " this month"

def budgetSubject (b : BudgetStatus) (pct : ℚ) : String :=
  "Varsten budget alert: " ++ b.ownerType ++ " '" ++ b.ownerKey ++ "' at " ++ texts.str 1 pct ++ "%"

def spendCrossing (rule : AlertRule) (period : String) (spend threshold : ℚ) : Option Crossing :=
  if threshold ≤ spend then
    some ⟨rule, spendKey texts rule period threshold, "spend", spendSubject texts spend, spend,
      some threshold, none, none, none⟩
  else none

def budgetCrossing (rule : AlertRule) (period : String) (threshold : ℚ) (b : BudgetStatus) :
    Option Crossing :=
  b.percentUsed.bind fun pct =>
    if threshold ≤ pct then
      some ⟨rule, budgetKey texts rule period b threshold, "budget", budgetSubject texts b pct,
        b.spendUsd, none, some threshold, some b.ownerType, some b.ownerKey⟩
    else none

def crossings (period : String) (spend : ℚ) (budgets : List BudgetStatus) (rule : AlertRule) :
    List Crossing :=
  match rule.thresholdUsd, rule.thresholdPercent with
  | some t, _ => (spendCrossing texts rule period spend t).toList
  | none, some t => budgets.filterMap (budgetCrossing texts rule period t)
  | none, none => []

end Crossings

/-! ## Evaluations -/

inductive Phase where
  | checking
  | sending (c : Crossing)
  | recording (c : Crossing) (status : DeliveryStatus)
  | lost
  | failed
deriving DecidableEq

/-- An `evaluate_and_deliver` on its way: the rules to come, and the crossings to come of the
current rule. -/
structure Evaluation where
  period : String
  spend : ℚ
  budgets : Option (List BudgetStatus)
  rules : List AlertRule
  crossings : List Crossing
  phase : Phase

/-- The messages that went out, by their key, beside the database. -/
structure State where
  project : Project
  deliveries : List AlertDelivery
  messages : List String
  evaluations : ℕ → Option Evaluation

inductive Input where
  | change (p : Project)
  | start (r : ℕ) (period : String)
  | advance (r : ℕ) (status : DeliveryStatus)

/-- The row fits the columns of the table. -/
def Fits (c : Crossing) : Prop :=
  c.dedupeKey.length ≤ 255 ∧ c.subject.length ≤ 255 ∧
    |roundHalfUp (c.observedUsd * 10 ^ 8)| < 10 ^ 18

instance (c : Crossing) : Decidable (Fits c) := inferInstanceAs (Decidable (_ ∧ _))

def begin (p : Project) (period : String) : Evaluation :=
  ⟨period, p.spend, none, p.rules.filter (·.enabled), [], .checking⟩

def delivered (s : State) (key : String) : Bool := s.deliveries.any (·.crossing.dedupeKey = key)

def State.put (s : State) (r : ℕ) (v : Evaluation) : State :=
  ⟨s.project, s.deliveries, s.messages, Function.update s.evaluations r (some v)⟩

section Steps

variable (texts : Texts)

def loadBudgets (p : Project) (v : Evaluation) (rule : AlertRule) : Option (List BudgetStatus) :=
  if rule.thresholdUsd.isNone ∧ rule.thresholdPercent.isSome then v.budgets.or (some p.budgets)
  else v.budgets

def nextRule (p : Project) (v : Evaluation) (rule : AlertRule) (rest : List AlertRule) :
    Evaluation :=
  let budgets := loadBudgets p v rule
  { v with
    budgets
    rules := rest
    crossings := crossings texts v.period v.spend (budgets.getD []) rule }

/-- One step of an evaluation; `status` is how a send ends. The insert raises where the row does
not fit or the key is taken, and ends the evaluation. -/
def advance (s : State) (r : ℕ) (v : Evaluation) (status : DeliveryStatus) : State :=
  match v.phase with
  | .checking =>
    match v.crossings, v.rules with
    | [], [] => s
    | [], rule :: rest => s.put r (nextRule texts s.project v rule rest)
    | c :: cs, _ =>
      if delivered s c.dedupeKey then s.put r { v with crossings := cs }
      else s.put r { v with crossings := cs, phase := .sending c }
  | .sending c =>
    let next := s.put r { v with phase := .recording c status }
    { next with
      messages := if status = .sent then s.messages ++ [c.dedupeKey] else s.messages }
  | .recording c status =>
    if ¬Fits c then s.put r { v with phase := .failed }
    else if delivered s c.dedupeKey then s.put r { v with phase := .lost }
    else
      let next := s.put r { v with phase := .checking }
      { next with deliveries := s.deliveries ++ [⟨c, status⟩] }
  | .lost | .failed => s

def step (s : State) : Input → State
  | .change p => { s with project := p }
  | .start r period =>
    if (s.evaluations r).isSome then s else s.put r (begin s.project period)
  | .advance r status => (s.evaluations r).elim s fun v => advance texts s r v status

end Steps

/-! ## Crossings in flight -/

/-- The key an evaluation has checked and not yet recorded. -/
def Phase.key : Phase → Option String
  | .sending c => some c.dedupeKey
  | .recording c _ => some c.dedupeKey
  | .checking | .lost | .failed => none

/-- A crossing in flight can be recorded, and no race was lost. -/
def Phase.Sound : Phase → Prop
  | .sending c | .recording c _ => Fits c
  | .lost => False
  | .checking | .failed => True

def flight (s : State) (r : ℕ) : Option String := (s.evaluations r).bind (·.phase.key)

/-- Nobody has in flight what the step checks and finds undelivered, and what it finds
undelivered can be recorded. -/
def Exclusive (s : State) : Input → Prop
  | .advance r _ => ∀ v ∈ s.evaluations r, v.phase = .checking → ∀ c ∈ v.crossings.head?,
      delivered s c.dedupeKey = false → Fits c ∧ ∀ r', flight s r' ≠ some c.dedupeKey
  | _ => True

structure Inv (s : State) : Prop where
  unique : ∀ r r' k, flight s r = some k → flight s r' = some k → r = r'
  fresh : ∀ r k, flight s r = some k → delivered s k = false
  unsent : ∀ r v c, s.evaluations r = some v → v.phase = .sending c → c.dedupeKey ∉ s.messages
  known : ∀ k ∈ s.messages, delivered s k = true ∨ ∃ r, flight s r = some k
  once : s.messages.Nodup
  sound : ∀ r v, s.evaluations r = some v → v.phase.Sound

variable {s : State} {r : ℕ} {v w : Evaluation}

theorem flight_eq (h : s.evaluations r = some v) : flight s r = v.phase.key := by
  rw [flight, h, Option.bind_some]

theorem put_self : (s.put r w).evaluations r = some w := Function.update_self _ _ _

theorem put_of_ne {r' : ℕ} (h : r' ≠ r) : (s.put r w).evaluations r' = s.evaluations r' :=
  Function.update_of_ne h _ _

theorem flight_put_self : flight (s.put r w) r = w.phase.key := flight_eq put_self

theorem flight_put_of_ne {r' : ℕ} (h : r' ≠ r) : flight (s.put r w) r' = flight s r' := by
  rw [flight, flight, put_of_ne h]

theorem put_forall {P : ℕ → Evaluation → Prop} (hself : P r w)
    (hother : ∀ r' v', s.evaluations r' = some v' → P r' v') :
    ∀ r' v', (s.put r w).evaluations r' = some v' → P r' v' := by
  intro r' v' hv
  by_cases hne : r' = r
  · rw [hne, put_self, Option.some.injEq] at hv
    rw [hne, ← hv]
    exact hself
  · rw [put_of_ne hne] at hv
    exact hother r' v' hv

theorem inv_quiet (h : Inv s) (hr : flight s r = none) (hw : w.phase = .checking) :
    Inv (s.put r w) := by
  have hflight : ∀ r', flight (s.put r w) r' = flight s r' := by
    intro r'
    by_cases hne : r' = r
    · rw [hne, flight_put_self, hw, hr]
      rfl
    · exact flight_put_of_ne hne
  refine ⟨?_, ?_, fun r' v' c hv => ?_, ?_, h.once, put_forall (by rw [hw]; trivial) h.sound⟩
  · simp only [hflight]
    exact h.unique
  · simp only [hflight]
    exact h.fresh
  · refine put_forall (P := fun _ v => v.phase = .sending c → c.dedupeKey ∉ s.messages) ?_ ?_
      r' v' hv
    · simp [hw]
    · exact fun r' v' hv => h.unsent r' v' c hv
  · simp only [hflight]
    exact h.known

theorem inv_claim (h : Inv s) {c : Crossing} (hr : flight s r = none)
    (hd : delivered s c.dedupeKey = false) (hfits : Fits c)
    (hx : ∀ r', flight s r' ≠ some c.dedupeKey) (hw : w.phase = .sending c) :
    Inv (s.put r w) := by
  have hself : flight (s.put r w) r = some c.dedupeKey := by
    rw [flight_put_self, hw]
    rfl
  refine ⟨fun r1 r2 k h1 h2 => ?_, fun r' k hk => ?_, fun r' v' c' hv => ?_, fun k hk => ?_,
    h.once, put_forall (by rw [hw]; exact hfits) h.sound⟩
  · by_cases hne1 : r1 = r <;> by_cases hne2 : r2 = r
    · rw [hne1, hne2]
    · rw [hne1, hself] at h1
      rw [flight_put_of_ne hne2, ← h1] at h2
      exact absurd h2 (hx r2)
    · rw [hne2, hself] at h2
      rw [flight_put_of_ne hne1, ← h2] at h1
      exact absurd h1 (hx r1)
    · rw [flight_put_of_ne hne1] at h1
      rw [flight_put_of_ne hne2] at h2
      exact h.unique r1 r2 k h1 h2
  · by_cases hne : r' = r
    · rw [hne, hself, Option.some.injEq] at hk
      rw [← hk]
      exact hd
    · rw [flight_put_of_ne hne] at hk
      exact h.fresh r' k hk
  · refine put_forall (P := fun _ v => v.phase = .sending c' → c'.dedupeKey ∉ s.messages) ?_ ?_
      r' v' hv
    · rw [hw, Phase.sending.injEq]
      rintro rfl hmem
      rcases h.known _ hmem with hin | ⟨r2, hin⟩
      · rw [hd] at hin
        exact absurd hin Bool.false_ne_true
      · exact hx r2 hin
    · exact fun r' v' hv => h.unsent r' v' c' hv
  · rcases h.known k hk with hin | ⟨r', hin⟩
    · exact .inl hin
    · have hne : r' ≠ r := fun he => by simp [he, hr] at hin
      exact .inr ⟨r', (flight_put_of_ne hne).trans hin⟩

theorem inv_send (h : Inv s) {c : Crossing} (hv : s.evaluations r = some v)
    (hp : v.phase = .sending c) {status : DeliveryStatus} (hw : w.phase = .recording c status)
    {messages : List String} (hm : messages = s.messages ∨ messages = s.messages ++ [c.dedupeKey]) :
    Inv { s.put r w with messages } := by
  have hr : flight s r = some c.dedupeKey := by
    rw [flight_eq hv, hp]
    rfl
  have hflight : ∀ r', flight { s.put r w with messages } r' = flight s r' := by
    intro r'
    change flight (s.put r w) r' = _
    by_cases hne : r' = r
    · rw [hne, flight_put_self, hw, hr]
      rfl
    · exact flight_put_of_ne hne
  have hmem : ∀ k ∈ messages, k ∈ s.messages ∨ k = c.dedupeKey := by
    rcases hm with rfl | rfl
    · exact fun k hk => .inl hk
    · simp
  refine ⟨?_, ?_, fun r' v' c' hv' => ?_, fun k hk => ?_, ?_, put_forall ?_ h.sound⟩
  · simp only [hflight]
    exact h.unique
  · simp only [hflight]
    exact h.fresh
  · by_cases hne : r' = r
    · rw [hne] at hv'
      obtain rfl := Option.some.inj (put_self.symm.trans hv')
      simp [hw]
    · intro hp' hin
      have hv' : s.evaluations r' = some v' := (put_of_ne hne).symm.trans hv'
      rcases hmem _ hin with hin | hkey
      · exact h.unsent r' v' c' hv' hp' hin
      · refine hne (h.unique r' r c.dedupeKey ?_ hr)
        rw [flight_eq hv', hp', ← hkey]
        rfl
  · simp only [hflight]
    rcases hmem k hk with hk | rfl
    · exact h.known k hk
    · exact .inr ⟨r, hr⟩
  · rcases hm with rfl | rfl
    · exact h.once
    · exact List.nodup_append.2 ⟨h.once, List.nodup_singleton _, fun a ha b hb => by
        rw [List.mem_singleton.1 hb]
        exact fun he => h.unsent r v c hv hp (he ▸ ha)⟩
  · have hfits := h.sound r v hv
    rw [hp] at hfits
    rw [hw]
    exact hfits

theorem inv_record (h : Inv s) {c : Crossing} {status : DeliveryStatus}
    (hv : s.evaluations r = some v) (hp : v.phase = .recording c status)
    (hw : w.phase = .checking) :
    Inv { s.put r w with deliveries := s.deliveries ++ [⟨c, status⟩] } := by
  have hr : flight s r = some c.dedupeKey := by
    rw [flight_eq hv, hp]
    rfl
  have hself : flight (s.put r w) r = none := by
    rw [flight_put_self, hw]
    rfl
  have hdelivered (k : String) : delivered { s.put r w with
      deliveries := s.deliveries ++ [⟨c, status⟩] } k =
        (delivered s k || decide (c.dedupeKey = k)) := by
    simp [delivered]
  have hother : ∀ r' k, flight (s.put r w) r' = some k → r' ≠ r ∧ flight s r' = some k := by
    intro r' k hk
    have hne : r' ≠ r := fun he => by simp [he, hself] at hk
    exact ⟨hne, (flight_put_of_ne hne).symm.trans hk⟩
  refine ⟨fun r1 r2 k h1 h2 => ?_, fun r' k hk => ?_, fun r' v' c' hv' => ?_, fun k hk => ?_,
    h.once, put_forall (by rw [hw]; trivial) h.sound⟩
  · exact h.unique r1 r2 k (hother r1 k h1).2 (hother r2 k h2).2
  · obtain ⟨hne, hk⟩ := hother r' k hk
    rw [hdelivered, h.fresh r' k hk, Bool.false_or, decide_eq_false_iff_not]
    exact fun he => hne (h.unique r' r k hk (he ▸ hr))
  · refine put_forall (P := fun _ v => v.phase = .sending c' → c'.dedupeKey ∉ s.messages) ?_ ?_
      r' v' hv'
    · simp [hw]
    · exact fun r' v' hv => h.unsent r' v' c' hv
  · rw [hdelivered]
    rcases h.known k hk with hin | ⟨r', hin⟩
    · exact .inl (by rw [hin, Bool.true_or])
    · by_cases hne : r' = r
      · rw [hne, hr, Option.some.injEq] at hin
        exact .inl (by rw [hin]; simp)
      · exact .inr ⟨r', (flight_put_of_ne hne).trans hin⟩

variable {texts : Texts}

theorem inv_step (h : Inv s) {i : Input} (hx : Exclusive s i) : Inv (step texts s i) := by
  cases i with
  | change p => exact ⟨h.unique, h.fresh, h.unsent, h.known, h.once, h.sound⟩
  | start r period =>
    rw [step]
    split_ifs with hsome
    · exact h
    · have hnone : s.evaluations r = none := by simpa using hsome
      exact inv_quiet h (by rw [flight, hnone, Option.bind_none]) rfl
  | advance r status =>
    rw [step]
    cases hv : s.evaluations r with
    | none => exact h
    | some v =>
      dsimp only [Option.elim]
      rw [advance.eq_def]
      have hkey := flight_eq hv
      cases hp : v.phase with
      | checking =>
        rw [hp] at hkey
        dsimp only
        cases hc : v.crossings with
        | nil =>
          cases v.rules with
          | nil => exact h
          | cons rule rest => exact inv_quiet h hkey hp
        | cons c cs =>
          dsimp only
          cases hd : delivered s c.dedupeKey with
          | true => exact inv_quiet h hkey rfl
          | false =>
            obtain ⟨hfits, hfree⟩ := hx v hv hp c (by simp [hc]) hd
            exact inv_claim h hkey hd hfits hfree rfl
      | sending c =>
        refine inv_send h hv hp rfl ?_
        split_ifs
        · exact .inr rfl
        · exact .inl rfl
      | recording c status =>
        have hfits : Fits c := by
          have hsound := h.sound r v hv
          rwa [hp] at hsound
        dsimp only
        rw [if_neg (not_not.2 hfits), h.fresh r c.dedupeKey (by rw [hkey, hp]; rfl)]
        exact inv_record h hv hp rfl
      | lost => exact h
      | failed => exact h

/-! ## Whole runs -/

def initial (p : Project) : State := ⟨p, [], [], fun _ => none⟩

theorem inv_initial (p : Project) : Inv (initial p) := by
  refine ⟨?_, ?_, ?_, ?_, List.nodup_nil, ?_⟩ <;> simp [initial, flight]

/-- No key is notified twice, and an evaluation that lost a race had nothing left to evaluate. -/
structure NotifiedOnce (s : State) : Prop where
  once : s.messages.Nodup
  continues : ∀ r v, s.evaluations r = some v → v.phase = .lost → v.rules = [] ∧ v.crossings = []

/-- Where every check is exclusive, every crossing is notified once and no evaluation is lost. -/
theorem notified_once {p : Project} {inputs : List Input}
    (h : ∀ x ∈ steps (step texts) (initial p) inputs, Exclusive x.1 x.2) :
    NotifiedOnce (final (step texts) (initial p) inputs) := by
  have hinv : Inv (final (step texts) (initial p) inputs) :=
    @Machine.Runs.history _ _ _ (fun _ s => Inv s) _ (fun _ s i hx hs => inv_step hs hx) _ _ []
      (inv_initial p) h
  refine ⟨hinv.once, fun r v hv hp => ?_⟩
  have hsound := hinv.sound r v hv
  rw [hp] at hsound
  exact hsound.elim

/-! ## Two sweeps -/

def sampleTexts : Texts :=
  ⟨fun _ q => if q = 50 then "50.00" else if q = 60 then "60.00" else "75.00", fun _ => "75.00"⟩

def spendRule (id : String) (threshold : ℚ) : AlertRule :=
  ⟨id, true, some threshold, none, "email", "ops@example.com"⟩

def twoRules : Project := ⟨[spendRule "a" 50, spendRule "b" 60], 75, []⟩

def oneSweep : List Input :=
  [.start 1 "2026-01", .advance 1 .sent, .advance 1 .sent, .advance 1 .sent, .advance 1 .sent]

theorem one_sweep_notifies_once :
    NotifiedOnce (final (step sampleTexts) (initial twoRules) oneSweep) := by
  refine notified_once ?_
  simp only [oneSweep, steps, List.forall_mem_cons]
  refine ⟨trivial, ?_, ?_, ?_, ?_, fun x hx => absurd hx List.not_mem_nil⟩
  · intro v hv _ c hc
    obtain rfl := Option.some.inj hv
    cases hc
  · intro v hv _ c hc _
    obtain rfl := Option.some.inj hv
    obtain rfl := Option.some.inj hc
    refine ⟨by decide +kernel, fun r' => ?_⟩
    by_cases hr : r' = 1
    · rw [hr]
      exact fun hf => by cases hf
    · change flight (((initial twoRules).put 1 _).put 1 _) r' ≠ _
      rw [flight_put_of_ne hr, flight_put_of_ne hr]
      exact fun hf => by cases hf
  · intro v hv hp
    obtain rfl := Option.some.inj hv
    cases hp
  · intro v hv hp
    obtain rfl := Option.some.inj hv
    cases hp

def twoSweeps : List Input :=
  [.start 1 "2026-01", .start 2 "2026-01", .advance 1 .sent, .advance 2 .sent, .advance 1 .sent,
    .advance 2 .sent, .advance 1 .sent, .advance 2 .sent, .advance 1 .sent, .advance 2 .sent]

theorem two_sweeps_notify_twice :
    (final (step sampleTexts) (initial twoRules) twoSweeps).messages =
        ["a:2026-01:spend:50.00", "a:2026-01:spend:50.00"] ∧
      ((final (step sampleTexts) (initial twoRules) twoSweeps).evaluations 2).map
        (fun v => (v.phase, v.rules)) = some (.lost, [spendRule "b" 60]) := by
  decide +kernel

end Varsten.ControlPlane.Alerts
