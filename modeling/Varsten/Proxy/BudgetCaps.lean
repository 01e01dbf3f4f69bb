import Varsten.Machine.Runs
import Varsten.Machine.Table
import Varsten.Machine.TtlStore
import Varsten.Python.JsonAscii
import Varsten.Savings.Billing

/-!
# Hard caps on the hot path

The budgets of one project and the caps that any number of instances check requests against. The
caps are read from a cache, of the instance or, with a shared store, of all of them as a JSON text;
a lookup that misses reads the budgets, sums the ledger for each of them and then fills the cache,
with steps of others between its queries. `number` scans the numbers of a JSON text.
-/

namespace Varsten.Proxy.BudgetCaps

open Machine (Table)
open Machine.Runs (steps final)
open Machine.TtlStore
open Python (Json)
open Python.JsonText (Numerals)
open Python.Utf8 (Text)
open Savings.Billing (monthStart)

/-! ## Budgets -/

structure UsageEvent where
  team : Option String
  feature : Option String
  customerId : Option String
  costUsd : ℚ
  receivedAt : ℚ

structure BudgetRule where
  ownerType : String
  ownerKey : String
  monthlyBudgetUsd : ℚ
  hardCapEnabled : Bool
  enabled : Bool
deriving DecidableEq

def BudgetRule.owner (r : BudgetRule) : String × String := (r.ownerType, r.ownerKey)

def ownerColumn (ownerType : String) : Option (UsageEvent → Option String) :=
  if ownerType = "team" then some (·.team)
  else if ownerType = "feature" then some (·.feature)
  else if ownerType = "customer" then some (·.customerId)
  else none

def spendSince (ledger : List UsageEvent) (column : UsageEvent → Option String) (ownerKey : String)
    (start : ℚ) : ℚ :=
  ((ledger.filter fun e => column e = some ownerKey && start ≤ e.receivedAt).map (·.costUsd)).sum

def periodSpend (ledger : List UsageEvent) (ownerType ownerKey : String) (start : ℚ) : ℚ :=
  match ownerColumn ownerType with
  | none => 0
  | some column => spendSince ledger column ownerKey start

structure BudgetStatus where
  ownerType : String
  ownerKey : String
  budgetUsd : ℚ
  spendUsd : ℚ
  hardCapEnabled : Bool

def BudgetStatus.overBudget (b : BudgetStatus) : Bool :=
  0 < b.budgetUsd && b.budgetUsd ≤ b.spendUsd

def BudgetStatus.hardCapExhausted (b : BudgetStatus) : Bool := b.hardCapEnabled && b.overBudget

/-- What the guardrails show. -/
def evaluateBudgets (ledger : List UsageEvent) (rules : List BudgetRule) (now : ℚ) :
    List BudgetStatus :=
  (rules.filter (·.enabled)).map fun r => ⟨r.ownerType, r.ownerKey, r.monthlyBudgetUsd,
    periodSpend ledger r.ownerType r.ownerKey (monthStart now), r.hardCapEnabled⟩

def exhaustedOwner (ledger : List UsageEvent) (start : ℚ) (r : BudgetRule) :
    Option (String × String) :=
  match ownerColumn r.ownerType with
  | none => none
  | some column =>
    if r.monthlyBudgetUsd ≤ 0 then none
    else if r.monthlyBudgetUsd ≤ spendSince ledger column r.ownerKey start then some r.owner
    else none

def hardCaps (rules : List BudgetRule) : List BudgetRule :=
  rules.filter fun r => r.enabled && r.hardCapEnabled

def BudgetRule.isSummed (r : BudgetRule) : Bool :=
  (ownerColumn r.ownerType).isSome && 0 < r.monthlyBudgetUsd

/-! ## Caps -/

/-- A set of caps, in the order it is iterated. -/
abbrev Caps := List (Json × Json)

def owners (caps : Finset (String × String)) : Caps :=
  ((caps.map toLex.toEmbedding).sort (· ≤ ·)).map fun c => (.str (ofLex c).1, .str (ofLex c).2)

section Texts

variable (num : Numerals) (number : Text → Option (Json × Text))

def serializeCaps (caps : Finset (String × String)) : Text :=
  Python.JsonAscii.dumps num true (.arr ((owners caps).map fun c => .arr [c.1, c.2]))

/-- What iterating a value gives; a number, a truth value or `None` is a `TypeError`. -/
def iterate : Json → Option (List Json)
  | .arr xs => some xs
  | .obj fields => some (fields.map fun f => .str f.1)
  | .str s => some (s.toList.map fun c => .str (String.ofList [c]))
  | _ => none

def isHashable : Json → Bool
  | .arr _ => false
  | .obj _ => false
  | _ => true

/-- `(pair[0], pair[1])` as a member of a set. -/
def pairOf : Json → Option (Json × Json)
  | .arr (a :: b :: _) => if isHashable a && isHashable b then some (a, b) else none
  | .str s =>
    match s.toList with
    | a :: b :: _ => some (.str (String.ofList [a]), .str (String.ofList [b]))
    | _ => none
  | _ => none

/-- `none` is where it raises and the caller recomputes. -/
def deserializeCaps (raw : Text) : Option Caps := do
  let pairs ← iterate (← Python.JsonReader.loads number raw)
  pairs.mapM pairOf

end Texts

/-- The tags of a request. -/
structure RequestContext where
  team : Option String
  feature : Option String
  customerId : Option String

def ownerValue (ctx : RequestContext) (ownerType : Json) : Option String :=
  if ownerType = .str "team" then ctx.team
  else if ownerType = .str "feature" then ctx.feature
  else if ownerType = .str "customer" then ctx.customerId
  else none

def hitsCap (ctx : RequestContext) (cap : Json × Json) : Bool :=
  (ownerValue ctx cap.1).any fun v => v ≠ "" && cap.2 = .str v

def matchedCap (exhausted : Caps) (ctx : Option RequestContext) : Option (Json × Json) :=
  ctx.bind fun ctx => exhausted.find? (hitsCap ctx)

/-! ## Lookups -/

/-- `ttl` is in seconds, at least one. -/
structure Settings where
  enabled : Bool
  shared : Bool
  ttl : ℚ

variable {ι : Type}

/-- A lookup under way: its month and, once it has read them, the budgets it has yet to sum. -/
structure Flight (ι : Type) where
  home : ι
  start : ℚ
  rest : Option (List BudgetRule)
  exhausted : Finset (String × String)

structure State (ι : Type) where
  ledger : List UsageEvent
  rules : Table BudgetRule.owner
  now : ℚ
  store : Store Unit Text ℚ
  caches : ι → Store Unit Caps ℚ
  flights : ℕ → Option (Flight ι)

/-- `reached` is whether the shared store answers, and `answered` whether the database does. Rules
are created and never changed; a lookup reads them in any order. -/
inductive Input (ι : Type) where
  | spend (e : UsageEvent)
  | createRule (r : BudgetRule)
  | clear (i : ι) (reached : Bool)
  | evict (i : ι)
  | lose
  | pass (d : ℚ≥0)
  | lookup (l : ℕ) (i : ι) (reached : Bool)
  | readRules (l : ℕ) (answered : Bool)
  | sum (l : ℕ) (r : BudgetRule) (answered : Bool)
  | finish (l : ℕ) (reached : Bool)

def State.land (s : State ι) (l : ℕ) : State ι :=
  { s with flights := Function.update s.flights l none }

def State.fly (s : State ι) (l : ℕ) (f : Flight ι) : State ι :=
  { s with flights := Function.update s.flights l (some f) }

section Steps

variable [DecidableEq ι] (c : Settings) (num : Numerals) (number : Text → Option (Json × Text))

def cached (s : State ι) (i : ι) (reached : Bool) : Option Caps × State ι :=
  if c.shared then
    if reached then
      let r := get s.store () s.now
      (r.1.bind (deserializeCaps number), { s with store := r.2 })
    else (none, s)
  else
    let r := get (s.caches i) () s.now
    (r.1, { s with caches := Function.update s.caches i r.2 })

def fill (s : State ι) (i : ι) (caps : Finset (String × String)) (reached : Bool) : State ι :=
  if c.shared then
    if reached then { s with store := set s.store () (serializeCaps num caps) (some c.ttl) s.now }
    else s
  else
    { s with
      caches := Function.update s.caches i
        (set (s.caches i) () (owners caps) (some c.ttl) s.now) }

/-- `exhausted_hard_caps`: what a step returns to a request, and the state it leaves. -/
def answer (s : State ι) : Input ι → Option Caps × State ι
  | .spend e => (none, { s with ledger := s.ledger ++ [e] })
  | .createRule r => (none, (s.rules.add r).elim s fun rules => { s with rules })
  | .clear i reached =>
    (none, { s with
      caches := Function.update s.caches i (delete (s.caches i) ())
      store := if c.shared && reached then delete s.store () else s.store })
  | .evict i => (none, { s with caches := Function.update s.caches i (delete (s.caches i) ()) })
  | .lose => (none, { s with store := delete s.store () })
  | .pass d => (none, { s with now := s.now + d })
  | .lookup l i reached =>
    if !c.enabled then (some [], s)
    else
      let r := cached c number s i reached
      match r.1 with
      | some caps => (some caps, r.2)
      | none => (none, r.2.fly l ⟨i, monthStart s.now, none, ∅⟩)
  | .readRules l answered =>
    match s.flights l with
    | some ⟨i, start, none, _⟩ =>
      if answered then (none, s.fly l ⟨i, start, some (hardCaps s.rules.rows), ∅⟩)
      else (some [], s.land l)
    | _ => (none, s)
  | .sum l r answered =>
    match s.flights l with
    | some ⟨i, start, some rest, exhausted⟩ =>
      if r ∈ rest then
        if r.isSummed && !answered then (some [], s.land l)
        else
          (none, s.fly l ⟨i, start, some (rest.filter (· ≠ r)),
            (exhaustedOwner s.ledger start r).elim exhausted (insert · exhausted)⟩)
      else (none, s)
    | _ => (none, s)
  | .finish l reached =>
    match s.flights l with
    | some ⟨i, _, some [], exhausted⟩ =>
      (some (owners exhausted), (fill c num s i exhausted reached).land l)
    | _ => (none, s)

def step (s : State ι) (a : Input ι) : State ι := (answer c num number s a).2

/-- What a step returns to a request. -/
def returned (s : State ι) (a : Input ι) : Option Caps := (answer c num number s a).1

end Steps

/-! ## Caps as texts -/

section Caps

variable {caps : Finset (String × String)} {cap : Json × Json}

theorem mem_owners : cap ∈ owners caps ↔ ∃ o ∈ caps, cap = (.str o.1, .str o.2) := by
  simp only [owners, List.mem_map, Finset.mem_sort, Finset.mem_map]
  constructor
  · rintro ⟨x, ⟨o, ho, rfl⟩, rfl⟩
    exact ⟨o, ho, rfl⟩
  · rintro ⟨o, ho, rfl⟩
    exact ⟨toLex o, ⟨o, ho, rfl⟩, rfl⟩

theorem plain_pairs (os : List (String × String)) :
    Python.JsonAscii.PlainList (os.map fun o => .arr [.str o.1, .str o.2]) ∧
      Json.KeyedList (os.map fun o => .arr [.str o.1, .str o.2]) := by
  induction os with
  | nil => exact ⟨trivial, trivial⟩
  | cons o os ih => exact ⟨⟨⟨trivial, trivial, trivial⟩, ih.1⟩, ⟨trivial, trivial, trivial⟩, ih.2⟩

theorem mapM_pairOf (os : List (String × String)) :
    (os.map fun o => Json.arr [.str o.1, .str o.2]).mapM pairOf =
      some (os.map fun o => (.str o.1, .str o.2)) := by
  induction os with
  | nil => rfl
  | cons o os ih =>
    rw [List.map_cons, List.mapM_cons, ih]
    rfl

/-- What an instance shares, another reads back. -/
theorem deserializeCaps_serializeCaps (num : Numerals) (number : Text → Option (Json × Text))
    (caps : Finset (String × String)) :
    deserializeCaps number (serializeCaps num caps) = some (owners caps) := by
  obtain ⟨os, hos⟩ : ∃ os : List (String × String), owners caps =
      os.map fun o => (.str o.1, .str o.2) :=
    ⟨((caps.map toLex.toEmbedding).sort (· ≤ ·)).map ofLex, by rw [List.map_map]; rfl⟩
  have hpairs : (owners caps).map (fun c => Json.arr [c.1, c.2]) =
      os.map fun o => .arr [.str o.1, .str o.2] := by
    rw [hos, List.map_map]
    rfl
  have hread : Python.JsonReader.loads number (serializeCaps num caps) =
      some (.arr (os.map fun o => .arr [.str o.1, .str o.2])) := by
    rw [serializeCaps, hpairs]
    exact Python.JsonAscii.loads_dumps number num true (plain_pairs os).1 (plain_pairs os).2
  rw [deserializeCaps, hread, hos]
  exact mapM_pairOf os

theorem matchedCap_eq_some {exhausted : Caps} {ctx : Option RequestContext}
    (h : matchedCap exhausted ctx = some cap) :
    cap ∈ exhausted ∧ ∃ x v, ctx = some x ∧ ownerValue x cap.1 = some v ∧ v ≠ "" ∧
      cap.2 = .str v := by
  obtain ⟨x, rfl, h⟩ := Option.bind_eq_some_iff.1 h
  have hhit := List.find?_some h
  obtain ⟨v, hv, hvalue⟩ := (Option.any_eq_true _ _).1 hhit
  rw [Bool.and_eq_true, decide_eq_true_eq, decide_eq_true_eq] at hvalue
  exact ⟨List.mem_of_find?_eq_some h, x, v, rfl, hv, hvalue.1, hvalue.2⟩

end Caps

/-! ## Exhausted caps -/

section Exhausted

variable {ledger : List UsageEvent} {rules : List BudgetRule} {now start : ℚ} {r : BudgetRule}
  {o : String × String}

theorem exhaustedOwner_eq_some : exhaustedOwner ledger start r = some o ↔
    0 < r.monthlyBudgetUsd ∧
      r.monthlyBudgetUsd ≤ periodSpend ledger r.ownerType r.ownerKey start ∧ r.owner = o := by
  unfold exhaustedOwner periodSpend
  cases ownerColumn r.ownerType with
  | none =>
    simp only [reduceCtorEq, false_iff, not_and]
    exact fun hpos hle => absurd hle (not_le.2 hpos)
  | some column =>
    dsimp only
    split_ifs with hpos hle
    · simp [not_lt.2 hpos]
    · simp [hle, not_le.1 hpos]
    · simp [hle]

theorem exhaustedOwner_owner (h : exhaustedOwner ledger start r = some o) : r.owner = o :=
  (exhaustedOwner_eq_some.1 h).2.2

theorem exhausted_shown (hr : r ∈ hardCaps rules)
    (h : exhaustedOwner ledger (monthStart now) r = some o) :
    ∃ b ∈ evaluateBudgets ledger rules now, b.hardCapExhausted = true ∧
      (b.ownerType, b.ownerKey) = o := by
  obtain ⟨hpos, hle, rfl⟩ := exhaustedOwner_eq_some.1 h
  rw [hardCaps, List.mem_filter, Bool.and_eq_true] at hr
  refine ⟨_, List.mem_map.2 ⟨r, List.mem_filter.2 ⟨hr.1, hr.2.1⟩, rfl⟩, ?_, rfl⟩
  simp [BudgetStatus.hardCapExhausted, BudgetStatus.overBudget, hr.2.2, hpos, hle]

theorem periodSpend_append {more : List UsageEvent} (hcost : ∀ e ∈ more, 0 ≤ e.costUsd)
    (ownerType ownerKey : String) :
    periodSpend ledger ownerType ownerKey start ≤
      periodSpend (ledger ++ more) ownerType ownerKey start := by
  unfold periodSpend
  cases ownerColumn ownerType with
  | none => exact le_rfl
  | some column =>
    simp only [spendSince, List.filter_append, List.map_append, List.sum_append]
    refine le_add_of_nonneg_right (List.sum_nonneg fun x hx => ?_)
    obtain ⟨e, he, rfl⟩ := List.mem_map.1 hx
    exact hcost e (List.mem_filter.1 he).1

theorem exhaustedOwner_mono {more : List UsageEvent} (hcost : ∀ e ∈ more, 0 ≤ e.costUsd)
    (h : exhaustedOwner ledger start r = some o) :
    exhaustedOwner (ledger ++ more) start r = some o := by
  obtain ⟨hpos, hle, howner⟩ := exhaustedOwner_eq_some.1 h
  exact exhaustedOwner_eq_some.2 ⟨hpos, hle.trans (periodSpend_append hcost _ _), howner⟩

theorem hardCaps_mono {rules' : List BudgetRule} (h : ∀ r ∈ rules, r ∈ rules')
    (hr : r ∈ hardCaps rules) : r ∈ hardCaps rules' := by
  rw [hardCaps, List.mem_filter] at hr ⊢
  exact ⟨h r hr.1, hr.2⟩

end Exhausted

/-! ## Runs -/

variable [DecidableEq ι] {c : Settings} {num : Numerals} {number : Text → Option (Json × Text)}
  {s : State ι} {past : List (State ι × Input ι)}

/-- Nothing is cached and no lookup is under way. -/
structure Fresh (s : State ι) : Prop where
  store : s.store () = none
  caches : ∀ i, s.caches i () = none
  flights : ∀ l, s.flights l = none

structure Asked (past : List (State ι × Input ι)) (l : ℕ) (began read : State ι × Input ι) :
    Prop where
  order : [began, read].Sublist past
  began : ∃ i reached, began.2 = .lookup l i reached
  read : read.2 = .readRules l true

/-- A sum of the lookup for one of its budgets, which decides whether it is exhausted. -/
def Decided (past : List (State ι × Input ι)) (l : ℕ) (began read : State ι × Input ι)
    (r : BudgetRule) (exhausted : Prop) : Prop :=
  ∃ q, [began, read, q].Sublist past ∧ (∃ answered, q.2 = .sum l r answered) ∧
    (exhausted ↔ exhaustedOwner q.1.ledger (monthStart began.1.now) r = some r.owner)

/-- What a lookup found: the hard caps as one step read them, and each of them exhausted exactly
when the sum of its own later step said so. -/
def Found (past : List (State ι × Input ι)) (caps : Finset (String × String)) : Prop :=
  ∃ l began read, Asked past l began read ∧
    (∀ o ∈ caps, ∃ r ∈ hardCaps read.1.rules.rows, r.owner = o) ∧
    ∀ r ∈ hardCaps read.1.rules.rows, Decided past l began read r (r.owner ∈ caps)

/-- The step that stored an entry of the caps, which expires a lifetime later. -/
def StoredAt (c : Settings) (past : List (State ι × Input ι)) (caps : Finset (String × String))
    (expiresAt : Option ℚ) : Prop :=
  ∃ before q, (before ++ [q]) <+: past ∧ Found before caps ∧
    (∃ l reached, q.2 = .finish l reached) ∧ expiresAt = some (q.1.now + c.ttl)

structure Summing (past : List (State ι × Input ι)) (l : ℕ) (f : Flight ι) (rest : List BudgetRule)
    (began read : State ι × Input ι) : Prop where
  rest_eq : f.rest = some rest
  asked : Asked past l began read
  start : f.start = monthStart began.1.now
  owned : ∀ o ∈ f.exhausted, ∃ r ∈ hardCaps read.1.rules.rows, r.owner = o
  fresh : ∀ r ∈ rest, r.owner ∉ f.exhausted
  left : ∀ r ∈ rest, r ∈ hardCaps read.1.rules.rows
  decided : ∀ r ∈ hardCaps read.1.rules.rows,
    r ∈ rest ∨ Decided past l began read r (r.owner ∈ f.exhausted)

inductive Underway (past : List (State ι × Input ι)) (l : ℕ) (f : Flight ι) : Prop where
  | begun (began : State ι × Input ι) (hmem : began ∈ past)
      (hinput : ∃ i reached, began.2 = .lookup l i reached) (hrest : f.rest = none)
      (hstart : f.start = monthStart began.1.now)
  | summing (rest : List BudgetRule) (began read : State ι × Input ι)
      (h : Summing past l f rest began read)

structure Extends (s s' : State ι) : Prop where
  ledger : ∃ more, s'.ledger = s.ledger ++ more
  rules : ∀ r ∈ s.rules.rows, r ∈ s'.rules.rows
  now : s.now ≤ s'.now

/-- What is cached was found by a lookup, and what is about to be is on its way. -/
structure Known (c : Settings) (num : Numerals) (past : List (State ι × Input ι)) (s : State ι) :
    Prop where
  earlier : ∀ q ∈ past, Extends q.1 s
  store : ∀ raw e, s.store () = some (raw, e) →
    ∃ caps, raw = serializeCaps num caps ∧ StoredAt c past caps e
  caches : ∀ i x e, s.caches i () = some (x, e) →
    ∃ caps, x = owners caps ∧ StoredAt c past caps e
  flights : ∀ l f, s.flights l = some f → Underway past l f

section Invariant

omit [DecidableEq ι]

theorem Extends.refl (s : State ι) : Extends s s := ⟨⟨[], by simp⟩, fun _ h => h, le_rfl⟩

theorem Extends.trans {s t u : State ι} (h : Extends s t) (h' : Extends t u) : Extends s u := by
  obtain ⟨more, hmore⟩ := h.ledger
  obtain ⟨more', hmore'⟩ := h'.ledger
  exact ⟨⟨more ++ more', by rw [hmore', hmore, List.append_assoc]⟩,
    fun r hr => h'.rules r (h.rules r hr), h.now.trans h'.now⟩

variable {l : ℕ} {began read : State ι × Input ι}

theorem Asked.later (h : Asked past l began read) (q : State ι × Input ι) :
    Asked (past ++ [q]) l began read where
  order := h.order.trans (List.sublist_append_left _ _)
  began := h.began
  read := h.read

theorem Decided.later {r : BudgetRule} {p : Prop} (h : Decided past l began read r p)
    (q : State ι × Input ι) : Decided (past ++ [q]) l began read r p := by
  obtain ⟨x, hx, hinput, hiff⟩ := h
  exact ⟨x, hx.trans (List.sublist_append_left _ _), hinput, hiff⟩

theorem StoredAt.later {caps : Finset (String × String)} {e : Option ℚ}
    (h : StoredAt c past caps e) (q : State ι × Input ι) : StoredAt c (past ++ [q]) caps e := by
  obtain ⟨before, x, hprefix, hfound⟩ := h
  exact ⟨before, x, hprefix.trans (List.prefix_append _ _), hfound⟩

theorem Underway.later {f : Flight ι} (h : Underway past l f) (q : State ι × Input ι) :
    Underway (past ++ [q]) l f := by
  cases h with
  | begun began hmem hinput hrest hstart =>
    exact .begun began (List.mem_append_left _ hmem) hinput hrest hstart
  | summing rest began read h =>
    refine .summing rest began read { h with
      asked := h.asked.later q
      decided := fun r hr => ?_ }
    rcases h.decided r hr with hleft | hdecided
    · exact .inl hleft
    · exact .inr (hdecided.later q)

theorem Summing.found {f : Flight ι} (h : Summing past l f [] began read) :
    Found past f.exhausted := by
  refine ⟨l, began, read, h.asked, h.owned, fun r hr => ?_⟩
  rcases h.decided r hr with hleft | hdecided
  · exact absurd hleft List.not_mem_nil
  · exact hdecided

theorem known_fresh (h : Fresh s) : Known c num [] s where
  earlier _ hq := absurd hq List.not_mem_nil
  store _ _ hs := by rw [h.store] at hs; cases hs
  caches i _ _ hs := by rw [h.caches i] at hs; cases hs
  flights l _ hs := by rw [h.flights l] at hs; cases hs

theorem Known.quiet {s' : State ι} (h : Known c num past s) (a : Input ι) (hext : Extends s s')
    (hstore : ∀ x, s'.store () = some x → s.store () = some x)
    (hcaches : ∀ i x, s'.caches i () = some x → s.caches i () = some x)
    (hflights : ∀ l x, s'.flights l = some x → s.flights l = some x) :
    Known c num (past ++ [(s, a)]) s' where
  earlier q hq := by
    rcases List.mem_append.1 hq with hq | hq
    · exact (h.earlier q hq).trans hext
    · rw [List.mem_singleton.1 hq]
      exact hext
  store raw e hs := by
    obtain ⟨caps, hraw, hstored⟩ := h.store raw e (hstore _ hs)
    exact ⟨caps, hraw, hstored.later _⟩
  caches i x e hs := by
    obtain ⟨caps, hx, hstored⟩ := h.caches i x e (hcaches i _ hs)
    exact ⟨caps, hx, hstored.later _⟩
  flights l f hs := (h.flights l f (hflights _ _ hs)).later _

theorem Known.same (h : Known c num past s) (a : Input ι) : Known c num (past ++ [(s, a)]) s :=
  h.quiet a (.refl s) (fun _ h => h) (fun _ _ h => h) fun _ _ h => h

theorem Known.fly (h : Known c num past s) {f : Flight ι} (hf : Underway past l f) :
    Known c num past (s.fly l f) where
  earlier q hq := ⟨(h.earlier q hq).ledger, (h.earlier q hq).rules, (h.earlier q hq).now⟩
  store := h.store
  caches := h.caches
  flights l' f' hs := by
    by_cases hne : l' = l
    · subst hne
      simp only [State.fly, Function.update_self, Option.some.injEq] at hs
      exact hs ▸ hf
    · simp only [State.fly, Function.update_of_ne hne] at hs
      exact h.flights l' f' hs

theorem Known.land (h : Known c num past s) (l : ℕ) : Known c num past (s.land l) where
  earlier q hq := ⟨(h.earlier q hq).ledger, (h.earlier q hq).rules, (h.earlier q hq).now⟩
  store := h.store
  caches := h.caches
  flights l' f' hs := by
    by_cases hne : l' = l
    · subst hne
      simp only [State.land, Function.update_self] at hs
      cases hs
    · simp only [State.land, Function.update_of_ne hne] at hs
      exact h.flights l' f' hs

theorem update_none {f : ι → Store Unit Caps ℚ} [DecidableEq ι] {i j : ι} {x : Caps × Option ℚ}
    (h : Function.update f i (delete (f i) ()) j () = some x) : f j () = some x := by
  by_cases hj : j = i
  · subst hj
    rw [Function.update_self] at h
    exact delete_eq_some h
  · rwa [Function.update_of_ne hj] at h

theorem Underway.readRules {i : ι} {start : ℚ} {caps : Finset (String × String)}
    (h : Underway past l ⟨i, start, none, caps⟩) :
    Underway (past ++ [(s, .readRules l true)]) l
      ⟨i, start, some (hardCaps s.rules.rows), ∅⟩ := by
  cases h with
  | begun began hmem hinput hrest hstart =>
    refine .summing (hardCaps s.rules.rows) began (s, .readRules l true)
      ⟨rfl, ⟨?_, hinput, rfl⟩, hstart, ?_, ?_, fun r hr => hr, fun r hr => .inl hr⟩
    · exact (List.singleton_sublist.2 hmem).append (List.Sublist.refl [_])
    · exact fun o ho => absurd ho (Finset.notMem_empty o)
    · exact fun r _ => Finset.notMem_empty r.owner
  | summing rest began read h => cases h.rest_eq

theorem Underway.sum {i : ι} {start : ℚ} {rest : List BudgetRule} {r : BudgetRule}
    {caps : Finset (String × String)} (h : Underway past l ⟨i, start, some rest, caps⟩)
    (hr : r ∈ rest) (answered : Bool) :
    Underway (past ++ [(s, .sum l r answered)]) l ⟨i, start, some (rest.filter (· ≠ r)),
      (exhaustedOwner s.ledger start r).elim caps (insert · caps)⟩ := by
  cases h with
  | begun began hmem hinput hrest hstart => cases hrest
  | summing rest' began read h =>
    obtain rfl := Option.some.inj h.rest_eq
    have hmem : ∀ x ∈ hardCaps read.1.rules.rows, x ≠ r → x.owner ≠ r.owner := by
      intro x hx hne howner
      exact hne (Table.eq_of_key_eq (List.mem_filter.1 hx).1
        (List.mem_filter.1 (h.left r hr)).1 howner)
    have hcaps : ∀ o, o ∈ (exhaustedOwner s.ledger start r).elim caps (insert · caps) ↔
        o ∈ caps ∨ (o = r.owner ∧ exhaustedOwner s.ledger start r = some r.owner) := by
      intro o
      cases hsum : exhaustedOwner s.ledger start r with
      | none => simp
      | some x =>
        obtain rfl := exhaustedOwner_owner hsum
        simp [or_comm]
    refine .summing _ began read
      ⟨rfl, h.asked.later _, h.start, fun o ho => ?_, fun x hx hin => ?_, fun x hx => ?_,
        fun x hx => ?_⟩
    · rcases (hcaps o).1 ho with ho | ⟨rfl, -⟩
      · exact h.owned o ho
      · exact ⟨r, h.left r hr, rfl⟩
    · obtain ⟨hrest, hne⟩ := List.mem_filter.1 hx
      rcases (hcaps _).1 hin with hin | ⟨howner, -⟩
      · exact h.fresh x hrest hin
      · exact hmem x (h.left x hrest) (of_decide_eq_true hne) howner
    · exact h.left x (List.mem_filter.1 hx).1
    · by_cases hne : x = r
      · subst hne
        refine .inr ⟨(s, .sum l x answered), ?_, ⟨answered, rfl⟩, ?_⟩
        · exact h.asked.order.append (List.Sublist.refl [_])
        · rw [hcaps, ← h.start]
          exact ⟨fun hin => (hin.resolve_left (h.fresh x hr)).2, fun hsum => .inr ⟨rfl, hsum⟩⟩
      · rcases h.decided x hx with hleft | ⟨q, hq, hinput, hiff⟩
        · exact .inl (List.mem_filter.2 ⟨hleft, decide_eq_true hne⟩)
        · refine .inr ⟨q, hq.trans (List.sublist_append_left _ _), hinput, ?_⟩
          rw [← hiff, hcaps]
          exact ⟨fun hin => hin.resolve_right fun hin => hmem x hx hne hin.1, .inl⟩

end Invariant

theorem cached_frame (s : State ι) (i : ι) (reached : Bool) :
    Extends s (cached c number s i reached).2 ∧
      (∀ x, (cached c number s i reached).2.store () = some x → s.store () = some x) ∧
      (∀ j x, (cached c number s i reached).2.caches j () = some x → s.caches j () = some x) ∧
      (cached c number s i reached).2.flights = s.flights := by
  unfold cached
  split_ifs
  · exact ⟨⟨⟨[], by simp⟩, fun _ h => h, le_rfl⟩, fun x hx => get_eq_some hx, fun _ _ h => h, rfl⟩
  · exact ⟨.refl s, fun _ h => h, fun _ _ h => h, rfl⟩
  · refine ⟨⟨⟨[], by simp⟩, fun _ h => h, le_rfl⟩, fun _ h => h, fun j x hx => ?_, rfl⟩
    by_cases hj : j = i
    · subst hj
      simp only [Function.update_self] at hx
      exact get_eq_some hx
    · simpa only [Function.update_of_ne hj] using hx

theorem Known.fill (h : Known c num past s) {l : ℕ} {i : ι} {caps : Finset (String × String)}
    (hfound : Found past caps) (reached : Bool) :
    Known c num (past ++ [(s, .finish l reached)]) (fill c num s i caps reached) := by
  have hnew : StoredAt c (past ++ [(s, .finish l reached)]) caps (some (s.now + c.ttl)) :=
    ⟨past, _, List.prefix_refl _, hfound, ⟨l, reached, rfl⟩, rfl⟩
  have hsame := h.same (.finish l reached)
  have hext : ∀ q ∈ past ++ [(s, .finish l reached)],
      Extends q.1 (BudgetCaps.fill c num s i caps reached) := by
    intro q hq
    obtain ⟨hledger, hrules, hnow⟩ := hsame.earlier q hq
    unfold BudgetCaps.fill
    split_ifs <;> exact ⟨hledger, hrules, hnow⟩
  unfold BudgetCaps.fill at hext ⊢
  split_ifs at hext ⊢
  · refine ⟨hext, fun raw e hs => ?_, hsame.caches, hsame.flights⟩
    rcases set_eq_some hs with heq | hold
    · obtain ⟨rfl, rfl⟩ := Prod.mk.inj heq
      exact ⟨caps, rfl, hnew⟩
    · exact hsame.store raw e hold
  · exact hsame
  · refine ⟨hext, hsame.store, fun j x e hs => ?_, hsame.flights⟩
    by_cases hj : j = i
    · subst hj
      simp only [Function.update_self] at hs
      rcases set_eq_some hs with heq | hold
      · obtain ⟨rfl, rfl⟩ := Prod.mk.inj heq
        exact ⟨caps, rfl, hnew⟩
      · exact hsame.caches j x e hold
    · simp only [Function.update_of_ne hj] at hs
      exact hsame.caches j x e hs

theorem Known.step (h : Known c num past s) (a : Input ι) :
    Known c num (past ++ [(s, a)]) (step c num number s a) := by
  have hsame : Known c num (past ++ [(s, a)]) s := h.same a
  unfold BudgetCaps.step
  cases a with
  | spend e =>
    exact h.quiet _ ⟨⟨[e], rfl⟩, fun _ h => h, le_rfl⟩ (fun _ h => h) (fun _ _ h => h)
      fun _ _ h => h
  | createRule r =>
    simp only [answer]
    cases hadd : s.rules.add r with
    | none => exact hsame
    | some rules =>
      obtain ⟨hnone, rfl⟩ := Table.add_eq_some.1 hadd
      refine h.quiet _ ⟨⟨[], by simp⟩, fun x hx => ?_, le_rfl⟩ (fun _ h => h) (fun _ _ h => h)
        fun _ _ h => h
      have hrows : (s.rules.put r).rows = s.rules.rows ++ [r] := Table.put_rows_new hnone
      exact hrows ▸ List.mem_append_left _ hx
  | clear i reached =>
    refine h.quiet _ ⟨⟨[], by simp [answer]⟩, fun _ h => h, le_rfl⟩ (fun x hx => ?_)
      (fun j x hx => update_none hx) fun _ _ h => h
    simp only [answer] at hx
    split_ifs at hx
    · exact delete_eq_some hx
    · exact hx
  | evict i =>
    exact h.quiet _ ⟨⟨[], by simp [answer]⟩, fun _ h => h, le_rfl⟩ (fun _ h => h)
      (fun j x hx => update_none hx) fun _ _ h => h
  | lose =>
    refine h.quiet _ ⟨⟨[], by simp [answer]⟩, fun _ h => h, le_rfl⟩ (fun x hx => ?_)
      (fun _ _ h => h) fun _ _ h => h
    exact delete_eq_some (k := ()) hx
  | pass d =>
    exact h.quiet _ ⟨⟨[], by simp [answer]⟩, fun _ h => h, le_add_of_nonneg_right d.2⟩
      (fun _ h => h) (fun _ _ h => h) fun _ _ h => h
  | lookup l i reached =>
    obtain ⟨hext, hstore, hcaches, hflights⟩ := @cached_frame ι _ c number s i reached
    have hquiet := h.quiet (.lookup l i reached) hext hstore hcaches fun l x hx => hflights ▸ hx
    simp only [answer]
    cases c.enabled with
    | false => exact hsame
    | true =>
      simp only [Bool.not_true, Bool.false_eq_true, if_false]
      cases hfound : (cached c number s i reached).1 with
      | some caps => exact hquiet
      | none =>
        exact hquiet.fly (.begun (s, _) (List.mem_append_right _ (List.mem_singleton_self _))
          ⟨i, reached, rfl⟩ rfl rfl)
  | readRules l answered =>
    simp only [answer]
    split
    · next i start caps hl =>
      cases answered with
      | true => exact hsame.fly (h.flights l _ hl).readRules
      | false => exact hsame.land l
    · exact hsame
  | sum l r answered =>
    simp only [answer]
    split
    · next i start rest caps hl =>
      split_ifs with hr
      · exact hsame.land l
      · exact hsame.fly ((h.flights l _ hl).sum hr answered)
      · exact hsame
    · exact hsame
  | finish l reached =>
    simp only [answer]
    split
    · next i start caps hl =>
      have hfound : Found past caps := by
        cases h.flights l _ hl with
        | begun began hmem hinput hrest hstart => cases hrest
        | summing rest began read hsum =>
          obtain rfl := Option.some.inj hsum.rest_eq
          exact hsum.found
      exact (h.fill hfound reached).land l
    · exact hsame

theorem known_run (h : Fresh s) (as : List (Input ι)) :
    Known c num (steps (step c num number) s as) (final (step c num number) s as) := by
  have hstep : ∀ past (s : State ι) a, True → Known c num past s →
      Known c num (past ++ [(s, a)]) (step c num number s a) := fun _ _ a _ h => h.step a
  exact Machine.Runs.history hstep (known_fresh h) fun _ _ => trivial

theorem Known.cached (h : Known c num past s) {i : ι} {reached : Bool} {x : Caps}
    (hx : (cached c number s i reached).1 = some x) :
    ∃ caps e, x = owners caps ∧ StoredAt c past caps e ∧ e.any (· ≤ s.now) = false := by
  unfold BudgetCaps.cached at hx
  split_ifs at hx
  · obtain ⟨raw, hraw, hread⟩ := Option.bind_eq_some_iff.1 hx
    rw [get_fst] at hraw
    obtain ⟨e, hstore, hlive⟩ := entry_of_live hraw
    obtain ⟨caps, rfl, hstored⟩ := h.store raw e hstore
    rw [deserializeCaps_serializeCaps] at hread
    exact ⟨caps, e, (Option.some.inj hread).symm, hstored, hlive⟩
  · rw [get_fst] at hx
    obtain ⟨e, hcache, hlive⟩ := entry_of_live hx
    obtain ⟨caps, rfl, hstored⟩ := h.caches i x e hcache
    exact ⟨caps, e, rfl, hstored, hlive⟩

/-- In any run of any instances, each answer a request gets on the hot path is empty, because the
check is off or failed open, or it is what one lookup of the run found: the request's own, or one
that stored it less than a lifetime ago. -/
theorem caps_from_ledger (c : Settings) (num : Numerals) (number : Text → Option (Json × Text))
    {s : State ι} (h : Fresh s) (as : List (Input ι)) (a : Input ι) {caps : Caps}
    (hret : returned c num number (final (step c num number) s as) a = some caps) :
    caps = [] ∨ ∃ found before, caps = owners found ∧ Found before found ∧
      ((before = steps (step c num number) s as ∧ ∃ l reached, a = .finish l reached) ∨
        ∃ q, (before ++ [q]) <+: steps (step c num number) s as ∧
          (∃ l reached, q.2 = .finish l reached) ∧
          (final (step c num number) s as).now < q.1.now + c.ttl) := by
  have hknown : Known c num (steps (step c num number) s as) (final (step c num number) s as) :=
    known_run h as
  unfold returned at hret
  cases a with
  | lookup l i reached =>
    simp only [answer] at hret
    cases hen : c.enabled with
    | false =>
      simp only [hen, Bool.not_false, if_true, Option.some.injEq] at hret
      exact .inl hret.symm
    | true =>
      simp only [hen, Bool.not_true, Bool.false_eq_true, if_false] at hret
      cases hfound : (cached c number (final (step c num number) s as) i reached).1 with
      | none =>
        simp only [hfound] at hret
        cases hret
      | some x =>
        simp only [hfound, Option.some.injEq] at hret
        obtain ⟨found, e, hx, ⟨before, q, hprefix, hfrom, hq, rfl⟩, hlive⟩ :=
          hknown.cached hfound
        refine .inr ⟨found, before, hret ▸ hx, hfrom, .inr ⟨q, hprefix, hq, ?_⟩⟩
        simpa using hlive
  | readRules l answered =>
    simp only [answer] at hret
    split at hret
    · cases answered with
      | true => cases hret
      | false => exact .inl (Option.some.inj hret).symm
    · cases hret
  | sum l r answered =>
    simp only [answer] at hret
    split at hret
    · split_ifs at hret
      · exact .inl (Option.some.inj hret).symm
    · cases hret
  | finish l reached =>
    simp only [answer] at hret
    split at hret
    · next i start found hl =>
      cases hknown.flights l _ hl with
      | begun began hmem hinput hrest hstart => cases hrest
      | summing rest began read hsum =>
        obtain rfl := Option.some.inj hsum.rest_eq
        exact .inr ⟨found, _, (Option.some.inj hret).symm, hsum.found, .inl ⟨rfl, l, reached, rfl⟩⟩
    · cases hret
  | _ => cases hret

/-! ## Blocked requests -/

/-- Nothing that was spent had a negative cost. -/
def Costly : Input ι → Prop
  | .spend e => 0 ≤ e.costUsd
  | _ => True

theorem ledger_fill {i : ι} {caps : Finset (String × String)} {reached : Bool} :
    (fill c num s i caps reached).ledger = s.ledger := by
  unfold fill
  split_ifs <;> rfl

theorem ledger_cached {i : ι} {reached : Bool} :
    (cached c number s i reached).2.ledger = s.ledger := by
  unfold cached
  split_ifs <;> rfl

theorem ledger_step (a : Input ι) (ha : Costly a) :
    ∃ more, (step c num number s a).ledger = s.ledger ++ more ∧ ∀ e ∈ more, 0 ≤ e.costUsd := by
  have hsame : ∀ s' : State ι, s'.ledger = s.ledger →
      ∃ more, s'.ledger = s.ledger ++ more ∧ ∀ e ∈ more, 0 ≤ e.costUsd :=
    fun s' hs => ⟨[], by rw [hs, List.append_nil], List.forall_mem_nil _⟩
  unfold step
  cases a with
  | spend e =>
    refine ⟨[e], rfl, fun x hx => ?_⟩
    rw [List.mem_singleton.1 hx]
    exact ha
  | createRule r =>
    refine hsame _ ?_
    simp only [answer]
    cases s.rules.add r <;> rfl
  | lookup l i reached =>
    refine hsame _ ?_
    simp only [answer]
    cases c.enabled with
    | false => rfl
    | true => cases hfound : (cached c number s i reached).1 <;> exact ledger_cached
  | readRules l answered =>
    refine hsame _ ?_
    simp only [answer]
    split
    · cases answered <;> rfl
    · rfl
  | sum l r answered =>
    refine hsame _ ?_
    simp only [answer]
    split
    · split_ifs <;> rfl
    · rfl
  | finish l reached =>
    refine hsame _ ?_
    simp only [answer]
    split
    · exact ledger_fill
    · rfl
  | _ => exact hsame _ rfl

theorem ledger_run {as : List (Input ι)} (has : ∀ a ∈ as, Costly a) :
    ∀ q ∈ steps (step c num number) s as, ∃ more,
      (final (step c num number) s as).ledger = q.1.ledger ++ more ∧
        ∀ e ∈ more, 0 ≤ e.costUsd := by
  have hstep : ∀ past (s : State ι) a, Costly a →
      (∀ q ∈ past, ∃ more, s.ledger = q.1.ledger ++ more ∧ ∀ e ∈ more, 0 ≤ e.costUsd) →
      ∀ q ∈ past ++ [(s, a)], ∃ more, (step c num number s a).ledger = q.1.ledger ++ more ∧
        ∀ e ∈ more, 0 ≤ e.costUsd := by
    intro past s a ha hpast q hq
    obtain ⟨more, hmore, hcost⟩ := @ledger_step ι _ c num number s a ha
    rcases List.mem_append.1 hq with hq | hq
    · obtain ⟨more', hmore', hcost'⟩ := hpast q hq
      refine ⟨more' ++ more, by rw [hmore, hmore', List.append_assoc], fun e he => ?_⟩
      rcases List.mem_append.1 he with he | he
      · exact hcost' e he
      · exact hcost e he
    · rw [List.mem_singleton.1 hq]
      exact ⟨more, hmore, hcost⟩
  have hstart : ∀ q ∈ ([] : List (State ι × Input ι)), ∃ more,
      s.ledger = q.1.ledger ++ more ∧ ∀ e ∈ more, 0 ≤ e.costUsd := List.forall_mem_nil _
  exact Machine.Runs.history hstep hstart (Machine.Runs.input_of_steps has)

/-- Within a month, a request is blocked only for an owner it is tagged with whose hard cap the
guardrails show exhausted at that moment, however old the cached caps are and whoever shared
them. -/
theorem blocked_is_exhausted (c : Settings) (num : Numerals)
    (number : Text → Option (Json × Text)) {s : State ι} (h : Fresh s) {as : List (Input ι)}
    (has : ∀ a ∈ as, Costly a)
    (hmonth : ∀ q ∈ steps (step c num number) s as,
      monthStart (final (step c num number) s as).now = monthStart q.1.now)
    (a : Input ι) {caps : Caps}
    (hret : returned c num number (final (step c num number) s as) a = some caps)
    (ctx : Option RequestContext) {cap : Json × Json} (hcap : matchedCap caps ctx = some cap) :
    let s' := final (step c num number) s as
    ∃ b ∈ evaluateBudgets s'.ledger s'.rules.rows s'.now, b.hardCapExhausted = true ∧
      cap = (.str b.ownerType, .str b.ownerKey) ∧
      ∃ x, ctx = some x ∧ ownerValue x (.str b.ownerType) = some b.ownerKey := by
  intro s'
  have hknown : Known c num (steps (step c num number) s as) s' := known_run h as
  obtain ⟨hmem, x, v, hx, hvalue, -, hkey⟩ := matchedCap_eq_some hcap
  rcases caps_from_ledger c num number h as a hret with rfl | ⟨found, before, rfl, hfound, hwhen⟩
  · exact absurd hmem List.not_mem_nil
  · have hbefore : before.Sublist (steps (step c num number) s as) := by
      rcases hwhen with ⟨rfl, -⟩ | ⟨q, hprefix, -⟩
      · exact .refl _
      · exact (List.sublist_append_left _ _).trans hprefix.sublist
    obtain ⟨o, ho, rfl⟩ := mem_owners.1 hmem
    obtain ⟨l, began, read, hasked, howned, hdecided⟩ := hfound
    obtain ⟨r, hr, rfl⟩ := howned o ho
    obtain ⟨q, hq, -, hiff⟩ := hdecided r hr
    have hsteps := (hq.trans hbefore).subset
    have hq' := hsteps (show q ∈ [began, read, q] by simp)
    have hread := hknown.earlier read (hsteps (by simp))
    obtain ⟨more, hledger, hcost⟩ := ledger_run (c := c) has q hq'
    have hsum : exhaustedOwner s'.ledger (monthStart s'.now) r = some r.owner := by
      rw [show s'.ledger = q.1.ledger ++ more from hledger,
        show monthStart s'.now = monthStart began.1.now from hmonth began (hsteps (by simp))]
      exact exhaustedOwner_mono hcost (hiff.1 ho)
    obtain ⟨b, hb, hexhausted, howner⟩ :=
      exhausted_shown (hardCaps_mono hread.rules hr) hsum
    rw [← howner] at hkey hvalue ⊢
    obtain rfl := Json.str.inj hkey
    exact ⟨b, hb, hexhausted, rfl, x, hx, hvalue⟩

/-! ## A team over its cap -/

def noFloats : Numerals := ⟨fun _ => ['1'], fun _ => rfl⟩

def noNumbers : Text → Option (Json × Text) := fun _ => none

def sharedCaps : Settings := ⟨true, true, 60⟩

def newMonth : State ℕ := ⟨[], Table.empty, 0, fun _ => none, fun _ _ => none, fun _ => none⟩

theorem fresh_newMonth : Fresh newMonth := ⟨rfl, fun _ => rfl, fun _ => rfl⟩

def overspent : List (Input ℕ) :=
  [.createRule ⟨"team", "core", 10, true, true⟩, .lookup 0 0 true, .readRules 0 true,
    .spend ⟨some "core", none, none, 12, 0⟩, .sum 0 ⟨"team", "core", 10, true, true⟩ true]

theorem overspent_flight :
    ((final (step sharedCaps noFloats noNumbers) newMonth overspent).flights 0).map
        (fun f => (f.rest, f.exhausted)) = some (some [], {("team", "core")}) := by
  decide +kernel

theorem overspent_returned :
    returned sharedCaps noFloats noNumbers
        (final (step sharedCaps noFloats noNumbers) newMonth overspent) (.finish 0 true) =
      some [(.str "team", .str "core")] := by
  have howners : owners {("team", "core")} = [(Json.str "team", Json.str "core")] := by
    simp [owners]
  obtain ⟨⟨i, start, rest, caps⟩, hf, heq⟩ := Option.map_eq_some_iff.1 overspent_flight
  obtain ⟨rfl, rfl⟩ := Prod.mk.inj heq
  simp only [returned, answer, hf, howners]

theorem overspent_found :
    ∃ (found : Finset (String × String)) (before : List (State ℕ × Input ℕ)),
      [(Json.str "team", Json.str "core")] = owners found ∧ Found before found ∧
        before.length ≤ 5 := by
  rcases caps_from_ledger sharedCaps noFloats noNumbers fresh_newMonth overspent (.finish 0 true)
    overspent_returned with h | ⟨found, before, h, hfound, hwhen⟩
  · cases h
  · refine ⟨found, before, h, hfound, ?_⟩
    rcases hwhen with ⟨rfl, -⟩ | ⟨q, hprefix, -⟩
    · exact le_rfl
    · exact (by simp : before.length ≤ (before ++ [q]).length).trans hprefix.length_le

theorem overspent_blocked :
    ∃ b ∈ evaluateBudgets [⟨some "core", none, none, 12, 0⟩] [⟨"team", "core", 10, true, true⟩] 0,
      b.hardCapExhausted = true := by
  have hcosts : ∀ a ∈ overspent, Costly a := by
    simp [overspent, Costly]
  have hmonth : ∀ q ∈ steps (step sharedCaps noFloats noNumbers) newMonth overspent,
      monthStart (final (step sharedCaps noFloats noNumbers) newMonth overspent).now =
        monthStart q.1.now := by
    intro q hq
    simp only [overspent, steps, List.mem_cons, List.not_mem_nil, or_false] at hq
    rcases hq with rfl | rfl | rfl | rfl | rfl <;> rfl
  have hcap : matchedCap [(.str "team", .str "core")] (some ⟨some "core", none, none⟩) =
      some (Json.str "team", Json.str "core") := by decide +kernel
  obtain ⟨b, hb, hexhausted, -⟩ := blocked_is_exhausted sharedCaps noFloats noNumbers
    fresh_newMonth hcosts hmonth (.finish 0 true) overspent_returned _ hcap
  exact ⟨b, hb, hexhausted⟩

end Varsten.Proxy.BudgetCaps
