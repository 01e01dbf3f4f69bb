import Varsten.Machine.Runs
import Varsten.Machine.TtlStore
import Varsten.Proxy.Circuit

/-!
# The breakers of a fleet

Every instance has its own breakers, and all share the store that a trip publishes its open
flag to.
-/

namespace Varsten.Proxy.CircuitFleet

open Machine (Runs.steps Runs.final)
open Machine.TtlStore
open Circuit (CircuitBreaker CircuitState CircuitView Settings)

abbrev SharedStore := Store String String ℚ

def openPrefix : String := "circuit:open:"

def flagKey (key : String) : String := openPrefix ++ key

theorem flagKey_inj {k l : String} : flagKey k = flagKey l ↔ k = l :=
  String.append_right_inj openPrefix

theorem flagKey_ne {k l : String} (h : k ≠ l) : flagKey k ≠ flagKey l := mt flagKey_inj.1 h

def sharedOpen (store : SharedStore) (key : String) (now : ℚ) : Bool × SharedStore :=
  let (flag, store) := get store (flagKey key) now
  (flag.isSome, store)

def sharedSetOpen (s : Settings) (store : SharedStore) (key : String) (now : ℚ) : SharedStore :=
  set store (flagKey key) "1" (some s.resetSeconds) now

def sharedClearOpen (store : SharedStore) (key : String) : SharedStore :=
  delete store (flagKey key)

def allow (s : Settings) (key : String) (now : ℚ) (b : CircuitBreaker) (store : SharedStore) :
    Bool × CircuitBreaker × SharedStore :=
  if !s.enabled then (true, b, store)
  else
    let (isOpen, store) := sharedOpen store key now
    if isOpen then (false, b, store)
    else if b.state = .opened then
      if now - b.openedAt ≥ s.resetSeconds then (true, { b with state := .halfOpen }, store)
      else (false, b, store)
    else (true, b, store)

def recordSuccess (key : String) (b : CircuitBreaker) (store : SharedStore) :
    CircuitBreaker × SharedStore :=
  ({ b with state := .closed, failures := 0 }, sharedClearOpen store key)

def tripped (s : Settings) (b : CircuitBreaker) : Bool :=
  b.state = .halfOpen ∨ (b.failures + 1 : ℕ) ≥ s.failThreshold

def recordFailure (s : Settings) (key : String) (now : ℚ) (b : CircuitBreaker)
    (store : SharedStore) : CircuitBreaker × SharedStore :=
  if tripped s b then (⟨.opened, b.failures + 1, now⟩, sharedSetOpen s store key now)
  else ({ b with failures := b.failures + 1 }, store)

/-! ## One breaker and its flag -/

def Shows (store : SharedStore) (key : String) (now : ℚ) (openUntil : Option ℚ) : Prop :=
  ∀ later, now ≤ later →
    (live store (flagKey key) later).isSome = openUntil.any fun t => later < t

section View

variable {s : Settings} {key : String} {now : ℚ} {b : CircuitBreaker} {store : SharedStore}
  {openUntil : Option ℚ}

theorem Shows.mono {later : ℚ} (h : Shows store key now openUntil) (hle : now ≤ later) :
    Shows store key later openUntil := fun u hu => h u (hle.trans hu)

theorem sharedOpen_fst (h : Shows store key now openUntil) :
    (sharedOpen store key now).1 = openUntil.any fun t => now < t := by
  rw [← h now le_rfl, ← get_fst]
  rfl

theorem Shows.sharedOpen (h : Shows store key now openUntil) :
    Shows (sharedOpen store key now).2 key now openUntil := fun later hle => by
  rw [← h later hle]
  exact congrArg _ (live_get hle)

theorem allow_view (hshared : s.sharedStore = true) (h : Shows store key now openUntil) :
    (allow s key now b store).1 = (Circuit.allow s now ⟨b, openUntil⟩).1 ∧
      (allow s key now b store).2.1 = (Circuit.allow s now ⟨b, openUntil⟩).2.breaker ∧
      Shows (allow s key now b store).2.2 key now
        (Circuit.allow s now ⟨b, openUntil⟩).2.openUntil := by
  have hflag : Circuit.sharedOpen s ⟨b, openUntil⟩ now = (sharedOpen store key now).1 := by
    rw [sharedOpen_fst h, Circuit.sharedOpen, hshared, Bool.true_and]
  have hstore := h.sharedOpen
  rw [allow, Circuit.allow, hflag]
  generalize sharedOpen store key now = read at hstore ⊢
  obtain ⟨isOpen, store'⟩ := read
  dsimp only at hstore ⊢
  cases s.enabled with
  | false => exact ⟨rfl, rfl, h⟩
  | true =>
    cases isOpen with
    | true => exact ⟨rfl, rfl, hstore⟩
    | false =>
      simp only [Bool.not_true, Bool.false_eq_true, if_false]
      split_ifs <;> exact ⟨rfl, rfl, hstore⟩

theorem recordSuccess_view :
    (recordSuccess key b store).1 = (Circuit.recordSuccess ⟨b, openUntil⟩).breaker ∧
      Shows (recordSuccess key b store).2 key now
        (Circuit.recordSuccess ⟨b, openUntil⟩).openUntil :=
  ⟨rfl, fun _ _ => congrArg Option.isSome (live_of_none delete_self)⟩

theorem recordFailure_view (hshared : s.sharedStore = true) (h : Shows store key now openUntil) :
    (recordFailure s key now b store).1 = (Circuit.recordFailure s now ⟨b, openUntil⟩).breaker ∧
      Shows (recordFailure s key now b store).2 key now
        (Circuit.recordFailure s now ⟨b, openUntil⟩).openUntil := by
  rw [recordFailure, Circuit.recordFailure, tripped]
  simp only [decide_eq_true_eq]
  split_ifs
  · refine ⟨rfl, fun later hle => ?_⟩
    have hlive : live (sharedSetOpen s store key now) (flagKey key) later =
        if later < now + s.resetSeconds then some "1" else none := live_set_self hle
    rw [hlive]
    split_ifs with hyoung <;> simp [hyoung]
  · exact ⟨rfl, h⟩

end View

/-! ## Runs of the fleet -/

section Fleet

variable {ι : Type}

structure Fleet (ι : Type) where
  breakers : ι → String → CircuitBreaker
  store : SharedStore

inductive Call where
  | allow
  | recordSuccess
  | recordFailure
deriving DecidableEq

/-- A call on an instance's breaker of a key. -/
structure Op (ι : Type) where
  process : ι
  key : String
  now : ℚ
  call : Call

/-- Whether an instance lets a request at a time through. -/
def Fleet.allows (s : Settings) (f : Fleet ι) (i : ι) (key : String) (now : ℚ) : Bool :=
  (allow s key now (f.breakers i key) f.store).1

def Flagged (store : SharedStore) (key : String) (now expiry : ℚ) : Prop :=
  ∀ later, now ≤ later → later < expiry → (live store (flagKey key) later).isSome = true

section Requests

variable {s : Settings} {key : String} {f : Fleet ι} {now expiry : ℚ}

theorem allows_flagged (henabled : s.enabled = true) (h : Flagged f.store key now expiry)
    (hnow : now < expiry) (i : ι) : f.allows s i key now = false := by
  have hopen : (sharedOpen f.store key now).1 = true := by
    rw [← h now le_rfl hnow, ← get_fst]
    rfl
  rw [Fleet.allows, allow, henabled]
  generalize sharedOpen f.store key now = read at hopen ⊢
  obtain ⟨isOpen, store⟩ := read
  obtain rfl : isOpen = true := hopen
  rfl

theorem allows_cleared (henabled : s.enabled = true) (h : f.store (flagKey key) = none) {i : ι}
    (hopen : (f.breakers i key).state ≠ .opened) : f.allows s i key now = true := by
  have hread : sharedOpen f.store key now = (false, f.store) := by
    rw [sharedOpen, Machine.TtlStore.get, h]
    rfl
  rw [Fleet.allows, allow, henabled, hread]
  simp [hopen]

end Requests

variable [DecidableEq ι]

def Fleet.put (f : Fleet ι) (i : ι) (key : String) (r : CircuitBreaker × SharedStore) : Fleet ι :=
  ⟨Function.update f.breakers i (Function.update (f.breakers i) key r.1), r.2⟩

def Fleet.run (s : Settings) (f : Fleet ι) (op : Op ι) : CircuitBreaker × SharedStore :=
  let b := f.breakers op.process op.key
  match op.call with
  | .allow => (allow s op.key op.now b f.store).2
  | .recordSuccess => recordSuccess op.key b f.store
  | .recordFailure => recordFailure s op.key op.now b f.store

def step (s : Settings) (f : Fleet ι) (op : Op ι) : Fleet ι :=
  f.put op.process op.key (f.run s op)

/-- The call trips the circuit of a key. -/
def Trips (s : Settings) (key : String) (f : Fleet ι) (op : Op ι) : Prop :=
  op.key = key ∧ op.call = .recordFailure ∧ tripped s (f.breakers op.process op.key) = true

def Succeeds (key : String) (op : Op ι) : Prop := op.key = key ∧ op.call = .recordSuccess

variable {s : Settings} {key : String} {f : Fleet ι} {op : Op ι} {now expiry : ℚ}

theorem store_allow (b : CircuitBreaker) (store : SharedStore) :
    (allow s key now b store).2.2 = store ∨
      (allow s key now b store).2.2 = (get store (flagKey key) now).2 := by
  have hget : (sharedOpen store key now).2 = (get store (flagKey key) now).2 := rfl
  rw [← hget, allow]
  obtain ⟨isOpen, store'⟩ := sharedOpen store key now
  split_ifs
  · exact .inl rfl
  all_goals
    dsimp only
    split_ifs <;> exact .inr rfl

theorem Flagged.step (h : Flagged f.store key now expiry) (hnow : now ≤ op.now)
    (hsuccess : ¬ Succeeds key op) (huntil : expiry ≤ op.now + s.resetSeconds) :
    Flagged (step s f op).store key op.now expiry := by
  intro later hle hlate
  have hbefore := h later (hnow.trans hle) hlate
  change (live (f.run s op).2 (flagKey key) later).isSome = true
  rw [Fleet.run]
  cases hcall : op.call with
  | allow =>
    dsimp only
    rcases store_allow (s := s) (f.breakers op.process op.key) f.store with hstore | hstore
    · rw [hstore, hbefore]
    · rw [hstore, live_get hle, hbefore]
  | recordSuccess =>
    have hother : key ≠ op.key := fun heq => hsuccess ⟨heq.symm, hcall⟩
    exact (congrArg Option.isSome (live_delete_of_ne (flagKey_ne hother))).trans hbefore
  | recordFailure =>
    dsimp only
    rw [recordFailure]
    split_ifs
    · by_cases hkey : key = op.key
      · subst hkey
        have hlive : live (sharedSetOpen s f.store op.key op.now) (flagKey op.key) later =
            if later < op.now + s.resetSeconds then some "1" else none := live_set_self hle
        rw [hlive, if_pos (hlate.trans_le huntil)]
        rfl
      · exact (congrArg Option.isSome (live_set_of_ne (flagKey_ne hkey))).trans hbefore
    · exact hbefore

theorem Flagged.run {ops : List (Op ι)} (h : Flagged f.store key now expiry)
    (hclock : (now :: ops.map (·.now)).Pairwise (· ≤ ·)) (hsuccess : ∀ op ∈ ops, ¬ Succeeds key op)
    (huntil : expiry ≤ now + s.resetSeconds) {u : ℚ} (hnow : now ≤ u)
    (hlast : ∀ op ∈ ops, op.now ≤ u) :
    Flagged (Runs.final (CircuitFleet.step s) f ops).store key u expiry := by
  induction ops generalizing f now with
  | nil => exact fun later hle => h later (hnow.trans hle)
  | cons op ops ih =>
    rw [List.map_cons, List.pairwise_cons] at hclock
    have hle : now ≤ op.now := hclock.1 _ List.mem_cons_self
    have huntil' : expiry ≤ op.now + s.resetSeconds := huntil.trans (by linarith)
    exact ih (h.step hle (hsuccess op List.mem_cons_self) huntil') hclock.2
      (fun x hx => hsuccess x (List.mem_cons_of_mem op hx)) huntil' (hlast op List.mem_cons_self)
      fun x hx => hlast x (List.mem_cons_of_mem op hx)

theorem flagged_of_trips (h : Trips s key f op) :
    Flagged (step s f op).store key op.now (op.now + s.resetSeconds) := by
  obtain ⟨rfl, hcall, htripped⟩ := h
  intro later hle hlate
  have hstore : (step s f op).store = sharedSetOpen s f.store op.key op.now := by
    simp [step, Fleet.put, Fleet.run, hcall, recordFailure, htripped]
  have hlive : live (sharedSetOpen s f.store op.key op.now) (flagKey op.key) later =
      if later < op.now + s.resetSeconds then some "1" else none := live_set_self hle
  rw [hstore, hlive, if_pos hlate]
  rfl

theorem cleared_step (h : f.store (flagKey key) = none) (hop : ¬ Trips s key f op) :
    (step s f op).store (flagKey key) = none := by
  change (f.run s op).2 (flagKey key) = none
  rw [Fleet.run]
  cases hcall : op.call with
  | allow =>
    dsimp only
    rcases store_allow (s := s) (f.breakers op.process op.key) f.store with hstore | hstore
    · rw [hstore, h]
    · rw [hstore, get_none h]
  | recordSuccess =>
    by_cases hkey : flagKey key = flagKey op.key
    · exact hkey ▸ delete_self
    · exact (delete_of_ne hkey).trans h
  | recordFailure =>
    dsimp only
    rw [recordFailure]
    split_ifs with htripped
    · have hkey : key ≠ op.key := fun heq => hop ⟨heq.symm, hcall, htripped⟩
      exact (set_of_ne (flagKey_ne hkey)).trans h
    · exact h

theorem cleared_run {ops : List (Op ι)} (h : f.store (flagKey key) = none)
    (hops : ∀ p ∈ Runs.steps (step s) f ops, ¬ Trips s key p.1 p.2) :
    (Runs.final (step s) f ops).store (flagKey key) = none := by
  induction ops generalizing f with
  | nil => exact h
  | cons op ops ih =>
    simp only [Machine.Runs.steps, List.forall_mem_cons] at hops
    exact ih (cleared_step h hops.1) hops.2

theorem cleared_of_succeeds (h : Succeeds key op) :
    (step s f op).store (flagKey key) = none := by
  obtain ⟨rfl, hcall⟩ := h
  have hstore : (step s f op).store = sharedClearOpen f.store op.key := by
    simp [step, Fleet.put, Fleet.run, hcall, recordSuccess]
  rw [hstore]
  exact delete_self

/-- A trip on one instance refuses every request to any of them for the reset window, until a
success; and from a success on, an instance whose own breaker is not open refuses none, until
the next trip. -/
theorem fleet_protected (s : Settings) (henabled : s.enabled = true) (key : String) :
    (∀ (f : Fleet ι) (op : Op ι) (ops : List (Op ι)) (now : ℚ) (i : ι), Trips s key f op →
      (op.now :: (ops.map (·.now) ++ [now])).Pairwise (· ≤ ·) → (∀ x ∈ ops, ¬ Succeeds key x) →
      now < op.now + s.resetSeconds →
      (Runs.final (step s) (step s f op) ops).allows s i key now = false) ∧
    ∀ (f : Fleet ι) (op : Op ι) (ops : List (Op ι)) (now : ℚ) (i : ι), Succeeds key op →
      (∀ p ∈ Runs.steps (step s) (step s f op) ops, ¬ Trips s key p.1 p.2) →
      ((Runs.final (step s) (step s f op) ops).breakers i key).state ≠ .opened →
      (Runs.final (step s) (step s f op) ops).allows s i key now = true := by
  constructor
  · intro f op ops now i htrip hclock hsuccess hlate
    rw [← List.cons_append, List.pairwise_append] at hclock
    obtain ⟨hops, -, hlast⟩ := hclock
    have hle : ∀ t ∈ op.now :: ops.map (·.now), t ≤ now := fun t ht =>
      hlast t ht now (List.mem_singleton_self now)
    have hflagged := (flagged_of_trips htrip).run hops hsuccess le_rfl (hle _ List.mem_cons_self)
      fun x hx => hle _ (List.mem_cons_of_mem _ (List.mem_map_of_mem hx))
    exact allows_flagged henabled hflagged hlate i
  · intro f op ops now i hsuccess hops hopen
    exact allows_cleared henabled (cleared_run (cleared_of_succeeds hsuccess) hops) hopen

end Fleet

/-! ## Two instances -/

def pairSettings : Settings := ⟨true, 1, 30, true⟩

def newFleet : Fleet Bool := ⟨fun _ _ => .new, fun _ => none⟩

def trip : Op Bool := ⟨true, "k", 0, .recordFailure⟩

def probe : Op Bool := ⟨false, "k", 5, .allow⟩

def success : Op Bool := ⟨true, "k", 6, .recordSuccess⟩

def trippedFleet : Fleet Bool := step pairSettings newFleet trip

/-- The instance that did not trip refuses a request too, and lets it through after the success. -/
theorem pair_protected :
    (Runs.final (step pairSettings) trippedFleet [probe]).allows pairSettings false "k" 10 = false ∧
      (Runs.final (step pairSettings) (step pairSettings trippedFleet success) [probe]).allows
        pairSettings false "k" 10 = true := by
  obtain ⟨hrefused, hcleared⟩ := @fleet_protected Bool _ pairSettings rfl "k"
  refine ⟨hrefused newFleet trip [probe] 10 false ⟨rfl, rfl, by decide⟩ ?_ ?_ ?_,
    hcleared trippedFleet success [probe] 10 false ⟨rfl, rfl⟩ ?_ ?_⟩
  · norm_num [trip, probe]
  · simp [Succeeds, probe]
  · norm_num [trip, pairSettings]
  · simp [Machine.Runs.steps, Trips, probe]
  · decide +kernel

end Varsten.Proxy.CircuitFleet
