import Varsten.Machine.Runs

/-!
# Read-through caches

A cache of lookups beside a store. A lookup that misses asks the store once or, where the first
query finds nothing, twice, and fills the cache later; between these steps the store may be written
and the cache cleared.
-/

namespace Varsten.Machine.ReadThrough

open Runs (final)

variable {σ κ ν : Type}

/-- The queries of a lookup; the second is for where the first finds nothing. -/
structure Queries (σ κ ν : Type) where
  first : σ → κ → Option ν
  second : σ → κ → ν

def Queries.read (q : Queries σ κ ν) (store : σ) (k : κ) : ν :=
  (q.first store k).getD (q.second store k)

/-- A lookup under way: its first query found nothing, or it has what it will cache. -/
inductive Flight (κ ν : Type) where
  | missed (k : κ)
  | found (k : κ) (v : ν)

structure State (σ κ ν : Type) where
  store : σ
  cache : κ → Option ν
  flights : ℕ → Option (Flight κ ν)

inductive Input (σ κ : Type) where
  | write (f : σ → σ)
  | clear (keys : κ → Bool)
  | lookup (l : ℕ) (k : κ)
  | proceed (l : ℕ)
  | abandon (l : ℕ)

def State.setFlight (s : State σ κ ν) (l : ℕ) (flight : Option (Flight κ ν)) : State σ κ ν :=
  { s with flights := Function.update s.flights l flight }

def State.serve (q : Queries σ κ ν) (s : State σ κ ν) (k : κ) : ν :=
  (s.cache k).getD (q.read s.store k)

def State.ask (q : Queries σ κ ν) (s : State σ κ ν) (k : κ) : Flight κ ν :=
  match q.first s.store k with
  | some v => .found k v
  | none => .missed k

/-- What a flight is going to cache is what the store says. -/
def Flight.Fresh (q : Queries σ κ ν) (store : σ) : Flight κ ν → Prop
  | .missed k => q.second store k = q.read store k
  | .found k v => v = q.read store k

structure Coherent (q : Queries σ κ ν) (s : State σ κ ν) : Prop where
  cached : ∀ k v, s.cache k = some v → v = q.read s.store k
  flying : ∀ l x, s.flights l = some x → x.Fresh q s.store

def Held (s : State σ κ ν) (k : κ) : Prop :=
  (s.cache k).isSome = true ∨ ∃ l v, s.flights l = some (.found k v)

/-- A write that changes no lookup that is held, and gives a lookup between its two queries nothing
that the first would have found. -/
structure Unheld (q : Queries σ κ ν) (s : State σ κ ν) (f : σ → σ) : Prop where
  held : ∀ k, Held s k → q.read (f s.store) k = q.read s.store k
  missed : ∀ l k, s.flights l = some (.missed k) →
    q.second (f s.store) k = q.read (f s.store) k

section Machine

variable [DecidableEq κ]

def step (q : Queries σ κ ν) (s : State σ κ ν) : Input σ κ → State σ κ ν
  | .write f => { s with store := f s.store }
  | .clear keys => { s with cache := fun k => if keys k then none else s.cache k }
  | .lookup l k => if (s.cache k).isSome then s else s.setFlight l (some (s.ask q k))
  | .proceed l =>
    match s.flights l with
    | none => s
    | some (.missed k) => s.setFlight l (some (.found k (q.second s.store k)))
    | some (.found k v) =>
      { s.setFlight l none with cache := Function.update s.cache k (some v) }
  | .abandon l => s.setFlight l none

/-- Until the next write every lookup returns what one without a cache does. -/
def Serves (q : Queries σ κ ν) (s : State σ κ ν) : Prop :=
  ∀ run : List (Input σ κ), (∀ i ∈ run, ∀ f, i ≠ .write f) → ∀ k,
    (final (step q) s run).serve q k = q.read (final (step q) s run).store k

end Machine

variable {q : Queries σ κ ν} {s : State σ κ ν}

theorem coherent_empty (q : Queries σ κ ν) (store : σ) :
    Coherent q ⟨store, fun _ => none, fun _ => none⟩ :=
  ⟨fun _ _ h => absurd h (by simp), fun _ _ h => absurd h (by simp)⟩

theorem serve_eq (h : Coherent q s) (k : κ) : s.serve q k = q.read s.store k := by
  unfold State.serve
  cases hk : s.cache k with
  | none => rfl
  | some v => exact h.cached k v hk

theorem read_of_found {v : ν} {k : κ} {store : σ} (h : q.first store k = some v) :
    q.read store k = v := by rw [Queries.read, h, Option.getD_some]

theorem read_of_missed {k : κ} {store : σ} (h : q.first store k = none) :
    q.read store k = q.second store k := by rw [Queries.read, h, Option.getD_none]

theorem fresh_ask (k : κ) : (s.ask q k).Fresh q s.store := by
  unfold State.ask
  split
  · next v h => exact (read_of_found h).symm
  · next h => exact (read_of_missed h).symm

theorem setFlight_self (l : ℕ) (flight : Option (Flight κ ν)) :
    (s.setFlight l flight).flights l = flight := Function.update_self ..

theorem setFlight_of_ne {l l' : ℕ} (h : l' ≠ l) (flight : Option (Flight κ ν)) :
    (s.setFlight l flight).flights l' = s.flights l' := Function.update_of_ne h ..

theorem coherent_setFlight (h : Coherent q s) (l : ℕ) {flight : Option (Flight κ ν)}
    (hf : ∀ x, flight = some x → x.Fresh q s.store) : Coherent q (s.setFlight l flight) := by
  refine ⟨h.cached, fun l' x hl => ?_⟩
  by_cases hne : l' = l
  · rw [hne, setFlight_self] at hl
    exact hf x hl
  · rw [setFlight_of_ne hne] at hl
    exact h.flying l' x hl

theorem coherent_write (h : Coherent q s) {f : σ → σ} (hx : Unheld q s f) :
    Coherent q { s with store := f s.store } where
  cached k v hk := by
    rw [h.cached k v hk]
    exact (hx.held k (.inl (by rw [show s.cache k = some v from hk]; rfl))).symm
  flying l x hl := by
    cases x with
    | missed k => exact hx.missed l k hl
    | found k v => exact (h.flying l _ hl).trans (hx.held k (.inr ⟨l, v, hl⟩)).symm

theorem unheld_of_coherent (h : Coherent q s) {f : σ → σ}
    (h' : Coherent q { s with store := f s.store }) : Unheld q s f := by
  refine ⟨?_, fun l k hl => h'.flying l _ hl⟩
  rintro k (hk | ⟨l, v, hl⟩)
  · obtain ⟨v, hv⟩ := Option.isSome_iff_exists.1 hk
    rw [← h.cached k v hv]
    exact (h'.cached k v hv).symm
  · exact (h'.flying l _ hl).symm.trans (h.flying l _ hl)

theorem coherent_clear (h : Coherent q s) (keys : κ → Bool) :
    Coherent q { s with cache := fun k => if keys k then none else s.cache k } := by
  refine ⟨fun k v hk => ?_, h.flying⟩
  dsimp only at hk
  split_ifs at hk
  exact h.cached k v hk

section Machine

variable [DecidableEq κ]

theorem coherent_proceed (h : Coherent q s) (l : ℕ) : Coherent q (step q s (.proceed l)) := by
  rw [step]
  split
  · exact h
  · next k hl =>
    refine coherent_setFlight h l fun x hx => ?_
    obtain rfl := Option.some.inj hx
    exact h.flying l (.missed k) hl
  · next k v hl =>
    have hset : Coherent q (s.setFlight l none) :=
      coherent_setFlight h l fun x hx => absurd hx (by simp)
    refine ⟨fun k' v' hk => ?_, hset.flying⟩
    by_cases hne : k' = k
    · rw [hne] at hk ⊢
      simp only [Function.update_self, Option.some.injEq] at hk
      rw [← hk]
      exact h.flying l _ hl
    · simp only [Function.update_of_ne hne] at hk
      exact h.cached k' v' hk

theorem coherent_step (h : Coherent q s) {i : Input σ κ} (hx : ∀ f, i = .write f → Unheld q s f) :
    Coherent q (step q s i) := by
  cases i with
  | write f => exact coherent_write h (hx f rfl)
  | clear keys => exact coherent_clear h keys
  | lookup l k =>
    rw [step]
    split_ifs
    · exact h
    · refine coherent_setFlight h l fun x hx => ?_
      obtain rfl := Option.some.inj hx
      exact fresh_ask k
  | proceed l => exact coherent_proceed h l
  | abandon l => exact coherent_setFlight h l fun x hx => absurd hx (by simp)

theorem serves_of_coherent (h : Coherent q s) : Serves q s := by
  intro run hrun
  induction run generalizing s with
  | nil => exact serve_eq h
  | cons i run ih =>
    have hi : ∀ f, i = .write f → Unheld q s f :=
      fun f hf => absurd hf (hrun i List.mem_cons_self f)
    exact ih (coherent_step h hi) fun j hj => hrun j (List.mem_cons_of_mem i hj)

theorem coherent_of_serves (h : Serves q s) : Coherent q s := by
  refine ⟨fun k v hk => ?_, fun l x hl => ?_⟩
  · have hserve := h [] (fun i hi => absurd hi List.not_mem_nil) k
    simpa [final, State.serve, hk] using hserve
  · cases x with
    | missed k =>
      have hserve := h [.proceed l, .proceed l] (by simp) k
      rw [Flight.Fresh]
      simpa [final, State.serve, step, hl, State.setFlight] using hserve
    | found k v =>
      have hserve := h [.proceed l] (by simp) k
      rw [Flight.Fresh]
      simpa [final, State.serve, step, hl, State.setFlight] using hserve

theorem serves_iff : Serves q s ↔ Coherent q s := ⟨coherent_of_serves, serves_of_coherent⟩

end Machine

/-! ## What every reading is -/

/-- What is cached, or about to be, is what some store of the run had for its key. -/
structure Tagged (P : κ → ν → Prop) (s : State σ κ ν) : Prop where
  cached : ∀ k v, s.cache k = some v → P k v
  flying : ∀ l k v, s.flights l = some (.found k v) → P k v

structure Reads (q : Queries σ κ ν) (P : κ → ν → Prop) (store : σ) : Prop where
  first : ∀ k v, q.first store k = some v → P k v
  second : ∀ k, P k (q.second store k)

variable {P : κ → ν → Prop}

theorem tagged_empty (store : σ) : Tagged P ⟨store, fun _ => none, fun _ => none⟩ :=
  ⟨fun _ _ h => absurd h (by simp), fun _ _ _ h => absurd h (by simp)⟩

theorem tagged_serve (h : Tagged P s) (hreads : Reads q P s.store) (k : κ) : P k (s.serve q k) := by
  unfold State.serve
  cases hk : s.cache k with
  | some v => exact h.cached k v hk
  | none =>
    rw [Option.getD_none, Queries.read]
    cases hfirst : q.first s.store k with
    | some v => exact hreads.first k v hfirst
    | none => exact hreads.second k

theorem tagged_setFlight (h : Tagged P s) (l : ℕ) {flight : Option (Flight κ ν)}
    (hf : ∀ k v, flight = some (.found k v) → P k v) : Tagged P (s.setFlight l flight) := by
  refine ⟨h.cached, fun l' k v hl => ?_⟩
  by_cases hne : l' = l
  · rw [hne, setFlight_self] at hl
    exact hf k v hl
  · rw [setFlight_of_ne hne] at hl
    exact h.flying l' k v hl

/-- A store whose queries give what they may keeps the tags, whatever is read and written. -/
theorem tagged_step [DecidableEq κ] (h : Tagged P s) (hreads : Reads q P s.store)
    (i : Input σ κ) : Tagged P (step q s i) := by
  cases i with
  | write f => exact ⟨h.cached, h.flying⟩
  | clear keys =>
    refine ⟨fun k v hk => ?_, h.flying⟩
    simp only [step] at hk
    split_ifs at hk
    exact h.cached k v hk
  | lookup l k =>
    rw [step]
    split_ifs
    · exact h
    · refine tagged_setFlight h l fun k' v hf => ?_
      rw [State.ask] at hf
      split at hf
      · next hfirst =>
        obtain ⟨rfl, rfl⟩ := Flight.found.inj (Option.some.inj hf)
        exact hreads.first _ _ hfirst
      · cases hf
  | proceed l =>
    rw [step]
    split
    · exact h
    · refine tagged_setFlight h l fun k' v hf => ?_
      obtain ⟨rfl, rfl⟩ := Flight.found.inj (Option.some.inj hf)
      exact hreads.second _
    · next k v hl =>
      have hset : Tagged P (s.setFlight l none) := tagged_setFlight h l fun _ _ hf => by cases hf
      refine ⟨fun k' v' hk => ?_, hset.flying⟩
      by_cases hne : k' = k
      · rw [hne] at hk ⊢
        simp only [Function.update_self, Option.some.injEq] at hk
        exact hk ▸ h.flying l k v hl
      · simp only [Function.update_of_ne hne] at hk
        exact h.cached k' v' hk
  | abandon l => exact tagged_setFlight h l fun _ _ hf => by cases hf

end Varsten.Machine.ReadThrough
