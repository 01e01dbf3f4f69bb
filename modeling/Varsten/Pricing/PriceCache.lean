import Varsten.Machine.Effective
import Varsten.Machine.Runs
import Varsten.Pricing.Service

/-!
# The price cache

A server resolves prices while time passes and prices are written. An entry keeps, beside its
price, the time of the event it was looked up for; the program has no such field.
-/

namespace Varsten.Pricing.PriceCache

open Pricing.Service
open Machine.Effective (inForce settled_inForce Settled Changes)
open Machine.Runs (steps inv_of_steps)

/-! ## The price row in force -/

inductive PriceRow where
  | override (row : OrgModelPriceOverride)
  | catalog (row : ModelPrice)

def PriceRow.effectiveAt : PriceRow → ℚ
  | .override row => row.effectiveAt
  | .catalog row => row.effectiveAt

def PriceRow.resolved : PriceRow → ResolvedPrice
  | .override row => ⟨row.inputCostPerToken, row.outputCostPerToken,
      row.cacheReadInputTokenCost, "override", none⟩
  | .catalog row => row.resolved

section Row

variable (book : PriceBook) (modelKey provider : String)

def overrideRow (time : ℚ) : Option PriceRow :=
  (inForce (·.effectiveAt) (book.overrides.filter fun r => r.modelKey = modelKey ∧
    (r.provider = some provider ∨ r.provider = none)) time).map .override

def exactRow (time : ℚ) : Option PriceRow :=
  (inForce (·.effectiveAt) (book.catalog.filter fun r => r.modelKey = modelKey ∧
    r.provider = provider) time).map .catalog

def modelRow (time : ℚ) : Option PriceRow :=
  (inForce (·.effectiveAt) (book.catalog.filter fun r => r.modelKey = modelKey) time).map .catalog

def priceRow (time : ℚ) : Option PriceRow :=
  (overrideRow book modelKey provider time).orElse fun _ =>
    (exactRow book modelKey provider time).orElse fun _ => modelRow book modelKey time

theorem settled_priceRow : Settled PriceRow.effectiveAt (priceRow book modelKey provider) := by
  have hover : Settled PriceRow.effectiveAt (overrideRow book modelKey provider) :=
    (settled_inForce _ _).map PriceRow.override
  have hexact : Settled PriceRow.effectiveAt (exactRow book modelKey provider) :=
    (settled_inForce _ _).map PriceRow.catalog
  have hmodel : Settled PriceRow.effectiveAt (modelRow book modelKey) :=
    (settled_inForce _ _).map PriceRow.catalog
  exact hover.orElse (hexact.orElse hmodel)

theorem overrideFor_eq (time : ℚ) :
    overrideFor book time modelKey provider =
      (overrideRow book modelKey provider time).map PriceRow.resolved := by
  unfold overrideFor overrideRow inForce
  rw [List.filter_filter, Option.map_map]
  congr 3
  funext r
  rw [← Bool.decide_and]
  exact decide_eq_decide.2 (by tauto)

theorem catalogPriceFor_eq (time : ℚ) :
    catalogPriceFor book time modelKey provider =
      ((exactRow book modelKey provider time).orElse fun _ =>
        modelRow book modelKey time).map PriceRow.resolved := by
  have hmodel : (book.catalog.filter fun r => r.modelKey = modelKey ∧ r.effectiveAt ≤ time) =
      (book.catalog.filter fun r => r.modelKey = modelKey).filter (·.effectiveAt ≤ time) := by
    rw [List.filter_filter]
    congr 1
    funext r
    rw [← Bool.decide_and]
    exact decide_eq_decide.2 and_comm
  have hexact : ((book.catalog.filter fun r => r.modelKey = modelKey ∧
      r.effectiveAt ≤ time).filter fun r => r.provider = provider) =
      (book.catalog.filter fun r => r.modelKey = modelKey ∧ r.provider = provider).filter
        (·.effectiveAt ≤ time) := by
    rw [List.filter_filter, List.filter_filter]
    congr 1
    funext r
    rw [← Bool.decide_and, ← Bool.decide_and]
    exact decide_eq_decide.2 (by tauto)
  have hmap (a b : Option ModelPrice) : (a.orElse fun _ => b).map ModelPrice.resolved =
      ((a.map PriceRow.catalog).orElse fun _ => b.map PriceRow.catalog).map
        PriceRow.resolved := by
    cases a <;> cases b <;> rfl
  unfold catalogPriceFor exactRow modelRow inForce
  dsimp only
  rw [hexact, hmodel]
  exact hmap _ _

theorem lookupPrice_eq (time : ℚ) :
    lookupPrice book time modelKey provider =
      (priceRow book modelKey provider time).map PriceRow.resolved := by
  rw [lookupPrice, overrideFor_eq, catalogPriceFor_eq, priceRow]
  cases overrideRow book modelKey provider time <;> rfl

end Row

/-! ## The server -/

/-- The prices of all organizations. -/
structure Database where
  overrides : ℕ → List OrgModelPriceOverride
  catalog : List ModelPrice

def Database.book (db : Database) (organizationId : ℕ) : PriceBook :=
  ⟨db.overrides organizationId, db.catalog⟩

structure Key where
  organizationId : ℕ
  modelKey : String
  provider : String
deriving DecidableEq

structure Entry where
  price : Option ResolvedPrice
  expires : ℚ
  askedAt : ℚ

structure Server where
  db : Database
  now : ℚ
  entries : Key → Option Entry

/-- A call discards the entries of other keys where the cache is full. -/
inductive Op where
  | passes (seconds : ℚ≥0)
  | resolvePrice (key : Key) (time : ℚ) (discarded : Key → Bool)
  | writePrices (db : Database)

def Server.live (s : Server) (key : Key) : Option Entry :=
  (s.entries key).filter fun e => s.now < e.expires

def Server.priceCache (s : Server) (organizationId : ℕ) : PriceCache := fun modelKey provider =>
  (s.live ⟨organizationId, modelKey, provider⟩).map (·.price)

def Server.cacheable (s : Server) (time : ℚ) : Prop := s.now - priceCacheTtlSeconds ≤ time

instance (s : Server) (time : ℚ) : Decidable (s.cacheable time) :=
  inferInstanceAs (Decidable (_ ≤ _))

def Server.resolve (s : Server) (key : Key) (time : ℚ) : Option ResolvedPrice :=
  resolvePrice (s.db.book key.organizationId) (s.priceCache key.organizationId) s.now time
    key.modelKey key.provider

def Server.lookup (s : Server) (key : Key) (time : ℚ) : Option ResolvedPrice :=
  lookupPrice (s.db.book key.organizationId) time key.modelKey key.provider

def Server.store (s : Server) (key : Key) (time : ℚ) (discarded : Key → Bool) : Server :=
  { s with entries := fun k =>
      if k = key then some ⟨s.resolve key time, s.now + priceCacheTtlSeconds, time⟩
      else if discarded k then none else s.entries k }

def step (s : Server) : Op → Server
  | .passes seconds => { s with now := s.now + seconds }
  | .resolvePrice key time discarded =>
    if s.cacheable time ∧ s.live key = none then s.store key time discarded else s
  | .writePrices db => { s with db := db, entries := fun _ => none }

/-- A server that has just started. -/
def start (db : Database) (now : ℚ) : Server := ⟨db, now, fun _ => none⟩

/-! ## What an entry holds -/

def Filled (s : Server) : Prop :=
  ∀ key e, s.entries key = some e → e.price = s.lookup key e.askedAt

theorem filled_start (db : Database) (now : ℚ) : Filled (start db now) :=
  fun _ _ h => absurd h (by simp [start])

theorem live_eq_some {s : Server} {key : Key} {e : Entry} (h : s.live key = some e) :
    s.entries key = some e :=
  (Option.filter_eq_some_iff.1 h).1

/-- A call that finds no live entry, or is not near the present, looks the price up. -/
theorem resolve_miss {s : Server} {key : Key} {time : ℚ}
    (h : s.cacheable time → s.live key = none) : s.resolve key time = s.lookup key time := by
  unfold Server.resolve resolvePrice Server.lookup
  split_ifs with hc
  · rw [Server.priceCache, h hc, Option.map_none, Option.getD_none]
  · rfl

theorem resolve_hit {s : Server} {key : Key} {time : ℚ} {e : Entry} (hc : s.cacheable time)
    (h : s.live key = some e) : s.resolve key time = e.price := by
  have hnear : s.now - priceCacheTtlSeconds ≤ time := hc
  unfold Server.resolve resolvePrice
  rw [if_pos hnear, Server.priceCache, h, Option.map_some, Option.getD_some]

theorem filled_step {s : Server} (h : Filled s) (op : Op) : Filled (step s op) := by
  cases op with
  | passes seconds => exact h
  | writePrices db => exact fun _ _ he => absurd he (by simp [step])
  | resolvePrice key time discarded =>
    dsimp only [step]
    split_ifs with hmiss
    · intro k e he
      simp only [Server.store] at he
      split_ifs at he with hk
      · obtain rfl := Option.some.inj he
        rw [hk]
        exact resolve_miss fun _ => hmiss.2
      · exact h k e he
    · exact h

/-! ## When the cache cannot be seen -/

/-- A call returns what a lookup returns. -/
def Uncached (s : Server) : Op → Prop
  | .resolvePrice key time _ => s.resolve key time = s.lookup key time
  | _ => True

/-- A call served from an entry asks for a time at which the price is still that of the time the
entry was asked for. -/
def InDate (s : Server) : Op → Prop
  | .resolvePrice key time _ => s.cacheable time → ∀ e, s.live key = some e →
      ¬ Changes PriceRow.effectiveAt
        (priceRow (s.db.book key.organizationId) key.modelKey key.provider) PriceRow.resolved
        e.askedAt time
  | _ => True

theorem uncached_iff {s : Server} (h : Filled s) (op : Op) : Uncached s op ↔ InDate s op := by
  cases op with
  | passes seconds => exact Iff.rfl
  | writePrices db => exact Iff.rfl
  | resolvePrice key time discarded =>
    have hprice (t u : ℚ) : s.lookup key t = s.lookup key u ↔ ¬ Changes PriceRow.effectiveAt
        (priceRow (s.db.book key.organizationId) key.modelKey key.provider) PriceRow.resolved
        t u := by
      rw [Server.lookup, Server.lookup, lookupPrice_eq, lookupPrice_eq]
      exact (settled_priceRow _ _ _).map_eq_iff _ _ _
    simp only [Uncached, InDate]
    by_cases hc : s.cacheable time
    · cases hl : s.live key with
      | none => simp [resolve_miss fun _ => hl]
      | some e =>
        rw [resolve_hit hc hl, h key e (live_eq_some hl), hprice]
        simp [hc]
    · simp [resolve_miss fun hc' => absurd hc' hc, hc]

/-- The cache cannot be seen in a run exactly when each call it serves is in date. -/
theorem uncached_run_iff (db : Database) (now : ℚ) (ops : List Op) :
    (∀ p ∈ steps step (start db now) ops, Uncached p.1 p.2) ↔
      ∀ p ∈ steps step (start db now) ops, InDate p.1 p.2 :=
  have hrun := inv_of_steps (P := Filled) (fun _ op h => filled_step h op) (filled_start db now)
  forall₂_congr fun p hp => uncached_iff (hrun p hp) p.2

def sampleKey : Key := ⟨1, "gpt-4o", "openai"⟩

def sampleDatabase : Database where
  overrides := fun _ => []
  catalog := [⟨1, "gpt-4o", "openai", 1, 1, none, 0⟩, ⟨2, "gpt-4o", "openai", 2, 2, none, 86400⟩]

def sampleCall (time : ℚ) : Op := .resolvePrice sampleKey time fun _ => false

/-- An event dated two days ahead comes before one of the present. -/
theorem future_price_charged : ¬ ∀ p ∈ steps step (start sampleDatabase 0)
    [sampleCall 172800, sampleCall 0], Uncached p.1 p.2 := by
  intro h
  have hlast := h (step (start sampleDatabase 0) (sampleCall 172800), sampleCall 0)
    (List.mem_cons_of_mem _ List.mem_cons_self)
  have hne : (step (start sampleDatabase 0) (sampleCall 172800)).resolve sampleKey 0 ≠
      (step (start sampleDatabase 0) (sampleCall 172800)).lookup sampleKey 0 := by
    decide +kernel
  exact hne hlast

end Varsten.Pricing.PriceCache
