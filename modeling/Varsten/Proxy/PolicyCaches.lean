import Varsten.ControlPlane.State
import Varsten.Machine.ReadThrough
import Varsten.Proxy.BatchJobs
import Varsten.Proxy.Canary
import Varsten.Proxy.Predicate

/-!
# The policy caches of the proxy

The policies of a project, the three caches through which the hot path reads them, and transactions
of the control plane. An operation that clears a cache does so when it runs; what it writes is there
for a lookup when its transaction commits. The caches are on, and what the ledger or the evals have
to say to an operation is part of it.
-/

namespace Varsten.Proxy.PolicyCaches

open BatchJobs (written)
open ControlPlane (Lever PolicyKey)
open Engine.RequestFacts (field)
open Engine.RouteIdentity (defaultRoute)
open Machine (ReadThrough.Queries ReadThrough.Unheld ReadThrough.Coherent ReadThrough.Serves)
open Machine.Runs (steps final)
open Predicate (seedPredicate)
open Python (Json)
open Python.Json (setItem)

structure ProxyPolicy where
  id : ℕ
  key : PolicyKey
  enabled : Bool
  holdbackPercent : ℚ
  rolloutPercent : ℕ
  params : List (String × Json)
  source : Option ℕ
  activatedAt : Option ℚ
deriving DecidableEq

/-! ## Lookups -/

inductive Cache where
  | routing
  | trim
  | compression
deriving DecidableEq

def Cache.reads : Cache → Lever → Bool
  | .routing, lever => lever.isRouting
  | .trim, lever => lever = .tokenTrim
  | .compression, lever => lever = .promptCompression

structure Key where
  cache : Cache
  model : String
  routeKey : Option String
deriving DecidableEq

inductive Snapshot where
  | routing (id : ℕ) (lever : Lever) (candidateModel candidateProvider : Json)
      (holdbackPercent : ℚ) (source : Option ℕ) (params : List (String × Json))
      (rolloutPercent : ℕ) (routeKey : String)
  | trim (id : ℕ) (holdbackPercent : ℚ) (params : List (String × Json)) (source : Option ℕ)
      (rolloutPercent : ℕ)
  | compression (id : ℕ) (holdbackPercent : ℚ) (artifactId : Option Json) (source : Option ℕ)
      (rolloutPercent : ℕ)
deriving DecidableEq

def ProxyPolicy.candidateModel (p : ProxyPolicy) : Json := field "candidate_model" p.params

def ProxyPolicy.artifactId (p : ProxyPolicy) : Option Json :=
  some (field "artifact_id" p.params) |>.filter Json.truthy

def snapshot (p : ProxyPolicy) : Cache → Snapshot
  | .routing => .routing p.id p.key.lever p.candidateModel (field "candidate_provider" p.params)
      p.holdbackPercent p.source p.params p.rolloutPercent p.key.routeKey
  | .trim => .trim p.id p.holdbackPercent p.params p.source p.rolloutPercent
  | .compression => .compression p.id p.holdbackPercent p.artifactId p.source p.rolloutPercent

/-- The enabled policies of a lookup, of every route. -/
def base (rows : List ProxyPolicy) (k : Key) : List ProxyPolicy :=
  rows.filter fun p => k.cache.reads p.key.lever && p.key.targetKey = k.model && p.enabled

def latest (policies : List ProxyPolicy) : Option ProxyPolicy :=
  policies.argmax fun p => (p.activatedAt.elim ⊥ fun t => (t : WithBot ℚ))

def exact (rows : List ProxyPolicy) (k : Key) (routeKey : String) : Option Snapshot :=
  (latest ((base rows k).filter (·.key.routeKey = routeKey))).map fun p => snapshot p k.cache

/-- `_routing_policy_for_model`, and the lookups of trims and compressions. -/
def queries : ReadThrough.Queries (List ProxyPolicy) Key (Option Snapshot) where
  first rows k :=
    match k.routeKey.filter (· ≠ "") with
    | none => some ((latest (base rows k)).map fun p => snapshot p k.cache)
    | some routeKey => (exact rows k routeKey).map some
  second rows k := exact rows k defaultRoute

/-! ## Operations -/

/-- A new row, or the columns in which one differs from what the session has read. -/
inductive Write where
  | insert (row : ProxyPolicy)
  | save (read row : ProxyPolicy)

def ProxyPolicy.save (read new row : ProxyPolicy) : ProxyPolicy where
  id := row.id
  key := row.key
  enabled := written read.enabled new.enabled row.enabled
  holdbackPercent := written read.holdbackPercent new.holdbackPercent row.holdbackPercent
  rolloutPercent := written read.rolloutPercent new.rolloutPercent row.rolloutPercent
  params := written read.params new.params row.params
  source := written read.source new.source row.source
  activatedAt := written read.activatedAt new.activatedAt row.activatedAt

def Write.apply (rows : List ProxyPolicy) : Write → Option (List ProxyPolicy)
  | .insert row =>
    if rows.any fun p => p.id = row.id || p.key = row.key then none else some (rows ++ [row])
  | .save read new => some (rows.map fun p => if p.id = read.id then read.save new p else p)

/-- The rows after a transaction, one that fails leaves them. -/
def commit (writes : List Write) (rows : List ProxyPolicy) : List ProxyPolicy :=
  (writes.foldlM Write.apply rows).getD rows

inductive Operation where
  | activateRule (id : ℕ) (lever : Option Lever) (incumbent candidate routeKey : String)
      (recommendation : ℕ) (at_ : ℚ)
  | activateTrimPolicy (id : ℕ) (model routeKey : String) (recommendation : ℕ) (at_ : ℚ)
  | activateCompressionPolicy (id : ℕ) (model routeKey : String) (artifact : Option String)
      (recommendation : ℕ) (at_ : ℚ)
  | deactivateExecution (recommendation : ℕ)
  | update (cache : Cache) (id : ℕ) (enabled : Option Bool) (holdbackPercent : Option ℚ)
  | recordRollback (id : ℕ)
  | maybePromoteCanary (id : ℕ)
  | adjustAdaptiveHoldback (id : ℕ) (proposed : ℚ)
  | addBanditCandidate (id : ℕ) (candidate : String) (provider : Option String)
      (run : Option String)
  | removeBanditCandidate (id : ℕ) (candidate : String)

/-- What an operation writes, and the caches it clears. -/
structure Effect where
  writes : List Write
  clears : List Cache

def Effect.none : Effect := ⟨[], []⟩

def ProxyPolicy.isGuarded (p : ProxyPolicy) : Bool :=
  p.enabled && (p.key.lever.isGated || p.key.lever = .tokenTrim)

def ProxyPolicy.isAdaptive (p : ProxyPolicy) : Bool :=
  p.enabled && (p.key.lever.isRouting || p.key.lever = .tokenTrim)

def activate (c : Canary.Settings) (rows : List ProxyPolicy) (id : ℕ) (key : PolicyKey)
    (params : List (String × Json) → List (String × Json)) (recommendation : ℕ) (at_ : ℚ) : Write :=
  match rows.find? (·.key = key) with
  | none => .insert ⟨id, key, true, 1 / 20, Canary.initialRolloutPercent c, params [],
      some recommendation, some at_⟩
  | some p => .save p { p with
      params := params p.params
      rolloutPercent := if p.enabled then p.rolloutPercent else Canary.initialRolloutPercent c
      enabled := true
      source := some recommendation
      activatedAt := some at_ }

def trimLive (rows : List ProxyPolicy) (model routeKey : String) : Bool :=
  rows.any fun p => p.key.lever = .tokenTrim && p.key.targetKey = model && p.enabled &&
    (routeKey = defaultRoute || p.key.routeKey = routeKey || p.key.routeKey = defaultRoute)

def banditCandidateEntries (p : ProxyPolicy) : List Json :=
  match field "bandit_candidates" p.params with
  | .arr entries => entries.filter fun e => e.isDict && (e.val "model").truthy
  | _ => []

def withBanditCandidates (p : ProxyPolicy) (entries : List Json) : ProxyPolicy :=
  { p with params := setItem "bandit_candidates" (.arr entries) p.params }

def setPolicy (rows : List ProxyPolicy) (id : ℕ) (f : ProxyPolicy → Option ProxyPolicy)
    (clears : List Cache) : Effect :=
  match rows.find? (·.id = id) with
  | none => .none
  | some p => match f p with
    | none => .none
    | some new => ⟨[.save p new], clears⟩

/-- An operation on the rows that its session sees. One that is refused changes nothing. -/
def Operation.effect (c : Canary.Settings) (rows : List ProxyPolicy) : Operation → Effect
  | .activateRule id lever incumbent candidate routeKey recommendation at_ =>
    if incumbent = "" ∨ candidate = "" ∨ incumbent = candidate then .none
    else
      let lever := (lever.filter (·.isRouting)).getD .modelDownshift
      let params := fun fields =>
        let fields := setItem "candidate_model" (.str candidate) fields
        if lever = .smartRouting then seedPredicate fields else fields
      ⟨[activate c rows id ⟨lever, incumbent, routeKey⟩ params recommendation at_], [.routing]⟩
  | .activateTrimPolicy id model routeKey recommendation at_ =>
    if model = "" then .none
    else ⟨[activate c rows id ⟨.tokenTrim, model, routeKey⟩ (fun fields => fields)
        recommendation at_], [.trim]⟩
  | .activateCompressionPolicy id model routeKey artifact recommendation at_ =>
    match artifact with
    | none => .none
    | some artifact =>
      if model = "" ∨ trimLive rows model routeKey then .none
      else ⟨[activate c rows id ⟨.promptCompression, model, routeKey⟩
        (setItem "artifact_id" (.str artifact)) recommendation at_], [.compression]⟩
  | .deactivateExecution recommendation =>
    ⟨(rows.filter (·.source = some recommendation)).map fun p => .save p { p with enabled := false },
      [.routing, .trim, .compression]⟩
  | .update cache id enabled holdbackPercent =>
    setPolicy rows id (fun p =>
      if !cache.reads p.key.lever then none
      else if enabled = some true && cache = .compression && p.artifactId.isNone then none
      else some { p with
        enabled := enabled.getD p.enabled
        holdbackPercent := holdbackPercent.getD p.holdbackPercent }) []
  | .recordRollback id =>
    setPolicy rows id (fun p => if p.isGuarded then some { p with enabled := false } else none) []
  | .maybePromoteCanary id =>
    setPolicy rows id (fun p =>
      if !p.isGuarded || !c.canaryEnabled || Canary.fullyLive ≤ p.rolloutPercent then none
      else (Canary.nextStage c p.rolloutPercent).map fun target =>
        { p with rolloutPercent := target }) []
  | .adjustAdaptiveHoldback id proposed =>
    setPolicy rows id (fun p =>
      if p.isAdaptive then some { p with holdbackPercent := proposed } else none) []
  | .addBanditCandidate id candidate provider run =>
    setPolicy rows id (fun p =>
      let entries := banditCandidateEntries p
      if !p.key.lever.isRouting || candidate = "" || candidate = p.key.targetKey ||
          p.candidateModel = .str candidate ||
          entries.any (fun e => e.val "model" = .str candidate) then none
      else run.map fun run => withBanditCandidates p (entries ++
        [.obj [("model", .str candidate),
          ("provider", .str ((provider.filter (· ≠ "")).getD "openai")),
          ("eval_run_id", .str run)]])) [.routing]
  | .removeBanditCandidate id candidate =>
    setPolicy rows id (fun p =>
      let entries := banditCandidateEntries p
      let remaining := entries.filter fun e => e.val "model" ≠ .str candidate
      if !p.key.lever.isRouting || remaining.length = entries.length then none
      else some (withBanditCandidates p remaining)) [.routing]

/-! ## Interleavings -/

/-- `transactions` are the writes that a session has not committed. -/
structure State where
  proxy : Machine.ReadThrough.State (List ProxyPolicy) Key (Option Snapshot)
  transactions : ℕ → List Write

/-- A lookup that misses proceeds twice where its first query finds nothing, else once. An entry
expires at any time. -/
inductive Input where
  | perform (t : ℕ) (o : Operation)
  | commit (t : ℕ)
  | rollback (t : ℕ)
  | lookup (l : ℕ) (k : Key)
  | proceed (l : ℕ)
  | abandon (l : ℕ)
  | expire (keys : Key → Bool)

section Steps

variable (c : Canary.Settings)

def State.effect (s : State) (t : ℕ) (o : Operation) : Effect :=
  o.effect c (commit (s.transactions t) s.proxy.store)

def State.seen (s : State) : Input → Machine.ReadThrough.Input (List ProxyPolicy) Key
  | .perform t o => .clear fun k => k.cache ∈ (s.effect c t o).clears
  | .commit t => .write (commit (s.transactions t))
  | .rollback _ => .clear fun _ => false
  | .lookup l k => .lookup l k
  | .proceed l => .proceed l
  | .abandon l => .abandon l
  | .expire keys => .clear keys

def State.pending (s : State) : Input → ℕ → List Write
  | .perform t o =>
    Function.update s.transactions t (s.transactions t ++ (s.effect c t o).writes)
  | .commit t | .rollback t => Function.update s.transactions t []
  | _ => s.transactions

def step (s : State) (i : Input) : State :=
  ⟨Machine.ReadThrough.step queries s.proxy (s.seen c i), s.pending c i⟩

end Steps

/-- A process that starts over the rows of a project. -/
def start (rows : List ProxyPolicy) : State := ⟨⟨rows, fun _ => none, fun _ => none⟩, fun _ => []⟩

/-- From here until the next commit every lookup returns what one without the caches does. -/
def State.Current (s : State) : Prop := ReadThrough.Serves queries s.proxy

/-- A commit changes no lookup that is cached or about to be. -/
def CommitsUnheld (s : State) (i : Input) : Prop :=
  ∀ t, i = .commit t → ReadThrough.Unheld queries s.proxy (commit (s.transactions t))

variable {c : Canary.Settings} {s : State}

theorem coherent_step {i : Input} (h : ReadThrough.Coherent queries s.proxy) :
    ReadThrough.Coherent queries (step c s i).proxy ↔ CommitsUnheld s i := by
  constructor
  · rintro h' t rfl
    exact Machine.ReadThrough.unheld_of_coherent h h'
  · intro hx
    refine Machine.ReadThrough.coherent_step h fun f hf => ?_
    cases i with
    | commit t =>
      obtain rfl := Machine.ReadThrough.Input.write.inj hf
      exact hx t rfl
    | _ => exact absurd hf (by simp [State.seen])

/-- The caches of a run are current after each of its steps exactly where no commit changes a lookup
that is cached or about to be. -/
theorem lookups_current_iff (c : Canary.Settings) (rows : List ProxyPolicy) (run : List Input) :
    (∀ p ∈ steps (step c) (start rows) run, (step c p.1 p.2).Current) ↔
      ∀ p ∈ steps (step c) (start rows) run, CommitsUnheld p.1 p.2 := by
  have hrun := @Machine.Runs.steps_iff _ _ (step c) (fun _ => True)
    (fun s => ReadThrough.Coherent queries s.proxy) (fun _ _ => True) CommitsUnheld
    (fun _ _ => True) (fun _ _ _ _ => trivial)
    (fun _ _ _ _ hs => (and_iff_left trivial).trans (coherent_step hs)) run (start rows)
    trivial (Machine.ReadThrough.coherent_empty queries rows) (fun _ _ => trivial)
  simpa only [and_true, State.Current, Machine.ReadThrough.serves_iff] using hrun

/-! ## A rollback -/

def noCanary : Canary.Settings := ⟨true, false, 10, [10, 50, 100]⟩

def downshift : ProxyPolicy :=
  ⟨1, ⟨.modelDownshift, "gpt-5", defaultRoute⟩, true, 1 / 20, 100,
    [("candidate_model", .str "gpt-5-mini")], some 7, some 0⟩

/-- A lookup, then a rollback by the drift guard. -/
def rolledBack : List Input :=
  [.lookup 0 ⟨.routing, "gpt-5", none⟩, .proceed 0, .perform 0 (.recordRollback 1), .commit 0]

/-- The next request still resolves the policy that was rolled back. -/
theorem rolledBack_served :
    (final (step noCanary) (start [downshift]) rolledBack).proxy.serve queries
        ⟨.routing, "gpt-5", none⟩ = some (snapshot downshift .routing) ∧
      queries.read (final (step noCanary) (start [downshift]) rolledBack).proxy.store
        ⟨.routing, "gpt-5", none⟩ = none := by
  decide +kernel

end Varsten.Proxy.PolicyCaches
