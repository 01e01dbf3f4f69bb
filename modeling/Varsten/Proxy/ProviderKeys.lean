import Varsten.Machine.Runs

/-!
# Provider keys

The connection row and the cache of one project and provider, with the local database as the key
store. A call of the control plane is two sessions, each of which reads the row and later commits
what it changed of it, with clears of the cache between them; lookups of the hot path run at any
time. A call that has answered is gone.
-/

namespace Varsten.Proxy.ProviderKeys

open Machine.Runs (steps final steps_append)

/-- `_encrypt_ref` and `_decrypt_ref`, under the encryption key of the installation. A token holds
the moment and the random bytes it was made with. -/
structure Vault (Key Salt Ref : Type) where
  encryptRef : Salt → Key → Ref
  decryptRef : Ref → Option Key
  decrypt_encrypt : ∀ salt k, decryptRef (encryptRef salt k) = some k

variable {Key Salt Ref : Type}

inductive Operation (Key Salt : Type) where
  | connect (apiKey : Key) (salt : Salt)
  | disconnect

/-- The key that lookups are to return once the operation has answered. -/
def Operation.key : Operation Key Salt → Option Key
  | .connect k _ => some k
  | .disconnect => none

def Operation.secretRef (vault : Vault Key Salt Ref) : Operation Key Salt → Option Ref
  | .connect k salt => some (vault.encryptRef salt k)
  | .disconnect => none

/-- What a call does next: the read and the commit of the resolver's session, its clear of the
cache, the clear of `store_provider_key_for_project`, and the read and the commit of the endpoint.
A session keeps the row as it read it. -/
inductive Stage (Ref : Type) where
  | reading
  | storing (read : Option (Option Ref))
  | clearing
  | clearingAgain
  | recording
  | committing (read : Option (Option Ref))

def Stage.Cleared : Stage Ref → Prop
  | .recording | .committing _ => True
  | _ => False

structure Call (Key Salt Ref : Type) where
  operation : Operation Key Salt
  stage : Stage Ref

/-- `connection` is the `secret_ref` of the row, if there is a row; `promised` is what the last
call to answer made of the key, while no call has started since. -/
structure State (Key Salt Ref : Type) where
  connection : Option (Option Ref)
  cache : Option (Option Key)
  calls : ℕ → Option (Call Key Salt Ref)
  promised : Option (Option Key)

inductive Input (Key Salt : Type) where
  | start (r : ℕ) (op : Operation Key Salt)
  | advance (r : ℕ)
  | lookup
  | expire

section Machine

variable [DecidableEq Ref] (vault : Vault Key Salt Ref) (env : Option Key)

/-- `LocalDBProviderKeyResolver.get`; without a row, the key of the environment. -/
def resolverGet : Option (Option Ref) → Option Key
  | none => env
  | some none => none
  | some (some ref) => vault.decryptRef ref

/-- `provider_key_for_project`, which fetches under the lock of the cache. -/
def providerKeyForProject (s : State Key Salt Ref) : Option Key × State Key Salt Ref :=
  match s.cache with
  | some key => (key, s)
  | none =>
    let key := resolverGet vault env s.connection
    (key, { s with cache := some key })

def State.setCall (s : State Key Salt Ref) (r : ℕ) (c : Option (Call Key Salt Ref)) :
    State Key Salt Ref :=
  { s with calls := Function.update s.calls r c }

def written (read secretRef : Option Ref) (connection : Option (Option Ref)) :
    Option (Option Ref) :=
  if read = secretRef then connection else connection.map fun _ => secretRef

/-- An endpoint that found no row inserts one, and fails where there is one by then. -/
def advance (s : State Key Salt Ref) (r : ℕ) (c : Call Key Salt Ref) : State Key Salt Ref :=
  match c.stage with
  | .reading => s.setCall r (some ⟨c.operation, .storing s.connection⟩)
  | .storing none => s.setCall r (some ⟨c.operation, .clearing⟩)
  | .storing (some read) =>
    let next := s.setCall r (some ⟨c.operation, .clearing⟩)
    { next with connection := written read (c.operation.secretRef vault) s.connection }
  | .clearing =>
    let next := s.setCall r (some ⟨c.operation, .clearingAgain⟩)
    { next with cache := none }
  | .clearingAgain =>
    let next := s.setCall r (some ⟨c.operation, .recording⟩)
    { next with cache := none }
  | .recording => s.setCall r (some ⟨c.operation, .committing s.connection⟩)
  | .committing none =>
    let next := s.setCall r none
    if s.connection.isSome then next
    else { next with
      connection := some (c.operation.secretRef vault)
      promised := some c.operation.key }
  | .committing (some read) =>
    let next := s.setCall r none
    { next with
      connection := written read (c.operation.secretRef vault) s.connection
      promised := some c.operation.key }

def step (s : State Key Salt Ref) : Input Key Salt → State Key Salt Ref
  | .start r op =>
    if (s.calls r).isSome then s
    else
      let next := s.setCall r (some ⟨op, .reading⟩)
      { next with promised := none }
  | .advance r => (s.calls r).elim s (advance vault s r)
  | .lookup => (providerKeyForProject vault env s).2
  | .expire => { s with cache := none }

/-- What a call must find at its commits: its resolver stores no other key than the one a call
that it overlapped has answered with, and its endpoint finds the row as it read it. -/
def Undisturbed (s : State Key Salt Ref) (c : Call Key Salt Ref) : Prop :=
  (∀ read, c.stage = .storing (some read) → ∀ key ∈ s.promised, key = c.operation.key) ∧
    ∀ read, c.stage = .committing (some read) → s.connection = some read

/-- And no lookup fetches another key than the one a call that has cleared the cache will
commit. -/
def Orderly (s : State Key Salt Ref) : Input Key Salt → Prop
  | .lookup => s.cache = none → ∀ r c, s.calls r = some c → c.stage.Cleared →
      resolverGet vault env s.connection = c.operation.key
  | .advance r => ∀ c, s.calls r = some c → Undisturbed s c
  | _ => True

structure Inv (s : State Key Salt Ref) : Prop where
  pending : ∀ r c, s.calls r = some c → c.stage.Cleared → ∀ key ∈ s.cache, key = c.operation.key
  stored : ∀ key ∈ s.promised, resolverGet vault env s.connection = key
  cached : ∀ key ∈ s.promised, ∀ cached ∈ s.cache, cached = key

end Machine

/-! ## One step -/

variable {vault : Vault Key Salt Ref} {env : Option Key} {s : State Key Salt Ref} {r : ℕ}
  {c : Call Key Salt Ref}

theorem resolverGet_secretRef (op : Operation Key Salt) :
    resolverGet vault env (some (op.secretRef vault)) = op.key := by
  cases op with
  | connect k salt => exact vault.decrypt_encrypt salt k
  | disconnect => rfl

theorem setCall_self (next : Option (Call Key Salt Ref)) : (s.setCall r next).calls r = next :=
  Function.update_self _ _ _

theorem setCall_of_ne {r' : ℕ} (h : r' ≠ r) (next : Option (Call Key Salt Ref)) :
    (s.setCall r next).calls r' = s.calls r' := Function.update_of_ne h _ _

theorem setCall_forall {P : ℕ → Call Key Salt Ref → Prop} {next : Option (Call Key Salt Ref)}
    (hself : ∀ c ∈ next, P r c) (hother : ∀ r' c, s.calls r' = some c → P r' c) :
    ∀ r' c, (s.setCall r next).calls r' = some c → P r' c := by
  intro r' c hc
  by_cases hr : r' = r
  · rw [hr, setCall_self] at hc
    rw [hr]
    exact hself c hc
  · rw [setCall_of_ne hr] at hc
    exact hother r' c hc

variable [DecidableEq Ref]

theorem written_read (read secretRef : Option Ref) :
    written read secretRef (some read) = some secretRef := by
  unfold written
  split_ifs with h
  · rw [h]
  · rfl

theorem inv_advance (h : Inv vault env s) (hc : s.calls r = some c)
    (hx : Undisturbed s c) : Inv vault env (advance vault s r c) := by
  have hquiet : ∀ stage : Stage Ref, ¬stage.Cleared →
      Inv vault env (s.setCall r (some ⟨c.operation, stage⟩)) := by
    intro stage hstage
    refine ⟨setCall_forall (fun c' hc' hcleared => ?_) h.pending, h.stored, h.cached⟩
    obtain rfl := Option.some.inj hc'
    exact absurd hcleared hstage
  rw [advance.eq_def]
  cases hs : c.stage with
  | reading => exact hquiet _ id
  | storing read =>
    cases read with
    | none => exact hquiet _ id
    | some read =>
      refine ⟨(hquiet .clearing id).pending, fun key hkey => ?_, h.cached⟩
      have hsame : key = c.operation.key := hx.1 read hs key hkey
      have hstored : resolverGet vault env s.connection = key := h.stored key hkey
      dsimp only [written]
      split_ifs
      · exact hstored
      · cases hrow : s.connection with
        | none => rwa [hrow] at hstored
        | some ref =>
          rw [hsame]
          exact resolverGet_secretRef c.operation
  | clearing =>
    exact ⟨fun _ _ _ _ key hkey => absurd hkey (by simp), h.stored,
      fun _ _ key hkey => absurd hkey (by simp)⟩
  | clearingAgain =>
    exact ⟨fun _ _ _ _ key hkey => absurd hkey (by simp), h.stored,
      fun _ _ key hkey => absurd hkey (by simp)⟩
  | recording =>
    refine ⟨setCall_forall (fun c' hc' _ => ?_) h.pending, h.stored, h.cached⟩
    obtain rfl := Option.some.inj hc'
    exact h.pending r c hc (by rw [hs]; trivial)
  | committing read =>
    have hown : ∀ key ∈ s.cache, key = c.operation.key :=
      h.pending r c hc (by rw [hs]; trivial)
    have hrest : ∀ r' c', (s.setCall r none).calls r' = some c' → c'.stage.Cleared →
        ∀ key ∈ s.cache, key = c'.operation.key := setCall_forall (by simp) h.pending
    cases read with
    | none =>
      dsimp only
      split_ifs
      · exact ⟨hrest, h.stored, h.cached⟩
      · refine ⟨hrest, fun key hkey => ?_, fun key hkey cached hin => ?_⟩
        · obtain rfl := Option.some.inj hkey
          exact resolverGet_secretRef c.operation
        · obtain rfl := Option.some.inj hkey
          exact hown cached hin
    | some read =>
      refine ⟨hrest, fun key hkey => ?_, fun key hkey cached hin => ?_⟩
      · obtain rfl := Option.some.inj hkey
        dsimp only
        rw [hx.2 read hs, written_read]
        exact resolverGet_secretRef c.operation
      · obtain rfl := Option.some.inj hkey
        exact hown cached hin

theorem inv_step (h : Inv vault env s) {i : Input Key Salt} (hx : Orderly vault env s i) :
    Inv vault env (step vault env s i) := by
  cases i with
  | start r op =>
    rw [step]
    split_ifs
    · exact h
    · refine ⟨setCall_forall (fun c hc hcleared => ?_) h.pending,
        fun key hkey => absurd hkey (by simp), fun key hkey => absurd hkey (by simp)⟩
      obtain rfl := Option.some.inj hc
      exact absurd hcleared id
  | advance r =>
    rw [step]
    cases hc : s.calls r with
    | none => exact h
    | some c => exact inv_advance h hc (hx c hc)
  | lookup =>
    rw [step, providerKeyForProject.eq_def]
    cases hcache : s.cache with
    | some key => exact h
    | none =>
      refine ⟨fun r c hc hs key hkey => ?_, h.stored, fun key hkey cached hin => ?_⟩
      · obtain rfl := Option.some.inj hkey
        exact hx hcache r c hc hs
      · obtain rfl := Option.some.inj hin
        exact h.stored key hkey
  | expire =>
    exact ⟨fun _ _ _ _ key hkey => absurd hkey (by simp [step]), h.stored,
      fun _ _ key hkey => absurd hkey (by simp [step])⟩

/-! ## Whole runs -/

def initial (connection : Option (Option Ref)) (cache : Option (Option Key)) :
    State Key Salt Ref :=
  ⟨connection, cache, fun _ => none, none⟩

/-- A lookup after the last answer returns the key connected, or none after a disconnect. -/
def Served (vault : Vault Key Salt Ref) (env : Option Key) (s : State Key Salt Ref) : Prop :=
  ∀ key ∈ s.promised, (providerKeyForProject vault env s).1 = key

omit [DecidableEq Ref] in
theorem served_of_inv (h : Inv vault env s) : Served vault env s := by
  intro key hkey
  rw [providerKeyForProject.eq_def]
  cases hcache : s.cache with
  | some cached => exact h.cached key hkey cached hcache
  | none => exact h.stored key hkey

omit [DecidableEq Ref] in
theorem inv_initial (connection : Option (Option Ref)) (cache : Option (Option Key)) :
    Inv vault env (initial connection cache) := by
  refine ⟨?_, ?_, ?_⟩ <;> simp [initial]

/-- In an orderly run every lookup is served what the last call left. -/
theorem orderly_run_serves {connection : Option (Option Ref)} {cache : Option (Option Key)}
    {inputs : List (Input Key Salt)}
    (h : ∀ x ∈ steps (step vault env) (initial connection cache) inputs,
      Orderly vault env x.1 x.2) :
    Served vault env (final (step vault env) (initial connection cache) inputs) :=
  served_of_inv (@Machine.Runs.history _ _ _ (fun _ s => Inv vault env s) _
    (fun _ _ _ hx hs => inv_step hs hx) _ _ [] (inv_initial connection cache) h)

/-! ## A first connect -/

def plainVault : Vault String Unit String := ⟨fun _ k => k, some, fun _ _ => rfl⟩

def connected : List (Input String Unit) :=
  [.start 1 (.connect "sk-new" ()), .advance 1, .advance 1, .advance 1, .advance 1, .advance 1,
    .advance 1, .lookup]

theorem connected_key_served : Served plainVault none
    (final (step plainVault none) (initial (some none) none) connected) := by
  refine orderly_run_serves ?_
  simp only [connected, steps, List.forall_mem_cons]
  refine ⟨trivial, ?_, ?_, ?_, ?_, ?_, ?_, ?_, fun x hx => absurd hx List.not_mem_nil⟩
  · rintro c ⟨⟩
    exact ⟨fun _ h => (by cases h), fun _ h => (by cases h)⟩
  · rintro c ⟨⟩
    exact ⟨fun _ _ key hkey => (by cases hkey), fun _ h => (by cases h)⟩
  · rintro c ⟨⟩
    exact ⟨fun _ h => (by cases h), fun _ h => (by cases h)⟩
  · rintro c ⟨⟩
    exact ⟨fun _ h => (by cases h), fun _ h => (by cases h)⟩
  · rintro c ⟨⟩
    exact ⟨fun _ h => (by cases h), fun _ h => (by cases h)⟩
  · rintro c ⟨⟩
    refine ⟨fun _ h => (by cases h), ?_⟩
    rintro read ⟨⟩
    rfl
  · intro _ r c hc
    simp [step, advance, State.setCall, initial, written, Operation.secretRef, plainVault] at hc

/-- A lookup between the clears and the endpoint's commit leaves the absence of a key in the
cache. -/
def lookedUp : List (Input String Unit) :=
  [.start 1 (.connect "sk-new" ()), .advance 1, .advance 1, .advance 1, .advance 1, .lookup,
    .advance 1, .advance 1]

theorem first_connect_not_served :
    (final (step plainVault none) (initial none none) lookedUp).promised = some (some "sk-new") ∧
      (providerKeyForProject plainVault none
        (final (step plainVault none) (initial none none) lookedUp)).1 = none := by
  decide +kernel

end Varsten.Proxy.ProviderKeys
