import Varsten.Machine.Runs
import Varsten.Machine.Table
import Varsten.Python.Text

/-!
# API keys on the hot path

The keys of all projects, and the contexts that any number of instances resolve them to. A lookup
asks for the row of the key, may write when it was last used, and asks for the project. Where the
database raises, a cached context serves. `hash` is the digest of a key.
-/

namespace Varsten.Accounts.ApiKeys

open Machine (Table)
open Machine.Runs (steps final)
open Python.Utf8 (Text)

structure ApiKey where
  id : ℕ
  projectId : ℕ
  keyHash : Text
  lastUsedAt : Option ℚ
  revokedAt : Option ℚ
  deriving DecidableEq

variable {ι π : Type}

structure ApiKeyContext (π : Type) where
  project : π
  apiKey : ApiKey
  deriving DecidableEq

/-- Where a request may carry its key. -/
structure Request where
  credentials : Option Text
  xApiKey : Option Text
  xGoogApiKey : Option Text
  key : Option Text

def given (x : Option Text) : Option Text := x.filter (· ≠ [])

def proxyApiKeyToken (r : Request) : Option Text :=
  given r.credentials <|> given r.xApiKey <|> given r.xGoogApiKey <|> given r.key

def apiKeyPrefix : Text := ['v', 'k', '_']

/-- `LAST_USED_REFRESH`, in seconds. -/
def lastUsedRefresh : ℚ := 60

structure Settings where
  ttl : ℚ
  positiveCacheEnabled : Bool

/-- What a lookup waits for: the row of the key, its update, or the project. -/
inductive Phase where
  | selecting
  | touching (key : ApiKey)
  | loading (key : ApiKey)

def Phase.key : Phase → Option ApiKey
  | .selecting => none
  | .touching key => some key
  | .loading key => some key

structure Lookup (ι : Type) where
  instanceId : ι
  request : Request
  keyHash : Text
  phase : Phase

abbrev KeyCache (π : Type) := Text → Option (ℚ × ApiKeyContext π)

/-- `now` is the monotonic clock. -/
structure State (ι π : Type) where
  keys : Table ApiKey.keyHash
  projects : ℕ → Option π
  now : ℚ
  caches : ι → KeyCache π
  lookups : ℕ → Option (Lookup ι)

def State.initial : State ι π := ⟨Table.empty, fun _ => none, 0, fun _ _ => none, fun _ => none⟩

/-- `lost` is a commit whose answer does not arrive. -/
inductive Commit where
  | done
  | lost
  | failed
  deriving DecidableEq

/-- `answers` is whether the database answers, and `utc` what the wall clock shows. -/
inductive Input (ι π : Type) where
  | saveProject (p : ℕ) (row : π)
  | createApiKey (id projectId : ℕ) (keyHash : Text)
  | revokeApiKey (id : ℕ) (utc : ℚ)
  | pass (d : ℚ≥0)
  | restart (i : ι)
  | present (l : ℕ) (i : ι) (r : Request)
  | select (l : ℕ) (answers : Bool) (utc : ℚ)
  | touch (l : ℕ) (commit : Commit)
  | load (l : ℕ) (answers : Bool)

inductive Answer (π : Type) where
  | served (ctx : ApiKeyContext π)
  | unauthorized (detail : String)
  | raised
  deriving DecidableEq

def ApiKey.revoke (id : ℕ) (utc : ℚ) (key : ApiKey) : ApiKey :=
  if key.id = id ∧ key.revokedAt = none then { key with revokedAt := some utc } else key

def ApiKey.touch (used key : ApiKey) : ApiKey :=
  if key.id = used.id then { key with lastUsedAt := used.lastUsedAt } else key

def ApiKey.needsRefresh (key : ApiKey) (utc : ℚ) : Bool :=
  key.lastUsedAt.all fun t => lastUsedRefresh < utc - t

/-- The same key, no less revoked. -/
structure Same (key key' : ApiKey) : Prop where
  id : key'.id = key.id
  projectId : key'.projectId = key.projectId
  keyHash : key'.keyHash = key.keyHash
  revoked : key.revokedAt.isSome = true → key'.revokedAt.isSome = true

theorem Same.refl (key : ApiKey) : Same key key := ⟨rfl, rfl, rfl, fun h => h⟩

theorem Same.trans {x y z : ApiKey} (h : Same x y) (h' : Same y z) : Same x z :=
  ⟨h'.id.trans h.id, h'.projectId.trans h.projectId, h'.keyHash.trans h.keyHash,
    fun hx => h'.revoked (h.revoked hx)⟩

theorem same_revoke (id : ℕ) (utc : ℚ) (key : ApiKey) : Same key (key.revoke id utc) := by
  unfold ApiKey.revoke
  split_ifs
  · exact ⟨rfl, rfl, rfl, fun _ => rfl⟩
  · exact .refl key

theorem same_touch (used key : ApiKey) : Same key (used.touch key) := by
  unfold ApiKey.touch
  split_ifs
  · exact ⟨rfl, rfl, rfl, fun h => h⟩
  · exact .refl key

def State.setLookup (s : State ι π) (l : ℕ) (x : Option (Lookup ι)) : State ι π :=
  { s with lookups := Function.update s.lookups l x }

@[simp] theorem setLookup_lookups (s : State ι π) (l : ℕ) (x : Option (Lookup ι)) :
    (s.setLookup l x).lookups = Function.update s.lookups l x := rfl

@[simp] theorem setLookup_caches (s : State ι π) (l : ℕ) (x : Option (Lookup ι)) :
    (s.setLookup l x).caches = s.caches := rfl

section Steps

variable [DecidableEq ι] (c : Settings) (hash : Text → Text)

def cachedApiKeyContext (cache : KeyCache π) (keyHash : Text) (now : ℚ) :
    Option (ApiKeyContext π) × KeyCache π :=
  if c.ttl ≤ 0 then (none, cache)
  else
    match cache keyHash with
    | none => (none, cache)
    | some (storedAt, ctx) =>
      if now - storedAt ≤ c.ttl then (some ctx, cache)
      else (none, Function.update cache keyHash none)

def State.setCache (s : State ι π) (i : ι) (cache : KeyCache π) : State ι π :=
  { s with caches := Function.update s.caches i cache }

@[simp] theorem setCache_caches (s : State ι π) (i : ι) (cache : KeyCache π) :
    (s.setCache i cache).caches = Function.update s.caches i cache := rfl

def failOpen (s : State ι π) (l : ℕ) (x : Lookup ι) : Option (Answer π) × State ι π :=
  let r := cachedApiKeyContext c (s.caches x.instanceId) x.keyHash s.now
  let s' := (s.setCache x.instanceId r.2).setLookup l none
  match r.1 with
  | some ctx => (some (.served ctx), s')
  | none => (some .raised, s')

/-- `require_api_key_context_async`, up to its first query. -/
def present (s : State ι π) (l : ℕ) (i : ι) (r : Request) : Option (Answer π) × State ι π :=
  match proxyApiKeyToken r with
  | none => (some (.unauthorized "missing credentials"), s)
  | some token =>
    if !Python.Text.startsWith token apiKeyPrefix then
      (some (.unauthorized "expected an api key"), s)
    else
      let asked : Lookup ι := ⟨i, r, hash token, .selecting⟩
      if c.positiveCacheEnabled then
        let r := cachedApiKeyContext c (s.caches i) (hash token) s.now
        match r.1 with
        | some ctx => (some (.served ctx), s.setCache i r.2)
        | none => (none, (s.setCache i r.2).setLookup l (some asked))
      else (none, s.setLookup l (some asked))

def select (s : State ι π) (l : ℕ) (x : Lookup ι) (answers : Bool) (utc : ℚ) :
    Option (Answer π) × State ι π :=
  if !answers then failOpen c s l x
  else
    match s.keys.find x.keyHash with
    | none => (some (.unauthorized "invalid api key"), s.setLookup l none)
    | some key =>
      if key.revokedAt.isSome then
        (some (.unauthorized "invalid api key"), s.setLookup l none)
      else
        let phase : Phase :=
          if key.needsRefresh utc then .touching { key with lastUsedAt := some utc }
          else .loading key
        (none, s.setLookup l (some { x with phase }))

def touch (s : State ι π) (l : ℕ) (x : Lookup ι) (key : ApiKey) (commit : Commit) :
    Option (Answer π) × State ι π :=
  let s' : State ι π := if commit = .failed then s else
    { s with keys := s.keys.update key.touch fun row => (same_touch key row).keyHash }
  if commit = .done then (none, s'.setLookup l (some { x with phase := .loading key }))
  else failOpen c s' l x

/-- The project, and the context that is cached. -/
def load (s : State ι π) (l : ℕ) (x : Lookup ι) (key : ApiKey) (answers : Bool) :
    Option (Answer π) × State ι π :=
  if !answers then failOpen c s l x
  else
    match s.projects key.projectId with
    | none => (some (.unauthorized "invalid api key"), s.setLookup l none)
    | some project =>
      let ctx : ApiKeyContext π := ⟨project, key⟩
      let cache := s.caches x.instanceId
      let cache' := if 0 < c.ttl then Function.update cache x.keyHash (some (s.now, ctx)) else cache
      (some (.served ctx), (s.setCache x.instanceId cache').setLookup l none)

def create (s : State ι π) (id projectId : ℕ) (keyHash : Text) : State ι π :=
  if s.keys.rows.any (·.id = id) || (s.projects projectId).isNone then s
  else (s.keys.add ⟨id, projectId, keyHash, none, none⟩).elim s fun keys => { s with keys }

def answer (s : State ι π) : Input ι π → Option (Answer π) × State ι π
  | .saveProject p row => (none, { s with projects := Function.update s.projects p (some row) })
  | .createApiKey id projectId keyHash => (none, create s id projectId keyHash)
  | .revokeApiKey id utc => (none, { s with
      keys := s.keys.update (ApiKey.revoke id utc) fun row => (same_revoke id utc row).keyHash })
  | .pass d => (none, { s with now := s.now + d })
  | .restart i => (none, { s with
      caches := Function.update s.caches i fun _ => none
      lookups := fun l => (s.lookups l).filter (·.instanceId ≠ i) })
  | .present l i r => present c hash s l i r
  | .select l answers utc =>
    match s.lookups l with
    | some ⟨i, r, h, .selecting⟩ => select c s l ⟨i, r, h, .selecting⟩ answers utc
    | _ => (none, s)
  | .touch l commit =>
    match s.lookups l with
    | some ⟨i, r, h, .touching key⟩ => touch c s l ⟨i, r, h, .touching key⟩ key commit
    | _ => (none, s)
  | .load l answers =>
    match s.lookups l with
    | some ⟨i, r, h, .loading key⟩ => load c s l ⟨i, r, h, .loading key⟩ key answers
    | _ => (none, s)

def step (s : State ι π) (a : Input ι π) : State ι π := (answer c hash s a).2

def returned (s : State ι π) (a : Input ι π) : Option (Answer π) := (answer c hash s a).1

end Steps

/-- The request that a step works on. -/
def requestOf (s : State ι π) : Input ι π → Option Request
  | .present _ _ r => some r
  | .select l _ _ => (s.lookups l).map (·.request)
  | .touch l _ => (s.lookups l).map (·.request)
  | .load l _ => (s.lookups l).map (·.request)
  | _ => none

/-! ## The cache -/

section Cache

variable {c : Settings} {cache : KeyCache π} {k k' : Text} {now t : ℚ} {ctx : ApiKeyContext π}

theorem cached_eq_some : (cachedApiKeyContext c cache k now).1 = some ctx ↔
    0 < c.ttl ∧ ∃ t, cache k = some (t, ctx) ∧ now - t ≤ c.ttl := by
  unfold cachedApiKeyContext
  by_cases hpos : c.ttl ≤ 0
  · simp [hpos, not_lt.2 hpos]
  · rw [if_neg hpos]
    cases cache k with
    | none => simp
    | some e =>
      obtain ⟨t, x⟩ := e
      dsimp only
      split_ifs with hlive
      · simp only [Option.some.injEq, Prod.mk.injEq, not_le.1 hpos, true_and]
        constructor
        · rintro rfl
          exact ⟨t, ⟨rfl, rfl⟩, hlive⟩
        · rintro ⟨t', ⟨-, rfl⟩, -⟩
          rfl
      · simp only [Option.some.injEq, Prod.mk.injEq, false_iff, not_and]
        rintro - ⟨t', ⟨rfl, -⟩, hlive'⟩
        exact hlive hlive'

theorem cached_sub {e : ℚ × ApiKeyContext π}
    (h : (cachedApiKeyContext c cache k now).2 k' = some e) : cache k' = some e := by
  unfold cachedApiKeyContext at h
  split_ifs at h
  · exact h
  · cases hk : cache k with
    | none => simpa only [hk] using h
    | some x =>
      simp only [hk] at h
      split_ifs at h
      · exact h
      · dsimp only at h
        by_cases hne : k' = k
        · rw [hne, Function.update_self] at h
          cases h
        · rwa [Function.update_of_ne hne] at h

theorem cached_keeps (h : cache k' = some (t, ctx)) :
    c.ttl < now - t ∨ (cachedApiKeyContext c cache k now).2 k' = some (t, ctx) := by
  unfold cachedApiKeyContext
  split_ifs
  · exact .inr h
  · cases hk : cache k with
    | none => exact .inr h
    | some x =>
      dsimp only
      split_ifs with hlive
      · exact .inr h
      · by_cases hne : k' = k
        · obtain rfl : x = (t, ctx) := by
            rw [hne, hk] at h
            exact Option.some.inj h
          exact .inl (not_le.1 hlive)
        · exact .inr ((Function.update_of_ne hne _ _).trans h)

end Cache

/-! ## What a step does -/

section Effects

variable {c : Settings} {hash : Text → Text} {s s' : State ι π} {a : Input ι π}

/-- The key of a request, as a hash. -/
def Carries (hash : Text → Text) (r : Request) (k : Text) : Prop :=
  ∃ token, proxyApiKeyToken r = some token ∧
    Python.Text.startsWith token apiKeyPrefix = true ∧ hash token = k

/-- The database raises in a lookup. -/
inductive Fails (l : ℕ) : Phase → Input ι π → Prop
  | select (utc : ℚ) : Fails l .selecting (.select l false utc)
  | touch (key : ApiKey) {commit : Commit} (h : commit ≠ .done) :
      Fails l (.touching key) (.touch l commit)
  | load (key : ApiKey) : Fails l (.loading key) (.load l false)

def Carried (t t' : Table ApiKey.keyHash) : Prop := ∀ key ∈ t.rows, ∃ key' ∈ t'.rows, Same key key'

theorem Carried.refl (t : Table ApiKey.keyHash) : Carried t t := fun key hkey =>
  ⟨key, hkey, .refl key⟩

theorem Carried.trans {t t' t'' : Table ApiKey.keyHash} (h : Carried t t') (h' : Carried t' t'') :
    Carried t t'' := by
  intro x hx
  obtain ⟨y, hy, hxy⟩ := h x hx
  obtain ⟨z, hz, hyz⟩ := h' y hy
  exact ⟨z, hz, hxy.trans hyz⟩

theorem carried_update (t : Table ApiKey.keyHash) {f : ApiKey → ApiKey}
    (hf : ∀ key, Same key (f key)) : Carried t (t.update f fun key => (hf key).keyHash) :=
  fun key hkey => ⟨f key, List.mem_map_of_mem hkey, hf key⟩

/-- What every step keeps: the keys, and the entries that have not expired. -/
structure Keeps (c : Settings) (s : State ι π) (a : Input ι π) (s' : State ι π) : Prop where
  keys : Carried s.keys s'.keys
  now : s.now ≤ s'.now
  entries : ∀ i k t ctx, a ≠ .restart i → s.caches i k = some (t, ctx) →
    c.ttl < s.now - t ∨ s'.caches i k = some (t, ctx) ∨ ∃ ctx', s'.caches i k = some (s.now, ctx')

def Entries (s s' : State ι π) : Prop :=
  ∀ i k e, s'.caches i k = some e → s.caches i k = some e

/-- A lookup asks for the row of the key, and the database answers with a live one. -/
def Selects (k : Text) (row : ApiKey) (q : State ι π × Input ι π) : Prop :=
  (∃ l i r utc, q.2 = .select l true utc ∧ q.1.lookups l = some ⟨i, r, k, .selecting⟩) ∧
    q.1.keys.find k = some row ∧ row.revokedAt = none

inductive Moved (hash : Text → Text) (s : State ι π) (a : Input ι π) (l : ℕ) : Lookup ι → Prop
  | asked {i : ι} {r : Request} {k : Text} (h : Carries hash r k) :
      Moved hash s a l ⟨i, r, k, .selecting⟩
  | selected {i : ι} {r : Request} {k : Text} {key key' : ApiKey} {phase : Phase}
      (hselects : Selects k key (s, a)) (hl : s.lookups l = some ⟨i, r, k, .selecting⟩)
      (hphase : phase.key = some key') (hsame : Same key key') :
      Moved hash s a l ⟨i, r, k, phase⟩
  | touched {i : ι} {r : Request} {k : Text} {key : ApiKey}
      (hl : s.lookups l = some ⟨i, r, k, .touching key⟩) :
      Moved hash s a l ⟨i, r, k, .loading key⟩

inductive Effect (c : Settings) (hash : Text → Text) (s : State ι π) :
    Input ι π → Option (Answer π) → State ι π → Prop
  | quiet {a : Input ι π} {ans : Option (Answer π)} {s' : State ι π} (hkeeps : Keeps c s a s')
      (hentries : Entries s s') (hlookups : ∀ l x, s'.lookups l = some x → s.lookups l = some x)
      (hans : ∀ ctx, ans ≠ some (.served ctx)) : Effect c hash s a ans s'
  | cached {a : Input ι π} {s' : State ι π} {i : ι} {r : Request} {k : Text} {t : ℚ}
      {ctx : ApiKeyContext π} (hkeeps : Keeps c s a s') (hentries : Entries s s')
      (hlookups : ∀ l x, s'.lookups l = some x → s.lookups l = some x)
      (hr : requestOf s a = some r) (hk : Carries hash r k ∨ ∃ l p, s.lookups l = some ⟨i, r, k, p⟩)
      (hentry : s.caches i k = some (t, ctx)) (hpos : 0 < c.ttl) (hlive : s.now - t ≤ c.ttl)
      (hwhy : (c.positiveCacheEnabled = true ∧ ∃ l i r, a = .present l i r) ∨
        ∃ l x, s.lookups l = some x ∧ Fails l x.phase a) :
      Effect c hash s a (some (.served ctx)) s'
  | moved {a : Input ι π} {s' : State ι π} {l : ℕ} {x : Lookup ι} (hkeeps : Keeps c s a s')
      (hentries : Entries s s') (hl : s'.lookups l = some x)
      (hlookups : ∀ l', l' ≠ l → s'.lookups l' = s.lookups l') (hmoved : Moved hash s a l x) :
      Effect c hash s a none s'
  | loaded {s' : State ι π} {l : ℕ} {i : ι} {r : Request} {k : Text} {key : ApiKey} {project : π}
      (hkeeps : Keeps c s (.load l true) s') (hl : s.lookups l = some ⟨i, r, k, .loading key⟩)
      (hproject : s.projects key.projectId = some project)
      (hentries : ∀ j k' e, s'.caches j k' = some e →
        s.caches j k' = some e ∨ (k' = k ∧ e = (s.now, ⟨project, key⟩)))
      (hstored : 0 < c.ttl → s'.caches i k = some (s.now, ⟨project, key⟩))
      (hlookups : ∀ l x, s'.lookups l = some x → s.lookups l = some x) :
      Effect c hash s (.load l true) (some (.served ⟨project, key⟩)) s'

theorem Keeps.of_caches (hkeys : Carried s.keys s'.keys) (hnow : s.now ≤ s'.now)
    (hcaches : s'.caches = s.caches) : Keeps c s a s' :=
  ⟨hkeys, hnow, fun _ _ _ _ _ h => .inr (.inl (hcaches ▸ h))⟩

theorem effect_of_data (hcaches : s'.caches = s.caches) (hlookups : s'.lookups = s.lookups)
    (hkeys : Carried s.keys s'.keys) (hnow : s.now ≤ s'.now) : Effect c hash s a none s' :=
  .quiet (.of_caches hkeys hnow hcaches) (fun _ _ _ h => hcaches ▸ h) (fun _ _ h => hlookups ▸ h)
    nofun

theorem setLookup_none_sub (s : State ι π) {l l' : ℕ} {x : Lookup ι}
    (h : (s.setLookup l none).lookups l' = some x) : s.lookups l' = some x := by
  rw [setLookup_lookups] at h
  by_cases hne : l' = l
  · simp [hne] at h
  · rwa [Function.update_of_ne hne] at h

theorem effect_ended (l : ℕ) (detail : String) :
    Effect c hash s a (some (.unauthorized detail)) (s.setLookup l none) :=
  .quiet (.of_caches (.refl _) le_rfl rfl) (fun _ _ _ h => h)
    (fun _ _ h => setLookup_none_sub _ h) nofun

theorem effect_create (id projectId : ℕ) (k : Text) :
    Effect c hash s (.createApiKey id projectId k) none (create s id projectId k) := by
  unfold create
  split_ifs
  · exact effect_of_data rfl rfl (.refl _) le_rfl
  · cases hadd : s.keys.add ⟨id, projectId, k, none, none⟩ with
    | none => exact effect_of_data rfl rfl (.refl _) le_rfl
    | some keys =>
      obtain ⟨hnone, rfl⟩ := Table.add_eq_some.1 hadd
      refine effect_of_data rfl rfl (fun key hkey => ⟨key, ?_, .refl key⟩) le_rfl
      exact Table.mem_put.2 (.inr ⟨hkey, Table.find_eq_none.1 hnone key hkey⟩)

variable [DecidableEq ι]

theorem entries_setCache {i : ι} {k : Text} {now : ℚ} :
    Entries s (s.setCache i (cachedApiKeyContext c (s.caches i) k now).2) := by
  intro j k' e h
  rw [setCache_caches] at h
  by_cases hj : j = i
  · subst hj
    rw [Function.update_self] at h
    exact cached_sub h
  · rwa [Function.update_of_ne hj] at h

theorem keeps_setCache (a : Input ι π) {i : ι} {k : Text} :
    Keeps c s a (s.setCache i (cachedApiKeyContext c (s.caches i) k s.now).2) where
  keys := .refl _
  now := le_rfl
  entries j k' t ctx _ h := by
    rw [setCache_caches]
    by_cases hj : j = i
    · subst hj
      rw [Function.update_self]
      exact (cached_keeps h).imp_right .inl
    · rw [Function.update_of_ne hj]
      exact .inr (.inl h)

theorem effect_failOpen {l : ℕ} {x : Lookup ι} (hx : s.lookups l = some x)
    (hfails : Fails l x.phase a) {keys : Table ApiKey.keyHash} (hkeys : Carried s.keys keys) :
    Effect c hash s a (failOpen c { s with keys } l x).1 (failOpen c { s with keys } l x).2 := by
  have hr : requestOf s a = some x.request := by
    generalize x.phase = p at hfails
    cases hfails <;> simp [requestOf, hx]
  let s' : State ι π := (({ s with keys } : State ι π).setCache x.instanceId
    (cachedApiKeyContext c (s.caches x.instanceId) x.keyHash s.now).2).setLookup l none
  have hkeeps : Keeps c s a s' := ⟨hkeys, le_rfl, (keeps_setCache a).entries⟩
  have hentries : Entries s s' := entries_setCache
  have hlookups : ∀ l' y, s'.lookups l' = some y → s.lookups l' = some y :=
    fun _ _ h => setLookup_none_sub _ h
  unfold failOpen
  dsimp only
  cases hc : (cachedApiKeyContext c (s.caches x.instanceId) x.keyHash s.now).1 with
  | none => exact .quiet hkeeps hentries hlookups nofun
  | some ctx =>
    obtain ⟨hpos, t, hentry, hlive⟩ := cached_eq_some.1 hc
    exact .cached hkeeps hentries hlookups hr (.inr ⟨l, x.phase, hx⟩) hentry hpos hlive
      (.inr ⟨l, x, hx, hfails⟩)

theorem effect_present (l : ℕ) (i : ι) (r : Request) :
    Effect c hash s (.present l i r) (present c hash s l i r).1 (present c hash s l i r).2 := by
  have hrefused : ∀ detail, Effect c hash s (.present l i r) (some (.unauthorized detail)) s :=
    fun _ => .quiet (.of_caches (.refl _) le_rfl rfl) (fun _ _ _ h => h) (fun _ _ h => h) nofun
  unfold present
  cases htoken : proxyApiKeyToken r with
  | none => exact hrefused _
  | some token =>
    dsimp only
    cases hprefix : Python.Text.startsWith token apiKeyPrefix with
    | false => exact hrefused _
    | true =>
      have hcarries : Carries hash r (hash token) := ⟨token, htoken, hprefix, rfl⟩
      have hothers : ∀ (s' : State ι π) (x : Lookup ι) (l' : ℕ), l' ≠ l →
          (s'.setLookup l (some x)).lookups l' = s'.lookups l' :=
        fun _ _ _ h => Function.update_of_ne h _ _
      simp only [Bool.not_true, Bool.false_eq_true, if_false]
      cases hpositive : c.positiveCacheEnabled with
      | false =>
        exact .moved (.of_caches (.refl _) le_rfl rfl) (fun _ _ _ h => h)
          (Function.update_self _ _ _) (hothers s _) (.asked hcarries)
      | true =>
        simp only [if_true]
        cases hc : (cachedApiKeyContext c (s.caches i) (hash token) s.now).1 with
        | some ctx =>
          obtain ⟨hpos, t, hentry, hlive⟩ := cached_eq_some.1 hc
          exact .cached (keeps_setCache _) entries_setCache (fun _ _ h => h) rfl (.inl hcarries)
            hentry hpos hlive (.inl ⟨hpositive, l, i, r, rfl⟩)
        | none =>
          have hkeeps := keeps_setCache (c := c) (s := s) (.present l i r) (i := i)
            (k := hash token)
          exact .moved ⟨hkeeps.keys, hkeeps.now, hkeeps.entries⟩ entries_setCache
            (Function.update_self _ _ _) (hothers _ _) (.asked hcarries)

theorem effect_select {l : ℕ} {i : ι} {r : Request} {k : Text} (answers : Bool) (utc : ℚ)
    (hl : s.lookups l = some ⟨i, r, k, .selecting⟩) :
    Effect c hash s (.select l answers utc) (select c s l ⟨i, r, k, .selecting⟩ answers utc).1
      (select c s l ⟨i, r, k, .selecting⟩ answers utc).2 := by
  unfold select
  cases answers with
  | false => exact effect_failOpen hl (.select utc) (.refl _)
  | true =>
    simp only [Bool.not_true, Bool.false_eq_true, if_false]
    cases hkey : s.keys.find k with
    | none => exact effect_ended l _
    | some key =>
      dsimp only
      cases hlive : key.revokedAt with
      | some _ => exact effect_ended l _
      | none =>
        have hmoved : ∀ (p : Phase) (key' : ApiKey), p.key = some key' → Same key key' →
            Effect c hash s (.select l true utc) none (s.setLookup l (some ⟨i, r, k, p⟩)) :=
          fun p key' hp hsame => .moved (.of_caches (.refl _) le_rfl rfl) (fun _ _ _ h => h)
            (Function.update_self _ _ _) (fun _ h => Function.update_of_ne h _ _)
            (.selected ⟨⟨l, i, r, utc, rfl, hl⟩, hkey, hlive⟩ hl hp hsame)
        simp only [Option.isSome_none, Bool.false_eq_true, if_false]
        split_ifs
        · exact hmoved _ _ rfl ⟨rfl, rfl, rfl, fun h => by simp [hlive] at h⟩
        · exact hmoved _ _ rfl (.refl key)

theorem effect_touch {l : ℕ} {i : ι} {r : Request} {k : Text} {key : ApiKey} (commit : Commit)
    (hl : s.lookups l = some ⟨i, r, k, .touching key⟩) :
    Effect c hash s (.touch l commit) (touch c s l ⟨i, r, k, .touching key⟩ key commit).1
      (touch c s l ⟨i, r, k, .touching key⟩ key commit).2 := by
  have hkeys := carried_update s.keys (same_touch key)
  cases commit with
  | done =>
    exact .moved (.of_caches hkeys le_rfl rfl) (fun _ _ _ h => h) (Function.update_self _ _ _)
      (fun _ h => Function.update_of_ne h _ _) (.touched hl)
  | lost => exact effect_failOpen hl (.touch key (show Commit.lost ≠ .done by decide)) hkeys
  | failed =>
    exact effect_failOpen hl (.touch key (show Commit.failed ≠ .done by decide)) (.refl _)

theorem effect_load {l : ℕ} {i : ι} {r : Request} {k : Text} {key : ApiKey} (answers : Bool)
    (hl : s.lookups l = some ⟨i, r, k, .loading key⟩) :
    Effect c hash s (.load l answers) (load c s l ⟨i, r, k, .loading key⟩ key answers).1
      (load c s l ⟨i, r, k, .loading key⟩ key answers).2 := by
  unfold load
  cases answers with
  | false => exact effect_failOpen hl (.load key) (.refl _)
  | true =>
    simp only [Bool.not_true, Bool.false_eq_true, if_false]
    cases hproject : s.projects key.projectId with
    | none => exact effect_ended l _
    | some project =>
      dsimp only
      refine .loaded ⟨.refl _, le_rfl, fun j k' t ctx _ h => ?_⟩ hl hproject (fun j k' e h => ?_)
        (fun hpos => ?_) fun _ _ h => setLookup_none_sub _ h
      · by_cases hj : j = i
        · subst hj
          simp only [setLookup_caches, setCache_caches, Function.update_self]
          split_ifs
          · by_cases hk : k' = k
            · subst hk
              exact .inr (.inr ⟨_, Function.update_self _ _ _⟩)
            · exact .inr (.inl ((Function.update_of_ne hk _ _).trans h))
          · exact .inr (.inl h)
        · simp only [setLookup_caches, setCache_caches, Function.update_of_ne hj]
          exact .inr (.inl h)
      · by_cases hj : j = i
        · subst hj
          simp only [setLookup_caches, setCache_caches, Function.update_self] at h
          split_ifs at h
          · by_cases hk : k' = k
            · subst hk
              rw [Function.update_self] at h
              exact .inr ⟨rfl, (Option.some.inj h).symm⟩
            · rw [Function.update_of_ne hk] at h
              exact .inl h
          · exact .inl h
        · simp only [setLookup_caches, setCache_caches, Function.update_of_ne hj] at h
          exact .inl h
      · simp only [setLookup_caches, setCache_caches, Function.update_self, if_pos hpos]

theorem effect (c : Settings) (hash : Text → Text) (s : State ι π) (a : Input ι π) :
    Effect c hash s a (returned c hash s a) (step c hash s a) := by
  have hignored : ∀ a, Effect c hash s a none s := fun _ =>
    effect_of_data rfl rfl (.refl _) le_rfl
  unfold returned step
  cases a with
  | saveProject p row => exact effect_of_data rfl rfl (.refl _) le_rfl
  | createApiKey id p k => exact effect_create id p k
  | revokeApiKey id utc =>
    exact effect_of_data rfl rfl (carried_update s.keys (same_revoke id utc)) le_rfl
  | pass d => exact effect_of_data rfl rfl (.refl _) (le_add_of_nonneg_right d.2)
  | restart i =>
    refine .quiet ⟨.refl _, le_rfl, fun j k t ctx hne h => .inr (.inl ?_)⟩ (fun j k e h => ?_)
      (fun l x h => (Option.filter_eq_some_iff.1 h).1) nofun
    · have hj : j ≠ i := fun hj => hne (by rw [hj])
      exact (congrFun (Function.update_of_ne hj _ _) k).trans h
    · by_cases hj : j = i
      · simp [answer, hj] at h
      · simpa only [answer, Function.update_of_ne hj] using h
  | present l i r => exact effect_present l i r
  | select l answers utc =>
    rcases hl : s.lookups l with _ | ⟨i, r, k, _ | key | key⟩ <;> simp only [answer, hl]
    · exact hignored _
    · exact effect_select answers utc hl
    · exact hignored _
    · exact hignored _
  | touch l commit =>
    rcases hl : s.lookups l with _ | ⟨i, r, k, _ | key | key⟩ <;> simp only [answer, hl]
    · exact hignored _
    · exact hignored _
    · exact effect_touch commit hl
    · exact hignored _
  | load l answers =>
    rcases hl : s.lookups l with _ | ⟨i, r, k, _ | key | key⟩ <;> simp only [answer, hl]
    · exact hignored _
    · exact hignored _
    · exact hignored _
    · exact effect_load answers hl

end Effects

/-! ## Runs -/

variable [DecidableEq ι] {c : Settings} {hash : Text → Text} {s : State ι π} {a : Input ι π}
  {past : List (State ι π × Input ι π)}

def Issued (past : List (State ι π × Input ι π)) (k : Text) (key : ApiKey) : Prop :=
  ∃ q ∈ past, ∃ row, Selects k row q ∧ Same row key

def Loaded (past : List (State ι π × Input ι π)) (ctx : ApiKeyContext π) : Prop :=
  ∃ q ∈ past, q.1.projects ctx.apiKey.projectId = some ctx.project

structure Known (hash : Text → Text) (past : List (State ι π × Input ι π)) (s : State ι π) :
    Prop where
  earlier : ∀ q ∈ past, Carried q.1.keys s.keys
  lookups : ∀ l i r k p, s.lookups l = some ⟨i, r, k, p⟩ →
    Carries hash r k ∧ ∀ key, p.key = some key → Issued past k key
  caches : ∀ i k t ctx, s.caches i k = some (t, ctx) →
    t ≤ s.now ∧ Issued past k ctx.apiKey ∧ Loaded past ctx

omit [DecidableEq ι] in
theorem Issued.later {k : Text} {key : ApiKey} (h : Issued past k key) (q : State ι π × Input ι π) :
    Issued (past ++ [q]) k key := by
  obtain ⟨q', hq', h⟩ := h
  exact ⟨q', List.mem_append_left _ hq', h⟩

omit [DecidableEq ι] in
theorem Loaded.later {ctx : ApiKeyContext π} (h : Loaded past ctx) (q : State ι π × Input ι π) :
    Loaded (past ++ [q]) ctx := by
  obtain ⟨q', hq', h⟩ := h
  exact ⟨q', List.mem_append_left _ hq', h⟩

omit [DecidableEq ι] in
theorem issued_keyHash {k : Text} {key : ApiKey} (h : Issued past k key) : key.keyHash = k := by
  obtain ⟨q, -, row, ⟨-, hrow, -⟩, hsame⟩ := h
  exact hsame.keyHash.trans (Table.find_eq_some.1 hrow).2

omit [DecidableEq ι] in
theorem known_initial : Known hash [] (State.initial : State ι π) :=
  ⟨nofun, nofun, nofun⟩

theorem Known.step (h : Known hash past s) (a : Input ι π) :
    Known hash (past ++ [(s, a)]) (step c hash s a) := by
  have hnew : (s, a) ∈ past ++ [(s, a)] := List.mem_append_right _ (List.mem_singleton_self _)
  have hearlier : ∀ {s' : State ι π}, Carried s.keys s'.keys →
      ∀ q ∈ past ++ [(s, a)], Carried q.1.keys s'.keys := by
    intro s' hkeys q hq
    rcases List.mem_append.1 hq with hq | hq
    · exact (h.earlier q hq).trans hkeys
    · rwa [List.mem_singleton.1 hq]
  have hold : ∀ {l : ℕ} {i : ι} {r : Request} {k : Text} {p : Phase},
      s.lookups l = some ⟨i, r, k, p⟩ →
      Carries hash r k ∧ ∀ key, p.key = some key → Issued (past ++ [(s, a)]) k key :=
    fun hl => (h.lookups _ _ _ _ _ hl).imp_right fun hp key hkey => (hp key hkey).later _
  have hcached : ∀ {s' : State ι π} {i : ι} {k : Text} {t : ℚ} {ctx : ApiKeyContext π},
      s.now ≤ s'.now → s.caches i k = some (t, ctx) →
      t ≤ s'.now ∧ Issued (past ++ [(s, a)]) k ctx.apiKey ∧ Loaded (past ++ [(s, a)]) ctx := by
    intro s' i k t ctx hnow hentry
    obtain ⟨ht, hissued, hloaded⟩ := h.caches i k t ctx hentry
    exact ⟨ht.trans hnow, hissued.later _, hloaded.later _⟩
  have heffect := effect c hash s a
  generalize ApiKeys.step c hash s a = s', returned c hash s a = ans at heffect
  cases heffect with
  | quiet hkeeps hentries hlookups =>
    exact ⟨hearlier hkeeps.keys, fun l i r k p hl => hold (hlookups l _ hl),
      fun i k t ctx he => hcached hkeeps.now (hentries i k _ he)⟩
  | cached hkeeps hentries hlookups =>
    exact ⟨hearlier hkeeps.keys, fun l i r k p hl => hold (hlookups l _ hl),
      fun i k t ctx he => hcached hkeeps.now (hentries i k _ he)⟩
  | @moved _ _ l x hkeeps hentries hl hlookups hmoved =>
    refine ⟨hearlier hkeeps.keys, fun l' i r k p hl' => ?_,
      fun i k t ctx he => hcached hkeeps.now (hentries i k _ he)⟩
    by_cases hne : l' = l
    · subst hne
      obtain rfl := Option.some.inj (hl.symm.trans hl')
      cases hmoved with
      | asked hcarries => exact ⟨hcarries, nofun⟩
      | selected hselects hasked hphase hsame =>
        refine ⟨(h.lookups _ _ _ _ _ hasked).1, fun key' hkey' => ?_⟩
        obtain rfl := Option.some.inj (hphase.symm.trans hkey')
        exact ⟨_, hnew, _, hselects, hsame⟩
      | touched hread => exact ⟨(hold hread).1, fun key' hkey' => (hold hread).2 key' hkey'⟩
    · exact hold ((hlookups l' hne).symm.trans hl')
  | @loaded _ l i r k key project hkeeps hl hproject hentries hstored hlookups =>
    refine ⟨hearlier hkeeps.keys, fun l i r k p hl => hold (hlookups l _ hl),
      fun j k' t ctx he => ?_⟩
    rcases hentries j k' _ he with he | ⟨rfl, he⟩
    · exact hcached hkeeps.now he
    · obtain ⟨rfl, rfl⟩ := Prod.mk.inj he
      exact ⟨hkeeps.now, (hold hl).2 _ rfl, _, hnew, hproject⟩

theorem known_run (c : Settings) (hash : Text → Text) (as : List (Input ι π)) :
    Known hash (steps (step c hash) .initial as) (final (step c hash) .initial as) := by
  have hstep : ∀ past (s : State ι π) a, True → Known hash past s →
      Known hash (past ++ [(s, a)]) (step c hash s a) := fun _ _ a _ h => h.step a
  exact Machine.Runs.history hstep known_initial fun _ _ => trivial

omit [DecidableEq ι] in
theorem Known.row (h : Known hash past s) {k : Text} {key : ApiKey} (hissued : Issued past k key) :
    ∃ row ∈ s.keys.rows, row.keyHash = k ∧ row.projectId = key.projectId ∧ row.id = key.id ∧
      ∃ q ∈ past, ∃ row₀, Selects row.keyHash row₀ q ∧ Same row₀ row := by
  obtain ⟨q, hq, row₀, hselects, hsame⟩ := hissued
  obtain ⟨hrow₀, hhash⟩ := Table.find_eq_some.1 hselects.2.1
  obtain ⟨row, hrow, hcarried⟩ := h.earlier q hq row₀ hrow₀
  obtain rfl := hcarried.keyHash.trans hhash
  exact ⟨row, hrow, rfl, hcarried.projectId.trans hsame.projectId.symm,
    hcarried.id.trans hsame.id.symm, q, hq, row₀, hselects, hcarried⟩

/-- In every run, a request is served only as the project of the key it carries, and only when an
earlier lookup has found that key live. -/
theorem served_live_key (c : Settings) (hash : Text → Text) (as : List (Input ι π))
    (a : Input ι π) {ctx : ApiKeyContext π}
    (hret : returned c hash (final (step c hash) .initial as) a = some (.served ctx)) :
    let s := final (step c hash) .initial as
    ∃ r row, requestOf s a = some r ∧ row ∈ s.keys.rows ∧ Carries hash r row.keyHash ∧
      row.id = ctx.apiKey.id ∧
      (∃ q ∈ steps (step c hash) .initial as, ∃ row₀, Selects row.keyHash row₀ q ∧ Same row₀ row) ∧
      ∃ q ∈ steps (step c hash) .initial (as ++ [a]),
        q.1.projects row.projectId = some ctx.project := by
  intro s
  have h : Known hash (steps (step c hash) .initial as) s := known_run c hash as
  have hsteps : steps (step c hash) .initial (as ++ [a]) =
      steps (step c hash) .initial as ++ [(s, a)] := Machine.Runs.steps_append
  have heffect := effect c hash s a
  rw [show returned c hash s a = some (.served ctx) from hret] at heffect
  generalize step c hash s a = s' at heffect
  rw [hsteps]
  cases heffect with
  | quiet _ _ _ hans => exact absurd rfl (hans ctx)
  | @cached _ _ i r k t _ _ _ _ hr hk hentry =>
    have hcarries : Carries hash r k := by
      rcases hk with hk | ⟨l, p, hl⟩
      · exact hk
      · exact (h.lookups l i r k p hl).1
    obtain ⟨-, hissued, q, hq, hproject⟩ := h.caches i k t ctx hentry
    obtain ⟨row, hrow, rfl, hprojectId, hid, hselected⟩ := h.row hissued
    exact ⟨r, row, hr, hrow, hcarries, hid, hselected, q, List.mem_append_left _ hq,
      hprojectId ▸ hproject⟩
  | @loaded _ l i r k key project _ hl hproject =>
    obtain ⟨hcarries, hissued⟩ := h.lookups l i r k _ hl
    obtain ⟨row, hrow, rfl, hprojectId, hid, hselected⟩ := h.row (hissued key rfl)
    exact ⟨r, row, by simp [requestOf, hl], hrow, hcarries, hid, hselected, (s, .load l true),
      List.mem_append_right _ (List.mem_singleton_self _), hprojectId ▸ hproject⟩

/-! ## Revocation -/

/-- The key is revoked, no lookup has read it, and what is cached of it is as old as `t₀`. -/
structure Fading (k : Text) (t₀ : ℚ) (s : State ι π) : Prop where
  revoked : ∃ row ∈ s.keys.rows, row.keyHash = k ∧ row.revokedAt.isSome = true
  lookups : ∀ l i r p, s.lookups l = some ⟨i, r, k, p⟩ → p = .selecting
  caches : ∀ i t ctx, s.caches i k = some (t, ctx) → t ≤ t₀

theorem Fading.step {k : Text} {t₀ : ℚ} (h : Fading k t₀ s) (a : Input ι π) :
    Fading k t₀ (step c hash s a) := by
  have hrevoked : ∀ {s' : State ι π}, Carried s.keys s'.keys →
      ∃ row ∈ s'.keys.rows, row.keyHash = k ∧ row.revokedAt.isSome = true := by
    intro s' hkeys
    obtain ⟨row, hrow, hk, hrev⟩ := h.revoked
    obtain ⟨row', hrow', hsame⟩ := hkeys row hrow
    exact ⟨row', hrow', hsame.keyHash.trans hk, hsame.revoked hrev⟩
  have heffect := effect c hash s a
  generalize ApiKeys.step c hash s a = s', returned c hash s a = ans at heffect
  cases heffect with
  | quiet hkeeps hentries hlookups =>
    exact ⟨hrevoked hkeeps.keys, fun l i r p hl => h.lookups l i r p (hlookups l _ hl),
      fun i t ctx he => h.caches i t ctx (hentries i k _ he)⟩
  | cached hkeeps hentries hlookups =>
    exact ⟨hrevoked hkeeps.keys, fun l i r p hl => h.lookups l i r p (hlookups l _ hl),
      fun i t ctx he => h.caches i t ctx (hentries i k _ he)⟩
  | @moved _ _ l x hkeeps hentries hl hlookups hmoved =>
    refine ⟨hrevoked hkeeps.keys, fun l' i r p hl' => ?_,
      fun i t ctx he => h.caches i t ctx (hentries i k _ he)⟩
    by_cases hne : l' = l
    · subst hne
      obtain rfl := Option.some.inj (hl.symm.trans hl')
      cases hmoved with
      | asked _ => rfl
      | selected hselects =>
        obtain ⟨-, hkey, hlive⟩ := hselects
        obtain ⟨row, hrow, hk, hrev⟩ := h.revoked
        obtain ⟨hkey, hhash⟩ := Table.find_eq_some.1 hkey
        obtain rfl := Table.eq_of_key_eq hrow hkey (hk.trans hhash.symm)
        simp [hlive] at hrev
      | touched hread => cases h.lookups _ _ _ _ hread
    · exact h.lookups l' i r p ((hlookups l' hne).symm.trans hl')
  | @loaded _ l i r k' key project hkeeps hl _ hentries _ hlookups =>
    refine ⟨hrevoked hkeeps.keys, fun l i r p hl => h.lookups l i r p (hlookups l _ hl),
      fun j t ctx he => ?_⟩
    rcases hentries j k _ he with he | ⟨rfl, -⟩
    · exact h.caches j t ctx he
    · cases h.lookups l i r _ hl

/-- A key that is revoked while no lookup has read it is served no later than a lifetime after that,
and only where the database raises, or the cache is asked first. -/
theorem revoked_key_expires (c : Settings) (hash : Text → Text) (as₀ : List (Input ι π)) {k : Text}
    {row : ApiKey} (hrow : row ∈ (final (step c hash) .initial as₀).keys.rows)
    (hk : row.keyHash = k) (hrevoked : row.revokedAt.isSome = true)
    (hlookups : ∀ l i r p, (final (step c hash) .initial as₀).lookups l = some ⟨i, r, k, p⟩ →
      p = .selecting)
    (as : List (Input ι π)) (a : Input ι π) {ctx : ApiKeyContext π}
    (hret : returned c hash (final (step c hash) (final (step c hash) .initial as₀) as) a =
      some (.served ctx)) (hctx : ctx.apiKey.keyHash = k) :
    let s₀ := final (step c hash) .initial as₀
    let s := final (step c hash) s₀ as
    s.now ≤ s₀.now + c.ttl ∧
      ((c.positiveCacheEnabled = true ∧ ∃ l i r, a = .present l i r) ∨
        ∃ l x, s.lookups l = some x ∧ Fails l x.phase a) := by
  intro s₀ s
  have hs : s = final (step c hash) .initial (as₀ ++ as) := by
    rw [final, List.foldl_append]
    rfl
  have hknown := known_run c hash (as₀ ++ as)
  rw [← hs] at hknown
  have hfading₀ : Fading k s₀.now s₀ := ⟨⟨row, hrow, hk, hrevoked⟩, hlookups,
    fun i t ctx he => ((known_run c hash as₀).caches i k t ctx he).1⟩
  have hfading : Fading k s₀.now s :=
    @Machine.Runs.history _ _ _ (fun _ s => Fading k s₀.now s) (fun _ _ => True)
      (fun _ _ a _ h => h.step a) as s₀ [] hfading₀ fun _ _ => trivial
  have heffect := effect c hash s a
  rw [show returned c hash s a = some (.served ctx) from hret] at heffect
  generalize step c hash s a = s' at heffect
  cases heffect with
  | quiet _ _ _ hans => exact absurd rfl (hans ctx)
  | @cached _ _ i r k' t _ _ _ _ _ _ hentry _ hlive hwhy =>
    obtain ⟨-, hissued, -⟩ := hknown.caches i k' t ctx hentry
    obtain rfl : k' = k := (issued_keyHash hissued).symm.trans hctx
    have ht : t ≤ s₀.now := hfading.caches i t ctx hentry
    exact ⟨by linarith, hwhy⟩
  | @loaded _ l i r k' key project _ hl =>
    have hkey : key.keyHash = k' := issued_keyHash ((hknown.lookups l i r k' _ hl).2 key rfl)
    obtain rfl : k' = k := hkey.symm.trans hctx
    cases hfading.lookups l i r _ hl

/-! ## Outages -/

/-- A context that is as young as `t₀` is cached, or a lifetime has passed. -/
def Stored (c : Settings) (i : ι) (k : Text) (t₀ : ℚ) (s : State ι π) : Prop :=
  t₀ ≤ s.now ∧ (t₀ + c.ttl < s.now ∨ ∃ t ctx, s.caches i k = some (t, ctx) ∧ t₀ ≤ t)

theorem Stored.step {i : ι} {k : Text} {t₀ : ℚ} (h : Stored c i k t₀ s) (ha : a ≠ .restart i) :
    Stored c i k t₀ (step c hash s a) := by
  have hkeeps : Keeps c s a (ApiKeys.step c hash s a) := by
    have heffect := effect c hash s a
    generalize ApiKeys.step c hash s a = s', returned c hash s a = ans at heffect
    cases heffect <;> assumption
  obtain ⟨hnow, hpassed | ⟨t, ctx, hentry, ht⟩⟩ := h
  · exact ⟨hnow.trans hkeeps.now, .inl (hpassed.trans_le hkeeps.now)⟩
  · refine ⟨hnow.trans hkeeps.now, ?_⟩
    rcases hkeeps.entries i k t ctx ha hentry with hold | hsame | ⟨ctx', hnew⟩
    · exact .inl (by linarith [hkeeps.now])
    · exact .inr ⟨t, ctx, hsame, ht⟩
    · exact .inr ⟨s.now, ctx', hnew, hnow⟩

theorem returned_of_fails {l : ℕ} {i : ι} {r : Request} {k : Text} {p : Phase} {t : ℚ}
    {ctx : ApiKeyContext π} (hl : s.lookups l = some ⟨i, r, k, p⟩) (hfails : Fails l p a)
    (hpos : 0 < c.ttl) (hentry : s.caches i k = some (t, ctx)) (hlive : s.now - t ≤ c.ttl) :
    returned c hash s a = some (.served ctx) := by
  have hc : (cachedApiKeyContext c (s.caches i) k s.now).1 = some ctx :=
    cached_eq_some.2 ⟨hpos, t, hentry, hlive⟩
  unfold returned
  cases hfails with
  | select utc => simp only [answer, hl, select, failOpen, hc, Bool.not_false, if_true]
  | @touch key commit hcommit =>
    cases commit with
    | done => exact absurd rfl hcommit
    | lost => simp [answer, hl, touch, failOpen, hc]
    | failed => simp [answer, hl, touch, failOpen, hc]
  | load key => simp only [answer, hl, load, failOpen, hc, Bool.not_false, if_true]

/-- A key that an instance has served is served by it for a lifetime, whatever happens meanwhile and
wherever the database raises. -/
theorem outage_serves_known_key (c : Settings) (hash : Text → Text) (as₀ : List (Input ι π))
    {l : ℕ} {i : ι} {r : Request} {k : Text} {key : ApiKey} {ctx₀ : ApiKeyContext π}
    (hl : (final (step c hash) .initial as₀).lookups l = some ⟨i, r, k, .loading key⟩)
    (hserved : returned c hash (final (step c hash) .initial as₀) (.load l true) =
      some (.served ctx₀)) (hpos : 0 < c.ttl) {as : List (Input ι π)}
    (has : ∀ a ∈ as, a ≠ .restart i)
    {l' : ℕ} {r' : Request} {p : Phase} {a : Input ι π} :
    let s₀ := final (step c hash) .initial as₀
    let s := final (step c hash) s₀ (.load l true :: as)
    s.lookups l' = some ⟨i, r', k, p⟩ → Fails l' p a → s.now ≤ s₀.now + c.ttl →
      ∃ ctx, returned c hash s a = some (.served ctx) ∧ ctx.apiKey.keyHash = k := by
  intro s₀ s hl' hfails hnow
  have hs : s = final (step c hash) .initial (as₀ ++ .load l true :: as) := by
    rw [final, List.foldl_append]
    rfl
  have hknown := known_run c hash (as₀ ++ .load l true :: as)
  rw [← hs] at hknown
  have hstored₀ : Stored c i k s₀.now (step c hash s₀ (.load l true)) := by
    have heffect := effect c hash s₀ (.load l true)
    rw [show returned c hash s₀ (.load l true) = some (.served ctx₀) from hserved] at heffect
    generalize step c hash s₀ (.load l true) = s₁ at heffect
    cases heffect with
    | quiet _ _ _ hans => exact absurd rfl (hans ctx₀)
    | cached _ _ _ _ _ _ _ _ hwhy =>
      rcases hwhy with ⟨-, l, i, r, ha⟩ | ⟨l, x, -, hfails⟩
      · cases ha
      · generalize x.phase = p at hfails
        cases hfails
    | loaded hkeeps hl₀ _ _ hstored =>
      obtain ⟨⟩ := hl.symm.trans hl₀
      exact ⟨hkeeps.now, .inr ⟨_, _, hstored hpos, le_rfl⟩⟩
  have hstored : Stored c i k s₀.now s :=
    @Machine.Runs.history _ _ _ (fun _ s => Stored c i k s₀.now s) (fun _ a => a ≠ .restart i)
      (fun _ _ _ ha h => h.step ha) as _ [] hstored₀ (Machine.Runs.input_of_steps has)
  obtain ⟨-, hpassed | ⟨t, ctx, hentry, ht⟩⟩ := hstored
  · exact absurd hpassed (not_lt.2 hnow)
  · refine ⟨ctx, returned_of_fails hl' hfails hpos hentry (by linarith), ?_⟩
    exact issued_keyHash (hknown.caches i k t ctx hentry).2.1

/-! ## A key that is revoked in an outage -/

def thirtySeconds : Settings := ⟨30, false⟩

def firstRequest : Request := ⟨some ['v', 'k', '_', 'a'], none, none, none⟩

/-- Project 7 has a key, and a request that carries it is about to load the project. -/
def firstLookup : List (Input ℕ ℕ) :=
  [.saveProject 7 70, .createApiKey 0 7 ['v', 'k', '_', 'a'], .present 0 0 firstRequest,
    .select 0 true 5, .touch 0 .done]

def usedKey : ApiKey := ⟨0, 7, ['v', 'k', '_', 'a'], some 5, none⟩

theorem firstLookup_served :
    returned thirtySeconds id (final (step thirtySeconds id) .initial firstLookup) (.load 0 true) =
      some (.served ⟨70, usedKey⟩) := by
  decide +kernel

theorem firstLookup_served_project :
    ∃ row ∈ (final (step thirtySeconds id) (State.initial : State ℕ ℕ) firstLookup).keys.rows,
      Carries id firstRequest row.keyHash := by
  obtain ⟨r, row, hr, hrow, hcarries, -⟩ :=
    served_live_key thirtySeconds id firstLookup (.load 0 true) firstLookup_served
  have hr' : requestOf (final (step thirtySeconds id) .initial firstLookup) (.load 0 true) =
      some firstRequest := rfl
  obtain rfl := Option.some.inj (hr.symm.trans hr')
  exact ⟨row, hrow, hcarries⟩

def revokedKey : List (Input ℕ ℕ) := firstLookup ++ [.load 0 true, .revokeApiKey 0 9]

def secondLookup : List (Input ℕ ℕ) := [.pass 10, .present 1 0 firstRequest]

theorem revokedKey_served_late :
    (final (step thirtySeconds id)
      (final (step thirtySeconds id) (State.initial : State ℕ ℕ) revokedKey) secondLookup).now ≤
      (final (step thirtySeconds id) (State.initial : State ℕ ℕ) revokedKey).now + 30 := by
  have hidle : ∀ l, (final (step thirtySeconds id) (State.initial : State ℕ ℕ)
      revokedKey).lookups l = none := by
    rintro (_ | l) <;> rfl
  have hserved : returned thirtySeconds id (final (step thirtySeconds id) (final
      (step thirtySeconds id) (State.initial : State ℕ ℕ) revokedKey) secondLookup)
      (.select 1 false 20) = some (.served ⟨70, usedKey⟩) := by decide +kernel
  exact (@revoked_key_expires ℕ ℕ _ thirtySeconds id revokedKey _
    ⟨0, 7, ['v', 'k', '_', 'a'], some 5, some 9⟩ (by decide +kernel) rfl rfl
    (fun l i r p hl => by rw [hidle] at hl; cases hl) secondLookup
    (.select 1 false 20) _ hserved rfl).1

theorem knownKey_served_in_outage :
    ∃ ctx, returned thirtySeconds id (final (step thirtySeconds id)
      (final (step thirtySeconds id) (State.initial : State ℕ ℕ) firstLookup)
        (.load 0 true :: .revokeApiKey 0 9 :: secondLookup)) (.select 1 false 20) =
      some (.served ctx) := by
  obtain ⟨ctx, hserved, -⟩ := @outage_serves_known_key ℕ ℕ _ thirtySeconds id firstLookup 0 0
    firstRequest ['v', 'k', '_', 'a'] usedKey _ (by rfl) firstLookup_served (by decide +kernel)
    (.revokeApiKey 0 9 :: secondLookup) (by simp [secondLookup]) 1 firstRequest .selecting
    (.select 1 false 20) (by rfl) (.select 20) (by decide +kernel)
  exact ⟨ctx, hserved⟩

end Varsten.Accounts.ApiKeys
