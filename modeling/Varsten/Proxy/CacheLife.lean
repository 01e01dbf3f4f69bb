import Varsten.Machine.Runs
import Varsten.Proxy.Cache

/-!
# The life of a cache row

The calls on the exact cache of one project, one after the other. The database keeps an expired row,
under its key, until a sweep deletes it; the process keeps snapshots of rows, which it may forget at
any time.
-/

namespace Varsten.Proxy.CacheLife

open Cache (CacheEntry getCached)
open Machine.Runs (steps final)
open Python (Json)

structure State where
  rows : List CacheEntry
  snapshots : String → Option CacheEntry
  now : ℚ

/-- What `store` is given. -/
structure Response where
  cacheKey : String
  model : String
  payload : Json
  inputTokens : ℤ
  outputTokens : ℤ

inductive Call where
  | store (r : Response)
  | getCached (cacheKey : String)
  | getCachedSnapshot (cacheKey : String)
  | purgeExpired
  | forget (cacheKeys : String → Bool)

/-- A call, after some time. -/
structure Input where
  elapsed : ℚ≥0
  call : Call

inductive Answer where
  | found (entry : Option CacheEntry)
  | stored (entry : CacheEntry)
  | integrityError
  | done

section Calls

variable (ttl : ℚ)

def State.after (s : State) (elapsed : ℚ≥0) : State := { s with now := s.now + elapsed }

def entryOf (now : ℚ) (r : Response) : CacheEntry :=
  ⟨r.cacheKey, r.model, r.payload, r.inputTokens, r.outputTokens, some (now + ttl)⟩

def store (r : Response) (s : State) : Answer × State :=
  match getCached s.now r.cacheKey s.rows with
  | some existing => (.stored existing, s)
  | none =>
    let entry := entryOf ttl s.now r
    -- `uq_proxy_cache_project_key`
    if s.rows.any (·.cacheKey = r.cacheKey) then (.integrityError, s)
    else (.stored entry, { s with
      rows := s.rows ++ [entry]
      snapshots := Function.update s.snapshots r.cacheKey (some entry) })

def getCachedSnapshot (cacheKey : String) (s : State) : Option CacheEntry × State :=
  match (s.snapshots cacheKey).filter (·.live s.now) with
  | some snapshot => (some snapshot, s)
  | none =>
    let entry := getCached s.now cacheKey s.rows
    (entry, { s with snapshots := Function.update s.snapshots cacheKey entry })

def purgeExpired (s : State) : State :=
  { s with rows := s.rows.filter (·.live s.now), snapshots := fun _ => none }

def perform (s : State) : Call → Answer × State
  | .store r => store ttl r s
  | .getCached cacheKey => (.found (getCached s.now cacheKey s.rows), s)
  | .getCachedSnapshot cacheKey =>
    let found := getCachedSnapshot cacheKey s
    (.found found.1, found.2)
  | .purgeExpired => (.done, purgeExpired s)
  | .forget cacheKeys =>
    (.done, { s with snapshots := fun k => if cacheKeys k then none else s.snapshots k })

def answer (s : State) (i : Input) : Answer := (perform ttl (s.after i.elapsed) i.call).1

def step (s : State) (i : Input) : State := (perform ttl (s.after i.elapsed) i.call).2

end Calls

/-- The rows a process finds, of which no two have a key. -/
abbrev Rows := {rows : List CacheEntry // (rows.map (·.cacheKey)).Nodup}

def start (rows : Rows) (now : ℚ) : State := ⟨rows.1, fun _ => none, now⟩

def Call.LooksUp (cacheKey : String) : Call → Prop
  | .getCached k | .getCachedSnapshot k => k = cacheKey
  | _ => False

/-! ## The invariant -/

structure Inv (s : State) : Prop where
  unique : (s.rows.map (·.cacheKey)).Nodup
  key : ∀ k e, s.snapshots k = some e → e.cacheKey = k
  held : ∀ k e, s.snapshots k = some e → e.live s.now = true → e ∈ s.rows

theorem inv_start (rows : Rows) (now : ℚ) : Inv (start rows now) :=
  ⟨rows.2, fun _ _ h => absurd h (by simp [start]), fun _ _ h => absurd h (by simp [start])⟩

section Steps

variable {ttl : ℚ} {s : State} {e : CacheEntry}

theorem live_mono {now later : ℚ} (h : now ≤ later) (hlive : e.live later = true) :
    e.live now = true := by
  unfold CacheEntry.live at *
  cases he : e.expiresAt with
  | none => rfl
  | some t =>
    rw [he] at hlive
    exact decide_eq_true (h.trans_lt (of_decide_eq_true hlive))

theorem eq_of_key (h : Inv s) {x y : CacheEntry} (hx : x ∈ s.rows) (hy : y ∈ s.rows)
    (hkey : x.cacheKey = y.cacheKey) : x = y :=
  List.inj_on_of_nodup_map h.unique hx hy hkey

theorem getCached_spec {k : String} (h : getCached s.now k s.rows = some e) :
    e ∈ s.rows ∧ e.cacheKey = k ∧ e.live s.now = true := by
  unfold getCached at h
  have hfound := List.find?_some h
  exact ⟨List.mem_of_find?_eq_some h, of_decide_eq_true hfound⟩

theorem getCached_of_mem (h : Inv s) (he : e ∈ s.rows) (hlive : e.live s.now = true) :
    getCached s.now e.cacheKey s.rows = some e := by
  cases hfind : getCached s.now e.cacheKey s.rows with
  | none =>
    have hnot := List.find?_eq_none.1 hfind e he
    exact absurd (decide_eq_true ⟨rfl, hlive⟩) hnot
  | some x =>
    obtain ⟨hx, hkey, -⟩ := getCached_spec hfind
    rw [eq_of_key h hx he hkey]

theorem getCachedSnapshot_of_mem (h : Inv s) (he : e ∈ s.rows) (hlive : e.live s.now = true) :
    (getCachedSnapshot e.cacheKey s).1 = some e := by
  rw [getCachedSnapshot]
  cases hsnap : (s.snapshots e.cacheKey).filter (·.live s.now) with
  | none => exact getCached_of_mem h he hlive
  | some x =>
    obtain ⟨hx, hxlive⟩ := Option.filter_eq_some_iff.1 hsnap
    exact congrArg some (eq_of_key h (h.held _ x hx hxlive) he (h.key _ x hx))

theorem getCachedSnapshot_live {k : String} (h : (getCachedSnapshot k s).1 = some e) :
    e.live s.now = true := by
  rw [getCachedSnapshot] at h
  cases hsnap : (s.snapshots k).filter (·.live s.now) with
  | none =>
    rw [hsnap] at h
    exact (getCached_spec h).2.2
  | some x =>
    rw [hsnap] at h
    obtain rfl := Option.some.inj h
    exact (Option.filter_eq_some_iff.1 hsnap).2

theorem inv_after (h : Inv s) (elapsed : ℚ≥0) : Inv (s.after elapsed) := by
  have hle : s.now ≤ s.now + elapsed := le_add_of_nonneg_right elapsed.2
  exact ⟨h.unique, h.key, fun k e hk hlive => h.held k e hk (live_mono hle hlive)⟩

theorem inv_store (h : Inv s) (r : Response) : Inv (store ttl r s).2 := by
  rw [store]
  cases getCached s.now r.cacheKey s.rows with
  | some existing => exact h
  | none =>
    dsimp only
    split_ifs with hany
    · exact h
    · refine ⟨?_, fun k e hk => ?_, fun k e hk hlive => ?_⟩
      · rw [List.map_append, List.nodup_append]
        refine ⟨h.unique, List.nodup_singleton _, fun a ha b hb hab => hany ?_⟩
        obtain ⟨x, hx, rfl⟩ := List.mem_map.1 ha
        obtain rfl : b = r.cacheKey := List.mem_singleton.1 hb
        exact List.any_eq_true.2 ⟨x, hx, decide_eq_true hab⟩
      · dsimp only at hk
        by_cases hkey : k = r.cacheKey
        · rw [hkey, Function.update_self] at hk
          obtain rfl := Option.some.inj hk
          exact hkey.symm
        · rw [Function.update_of_ne hkey] at hk
          exact h.key k e hk
      · dsimp only at hk
        by_cases hkey : k = r.cacheKey
        · rw [hkey, Function.update_self] at hk
          obtain rfl := Option.some.inj hk
          exact List.mem_append_right _ (List.mem_singleton.2 rfl)
        · rw [Function.update_of_ne hkey] at hk
          exact List.mem_append_left _ (h.held k e hk hlive)

theorem inv_getCachedSnapshot (h : Inv s) (k : String) : Inv (getCachedSnapshot k s).2 := by
  rw [getCachedSnapshot]
  cases (s.snapshots k).filter (·.live s.now) with
  | some snapshot => exact h
  | none =>
    refine ⟨h.unique, fun l e hl => ?_, fun l e hl hlive => ?_⟩
    · dsimp only at hl
      by_cases hkey : l = k
      · rw [hkey, Function.update_self] at hl
        exact (getCached_spec hl).2.1.trans hkey.symm
      · rw [Function.update_of_ne hkey] at hl
        exact h.key l e hl
    · dsimp only at hl
      by_cases hkey : l = k
      · rw [hkey, Function.update_self] at hl
        exact (getCached_spec hl).1
      · rw [Function.update_of_ne hkey] at hl
        exact h.held l e hl hlive

theorem inv_purgeExpired (h : Inv s) : Inv (purgeExpired s) :=
  ⟨h.unique.sublist (List.filter_sublist.map _), fun _ _ hk => absurd hk (by simp [purgeExpired]),
    fun _ _ hk => absurd hk (by simp [purgeExpired])⟩

theorem inv_forget (h : Inv s) (cacheKeys : String → Bool) :
    Inv { s with snapshots := fun k => if cacheKeys k then none else s.snapshots k } := by
  refine ⟨h.unique, fun k e hk => ?_, fun k e hk hlive => ?_⟩
  · dsimp only at hk
    split_ifs at hk
    exact h.key k e hk
  · dsimp only at hk
    split_ifs at hk
    exact h.held k e hk hlive

theorem inv_step (h : Inv s) (i : Input) : Inv (step ttl s i) := by
  have hafter := inv_after h i.elapsed
  rw [step]
  cases i.call with
  | store r => exact inv_store hafter r
  | getCached k => exact hafter
  | getCachedSnapshot k => exact inv_getCachedSnapshot hafter k
  | purgeExpired => exact inv_purgeExpired hafter
  | forget cacheKeys => exact inv_forget hafter cacheKeys

theorem inv_final (h : Inv s) (run : List Input) : Inv (final (step ttl) s run) := by
  induction run generalizing s with
  | nil => exact h
  | cons i run ih => exact ih (inv_step h i)

theorem now_step (s : State) (i : Input) : (step ttl s i).now = s.now + i.elapsed := by
  rw [step]
  cases i.call with
  | store r =>
    rw [perform, store]
    dsimp only
    split
    · rfl
    · split_ifs <;> rfl
  | getCachedSnapshot k =>
    rw [perform, getCachedSnapshot]
    dsimp only
    split <;> rfl
  | _ => rfl

theorem mem_step (he : e ∈ s.rows) (i : Input) (hlive : e.live (step ttl s i).now = true) :
    e ∈ (step ttl s i).rows := by
  rw [now_step] at hlive
  rw [step]
  cases i.call with
  | store r =>
    rw [perform, store]
    split
    · exact he
    · dsimp only
      split_ifs
      · exact he
      · exact List.mem_append_left _ he
  | getCached k => exact he
  | getCachedSnapshot k =>
    rw [perform, getCachedSnapshot]
    dsimp only
    split <;> exact he
  | purgeExpired => exact List.mem_filter.2 ⟨he, hlive⟩
  | forget cacheKeys => exact he

theorem now_le_final (s : State) (run : List Input) : s.now ≤ (final (step ttl) s run).now := by
  induction run generalizing s with
  | nil => exact le_rfl
  | cons i run ih =>
    refine le_trans ?_ (ih (step ttl s i))
    rw [now_step]
    exact le_add_of_nonneg_right i.elapsed.2

theorem mem_final (he : e ∈ s.rows) (run : List Input)
    (hlive : e.live (final (step ttl) s run).now = true) :
    e ∈ (final (step ttl) s run).rows := by
  induction run generalizing s with
  | nil => exact he
  | cons i run ih => exact ih (mem_step he i (live_mono (now_le_final _ run) hlive)) hlive

theorem answer_of_mem (h : Inv s) (he : e ∈ s.rows) {i : Input}
    (hlook : i.call.LooksUp e.cacheKey) (hlive : e.live (s.now + i.elapsed) = true) :
    answer ttl s i = .found (some e) := by
  have hafter := inv_after h i.elapsed
  rw [answer]
  cases hcall : i.call with
  | getCached k =>
    rw [hcall] at hlook
    obtain rfl : k = e.cacheKey := hlook
    exact congrArg Answer.found (getCached_of_mem hafter he hlive)
  | getCachedSnapshot k =>
    rw [hcall] at hlook
    obtain rfl : k = e.cacheKey := hlook
    exact congrArg Answer.found (getCachedSnapshot_of_mem hafter he hlive)
  | _ =>
    rw [hcall] at hlook
    exact hlook.elim

end Steps

/-! ## What a run is to keep to -/

def ServesLive (ttl : ℚ) (s : State) (i : Input) : Prop :=
  ∀ e, answer ttl s i = .found (some e) → e.live (s.now + i.elapsed) = true

/-- Until its deadline every lookup of the row's key finds it. -/
def Served (ttl : ℚ) (e : CacheEntry) (s : State) (later : List Input) : Prop :=
  ∀ mid i rest, later = mid ++ i :: rest → i.call.LooksUp e.cacheKey →
    e.live ((final (step ttl) s mid).now + i.elapsed) = true →
      answer ttl (final (step ttl) s mid) i = .found (some e)

/-- A response for a key without a live row is stored, and served from then on. -/
def Takes (ttl : ℚ) (s : State) (i : Input) (later : List Input) : Prop :=
  ∀ r, i.call = .store r → getCached (s.now + i.elapsed) r.cacheKey s.rows = none →
    answer ttl s i = .stored (entryOf ttl (s.now + i.elapsed) r) ∧
      Served ttl (entryOf ttl (s.now + i.elapsed) r) (step ttl s i) later

def NeverBlocked (ttl : ℚ) (s : State) (run : List Input) : Prop :=
  ∀ pre i later, run = pre ++ i :: later →
    ServesLive ttl (final (step ttl) s pre) i ∧ Takes ttl (final (step ttl) s pre) i later

/-- A call to store a response meets no row of its key that is past its deadline. -/
def MeetsNoExpired (s : State) (i : Input) : Prop :=
  ∀ r, i.call = .store r → ∀ e ∈ s.rows, e.cacheKey = r.cacheKey →
    e.live (s.now + i.elapsed) = true

section Runs

variable {ttl : ℚ} {s : State} {i : Input}

theorem servesLive (ttl : ℚ) (s : State) (i : Input) : ServesLive ttl s i := by
  intro e h
  rw [answer] at h
  cases hcall : i.call with
  | getCached k =>
    rw [hcall] at h
    exact (getCached_spec (s := s.after i.elapsed) (Answer.found.inj h)).2.2
  | getCachedSnapshot k =>
    rw [hcall] at h
    exact getCachedSnapshot_live (s := s.after i.elapsed) (Answer.found.inj h)
  | store r =>
    rw [hcall, perform, store] at h
    dsimp only at h
    split at h
    · cases h
    · split_ifs at h
  | purgeExpired =>
    rw [hcall] at h
    cases h
  | forget cacheKeys =>
    rw [hcall] at h
    cases h

/-- Where the key has no live row, storing succeeds exactly if it has none at all. -/
theorem answer_store {r : Response} (hcall : i.call = .store r)
    (hnone : getCached (s.now + i.elapsed) r.cacheKey s.rows = none) :
    answer ttl s i = if s.rows.any (·.cacheKey = r.cacheKey) then .integrityError
      else .stored (entryOf ttl (s.now + i.elapsed) r) := by
  have hnone' : getCached (s.after i.elapsed).now r.cacheKey (s.after i.elapsed).rows = none :=
    hnone
  rw [answer, hcall, perform, store, hnone']
  dsimp only
  by_cases hany : s.rows.any (·.cacheKey = r.cacheKey) = true
  · have hany' : (s.after i.elapsed).rows.any (·.cacheKey = r.cacheKey) = true := hany
    rw [if_pos hany, if_pos hany']
  · have hany' : ¬ (s.after i.elapsed).rows.any (·.cacheKey = r.cacheKey) = true := hany
    rw [if_neg hany, if_neg hany']
    rfl

theorem mem_of_stored {r : Response} (hcall : i.call = .store r)
    (hnone : getCached (s.now + i.elapsed) r.cacheKey s.rows = none)
    (hany : ¬ s.rows.any (·.cacheKey = r.cacheKey) = true) :
    entryOf ttl (s.now + i.elapsed) r ∈ (step ttl s i).rows := by
  have hnone' : getCached (s.after i.elapsed).now r.cacheKey (s.after i.elapsed).rows = none :=
    hnone
  have hany' : ¬ (s.after i.elapsed).rows.any (·.cacheKey = r.cacheKey) = true := hany
  rw [step, hcall, perform, store, hnone']
  dsimp only
  rw [if_neg hany']
  exact List.mem_append_right _ (List.mem_singleton.2 rfl)

theorem served_of_mem (h : Inv s) {e : CacheEntry} (he : e ∈ s.rows) (later : List Input) :
    Served ttl e s later := by
  rintro mid i rest rfl hlook hlive
  have hle := le_add_of_nonneg_right (a := (final (step ttl) s mid).now) i.elapsed.2
  exact answer_of_mem (inv_final h mid) (mem_final he mid (live_mono hle hlive)) hlook hlive

theorem takes_iff (h : Inv s) (later : List Input) :
    Takes ttl s i later ↔ MeetsNoExpired s i := by
  constructor
  · intro htakes r hcall e he hkey
    by_contra hdead
    have hnone : getCached (s.now + i.elapsed) r.cacheKey s.rows = none := by
      refine List.find?_eq_none.2 fun x hx hfound => hdead ?_
      obtain ⟨hxkey, hxlive⟩ := of_decide_eq_true hfound
      rwa [← eq_of_key h hx he (hxkey.trans hkey.symm)]
    have hstored := (htakes r hcall hnone).1
    rw [answer_store hcall hnone, if_pos (List.any_eq_true.2 ⟨e, he, decide_eq_true hkey⟩)] at hstored
    cases hstored
  · intro hmeets r hcall hnone
    have hany : ¬ s.rows.any (·.cacheKey = r.cacheKey) = true := by
      intro hany
      obtain ⟨e, he, hkey⟩ := List.any_eq_true.1 hany
      have hkey' := of_decide_eq_true hkey
      exact List.find?_eq_none.1 hnone e he
        (decide_eq_true ⟨hkey', hmeets r hcall e he hkey'⟩)
    refine ⟨?_, served_of_mem (inv_step h i) (mem_of_stored hcall hnone hany) later⟩
    rw [answer_store hcall hnone, if_neg hany]

end Runs

/-- A run is never blocked exactly where no call to store meets an expired row of its key. -/
theorem neverBlocked_iff (ttl : ℚ) (rows : Rows) (now : ℚ) (run : List Input) :
    NeverBlocked ttl (start rows now) run ↔
      ∀ p ∈ steps (step ttl) (start rows now) run, MeetsNoExpired p.1 p.2 := by
  constructor
  · intro h p hp
    obtain ⟨pre, later, hrun, hstate⟩ := Machine.Runs.exists_of_mem_steps hp
    rw [hstate]
    exact (takes_iff (inv_final (inv_start rows now) pre) later).1 ((h pre p.2 later hrun).2)
  · rintro h pre i later rfl
    have hmem : (final (step ttl) (start rows now) pre, i) ∈
        steps (step ttl) (start rows now) (pre ++ i :: later) := by
      rw [Machine.Runs.steps_append]
      exact List.mem_append_right _ List.mem_cons_self
    exact ⟨servesLive _ _ _, (takes_iff (inv_final (inv_start rows now) pre) later).2 (h _ hmem)⟩

def lateResponse : Response := ⟨"k", "gpt-4o-mini", .obj [], 10, 5⟩

theorem expired_row_blocks : ¬ NeverBlocked 1 (start ⟨[], List.nodup_nil⟩ 0)
    [⟨0, .store lateResponse⟩, ⟨2, .store lateResponse⟩] := by
  intro h
  have htakes := (h [⟨0, .store lateResponse⟩] ⟨2, .store lateResponse⟩ [] rfl).2 lateResponse rfl
    (by decide +kernel)
  have hanswer := htakes.1
  rw [answer_store rfl (by decide +kernel), if_pos (by decide +kernel)] at hanswer
  cases hanswer

end Varsten.Proxy.CacheLife
