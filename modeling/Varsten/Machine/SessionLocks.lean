import Mathlib

/-!
# Locks that sessions hold

A server keeps locks for sessions. A session may take a lock that it holds again, and releases it
as often; the locks of a session that ends are free.
-/

namespace Varsten.Machine.SessionLocks

variable {κ σ : Type}

/-- The holder of each lock, and how often it holds it beyond the first time. -/
abbrev Locks (κ σ : Type) := κ → Option (σ × ℕ)

def Holds (locks : Locks κ σ) (k : κ) (s : σ) : Prop := ∃ n, locks k = some (s, n)

def drop (ended : σ → Bool) (locks : Locks κ σ) : Locks κ σ :=
  fun k => (locks k).filter fun h => !ended h.1

variable {locks : Locks κ σ} {k l : κ} {s t : σ} {n : ℕ}

theorem Holds.unique (h : Holds locks k s) (h' : Holds locks k t) : s = t := by
  obtain ⟨n, hn⟩ := h
  obtain ⟨m, hm⟩ := h'
  exact (Prod.mk.inj (Option.some.inj (hn.symm.trans hm))).1

theorem drop_eq_some {ended : σ → Bool} :
    drop ended locks k = some (s, n) ↔ locks k = some (s, n) ∧ ended s = false := by
  simp [drop, Option.filter_eq_some_iff]

theorem holds_drop {ended : σ → Bool} :
    Holds (drop ended locks) k s ↔ Holds locks k s ∧ ended s = false := by
  simp only [Holds, drop_eq_some, exists_and_right]

variable [DecidableEq κ] [DecidableEq σ]

/-- Whether the session gets the lock. -/
def tryLock (locks : Locks κ σ) (k : κ) (s : σ) : Bool × Locks κ σ :=
  match locks k with
  | none => (true, Function.update locks k (some (s, 0)))
  | some (h, n) =>
    if h = s then (true, Function.update locks k (some (s, n + 1))) else (false, locks)

def unlock (locks : Locks κ σ) (k : κ) (s : σ) : Locks κ σ :=
  match locks k with
  | none => locks
  | some (h, n) =>
    if h = s then
      Function.update locks k (if n = 0 then none else some (s, n - 1))
    else locks

theorem tryLock_free (h : locks k = none) :
    tryLock locks k s = (true, Function.update locks k (some (s, 0))) := by
  rw [tryLock, h]

theorem tryLock_refused (h : Holds locks k t) (hne : t ≠ s) :
    tryLock locks k s = (false, locks) := by
  obtain ⟨n, hn⟩ := h
  simp only [tryLock, hn, if_neg hne]

theorem tryLock_of_ne (h : l ≠ k) : (tryLock locks k s).2 l = locks l := by
  unfold tryLock
  split
  · exact Function.update_of_ne h ..
  · split_ifs
    · exact Function.update_of_ne h ..
    · rfl

theorem holds_of_tryLock (h : (tryLock locks k s).1 = true) : Holds (tryLock locks k s).2 k s := by
  unfold tryLock at h ⊢
  cases hk : locks k with
  | none => exact ⟨0, Function.update_self ..⟩
  | some x =>
    simp only [hk] at h ⊢
    split_ifs at h ⊢
    exact ⟨x.2 + 1, Function.update_self ..⟩

theorem Holds.tryLock (h : Holds locks l t) : Holds (tryLock locks k s).2 l t := by
  by_cases hl : l = k
  · subst hl
    obtain ⟨n, hn⟩ := h
    unfold SessionLocks.tryLock
    simp only [hn]
    split_ifs with hs
    · exact ⟨n + 1, hs ▸ Function.update_self ..⟩
    · exact ⟨n, hn⟩
  · obtain ⟨n, hn⟩ := h
    exact ⟨n, (tryLock_of_ne hl).trans hn⟩

theorem unlock_of_ne (h : l ≠ k) : unlock locks k s l = locks l := by
  unfold unlock
  cases locks k with
  | none => rfl
  | some x =>
    dsimp only
    by_cases hs : x.1 = s
    · rw [if_pos hs, Function.update_of_ne h]
    · rw [if_neg hs]

theorem unlock_of_holds (h : Holds locks l t) (ht : t ≠ s) : unlock locks k s l = locks l := by
  by_cases hl : l = k
  · subst hl
    obtain ⟨n, hn⟩ := h
    unfold unlock
    simp only [hn, if_neg ht]
  · exact unlock_of_ne hl

theorem Holds.unlock (h : Holds locks l t) (ht : t ≠ s) : Holds (unlock locks k s) l t := by
  obtain ⟨n, hn⟩ := h
  exact ⟨n, (unlock_of_holds ⟨n, hn⟩ ht).trans hn⟩

theorem unlock_once (h : locks k = some (s, 0)) : SessionLocks.unlock locks k s k = none := by
  simp [SessionLocks.unlock, h]

/-- A lock that a session took once is held by it after a release elsewhere only. -/
theorem unlock_eq_some (honce : ∀ k t n, locks k = some (t, n) → n = 0) :
    SessionLocks.unlock locks k s l = some (t, n) ↔
      locks l = some (t, n) ∧ ¬(l = k ∧ t = s) := by
  by_cases hl : l = k
  · subst hl
    cases hlock : locks l with
    | none => simp [SessionLocks.unlock, hlock]
    | some h =>
      obtain ⟨holder, m⟩ := h
      obtain rfl := honce l holder m hlock
      by_cases hs : holder = s
      · subst hs
        rw [unlock_once hlock]
        simp only [reduceCtorEq, true_and, false_iff, Option.some.injEq, Prod.mk.injEq, not_and,
          not_not]
        exact fun h => h.1.symm
      · rw [unlock_of_holds ⟨0, hlock⟩ hs, hlock]
        simp only [Option.some.injEq, Prod.mk.injEq, true_and]
        constructor
        · rintro ⟨rfl, rfl⟩
          exact ⟨⟨rfl, rfl⟩, hs⟩
        · exact fun h => h.1
  · rw [unlock_of_ne hl]
    simp [hl]

end Varsten.Machine.SessionLocks
