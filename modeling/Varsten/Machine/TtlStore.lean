import Mathlib

/-!
# A store whose entries expire

Entries are kept under a key with the time they expire at, if they do. An entry that a lookup
finds expired is dropped.
-/

namespace Varsten.Machine.TtlStore

/-- The entries, each with its expiry. -/
abbrev Store (κ ν τ : Type) := κ → Option (ν × Option τ)

variable {κ ν τ : Type} {store : Store κ ν τ} {k l : κ} {v : ν} {now later : τ}

def live [LinearOrder τ] (store : Store κ ν τ) (k : κ) (now : τ) : Option ν :=
  (store k).bind fun e => if e.2.any (· ≤ now) then none else some e.1

theorem live_of_none [LinearOrder τ] (h : store k = none) : live store k now = none := by
  rw [live, h]
  rfl

variable [DecidableEq κ]

def delete (store : Store κ ν τ) (k : κ) : Store κ ν τ := Function.update store k none

@[simp] theorem delete_self : delete store k k = none := by simp [delete]

theorem delete_of_ne (h : l ≠ k) : delete store k l = store l := by simp [delete, h]

theorem delete_eq_some {e : ν × Option τ} (h : delete store k l = some e) : store l = some e := by
  by_cases hl : l = k
  · rw [hl, delete_self] at h
    cases h
  · rwa [delete_of_ne hl] at h

section Order

variable [LinearOrder τ]

def get (store : Store κ ν τ) (k : κ) (now : τ) : Option ν × Store κ ν τ :=
  match store k with
  | none => (none, store)
  | some (value, expiresAt) =>
    if expiresAt.any (· ≤ now) then (none, delete store k) else (some value, store)

theorem get_fst : (get store k now).1 = live store k now := by
  rw [get, live]
  cases store k with
  | none => rfl
  | some e =>
    dsimp only [Option.bind_some]
    split_ifs <;> rfl

theorem live_delete_of_ne (h : l ≠ k) : live (delete store k) l now = live store l now := by
  rw [live, live, delete_of_ne h]

theorem live_get (h : now ≤ later) : live (get store k now).2 l later = live store l later := by
  rw [get]
  cases hentry : store k with
  | none => rfl
  | some e =>
    dsimp only
    split_ifs with hend
    · by_cases hl : l = k
      · subst hl
        obtain ⟨expiry, hexpiry, hle⟩ := (Option.any_eq_true _ _).1 hend
        have hgone : e.2.any (· ≤ later) = true := (Option.any_eq_true _ _).2
          ⟨expiry, hexpiry, decide_eq_true ((of_decide_eq_true hle).trans h)⟩
        rw [live_of_none delete_self, live, hentry, Option.bind_some, if_pos hgone]
      · exact live_delete_of_ne hl
    · rfl

theorem get_none (h : store l = none) : (get store k now).2 l = none := by
  rw [get]
  cases store k with
  | none => exact h
  | some e =>
    dsimp only
    split_ifs with hend
    · by_cases hl : l = k
      · exact hl ▸ delete_self
      · exact (delete_of_ne hl).trans h
    · exact h

theorem get_eq_some {e : ν × Option τ} (h : (get store k now).2 l = some e) : store l = some e := by
  rw [get] at h
  cases hentry : store k with
  | none => simpa only [hentry] using h
  | some x =>
    simp only [hentry] at h
    split_ifs at h
    · exact delete_eq_some h
    · exact h

omit [DecidableEq κ] in
theorem entry_of_live (h : live store k now = some v) :
    ∃ e, store k = some (v, e) ∧ e.any (· ≤ now) = false := by
  rw [live, Option.bind_eq_some_iff] at h
  obtain ⟨⟨u, e⟩, hentry, h⟩ := h
  split_ifs at h with hend
  obtain rfl := Option.some.inj h
  exact ⟨e, hentry, Bool.eq_false_iff.2 hend⟩

variable [AddCommGroup τ]

def set (store : Store κ ν τ) (k : κ) (value : ν) (ttl : Option τ) (now : τ) : Store κ ν τ :=
  if ttl.any (· ≤ 0) then delete store k
  else Function.update store k (some (value, ttl.map (now + ·)))

theorem set_of_ne {ttl : Option τ} (h : l ≠ k) : set store k v ttl now l = store l := by
  rw [set]
  split_ifs with hend
  · exact delete_of_ne h
  · exact Function.update_of_ne h _ _

theorem set_eq_some {ttl : Option τ} {e : ν × Option τ} (h : set store k v ttl now l = some e) :
    e = (v, ttl.map (now + ·)) ∨ store l = some e := by
  rw [set] at h
  split_ifs at h
  · exact .inr (delete_eq_some h)
  · by_cases hl : l = k
    · rw [hl, Function.update_self] at h
      exact .inl (Option.some.inj h).symm
    · rw [Function.update_of_ne hl] at h
      exact .inr h

theorem live_set_of_ne {ttl : Option τ} (h : l ≠ k) :
    live (set store k v ttl now) l later = live store l later := by
  rw [live, live, set_of_ne h]

theorem live_set_self [IsOrderedAddMonoid τ] {ttl : τ} (h : now ≤ later) :
    live (set store k v (some ttl) now) k later = if later < now + ttl then some v else none := by
  rw [set]
  by_cases hend : ttl ≤ 0
  · have hlate : ¬ later < now + ttl := not_lt.2 ((add_le_of_nonpos_right hend).trans h)
    rw [if_pos (by simpa using hend), live_of_none delete_self, if_neg hlate]
  · rw [if_neg (by simpa using hend), live, Function.update_self]
    by_cases hlive : later < now + ttl
    · simp [hlive, not_le.2 hlive]
    · simp [hlive, not_lt.1 hlive]

end Order

end Varsten.Machine.TtlStore
