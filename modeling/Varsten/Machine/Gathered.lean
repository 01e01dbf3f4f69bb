import Mathlib

/-!
# Gathered

A dictionary of accumulators in insertion order, and a loop that adds each element to the
accumulator of its key.
-/

namespace Varsten.Machine.Gathered

variable {α κ ν : Type} [DecidableEq κ]

abbrev Dict (κ ν : Type) := List (κ × ν)

/-- `d[k] = f(d[k])`, where a missing accumulator is a fresh one. -/
def update (k : κ) (f : ν → ν) (init : ν) : Dict κ ν → Dict κ ν
  | [] => [(k, f init)]
  | e :: d => if e.1 = k then (k, f e.2) :: d else e :: update k f init d

/-- `d.get(k)`. -/
def get (k : κ) (d : Dict κ ν) : Option ν := (d.find? (·.1 = k)).map (·.2)

def keys (d : Dict κ ν) : List κ := d.map (·.1)

def gather (key : α → Option κ) (step : ν → α → ν) (init : ν) (d : Dict κ ν) (xs : List α) :
    Dict κ ν :=
  xs.foldl (fun d x => match key x with
    | none => d
    | some k => update k (step · x) init d) d

section Update

variable {k l : κ} {f : ν → ν} {init : ν} {d : Dict κ ν}

theorem get_cons (e : κ × ν) : get k (e :: d) = if e.1 = k then some e.2 else get k d := by
  by_cases h : e.1 = k <;> simp [get, h]

theorem get_update_self : get k (update k f init d) = some (f ((get k d).getD init)) := by
  induction d with
  | nil => simp [update, get]
  | cons e d ih =>
    rw [update]
    split_ifs with h
    · simp [get_cons, h]
    · rw [get_cons, get_cons, if_neg h, if_neg h, ih]

theorem get_update_ne (h : l ≠ k) : get l (update k f init d) = get l d := by
  induction d with
  | nil => simp [update, get, h.symm]
  | cons e d ih =>
    rw [update]
    split_ifs with he
    · rw [get_cons, get_cons, if_neg h.symm, if_neg (he ▸ h.symm)]
    · rw [get_cons, get_cons, ih]

theorem keys_update :
    keys (update k f init d) = if k ∈ keys d then keys d else keys d ++ [k] := by
  induction d with
  | nil => simp [update, keys]
  | cons e d ih =>
    rw [update]
    split_ifs with he hk hk
    · simp [keys, he]
    · exact absurd (by simp [keys, he]) hk
    · have hk' : k ∈ keys d := by simpa [keys, Ne.symm he] using hk
      rw [if_pos hk'] at ih
      simpa [keys] using ih
    · have hk' : k ∉ keys d := fun hmem => hk (List.mem_cons_of_mem _ hmem)
      rw [if_neg hk'] at ih
      simpa [keys] using ih

theorem nodup_update (h : (keys d).Nodup) : (keys (update k f init d)).Nodup := by
  rw [keys_update]
  split_ifs with hk
  · exact h
  · exact List.nodup_append.2 ⟨h, List.nodup_singleton k, fun a ha b hb heq =>
      hk (List.mem_singleton.1 hb ▸ heq ▸ ha)⟩

theorem get_eq_none_iff : get k d = none ↔ k ∉ keys d := by
  induction d with
  | nil => simp [get, keys]
  | cons e d ih =>
    rw [get_cons]
    split_ifs with he
    · simp [keys, he]
    · rw [ih]
      simp [keys, Ne.symm he]

omit [DecidableEq κ] in
theorem perm_of_entries {d' : Dict κ ν} (h : (keys d).Nodup) (h' : (keys d').Nodup)
    (hd : ∀ k v, (k, v) ∈ d ↔ (k, v) ∈ d') : d.Perm d' :=
  (List.perm_ext_iff_of_nodup (List.Nodup.of_map _ h) (List.Nodup.of_map _ h')).2
    fun e => hd e.1 e.2

theorem mem_iff_get (h : (keys d).Nodup) {v : ν} : (k, v) ∈ d ↔ get k d = some v := by
  induction d with
  | nil => simp [get]
  | cons e d ih =>
    obtain ⟨hnot, hd⟩ := List.nodup_cons.1 h
    rw [List.mem_cons, get_cons]
    split_ifs with he
    · have hrest : (k, v) ∉ d := by
        intro hmem
        exact hnot (List.mem_map.2 ⟨(k, v), hmem, he.symm⟩)
      simp only [hrest, or_false, Option.some.injEq]
      exact ⟨fun heq => heq ▸ rfl, fun heq => by rw [← he, ← heq]⟩
    · rw [← ih hd]
      exact or_iff_right fun heq => he (heq ▸ rfl)

end Update

section Gather

variable {key : α → Option κ} {step : ν → α → ν} {init : ν} {d : Dict κ ν} {xs ys : List α} {k : κ}

@[simp] theorem gather_nil : gather key step init d [] = d := rfl

theorem gather_cons (x : α) : gather key step init d (x :: xs) =
    gather key step init (match key x with
      | none => d
      | some k => update k (step · x) init d) xs := rfl

def own (key : α → Option κ) (k : κ) (xs : List α) : List α := xs.filter (key · = some k)

theorem own_append : own key k (xs ++ ys) = own key k xs ++ own key k ys := List.filter_append ..

theorem own_perm (h : xs.Perm ys) : (own key k xs).Perm (own key k ys) := h.filter _

theorem getD_gather : (get k (gather key step init d xs)).getD init =
    (own key k xs).foldl step ((get k d).getD init) := by
  induction xs generalizing d with
  | nil => rfl
  | cons x xs ih =>
    rw [gather_cons, ih]
    cases hx : key x with
    | none => simp [own, hx]
    | some l =>
      by_cases hl : l = k
      · subst hl
        simp [get_update_self, own, hx]
      · simp [get_update_ne (Ne.symm hl), own, hx, hl]

theorem nodup_gather (h : (keys d).Nodup) : (keys (gather key step init d xs)).Nodup := by
  induction xs generalizing d with
  | nil => exact h
  | cons x xs ih =>
    rw [gather_cons]
    cases key x with
    | none => exact ih h
    | some k => exact ih (nodup_update h)

theorem mem_keys_gather :
    k ∈ keys (gather key step init d xs) ↔ k ∈ keys d ∨ ∃ x ∈ xs, key x = some k := by
  induction xs generalizing d with
  | nil => simp
  | cons x xs ih =>
    rw [gather_cons, ih]
    cases hx : key x with
    | none => simp [hx]
    | some l =>
      rw [keys_update]
      simp only [List.mem_cons, exists_eq_or_imp, hx, Option.some.injEq]
      split_ifs with hl
      · constructor
        · rintro (h | h)
          · exact .inl h
          · exact .inr (.inr h)
        · rintro (h | rfl | h)
          · exact .inl h
          · exact .inl hl
          · exact .inr h
      · rw [List.mem_append, List.mem_singleton, or_assoc, eq_comm (a := k)]

theorem mem_gather (h : (keys d).Nodup) {v : ν} : (k, v) ∈ gather key step init d xs ↔
    (k ∈ keys d ∨ ∃ x ∈ xs, key x = some k) ∧
      v = (own key k xs).foldl step ((get k d).getD init) := by
  have hkeys : k ∈ keys (gather key step init d xs) ↔ k ∈ keys d ∨ ∃ x ∈ xs, key x = some k :=
    mem_keys_gather
  rw [mem_iff_get (nodup_gather h), ← getD_gather, ← hkeys]
  cases hk : get k (gather key step init d xs) with
  | none => simp [get_eq_none_iff.1 hk]
  | some u =>
    have hmem : k ∈ keys (gather key step init d xs) := by
      by_contra hno
      rw [get_eq_none_iff.2 hno] at hk
      cases hk
    simp only [Option.some.injEq, hmem, true_and, Option.getD_some]
    exact eq_comm

theorem update_head (e : κ × ν) (f : ν → ν) :
    ∃ v d', update k f init (e :: d) = (e.1, v) :: d' := by
  rw [update]
  split_ifs with h
  · exact ⟨f e.2, d, by rw [h]⟩
  · exact ⟨e.2, _, rfl⟩

theorem gather_head (e : κ × ν) :
    ∃ v d', gather key step init (e :: d) xs = (e.1, v) :: d' := by
  induction xs generalizing e d with
  | nil => exact ⟨e.2, d, rfl⟩
  | cons x xs ih =>
    rw [gather_cons]
    cases key x with
    | none => exact ih e
    | some k =>
      obtain ⟨v, d', hu⟩ : ∃ v d', update k (step · x) init (e :: d) = (e.1, v) :: d' :=
        update_head e _
      dsimp only
      rw [hu]
      exact ih (e.1, v)

end Gather

end Varsten.Machine.Gathered
