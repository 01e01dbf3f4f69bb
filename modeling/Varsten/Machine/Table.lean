import Mathlib

/-!
# Tables with a unique key

The rows of a table whose key is unique, in the order they were committed, and the latest of them
by the time at which the transaction that made them began.
-/

namespace Varsten.Machine

variable {κ ρ : Type}

structure Table (key : ρ → κ) where
  rows : List ρ
  unique : (rows.map key).Nodup

namespace Table

variable {key : ρ → κ}

def empty : Table key := ⟨[], List.nodup_nil⟩

def update (t : Table key) (f : ρ → ρ) (hf : ∀ r, key (f r) = key r) : Table key where
  rows := t.rows.map f
  unique := by
    have hmap : (t.rows.map f).map key = t.rows.map key := by
      rw [List.map_map]
      exact List.map_congr_left fun x _ => hf x
    rw [hmap]
    exact t.unique

theorem eq_of_key_eq {t : Table key} {x y : ρ} (hx : x ∈ t.rows) (hy : y ∈ t.rows)
    (h : key x = key y) : x = y := List.inj_on_of_nodup_map t.unique hx hy h

section Latest

variable {τ : Type} [LinearOrder τ]

def latest (t : Table key) (p : ρ → Bool) (created : ρ → τ) : Option ρ :=
  (t.rows.filter p).argmax created

variable {t : Table key} {p : ρ → Bool} {created : ρ → τ}

theorem latest_mem {x : ρ} (h : t.latest p created = some x) : x ∈ t.rows ∧ p x = true :=
  List.mem_filter.1 (List.argmax_mem h)

theorem argmax_map {α β : Type} {g : α → τ} {f : β → α} (l : List β) :
    (l.map f).argmax g = (l.argmax (g ∘ f)).map f := by
  induction l using List.reverseRecOn with
  | nil => rfl
  | append_singleton l b ih =>
    rw [List.map_append, List.map_singleton, List.argmax_concat, List.argmax_concat, ih]
    cases l.argmax (g ∘ f) with
    | none => rfl
    | some x =>
      dsimp only [Option.map_some, Function.comp]
      split_ifs <;> rfl

theorem argmax_congr {α : Type} {f g : α → τ} {l : List α} (h : ∀ x ∈ l, f x = g x) :
    l.argmax f = l.argmax g := by
  induction l using List.reverseRecOn with
  | nil => rfl
  | append_singleton l b ih =>
    have hl : ∀ x ∈ l, f x = g x := fun x hx => h x (List.mem_append_left _ hx)
    rw [List.argmax_concat, List.argmax_concat, ih hl, h b (by simp)]
    cases hm : l.argmax g with
    | none => rfl
    | some x =>
      dsimp only
      rw [hl x (List.argmax_mem hm)]

theorem argmax_filter {α : Type} {f : α → τ} {p : α → Bool} {l : List α} {m : α}
    (h : l.argmax f = some m) (hp : p m = true) : (l.filter p).argmax f = some m := by
  induction l using List.reverseRecOn generalizing m with
  | nil => exact absurd h (by simp)
  | append_singleton l a ih =>
    rw [List.argmax_concat] at h
    rw [List.filter_append]
    cases hl : l.argmax f with
    | none =>
      rw [hl] at h
      obtain rfl := Option.some.inj h
      obtain rfl := List.argmax_eq_none.1 hl
      simp [hp]
    | some b =>
      rw [hl] at h
      dsimp only at h
      split_ifs at h with hlt
      · obtain rfl := Option.some.inj h
        rw [List.filter_singleton, hp, cond_true, List.argmax_concat]
        cases hf : (l.filter p).argmax f with
        | none => rfl
        | some c =>
          have hc := (List.mem_filter.1 (List.argmax_mem hf)).1
          exact if_pos ((List.le_of_mem_argmax hc hl).trans_lt hlt)
      · obtain rfl := Option.some.inj h
        have hb := ih hl hp
        cases hpa : p a with
        | false => rw [List.filter_singleton, hpa, cond_false, List.append_nil, hb]
        | true =>
          rw [List.filter_singleton, hpa, cond_true, List.argmax_concat, hb]
          exact if_neg hlt

end Latest

variable [DecidableEq κ]

def find (t : Table key) (k : κ) : Option ρ := t.rows.find? fun r => key r = k

theorem find_eq_some {t : Table key} {k : κ} {r : ρ} :
    t.find k = some r ↔ r ∈ t.rows ∧ key r = k := by
  constructor
  · intro h
    refine ⟨List.mem_of_find?_eq_some h, ?_⟩
    simpa using List.find?_some h
  · rintro ⟨hr, rfl⟩
    have hsome : (t.find (key r)).isSome = true :=
      List.find?_isSome.2 ⟨r, hr, decide_eq_true rfl⟩
    obtain ⟨r', h'⟩ := Option.isSome_iff_exists.1 hsome
    have hkey : key r' = key r := by simpa using List.find?_some h'
    rw [h', eq_of_key_eq (List.mem_of_find?_eq_some h') hr hkey]

def put (t : Table key) (r : ρ) : Table key where
  rows :=
    if t.rows.any (fun x => key x = key r) then
      t.rows.map fun x => if key x = key r then r else x
    else t.rows ++ [r]
  unique := by
    split_ifs with h
    · have hmap : (t.rows.map fun x => if key x = key r then r else x).map key =
          t.rows.map key := by
        rw [List.map_map]
        refine List.map_congr_left fun x _ => ?_
        by_cases hx : key x = key r <;> simp [hx]
      rw [hmap]
      exact t.unique
    · rw [List.map_append, List.nodup_append]
      refine ⟨t.unique, List.nodup_singleton _, fun k hk k' hk' => ?_⟩
      rw [List.mem_singleton.1 hk']
      obtain ⟨x, hx, rfl⟩ := List.mem_map.1 hk
      exact fun hne => h (List.any_eq_true.2 ⟨x, hx, decide_eq_true hne⟩)

theorem mem_put {t : Table key} {r x : ρ} :
    x ∈ (t.put r).rows ↔ x = r ∨ (x ∈ t.rows ∧ key x ≠ key r) := by
  unfold put
  dsimp only
  split_ifs with h
  · obtain ⟨y, hy, hkey⟩ := List.any_eq_true.1 h
    rw [decide_eq_true_eq] at hkey
    rw [List.mem_map]
    constructor
    · rintro ⟨z, hz, rfl⟩
      by_cases hk : key z = key r
      · exact .inl (if_pos hk)
      · exact .inr (by rw [if_neg hk]; exact ⟨hz, hk⟩)
    · rintro (rfl | ⟨hx, hk⟩)
      · exact ⟨y, hy, if_pos hkey⟩
      · exact ⟨x, hx, if_neg hk⟩
  · rw [List.mem_append, List.mem_singleton, or_comm]
    refine or_congr Iff.rfl ⟨fun hx => ⟨hx, fun hk => h ?_⟩, fun hx => hx.1⟩
    exact List.any_eq_true.2 ⟨x, hx, decide_eq_true hk⟩

def add (t : Table key) (r : ρ) : Option (Table key) :=
  if t.find (key r) = none then some (t.put r) else none

theorem find_eq_none {t : Table key} {k : κ} : t.find k = none ↔ ∀ x ∈ t.rows, key x ≠ k := by
  simp [find, List.find?_eq_none]

theorem put_rows_new {t : Table key} {r : ρ} (h : t.find (key r) = none) :
    (t.put r).rows = t.rows ++ [r] := by
  rw [find_eq_none] at h
  refine if_neg fun hany => ?_
  obtain ⟨x, hx, hkey⟩ := List.any_eq_true.1 hany
  exact h x hx (of_decide_eq_true hkey)

theorem put_rows_old {t : Table key} {r r₀ : ρ} (h : t.find (key r) = some r₀) :
    (t.put r).rows = t.rows.map fun x => if key x = key r then r else x := by
  obtain ⟨hr, hkey⟩ := find_eq_some.1 h
  exact if_pos (List.any_eq_true.2 ⟨r₀, hr, decide_eq_true hkey⟩)

theorem put_self {t : Table key} {r : ρ} (h : t.find (key r) = some r) : t.put r = t := by
  have hrows : (t.put r).rows = t.rows := by
    rw [put_rows_old h]
    refine (List.map_congr_left fun x hx => ?_).trans (List.map_id _)
    by_cases hk : key x = key r
    · rw [if_pos hk]
      exact eq_of_key_eq (find_eq_some.1 h).1 hx hk.symm
    · exact if_neg hk
  obtain ⟨rows, unique⟩ := t
  exact (Table.mk.injEq ..).mpr hrows

theorem find_put {t : Table key} {r : ρ} {k : κ} :
    (t.put r).find k = if key r = k then some r else t.find k := by
  split_ifs with hk
  · exact find_eq_some.2 ⟨mem_put.2 (.inl rfl), hk⟩
  · refine Option.ext fun x => ?_
    rw [find_eq_some, find_eq_some, mem_put]
    constructor
    · rintro ⟨rfl | ⟨hx, -⟩, hkey⟩
      · exact absurd hkey hk
      · exact ⟨hx, hkey⟩
    · rintro ⟨hx, rfl⟩
      exact ⟨.inr ⟨hx, fun h => hk h.symm⟩, rfl⟩

theorem add_eq_some {t t' : Table key} {r : ρ} :
    t.add r = some t' ↔ t.find (key r) = none ∧ t' = t.put r := by
  unfold add
  split_ifs with h <;> simp [h, eq_comm]

section Latest

variable {τ : Type} [LinearOrder τ] {t : Table key} {p : ρ → Bool} {created : ρ → τ}

theorem latest_put_old {r r₀ : ρ} (h : t.find (key r) = some r₀) (hp : p r = p r₀)
    (hc : created r = created r₀) :
    (t.put r).latest p created =
      (t.latest p created).map fun x => if key x = key r then r else x := by
  obtain ⟨hr₀, hkey⟩ := find_eq_some.1 h
  have hsame : ∀ x ∈ t.rows, key x = key r → x = r₀ :=
    fun x hx hk => eq_of_key_eq hx hr₀ (hk.trans hkey.symm)
  have hfilter : (t.rows.map fun x => if key x = key r then r else x).filter p =
      (t.rows.filter p).map fun x => if key x = key r then r else x := by
    rw [List.filter_map]
    refine congrArg _ (List.filter_congr fun x hx => ?_)
    dsimp only [Function.comp]
    split_ifs with hk
    · rw [hsame x hx hk, hp]
    · rfl
  have htime : ∀ x ∈ t.rows.filter p,
      (created ∘ fun x => if key x = key r then r else x) x = created x := by
    intro x hx
    dsimp only [Function.comp]
    split_ifs with hk
    · rw [hsame x (List.mem_filter.1 hx).1 hk, hc]
    · rfl
  rw [latest, put_rows_old h, hfilter, argmax_map, argmax_congr htime]
  rfl

/-- A new row is the latest where it has the property and nothing with it is as late. -/
theorem latest_put_new {r : ρ} (h : t.find (key r) = none) :
    (t.put r).latest p created =
      if p r = true then (t.latest p created).elim (some r) fun x =>
        if created x < created r then some r else some x
      else t.latest p created := by
  rw [latest, put_rows_new h, List.filter_append]
  split_ifs with hp
  · rw [List.filter_singleton, hp, cond_true, List.argmax_concat]
    rw [← latest]
    cases t.latest p created <;> rfl
  · rw [List.filter_singleton, Bool.eq_false_iff.2 hp, cond_false, List.append_nil]
    rfl

end Latest

end Table

end Varsten.Machine
