import Mathlib

/-!
# First occurrences

A list without what repeats an earlier key. Where there is no key nothing is a repeat.
-/

namespace Varsten.Machine.FirstSeen

variable {α κ : Type} {key : α → Option κ} {seen seen' : List κ} {x : α} {xs ys : List α} {k : κ}

/-- The key is none of these. -/
def Fresh (key : α → Option κ) (seen : List κ) (x : α) : Prop := ∀ k ∈ key x, k ∉ seen

theorem fresh_of_none (h : key x = none) : Fresh key seen x := by simp [Fresh, h]

theorem fresh_iff (h : key x = some k) : Fresh key seen x ↔ k ∉ seen := by simp [Fresh, h]

theorem fresh_congr (h : ∀ k ∈ key x, k ∈ seen ↔ k ∈ seen') :
    Fresh key seen x ↔ Fresh key seen' x :=
  forall₂_congr fun k hk => not_congr (h k hk)

variable [DecidableEq κ]

instance : Decidable (Fresh key seen x) :=
  decidable_of_iff ((key x).all (· ∉ seen)) (by simp [Fresh, Option.all_eq_true])

def keepFirst (key : α → Option κ) : List κ → List α → List α
  | _, [] => []
  | seen, x :: xs =>
    match key x with
    | none => x :: keepFirst key seen xs
    | some k => if k ∈ seen then keepFirst key seen xs else x :: keepFirst key (k :: seen) xs

theorem keepFirst_cons : keepFirst key seen (x :: xs) = if Fresh key seen x
    then x :: keepFirst key ((key x).toList ++ seen) xs else keepFirst key seen xs := by
  rw [keepFirst]
  cases hk : key x with
  | none => rw [if_pos (fresh_of_none hk), Option.toList_none, List.nil_append]
  | some k =>
    simp only [fresh_iff hk, ite_not, Option.toList_some, List.cons_append, List.nil_append]

theorem keepFirst_fresh (h : Fresh key seen x) : keepFirst key seen (x :: xs) =
    x :: keepFirst key ((key x).toList ++ seen) xs := by
  rw [keepFirst_cons, if_pos h]

theorem keepFirst_repeat (h : ¬Fresh key seen x) :
    keepFirst key seen (x :: xs) = keepFirst key seen xs := by
  rw [keepFirst_cons, if_neg h]

theorem keepFirst_sublist : (keepFirst key seen xs).Sublist xs := by
  induction xs generalizing seen with
  | nil => exact .slnil
  | cons x xs ih =>
    rw [keepFirst_cons]
    split_ifs
    · exact ih.cons_cons x
    · exact ih.cons x

theorem keepFirst_congr (h : ∀ x ∈ xs, ∀ k ∈ key x, k ∈ seen ↔ k ∈ seen') :
    keepFirst key seen xs = keepFirst key seen' xs := by
  induction xs generalizing seen seen' with
  | nil => rfl
  | cons x xs ih =>
    rw [List.forall_mem_cons] at h
    have hrest : keepFirst key ((key x).toList ++ seen) xs =
        keepFirst key ((key x).toList ++ seen') xs := by
      refine ih fun y hy k hk => ?_
      rw [List.mem_append, List.mem_append, h.2 y hy k hk]
    rw [keepFirst_cons, keepFirst_cons, hrest, ih h.2]
    simp only [fresh_congr h.1]

theorem keepFirst_append : keepFirst key seen (xs ++ ys) =
    keepFirst key seen xs ++ keepFirst key (xs.filterMap key ++ seen) ys := by
  induction xs generalizing seen with
  | nil => rfl
  | cons x xs ih =>
    rw [List.cons_append, keepFirst_cons, keepFirst_cons]
    split_ifs with hx
    · rw [ih, List.cons_append]
      congr 2
      refine keepFirst_congr fun y _ k _ => ?_
      cases hk : key x with
      | none => simp [hk]
      | some l =>
        simp only [Option.toList_some, List.filterMap_cons_some hk, List.mem_append, List.mem_cons,
          List.not_mem_nil, or_false]
        tauto
    · rw [ih]
      congr 1
      refine keepFirst_congr fun y _ k _ => ?_
      obtain ⟨l, hl, hseen⟩ : ∃ l ∈ key x, l ∈ seen := by simpa [Fresh] using hx
      simp only [List.mem_append, List.filterMap_cons_some hl, List.mem_cons]
      constructor
      · tauto
      · rintro ((rfl | h) | h)
        · exact .inr hseen
        · exact .inl h
        · exact .inr h

theorem keepFirst_append_of_disjoint (h : ∀ x ∈ xs, ∀ y ∈ ys, ∀ k ∈ key x, k ∉ key y) :
    keepFirst key [] (xs ++ ys) = keepFirst key [] xs ++ keepFirst key [] ys := by
  rw [keepFirst_append]
  congr 1
  refine keepFirst_congr fun y hy k hk => ?_
  simp only [List.append_nil, List.mem_filterMap, List.not_mem_nil, iff_false, not_exists, not_and]
  exact fun x hx hxk => h x hx y hy k hxk hk

theorem keepFirst_keepFirst :
    keepFirst key seen (keepFirst key seen xs) = keepFirst key seen xs := by
  induction xs generalizing seen with
  | nil => rfl
  | cons x xs ih =>
    by_cases hx : Fresh key seen x
    · rw [keepFirst_fresh hx, keepFirst_fresh hx, ih]
    · rw [keepFirst_repeat hx, ih]

theorem keepFirst_map {f : α → α} (h : ∀ x ∈ xs, key (f x) = key x) :
    keepFirst key seen (xs.map f) = (keepFirst key seen xs).map f := by
  induction xs generalizing seen with
  | nil => rfl
  | cons x xs ih =>
    rw [List.forall_mem_cons] at h
    have hfresh : Fresh key seen (f x) ↔ Fresh key seen x := by rw [Fresh, Fresh, h.1]
    rw [List.map_cons, keepFirst_cons, keepFirst_cons, h.1, ih h.2, ih h.2, apply_ite (List.map f),
      List.map_cons]
    simp only [hfresh]

theorem exists_keepFirst (hx : x ∈ xs) (hk : key x = some k) (hseen : k ∉ seen) :
    ∃ y ∈ keepFirst key seen xs, key y = some k := by
  induction xs generalizing seen with
  | nil => cases hx
  | cons z xs ih =>
    by_cases hz : Fresh key seen z
    · rw [keepFirst_fresh hz]
      by_cases hkz : key z = some k
      · exact ⟨z, List.mem_cons_self, hkz⟩
      · have hne : x ≠ z := fun heq => hkz (heq ▸ hk)
        have hseen' : k ∉ (key z).toList ++ seen := by simp [hseen, hkz]
        obtain ⟨y, hy, hyk⟩ := ih ((List.mem_cons.1 hx).resolve_left hne) hseen'
        exact ⟨y, List.mem_cons_of_mem z hy, hyk⟩
    · have hne : x ≠ z := fun heq => hz (heq ▸ (fresh_iff hk).2 hseen)
      rw [keepFirst_repeat hz]
      exact ih ((List.mem_cons.1 hx).resolve_left hne) hseen

theorem mem_keepFirst_of_none (hx : x ∈ xs) (hk : key x = none) : x ∈ keepFirst key seen xs := by
  induction xs generalizing seen with
  | nil => cases hx
  | cons z xs ih =>
    rw [keepFirst_cons]
    split_ifs with hz
    · exact List.mem_cons.2 ((List.mem_cons.1 hx).imp_right fun h => ih h)
    · have hne : x ≠ z := fun heq => hz (heq ▸ fresh_of_none hk)
      exact ih ((List.mem_cons.1 hx).resolve_left hne)

theorem keepFirst_of_repeats (h : ∀ y ∈ ys, ∃ k ∈ key y, k ∈ seen) :
    keepFirst key seen ys = [] := by
  induction ys with
  | nil => rfl
  | cons y ys ih =>
    rw [List.forall_mem_cons] at h
    obtain ⟨k, hk, hseen⟩ := h.1
    rw [keepFirst_repeat (fun hfresh => hfresh k hk hseen), ih h.2]

def markFirst (key : α → Option κ) : List κ → List α → List (α × Bool)
  | _, [] => []
  | seen, x :: xs =>
    (x, decide (Fresh key seen x)) :: markFirst key ((key x).toList ++ seen) xs

theorem filter_markFirst :
    ((markFirst key seen xs).filter (·.2)).map (·.1) = keepFirst key seen xs := by
  induction xs generalizing seen with
  | nil => rfl
  | cons x xs ih =>
    rw [markFirst]
    by_cases hx : Fresh key seen x
    · rw [List.filter_cons_of_pos (by simp [hx]), List.map_cons, ih, keepFirst_fresh hx]
    · rw [List.filter_cons_of_neg (by simp [hx]), ih, keepFirst_repeat hx]
      refine keepFirst_congr fun y _ k _ => ?_
      obtain ⟨l, hl, hseen⟩ : ∃ l ∈ key x, l ∈ seen := by simpa [Fresh] using hx
      rw [Option.mem_def.1 hl, Option.toList_some, List.singleton_append, List.mem_cons]
      exact ⟨fun h => h.elim (fun heq => heq ▸ hseen) id, .inr⟩

theorem getElem?_markFirst {n : ℕ} : (markFirst key seen xs)[n]? =
    xs[n]?.map fun x => (x, decide (Fresh key (seen ++ (xs.take n).filterMap key) x)) := by
  induction xs generalizing seen n with
  | nil => rfl
  | cons x xs ih =>
    cases n with
    | zero => simp [markFirst]
    | succ n =>
      rw [markFirst, List.getElem?_cons_succ, ih, List.getElem?_cons_succ]
      congr 1
      funext y
      congr 1
      refine decide_eq_decide.2 (fresh_congr fun k _ => ?_)
      cases hk : key x <;> simp [hk, or_left_comm]

/-- An element that repeats none before it, and all that follow repeat it or one before it. -/
def LastFresh (key : α → Option κ) (xs : List α) (x : α) : Prop :=
  ∃ pre post, xs = pre ++ x :: post ∧ Fresh key (pre.filterMap key) x ∧
    ∀ y ∈ post, ∃ k ∈ key y, k ∈ (pre ++ [x]).filterMap key

theorem LastFresh.getLast? (h : LastFresh key xs x) : (keepFirst key [] xs).getLast? = some x := by
  obtain ⟨pre, post, rfl, hx, hpost⟩ := h
  have hnone : keepFirst key ((key x).toList ++ pre.filterMap key) post = [] := by
    refine keepFirst_of_repeats fun y hy => ?_
    obtain ⟨k, hk, hseen⟩ := hpost y hy
    refine ⟨k, hk, ?_⟩
    rw [List.filterMap_append, List.mem_append] at hseen
    rw [List.mem_append]
    exact hseen.symm.imp_left fun hseen => by simpa using hseen
  rw [keepFirst_append, List.append_nil, keepFirst_fresh hx, hnone, List.getLast?_append,
    List.getLast?_singleton, Option.some_or]

theorem exists_lastFresh (h : xs ≠ []) : ∃ x, LastFresh key xs x := by
  induction xs using List.reverseRecOn with
  | nil => exact absurd rfl h
  | append_singleton xs y ih =>
    by_cases hy : Fresh key (xs.filterMap key) y
    · exact ⟨y, xs, [], rfl, hy, List.forall_mem_nil _⟩
    · obtain ⟨k, hk, hmem⟩ : ∃ k ∈ key y, k ∈ xs.filterMap key := by
        simpa only [Fresh, not_forall, not_not, exists_prop] using hy
      have hne : xs ≠ [] := fun hnil => by simp [hnil] at hmem
      obtain ⟨x, pre, post, rfl, hx, hpost⟩ := ih hne
      refine ⟨x, pre, post ++ [y], by simp, hx, fun z hz => ?_⟩
      rcases List.mem_append.1 hz with hz | hz
      · exact hpost z hz
      · obtain rfl := List.mem_singleton.1 hz
        refine ⟨k, hk, ?_⟩
        obtain ⟨w, hw, hwk⟩ := List.mem_filterMap.1 hmem
        rw [← List.singleton_append, ← List.append_assoc] at hw
        rcases List.mem_append.1 hw with hw | hw
        · exact List.mem_filterMap.2 ⟨w, hw, hwk⟩
        · obtain ⟨l, hl, hlmem⟩ := hpost w hw
          obtain rfl := Option.some.inj (hl.symm.trans hwk)
          exact hlmem

end Varsten.Machine.FirstSeen
