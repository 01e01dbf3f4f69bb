import Mathlib

/-!
# Common prefixes and suffixes

The prefixes that all lists of a family have, by length. A scan along one of the lists that stops at
the first position where another differs ends at the longest.
-/

namespace Varsten.Machine.Prefixes

variable {α : Type} {xs : List (List α)} {p x : List α} {n m : ℕ}

def IsCommonPrefix (p : List α) (xs : List (List α)) : Prop := ∀ x ∈ xs, p <+: x

def IsCommonSuffix (s : List α) (xs : List (List α)) : Prop := ∀ x ∈ xs, s <:+ x

/-- A common prefix has length `n`, and none is longer. -/
structure LongestPrefix (n : ℕ) (xs : List (List α)) : Prop where
  attained : ∃ p, p.length = n ∧ IsCommonPrefix p xs
  longest : ∀ p, IsCommonPrefix p xs → p.length ≤ n

/-- A common suffix has length `n`, and none of length at most `bound` is longer. -/
structure LongestSuffix (bound n : ℕ) (xs : List (List α)) : Prop where
  attained : ∃ s, s.length = n ∧ IsCommonSuffix s xs
  longest : ∀ s, IsCommonSuffix s xs → s.length ≤ bound → s.length ≤ n

theorem isCommonPrefix_nil (xs : List (List α)) : IsCommonPrefix [] xs := fun _ _ => List.nil_prefix

theorem isCommonPrefix_reverse (p : List α) (xs : List (List α)) :
    IsCommonPrefix p.reverse (xs.map List.reverse) ↔ IsCommonSuffix p xs := by
  simp only [IsCommonPrefix, IsCommonSuffix, List.forall_mem_map, List.reverse_prefix]

theorem concat_prefix_iff {c : α} :
    p ++ [c] <+: x ↔ p <+: x ∧ x[p.length]? = some c := by
  constructor
  · rintro ⟨t, rfl⟩
    exact ⟨⟨c :: t, by simp⟩, by simp⟩
  · rintro ⟨⟨t, rfl⟩, h⟩
    cases t with
    | nil => simp at h
    | cons d t =>
      obtain rfl : d = c := by simpa using h
      exact ⟨t, by simp⟩

theorem isCommonPrefix_concat {c : α} :
    IsCommonPrefix (p ++ [c]) xs ↔ IsCommonPrefix p xs ∧ ∀ x ∈ xs, x[p.length]? = some c := by
  constructor
  · intro h
    exact ⟨fun x hx => (concat_prefix_iff.1 (h x hx)).1,
      fun x hx => (concat_prefix_iff.1 (h x hx)).2⟩
  · rintro ⟨hp, hc⟩ x hx
    exact concat_prefix_iff.2 ⟨hp x hx, hc x hx⟩

theorem IsCommonPrefix.take (h : IsCommonPrefix p xs) (n : ℕ) : IsCommonPrefix (p.take n) xs :=
  fun x hx => (List.take_prefix n p).trans (h x hx)

theorem IsCommonSuffix.drop {s : List α} (h : IsCommonSuffix s xs) (n : ℕ) :
    IsCommonSuffix (s.drop n) xs :=
  fun x hx => (List.drop_suffix n s).trans (h x hx)

theorem longest_of_differs {c : α} {rest : List α} (hp : IsCommonPrefix p xs)
    (hmem : p ++ c :: rest ∈ xs) (hx : x ∈ xs) (hne : x[p.length]? ≠ some c) :
    LongestPrefix p.length xs := by
  refine ⟨⟨p, rfl, hp⟩, fun q hq => not_lt.1 fun hlt => hne ?_⟩
  have hat : ∀ y ∈ xs, y[p.length]? = some q[p.length] := fun y hy => by
    obtain ⟨t, rfl⟩ := hq y hy
    rw [List.getElem?_append_left hlt, List.getElem?_eq_getElem hlt]
  rw [hat x hx, ← hat _ hmem]
  simp

theorem longest_of_mem (hp : IsCommonPrefix p xs) (hmem : p ∈ xs) : LongestPrefix p.length xs :=
  ⟨⟨p, rfl, hp⟩, fun _ hq => (hq p hmem).length_le⟩

/-- A longest common prefix of the reversed lists, cut to a bound, is a longest suffix within it. -/
theorem LongestPrefix.suffix (h : LongestPrefix n (xs.map List.reverse)) (bound : ℕ) :
    LongestSuffix bound (min n bound) xs := by
  obtain ⟨p, rfl, hp⟩ := h.attained
  have hs : IsCommonSuffix p.reverse xs := by
    rw [← isCommonPrefix_reverse, List.reverse_reverse]
    exact hp
  refine ⟨⟨p.reverse.drop (p.length - bound), ?_, hs.drop _⟩, fun s hs hle => le_min ?_ hle⟩
  · rw [List.length_drop, List.length_reverse]
    omega
  · have hlen := h.longest s.reverse ((isCommonPrefix_reverse s xs).2 hs)
    rwa [List.length_reverse] at hlen

end Varsten.Machine.Prefixes
