import Mathlib

/-!
# Ranked and cut

A list in the stable order of a key, and what a limit leaves of it. What is left depends on the
order of the list where a tie crosses the limit, and only there.
-/

namespace Varsten.Machine.RankedCut

variable {α K : Type} [LinearOrder K] (key : α → K)

def ranked (xs : List α) : List α := xs.insertionSort (key · ≤ key ·)

def cut (n : ℕ) (xs : List α) : List α := (ranked key xs).take n

def below (x : α) (xs : List α) : ℕ := xs.countP (key · < key x)

def upTo (x : α) (xs : List α) : ℕ := xs.countP (key · ≤ key x)

def Decided (n : ℕ) (xs : List α) : Prop := ∀ x ∈ xs, below key x xs < n → upTo key x xs ≤ n

variable {n : ℕ} {xs ys : List α} {x : α}

theorem perm_ranked (xs : List α) : (ranked key xs).Perm xs := List.perm_insertionSort _ _

theorem pairwise_ranked (xs : List α) : (ranked key xs).Pairwise (key · ≤ key ·) := by
  have : Std.Total fun a b : α => key a ≤ key b := ⟨fun a b => le_total _ _⟩
  have : IsTrans α fun a b => key a ≤ key b := ⟨fun _ _ _ => le_trans⟩
  exact List.pairwise_insertionSort _ xs

theorem ranked_split (n : ℕ) (xs : List α) :
    cut key n xs ++ (ranked key xs).drop n = ranked key xs := List.take_append_drop _ _

theorem countP_split (p : α → Bool) (n : ℕ) (xs : List α) :
    xs.countP p = (cut key n xs).countP p + ((ranked key xs).drop n).countP p := by
  rw [← List.countP_append, ranked_split]
  exact ((perm_ranked key xs).countP_eq p).symm

theorem length_cut_le (n : ℕ) (xs : List α) : (cut key n xs).length ≤ n :=
  List.length_take_le _ _

variable {key}

theorem mem_ranked : x ∈ ranked key xs ↔ x ∈ xs := (perm_ranked key xs).mem_iff

theorem cut_le_rest {a b : α} (ha : a ∈ cut key n xs) (hb : b ∈ (ranked key xs).drop n) :
    key a ≤ key b := by
  have h := pairwise_ranked key xs
  rw [← ranked_split key n xs] at h
  exact (List.pairwise_append.1 h).2.2 a ha b hb

theorem mem_cut_or (hx : x ∈ xs) : x ∈ cut key n xs ∨ x ∈ (ranked key xs).drop n := by
  rw [← List.mem_append, ranked_split]
  exact mem_ranked.2 hx

theorem mem_of_mem_cut (h : x ∈ cut key n xs) : x ∈ xs :=
  mem_ranked.1 (List.mem_of_mem_take h)

theorem mem_cut_of_upTo (hx : x ∈ xs) (h : upTo key x xs ≤ n) : x ∈ cut key n xs := by
  refine (mem_cut_or hx).resolve_right fun hrest => ?_
  have hfull : (cut key n xs).length = n := by
    have hlt := List.length_pos_of_mem hrest
    rw [List.length_drop] at hlt
    exact List.length_take_of_le (by omega)
  have hcut : (cut key n xs).countP (key · ≤ key x) = n := by
    have hall : ∀ a ∈ cut key n xs, decide (key a ≤ key x) = true :=
      fun a ha => decide_eq_true (cut_le_rest ha hrest)
    rw [List.countP_eq_length.2 hall, hfull]
  have hpos : 0 < ((ranked key xs).drop n).countP (key · ≤ key x) :=
    List.countP_pos_iff.2 ⟨x, hrest, by simp⟩
  rw [upTo, countP_split key _ n, hcut] at h
  omega

theorem below_of_mem_cut (h : x ∈ cut key n xs) : below key x xs < n := by
  have hrest : ((ranked key xs).drop n).countP (key · < key x) = 0 := by
    refine List.countP_eq_zero.2 fun b hb => ?_
    have hle : key x ≤ key b := cut_le_rest h hb
    simpa using hle
  have hcut : (cut key n xs).countP (key · < key x) < (cut key n xs).length := by
    refine lt_of_le_of_ne List.countP_le_length fun heq => ?_
    simpa using List.countP_eq_length.1 heq x h
  rw [below, countP_split key _ n, hrest, add_zero]
  exact hcut.trans_le (length_cut_le key n xs)

/-! ## Where no tie crosses the limit -/

theorem Decided.mem_cut_iff (h : Decided key n xs) :
    x ∈ cut key n xs ↔ x ∈ xs ∧ below key x xs < n := by
  constructor
  · exact fun hx => ⟨mem_of_mem_cut hx, below_of_mem_cut hx⟩
  · rintro ⟨hx, hlt⟩
    exact mem_cut_of_upTo hx (h x hx hlt)

theorem below_perm (h : xs.Perm ys) : below key x xs = below key x ys := h.countP_eq _

theorem upTo_perm (h : xs.Perm ys) : upTo key x xs = upTo key x ys := h.countP_eq _

theorem Decided.perm (h : Decided key n xs) (hp : xs.Perm ys) : Decided key n ys := by
  intro y hy hlt
  have hbelow : below key y xs < n := by rwa [below_perm hp]
  have hupTo := h y (hp.mem_iff.2 hy) hbelow
  rwa [upTo_perm hp] at hupTo

theorem Decided.mem_cut_perm (h : Decided key n xs) (hp : xs.Perm ys) :
    x ∈ cut key n xs ↔ x ∈ cut key n ys := by
  rw [h.mem_cut_iff, (h.perm hp).mem_cut_iff, hp.mem_iff, below_perm hp]

/-! ## Where a tie crosses the limit -/

theorem mem_cut_cons (h : below key x xs < n) : x ∈ cut key n (x :: xs) := by
  rw [cut, ranked, List.insertionSort_cons, List.orderedInsert_eq_take_drop]
  have hsmall : ((ranked key xs).takeWhile fun b => ¬ key x ≤ key b).length < n := by
    refine lt_of_le_of_lt ?_ h
    rw [below, ← (perm_ranked key xs).countP_eq]
    have hall : ∀ b ∈ (ranked key xs).takeWhile fun b => ¬ key x ≤ key b,
        decide (key b < key x) = true := by
      intro b hb
      simpa using List.mem_takeWhile_imp hb
    rw [← List.countP_eq_length.2 hall]
    exact (List.takeWhile_sublist _).countP_le
  obtain ⟨m, hm⟩ := Nat.exists_eq_add_of_lt hsmall
  rw [List.take_append]
  refine List.mem_append_right _ ?_
  change x ∈ List.take (n - ((ranked key xs).takeWhile fun b => ¬ key x ≤ key b).length) _
  rw [hm, show ∀ a, a + m + 1 - a = m + 1 by omega, List.take_succ_cons]
  exact List.mem_cons_self

/-- Of a tie across the limit something is left out, which another order lets in. -/
theorem exists_of_not_decided (hn : xs.Nodup) (h : ¬ Decided key n xs) :
    ∃ z ∈ xs, z ∉ cut key n xs ∧ ∀ ys, xs.Perm (z :: ys) → z ∈ cut key n (z :: ys) := by
  obtain ⟨x, hx, hlt, hgt⟩ : ∃ x ∈ xs, below key x xs < n ∧ n < upTo key x xs := by
    simpa [Decided] using h
  obtain ⟨z, hz, hle⟩ : ∃ z ∈ (ranked key xs).drop n, key z ≤ key x := by
    by_contra hno
    push Not at hno
    have hrest : ((ranked key xs).drop n).countP (key · ≤ key x) = 0 :=
      List.countP_eq_zero.2 fun b hb => by simpa using hno b hb
    rw [upTo, countP_split key _ n, hrest, add_zero] at hgt
    exact absurd (List.countP_le_length.trans (length_cut_le key n xs)) (not_le.2 hgt)
  have hmem : z ∈ xs := mem_ranked.1 (List.mem_of_mem_drop hz)
  refine ⟨z, hmem, fun hcut => ?_, fun ys hp => mem_cut_cons ?_⟩
  · have hranked : (ranked key xs).Nodup := (perm_ranked key xs).nodup_iff.2 hn
    exact List.disjoint_take_drop hranked (le_refl n) hcut hz
  · have hbelow : below key z xs < n := by
      refine lt_of_le_of_lt (List.countP_mono_left fun y _ hy => ?_) hlt
      simp only [decide_eq_true_iff] at hy ⊢
      exact hy.trans_le hle
    rw [below_perm hp] at hbelow
    simpa [below] using hbelow

/-! ## What comes before all else -/

/-- What comes before all else is kept if and only if there are no more than the limit. -/
theorem kept_iff {p : α → Prop} [DecidablePred p] (hp : ∀ a ∈ xs, ∀ b ∈ xs, p a → ¬ p b →
    key a < key b) (hn : xs.Nodup) :
    (∀ a ∈ xs, p a → a ∈ cut key n xs) ↔ xs.countP p ≤ n := by
  constructor
  · intro h
    have hsub : xs.filter p ⊆ cut key n xs := fun a ha => by
      obtain ⟨ha, hpa⟩ := List.mem_filter.1 ha
      exact h a ha (by simpa using hpa)
    rw [List.countP_eq_length_filter]
    exact ((hn.filter _).subperm hsub).length_le.trans (length_cut_le key n xs)
  · intro h a ha hpa
    refine mem_cut_of_upTo ha (le_trans (List.countP_mono_left fun b hb hle => ?_) h)
    simp only [decide_eq_true_iff] at hle ⊢
    by_contra hpb
    exact absurd hle (not_le.2 (hp a ha b hb hpa hpb))

end Varsten.Machine.RankedCut
