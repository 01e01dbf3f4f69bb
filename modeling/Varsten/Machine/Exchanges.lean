import Mathlib

/-!
# Calls and their answers

A log in which calls are made under an id and answered later. Of a log with marks the marked
entries are kept.
-/

namespace Varsten.Machine.Exchanges

variable {α β ι : Type} {calls answers : α → List ι}

/-- Every answer has its call before it and every call its answer after it. -/
def Paired (calls answers : α → List ι) (l : List α) : Prop :=
  ∀ pre m post, l = pre ++ m :: post →
    (∀ i ∈ answers m, ∃ c ∈ pre, i ∈ calls c) ∧ ∀ i ∈ calls m, ∃ a ∈ post, i ∈ answers a

def marked (l : List (α × Bool)) : List α := (l.filter (·.2)).map (·.1)

def Linked (calls answers : α → List ι) (l : List (α × Bool)) : Prop :=
  ∀ pre m post, l = pre ++ (m, true) :: post →
    (∀ i ∈ answers m, ∃ c, (c, true) ∈ pre ∧ i ∈ calls c) ∧
      ∀ i ∈ calls m, ∃ a, (a, true) ∈ post ∧ i ∈ answers a

/-- No id is called twice or answered twice. -/
def Distinct (calls answers : α → List ι) (l : List α) : Prop :=
  (l.flatMap calls).Nodup ∧ (l.flatMap answers).Nodup

def idsAt (f : α → List ι) (l : List α) (n : ℕ) : List ι := l[n]?.elim [] f

/-- Of a call and a later answer to it both stay or neither, or the one that stays has another
partner that stays. -/
def Joined (calls answers : α → List ι) (stays : ℕ → Prop) (l : List α) : Prop :=
  ∀ n < l.length, ∀ k < n, ∀ i ∈ idsAt calls l k, i ∈ idsAt answers l n →
    (stays n → ¬stays k → ∃ k' < n, stays k' ∧ i ∈ idsAt calls l k') ∧
      (stays k → ¬stays n → ∃ n' < l.length, k < n' ∧ stays n' ∧ i ∈ idsAt answers l n')

/-- No call is split from a later answer to it. -/
def Whole (calls answers : α → List ι) (stays : ℕ → Prop) (l : List α) : Prop :=
  ∀ n < l.length, ∀ k < n, ∀ i ∈ idsAt calls l k, i ∈ idsAt answers l n → (stays k ↔ stays n)

theorem paired_iff_getElem {l : List α} : Paired calls answers l ↔ ∀ n : Fin l.length,
    (∀ i ∈ answers l[n], ∃ c ∈ l.take n, i ∈ calls c) ∧
      ∀ i ∈ calls l[n], ∃ a ∈ l.drop (n + 1), i ∈ answers a := by
  constructor
  · intro h n
    exact h (l.take n) l[n] (l.drop (n + 1)) (by simp)
  · rintro h pre m post rfl
    have hn : pre.length < (pre ++ m :: post).length := by simp
    simpa using h ⟨pre.length, hn⟩

instance [DecidableEq ι] {l : List α} : Decidable (Paired calls answers l) :=
  decidable_of_iff _ paired_iff_getElem.symm

instance [DecidableEq ι] {stays : ℕ → Prop} [DecidablePred stays] {l : List α} :
    Decidable (Whole calls answers stays l) := by
  unfold Whole
  infer_instance

instance [DecidableEq ι] {l : List α} : Decidable (Distinct calls answers l) :=
  inferInstanceAs (Decidable (_ ∧ _))

theorem mem_marked {l : List (α × Bool)} {m : α} : m ∈ marked l ↔ (m, true) ∈ l := by
  simp [marked]

theorem marked_append {l r : List (α × Bool)} : marked (l ++ r) = marked l ++ marked r := by
  rw [marked, List.filter_append, List.map_append, marked, marked]

theorem marked_cons {m : α} {l : List (α × Bool)} : marked ((m, true) :: l) = m :: marked l := by
  simp [marked]

theorem marked_split {l : List (α × Bool)} {pre post : List α} {m : α}
    (h : marked l = pre ++ m :: post) : ∃ before after, l = before ++ (m, true) :: after ∧
      marked before = pre ∧ marked after = post := by
  obtain ⟨pre', rest, hsplit, hpre, hrest⟩ := List.map_eq_append_iff.1 h
  obtain ⟨⟨x, flag⟩, post', rfl, rfl, hpost⟩ := List.map_eq_cons_iff.1 hrest
  obtain ⟨before, after, rfl, hbefore, hafter⟩ := List.filter_eq_append_iff.1 hsplit
  obtain ⟨skip, after, rfl, hskip, hflag, hpost'⟩ := List.filter_eq_cons_iff.1 hafter
  obtain rfl : flag = true := hflag
  have hnone : skip.filter (·.2) = [] := List.filter_eq_nil_iff.2 hskip
  refine ⟨before ++ skip, after, by simp, ?_, ?_⟩
  · rw [marked, List.filter_append, hbefore, hnone, List.append_nil, hpre]
  · rw [marked, hpost', hpost]

theorem paired_marked {l : List (α × Bool)} :
    Paired calls answers (marked l) ↔ Linked calls answers l := by
  constructor
  · rintro h pre m post rfl
    have hm := h (marked pre) m (marked post) (by rw [marked_append, marked_cons])
    simpa only [mem_marked] using hm
  · intro h pre m post hsplit
    obtain ⟨before, after, hl, rfl, rfl⟩ := marked_split hsplit
    simpa only [mem_marked] using h before m after hl

/-! ## By position -/

theorem mem_idsAt {f : α → List ι} {l : List α} {n : ℕ} {i : ι} :
    i ∈ idsAt f l n ↔ ∃ m ∈ l[n]?, i ∈ f m := by
  rw [idsAt]
  cases l[n]? <;> simp

theorem lt_of_mem_idsAt {f : α → List ι} {l : List α} {n : ℕ} {i : ι} (h : i ∈ idsAt f l n) :
    n < l.length := by
  obtain ⟨m, hm, -⟩ := mem_idsAt.1 h
  exact (List.getElem?_eq_some_iff.1 hm).1

theorem paired_iff_idsAt {l : List α} : Paired calls answers l ↔ ∀ n,
    (∀ i ∈ idsAt answers l n, ∃ k < n, i ∈ idsAt calls l k) ∧
      ∀ i ∈ idsAt calls l n, ∃ k, n < k ∧ i ∈ idsAt answers l k := by
  constructor
  · intro h n
    constructor
    · intro i hi
      obtain ⟨m, hm, hanswer⟩ := mem_idsAt.1 hi
      obtain ⟨hn, rfl⟩ := List.getElem?_eq_some_iff.1 hm
      obtain ⟨c, hc, hcall⟩ := ((paired_iff_getElem.1 h) ⟨n, hn⟩).1 i hanswer
      obtain ⟨k, hk, rfl⟩ := List.mem_take_iff_getElem.1 hc
      have hkn : k < n := (lt_min_iff.1 hk).1
      exact ⟨k, hkn, mem_idsAt.2 ⟨_, List.getElem?_eq_getElem (by omega), hcall⟩⟩
    · intro i hi
      obtain ⟨m, hm, hcall⟩ := mem_idsAt.1 hi
      obtain ⟨hn, rfl⟩ := List.getElem?_eq_some_iff.1 hm
      obtain ⟨a, ha, hanswer⟩ := ((paired_iff_getElem.1 h) ⟨n, hn⟩).2 i hcall
      obtain ⟨k, hk, rfl⟩ := List.mem_drop_iff_getElem.1 ha
      have hlt : k + (n + 1) < l.length := hk
      exact ⟨n + 1 + k, by omega, mem_idsAt.2 ⟨_, List.getElem?_eq_getElem (by omega), hanswer⟩⟩
  · rintro h pre m post rfl
    have hm : (pre ++ m :: post)[pre.length]? = some m := by simp
    constructor
    · intro i hi
      obtain ⟨k, hk, hcall⟩ := (h pre.length).1 i (mem_idsAt.2 ⟨m, hm, hi⟩)
      obtain ⟨c, hc, hcall⟩ := mem_idsAt.1 hcall
      rw [List.getElem?_append_left hk] at hc
      exact ⟨c, List.mem_of_getElem? hc, hcall⟩
    · intro i hi
      obtain ⟨k, hk, hanswer⟩ := (h pre.length).2 i (mem_idsAt.2 ⟨m, hm, hi⟩)
      obtain ⟨a, ha, hmem⟩ := mem_idsAt.1 hanswer
      obtain ⟨d, rfl⟩ := Nat.exists_eq_add_of_lt hk
      rw [List.getElem?_append_right (by omega),
        show pre.length + d + 1 - pre.length = d + 1 by omega, List.getElem?_cons_succ] at ha
      exact ⟨a, List.mem_of_getElem? ha, hmem⟩

def masked (f : α → List ι) (x : α × Bool) : List ι := if x.2 then f x.1 else []

theorem linked_iff_masked {l : List (α × Bool)} :
    Linked calls answers l ↔ Paired (masked calls) (masked answers) l := by
  have hmem : ∀ {f : α → List ι} {xs : List (α × Bool)} {i : ι},
      (∃ x ∈ xs, i ∈ masked f x) ↔ ∃ m, (m, true) ∈ xs ∧ i ∈ f m := by
    intro f xs i
    constructor
    · rintro ⟨⟨m, flag⟩, hx, hi⟩
      cases flag with
      | false => simp [masked] at hi
      | true => exact ⟨m, hx, hi⟩
    · rintro ⟨m, hm, hi⟩
      exact ⟨(m, true), hm, hi⟩
  constructor
  · rintro h pre ⟨m, flag⟩ post rfl
    cases flag with
    | false => exact ⟨List.forall_mem_nil _, List.forall_mem_nil _⟩
    | true =>
      simp only [hmem]
      exact h pre m post rfl
  · rintro h pre m post rfl
    have hm := h pre (m, true) post rfl
    simp only [hmem] at hm
    exact hm

theorem linked_iff_idsAt {l : List α} {marks : List (α × Bool)} {stays : ℕ → Prop}
    [DecidablePred stays] (h : ∀ n, marks[n]? = l[n]?.map fun m => (m, decide (stays n))) :
    Linked calls answers marks ↔ ∀ n, stays n →
      (∀ i ∈ idsAt answers l n, ∃ k < n, stays k ∧ i ∈ idsAt calls l k) ∧
        ∀ i ∈ idsAt calls l n, ∃ k, n < k ∧ stays k ∧ i ∈ idsAt answers l k := by
  have hids : ∀ {f : α → List ι} {n : ℕ} {i : ι},
      i ∈ idsAt (masked f) marks n ↔ stays n ∧ i ∈ idsAt f l n := by
    intro f n i
    rw [idsAt, idsAt, h]
    by_cases hn : stays n <;> cases l[n]? <;> simp [masked, hn]
  rw [linked_iff_masked, paired_iff_idsAt]
  refine forall_congr' fun n => ?_
  simp only [hids]
  constructor
  · intro hn hs
    exact ⟨fun i hi => hn.1 i ⟨hs, hi⟩, fun i hi => hn.2 i ⟨hs, hi⟩⟩
  · intro hn
    exact ⟨fun i hi => (hn hi.1).1 i hi.2, fun i hi => (hn hi.1).2 i hi.2⟩

/-- What stays of paired entries is paired exactly where no exchange loses its only partner. -/
theorem linked_iff_joined {l : List α} {marks : List (α × Bool)} {stays : ℕ → Prop}
    [DecidablePred stays] (h : ∀ n, marks[n]? = l[n]?.map fun m => (m, decide (stays n)))
    (hpaired : Paired calls answers l) :
    Linked calls answers marks ↔ Joined calls answers stays l := by
  rw [paired_iff_idsAt] at hpaired
  rw [linked_iff_idsAt h]
  constructor
  · intro hlinked n hn k hk i hcall hanswer
    constructor
    · intro hs _
      exact (hlinked n hs).1 i hanswer
    · intro hs _
      obtain ⟨n', hn', hs', hi⟩ := (hlinked k hs).2 i hcall
      exact ⟨n', lt_of_mem_idsAt hi, hn', hs', hi⟩
  · intro hjoined n hs
    constructor
    · intro i hanswer
      obtain ⟨k, hk, hcall⟩ := (hpaired n).1 i hanswer
      by_cases hstays : stays k
      · exact ⟨k, hk, hstays, hcall⟩
      · exact (hjoined n (lt_of_mem_idsAt hanswer) k hk i hcall hanswer).1 hs hstays
    · intro i hcall
      obtain ⟨k, hk, hanswer⟩ := (hpaired n).2 i hcall
      by_cases hstays : stays k
      · exact ⟨k, hk, hstays, hanswer⟩
      · obtain ⟨n', -, hn', hs', hi⟩ :=
          (hjoined k (lt_of_mem_idsAt hanswer) n hk i hcall hanswer).2 hs hstays
        exact ⟨n', hn', hs', hi⟩

theorem eq_of_mem_idsAt {f : α → List ι} {l : List α} (h : (l.flatMap f).Nodup) {n k : ℕ} {i : ι}
    (hn : i ∈ idsAt f l n) (hk : i ∈ idsAt f l k) : n = k := by
  have hdisjoint := (List.nodup_flatMap.1 h).2
  have hlt : ∀ {a b : ℕ}, a < b → i ∈ idsAt f l a → i ∉ idsAt f l b := by
    intro a b hab ha hb
    obtain ⟨x, hx, hix⟩ := mem_idsAt.1 ha
    obtain ⟨y, hy, hiy⟩ := mem_idsAt.1 hb
    obtain ⟨hla, rfl⟩ := List.getElem?_eq_some_iff.1 hx
    obtain ⟨hlb, rfl⟩ := List.getElem?_eq_some_iff.1 hy
    exact List.pairwise_iff_getElem.1 hdisjoint a b hla hlb hab hix hiy
  rcases Nat.lt_trichotomy n k with hlt' | heq | hlt'
  · exact absurd hk (hlt hlt' hn)
  · exact heq
  · exact absurd hn (hlt hlt' hk)

theorem joined_iff_whole {l : List α} {stays : ℕ → Prop} (hdistinct : Distinct calls answers l) :
    Joined calls answers stays l ↔ Whole calls answers stays l := by
  refine forall₄_congr fun n _ k _ => forall₃_congr fun i hcall hanswer => ?_
  constructor
  · rintro ⟨hcalled, hanswered⟩
    constructor
    · intro hk
      by_contra hn
      obtain ⟨n', -, -, hs, hi⟩ := hanswered hk hn
      exact hn (eq_of_mem_idsAt hdistinct.2 hi hanswer ▸ hs)
    · intro hn
      by_contra hk
      obtain ⟨k', -, hs, hi⟩ := hcalled hn hk
      exact hk (eq_of_mem_idsAt hdistinct.1 hi hcall ▸ hs)
  · intro hsame
    exact ⟨fun hn hk => absurd (hsame.2 hn) hk, fun hk hn => absurd (hsame.1 hk) hn⟩

/-! ## Silent entries -/

theorem marked_map {l : List α} {p : α → Bool} :
    marked (l.map fun m => (m, p m)) = l.filter p := by
  rw [marked, List.filter_map, List.map_map]
  simp [Function.comp_def]

theorem paired_filter {l : List α} {p : α → Bool}
    (h : ∀ m ∈ l, p m = false → calls m = [] ∧ answers m = []) :
    Paired calls answers (l.filter p) ↔ Paired calls answers l := by
  have hloud : ∀ m ∈ l, ∀ {i}, i ∈ calls m ∨ i ∈ answers m → p m = true := by
    intro m hm i hi
    by_contra hp
    obtain ⟨hcalls, hanswers⟩ := h m hm (by simpa using hp)
    simp [hcalls, hanswers] at hi
  rw [← marked_map, paired_marked]
  constructor
  · rintro hlinked pre m post rfl
    have hm : ∀ {i}, i ∈ calls m ∨ i ∈ answers m →
        (pre ++ m :: post).map (fun m => (m, p m)) =
          pre.map (fun m => (m, p m)) ++ (m, true) :: post.map fun m => (m, p m) := by
      intro i hi
      rw [List.map_append, List.map_cons, hloud m (by simp) hi]
    constructor
    · intro i hi
      obtain ⟨c, hc, hcall⟩ := (hlinked _ m _ (hm (.inr hi))).1 i hi
      obtain ⟨c', hc', heq⟩ := List.mem_map.1 hc
      obtain rfl : c' = c := congrArg Prod.fst heq
      exact ⟨c', hc', hcall⟩
    · intro i hi
      obtain ⟨a, ha, hanswer⟩ := (hlinked _ m _ (hm (.inl hi))).2 i hi
      obtain ⟨a', ha', heq⟩ := List.mem_map.1 ha
      obtain rfl : a' = a := congrArg Prod.fst heq
      exact ⟨a', ha', hanswer⟩
  · intro hpaired pre m post hsplit
    obtain ⟨before, rest, rfl, rfl, hrest⟩ := List.map_eq_append_iff.1 hsplit
    obtain ⟨m', after, rfl, hm', rfl⟩ := List.map_eq_cons_iff.1 hrest
    obtain rfl : m' = m := congrArg Prod.fst hm'
    have hm := hpaired before m' after rfl
    constructor
    · intro i hi
      obtain ⟨c, hc, hcall⟩ := hm.1 i hi
      exact ⟨c, List.mem_map.2 ⟨c, hc, by rw [hloud c (by simp [hc]) (.inl hcall)]⟩, hcall⟩
    · intro i hi
      obtain ⟨a, ha, hanswer⟩ := hm.2 i hi
      exact ⟨a, List.mem_map.2 ⟨a, ha, by rw [hloud a (by simp [ha]) (.inr hanswer)]⟩, hanswer⟩

theorem paired_map {f : α → α} {l : List α} (hcalls : ∀ m, calls (f m) = calls m)
    (hanswers : ∀ m, answers (f m) = answers m) :
    Paired calls answers (l.map f) ↔ Paired calls answers l := by
  constructor
  · rintro h pre m post rfl
    have hm := h (pre.map f) (f m) (post.map f) (by simp)
    simpa [hcalls, hanswers] using hm
  · intro h pre m post hsplit
    obtain ⟨before, rest, rfl, rfl, hrest⟩ := List.map_eq_append_iff.1 hsplit
    obtain ⟨m', after, rfl, rfl, rfl⟩ := List.map_eq_cons_iff.1 hrest
    simpa [hcalls, hanswers] using h before m' after rfl

end Varsten.Machine.Exchanges
