import Varsten.Machine.Prefixes
import Varsten.Python.Decimals
import Varsten.Python.Utf8

/-!
# Prefix analysis

Where the captured system prompts of a route agree: a stable head, a stable tail
that does not overlap it in the shortest prompt, and the volatile spans between
them. The shares are exact; the source divides floats.
-/

namespace Varsten.Engine.PrefixAnalysis

open Machine.Prefixes
open Python.Decimals (quantize roundHalfEven)
open Python.Utf8 (Text)

def minSamples : ℕ := 5

def projectedShareFloor : ℚ := 1 / 2

structure PrefixProposal where
  sampleCount : ℕ
  medianPromptChars : ℕ
  stablePrefixChars : ℕ
  stableSuffixChars : ℕ
  stablePrefixShare : ℚ
  volatileSpanOffset : ℕ
  volatileSpanMinChars : ℤ
  volatileSpanMaxChars : ℤ
  projectedStableShare : ℚ

/-- `min(texts, key=len)`. -/
def shortest (texts : List Text) : Text := (texts.argmin List.length).getD []

/-- The loop along the shortest text, from its character `i` on. -/
def prefixLoop (texts : List Text) : ℕ → Text → ℕ
  | i, [] => i
  | i, ch :: rest =>
    if texts.any fun t => t[i]? ≠ some ch then i else prefixLoop texts (i + 1) rest

def commonPrefixLen (texts : List Text) : ℕ := prefixLoop texts 0 (shortest texts)

def minLength (texts : List Text) : ℕ := ((texts.map List.length).min?).getD 0

def align (texts : List Text) : ℕ × ℕ :=
  let head := commonPrefixLen texts
  let maxTail := minLength texts - head
  (head, min (commonPrefixLen (texts.map List.reverse)) maxTail)

def median (texts : List Text) : ℕ :=
  (((texts.map List.length).insertionSort (· ≤ ·))[texts.length / 2]?).getD 0

def volatileLength (texts : List Text) (t : Text) : ℤ :=
  (t.length : ℤ) - (align texts).1 - (align texts).2

def fourDigits (share : ℚ) : ℚ := quantize roundHalfEven (10 ^ 4) share

def nonEmpty (texts : List Text) : List Text := texts.filter (· ≠ [])

def analyzePrefixStructure (texts : List Text) : Option PrefixProposal :=
  let texts := nonEmpty texts
  if texts.length < minSamples then none
  else if texts.dedup.length = 1 then none
  else
    let head := (align texts).1
    let tail := (align texts).2
    let median := median texts
    if median ≤ 0 then none
    else
      let volatileLengths := texts.map (volatileLength texts)
      let projected := min (((head + tail : ℕ) : ℚ) / median) 1
      let prefixShare := (head : ℚ) / median
      if projectedShareFloor ≤ prefixShare ∨ projected < projectedShareFloor then none
      else some {
        sampleCount := texts.length
        medianPromptChars := median
        stablePrefixChars := head
        stableSuffixChars := tail
        stablePrefixShare := fourDigits prefixShare
        volatileSpanOffset := head
        volatileSpanMinChars := (volatileLengths.min?).getD 0
        volatileSpanMaxChars := (volatileLengths.max?).getD 0
        projectedStableShare := fourDigits projected }

/-! ## The alignment -/

variable {texts : List Text}

theorem shortest_mem (h : texts ≠ []) : shortest texts ∈ texts := by
  rw [shortest]
  cases harg : texts.argmin List.length with
  | none => exact absurd (List.argmin_eq_none.1 harg) h
  | some t => exact List.argmin_mem harg

theorem shortest_le {t : Text} (h : t ∈ texts) : (shortest texts).length ≤ t.length := by
  rw [shortest]
  cases harg : texts.argmin List.length with
  | none => exact absurd (List.argmin_eq_none.1 harg ▸ h) List.not_mem_nil
  | some s => exact List.le_of_mem_argmin h harg

/-- The loop ends at the longest common prefix, where what it has passed is common. -/
theorem prefixLoop_longest {done rest : Text} (hdone : IsCommonPrefix done texts)
    (hmem : done ++ rest ∈ texts) :
    LongestPrefix (prefixLoop texts done.length rest) texts := by
  induction rest generalizing done with
  | nil =>
    rw [List.append_nil] at hmem
    exact longest_of_mem hdone hmem
  | cons ch rest ih =>
    rw [prefixLoop]
    split_ifs with hany
    · obtain ⟨t, ht, hne⟩ := List.any_eq_true.1 hany
      exact longest_of_differs hdone hmem ht (of_decide_eq_true hne)
    · have hall : ∀ t ∈ texts, t[done.length]? = some ch := by simpa using hany
      have hnext := ih (isCommonPrefix_concat.2 ⟨hdone, hall⟩) (by simpa using hmem)
      rwa [List.length_append, List.length_singleton] at hnext

theorem commonPrefixLen_longest (h : texts ≠ []) :
    LongestPrefix (commonPrefixLen texts) texts :=
  prefixLoop_longest (isCommonPrefix_nil texts) (shortest_mem h)

theorem min?_getD {α : Type} [LinearOrder α] {xs : List α} (hne : xs ≠ []) (d : α) :
    xs.min?.getD d ∈ xs ∧ ∀ x ∈ xs, xs.min?.getD d ≤ x := by
  obtain ⟨m, hm⟩ := Option.isSome_iff_exists.1 (List.isSome_min?_of_ne_nil hne)
  rw [hm]
  exact List.min?_eq_some_iff.1 hm

theorem max?_getD {α : Type} [LinearOrder α] {xs : List α} (hne : xs ≠ []) (d : α) :
    xs.max?.getD d ∈ xs ∧ ∀ x ∈ xs, x ≤ xs.max?.getD d := by
  obtain ⟨m, hm⟩ := Option.isSome_iff_exists.1 (List.isSome_max?_of_ne_nil hne)
  rw [hm]
  exact List.max?_eq_some_iff.1 hm

theorem minLength_eq (h : texts ≠ []) : minLength texts = (shortest texts).length := by
  obtain ⟨hmem, hle⟩ := min?_getD (show texts.map List.length ≠ [] by simpa using h) 0
  obtain ⟨t, ht, hlen⟩ := List.mem_map.1 hmem
  refine le_antisymm (hle _ (List.mem_map_of_mem (shortest_mem h))) ?_
  rw [minLength, ← hlen]
  exact shortest_le ht

theorem head_le (h : texts ≠ []) : (align texts).1 ≤ minLength texts := by
  obtain ⟨p, hp, hcommon⟩ := (commonPrefixLen_longest h).attained
  rw [minLength_eq h, align, ← hp]
  exact (hcommon _ (shortest_mem h)).length_le

theorem head_add_tail_le (h : texts ≠ []) :
    (align texts).1 + (align texts).2 ≤ minLength texts := by
  have hhead := head_le h
  simp only [align] at hhead ⊢
  omega

theorem tail_longest (h : texts ≠ []) :
    LongestSuffix (minLength texts - (align texts).1) (align texts).2 texts :=
  (commonPrefixLen_longest (by simpa using h)).suffix _

theorem volatileLength_nonneg {t : Text} (ht : t ∈ texts) : 0 ≤ volatileLength texts t := by
  have hne : texts ≠ [] := List.ne_nil_of_mem ht
  have hle := head_add_tail_le hne
  have hshort := shortest_le ht
  rw [minLength_eq hne] at hle
  rw [volatileLength]
  omega

/-! ## What is reported -/

/-- A head and a tail of the texts: the longest head, and the longest tail beside it. -/
structure Aligned (texts : List Text) (head tail : ℕ) : Prop where
  longestHead : LongestPrefix head texts
  longestTail : LongestSuffix (minLength texts - head) tail texts
  fits : head + tail ≤ minLength texts

/-- A proposal reports an alignment and the exact bounds of the spans beside it. -/
structure Reports (texts : List Text) (head tail : ℕ) (proposal : PrefixProposal) : Prop where
  stablePrefix : proposal.stablePrefixChars = head
  stableSuffix : proposal.stableSuffixChars = tail
  offset : proposal.volatileSpanOffset = head
  spans : ∀ t ∈ texts, proposal.volatileSpanMinChars ≤ (t.length : ℤ) - head - tail ∧
    (t.length : ℤ) - head - tail ≤ proposal.volatileSpanMaxChars
  attained : (∃ t ∈ texts, (t.length : ℤ) - head - tail = proposal.volatileSpanMinChars) ∧
    ∃ t ∈ texts, (t.length : ℤ) - head - tail = proposal.volatileSpanMaxChars
  nonneg : 0 ≤ proposal.volatileSpanMinChars
  ordered : proposal.volatileSpanMinChars ≤ proposal.volatileSpanMaxChars

/-- The texts differ, and in the median prompt the head takes less than half while head and tail
together take half or more. -/
structure Proposed (texts : List Text) (head tail : ℕ) : Prop where
  differ : ¬ ∀ t ∈ texts, ∀ u ∈ texts, t = u
  unstablePrefix : 2 * head < median texts
  stable : median texts ≤ 2 * (head + tail)

theorem aligned (h : texts ≠ []) : Aligned texts (align texts).1 (align texts).2 :=
  ⟨commonPrefixLen_longest h, tail_longest h, head_add_tail_le h⟩

theorem dedup_length_eq_one (h : texts ≠ []) :
    texts.dedup.length = 1 ↔ ∀ t ∈ texts, ∀ u ∈ texts, t = u := by
  constructor
  · intro hone t ht u hu
    obtain ⟨a, ha⟩ := List.length_eq_one_iff.1 hone
    rw [← List.mem_dedup, ha, List.mem_singleton] at ht hu
    rw [ht, hu]
  · intro hall
    cases hd : texts.dedup with
    | nil =>
      obtain ⟨t, ht⟩ := List.exists_mem_of_ne_nil _ h
      rw [← List.mem_dedup, hd] at ht
      exact absurd ht List.not_mem_nil
    | cons a rest =>
      have hmem : ∀ t ∈ a :: rest, t ∈ texts := fun t ht => List.mem_dedup.1 (hd ▸ ht)
      have hnodup : (a :: rest).Nodup := hd ▸ List.nodup_dedup texts
      cases rest with
      | nil => rfl
      | cons b rest =>
        have hab : a = b := hall a (hmem a (by simp)) b (hmem b (by simp))
        exact absurd hab (by simp only [List.nodup_cons, List.mem_cons, not_or] at hnodup
                             exact hnodup.1.1)

theorem shares_iff {head tail m : ℕ} (hm : 0 < m) :
    (projectedShareFloor ≤ (head : ℚ) / m ∨
      min (((head + tail : ℕ) : ℚ) / m) 1 < projectedShareFloor) ↔
      ¬ (2 * head < m ∧ m ≤ 2 * (head + tail)) := by
  have hpos : (0 : ℚ) < m := Nat.cast_pos.2 hm
  have hhead : projectedShareFloor ≤ (head : ℚ) / m ↔ m ≤ 2 * head := by
    rw [projectedShareFloor, le_div_iff₀ hpos, ← Nat.cast_le (α := ℚ)]
    push_cast
    constructor <;> intro h <;> linarith
  have hboth : min (((head + tail : ℕ) : ℚ) / m) 1 < projectedShareFloor ↔
      2 * (head + tail) < m := by
    have hone : ¬ (1 : ℚ) < projectedShareFloor := by norm_num [projectedShareFloor]
    rw [min_lt_iff, or_iff_left hone, projectedShareFloor, div_lt_iff₀ hpos,
      ← Nat.cast_lt (α := ℚ)]
    push_cast
    constructor <;> intro h <;> linarith
  rw [hhead, hboth]
  omega

theorem analyze_reports {proposal : PrefixProposal}
    (h : analyzePrefixStructure texts = some proposal) :
    Reports (nonEmpty texts) (align (nonEmpty texts)).1 (align (nonEmpty texts)).2 proposal := by
  rw [analyzePrefixStructure] at h
  dsimp only at h
  split_ifs at h with hcount hsame hmedian hshare
  obtain rfl := Option.some.inj h
  have hne : nonEmpty texts ≠ [] := by
    intro hnil
    rw [hnil] at hcount
    exact hcount (by decide)
  have hlengths : (nonEmpty texts).map (volatileLength (nonEmpty texts)) ≠ [] := by simpa using hne
  obtain ⟨hmin, hle⟩ := min?_getD hlengths 0
  obtain ⟨hmax, hge⟩ := max?_getD hlengths 0
  refine ⟨rfl, rfl, rfl, fun t ht => ?_, ⟨?_, ?_⟩, ?_, hge _ hmin⟩
  · exact ⟨hle _ (List.mem_map_of_mem ht), hge _ (List.mem_map_of_mem ht)⟩
  · exact List.mem_map.1 hmin
  · exact List.mem_map.1 hmax
  · obtain ⟨t, ht, hlen⟩ := List.mem_map.1 hmin
    exact hlen ▸ volatileLength_nonneg ht

theorem analyze_isSome (hcount : minSamples ≤ (nonEmpty texts).length)
    (hne : nonEmpty texts ≠ []) : (analyzePrefixStructure texts).isSome = true ↔
      Proposed (nonEmpty texts) (align (nonEmpty texts)).1 (align (nonEmpty texts)).2 := by
  rw [analyzePrefixStructure]
  dsimp only
  rw [if_neg (not_lt.2 hcount)]
  split_ifs with hsame hmedian hshare
  · exact iff_of_false Bool.false_ne_true fun h => h.differ ((dedup_length_eq_one hne).1 hsame)
  · exact iff_of_false Bool.false_ne_true fun h => by
      have hprefix := h.unstablePrefix
      omega
  · have hnot := (shares_iff (by omega)).1 hshare
    exact iff_of_false Bool.false_ne_true fun h => hnot ⟨h.unstablePrefix, h.stable⟩
  · have hboth := not_not.1 (mt (shares_iff (by omega)).2 hshare)
    exact iff_of_true rfl ⟨fun h => hsame ((dedup_length_eq_one hne).2 h), hboth.1, hboth.2⟩

/-- The alignment of any samples that are enough is correct and maximal; a proposal is made exactly
where its shares reach the thresholds, and it reports the alignment and the spans. -/
theorem alignment_maximal (texts : List Text) (hcount : minSamples ≤ (nonEmpty texts).length) :
    ∃ head tail, Aligned (nonEmpty texts) head tail ∧
      ((analyzePrefixStructure texts).isSome = true ↔ Proposed (nonEmpty texts) head tail) ∧
      ∀ proposal, analyzePrefixStructure texts = some proposal →
        Reports (nonEmpty texts) head tail proposal := by
  have hne : nonEmpty texts ≠ [] := by
    intro hnil
    rw [hnil] at hcount
    exact absurd hcount (by decide)
  exact ⟨_, _, aligned hne, analyze_isSome hcount hne, fun _ => analyze_reports⟩

def numbered : List Text :=
  ["ab1cdef", "ab22cdef", "ab3cdef", "ab4cdef", "ab15cdef"].map String.toList

theorem numbered_aligned : ∃ head tail, Aligned (nonEmpty numbered) head tail ∧
    ((analyzePrefixStructure numbered).isSome = true ↔ Proposed (nonEmpty numbered) head tail) ∧
    ∀ proposal, analyzePrefixStructure numbered = some proposal →
      Reports (nonEmpty numbered) head tail proposal :=
  alignment_maximal numbered (by decide +kernel)

example : align numbered = (2, 4) := by decide +kernel

end Varsten.Engine.PrefixAnalysis
