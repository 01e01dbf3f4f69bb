import Varsten.Proxy.Trim

/-!
# Collapsed whitespace

A text without long runs is left as it is, and a rewrite of long runs leaves none, of its own
characters or of others.
-/

namespace Varsten.Proxy.Trim

open Python.Utf8 (Text)

/-- No run of the class reaches `n`, the first one with `k` more before it. -/
def ShortRuns (p : Char → Bool) (n : ℕ) : ℕ → Text → Prop
  | k, [] => k < n
  | k, c :: cs => if p c then ShortRuns p n (k + 1) cs else k < n ∧ ShortRuns p n 0 cs

section Runs

variable {p q : Char → Bool} {n m k : ℕ} {rep run pending text rest : Text}

theorem shortRuns_run (h : ∀ c ∈ run, p c = true) :
    ShortRuns p n k (run ++ rest) ↔ ShortRuns p n (k + run.length) rest := by
  induction run generalizing k with
  | nil => rfl
  | cons c run ih =>
    rw [List.forall_mem_cons] at h
    rw [List.cons_append, ShortRuns, if_pos h.1, ih h.2, List.length_cons, Nat.add_right_comm,
      Nat.add_assoc]

theorem shortRuns_lt (h : ShortRuns p n k text) : k < n := by
  induction text generalizing k with
  | nil => exact h
  | cons c text ih =>
    rw [ShortRuns] at h
    split_ifs at h
    · exact (Nat.lt_succ_self k).trans (ih h)
    · exact h.1

theorem shortRuns_other (h : ∀ c ∈ run, q c = false) (hne : run ≠ []) :
    ShortRuns q m k (run ++ rest) ↔ k < m ∧ ShortRuns q m 0 rest := by
  induction run generalizing k with
  | nil => exact absurd rfl hne
  | cons c run ih =>
    rw [List.forall_mem_cons] at h
    rw [List.cons_append, ShortRuns, if_neg (by simp [h.1])]
    refine and_congr_right fun _ => ?_
    by_cases hrun : run = []
    · rw [hrun, List.nil_append]
    · rw [ih h.2 hrun]
      exact ⟨And.right, fun hrest => ⟨shortRuns_lt hrest, hrest⟩⟩

def settled (n : ℕ) (rep run : Text) : Text := if n ≤ run.length then rep else run

theorem subRuns_nil : subRuns p n rep pending [] = settled n rep pending := rfl

theorem subRuns_run {c : Char} (h : p c = true) :
    subRuns p n rep pending (c :: text) = subRuns p n rep (pending ++ [c]) text := if_pos h

theorem subRuns_other {c : Char} (h : p c = false) :
    subRuns p n rep pending (c :: text) = settled n rep pending ++ c :: subRuns p n rep [] text :=
  if_neg (by simp [h])

theorem settled_mem (hrep : ∀ c ∈ rep, p c = true) (h : ∀ c ∈ run, p c = true) :
    ∀ c ∈ settled n rep run, p c = true := by
  rw [settled]
  split_ifs
  · exact hrep
  · exact h

theorem settled_lt (hlen : rep.length < n) : (settled n rep run).length < n := by
  rw [settled]
  split_ifs with hlong
  · exact hlen
  · exact not_le.1 hlong

theorem settled_le (hlen : rep.length ≤ n) : (settled n rep run).length ≤ run.length := by
  rw [settled]
  split_ifs with hlong
  · exact hlen.trans hlong
  · exact le_rfl

theorem settled_ne (hne : rep ≠ []) (h : run ≠ []) : settled n rep run ≠ [] := by
  rw [settled]
  split_ifs
  · exact hne
  · exact h

theorem subRuns_of_short (h : ShortRuns p n pending.length text) :
    subRuns p n rep pending text = pending ++ text := by
  induction text generalizing pending with
  | nil => rw [subRuns_nil, settled, if_neg (not_le.2 h), List.append_nil]
  | cons c text ih =>
    rw [ShortRuns] at h
    cases hc : p c with
    | true =>
      rw [if_pos hc] at h
      rw [subRuns_run hc, ih (by simpa using h), List.append_assoc, List.singleton_append]
    | false =>
      rw [if_neg (by simp [hc])] at h
      have hrest : subRuns p n rep [] text = [] ++ text := ih h.2
      rw [subRuns_other hc, settled, if_neg (not_le.2 h.1), hrest, List.nil_append]

theorem shortRuns_subRuns (hrep : ∀ c ∈ rep, p c = true) (hlen : rep.length < n)
    (h : ∀ c ∈ pending, p c = true) : ShortRuns p n 0 (subRuns p n rep pending text) := by
  induction text generalizing pending with
  | nil =>
    rw [subRuns_nil, ← List.append_nil (settled n rep pending),
      shortRuns_run (settled_mem hrep h), Nat.zero_add]
    exact settled_lt hlen
  | cons c text ih =>
    cases hc : p c with
    | true =>
      rw [subRuns_run hc]
      refine ih fun d hd => ?_
      rcases List.mem_append.1 hd with hd | hd
      · exact h d hd
      · rw [List.mem_singleton.1 hd, hc]
    | false =>
      rw [subRuns_other hc, shortRuns_run (settled_mem hrep h), Nat.zero_add, ShortRuns,
        if_neg (by simp [hc])]
      exact ⟨settled_lt hlen, ih (List.forall_mem_nil _)⟩

theorem shortRuns_settled {rest' : Text} (hother : ∀ c, p c = true → q c = false)
    (hrep : ∀ c ∈ rep, p c = true) (hne : rep ≠ []) (hpos : 0 < n) (h : ∀ c ∈ run, p c = true)
    (hrest : ∀ k, ShortRuns q m k rest → ShortRuns q m k rest')
    (hshort : ShortRuns q m k (run ++ rest)) :
    ShortRuns q m k (settled n rep run ++ rest') := by
  by_cases hnil : run = []
  · subst hnil
    have hempty : settled n rep [] = [] := if_neg (not_le.2 hpos)
    rw [hempty]
    exact hrest k hshort
  · rw [shortRuns_other (fun c hc => hother c (h c hc)) hnil] at hshort
    rw [shortRuns_other (fun c hc => hother c (settled_mem hrep h c hc)) (settled_ne hne hnil)]
    exact ⟨hshort.1, hrest 0 hshort.2⟩

theorem shortRuns_subRuns_other (hother : ∀ c, p c = true → q c = false)
    (hrep : ∀ c ∈ rep, p c = true) (hne : rep ≠ []) (hpos : 0 < n) (h : ∀ c ∈ pending, p c = true)
    (hshort : ShortRuns q m k (pending ++ text)) :
    ShortRuns q m k (subRuns p n rep pending text) := by
  induction text generalizing pending k with
  | nil =>
    rw [subRuns_nil, ← List.append_nil (settled n rep pending)]
    exact shortRuns_settled hother hrep hne hpos h (fun _ hrest => hrest) hshort
  | cons c text ih =>
    cases hc : p c with
    | true =>
      rw [subRuns_run hc]
      refine ih (fun d hd => ?_) (by simpa using hshort)
      rcases List.mem_append.1 hd with hd | hd
      · exact h d hd
      · rw [List.mem_singleton.1 hd, hc]
    | false =>
      rw [subRuns_other hc]
      refine shortRuns_settled hother hrep hne hpos h (fun k hrest => ?_) hshort
      rw [ShortRuns] at hrest ⊢
      split_ifs at hrest ⊢
      · exact ih (List.forall_mem_nil _) hrest
      · exact ⟨hrest.1, ih (List.forall_mem_nil _) hrest.2⟩

theorem length_subRuns (hlen : rep.length ≤ n) :
    (subRuns p n rep pending text).length ≤ pending.length + text.length := by
  induction text generalizing pending with
  | nil =>
    rw [subRuns_nil]
    exact settled_le hlen
  | cons c text ih =>
    cases hc : p c with
    | true =>
      rw [subRuns_run hc]
      refine ih.trans_eq ?_
      simp only [List.length_append, List.length_cons, List.length_nil]
      omega
    | false =>
      have hrest : (subRuns p n rep [] text).length ≤ 0 + text.length := ih
      have hhead : (settled n rep pending).length ≤ pending.length := settled_le hlen
      rw [subRuns_other hc, List.length_append, List.length_cons, List.length_cons]
      omega

end Runs

/-! ## The text of a message -/

def isInline (c : Char) : Bool := c = ' ' ∨ c = '\t'

def isNewline (c : Char) : Bool := c = '\n'

theorem inline_of_newline (c : Char) (h : isNewline c = true) : isInline c = false := by
  obtain rfl := of_decide_eq_true h
  rfl

/-- `_WHITESPACE.sub` and `_BLANKLINES.sub`. -/
def collapseRuns (text : Text) : Text :=
  subRuns isNewline 3 ['\n', '\n'] [] (subRuns isInline 2 [' '] [] text)

theorem collapseText_eq (text : String) :
    collapseText text = String.ofList (collapseRuns text.toList) := rfl

theorem isInline_rep : ∀ c ∈ [' '], isInline c = true := by simp [isInline]

theorem isNewline_rep : ∀ c ∈ ['\n', '\n'], isNewline c = true := by simp [isNewline]

theorem collapseRuns_inline (text : Text) : ShortRuns isInline 2 0 (collapseRuns text) :=
  shortRuns_subRuns_other inline_of_newline isNewline_rep (by simp) (by decide)
    (List.forall_mem_nil _)
    (shortRuns_subRuns isInline_rep (by decide) (List.forall_mem_nil _))

theorem collapseRuns_newline (text : Text) : ShortRuns isNewline 3 0 (collapseRuns text) :=
  shortRuns_subRuns isNewline_rep (by decide) (List.forall_mem_nil _)

theorem collapseText_idempotent (text : String) :
    collapseText (collapseText text) = collapseText text := by
  have hinline : subRuns isInline 2 [' '] [] (collapseRuns text.toList) =
      [] ++ collapseRuns text.toList := subRuns_of_short (collapseRuns_inline _)
  have hnewline : subRuns isNewline 3 ['\n', '\n'] [] (collapseRuns text.toList) =
      [] ++ collapseRuns text.toList := subRuns_of_short (collapseRuns_newline _)
  rw [List.nil_append] at hinline hnewline
  have htwice : collapseRuns (collapseRuns text.toList) = collapseRuns text.toList := by
    rw [collapseRuns, hinline, hnewline]
  rw [collapseText_eq, collapseText_eq, String.toList_ofList, htwice]

theorem length_collapseText (text : String) : (collapseText text).length ≤ text.length := by
  have hinline : (subRuns isInline 2 [' '] [] text.toList).length ≤ 0 + text.toList.length :=
    length_subRuns (by decide)
  have hnewline : (collapseRuns text.toList).length ≤
      0 + (subRuns isInline 2 [' '] [] text.toList).length := length_subRuns (by decide)
  rw [collapseText_eq, String.length_ofList, ← String.length_toList]
  omega

end Varsten.Proxy.Trim
