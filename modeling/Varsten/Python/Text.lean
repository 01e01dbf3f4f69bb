import Mathlib
import Varsten.Python.Utf8

/-!
# String methods

`str.replace("\r\n", "\n")`, `str.split("\n\n")`, `str.splitlines`, `str.strip`
and `str.startswith` on lists of code points, with the facts about them that
incremental readers rest on: a text can be split piece by piece when the last
piece is carried over.
-/

namespace Varsten.Python.Text

open Utf8 (Text)

def cr : Char := '\r'
def lf : Char := '\n'

/-- `s.replace("\r\n", "\n")`. -/
def replaceCrlf : Text → Text
  | [] => []
  | '\r' :: '\n' :: rest => '\n' :: replaceCrlf rest
  | c :: rest => c :: replaceCrlf rest

/-- `s.split("\n\n")`: the leftmost separator first, never empty. -/
def splitBlank : Text → List Text
  | [] => [[]]
  | '\n' :: '\n' :: rest => [] :: splitBlank rest
  | c :: rest => (splitBlank rest).modifyHead (List.cons c)

def isLineBreak (c : Char) : Bool :=
  c ∈ ['\n', '\r', '\x0b', '\x0c', '\x1c', '\x1d', '\x1e', '\u0085', '\u2028', '\u2029']

def consHead (c : Char) : List Text → List Text
  | [] => [[c]]
  | l :: ls => (c :: l) :: ls

def splitlines : Text → List Text
  | [] => []
  | '\r' :: '\n' :: rest => [] :: splitlines rest
  | c :: rest => if isLineBreak c then [] :: splitlines rest else consHead c (splitlines rest)

def isSpace (c : Char) : Bool :=
  c ∈ ['\t', '\n', '\x0b', '\x0c', '\r', '\x1c', '\x1d', '\x1e', '\x1f', ' ', '\u0085', '\u00a0',
    '\u1680', '\u2000', '\u2001', '\u2002', '\u2003', '\u2004', '\u2005', '\u2006', '\u2007',
    '\u2008', '\u2009', '\u200a', '\u2028', '\u2029', '\u202f', '\u205f', '\u3000']

def rstrip (s : Text) : Text := (s.reverse.dropWhile isSpace).reverse

def strip (s : Text) : Text := rstrip (s.dropWhile isSpace)

def startsWith (s p : Text) : Bool := p.isPrefixOf s

def join (sep : Text) (ss : List Text) : Text := sep.intercalate ss

/-! ## `replace` -/

theorem replaceCrlf_cons {c : Char} {rest : Text} (h : ¬ (c = '\r' ∧ rest.head? = some '\n')) :
    replaceCrlf (c :: rest) = c :: replaceCrlf rest := by
  rw [replaceCrlf.eq_3]
  rintro rest' rfl rfl
  exact h ⟨rfl, rfl⟩

theorem replaceCrlf_append {x y : Text} (h : ¬ (x.getLast? = some '\r' ∧ y.head? = some '\n')) :
    replaceCrlf (x ++ y) = replaceCrlf x ++ replaceCrlf y := by
  induction x using replaceCrlf.induct with
  | case1 => rfl
  | case2 rest ih =>
    simp only [List.cons_append, replaceCrlf, List.cons.injEq, true_and]
    refine ih fun h' => h ⟨?_, h'.2⟩
    cases rest with
    | nil => simp at h'
    | cons d rest => simpa using h'.1
  | case3 c rest hc ih =>
    have hne : ¬ (c = '\r' ∧ rest.head? = some '\n') := by
      rintro ⟨rfl, hr⟩
      cases rest with
      | nil => simp at hr
      | cons d rest => exact hc rest rfl (by simpa using hr)
    cases rest with
    | nil =>
      rw [List.singleton_append, replaceCrlf_cons (by simpa using h), replaceCrlf_cons hne]
      rfl
    | cons d rest =>
      rw [List.cons_append, replaceCrlf_cons (by simpa using hne), replaceCrlf_cons hne,
        ih (by simpa using h)]
      rfl

theorem replaceCrlf_of_no_newline {x : Text} (h : '\n' ∉ x) : replaceCrlf x = x := by
  induction x using replaceCrlf.induct with
  | case1 => rfl
  | case2 rest ih => simp at h
  | case3 c rest hc ih => rw [replaceCrlf.eq_3 _ _ hc, ih (fun h' => h (List.mem_cons_of_mem _ h'))]

/-! ## `split` -/

theorem splitBlank_ne_nil (x : Text) : splitBlank x ≠ [] := by
  induction x using splitBlank.induct with
  | case1 => simp [splitBlank]
  | case2 rest ih => simp [splitBlank]
  | case3 c rest hc ih => simpa [splitBlank.eq_3 _ _ hc] using ih

theorem splitBlank_sep (rest : Text) :
    splitBlank ('\n' :: '\n' :: rest) = [] :: splitBlank rest := rfl

theorem splitBlank_cons {c : Char} {rest : Text} (h : ¬ (c = '\n' ∧ rest.head? = some '\n')) :
    splitBlank (c :: rest) = (splitBlank rest).modifyHead (List.cons c) := by
  rw [splitBlank.eq_3]
  rintro rest' rfl rfl
  exact h ⟨rfl, rfl⟩

theorem splitBlank_append_of_no_newline {t : Text} (y : Text) (h : '\n' ∉ t) :
    splitBlank (t ++ y) = (splitBlank y).modifyHead (t ++ ·) := by
  induction t with
  | nil =>
    change splitBlank y = (splitBlank y).modifyHead id
    simp
  | cons c t ih =>
    rw [List.cons_append, splitBlank_cons (fun hc => h (by simp [hc.1])),
      ih (fun h' => h (List.mem_cons_of_mem _ h')), List.modifyHead_modifyHead]
    rfl

theorem splitBlank_singleton {x s : Text} (h : splitBlank x = [s]) : s = x := by
  induction x using splitBlank.induct generalizing s with
  | case1 => simpa [splitBlank] using h.symm
  | case2 rest ih => exact absurd (List.cons.inj h).2 (splitBlank_ne_nil rest)
  | case3 c rest hc ih =>
    rw [splitBlank.eq_3 _ _ hc] at h
    rcases hs : splitBlank rest with _ | ⟨b, bs⟩
    · exact absurd hs (splitBlank_ne_nil rest)
    · rw [hs, List.modifyHead_cons, List.cons.injEq] at h
      obtain ⟨rfl, rfl⟩ := h
      rw [ih hs]

theorem splitBlank_append (x y : Text) :
    splitBlank (x ++ y) =
      (splitBlank x).dropLast ++ splitBlank ((splitBlank x).getLastD [] ++ y) := by
  induction x using splitBlank.induct with
  | case1 => simp [splitBlank]
  | case2 rest ih =>
    rcases hs : splitBlank rest with _ | ⟨b, bs⟩
    · exact absurd hs (splitBlank_ne_nil rest)
    · rw [hs] at ih
      simp only [List.cons_append, splitBlank_sep, hs, ih, List.dropLast_cons_cons,
        List.getLastD_cons]
  | case3 c rest hc ih =>
    have hne : ¬ (c = '\n' ∧ rest.head? = some '\n') := by
      rintro ⟨rfl, hr⟩
      cases rest with
      | nil => simp at hr
      | cons d rest => exact hc rest rfl (by simpa using hr)
    cases rest with
    | nil => simp [splitBlank]
    | cons d rest =>
      have hne' : ¬ (c = '\n' ∧ (d :: rest ++ y).head? = some '\n') := by simpa using hne
      rcases hs : splitBlank (d :: rest) with _ | ⟨b, bs⟩
      · exact absurd hs (splitBlank_ne_nil _)
      · rw [hs] at ih
        rw [List.cons_append, splitBlank_cons hne', ih, splitBlank_cons hne, hs]
        cases bs with
        | nil =>
          obtain rfl := splitBlank_singleton hs
          simp only [List.dropLast_singleton, List.nil_append, List.getLastD_cons,
            List.getLastD_nil, List.modifyHead_cons]
          exact (splitBlank_cons hne').symm
        | cons b' bs => simp

theorem splitBlank_getLast (x : Text) :
    splitBlank ((splitBlank x).getLastD []) = [(splitBlank x).getLastD []] := by
  have h := splitBlank_append x []
  have hx : splitBlank x = (splitBlank x).dropLast ++ [(splitBlank x).getLastD []] := by
    rw [List.getLastD_eq_getLast?, List.getLast?_eq_getLast_of_ne_nil (splitBlank_ne_nil x)]
    exact (List.dropLast_append_getLast _).symm
  simp only [List.append_nil] at h
  exact (List.append_cancel_left (h.symm.trans hx))

/-! ## `splitlines` -/

theorem splitlines_cons {c : Char} (rest : Text) (h : isLineBreak c = false) :
    splitlines (c :: rest) = consHead c (splitlines rest) := by
  rw [splitlines.eq_3, if_neg (by simp [h])]
  rintro rest' rfl
  simp [isLineBreak] at h

theorem splitlines_newline (rest : Text) : splitlines ('\n' :: rest) = [] :: splitlines rest := by
  rw [splitlines.eq_3 _ _ (by simp)]
  simp [isLineBreak]

theorem splitlines_crlf (rest : Text) :
    splitlines ('\r' :: '\n' :: rest) = [] :: splitlines rest := rfl

theorem splitlines_break {c : Char} {rest : Text} (hb : isLineBreak c = true)
    (h : ¬ (c = '\r' ∧ rest.head? = some '\n')) :
    splitlines (c :: rest) = [] :: splitlines rest := by
  rw [splitlines.eq_3, if_pos hb]
  rintro rest' rfl rfl
  exact h ⟨rfl, rfl⟩

theorem splitlines_ne_nil {t : Text} (h : t ≠ []) : splitlines t ≠ [] := by
  induction t using splitlines.induct with
  | case1 => exact absurd rfl h
  | case2 rest ih => simp [splitlines_crlf]
  | case3 c rest hc hb ih => simp [splitlines.eq_3 _ _ hc, hb]
  | case4 c rest hc hb ih =>
    rw [splitlines.eq_3 _ _ hc, if_neg hb]
    cases splitlines rest <;> simp [consHead]

theorem splitlines_of_no_break {t : Text} (ht : t ≠ []) (h : ∀ c ∈ t, isLineBreak c = false) :
    splitlines t = [t] := by
  induction t with
  | nil => exact absurd rfl ht
  | cons c t ih =>
    rw [splitlines_cons _ (h c (by simp))]
    cases t with
    | nil => rfl
    | cons d t =>
      rw [ih (by simp) (fun x hx => h x (List.mem_cons_of_mem _ hx))]
      rfl

theorem splitlines_prefix {t : Text} (ht : t ≠ []) (h : ∀ c ∈ t, isLineBreak c = false)
    (y : Text) : ∃ l ls, splitlines (t ++ y) = (t ++ l) :: ls := by
  induction t with
  | nil => exact absurd rfl ht
  | cons c t ih =>
    rw [List.cons_append, splitlines_cons _ (h c (by simp))]
    cases t with
    | nil =>
      rcases hs : splitlines ([] ++ y) with _ | ⟨l, ls⟩
      · exact ⟨[], [], rfl⟩
      · exact ⟨l, ls, rfl⟩
    | cons d t =>
      obtain ⟨l, ls, hl⟩ := ih (by simp) (fun x hx => h x (List.mem_cons_of_mem _ hx))
      exact ⟨l, ls, by rw [hl]; rfl⟩

theorem splitlines_append {t y : Text} (ht : ∀ c ∈ t.getLast?, isLineBreak c = false) (h0 : t ≠ [])
    {ls : List Text} (hy : splitlines y = [] :: ls ∨ splitlines y = [] ∧ ls = []) :
    splitlines (t ++ y) = splitlines t ++ ls := by
  induction t using splitlines.induct with
  | case1 => exact absurd rfl h0
  | case2 rest ih =>
    cases rest with
    | nil => simp [isLineBreak] at ht
    | cons d rest =>
      rw [List.cons_append, List.cons_append, splitlines_crlf, splitlines_crlf,
        ih (by simpa using ht) (by simp), List.cons_append]
  | case3 c rest hc hb ih =>
    cases rest with
    | nil => simp [hb] at ht
    | cons d rest =>
      have hne : ¬ (c = '\r' ∧ (d :: rest).head? = some '\n') := by
        rintro ⟨rfl, hr⟩
        exact hc rest rfl (by simpa using hr)
      rw [List.cons_append, splitlines_break hb (by simpa using hne), splitlines_break hb hne,
        ih (by simpa using ht) (by simp), List.cons_append]
  | case4 c rest hc hb ih =>
    have hb : isLineBreak c = false := by simpa using hb
    rw [List.cons_append, splitlines_cons _ hb, splitlines_cons _ hb]
    cases rest with
    | nil =>
      rcases hy with hy | ⟨hy, rfl⟩ <;> simp [hy, consHead, splitlines]
    | cons d rest =>
      rw [ih (by simpa using ht) (by simp)]
      rcases hs : splitlines (d :: rest) with _ | ⟨l, ls'⟩
      · exact absurd hs (splitlines_ne_nil (by simp))
      · rfl

theorem count_splitlines {c : Char} (hc : isLineBreak c = false) (t : Text) :
    ((splitlines t).map (List.count c)).sum = t.count c := by
  induction t using splitlines.induct with
  | case1 => rfl
  | case2 rest ih =>
    have h1 : '\r' ≠ c := by rintro rfl; simp [isLineBreak] at hc
    have h2 : '\n' ≠ c := by rintro rfl; simp [isLineBreak] at hc
    simp [splitlines_crlf, ih, List.count_cons_of_ne h1, List.count_cons_of_ne h2]
  | case3 d rest hd hb ih =>
    have hne : d ≠ c := by
      rintro rfl
      simp [hb] at hc
    rw [splitlines.eq_3 _ _ hd, if_pos hb, List.count_cons_of_ne hne, ← ih]
    simp
  | case4 d rest hd hb ih =>
    rw [splitlines.eq_3 _ _ hd, if_neg hb, List.count_cons, ← ih]
    rcases splitlines rest with _ | ⟨l, ls⟩
    · simp [consHead, List.count_cons]
    · simp only [consHead, List.map_cons, List.sum_cons, List.count_cons]
      omega

/-! ## `strip` -/

theorem count_dropWhile {p : Char → Bool} {c : Char} (h : p c = false) (s : Text) :
    (s.dropWhile p).count c = s.count c := by
  induction s with
  | nil => rfl
  | cons d s ih =>
    by_cases hd : p d = true
    · have hne : d ≠ c := by
        rintro rfl
        simp [hd] at h
      rw [List.dropWhile_cons_of_pos hd, ih, List.count_cons_of_ne hne]
    · rw [List.dropWhile_cons_of_neg hd]

theorem count_rstrip {c : Char} (h : isSpace c = false) (s : Text) :
    (rstrip s).count c = s.count c := by
  rw [rstrip, List.count_reverse, count_dropWhile h, List.count_reverse]

theorem count_strip {c : Char} (h : isSpace c = false) (s : Text) :
    (strip s).count c = s.count c := by
  rw [strip, count_rstrip h, count_dropWhile h]

theorem count_dropWhile_le (p : Char → Bool) (c : Char) (s : Text) :
    (s.dropWhile p).count c ≤ s.count c :=
  (List.dropWhile_suffix p).sublist.count_le c

theorem count_strip_le (c : Char) (s : Text) : (strip s).count c ≤ s.count c := by
  have h1 := count_dropWhile_le isSpace c (s.dropWhile isSpace).reverse
  have h2 := count_dropWhile_le isSpace c s
  simp only [strip, rstrip, List.count_reverse] at h1 ⊢
  omega

theorem rstrip_append {x : Text} {c : Char} (hx : x.getLast? = some c) (hc : isSpace c = false)
    (t : Text) : rstrip (x ++ t) = x ++ rstrip t := by
  obtain ⟨y, rfl⟩ := List.getLast?_eq_some_iff.1 hx
  rw [rstrip, List.reverse_append, List.dropWhile_append]
  split_ifs with h
  · simp [rstrip, List.isEmpty_iff.1 h, hc]
  · simp [rstrip]

theorem strip_append {x : Text} {c d : Char} (hd : x.head? = some d) (hd' : isSpace d = false)
    (hx : x.getLast? = some c) (hc : isSpace c = false) (t : Text) :
    strip (x ++ t) = x ++ rstrip t := by
  obtain ⟨y, rfl⟩ := List.head?_eq_some_iff.1 hd
  rw [strip, List.cons_append, List.dropWhile_cons_of_neg (by simp [hd']), ← List.cons_append,
    rstrip_append hx hc]

theorem count_join_newline {c : Char} (h : c ≠ '\n') (ss : List Text) :
    (join ['\n'] ss).count c = (ss.map (List.count c)).sum := by
  induction ss with
  | nil => rfl
  | cons s ss ih =>
    cases ss with
    | nil => simp [join, List.intercalate]
    | cons s' ss =>
      have hj : join ['\n'] (s :: s' :: ss) = s ++ '\n' :: join ['\n'] (s' :: ss) := by
        simp [join, List.intercalate]
      rw [hj, List.count_append, List.count_cons_of_ne (Ne.symm h), ih]
      rfl

end Varsten.Python.Text
