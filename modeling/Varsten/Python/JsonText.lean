import Varsten.Python.Text
import Varsten.Python.Value

/-!
# JSON texts

`json.dumps` without spaces and without ASCII escapes, and how the quotes of a JSON
text are scanned. A piece of a text that starts inside a string reads its quotes the
wrong way round, so what parses there has no string of the text in it.
-/

namespace Varsten.Python.JsonText

open Utf8 (Text)

inductive Mode where
  | outside
  | inside
  | escaped
deriving DecidableEq

def symbols : Text :=
  ['{', '}', '[', ']', ':', ',', '+', '-', '.', 'e', 'E', 't', 'r', 'u', 'f', 'a', 'l', 's', 'n']

/-- Punctuation, numbers, and the letters of `true`, `false` and `null`. -/
def isPunctuation (c : Char) : Bool := c.isDigit || symbols.contains c

/-- Characters that stand outside of strings, with blanks, `NaN` and `Infinity`. -/
def isStructural (c : Char) : Bool :=
  isPunctuation c || ['N', 'I', 'i', 'y', ' ', '\t', '\n', '\r'].contains c

def isEscape (c : Char) : Bool := c ∈ ['"', '\\', '/', 'b', 'f', 'n', 'r', 't', 'u']

def step : Mode → Char → Option Mode
  | .outside, c => if c = '"' then some .inside else if isStructural c then some .outside else none
  | .inside, c =>
    if c = '"' then some .outside
    else if c = '\\' then some .escaped
    else if c.toNat < 0x20 then none else some .inside
  | .escaped, c => if isEscape c then some .inside else none

def scan (m : Mode) (t : Text) : Option Mode := t.foldlM step m

def quoted : Mode → Text → Text
  | _, [] => []
  | m, c :: t => match step m c with
    | some m' => if m = .inside ∧ m' = .inside then c :: quoted m' t else quoted m' t
    | none => []

mutual

def chars : Json → Text
  | .str s => s.toList
  | .arr xs => charsList xs
  | .obj fields => charsFields fields
  | _ => []

def charsList : List Json → Text
  | [] => []
  | x :: xs => chars x ++ charsList xs

def charsFields : List (String × Json) → Text
  | [] => []
  | (k, x) :: fields => k.toList ++ chars x ++ charsFields fields

end

theorem mem_charsFields {fields : List (String × Json)} {c : Char} :
    c ∈ charsFields fields ↔ ∃ p ∈ fields, c ∈ p.1.toList ∨ c ∈ chars p.2 := by
  induction fields with
  | nil => simp [charsFields]
  | cons p fields ih =>
    obtain ⟨k, x⟩ := p
    simp only [charsFields, List.mem_append, ih, List.mem_cons, exists_eq_or_imp]

/-- What `json.loads` accepts: its quotes are balanced, and the characters of its strings are
quoted in the text, unless there are escapes. -/
structure IsReader (loads : Text → Option Json) : Prop where
  scans : ∀ {t j}, loads t = some j → scan .outside t = some .outside
  chars : ∀ {t j}, loads t = some j → ∀ c ∈ chars j, c ∈ quoted .outside t ∨ '\\' ∈ t

/-! ## Writing -/

def hexDigit (n : ℕ) : Char := Nat.digitChar (n % 16)

def escapeChar (c : Char) : Text :=
  if c = '"' then ['\\', '"']
  else if c = '\\' then ['\\', '\\']
  else if c = '\n' then ['\\', 'n']
  else if c = '\r' then ['\\', 'r']
  else if c = '\t' then ['\\', 't']
  else if c = '\x08' then ['\\', 'b']
  else if c = '\x0c' then ['\\', 'f']
  else if c.toNat < 0x20 then ['\\', 'u', '0', '0', hexDigit (c.toNat / 16), hexDigit c.toNat]
  else [c]

def quote (s : String) : Text := '"' :: (s.toList.flatMap escapeChar ++ ['"'])

/-- How floats are written: digits, signs, points and exponents. -/
structure Numerals where
  text : ℚ → Text
  text_ok : ∀ x, (text x).all isPunctuation = true

mutual

/-- `json.dumps(j, ensure_ascii=False, separators=(",", ":"))`. -/
def dumps (num : Numerals) : Json → Text
  | .null => "null".toList
  | .bool b => if b then "true".toList else "false".toList
  | .int n => (toString n).toList
  | .float x => num.text x
  | .str s => quote s
  | .arr xs => '[' :: (dumpsList num xs ++ [']'])
  | .obj fields => '{' :: (dumpsFields num fields ++ ['}'])

def dumpsList (num : Numerals) : List Json → Text
  | [] => []
  | x :: xs => dumps num x ++ (if xs = [] then [] else ',' :: dumpsList num xs)

def dumpsFields (num : Numerals) : List (String × Json) → Text
  | [] => []
  | (k, x) :: fields =>
    quote k ++ ':' :: (dumps num x ++ (if fields = [] then [] else ',' :: dumpsFields num fields))

end

/-! ## Scanning -/

@[simp] theorem scan_nil (m : Mode) : scan m [] = some m := rfl

theorem scan_cons (m : Mode) (c : Char) (t : Text) :
    scan m (c :: t) = (step m c).bind fun m => scan m t := rfl

theorem scan_append (m : Mode) (a b : Text) :
    scan m (a ++ b) = (scan m a).bind fun m => scan m b := List.foldlM_append

theorem scan_append_some {m m' : Mode} {a b : Text} (h : scan m (a ++ b) = some m') :
    ∃ m₁, scan m a = some m₁ ∧ scan m₁ b = some m' := by
  rw [scan_append] at h
  exact Option.bind_eq_some_iff.1 h

theorem step_outside {c : Char} {m : Mode} (h : step .outside c = some m) :
    c = '"' ∧ m = .inside ∨ c ≠ '"' ∧ isStructural c = true ∧ m = .outside := by
  rw [step] at h
  split_ifs at h with hq hs
  · exact .inl ⟨hq, (Option.some.inj h).symm⟩
  · exact .inr ⟨hq, hs, (Option.some.inj h).symm⟩

theorem step_inside_plain {c : Char} {m : Mode} (hq : c ≠ '"') (hb : c ≠ '\\')
    (h : step .inside c = some m) : m = .inside := by
  rw [step, if_neg hq, if_neg hb] at h
  split_ifs at h
  exact (Option.some.inj h).symm

/-- Quotes read the wrong way round: no backslash can be read, and what is quoted is what stands
outside of the strings of the text. -/
theorem scan_flipped (t : Text) :
    (∀ {m m'}, scan .inside t = some m → scan .outside t = some m' →
      '\\' ∉ t ∧ ∀ c ∈ quoted .outside t, isStructural c = true) ∧
    ∀ {m m'}, scan .outside t = some m → scan .inside t = some m' →
      '\\' ∉ t ∧ ∀ c ∈ quoted .inside t, isStructural c = true := by
  induction t with
  | nil => exact ⟨fun _ _ => ⟨List.not_mem_nil, by simp [quoted]⟩,
      fun _ _ => ⟨List.not_mem_nil, by simp [quoted]⟩⟩
  | cons c t ih =>
    refine ⟨fun hi ho => ?_, fun ho hi => ?_⟩
    · rw [scan_cons, Option.bind_eq_some_iff] at hi ho
      obtain ⟨m₁, h₁, hi⟩ := hi
      obtain ⟨m₂, h₂, ho⟩ := ho
      rcases step_outside h₂ with ⟨rfl, rfl⟩ | ⟨hq, hs, rfl⟩
      · obtain rfl : m₁ = .outside := (Option.some.inj h₁).symm
        obtain ⟨hb, hc⟩ := ih.2 hi ho
        refine ⟨?_, ?_⟩
        · simpa using hb
        · simpa [quoted, h₂] using hc
      · have hb : c ≠ '\\' := by
          rintro rfl
          exact absurd hs (by decide)
        obtain rfl := step_inside_plain hq hb h₁
        obtain ⟨hb', hc⟩ := ih.1 hi ho
        refine ⟨?_, ?_⟩
        · simpa [hb.symm] using hb'
        · simpa [quoted, h₂] using hc
    · rw [scan_cons, Option.bind_eq_some_iff] at hi ho
      obtain ⟨m₁, h₁, hi⟩ := hi
      obtain ⟨m₂, h₂, ho⟩ := ho
      rcases step_outside h₂ with ⟨rfl, rfl⟩ | ⟨hq, hs, rfl⟩
      · obtain rfl : m₁ = .outside := (Option.some.inj h₁).symm
        obtain ⟨hb, hc⟩ := ih.1 ho hi
        refine ⟨?_, ?_⟩
        · simpa using hb
        · simpa [quoted, h₁] using hc
      · have hb : c ≠ '\\' := by
          rintro rfl
          exact absurd hs (by decide)
        obtain rfl := step_inside_plain hq hb h₁
        obtain ⟨hb', hc⟩ := ih.2 ho hi
        refine ⟨?_, ?_⟩
        · simpa [hb.symm] using hb'
        · simpa [quoted, h₁, hs] using hc

/-! ## Scanning what is written -/

/-- What is written of a value: it scans, holds no control characters, and beyond ASCII it holds
the characters of the strings. -/
structure Written (t s : Text) : Prop where
  scan : scan .outside t = some .outside
  printable : ∀ c ∈ t, 0x20 ≤ c.toNat
  chars : ∀ c, 0x80 ≤ c.toNat → (c ∈ t ↔ c ∈ s)

theorem Written.append {t t' s s' : Text} (h : Written t s) (h' : Written t' s') :
    Written (t ++ t') (s ++ s') where
  scan := by rw [scan_append, h.scan]; exact h'.scan
  printable c hc := (List.mem_append.1 hc).elim (h.printable c) (h'.printable c)
  chars c hc := by rw [List.mem_append, List.mem_append, h.chars c hc, h'.chars c hc]

theorem symbols_ok : ∀ c ∈ symbols, c ≠ '"' ∧ 0x20 ≤ c.toNat ∧ c.toNat < 0x80 := by
  simp [symbols]

theorem punctuation_ok {c : Char} (h : isPunctuation c = true) :
    c ≠ '"' ∧ 0x20 ≤ c.toNat ∧ c.toNat < 0x80 := by
  rw [isPunctuation, Bool.or_eq_true] at h
  rcases h with h | h
  · have hr := Char.isDigit_iff_toNat.1 h
    have h₀ : '0'.toNat = 48 := rfl
    have h₉ : '9'.toNat = 57 := rfl
    refine ⟨?_, by omega, by omega⟩
    rintro rfl
    exact absurd h (by decide)
  · exact symbols_ok c (by simpa using h)

theorem written_punctuation {t : Text} (h : t.all isPunctuation = true) : Written t [] where
  scan := by
    induction t with
    | nil => rfl
    | cons c t ih =>
      rw [List.all_cons, Bool.and_eq_true] at h
      have hs : isStructural c = true := by rw [isStructural, h.1, Bool.true_or]
      rw [scan_cons, step, if_neg (punctuation_ok h.1).1, if_pos hs]
      exact ih h.2
  printable c hc := (punctuation_ok (List.all_eq_true.1 h c hc)).2.1
  chars c hc := by
    simp only [List.not_mem_nil, iff_false]
    intro hm
    have := (punctuation_ok (List.all_eq_true.1 h c hm)).2.2
    omega

theorem hexDigit_ok (n : ℕ) :
    hexDigit n ≠ '"' ∧ hexDigit n ≠ '\\' ∧ 0x20 ≤ (hexDigit n).toNat ∧ (hexDigit n).toNat < 0x80 := by
  have hall : ∀ k < 16, Nat.digitChar k ≠ '"' ∧ Nat.digitChar k ≠ '\\' ∧
      0x20 ≤ (Nat.digitChar k).toNat ∧ (Nat.digitChar k).toNat < 0x80 := by decide
  exact hall _ (Nat.mod_lt n (by decide))

theorem step_inside {c : Char} (hq : c ≠ '"') (hb : c ≠ '\\') (h : 0x20 ≤ c.toNat) :
    step .inside c = some .inside := by
  rw [step, if_neg hq, if_neg hb, if_neg (by omega)]

theorem escape_pair {c d : Char} (he : isEscape d = true) (hd : 0x20 ≤ d.toNat ∧ d.toNat < 0x80)
    (hc : c.toNat < 0x80) : scan .inside ['\\', d] = some .inside ∧
      (∀ x ∈ ['\\', d], 0x20 ≤ x.toNat) ∧ ∀ x, 0x80 ≤ x.toNat → (x ∈ ['\\', d] ↔ x = c) := by
  refine ⟨?_, ?_, fun x hx => ?_⟩
  · simp [scan_cons, step, he]
  · simp [hd.1]
  · simp only [List.mem_cons, List.not_mem_nil, or_false]
    constructor
    · rintro (rfl | rfl)
      · exact absurd hx (by decide)
      · omega
    · rintro rfl
      omega

theorem escapeChar_ok (c : Char) : scan .inside (escapeChar c) = some .inside ∧
    (∀ x ∈ escapeChar c, 0x20 ≤ x.toNat) ∧
      ∀ x, 0x80 ≤ x.toNat → (x ∈ escapeChar c ↔ x = c) := by
  rw [escapeChar]
  split_ifs with h₁ h₂ h₃ h₄ h₅ h₆ h₇ h₈
  · exact escape_pair (by decide) (by decide) (by rw [h₁]; decide)
  · exact escape_pair (by decide) (by decide) (by rw [h₂]; decide)
  · exact escape_pair (by decide) (by decide) (by rw [h₃]; decide)
  · exact escape_pair (by decide) (by decide) (by rw [h₄]; decide)
  · exact escape_pair (by decide) (by decide) (by rw [h₅]; decide)
  · exact escape_pair (by decide) (by decide) (by rw [h₆]; decide)
  · exact escape_pair (by decide) (by decide) (by rw [h₇]; decide)
  · obtain ⟨hq, hb, hlo, hhi⟩ := hexDigit_ok (c.toNat / 16)
    obtain ⟨hq', hb', hlo', hhi'⟩ := hexDigit_ok c.toNat
    refine ⟨?_, ?_, fun x hx => ?_⟩
    · have hu : scan .inside ['\\', 'u', '0', '0'] = some .inside := rfl
      have happ : ∀ x y, ['\\', 'u', '0', '0', x, y] = ['\\', 'u', '0', '0'] ++ [x, y] :=
        fun _ _ => rfl
      rw [happ, scan_append, hu]
      simp [scan_cons, step_inside hq hb hlo, step_inside hq' hb' hlo']
    · simp [hlo, hlo']
    · simp only [List.mem_cons, List.not_mem_nil, or_false]
      constructor
      · rintro (rfl | rfl | rfl | rfl | rfl | rfl)
        · exact absurd hx (by decide)
        · exact absurd hx (by decide)
        · exact absurd hx (by decide)
        · exact absurd hx (by decide)
        · omega
        · omega
      · rintro rfl
        omega
  · refine ⟨?_, ?_, fun x _ => List.mem_singleton⟩
    · rw [scan_cons, step_inside h₁ h₂ (by omega)]
      rfl
    · simpa using h₈

theorem scan_escaped (cs : Text) :
    scan .inside (cs.flatMap escapeChar) = some .inside := by
  induction cs with
  | nil => rfl
  | cons c cs ih =>
    rw [List.flatMap_cons, scan_append, (escapeChar_ok c).1]
    exact ih

theorem written_quote (s : String) : Written (quote s) s.toList where
  scan := by
    rw [quote, scan_cons, step, if_pos rfl, Option.bind_some, scan_append, scan_escaped]
    rfl
  printable c hc := by
    simp only [quote, List.mem_cons, List.mem_append, List.mem_flatMap, List.not_mem_nil,
      or_false] at hc
    rcases hc with rfl | ⟨d, _, hd⟩ | rfl
    · decide
    · exact (escapeChar_ok d).2.1 c hd
    · decide
  chars c hc := by
    have hq : c ≠ '"' := by
      rintro rfl
      exact absurd hc (by decide)
    simp only [quote, List.mem_cons, List.mem_append, List.mem_flatMap, List.not_mem_nil, or_false,
      hq, false_or]
    constructor
    · rintro ⟨d, hd, hcd⟩
      rwa [((escapeChar_ok d).2.2 c hc).1 hcd]
    · intro hm
      exact ⟨c, hm, ((escapeChar_ok c).2.2 c hc).2 rfl⟩

theorem nat_digits (n : ℕ) : n.repr.toList.all isPunctuation = true := by
  rw [List.all_eq_true, Nat.repr, String.toList_ofList]
  intro c hc
  rw [isPunctuation, Nat.isDigit_of_mem_toDigits (by decide) (by decide) hc, Bool.true_or]

theorem int_digits (n : ℤ) : (toString n).toList.all isPunctuation = true := by
  cases n with
  | ofNat n => exact nat_digits n
  | negSucc n =>
    have h : toString (Int.negSucc n) = "-" ++ (n + 1).repr := rfl
    rw [h, String.toList_append, List.all_append, nat_digits]
    rfl

mutual

theorem written_dumps (num : Numerals) : (j : Json) → Written (dumps num j) (chars j)
  | .null => written_punctuation (t := "null".toList) (by decide)
  | .bool true => written_punctuation (t := "true".toList) (by decide)
  | .bool false => written_punctuation (t := "false".toList) (by decide)
  | .int n => written_punctuation (int_digits n)
  | .float x => written_punctuation (num.text_ok x)
  | .str s => written_quote s
  | .arr xs => by
    have h := ((written_punctuation (t := ['[']) (by decide)).append (written_list num xs)).append
      (written_punctuation (t := [']']) (by decide))
    rw [List.append_nil] at h
    exact h
  | .obj fields => by
    have h := ((written_punctuation (t := ['{']) (by decide)).append
      (written_fields num fields)).append (written_punctuation (t := ['}']) (by decide))
    rw [List.append_nil] at h
    exact h

theorem written_list (num : Numerals) : (xs : List Json) →
    Written (dumpsList num xs) (charsList xs)
  | [] => written_punctuation rfl
  | x :: xs => by
    rw [dumpsList]
    refine (written_dumps num x).append ?_
    split_ifs with h
    · rw [h]
      exact written_punctuation rfl
    · exact (written_punctuation (t := [',']) (by decide)).append (written_list num xs)

theorem written_fields (num : Numerals) : (fields : List (String × Json)) →
    Written (dumpsFields num fields) (charsFields fields)
  | [] => written_punctuation rfl
  | (k, x) :: fields => by
    rw [dumpsFields, charsFields, List.append_assoc]
    refine (written_quote k).append ?_
    refine (written_punctuation (t := [':']) (by decide)).append ((written_dumps num x).append ?_)
    split_ifs with h
    · rw [h]
      exact written_punctuation rfl
    · exact (written_punctuation (t := [',']) (by decide)).append (written_fields num fields)

end

/-! ## Pieces -/

def Fragment (t : Text) : Prop := ∃ m, scan .inside t = some m

theorem Fragment.of_append {a b : Text} (h : Fragment (a ++ b)) : Fragment a := by
  obtain ⟨m, hm⟩ := h
  obtain ⟨m₁, h₁, -⟩ := scan_append_some hm
  exact ⟨m₁, h₁⟩

theorem Fragment.drop {a b : Text} (ha : ∀ c ∈ a, c ≠ '"' ∧ c ≠ '\\') (h : Fragment (a ++ b)) :
    Fragment b := by
  induction a with
  | nil => exact h
  | cons c a ih =>
    rw [List.forall_mem_cons] at ha
    obtain ⟨m, hm⟩ := h
    rw [List.cons_append, scan_cons, Option.bind_eq_some_iff] at hm
    obtain ⟨m₁, h₁, hm⟩ := hm
    obtain rfl := step_inside_plain ha.1.1 ha.1.2 h₁
    exact ih ha.2 ⟨m, hm⟩

theorem Fragment.chars {loads : Text → Option Json} (hl : IsReader loads) {t : Text} {v : Json}
    (h : Fragment t) (hv : loads t = some v) : ∀ c ∈ chars v, isStructural c = true := by
  obtain ⟨m, hm⟩ := h
  obtain ⟨hb, hq⟩ := (scan_flipped t).1 hm (hl.scans hv)
  exact fun c hc => hq c ((hl.chars hv c hc).resolve_right hb)

theorem scan_blanks {m : Mode} {t : Text} (ht : ∀ c ∈ t, Text.isSpace c = true)
    (h : scan m t = some .inside) : m = .inside := by
  induction t generalizing m with
  | nil => exact Option.some.inj h
  | cons c t ih =>
    rw [List.forall_mem_cons] at ht
    rw [scan_cons, Option.bind_eq_some_iff] at h
    obtain ⟨m₁, h₁, h⟩ := h
    obtain rfl := ih ht.2 h
    cases m with
    | inside => rfl
    | outside =>
      rcases step_outside h₁ with ⟨rfl, -⟩ | ⟨-, -, hm⟩
      · exact absurd ht.1 (by decide)
      · cases hm
    | escaped =>
      rw [step] at h₁
      split_ifs at h₁ with he
      have hall : ∀ c, isEscape c = true → Text.isSpace c = false := by
        intro c hc
        simp only [isEscape, List.mem_cons, List.not_mem_nil, or_false, decide_eq_true_eq] at hc
        rcases hc with rfl | rfl | rfl | rfl | rfl | rfl | rfl | rfl | rfl <;> decide
      rw [hall c he] at ht
      exact absurd ht.1 (by decide)

end Varsten.Python.JsonText
