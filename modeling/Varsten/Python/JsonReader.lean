import Varsten.Python.Equality
import Varsten.Python.JsonText

/-!
# Reading JSON texts

`json.loads`. Numbers, with `NaN` and `Infinity`, are scanned by a parameter; a surrogate escape
without its partner, which names no character, is read as U+FFFD. What `dumps` writes of an object
of strings reads back.
-/

namespace Varsten.Python.JsonReader

open Json (setItems setItems_new)
open Utf8 (Text replacement)
open JsonText (escapeChar quote dumps dumpsFields hexDigit Numerals)

def isBlank (c : Char) : Bool := c ∈ [' ', '\t', '\n', '\r']

def skip (t : Text) : Text := t.dropWhile isBlank

def hexValue (c : Char) : Option ℕ :=
  if '0' ≤ c ∧ c ≤ '9' then some (c.toNat - '0'.toNat)
  else if 'a' ≤ c ∧ c ≤ 'f' then some (c.toNat - 'a'.toNat + 10)
  else if 'A' ≤ c ∧ c ≤ 'F' then some (c.toNat - 'A'.toNat + 10)
  else none

def codeUnit (a b c d : Char) : Option ℕ := do
  return (((← hexValue a) * 16 + (← hexValue b)) * 16 + (← hexValue c)) * 16 + (← hexValue d)

def escaped : Char → Option Char
  | '"' => some '"'
  | '\\' => some '\\'
  | '/' => some '/'
  | 'b' => some '\x08'
  | 'f' => some '\x0c'
  | 'n' => some '\n'
  | 'r' => some '\r'
  | 't' => some '\t'
  | _ => none

/-- The characters and the code units of escapes up to the closing quote, and what follows it. -/
def readUnits : Text → Option (List (Char ⊕ ℕ) × Text)
  | [] => none
  | '"' :: t => some ([], t)
  | '\\' :: 'u' :: x :: y :: z :: w :: t => do
    let unit ← codeUnit x y z w
    let (units, rest) ← readUnits t
    return (.inr unit :: units, rest)
  | '\\' :: e :: t => do
    let c ← escaped e
    let (units, rest) ← readUnits t
    return (.inl c :: units, rest)
  | c :: t =>
    if c = '\\' ∨ c.toNat < 0x20 then none
    else do
      let (units, rest) ← readUnits t
      return (.inl c :: units, rest)

def isHigh (n : ℕ) : Bool := 0xD800 ≤ n && n < 0xDC00

def isLow (n : ℕ) : Bool := 0xDC00 ≤ n && n < 0xE000

def joinUnits : List (Char ⊕ ℕ) → Text
  | [] => []
  | .inl c :: units => c :: joinUnits units
  | .inr n :: .inr m :: units =>
    if isHigh n && isLow m then
      Char.ofNat (0x10000 + (n - 0xD800) * 0x400 + (m - 0xDC00)) :: joinUnits units
    else (if isHigh n || isLow n then replacement else Char.ofNat n) ::
      joinUnits (.inr m :: units)
  | .inr n :: units =>
    (if isHigh n || isLow n then replacement else Char.ofNat n) :: joinUnits units

def readString (t : Text) : Option (String × Text) :=
  (readUnits t).map fun (units, rest) => (String.ofList (joinUnits units), rest)

section

variable (value : Text → Option (Json × Text))

/-- The members of an object from the quote of a key on; a repeated key is overwritten. -/
def members : ℕ → List (String × Json) → Text → Option (List (String × Json) × Text)
  | 0, _, _ => none
  | n + 1, done, '"' :: t => do
    let (k, t) ← readString t
    match skip t with
    | ':' :: t => do
      let (v, t) ← value (skip t)
      let done := Json.setItem k v done
      match skip t with
      | ',' :: t => members n done (skip t)
      | '}' :: t => some (done, t)
      | _ => none
    | _ => none
  | _, _, _ => none

def elements : ℕ → List Json → Text → Option (List Json × Text)
  | 0, _, _ => none
  | n + 1, done, t => do
    let (v, t) ← value t
    match skip t with
    | ',' :: t => elements n (done ++ [v]) (skip t)
    | ']' :: t => some (done ++ [v], t)
    | _ => none

end

section

-- A number, `NaN` or an infinity, and what follows it.
variable (number : Text → Option (Json × Text))

def readValue : ℕ → Text → Option (Json × Text)
  | 0, _ => none
  | _ + 1, '"' :: t => (readString t).map fun (s, t) => (.str s, t)
  | n + 1, '{' :: t =>
    match skip t with
    | '}' :: t => some (.obj [], t)
    | t => (members (readValue n) t.length [] t).map fun (fields, t) => (.obj fields, t)
  | n + 1, '[' :: t =>
    match skip t with
    | ']' :: t => some (.arr [], t)
    | t => (elements (readValue n) t.length [] t).map fun (xs, t) => (.arr xs, t)
  | _ + 1, 'n' :: 'u' :: 'l' :: 'l' :: t => some (.null, t)
  | _ + 1, 't' :: 'r' :: 'u' :: 'e' :: t => some (.bool true, t)
  | _ + 1, 'f' :: 'a' :: 'l' :: 's' :: 'e' :: t => some (.bool false, t)
  | _ + 1, t => number t

/-- `json.loads(text)`, `none` where it raises. -/
def loads (text : Text) : Option Json :=
  match readValue number (text.length + 1) (skip text) with
  | some (j, rest) => if skip rest = [] then some j else none
  | none => none

end

/-! ## Reading what is written -/

def unitOf (c : Char) : Char ⊕ ℕ :=
  if c ∈ ['"', '\\', '\n', '\r', '\t', '\x08', '\x0c'] ∨ 0x20 ≤ c.toNat then .inl c
  else .inr c.toNat

theorem codeUnit_control : ∀ n < 0x20,
    codeUnit '0' '0' (hexDigit (n / 16)) (hexDigit n) = some n := by decide

theorem readUnits_escape (c : Char) (t : Text) :
    readUnits (escapeChar c ++ t) = (readUnits t).map fun r => (unitOf c :: r.1, r.2) := by
  rw [escapeChar]
  split_ifs with h₁ h₂ h₃ h₄ h₅ h₆ h₇ h₈
  · subst h₁
    cases h : readUnits t <;> simp [readUnits, escaped, unitOf, h]
  · subst h₂
    cases h : readUnits t <;> simp [readUnits, escaped, unitOf, h]
  · subst h₃
    cases h : readUnits t <;> simp [readUnits, escaped, unitOf, h]
  · subst h₄
    cases h : readUnits t <;> simp [readUnits, escaped, unitOf, h]
  · subst h₅
    cases h : readUnits t <;> simp [readUnits, escaped, unitOf, h]
  · subst h₆
    cases h : readUnits t <;> simp [readUnits, escaped, unitOf, h]
  · subst h₇
    cases h : readUnits t <;> simp [readUnits, escaped, unitOf, h]
  · have hunit : unitOf c = .inr c.toNat := if_neg (by simp [*])
    rw [hunit]
    cases h : readUnits t <;> simp [readUnits, codeUnit_control _ h₈, h]
  · have hunit : unitOf c = .inl c := if_pos (.inr (by omega))
    rw [hunit]
    cases h : readUnits t <;> simp [readUnits, h₂, h₈, h]

theorem readUnits_escaped (s t : Text) :
    readUnits (s.flatMap escapeChar ++ '"' :: t) = some (s.map unitOf, t) := by
  induction s with
  | nil => simp [readUnits]
  | cons c s ih =>
    rw [List.flatMap_cons, List.append_assoc, readUnits_escape, ih]
    rfl

theorem unitOf_inr {c : Char} {n : ℕ} (h : unitOf c = .inr n) : n = c.toNat ∧ n < 0x20 := by
  rw [unitOf] at h
  split_ifs at h with hc
  obtain rfl := Sum.inr.inj h
  exact ⟨rfl, not_le.1 (not_or.1 hc).2⟩

theorem joinUnits_unitOf (s : Text) : joinUnits (s.map unitOf) = s := by
  induction s with
  | nil => rfl
  | cons c s ih =>
    rw [List.map_cons]
    cases hc : unitOf c with
    | inl d =>
      have hd : d = c := by
        rw [unitOf] at hc
        split_ifs at hc
        exact (Sum.inl.inj hc).symm
      rw [joinUnits, ih, hd]
    | inr n =>
      obtain ⟨rfl, hlt⟩ := unitOf_inr hc
      have hhigh : isHigh c.toNat = false := by
        simp only [isHigh, Bool.and_eq_false_iff, decide_eq_false_iff_not]
        omega
      have hlow : isLow c.toNat = false := by
        simp only [isLow, Bool.and_eq_false_iff, decide_eq_false_iff_not]
        omega
      have hchar : (if isHigh c.toNat || isLow c.toNat then replacement else Char.ofNat c.toNat) =
          c := by
        rw [hhigh, hlow, Bool.false_or, if_neg Bool.false_ne_true, Char.ofNat_toNat]
      cases s with
      | nil => simp only [List.map_nil, joinUnits, hchar]
      | cons d s =>
        rw [List.map_cons] at ih ⊢
        cases hd : unitOf d with
        | inl e =>
          rw [hd] at ih
          rw [joinUnits, hchar, ih]
          intro m units h
          cases h
        | inr m =>
          rw [hd] at ih
          rw [joinUnits, hhigh, Bool.false_and, if_neg Bool.false_ne_true, ← hhigh, hchar, ih]

theorem readString_quote (s : String) (t : Text) :
    readString (s.toList.flatMap escapeChar ++ '"' :: t) = some (s, t) := by
  simp only [readString, readUnits_escaped, Option.map_some, joinUnits_unitOf,
    String.ofList_toList]

/-! ## Objects of strings -/

def Strings (fields : List (String × Json)) : Prop := ∀ f ∈ fields, ∃ s, f.2 = .str s

variable (number : Text → Option (Json × Text)) (num : Numerals)

theorem skip_of_not_blank {c : Char} (h : isBlank c = false) (t : Text) :
    skip (c :: t) = c :: t := by
  rw [skip, List.dropWhile_cons_of_neg (by rw [h]; exact Bool.false_ne_true)]

theorem skip_quote (s : String) (t : Text) : skip (quote s ++ t) = quote s ++ t :=
  skip_of_not_blank rfl _

theorem readValue_quote (n : ℕ) (s : String) (t : Text) :
    readValue number (n + 1) (quote s ++ t) = some (.str s, t) := by
  rw [quote, List.cons_append, List.append_assoc, List.singleton_append, readValue,
    readString_quote]
  rfl

theorem skip_dumpsFields {fields : List (String × Json)} (hne : fields ≠ []) (t : Text) :
    skip (dumpsFields num fields ++ t) = dumpsFields num fields ++ t := by
  cases fields with
  | nil => exact absurd rfl hne
  | cons f fields =>
    rw [dumpsFields, List.append_assoc]
    exact skip_quote f.1 _

theorem members_dumpsFields {fields : List (String × Json)} (hs : Strings fields)
    (hne : fields ≠ []) (n : ℕ) (t : Text) {m : ℕ} (hm : fields.length ≤ m)
    (done : List (String × Json)) :
    members (readValue number (n + 1)) m done (dumpsFields num fields ++ '}' :: t) =
      some (setItems done fields, t) := by
  induction fields generalizing m done with
  | nil => exact absurd rfl hne
  | cons f fields ih =>
    obtain ⟨k, v⟩ := f
    obtain ⟨m, rfl⟩ : ∃ m', m = m' + 1 := ⟨m - 1, by rw [List.length_cons] at hm; omega⟩
    rw [Strings, List.forall_mem_cons] at hs
    obtain ⟨⟨s, rfl⟩, hs⟩ := hs
    have hkey : dumpsFields num ((k, .str s) :: fields) ++ '}' :: t =
        '"' :: (k.toList.flatMap escapeChar ++ '"' :: ':' :: (quote s ++
          ((if fields = [] then [] else ',' :: dumpsFields num fields) ++ '}' :: t))) := by
      simp only [dumpsFields, dumps, quote, List.cons_append, List.append_assoc, List.nil_append]
    rw [hkey, members, readString_quote]
    simp only [Option.bind_eq_bind, Option.bind_some, skip_of_not_blank (c := ':') rfl, skip_quote,
      readValue_quote]
    by_cases hf : fields = []
    · subst hf
      rfl
    · rw [if_neg hf, List.cons_append, skip_of_not_blank rfl]
      simp only [skip_dumpsFields num hf]
      exact ih hs hf (Nat.le_of_succ_le_succ hm) _

theorem readValue_members (n : ℕ) (t : Text) :
    readValue number (n + 1) ('{' :: '"' :: t) =
      (members (readValue number n) ('"' :: t).length [] ('"' :: t)).map
        fun r => (.obj r.1, r.2) := rfl

theorem length_le_dumpsFields (fields : List (String × Json)) :
    fields.length ≤ (dumpsFields num fields).length := by
  induction fields with
  | nil => exact Nat.zero_le 0
  | cons f fields ih =>
    rw [dumpsFields, List.length_cons, List.length_append, List.length_cons, List.length_append]
    split_ifs with hf
    · rw [hf, List.length_nil]
      omega
    · rw [List.length_cons]
      omega

theorem loads_dumps {fields : List (String × Json)} (hs : Strings fields)
    (hn : (fields.map Prod.fst).Nodup) :
    loads number (dumps num (.obj fields)) = some (.obj fields) := by
  cases fields with
  | nil => rfl
  | cons f fields =>
    have hne : f :: fields ≠ [] := List.cons_ne_nil f fields
    have hopen : dumps num (.obj (f :: fields)) = '{' :: (dumpsFields num (f :: fields) ++ ['}']) :=
      rfl
    have hlen : (f :: fields).length ≤ (dumpsFields num (f :: fields) ++ ['}']).length := by
      rw [List.length_append]
      exact Nat.le_add_right_of_le (length_le_dumpsFields num _)
    have hm := members_dumpsFields number num hs hne
      (dumpsFields num (f :: fields) ++ ['}']).length [] hlen []
    obtain ⟨t, ht⟩ : ∃ t, dumpsFields num (f :: fields) ++ ['}'] = '"' :: t := ⟨_, rfl⟩
    rw [setItems_new hn, List.nil_append, ht] at hm
    rw [hopen, ht, loads, skip_of_not_blank rfl, List.length_cons, readValue_members, hm]
    rfl

end Varsten.Python.JsonReader
