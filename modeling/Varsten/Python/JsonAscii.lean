import Varsten.Python.JsonReader

/-!
# JSON texts in ASCII

`json.dumps` with its default escapes: what is not printable ASCII is escaped, beyond the first
plane as a pair of surrogates. A value without numbers whose dicts have each key once reads back.
-/

namespace Varsten.Python.JsonAscii

open Json (Keyed KeyedList KeyedFields setItems setItems_new)
open JsonReader
open JsonText (hexDigit Numerals)
open Utf8 (Text replacement)

def unitEscape (n : ℕ) : Text :=
  ['\\', 'u', hexDigit (n / 4096), hexDigit (n / 256), hexDigit (n / 16), hexDigit n]

def escapeAscii (c : Char) : Text :=
  if c = '"' then ['\\', '"']
  else if c = '\\' then ['\\', '\\']
  else if c = '\n' then ['\\', 'n']
  else if c = '\r' then ['\\', 'r']
  else if c = '\t' then ['\\', 't']
  else if c = '\x08' then ['\\', 'b']
  else if c = '\x0c' then ['\\', 'f']
  else if 0x20 ≤ c.toNat ∧ c.toNat < 0x7F then [c]
  else if c.toNat < 0x10000 then unitEscape c.toNat
  else unitEscape (0xD800 + (c.toNat - 0x10000) / 0x400) ++
    unitEscape (0xDC00 + (c.toNat - 0x10000) % 0x400)

def quote (s : String) : Text := '"' :: (s.toList.flatMap escapeAscii ++ ['"'])

def separator (spaced : Bool) (c : Char) : Text := if spaced then [c, ' '] else [c]

section

variable (num : Numerals) (spaced : Bool)

mutual

/-- `json.dumps(j)`, or with `separators=(",", ":")`. -/
def dumps : Json → Text
  | .null => "null".toList
  | .bool b => if b then "true".toList else "false".toList
  | .int n => (toString n).toList
  | .float x => num.text x
  | .str s => quote s
  | .arr xs => '[' :: (dumpsList xs ++ [']'])
  | .obj fields => '{' :: (dumpsFields fields ++ ['}'])

def dumpsList : List Json → Text
  | [] => []
  | x :: xs => dumps x ++ (if xs = [] then [] else separator spaced ',' ++ dumpsList xs)

def dumpsFields : List (String × Json) → Text
  | [] => []
  | (k, x) :: fields => quote k ++ (separator spaced ':' ++ (dumps x ++
      (if fields = [] then [] else separator spaced ',' ++ dumpsFields fields)))

end

end

/-! ## Strings -/

def unitsOf (c : Char) : List (Char ⊕ ℕ) :=
  if c ∈ ['"', '\\', '\n', '\r', '\t', '\x08', '\x0c'] ∨ (0x20 ≤ c.toNat ∧ c.toNat < 0x7F) then
    [.inl c]
  else if c.toNat < 0x10000 then [.inr c.toNat]
  else [.inr (0xD800 + (c.toNat - 0x10000) / 0x400),
    .inr (0xDC00 + (c.toNat - 0x10000) % 0x400)]

theorem hexValue_hexDigit (n : ℕ) : hexValue (hexDigit n) = some (n % 16) := by
  have hall : ∀ m < 16, hexValue (Nat.digitChar m) = some m := by decide
  exact hall (n % 16) (Nat.mod_lt n (by omega))

theorem codeUnit_hexDigits {n : ℕ} (h : n < 0x10000) :
    codeUnit (hexDigit (n / 4096)) (hexDigit (n / 256)) (hexDigit (n / 16)) (hexDigit n) =
      some n := by
  have hn : ((n / 4096 % 16 * 16 + n / 256 % 16) * 16 + n / 16 % 16) * 16 + n % 16 = n := by omega
  simp only [codeUnit, hexValue_hexDigit, Option.bind_eq_bind, Option.bind_some, hn]
  rfl

theorem readUnits_unitEscape {n : ℕ} (h : n < 0x10000) (t : Text) :
    readUnits (unitEscape n ++ t) = (readUnits t).map fun r => (.inr n :: r.1, r.2) := by
  simp only [unitEscape, List.cons_append, List.nil_append, readUnits, codeUnit_hexDigits h]
  cases readUnits t <;> rfl

theorem toNat_lt (c : Char) : c.toNat < 0x110000 := by
  rcases c.valid with h | ⟨-, h⟩
  · exact h.trans (by decide)
  · exact h

theorem readUnits_escapeAscii (c : Char) (t : Text) :
    readUnits (escapeAscii c ++ t) = (readUnits t).map fun r => (unitsOf c ++ r.1, r.2) := by
  rw [escapeAscii]
  split_ifs with h₁ h₂ h₃ h₄ h₅ h₆ h₇ h₈ h₉
  · subst h₁
    cases h : readUnits t <;> simp [readUnits, escaped, unitsOf, h]
  · subst h₂
    cases h : readUnits t <;> simp [readUnits, escaped, unitsOf, h]
  · subst h₃
    cases h : readUnits t <;> simp [readUnits, escaped, unitsOf, h]
  · subst h₄
    cases h : readUnits t <;> simp [readUnits, escaped, unitsOf, h]
  · subst h₅
    cases h : readUnits t <;> simp [readUnits, escaped, unitsOf, h]
  · subst h₆
    cases h : readUnits t <;> simp [readUnits, escaped, unitsOf, h]
  · subst h₇
    cases h : readUnits t <;> simp [readUnits, escaped, unitsOf, h]
  · have hunits : unitsOf c = [.inl c] := if_pos (.inr h₈)
    have hlow : ¬c.toNat < 0x20 := by omega
    rw [hunits]
    cases h : readUnits t <;> simp [readUnits, h₂, hlow, h]
  · have hunits : unitsOf c = [.inr c.toNat] := by
      rw [unitsOf, if_neg (by simp [*]), if_pos h₉]
    rw [hunits, readUnits_unitEscape h₉]
    rfl
  · have hunits : unitsOf c = [.inr (0xD800 + (c.toNat - 0x10000) / 0x400),
        .inr (0xDC00 + (c.toNat - 0x10000) % 0x400)] := by
      rw [unitsOf, if_neg (by simp [*]), if_neg h₉]
    have hc := toNat_lt c
    rw [hunits, List.append_assoc, readUnits_unitEscape (by omega),
      readUnits_unitEscape (by omega), Option.map_map]
    rfl

theorem readUnits_quoted (s t : Text) :
    readUnits (s.flatMap escapeAscii ++ '"' :: t) = some (s.flatMap unitsOf, t) := by
  induction s with
  | nil => simp [readUnits]
  | cons c s ih =>
    rw [List.flatMap_cons, List.append_assoc, readUnits_escapeAscii, ih]
    rfl

theorem joinUnits_plane {c : Char} (units : List (Char ⊕ ℕ)) :
    joinUnits (.inr c.toNat :: units) = c :: joinUnits units := by
  have hhigh : isHigh c.toNat = false := by
    simp only [isHigh, Bool.and_eq_false_iff, decide_eq_false_iff_not]
    rcases c.valid with h | ⟨h, -⟩ <;> simp only [Char.toNat] <;> omega
  have hlow : isLow c.toNat = false := by
    simp only [isLow, Bool.and_eq_false_iff, decide_eq_false_iff_not]
    rcases c.valid with h | ⟨h, -⟩ <;> simp only [Char.toNat] <;> omega
  have hchar : (if isHigh c.toNat || isLow c.toNat then replacement else Char.ofNat c.toNat) =
      c := by
    rw [hhigh, hlow, Bool.false_or, if_neg Bool.false_ne_true, Char.ofNat_toNat]
  cases units with
  | nil => simp only [joinUnits, hchar]
  | cons u units =>
    cases u with
    | inl d => simp only [joinUnits, hchar]
    | inr m =>
      rw [joinUnits, hhigh, Bool.false_and, if_neg Bool.false_ne_true, ← hhigh, hchar]

theorem joinUnits_pair {c : Char} (h : 0x10000 ≤ c.toNat) (units : List (Char ⊕ ℕ)) :
    joinUnits (.inr (0xD800 + (c.toNat - 0x10000) / 0x400) ::
      .inr (0xDC00 + (c.toNat - 0x10000) % 0x400) :: units) = c :: joinUnits units := by
  have hc := toNat_lt c
  have hhigh : isHigh (0xD800 + (c.toNat - 0x10000) / 0x400) = true := by
    simp only [isHigh, Bool.and_eq_true, decide_eq_true_eq]
    omega
  have hlow : isLow (0xDC00 + (c.toNat - 0x10000) % 0x400) = true := by
    simp only [isLow, Bool.and_eq_true, decide_eq_true_eq]
    omega
  have hn : 0x10000 + (0xD800 + (c.toNat - 0x10000) / 0x400 - 0xD800) * 0x400 +
      (0xDC00 + (c.toNat - 0x10000) % 0x400 - 0xDC00) = c.toNat := by omega
  rw [joinUnits, hhigh, hlow, Bool.and_true, if_pos rfl, hn, Char.ofNat_toNat]

theorem joinUnits_unitsOf (c : Char) (units : List (Char ⊕ ℕ)) :
    joinUnits (unitsOf c ++ units) = c :: joinUnits units := by
  rw [unitsOf]
  split_ifs with hplain hplane
  · rfl
  · exact joinUnits_plane units
  · exact joinUnits_pair (not_lt.1 hplane) units

theorem joinUnits_flatMap (s : Text) : joinUnits (s.flatMap unitsOf) = s := by
  induction s with
  | nil => rfl
  | cons c s ih => rw [List.flatMap_cons, joinUnits_unitsOf, ih]

theorem readString_quote (s : String) (t : Text) :
    readString (s.toList.flatMap escapeAscii ++ '"' :: t) = some (s, t) := by
  simp only [readString, readUnits_quoted, Option.map_some, joinUnits_flatMap,
    String.ofList_toList]

/-! ## Values -/

mutual

/-- There is no number in the value. -/
def Plain : Json → Prop
  | .int _ => False
  | .float _ => False
  | .arr xs => PlainList xs
  | .obj fields => PlainFields fields
  | _ => True

def PlainList : List Json → Prop
  | [] => True
  | x :: xs => Plain x ∧ PlainList xs

def PlainFields : List (String × Json) → Prop
  | [] => True
  | (_, x) :: fields => Plain x ∧ PlainFields fields

end

mutual

def depth : Json → ℕ
  | .arr xs => depthList xs + 1
  | .obj fields => depthFields fields + 1
  | _ => 1

def depthList : List Json → ℕ
  | [] => 0
  | x :: xs => max (depth x) (depthList xs)

def depthFields : List (String × Json) → ℕ
  | [] => 0
  | (_, x) :: fields => max (depth x) (depthFields fields)

end

theorem succ_of_depth {j : Json} {n : ℕ} (h : depth j ≤ n) : ∃ m, n = m + 1 := by
  have hpos : 0 < depth j := by cases j <;> simp [depth]
  exact ⟨n - 1, by omega⟩

section

variable (number : Text → Option (Json × Text)) (num : Numerals) (spaced : Bool)

theorem dumps_cons {j : Json} (h : Plain j) :
    ∃ c t, dumps num spaced j = c :: t ∧ isBlank c = false ∧ c ≠ ']' := by
  cases j with
  | int n => exact h.elim
  | float x => exact h.elim
  | bool b => cases b <;> exact ⟨_, _, rfl, by decide, by decide⟩
  | _ => exact ⟨_, _, rfl, by decide, by decide⟩

theorem separator_eq (c : Char) {t : Text} (ht : skip t = t) :
    ∃ r, separator spaced c ++ t = c :: r ∧ skip r = t := by
  cases spaced with
  | false => exact ⟨t, rfl, ht⟩
  | true =>
    refine ⟨' ' :: t, rfl, ?_⟩
    rw [skip, List.dropWhile_cons_of_pos (by decide)]
    exact ht

theorem skip_dumps {j : Json} (h : Plain j) (t : Text) :
    skip (dumps num spaced j ++ t) = dumps num spaced j ++ t := by
  obtain ⟨c, r, hr, hblank, -⟩ := dumps_cons num spaced h
  rw [hr]
  exact skip_of_not_blank hblank _

def ReadsBack (j : Json) : Prop :=
  ∀ n t, depth j ≤ n → readValue number n (dumps num spaced j ++ t) = some (j, t)

theorem elements_dumpsList {xs : List Json} (hp : PlainList xs) (hne : xs ≠ [])
    (hreads : ∀ x ∈ xs, ReadsBack number num spaced x) {n : ℕ} (hn : depthList xs ≤ n) (t : Text)
    {m : ℕ} (hm : xs.length ≤ m) (done : List Json) :
    elements (readValue number n) m done (dumpsList num spaced xs ++ ']' :: t) =
      some (done ++ xs, t) := by
  induction xs generalizing m done with
  | nil => exact absurd rfl hne
  | cons x xs ih =>
    obtain ⟨m, rfl⟩ : ∃ m', m = m' + 1 := ⟨m - 1, by rw [List.length_cons] at hm; omega⟩
    rw [List.forall_mem_cons] at hreads
    obtain ⟨hpx, hp⟩ := hp
    rw [depthList, max_le_iff] at hn
    rw [dumpsList, List.append_assoc, elements, hreads.1 n _ hn.1]
    simp only [Option.bind_eq_bind, Option.bind_some]
    by_cases hxs : xs = []
    · subst hxs
      rfl
    · have hskip : skip (dumpsList num spaced xs ++ ']' :: t) =
          dumpsList num spaced xs ++ ']' :: t := by
        cases xs with
        | nil => exact absurd rfl hxs
        | cons y ys =>
          rw [dumpsList, List.append_assoc]
          exact skip_dumps num spaced hp.1 _
      obtain ⟨r, hr, hrest⟩ := separator_eq spaced ',' hskip
      rw [if_neg hxs, List.append_assoc, hr, skip_of_not_blank (by decide)]
      simp only [hrest]
      rw [ih hp hxs hreads.2 hn.2 (Nat.le_of_succ_le_succ hm), List.append_assoc]
      rfl

theorem members_dumpsFields {fields : List (String × Json)} (hp : PlainFields fields)
    (hne : fields ≠ []) (hreads : ∀ f ∈ fields, ReadsBack number num spaced f.2) {n : ℕ}
    (hn : depthFields fields ≤ n) (t : Text) {m : ℕ} (hm : fields.length ≤ m)
    (done : List (String × Json)) :
    members (readValue number n) m done (dumpsFields num spaced fields ++ '}' :: t) =
      some (setItems done fields, t) := by
  induction fields generalizing m done with
  | nil => exact absurd rfl hne
  | cons f fields ih =>
    obtain ⟨k, v⟩ := f
    obtain ⟨m, rfl⟩ : ∃ m', m = m' + 1 := ⟨m - 1, by rw [List.length_cons] at hm; omega⟩
    rw [List.forall_mem_cons] at hreads
    obtain ⟨hpv, hp⟩ := hp
    rw [depthFields, max_le_iff] at hn
    obtain ⟨r, hr, hrest⟩ := separator_eq spaced ':' (skip_dumps num spaced hpv
      ((if fields = [] then [] else separator spaced ',' ++ dumpsFields num spaced fields) ++
        '}' :: t))
    have hkey : dumpsFields num spaced ((k, v) :: fields) ++ '}' :: t =
        '"' :: (k.toList.flatMap escapeAscii ++ '"' :: ':' :: r) := by
      rw [← hr]
      simp only [dumpsFields, quote, List.cons_append, List.append_assoc, List.nil_append]
    rw [hkey, members, readString_quote]
    simp only [Option.bind_eq_bind, Option.bind_some, skip_of_not_blank (c := ':') rfl, hrest]
    rw [hreads.1 n _ hn.1]
    simp only [Option.bind_some]
    by_cases hf : fields = []
    · subst hf
      rfl
    · have hskip : skip (dumpsFields num spaced fields ++ '}' :: t) =
          dumpsFields num spaced fields ++ '}' :: t := by
        cases fields with
        | nil => exact absurd rfl hf
        | cons g fields =>
          rw [dumpsFields, List.append_assoc]
          exact skip_of_not_blank rfl _
      obtain ⟨q, hq, hqrest⟩ := separator_eq spaced ',' hskip
      rw [if_neg hf, List.append_assoc, hq, skip_of_not_blank (by decide)]
      simp only [hqrest]
      exact ih hp hf hreads.2 hn.2 (Nat.le_of_succ_le_succ hm) _

theorem length_le_dumpsList {xs : List Json} (hp : PlainList xs) :
    xs.length ≤ (dumpsList num spaced xs).length := by
  induction xs with
  | nil => exact Nat.zero_le 0
  | cons x xs ih =>
    obtain ⟨c, r, hr, -, -⟩ := dumps_cons num spaced hp.1
    have hrest := ih hp.2
    rw [dumpsList, hr, List.length_cons, List.length_append, List.length_cons]
    split_ifs with hxs
    · rw [hxs, List.length_nil]
      omega
    · rw [List.length_append]
      omega

theorem length_le_dumpsFields (fields : List (String × Json)) :
    fields.length ≤ (dumpsFields num spaced fields).length := by
  induction fields with
  | nil => exact Nat.zero_le 0
  | cons f fields ih =>
    simp only [dumpsFields, quote, List.length_cons, List.cons_append, List.length_append]
    split_ifs with hf
    · rw [hf, List.length_nil]
      omega
    · rw [List.length_append]
      omega

theorem skip_dumpsList {xs : List Json} (hp : PlainList xs) (hne : xs ≠ []) (t : Text) :
    skip (dumpsList num spaced xs ++ t) = dumpsList num spaced xs ++ t := by
  cases xs with
  | nil => exact absurd rfl hne
  | cons x xs =>
    rw [dumpsList, List.append_assoc]
    exact skip_dumps num spaced hp.1 _

theorem readsBack_arr {xs : List Json} (hp : PlainList xs)
    (hreads : ∀ x ∈ xs, ReadsBack number num spaced x) :
    ReadsBack number num spaced (.arr xs) := by
  intro n t hn
  obtain ⟨n, rfl⟩ := succ_of_depth hn
  have hdepth : depthList xs ≤ n := Nat.le_of_succ_le_succ hn
  cases xs with
  | nil => rfl
  | cons x xs =>
    have hlen : (x :: xs).length ≤ (dumpsList num spaced (x :: xs) ++ ']' :: t).length := by
      rw [List.length_append]
      exact Nat.le_add_right_of_le (length_le_dumpsList num spaced hp)
    have helems := elements_dumpsList number num spaced hp (List.cons_ne_nil x xs) hreads hdepth t
      hlen []
    have hopen : dumps num spaced (.arr (x :: xs)) ++ t =
        '[' :: (dumpsList num spaced (x :: xs) ++ ']' :: t) := by
      rw [dumps, List.cons_append, List.append_assoc, List.singleton_append]
    rw [hopen, readValue, skip_dumpsList num spaced hp (List.cons_ne_nil x xs)]
    obtain ⟨c, r, hr, -, hc⟩ := dumps_cons num spaced hp.1
    have hhead : ∃ r', dumpsList num spaced (x :: xs) ++ ']' :: t = c :: r' := by
      rw [dumpsList, hr]
      exact ⟨_, rfl⟩
    obtain ⟨r', hr'⟩ := hhead
    rw [hr'] at helems ⊢
    split
    · next heq => exact absurd (List.cons.inj heq).1 hc
    · rw [helems]
      rfl

theorem readsBack_obj {fields : List (String × Json)} (hp : PlainFields fields)
    (hn : (fields.map Prod.fst).Nodup)
    (hreads : ∀ f ∈ fields, ReadsBack number num spaced f.2) :
    ReadsBack number num spaced (.obj fields) := by
  intro n t hdepth
  obtain ⟨n, rfl⟩ := succ_of_depth hdepth
  cases fields with
  | nil => rfl
  | cons f fields =>
    have hlen : (f :: fields).length ≤
        (dumpsFields num spaced (f :: fields) ++ '}' :: t).length := by
      rw [List.length_append]
      exact Nat.le_add_right_of_le (length_le_dumpsFields num spaced _)
    have hmembers := members_dumpsFields number num spaced hp (List.cons_ne_nil f fields) hreads
      (Nat.le_of_succ_le_succ hdepth) t hlen []
    rw [setItems_new hn, List.nil_append] at hmembers
    have hopen : dumps num spaced (.obj (f :: fields)) ++ t =
        '{' :: (dumpsFields num spaced (f :: fields) ++ '}' :: t) := by
      rw [dumps, List.cons_append, List.append_assoc, List.singleton_append]
    obtain ⟨r, hr⟩ : ∃ r, dumpsFields num spaced (f :: fields) ++ '}' :: t = '"' :: r := ⟨_, rfl⟩
    rw [hopen, hr, readValue_members, ← hr, hmembers]
    rfl

mutual

theorem readsBack : (j : Json) → Plain j → Keyed j → ReadsBack number num spaced j
  | .null, _, _ => fun n t hn => by
    obtain ⟨n, rfl⟩ := succ_of_depth hn
    rfl
  | .bool b, _, _ => fun n t hn => by
    obtain ⟨n, rfl⟩ := succ_of_depth hn
    cases b <;> rfl
  | .str s, _, _ => fun n t hn => by
    obtain ⟨n, rfl⟩ := succ_of_depth hn
    rw [dumps, quote, List.cons_append, List.append_assoc, List.singleton_append, readValue,
      readString_quote]
    rfl
  | .arr xs, hp, hk => readsBack_arr number num spaced hp (readsBackList xs hp hk)
  | .obj fields, hp, hk => readsBack_obj number num spaced hp hk.1 (readsBackFields fields hp hk.2)

theorem readsBackList : (xs : List Json) → PlainList xs → KeyedList xs →
    ∀ x ∈ xs, ReadsBack number num spaced x
  | [], _, _ => fun _ hx => absurd hx List.not_mem_nil
  | y :: ys, hp, hk => List.forall_mem_cons.2
    ⟨readsBack y hp.1 hk.1, readsBackList ys hp.2 hk.2⟩

theorem readsBackFields : (fields : List (String × Json)) → PlainFields fields →
    KeyedFields fields → ∀ f ∈ fields, ReadsBack number num spaced f.2
  | [], _, _ => fun _ hf => absurd hf List.not_mem_nil
  | (_, y) :: fields, hp, hk => List.forall_mem_cons.2
    ⟨readsBack y hp.1 hk.1, readsBackFields fields hp.2 hk.2⟩

end

mutual

theorem depth_le : (j : Json) → Plain j → depth j ≤ (dumps num spaced j).length
  | .null, _ => (by decide : 1 ≤ "null".toList.length)
  | .bool true, _ => (by decide : 1 ≤ "true".toList.length)
  | .bool false, _ => (by decide : 1 ≤ "false".toList.length)
  | .str s, _ => Nat.le_add_left 1 _
  | .arr xs, hp => by
    have h := depthList_le xs hp
    rw [depth, dumps, List.length_cons, List.length_append]
    omega
  | .obj fields, hp => by
    have h := depthFields_le fields hp
    rw [depth, dumps, List.length_cons, List.length_append]
    omega

theorem depthList_le : (xs : List Json) → PlainList xs →
    depthList xs ≤ (dumpsList num spaced xs).length
  | [], _ => Nat.zero_le 0
  | x :: xs, hp => by
    have hx := depth_le x hp.1
    have hxs := depthList_le xs hp.2
    rw [depthList, dumpsList, List.length_append]
    split_ifs with hnil
    · rw [hnil, depthList]
      omega
    · rw [List.length_append]
      omega

theorem depthFields_le : (fields : List (String × Json)) → PlainFields fields →
    depthFields fields ≤ (dumpsFields num spaced fields).length
  | [], _ => Nat.zero_le 0
  | (k, x) :: fields, hp => by
    have hx := depth_le x hp.1
    have hfields := depthFields_le fields hp.2
    rw [depthFields, dumpsFields]
    simp only [List.length_append]
    split_ifs with hnil
    · rw [hnil, depthFields]
      omega
    · rw [List.length_append]
      omega

end

theorem loads_dumps {j : Json} (hp : Plain j) (hk : Keyed j) :
    loads number (dumps num spaced j) = some j := by
  have hread := readsBack number num spaced j hp hk ((dumps num spaced j).length + 1) []
    (Nat.le_succ_of_le (depth_le num spaced j hp))
  rw [List.append_nil] at hread
  have hskip := skip_dumps num spaced hp []
  rw [List.append_nil] at hskip
  rw [loads, hskip, hread]
  rfl

end

end Varsten.Python.JsonAscii
