import Mathlib
import Varsten.Python.Json

/-!
# Operations on dynamic values

The Python operations that code reading parsed JSON applies without checking
types first. Each either returns or raises, and says which exception.
-/

namespace Varsten.Python

inductive PyError where
  | attributeError
  | typeError
  | valueError
  | keyError
  | indexError
deriving DecidableEq

abbrev Py := Except PyError

theorem Py.bind_ok {α β : Type} (a : α) (f : α → Py β) : (Except.ok a >>= f) = f a := rfl

theorem Py.bind_error {α β : Type} (e : PyError) (f : α → Py β) :
    ((Except.error e : Py α) >>= f) = .error e := rfl

theorem Py.bind_eq_ok {α β : Type} {x : Py α} {f : α → Py β} {b : β} :
    (x >>= f) = .ok b ↔ ∃ a, x = .ok a ∧ f a = .ok b := by
  cases x with
  | error e => simp [Py.bind_error]
  | ok a => simp [Py.bind_ok]

theorem Py.foldlM_simulates {α β γ : Type} {f : β → α → Py β} {g : γ → α → γ} {R : β → γ → Prop}
    (step : ∀ {b c a b'}, R b c → f b a = .ok b' → R b' (g c a)) {xs : List α} {b b' : β} {c : γ}
    (hr : R b c) (h : xs.foldlM f b = .ok b') : R b' (xs.foldl g c) := by
  induction xs generalizing b c with
  | nil =>
    obtain rfl := Except.ok.inj h
    exact hr
  | cons x xs ih =>
    obtain ⟨b₁, h₁, h⟩ := Py.bind_eq_ok.1 h
    exact ih (step hr h₁) h

theorem Py.mapM_cons_ok {α β : Type} {f : α → Py β} {x : α} {xs : List α} {us : List β}
    (h : (x :: xs).mapM f = .ok us) :
    ∃ u vs, f x = .ok u ∧ xs.mapM f = .ok vs ∧ us = u :: vs := by
  rw [List.mapM_cons] at h
  obtain ⟨u, hu, h⟩ := Py.bind_eq_ok.1 h
  obtain ⟨vs, hvs, h⟩ := Py.bind_eq_ok.1 h
  exact ⟨u, vs, hu, hvs, (Except.ok.inj h).symm⟩

theorem Py.mapM_forall₂ {α β : Type} {f : α → Py β} {R : α → α → Prop} {S : β → β → Prop}
    (step : ∀ {x y u v}, R x y → f x = .ok u → f y = .ok v → S u v) {xs ys : List α}
    {us vs : List β} (h : List.Forall₂ R xs ys) (hu : xs.mapM f = .ok us)
    (hv : ys.mapM f = .ok vs) : List.Forall₂ S us vs := by
  induction h generalizing us vs with
  | nil =>
    obtain rfl := Except.ok.inj hu
    obtain rfl := Except.ok.inj hv
    exact .nil
  | cons hxy _ ih =>
    obtain ⟨u, us, hu₁, hus, rfl⟩ := Py.mapM_cons_ok hu
    obtain ⟨v, vs, hv₁, hvs, rfl⟩ := Py.mapM_cons_ok hv
    exact .cons (step hxy hu₁ hv₁) (ih hus hvs)

structure Gen (ω α : Type) where
  out : List ω
  result : Py α

/-- Parts of the runtime that stay parameters: `json.loads`, `none` where it raises
`JSONDecodeError`; `json.dumps` without spaces; `str` of a value that is no string. Texts on which
`json.loads` raises anything else, nested too deep or with an integer of too many digits, and
values with an infinity, a NaN or a lone surrogate are not among those they are given. -/
structure Runtime where
  loads : List Char → Option Json
  dumps : Json → String
  repr : Json → String
  repr_ne : ∀ j, repr j ≠ ""

theorem none_ne (_ : Json) : "None" ≠ "" := by decide

def Runtime.blank : Runtime := ⟨fun _ => none, fun _ => "", fun _ => "None", none_ne⟩

def Runtime.str (rt : Runtime) : Json → String
  | .str s => s
  | j => rt.repr j

namespace Gen

variable {ω α β : Type}

def ok (a : α) : Gen ω α := ⟨[], .ok a⟩

def yield (w : ω) (a : α) : Gen ω α := ⟨[w], .ok a⟩

def lift (x : Py α) : Gen ω α := ⟨[], x⟩

def bind (x : Gen ω α) (f : α → Gen ω β) : Gen ω β :=
  match x.result with
  | .ok a => ⟨x.out ++ (f a).out, (f a).result⟩
  | .error e => ⟨x.out, .error e⟩

instance : Monad (Gen ω) where
  pure := ok
  bind := bind

/-- A `for` loop over `as` whose body yields and rebinds the state. -/
def fold (f : β → α → Gen ω β) : β → List α → Gen ω β
  | b, [] => ok b
  | b, a :: as => (f b a).bind fun b => fold f b as

theorem lift_ok_bind (a : α) (f : α → Gen ω β) : (lift (.ok a)).bind f = f a := rfl

theorem bind_result_eq_ok {x : Gen ω α} {f : α → Gen ω β} {b : β} :
    (x.bind f).result = .ok b ↔ ∃ a, x.result = .ok a ∧ (f a).result = .ok b := by
  unfold bind
  cases x.result with
  | error e => simp
  | ok a => simp

theorem fold_append {f : β → α → Gen ω β} {as as' : List α} {b b₁ b₂ : β}
    (h : (fold f b as).result = .ok b₁) (h' : (fold f b₁ as').result = .ok b₂) :
    (fold f b (as ++ as')).result = .ok b₂ := by
  induction as generalizing b with
  | nil =>
    obtain rfl := Except.ok.inj h
    exact h'
  | cons a as ih =>
    obtain ⟨b', hb', h⟩ := bind_result_eq_ok.1 h
    exact bind_result_eq_ok.2 ⟨b', hb', ih h⟩

theorem bind_ok {x : Gen ω α} {f : α → Gen ω β} {out : List ω} {a : α}
    (h : x = ⟨out, .ok a⟩) : x.bind f = ⟨out ++ (f a).out, (f a).result⟩ := by
  rw [h, bind]

theorem bind_eq {x : Gen ω α} {f : α → Gen ω β} {out : List ω} {b : β}
    (h : x.bind f = ⟨out, .ok b⟩) :
    ∃ out₁ out₂ a, x = ⟨out₁, .ok a⟩ ∧ f a = ⟨out₂, .ok b⟩ ∧ out = out₁ ++ out₂ := by
  obtain ⟨out₁, result⟩ := x
  cases result with
  | error e => cases h
  | ok a =>
    refine ⟨out₁, (f a).out, a, rfl, ?_, (congrArg Gen.out h).symm⟩
    rw [← show (f a).result = .ok b from congrArg Gen.result h]

theorem bind_pure (x : Gen ω α) : x.bind ok = x := by
  obtain ⟨out, result⟩ := x
  cases result with
  | error e => rfl
  | ok a => simp [bind, ok]

theorem fold_single (f : β → α → Gen ω β) (b : β) (a : α) : fold f b [a] = f b a :=
  bind_pure (f b a)

theorem fold_relates {f : β → α → Gen ω β} {R : β → List ω → β → Prop} (refl : ∀ b, R b [] b)
    (trans : ∀ {b₁ b₂ b₃ out₁ out₂}, R b₁ out₁ b₂ → R b₂ out₂ b₃ → R b₁ (out₁ ++ out₂) b₃)
    (step : ∀ {b a out b'}, f b a = ⟨out, .ok b'⟩ → R b out b') {as : List α} {b b' : β}
    {out : List ω} (h : fold f b as = ⟨out, .ok b'⟩) : R b out b' := by
  induction as generalizing b out with
  | nil =>
    obtain rfl := Except.ok.inj (congrArg Gen.result h)
    obtain rfl : [] = out := congrArg Gen.out h
    exact refl b
  | cons a as ih =>
    obtain ⟨out₁, out₂, b₁, h₁, h₂, rfl⟩ := bind_eq h
    exact trans (step h₁) (ih h₂)

theorem fold_simulates {γ : Type} {f : β → α → Gen ω β} {g : γ → α → γ} {R : β → γ → Prop}
    (step : ∀ {b c a b'}, R b c → (f b a).result = .ok b' → R b' (g c a)) {as : List α} {b b' : β}
    {c : γ} (hr : R b c) (h : (fold f b as).result = .ok b') : R b' (as.foldl g c) := by
  induction as generalizing b c with
  | nil =>
    obtain rfl := Except.ok.inj h
    exact hr
  | cons a as ih =>
    obtain ⟨b₁, h₁, h⟩ := bind_result_eq_ok.1 h
    exact ih (step hr h₁) h

end Gen

namespace Json

def truthy : Json → Bool
  | .null => false
  | .bool b => b
  | .int n => n ≠ 0
  | .float x => x ≠ 0
  | .str s => s ≠ ""
  | .arr xs => !xs.isEmpty
  | .obj fields => !fields.isEmpty

theorem str_ne_of_truthy (rt : Runtime) {j : Json} (h : j.truthy = true) : rt.str j ≠ "" := by
  cases j with
  | str s => exact of_decide_eq_true h
  | _ => exact rt.repr_ne _

/-- `a or b`. -/
def orElse (a b : Json) : Json := if a.truthy then a else b

def isDict : Json → Bool
  | .obj _ => true
  | _ => false

/-- `d[k]` on the items of a dict. -/
def item (k : String) : List (String × Json) → Option Json
  | [] => none
  | f :: fields => if f.1 = k then some f.2 else item k fields

/-- `j.get(k)`, with `None` when the key is missing. -/
def get (j : Json) (k : String) : Py Json :=
  match j with
  | .obj fields => .ok ((item k fields).getD .null)
  | _ => .error .attributeError

/-- The value `j.get(k)` returns where it returns. -/
def val (j : Json) (k : String) : Json :=
  match j with
  | .obj fields => (item k fields).getD .null
  | _ => .null

@[simp] theorem val_obj (fields : List (String × Json)) (k : String) :
    (Json.obj fields).val k = (item k fields).getD .null := rfl

theorem get_eq_ok {j v : Json} {k : String} (h : j.get k = .ok v) : v = j.val k := by
  cases j with
  | obj fields => exact (Except.ok.inj h).symm
  | _ => cases h

/-- `j.get(k, d)`. -/
def getD (j : Json) (k : String) (d : Json) : Py Json :=
  match j with
  | .obj fields => .ok ((item k fields).getD d)
  | _ => .error .attributeError

/-- `j[k]`. -/
def subscript (j : Json) (k : String) : Py Json :=
  match j with
  | .obj fields => match item k fields with
    | some v => .ok v
    | none => .error .keyError
  | _ => .error .typeError

/-- `j[0]`. -/
def head : Json → Py Json
  | .arr (x :: _) => .ok x
  | .arr [] => .error .indexError
  | .str s => match s.toList with
    | c :: _ => .ok (.str (String.singleton c))
    | [] => .error .indexError
  | .obj _ => .error .keyError
  | _ => .error .typeError

/-- `j[k] if k in j`. -/
def member (j : Json) (k : String) : Py (Option Json) :=
  match j with
  | .obj fields => .ok (item k fields)
  | _ => .error .attributeError

/-- The items a `for` loop visits: elements, characters or keys. -/
def iter : Json → Py (List Json)
  | .arr xs => .ok xs
  | .str s => .ok (s.toList.map fun c => .str (String.singleton c))
  | .obj fields => .ok (fields.map fun f => .str f.1)
  | _ => .error .typeError

def zeros : List ℕ :=
  [0x0030, 0x0660, 0x06f0, 0x07c0, 0x0966, 0x09e6, 0x0a66, 0x0ae6, 0x0b66, 0x0be6, 0x0c66, 0x0ce6,
    0x0d66, 0x0de6, 0x0e50, 0x0ed0, 0x0f20, 0x1040, 0x1090, 0x17e0, 0x1810, 0x1946, 0x19d0,
    0x1a80, 0x1a90, 0x1b50, 0x1bb0, 0x1c40, 0x1c50, 0xa620, 0xa8d0, 0xa900, 0xa9d0, 0xa9f0,
    0xaa50, 0xabf0, 0xff10, 0x104a0, 0x10d30, 0x11066, 0x110f0, 0x11136, 0x111d0, 0x112f0,
    0x11450, 0x114d0, 0x11650, 0x116c0, 0x11730, 0x118e0, 0x11950, 0x11c50, 0x11d50, 0x11da0,
    0x11f50, 0x16a60, 0x16ac0, 0x16b50, 0x1d7ce, 0x1d7d8, 0x1d7e2, 0x1d7ec, 0x1d7f6, 0x1e140,
    0x1e2f0, 0x1e4f0, 0x1e950, 0x1fbf0]

def decimal (c : Char) : Option ℕ :=
  (zeros.find? fun z => z ≤ c.toNat && c.toNat < z + 10).map (c.toNat - ·)

/-- The digits of `int(s)`: single underscores may stand between two digits. -/
def digits (value : ℤ) (afterDigit : Bool) : List Char → Option ℤ
  | [] => if afterDigit then some value else none
  | '_' :: cs => if afterDigit ∧ cs ≠ [] then digits value false cs else none
  | c :: cs => (decimal c).bind fun d => digits (value * 10 + d) true cs

/-- `sys.int_info.default_max_str_digits`. -/
def maxDigits : ℕ := 4300

def parseInt (s : List Char) : Option ℤ :=
  if maxDigits < s.countP (fun c => (decimal c).isSome) then none
  else match s with
    | '-' :: cs => (digits 0 false cs).map fun n => -n
    | '+' :: cs => digits 0 false cs
    | cs => digits 0 false cs

/-- What `int(s)` skips at both ends: the separators of ASCII stay. -/
def isBlank (c : Char) : Bool :=
  c ∈ ['\t', '\n', '\x0b', '\x0c', '\r', ' ', '\u0085', '\u00a0', '\u1680', '\u2000', '\u2001',
    '\u2002', '\u2003', '\u2004', '\u2005', '\u2006', '\u2007', '\u2008', '\u2009', '\u200a',
    '\u2028', '\u2029', '\u202f', '\u205f', '\u3000']

/-- `int(j)`. A float is cut off towards zero. -/
def toInt : Json → Py ℤ
  | .bool b => .ok (if b then 1 else 0)
  | .int n => .ok n
  | .float x => .ok (x.num.tdiv x.den)
  | .str s =>
    match parseInt (((s.toList.dropWhile isBlank).reverse.dropWhile isBlank).reverse) with
    | some n => .ok n
    | none => .error .valueError
  | _ => .error .typeError

example : (Json.str " -1_\u0665\u3000").toInt = .ok (-15) := by decide +kernel

def hashKey (j : Json) : Py Json :=
  match j with
  | .bool b => .ok (.float (if b then 1 else 0))
  | .int n => .ok (.float n)
  | .arr _ | .obj _ => .error .typeError
  | j => .ok j

/-- `s += j`. -/
def appendStr (s : String) (j : Json) : Py String :=
  match j with
  | .str t => .ok (s ++ t)
  | _ => .error .typeError

/-- The text of the parts of type `text`, as a `join` over them reads it. -/
def textParts : List Json → Py (List String)
  | [] => .ok []
  | .obj fields :: parts =>
    if (item "type" fields).getD .null = .str "text" then
      match (item "text" fields).getD (.str "") with
      | .str t => return t :: (← textParts parts)
      | _ => .error .typeError
    else textParts parts
  | _ :: parts => textParts parts

/-- The value of a number; `True` and `False` are 1 and 0. -/
def num? : Json → Option ℚ
  | .bool b => some (if b then 1 else 0)
  | .int n => some n
  | .float x => some x
  | _ => none

def scalarEq (a b : Json) : Bool :=
  match a.num?, b.num? with
  | some x, some y => x = y
  | none, none => a = b
  | _, _ => false

mutual

/-- `a == b`: numbers by value, dicts whatever the order of their items. -/
def pyEq : Json → Json → Bool
  | .arr xs, b => match b with
    | .arr ys => pyEqList xs ys
    | _ => false
  | .obj fs, b => match b with
    | .obj gs => fs.length = gs.length && pyEqFields fs gs
    | _ => false
  | a, b => scalarEq a b

def pyEqList : List Json → List Json → Bool
  | [], [] => true
  | x :: xs, y :: ys => pyEq x y && pyEqList xs ys
  | _, _ => false

def pyEqFields : List (String × Json) → List (String × Json) → Bool
  | [], _ => true
  | (k, x) :: fs, gs =>
    (match item k gs with
      | some y => pyEq x y
      | none => false) && pyEqFields fs gs

end

/-- `d[k] = v`: replaced in place or appended. -/
def setItem (k : String) (v : Json) : List (String × Json) → List (String × Json)
  | [] => [(k, v)]
  | f :: fields => if f.1 = k then (k, v) :: fields else f :: setItem k v fields

theorem item_setItem_self (k : String) (v : Json) (fields : List (String × Json)) :
    item k (setItem k v fields) = some v := by
  induction fields with
  | nil => simp [setItem, item]
  | cons f fields ih =>
    rw [setItem]
    split_ifs with h
    · simp [item]
    · simp [item, h, ih]

theorem item_setItem_of_ne {k l : String} (h : k ≠ l) (v : Json)
    (fields : List (String × Json)) : item l (setItem k v fields) = item l fields := by
  induction fields with
  | nil => simp [setItem, item, h]
  | cons f fields ih =>
    rw [setItem]
    split_ifs with hf
    · simp [item, h, hf]
    · simp only [item, ih]

/-! ## Reading objects -/

def HasItems (j : Json) (items : List (String × Json)) : Prop :=
  ∃ fields, j = .obj fields ∧ ∀ p ∈ items, Json.item p.1 fields = some p.2

theorem HasItems.get {j : Json} {items : List (String × Json)} (h : HasItems j items)
    {k : String} {v : Json} (hk : (k, v) ∈ items) : j.get k = .ok v := by
  obtain ⟨fields, rfl, hf⟩ := h
  rw [Json.get, hf (k, v) hk]
  rfl

theorem HasItems.val {j : Json} {items : List (String × Json)} (h : HasItems j items)
    {k : String} {v : Json} (hk : (k, v) ∈ items) : j.val k = v := by
  obtain ⟨fields, rfl, hf⟩ := h
  rw [Json.val_obj, hf (k, v) hk]
  rfl

theorem HasItems.orElse {j : Json} {items : List (String × Json)} (h : HasItems j items) :
    j.orElse (.obj []) = j := by
  obtain ⟨fields, rfl, hf⟩ := h
  cases fields with
  | nil => rfl
  | cons f fields => rfl

theorem truthy_str (text : String) : (Json.str text).truthy = true ↔ text ≠ "" := by
  simp [Json.truthy]

theorem str_orElse_empty (text : String) : (Json.str text).orElse (.str "") = .str text := by
  rw [Json.orElse]
  split_ifs with h
  · rfl
  · rw [truthy_str, not_not] at h
    rw [h]

theorem obj_orElse_empty (fields : List (String × Json)) :
    (Json.obj fields).orElse (.obj []) = .obj fields := by
  cases fields <;> rfl

end Json

end Varsten.Python
