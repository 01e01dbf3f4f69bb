import Varsten.Python.Equality

/-!
# The same JSON value

`==` takes `True` for 1 and `False` for 0. Two values that it finds equal are the same JSON value
exactly where no boolean meets a number.
-/

namespace Varsten.Python.Json

def isBool : Json → Bool
  | .bool _ => true
  | _ => false

def isNumber : Json → Bool
  | .int _ | .float _ => true
  | _ => false

mutual

/-- Numbers by value, dicts whatever the order of their items, and a boolean is no number. -/
def sameValue : Json → Json → Bool
  | .arr xs, b => match b with
    | .arr ys => sameValues xs ys
    | _ => false
  | .obj fs, b => match b with
    | .obj gs => fs.length = gs.length && sameItems fs gs
    | _ => false
  | a, b => a.isBool == b.isBool && scalarEq a b

def sameValues : List Json → List Json → Bool
  | [], [] => true
  | x :: xs, y :: ys => sameValue x y && sameValues xs ys
  | _, _ => false

def sameItems : List (String × Json) → List (String × Json) → Bool
  | [], _ => true
  | (k, x) :: fs, gs =>
    (match item k gs with
      | some y => sameValue x y
      | none => false) && sameItems fs gs

end

mutual

def mixes : Json → Json → Bool
  | .arr xs, b => match b with
    | .arr ys => mixesAny xs ys
    | _ => false
  | .obj fs, b => match b with
    | .obj gs => mixesItem fs gs
    | _ => false
  | a, b => a.isBool && b.isNumber || a.isNumber && b.isBool

def mixesAny : List Json → List Json → Bool
  | x :: xs, y :: ys => mixes x y || mixesAny xs ys
  | _, _ => false

def mixesItem : List (String × Json) → List (String × Json) → Bool
  | [], _ => false
  | (k, x) :: fs, gs =>
    (match item k gs with
      | some y => mixes x y
      | none => false) || mixesItem fs gs

end

mutual

theorem sameValue_eq : (a b : Json) → sameValue a b = (pyEq a b && !mixes a b)
  | .arr xs, b => by
    cases b with
    | arr ys => exact sameValues_eq xs ys
    | _ => rfl
  | .obj fs, b => by
    cases b with
    | obj gs => rw [sameValue, pyEq, mixes, sameItems_eq fs gs, Bool.and_assoc]
    | _ => rfl
  | .null, b | .bool _, b | .int _, b | .float _, b | .str _, b => by
    cases b <;> simp [sameValue, pyEq, mixes, scalarEq, num?, isBool, isNumber]

theorem sameValues_eq : (xs ys : List Json) →
    sameValues xs ys = (pyEqList xs ys && !mixesAny xs ys)
  | [], [] | [], _ :: _ | _ :: _, [] => rfl
  | x :: xs, y :: ys => by
    rw [sameValues, pyEqList, mixesAny, sameValue_eq x y, sameValues_eq xs ys]
    cases pyEq x y <;> cases mixes x y <;> simp

theorem sameItems_eq : (fs gs : List (String × Json)) →
    sameItems fs gs = (pyEqFields fs gs && !mixesItem fs gs)
  | [], _ => rfl
  | (k, x) :: fs, gs => by
    rw [sameItems, pyEqFields, mixesItem, sameItems_eq fs gs]
    cases item k gs with
    | none => rfl
    | some y =>
      dsimp only
      rw [sameValue_eq x y]
      cases pyEq x y <;> cases mixes x y <;> simp

end

theorem sameValue_iff {a b : Json} : sameValue a b = true ↔ pyEq a b = true ∧ mixes a b = false := by
  rw [sameValue_eq, Bool.and_eq_true, Bool.not_eq_true']

theorem sameValue_null {a : Json} : sameValue a .null = true ↔ a = .null := by
  cases a <;> simp [sameValue, scalarEq, num?, isBool]

example : pyEq (.obj [("ok", .bool true)]) (.obj [("ok", .int 1)]) = true ∧
    sameValue (.obj [("ok", .bool true)]) (.obj [("ok", .int 1)]) = false := by decide +kernel

end Varsten.Python.Json
