import Varsten.Python.Value

/-!
# Where code does not raise

The exact condition under which a computation returns, composed along its steps, and which
values the operations on dynamic values accept.
-/

namespace Varsten.Python

/-- The computation does not raise. -/
def Returns {α : Type} (x : Py α) : Prop := ∃ a, x = .ok a

section Py

variable {α β : Type} {x : Py α} {f : α → Py β} {P : Prop}

theorem returns_ok (a : α) : Returns (.ok a) := ⟨a, rfl⟩

theorem returns_pure (a : α) : Returns (pure a) := ⟨a, rfl⟩

theorem not_returns_error (e : PyError) : ¬Returns (.error e : Py α) := by
  rintro ⟨a, h⟩
  cases h

theorem returns_bind : Returns (x >>= f) ↔ ∃ a, x = .ok a ∧ Returns (f a) := by
  cases x with
  | error e => simp [Py.bind_error, Returns]
  | ok a => simp [Py.bind_ok]

/-- The rest returns under a condition that does not depend on the value before it. -/
theorem returns_bind_iff (h : ∀ a, x = .ok a → (Returns (f a) ↔ P)) :
    Returns (x >>= f) ↔ Returns x ∧ P := by
  rw [returns_bind]
  constructor
  · rintro ⟨a, hx, hf⟩
    exact ⟨⟨a, hx⟩, (h a hx).1 hf⟩
  · rintro ⟨⟨a, hx⟩, hp⟩
    exact ⟨a, hx, (h a hx).2 hp⟩

theorem returns_bind_total (h : ∀ a, Returns (f a)) : Returns (x >>= f) ↔ Returns x := by
  rw [returns_bind_iff fun a _ => iff_true_intro (h a), and_true]

theorem returns_foldlM {f : β → α → Py β} (fits : α → Prop) {xs : List α}
    (h : ∀ b, ∀ x ∈ xs, Returns (f b x) ↔ fits x) (b : β) :
    Returns (xs.foldlM f b) ↔ ∀ x ∈ xs, fits x := by
  induction xs generalizing b with
  | nil => exact iff_of_true (returns_pure b) (List.forall_mem_nil _)
  | cons x xs ih =>
    have hrest : ∀ b, Returns (xs.foldlM f b) ↔ ∀ y ∈ xs, fits y :=
      fun b => ih (fun b y hy => h b y (List.mem_cons_of_mem x hy)) b
    rw [List.foldlM_cons, returns_bind_iff fun b _ => hrest b, h b x List.mem_cons_self,
      List.forall_mem_cons]

theorem returns_mapM {f : α → Py β} (fits : α → Prop) {xs : List α}
    (h : ∀ x ∈ xs, Returns (f x) ↔ fits x) : Returns (xs.mapM f) ↔ ∀ x ∈ xs, fits x := by
  induction xs with
  | nil => exact iff_of_true ⟨[], rfl⟩ (List.forall_mem_nil _)
  | cons x xs ih =>
    rw [List.forall_mem_cons] at h ⊢
    rw [List.mapM_cons, returns_bind_iff fun _ _ => ?_, h.1]
    rw [returns_bind_total fun _ => returns_pure _, ih h.2]

theorem foldlM_keeps {f : β → α → Py β} {I : β → Prop} {xs : List α} {b b' : β}
    (step : ∀ {b a b'}, I b → f b a = .ok b' → I b') (hb : I b) (h : xs.foldlM f b = .ok b') :
    I b' := by
  induction xs generalizing b with
  | nil =>
    obtain rfl := Except.ok.inj h
    exact hb
  | cons x xs ih =>
    obtain ⟨b₁, h₁, h⟩ := Py.bind_eq_ok.1 h
    exact ih (step hb h₁) h

end Py

namespace Gen

variable {ω α β : Type} {m : Gen ω α} {f : α → Gen ω β} {P : Prop}

theorem lift_result (x : Py α) : (lift x : Gen ω α).result = x := rfl

theorem returns_bind_iff (h : ∀ a, m.result = .ok a → (Returns (f a).result ↔ P)) :
    Returns (m.bind f).result ↔ Returns m.result ∧ P := by
  unfold Returns at h ⊢
  simp only [bind_result_eq_ok]
  constructor
  · rintro ⟨b, a, ha, hb⟩
    exact ⟨⟨a, ha⟩, (h a ha).1 ⟨b, hb⟩⟩
  · rintro ⟨⟨a, ha⟩, hp⟩
    obtain ⟨b, hb⟩ := (h a ha).2 hp
    exact ⟨b, a, ha, hb⟩

theorem returns_bind_total (h : ∀ a, Returns (f a).result) :
    Returns (m.bind f).result ↔ Returns m.result := by
  rw [returns_bind_iff fun a _ => iff_true_intro (h a), and_true]

theorem returns_fold {f : β → α → Gen ω β} (fits : α → Prop) {as : List α}
    (h : ∀ b, ∀ a ∈ as, Returns (f b a).result ↔ fits a) (b : β) :
    Returns (fold f b as).result ↔ ∀ a ∈ as, fits a := by
  induction as generalizing b with
  | nil => exact iff_of_true (returns_ok b) (List.forall_mem_nil _)
  | cons a as ih =>
    have hrest : ∀ b, Returns (fold f b as).result ↔ ∀ a ∈ as, fits a :=
      fun b => ih (fun b y hy => h b y (List.mem_cons_of_mem a hy)) b
    rw [fold, returns_bind_iff fun b _ => hrest b, h b a List.mem_cons_self,
      List.forall_mem_cons]

def Ensures (m : Gen ω α) (Q : α → Prop) : Prop := ∀ a, m.result = .ok a → Q a

namespace Ensures

variable {Q : α → Prop} {R : β → Prop}

theorem ok {a : α} (h : Q a) : Ensures (Gen.ok a : Gen ω α) Q := by
  rintro b hb
  obtain rfl := Except.ok.inj hb
  exact h

theorem yield {w : ω} {a : α} (h : Q a) : Ensures (Gen.yield w a) Q := by
  rintro b hb
  obtain rfl := Except.ok.inj hb
  exact h

theorem bind (hm : Ensures m Q) (hf : ∀ a, Q a → Ensures (f a) R) : Ensures (m.bind f) R := by
  intro b hb
  obtain ⟨a, ha, hb⟩ := bind_result_eq_ok.1 hb
  exact hf a (hm a ha) b hb

theorem bind_any (hf : ∀ a, Ensures (f a) R) : Ensures (m.bind f) R :=
  bind (Q := fun _ => True) (fun _ _ => trivial) fun a _ => hf a

theorem ite {c : Prop} [Decidable c] {x y : Gen ω α} (hx : Ensures x Q) (hy : Ensures y Q) :
    Ensures (if c then x else y) Q := by
  split_ifs
  · exact hx
  · exact hy

theorem fold {f : β → α → Gen ω β} (step : ∀ b a, R b → Ensures (f b a) R) {b : β} (h : R b)
    (as : List α) : Ensures (Gen.fold f b as) R := by
  induction as generalizing b with
  | nil => exact ok h
  | cons a as ih => exact bind (step b a h) fun b hb => ih hb

end Ensures

end Gen

/-! ## What the operations accept -/

namespace Json

/-- What a use of `j or default` accepts where the default is fine. -/
def orDefault (fits : Json → Bool) (j : Json) : Bool := !j.truthy || fits j

def isNumeral : Json → Bool
  | .bool _ | .int _ | .float _ => true
  | .str s => (parseInt (((s.toList.dropWhile isBlank).reverse.dropWhile isBlank).reverse)).isSome
  | _ => false

def isIterable : Json → Bool
  | .arr _ | .str _ | .obj _ => true
  | _ => false

def isHashable : Json → Bool
  | .arr _ | .obj _ => false
  | _ => true

def isText : Json → Bool
  | .str _ => true
  | _ => false

def elements (j : Json) : List Json := j.iter.toOption.getD []

variable {j d : Json} {k : String}

theorem orElse_fits (fits : Json → Bool) (h : fits d = true) :
    fits (j.orElse d) = orDefault fits j := by
  rw [orElse, orDefault]
  cases j.truthy with
  | true => rfl
  | false => exact h

theorem returns_get : Returns (j.get k) ↔ j.isDict = true := by
  cases j with
  | obj fields => exact iff_of_true (returns_ok _) rfl
  | _ => exact iff_of_false (not_returns_error _) Bool.false_ne_true

theorem get_of_dict (h : j.isDict = true) (k : String) : j.get k = .ok (j.val k) := by
  cases j with
  | obj fields => rfl
  | _ => cases h

theorem val_of_not_dict (h : j.isDict = false) (k : String) : j.val k = .null := by
  cases j with
  | obj fields => cases h
  | _ => rfl

theorem get_bind {α : Type} (f : Json → Py α) :
    Returns (j.get k >>= f) ↔ j.isDict = true ∧ Returns (f (j.val k)) := by
  rw [← returns_get (k := k)]
  exact returns_bind_iff fun a ha => by rw [get_eq_ok ha]

theorem val_orElse_empty : (j.orElse (.obj [])).val k = j.val k := by
  rw [orElse]
  split_ifs with h
  · rfl
  · cases j with
    | obj fields =>
      cases fields with
      | nil => rfl
      | cons f fields => exact absurd rfl h
    | _ => rfl

theorem returns_toInt : Returns j.toInt ↔ j.isNumeral = true := by
  cases j with
  | bool b => exact iff_of_true (returns_ok _) rfl
  | int n => exact iff_of_true (returns_ok _) rfl
  | float x => exact iff_of_true (returns_ok _) rfl
  | str s =>
    rw [toInt, isNumeral]
    cases parseInt (((s.toList.dropWhile isBlank).reverse.dropWhile isBlank).reverse) with
    | some n => exact iff_of_true (returns_ok n) rfl
    | none => exact iff_of_false (not_returns_error _) Bool.false_ne_true
  | _ => exact iff_of_false (not_returns_error _) Bool.false_ne_true

theorem returns_iter : Returns j.iter ↔ j.isIterable = true := by
  cases j with
  | arr xs => exact iff_of_true (returns_ok _) rfl
  | str s => exact iff_of_true (returns_ok _) rfl
  | obj fields => exact iff_of_true (returns_ok _) rfl
  | _ => exact iff_of_false (not_returns_error _) Bool.false_ne_true

theorem iter_eq {xs : List Json} (h : j.iter = .ok xs) : xs = j.elements := by
  rw [elements, h]
  rfl

theorem elements_falsy (h : j.truthy = false) : j.elements = [] := by
  cases j with
  | arr xs =>
    cases xs with
    | nil => rfl
    | cons x xs => cases h
  | str t =>
    have hempty : t = "" := by simpa [truthy] using h
    rw [hempty]
    rfl
  | obj fields =>
    cases fields with
    | nil => rfl
    | cons f fields => cases h
  | _ => rfl

theorem returns_hashKey : Returns j.hashKey ↔ j.isHashable = true := by
  cases j with
  | arr xs => exact iff_of_false (not_returns_error _) Bool.false_ne_true
  | obj fields => exact iff_of_false (not_returns_error _) Bool.false_ne_true
  | _ => exact iff_of_true (returns_ok _) rfl

theorem returns_appendStr {s : String} : Returns (appendStr s j) ↔ j.isText = true := by
  cases j with
  | str t => exact iff_of_true (returns_ok _) rfl
  | _ => exact iff_of_false (not_returns_error _) Bool.false_ne_true

theorem returns_toInt_orElse {n : ℤ} :
    Returns (j.orElse (.int n)).toInt ↔ j.orDefault isNumeral = true := by
  rw [returns_toInt, orElse_fits isNumeral rfl]

theorem returns_iter_orElse :
    Returns (j.orElse (.arr [])).iter ↔ j.orDefault isIterable = true := by
  rw [returns_iter, orElse_fits isIterable rfl]

theorem get_orElse_bind {α : Type} (f : Json → Py α) :
    Returns ((j.orElse (.obj [])).get k >>= f) ↔
      j.orDefault isDict = true ∧ Returns (f (j.val k)) := by
  rw [get_bind, orElse_fits isDict rfl, val_orElse_empty]

end Json

end Varsten.Python
