import Varsten.Python.Value

/-!
# What a generator emits

A run ends normally, and all events up to its end satisfy a predicate together with its
result. The rules follow the generator's own operations.
-/

namespace Varsten.Python.Gen

variable {ω α β : Type}

def Emits (run : Gen ω α) (before : List ω) (Q : List ω → α → Prop) : Prop :=
  ∃ out a, run = ⟨out, .ok a⟩ ∧ Q (before ++ out) a

variable {before : List ω} {P Q : List ω → α → Prop}

theorem Emits.events {out : List ω} {a : α} (h : Q (before ++ out) a) :
    Emits ⟨out, .ok a⟩ before Q := ⟨out, a, rfl, h⟩

theorem Emits.ok {a : α} (h : Q before a) : Emits (Gen.ok a) before Q :=
  .events (by simpa using h)

theorem Emits.yield {w : ω} {a : α} (h : Q (before ++ [w]) a) : Emits (Gen.yield w a) before Q :=
  .events h

theorem Emits.mono {run : Gen ω α} (h : Emits run before P) (hPQ : ∀ out a, P out a → Q out a) :
    Emits run before Q := by
  obtain ⟨out, a, hrun, hP⟩ := h
  exact ⟨out, a, hrun, hPQ _ _ hP⟩

theorem Emits.bind {m : Gen ω α} {f : α → Gen ω β} {R : List ω → β → Prop}
    (hm : Emits m before P) (hf : ∀ out a, P out a → Emits (f a) out R) :
    Emits (m.bind f) before R := by
  obtain ⟨out, a, hrun, hP⟩ := hm
  obtain ⟨out', b, hrun', hR⟩ := hf _ _ hP
  refine ⟨out ++ out', b, by rw [bind_ok hrun, hrun'], ?_⟩
  rwa [← List.append_assoc]

theorem Emits.bind_lift {x : Py α} {a : α} {f : α → Gen ω β} {R : List ω → β → Prop}
    (hx : x = .ok a) (h : Emits (f a) before R) : Emits ((Gen.lift x).bind f) before R := by
  subst hx
  exact h

theorem Emits.ite {c : Prop} [Decidable c] {x y : Gen ω α} (hx : c → Emits x before Q)
    (hy : ¬ c → Emits y before Q) : Emits (if c then x else y) before Q := by
  split_ifs with h
  · exact hx h
  · exact hy h

theorem Emits.fold_seen {f : β → α → Gen ω β} {I : List α → List ω → β → Prop} {as : List α}
    (seen : List α) (step : ∀ a ∈ as, ∀ seen out b, I seen out b →
      Emits (f b a) out (I (seen ++ [a]))) {b : β} (h : I seen before b) :
    Emits (Gen.fold f b as) before (I (seen ++ as)) := by
  induction as generalizing before seen b with
  | nil => exact .ok (by simpa using h)
  | cons a as ih =>
    rw [List.forall_mem_cons] at step
    refine .bind (step.1 _ _ _ h) fun out b hI => ?_
    have hrest := ih (seen ++ [a]) step.2 hI
    rwa [List.append_assoc] at hrest

theorem Emits.fold {f : β → α → Gen ω β} {I : List ω → β → Prop} {as : List α}
    (step : ∀ a ∈ as, ∀ out b, I out b → Emits (f b a) out I) {b : β} (h : I before b) :
    Emits (Gen.fold f b as) before I :=
  .fold_seen (I := fun _ => I) [] (fun a ha _ => step a ha) h

end Varsten.Python.Gen
