import Varsten.Machine.Table

/-!
# Rows in force

Rows take effect at a time, and the one in force is the latest that has. A lookup by time is
settled when what it finds later was already found before, from the time it took effect.
-/

namespace Varsten.Machine.Effective

variable {ρ α β τ : Type} [LinearOrder τ]

def inForce (effective : ρ → τ) (rows : List ρ) (time : τ) : Option ρ :=
  (rows.filter fun r => effective r ≤ time).argmax effective

structure Settled (effective : α → τ) (find : τ → Option α) : Prop where
  le : ∀ {time a}, find time = some a → effective a ≤ time
  earlier : ∀ {lo hi a}, lo ≤ hi → find hi = some a → effective a ≤ lo → find lo = some a
  none : ∀ {lo hi}, lo ≤ hi → find hi = none → find lo = none

theorem settled_inForce (effective : ρ → τ) (rows : List ρ) :
    Settled effective (inForce effective rows) where
  le h := by
    have hmem := List.argmax_mem h
    simpa using (List.mem_filter.1 hmem).2
  earlier {lo hi a} hle h ha := by
    have hlo : (rows.filter fun r => effective r ≤ lo) =
        (rows.filter fun r => effective r ≤ hi).filter fun r => effective r ≤ lo := by
      rw [List.filter_filter]
      refine List.filter_congr fun r _ => ?_
      rw [← Bool.decide_and]
      exact decide_eq_decide.2 ⟨fun hr => ⟨hr, hr.trans hle⟩, And.left⟩
    unfold inForce
    rw [hlo]
    exact Table.argmax_filter h (decide_eq_true ha)
  none {lo hi} hle h := by
    rw [inForce, List.argmax_eq_none, List.filter_eq_nil_iff] at h ⊢
    intro r hr hlo
    exact h r hr (decide_eq_true ((of_decide_eq_true hlo).trans hle))

theorem Settled.orElse {effective : α → τ} {f g : τ → Option α} (hf : Settled effective f)
    (hg : Settled effective g) : Settled effective fun time => (f time).orElse fun _ => g time where
  le {time a} h := by
    rcases (Option.orElse_eq_some _ _ _).1 h with h | ⟨-, h⟩
    · exact hf.le h
    · exact hg.le h
  earlier {lo hi a} hle h ha := by
    rcases (Option.orElse_eq_some _ _ _).1 h with h | ⟨hn, h⟩
    · exact (Option.orElse_eq_some _ _ _).2 (.inl (hf.earlier hle h ha))
    · exact (Option.orElse_eq_some _ _ _).2 (.inr ⟨hf.none hle hn, hg.earlier hle h ha⟩)
  none {lo hi} hle h := by
    obtain ⟨hfn, hgn⟩ := (Option.orElse_eq_none _ _).1 h
    exact (Option.orElse_eq_none _ _).2 ⟨hf.none hle hfn, hg.none hle hgn⟩

theorem Settled.map {effective : β → τ} {f : τ → Option α} (g : α → β)
    (hf : Settled (effective ∘ g) f) : Settled effective fun time => (f time).map g where
  le h := by
    obtain ⟨a, ha, rfl⟩ := Option.map_eq_some_iff.1 h
    exact hf.le ha
  earlier hle h hb := by
    obtain ⟨a, ha, rfl⟩ := Option.map_eq_some_iff.1 h
    exact Option.map_eq_some_iff.2 ⟨a, hf.earlier hle ha hb, rfl⟩
  none hle h := Option.map_eq_none_iff.2 (hf.none hle (Option.map_eq_none_iff.1 h))

def Changes (effective : α → τ) (find : τ → Option α) (g : α → β) (t u : τ) : Prop :=
  ∃ a, find (max t u) = some a ∧ min t u < effective a ∧ (find (min t u)).map g ≠ some (g a)

theorem Settled.map_eq_iff {effective : α → τ} {find : τ → Option α} (h : Settled effective find)
    (g : α → β) (t u : τ) :
    (find t).map g = (find u).map g ↔ ¬ Changes effective find g t u := by
  have hends : (find t).map g = (find u).map g ↔
      (find (min t u)).map g = (find (max t u)).map g := by
    rcases le_total t u with hle | hle
    · rw [min_eq_left hle, max_eq_right hle]
    · rw [min_eq_right hle, max_eq_left hle, eq_comm]
  rw [hends]
  constructor
  · rintro heq ⟨a, ha, -, hne⟩
    exact hne (by rw [heq, ha, Option.map_some])
  · intro hno
    cases hfind : find (max t u) with
    | none => rw [h.none min_le_max hfind]
    | some a =>
      by_cases ha : effective a ≤ min t u
      · rw [h.earlier min_le_max hfind ha]
      · by_contra hne
        exact hno ⟨a, hfind, not_le.1 ha, hne⟩

end Varsten.Machine.Effective
