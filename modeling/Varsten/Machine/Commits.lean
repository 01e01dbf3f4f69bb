import Varsten.Machine.Runs

/-!
# Operations that read before they commit

An operation reads the store in parts, at several times, and commits later. It writes what follows
from what it has read over what is there then. Where that is what the operation does at once, a run
of overlapping operations is the run of its commits.
-/

namespace Varsten.Machine.Commits

open Runs

variable {σ ι ρ : Type}

/-- An operation that has begun, and what it has read. -/
structure Flight (σ ι : Type) where
  input : ι
  view : σ

structure Store (σ ι : Type) where
  base : σ
  flights : List (Flight σ ι)

inductive Event (ι ρ : Type) where
  | begins (a : ι)
  | reads (n : ℕ) (part : ρ)
  | commits (n : ℕ)

section Steps

variable (read : ρ → σ → σ → σ) (commit : Flight σ ι → σ → Option σ)

/-- An operation begins, reads a part again or commits. One that raises changes nothing. -/
def step (t : Store σ ι) : Event ι ρ → Store σ ι
  | .begins a => { t with flights := t.flights ++ [⟨a, t.base⟩] }
  | .reads n part =>
    { t with flights := t.flights.modify n fun f => { f with view := read part t.base f.view } }
  | .commits n =>
    match t.flights[n]? with
    | none => t
    | some f => ⟨(commit f t.base).getD t.base, t.flights.eraseIdx n⟩

/-- The operation that a step commits. -/
def committing (t : Store σ ι) : Event ι ρ → Option (Flight σ ι)
  | .commits n => t.flights[n]?
  | _ => none

/-- The store before each commit of a run, and what is committed. -/
def committed (run : List (Store σ ι × Event ι ρ)) : List (σ × ι) :=
  run.filterMap fun q => (committing q.1 q.2).map fun f => (q.1.base, f.input)

def atomic (perform : σ → ι → Option σ) (s : σ) (a : ι) : σ := (perform s a).getD s

/-- Each commit of a run does what its operation does at once. -/
def Serial (perform : σ → ι → Option σ) (run : List (Store σ ι × Event ι ρ)) : Prop :=
  ∀ q ∈ run, ∀ f, committing q.1 q.2 = some f → commit f q.1.base = perform q.1.base f.input

end Steps

variable {read : ρ → σ → σ → σ} {commit : Flight σ ι → σ → Option σ} {perform : σ → ι → Option σ}

theorem step_silent {t : Store σ ι} {e : Event ι ρ} (h : committing t e = none) :
    (step read commit t e).base = t.base := by
  cases e with
  | begins a => rfl
  | reads n part => rfl
  | commits n =>
    rw [committing] at h
    simp only [step, h]

theorem step_commits {t : Store σ ι} {e : Event ι ρ} {f : Flight σ ι}
    (h : committing t e = some f) : (step read commit t e).base = (commit f t.base).getD t.base := by
  cases e with
  | begins a => cases h
  | reads n part => cases h
  | commits n =>
    rw [committing] at h
    simp only [step, h]

theorem mem_committed {run : List (Store σ ι × Event ι ρ)} {q : Store σ ι × Event ι ρ}
    {f : Flight σ ι} (hq : q ∈ run) (hf : committing q.1 q.2 = some f) :
    (q.1.base, f.input) ∈ committed run := List.mem_filterMap.2 ⟨q, hq, by rw [hf]; rfl⟩

theorem run_of_serial {es : List (Event ι ρ)} {t : Store σ ι}
    (h : Serial commit perform (steps (step read commit) t es)) :
    ∃ as, committed (steps (step read commit) t es) = steps (atomic perform) t.base as ∧
      (final (step read commit) t es).base = final (atomic perform) t.base as := by
  induction es generalizing t with
  | nil => exact ⟨[], rfl, rfl⟩
  | cons e es ih =>
    rw [steps, Serial, List.forall_mem_cons] at h
    obtain ⟨as, hcommitted, hfinal⟩ := ih h.2
    cases hc : committing t e with
    | none =>
      rw [step_silent hc] at hcommitted hfinal
      refine ⟨as, ?_, hfinal⟩
      rw [steps, committed, List.filterMap_cons_none (by rw [hc]; rfl), ← committed, hcommitted]
    | some f =>
      rw [step_commits hc, h.1 f hc] at hcommitted hfinal
      refine ⟨f.input :: as, ?_, hfinal⟩
      rw [steps, committed, List.filterMap_cons_some (by rw [hc]; rfl), ← committed, hcommitted]
      rfl

/-! ## Operations one after the other -/

def alone (a : ι) : List (Event ι ρ) := [.begins a, .commits 0]

variable (read)

theorem final_alone (s : σ) (a : ι) (h : commit ⟨a, s⟩ s = perform s a) :
    final (step read commit) ⟨s, []⟩ (alone a) = ⟨atomic perform s a, []⟩ := by
  simp [alone, final, step, atomic, h]

theorem run_alone (hself : ∀ s a, commit ⟨a, s⟩ s = perform s a) (s : σ) (as : List ι) :
    final (step read commit) ⟨s, []⟩ (as.flatMap alone) = ⟨final (atomic perform) s as, []⟩ ∧
      committed (steps (step read commit) ⟨s, []⟩ (as.flatMap alone)) =
        steps (atomic perform) s as := by
  induction as generalizing s with
  | nil => exact ⟨rfl, rfl⟩
  | cons a as ih =>
    obtain ⟨hfinal, hcommitted⟩ := ih (atomic perform s a)
    have hone := final_alone read s a (hself s a)
    constructor
    · rw [List.flatMap_cons, final_append, hone, hfinal]
      rfl
    · rw [List.flatMap_cons, steps_append, hone, committed, List.filterMap_append, ← committed,
        ← committed, hcommitted]
      rfl

theorem view_alone (hself : ∀ s a, commit ⟨a, s⟩ s = perform s a) (s : σ) (as : List ι) :
    ∀ q ∈ steps (step read commit) ⟨s, []⟩ (as.flatMap alone), ∀ f,
      committing q.1 q.2 = some f → f = ⟨f.input, q.1.base⟩ := by
  induction as generalizing s with
  | nil => exact fun q hq => absurd hq List.not_mem_nil
  | cons a as ih =>
    intro q hq f hf
    rw [List.flatMap_cons, steps_append, List.mem_append,
      final_alone read s a (hself s a)] at hq
    rcases hq with hq | hq
    · rcases List.mem_cons.1 hq with rfl | hq
      · cases hf
      · obtain rfl := List.mem_singleton.1 hq
        obtain rfl := Option.some.inj hf
        rfl
    · exact ih _ q hq f hf

end Varsten.Machine.Commits
