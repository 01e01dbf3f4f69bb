import Varsten.Machine.Runs

/-!
# The bandit candidates of a routing policy

The set grows by one operation, which checks it against the primary; the primary changes by
another, which keeps the set.
-/

namespace Varsten.Proxy.BanditCandidates

open Machine.Runs

structure Entry where
  model : String
  provider : String
  evalRun : ℕ

/-- A routing policy of the incumbent `targetKey` and its params. -/
structure Policy where
  targetKey : String
  enabled : Bool
  candidateModel : Option String
  banditCandidates : List Entry

def Policy.models (p : Policy) : List String := p.banditCandidates.map (·.model)

/-- `activate_rule` on the policy of its incumbent. -/
def activateRule (p : Policy) (candidate : String) : Policy :=
  if candidate = "" ∨ p.targetKey = candidate then p
  else { p with enabled := true, candidateModel := some candidate }

def deactivate (p : Policy) : Policy := { p with enabled := false }

/-- `add_bandit_candidate`; `run` is the eval that clears the candidate, `none` where none does. A
`BanditCandidateError` changes nothing. -/
def addBanditCandidate (p : Policy) (candidate : String) (provider : Option String)
    (run : Option ℕ) : Policy :=
  if candidate = "" ∨ candidate = p.targetKey then p
  else if some candidate = p.candidateModel then p
  else if candidate ∈ p.models then p
  else match run with
    | none => p
    | some run => { p with
        banditCandidates := p.banditCandidates ++
          [⟨candidate, (provider.filter (· ≠ "")).getD "openai", run⟩] }

/-- `remove_bandit_candidate`, by an operator or the drift guard. -/
def removeBanditCandidate (p : Policy) (candidate : String) : Policy :=
  { p with banditCandidates := p.banditCandidates.filter (·.model ≠ candidate) }

inductive Operation where
  | activate (candidate : String)
  | deactivate
  | add (candidate : String) (provider : Option String) (run : Option ℕ)
  | remove (candidate : String)

def step (p : Policy) : Operation → Policy
  | .activate candidate => activateRule p candidate
  | .deactivate => deactivate p
  | .add candidate provider run => addBanditCandidate p candidate provider run
  | .remove candidate => removeBanditCandidate p candidate

/-- A policy before its first activation. -/
def fresh (incumbent : String) : Policy := ⟨incumbent, false, none, []⟩

/-- The candidates are alternatives to one another, to the primary and to the incumbent. -/
structure Alternatives (p : Policy) : Prop where
  distinct : p.models.Nodup
  primary : ∀ c, p.candidateModel = some c → c ∉ p.models
  incumbent : p.targetKey ∉ p.models

/-- An activation that takes effect brings no primary that is in the set. -/
def BringsOther (p : Policy) (o : Operation) : Prop :=
  ∀ c, o = .activate c → c ≠ "" → p.targetKey ≠ c → c ∉ p.models

theorem activateRule_iff {p : Policy} {c : String} (h : Alternatives p) :
    Alternatives (activateRule p c) ↔ (c ≠ "" → p.targetKey ≠ c → c ∉ p.models) := by
  unfold activateRule
  split_ifs with hnone
  · refine iff_of_true h fun hc hkey => ?_
    exact absurd hnone (not_or.2 ⟨hc, hkey⟩)
  · obtain ⟨hc, hkey⟩ := not_or.1 hnone
    constructor
    · exact fun h' _ _ => h'.primary c rfl
    · intro h'
      refine ⟨h.distinct, fun c' hc' => ?_, h.incumbent⟩
      rw [← Option.some.inj hc']
      exact h' hc hkey

theorem addBanditCandidate_alternatives {p : Policy} {c : String} {provider : Option String}
    {run : Option ℕ} (h : Alternatives p) :
    Alternatives (addBanditCandidate p c provider run) := by
  unfold addBanditCandidate
  split_ifs with hnone hprimary hmem
  · exact h
  · exact h
  · exact h
  · cases run with
    | none => exact h
    | some run =>
      obtain ⟨-, hkey⟩ := not_or.1 hnone
      have hmodels : ∀ provider, ({ p with
          banditCandidates := p.banditCandidates ++ [⟨c, provider, run⟩] } : Policy).models =
            p.models ++ [c] := fun provider => by simp [Policy.models]
      refine ⟨?_, fun c' hc' => ?_, ?_⟩
      · rw [hmodels, List.nodup_append]
        refine ⟨h.distinct, List.nodup_singleton c, fun x hx y hy he => hmem ?_⟩
        rw [← List.mem_singleton.1 hy, ← he]
        exact hx
      · rw [hmodels, List.mem_append, List.mem_singleton, not_or]
        exact ⟨h.primary c' hc', fun he => hprimary (he ▸ hc').symm⟩
      · rw [hmodels, List.mem_append, List.mem_singleton, not_or]
        exact ⟨h.incumbent, fun he => hkey he.symm⟩

theorem removeBanditCandidate_alternatives {p : Policy} {c : String} (h : Alternatives p) :
    Alternatives (removeBanditCandidate p c) := by
  have hsub : (removeBanditCandidate p c).models.Sublist p.models :=
    List.filter_sublist.map Entry.model
  exact ⟨h.distinct.sublist hsub, fun c' hc' hmem => h.primary c' hc' (hsub.subset hmem),
    fun hmem => h.incumbent (hsub.subset hmem)⟩

theorem step_iff {p : Policy} {o : Operation} (h : Alternatives p) :
    Alternatives (step p o) ↔ BringsOther p o := by
  cases o with
  | activate c =>
    rw [step, activateRule_iff h, BringsOther]
    exact ⟨fun h' c' hc' => Operation.activate.inj hc' ▸ h', fun h' => h' c rfl⟩
  | deactivate => exact iff_of_true ⟨h.distinct, h.primary, h.incumbent⟩ (by simp [BringsOther])
  | add c provider run =>
    exact iff_of_true (addBanditCandidate_alternatives h) (by simp [BringsOther])
  | remove c => exact iff_of_true (removeBanditCandidate_alternatives h) (by simp [BringsOther])

/-- In a run from a fresh policy the candidates stay alternatives exactly when no activation brings
a primary that is in the set. -/
theorem alternatives_iff (incumbent : String) (os : List Operation) :
    (∀ q ∈ steps step (fresh incumbent) os, Alternatives (step q.1 q.2)) ↔
      ∀ q ∈ steps step (fresh incumbent) os, BringsOther q.1 q.2 := by
  have hfresh : Alternatives (fresh incumbent) :=
    ⟨List.nodup_nil, fun _ h => absurd h (by simp [fresh]), List.not_mem_nil⟩
  have hiff : ∀ p o, True → True → Alternatives p →
      ((Alternatives (step p o) ∧ True) ↔ BringsOther p o) := by
    intro p o _ _ h
    rw [and_true]
    exact step_iff h
  have hkeep : ∀ (p : Policy) (o : Operation), True → True → True := fun _ _ _ _ => trivial
  simpa only [and_true] using steps_iff hkeep hiff trivial hfresh (fun _ _ => trivial)

/-- The candidate `b` is added beside the primary `a`, then becomes the primary. -/
theorem primary_in_set : ∃ q ∈ steps step (fresh "m")
      [.activate "a", .add "b" none (some 0), .activate "b"],
    ¬ Alternatives (step q.1 q.2) := by
  refine ⟨_, List.mem_of_getElem? (i := 2) rfl, fun h => ?_⟩
  exact absurd (h.primary "b" rfl) (by decide +kernel)

end Varsten.Proxy.BanditCandidates
