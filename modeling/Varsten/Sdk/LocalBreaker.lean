import Mathlib

/-!
# The breaker of an SDK instance
-/

namespace Varsten.Sdk

structure BreakerConfig where
  threshold : ℚ
  cooldownMs : ℚ

/-- An `openedAt` of zero is a breaker that is not open. -/
structure LocalBreaker where
  failures : ℕ
  openedAt : ℚ
  cooldownWithJitter : ℚ
  halfOpen : Bool
deriving DecidableEq

namespace LocalBreaker

def new : LocalBreaker := ⟨0, 0, 0, false⟩

variable (c : BreakerConfig) (b : LocalBreaker) (now random : ℚ)

def allow : Bool × LocalBreaker :=
  if b.openedAt = 0 then (true, b)
  else if now - b.openedAt ≥ b.cooldownWithJitter then (true, { b with halfOpen := true })
  else (false, b)

def recordSuccess : LocalBreaker := { b with failures := 0, openedAt := 0, halfOpen := false }

/-- `random` is the draw of `Math.random()`. -/
def jittered : ℚ := max 0 (c.cooldownMs + c.cooldownMs * (2 / 10) * (random * 2 - 1))

def reopen : LocalBreaker :=
  { b with openedAt := now, halfOpen := false, cooldownWithJitter := jittered c random }

def recordVarstenFailure : LocalBreaker :=
  let b := { b with failures := b.failures + 1 }
  if b.halfOpen ∨ b.failures ≥ c.threshold then b.reopen c now random else b

/-- A request is let through by a closed breaker, or where the cooldown has elapsed. -/
def Elapsed : Prop := now - b.openedAt ≥ b.cooldownWithJitter

variable {c b now random}

theorem allow_cases : (b.openedAt = 0 ∧ b.allow now = (true, b)) ∨
    (b.openedAt ≠ 0 ∧ b.Elapsed now ∧ b.allow now = (true, { b with halfOpen := true })) ∨
    (b.openedAt ≠ 0 ∧ ¬ b.Elapsed now ∧ b.allow now = (false, b)) := by
  unfold allow Elapsed
  split_ifs with hclosed helapsed
  · exact .inl ⟨hclosed, rfl⟩
  · exact .inr (.inl ⟨hclosed, helapsed, rfl⟩)
  · exact .inr (.inr ⟨hclosed, helapsed, rfl⟩)

theorem recordVarstenFailure_cases :
    b.recordVarstenFailure c now random =
        ({ b with failures := b.failures + 1 } : LocalBreaker).reopen c now random ∨
      (b.halfOpen = false ∧
        b.recordVarstenFailure c now random = { b with failures := b.failures + 1 }) := by
  unfold recordVarstenFailure
  dsimp only
  split_ifs with h
  · exact .inl rfl
  · exact .inr ⟨Bool.eq_false_iff.2 fun hhalf => h (.inl hhalf), rfl⟩

end LocalBreaker

end Varsten.Sdk
