import Mathlib

/-!
# Circuit breaker

The per-project breaker and the open flag it publishes to the shared store. A
trip needs a half-open breaker or enough failures since the last success, and
`allow` never resets the count, so failures without a success between them end
with an open breaker.
-/

namespace Varsten.Proxy.Circuit

inductive CircuitState where
  | closed
  | opened
  | halfOpen
deriving DecidableEq

structure Settings where
  enabled : Bool
  failThreshold : ℤ
  resetSeconds : ℚ
  sharedStore : Bool

structure CircuitBreaker where
  state : CircuitState
  failures : ℕ
  openedAt : ℚ
deriving DecidableEq

def CircuitBreaker.new : CircuitBreaker := ⟨.closed, 0, 0⟩

/-- One process's breaker and the expiry of the flag that all processes share. -/
structure CircuitView where
  breaker : CircuitBreaker
  openUntil : Option ℚ
deriving DecidableEq

def sharedOpen (s : Settings) (c : CircuitView) (now : ℚ) : Bool :=
  s.sharedStore && c.openUntil.any fun t => now < t

def allow (s : Settings) (now : ℚ) (c : CircuitView) : Bool × CircuitView :=
  if !s.enabled then (true, c)
  else if sharedOpen s c now then (false, c)
  else if c.breaker.state = .opened then
    if now - c.breaker.openedAt ≥ s.resetSeconds then
      (true, { c with breaker := { c.breaker with state := .halfOpen } })
    else (false, c)
  else (true, c)

def recordSuccess (c : CircuitView) : CircuitView :=
  ⟨{ c.breaker with state := .closed, failures := 0 }, none⟩

def recordFailure (s : Settings) (now : ℚ) (c : CircuitView) : CircuitView :=
  let failures := c.breaker.failures + 1
  if c.breaker.state = .halfOpen ∨ (failures : ℤ) ≥ s.failThreshold then
    ⟨⟨.opened, failures, now⟩, if s.sharedStore then some (now + s.resetSeconds) else c.openUntil⟩
  else { c with breaker := { c.breaker with failures := failures } }

inductive Op where
  | allow (now : ℚ)
  | recordSuccess
  | recordFailure (now : ℚ)
deriving DecidableEq

def step (s : Settings) (c : CircuitView) : Op → CircuitView
  | .allow now => (allow s now c).2
  | .recordSuccess => recordSuccess c
  | .recordFailure now => recordFailure s now c

def run (s : Settings) (c : CircuitView) (ops : List Op) : CircuitView := ops.foldl (step s) c

def Op.isFailure : Op → Bool
  | .recordFailure _ => true
  | _ => false

theorem allow_failures (s : Settings) (now : ℚ) (c : CircuitView) :
    (allow s now c).2.breaker.failures = c.breaker.failures := by
  unfold allow
  split_ifs <;> rfl

theorem recordFailure_failures (s : Settings) (now : ℚ) (c : CircuitView) :
    (recordFailure s now c).breaker.failures = c.breaker.failures + 1 := by
  unfold recordFailure
  dsimp only
  split_ifs <;> rfl

theorem run_append (s : Settings) (c : CircuitView) (xs ys : List Op) :
    run s c (xs ++ ys) = run s (run s c xs) ys :=
  List.foldl_append

theorem run_failures (s : Settings) (c : CircuitView) {ops : List Op}
    (h : Op.recordSuccess ∉ ops) :
    (run s c ops).breaker.failures = c.breaker.failures + ops.countP Op.isFailure := by
  induction ops generalizing c with
  | nil => rfl
  | cons op ops ih =>
    have hrest : Op.recordSuccess ∉ ops := fun hm => h (List.mem_cons_of_mem _ hm)
    rw [run, List.foldl_cons, ← run, ih _ hrest]
    cases op with
    | allow now => simp [step, allow_failures, Op.isFailure]
    | recordSuccess => simp at h
    | recordFailure now =>
      simp only [step, recordFailure_failures, List.countP_cons, Op.isFailure, if_true]
      omega

theorem recordFailure_opens {s : Settings} {now : ℚ} {c : CircuitView}
    (h : s.failThreshold ≤ (c.breaker.failures + 1 : ℕ)) :
    (recordFailure s now c).breaker.state = .opened := by
  unfold recordFailure
  dsimp only
  rw [if_pos (Or.inr h)]

/-- Failures with no success between them open the breaker, whatever `allow` calls fall between. -/
theorem failures_open (s : Settings) (c : CircuitView) {ops : List Op} {now : ℚ}
    (h : Op.recordSuccess ∉ ops)
    (hn : s.failThreshold ≤ (ops.countP Op.isFailure + 1 : ℕ)) :
    (run s c (ops ++ [.recordFailure now])).breaker.state = .opened := by
  rw [run_append]
  refine recordFailure_opens (hn.trans ?_)
  have := run_failures s c h
  push_cast
  omega

end Varsten.Proxy.Circuit
