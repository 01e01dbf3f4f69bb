import Varsten.Proxy.Circuit

/-!
# The breaker by its history

Without a shared store the breaker refuses exactly when the failures since the last success
reach the threshold and the last of them is younger than the reset window.
-/

namespace Varsten.Proxy.Circuit

def Op.time? : Op → Option ℚ
  | .allow now | .recordFailure now => some now
  | .recordSuccess => none

def Op.failedAt? : Op → Option ℚ
  | .recordFailure now => some now
  | _ => none

def times (ops : List Op) : List ℚ := ops.filterMap Op.time?

def failuresSinceSuccess (ops : List Op) : ℕ :=
  (ops.rtakeWhile (· ≠ .recordSuccess)).countP Op.isFailure

def lastFailure (ops : List Op) : Option ℚ := (ops.filterMap Op.failedAt?).getLast?

/-- What the history says of a request at `now`. -/
def Refused (s : Settings) (ops : List Op) (now : ℚ) : Prop :=
  s.failThreshold ≤ failuresSinceSuccess ops ∧
    ∃ t, lastFailure ops = some t ∧ now - t < s.resetSeconds

def fresh : CircuitView := ⟨.new, none⟩

variable {s : Settings} {ops : List Op} {now : ℚ}

@[simp] theorem times_concat (op : Op) : times (ops ++ [op]) = times ops ++ op.time?.toList := by
  cases op <;> simp [times, Op.time?]

@[simp] theorem failuresSinceSuccess_allow :
    failuresSinceSuccess (ops ++ [.allow now]) = failuresSinceSuccess ops := by
  simp [failuresSinceSuccess, Op.isFailure]

@[simp] theorem failuresSinceSuccess_success :
    failuresSinceSuccess (ops ++ [.recordSuccess]) = 0 := by
  simp [failuresSinceSuccess]

@[simp] theorem failuresSinceSuccess_failure :
    failuresSinceSuccess (ops ++ [.recordFailure now]) = failuresSinceSuccess ops + 1 := by
  simp [failuresSinceSuccess, Op.isFailure]

@[simp] theorem lastFailure_failure : lastFailure (ops ++ [.recordFailure now]) = some now := by
  simp [lastFailure, Op.failedAt?]

theorem lastFailure_other {op : Op} (h : op.failedAt? = none) :
    lastFailure (ops ++ [op]) = lastFailure ops := by
  simp [lastFailure, h]

/-- The state of a breaker with this history; a half-open one has outlived its window. -/
inductive Matches (s : Settings) (ops : List Op) : CircuitState → ℚ → Prop
  | closed {openedAt : ℚ} (h : (failuresSinceSuccess ops : ℤ) < s.failThreshold) :
      Matches s ops .closed openedAt
  | opened {openedAt : ℚ} (h : s.failThreshold ≤ failuresSinceSuccess ops)
      (hlast : lastFailure ops = some openedAt) : Matches s ops .opened openedAt
  | halfOpen {openedAt seen : ℚ} (h : s.failThreshold ≤ failuresSinceSuccess ops)
      (hlast : lastFailure ops = some openedAt) (hseen : seen ∈ times ops)
      (helapsed : s.resetSeconds ≤ seen - openedAt) : Matches s ops .halfOpen openedAt

structure Follows (s : Settings) (ops : List Op) (c : CircuitView) : Prop where
  failures : c.breaker.failures = failuresSinceSuccess ops
  state : Matches s ops c.breaker.state c.breaker.openedAt

theorem Matches.allow {state : CircuitState} {openedAt : ℚ} (h : Matches s ops state openedAt) :
    Matches s (ops ++ [.allow now]) state openedAt := by
  have hlast : lastFailure (ops ++ [.allow now]) = lastFailure ops := lastFailure_other rfl
  cases h with
  | closed h => exact .closed (by simpa using h)
  | opened h hl => exact .opened (by simpa using h) (hlast.trans hl)
  | halfOpen h hl hseen helapsed =>
    exact .halfOpen (by simpa using h) (hlast.trans hl) (by simp [hseen]) helapsed

theorem allow_cases (hstore : s.sharedStore = false) (now : ℚ) (c : CircuitView) :
    (allow s now c = (true, c) ∧ (s.enabled = true → c.breaker.state ≠ .opened)) ∨
      (s.enabled = true ∧ c.breaker.state = .opened ∧ s.resetSeconds ≤ now - c.breaker.openedAt ∧
        allow s now c = (true, { c with breaker := { c.breaker with state := .halfOpen } })) ∨
      (s.enabled = true ∧ c.breaker.state = .opened ∧ now - c.breaker.openedAt < s.resetSeconds ∧
        allow s now c = (false, c)) := by
  have hshared : sharedOpen s c now = false := by rw [sharedOpen, hstore, Bool.false_and]
  cases henabled : s.enabled with
  | false => exact .inl ⟨by simp [allow, henabled], fun h => absurd h (by decide)⟩
  | true =>
    by_cases hopen : c.breaker.state = .opened
    · by_cases helapsed : s.resetSeconds ≤ now - c.breaker.openedAt
      · exact .inr (.inl ⟨rfl, hopen, helapsed,
          by simp [allow, henabled, hshared, hopen, helapsed]⟩)
      · exact .inr (.inr ⟨rfl, hopen, not_le.1 helapsed,
          by simp [allow, henabled, hshared, hopen, helapsed]⟩)
    · exact .inl ⟨by simp [allow, henabled, hshared, hopen], fun _ => hopen⟩

theorem recordFailure_cases (s : Settings) (now : ℚ) (c : CircuitView) :
    ((c.breaker.state = .halfOpen ∨ s.failThreshold ≤ (c.breaker.failures + 1 : ℕ)) ∧
        (recordFailure s now c).breaker = ⟨.opened, c.breaker.failures + 1, now⟩) ∨
      (c.breaker.state ≠ .halfOpen ∧ ((c.breaker.failures + 1 : ℕ) : ℤ) < s.failThreshold ∧
        (recordFailure s now c).breaker =
          { c.breaker with failures := c.breaker.failures + 1 }) := by
  by_cases h : c.breaker.state = .halfOpen ∨ s.failThreshold ≤ (c.breaker.failures + 1 : ℕ)
  · exact .inl ⟨h, by rw [recordFailure]; dsimp only; rw [if_pos h]⟩
  · obtain ⟨hstate, hfew⟩ := not_or.1 h
    exact .inr ⟨hstate, not_le.1 hfew, by rw [recordFailure]; dsimp only; rw [if_neg h]⟩

theorem follows_step (hstore : s.sharedStore = false) (hpos : 1 ≤ s.failThreshold)
    {c : CircuitView} (h : Follows s ops c) (op : Op) : Follows s (ops ++ [op]) (step s c op) := by
  obtain ⟨hfailures, hstate⟩ := h
  cases op with
  | allow now =>
    refine ⟨?_, ?_⟩
    · rw [step, allow_failures, hfailures, failuresSinceSuccess_allow]
    · rcases allow_cases hstore now c with ⟨hrun, -⟩ | ⟨-, hopen, helapsed, hrun⟩ | ⟨-, -, -, hrun⟩
      · simpa only [step, hrun] using hstate.allow
      · rw [hopen] at hstate
        cases hstate with
        | opened hmany hlast =>
          simp only [step, hrun]
          exact .halfOpen (by simpa using hmany) ((lastFailure_other rfl).trans hlast)
            (by simp [Op.time?]) helapsed
      · simpa only [step, hrun] using hstate.allow
  | recordSuccess =>
    refine ⟨by simp [step, recordSuccess], .closed ?_⟩
    rw [failuresSinceSuccess_success]
    exact hpos
  | recordFailure now =>
    rw [step]
    have hcount : s.failThreshold ≤ (c.breaker.failures + 1 : ℕ) ↔
        s.failThreshold ≤ failuresSinceSuccess (ops ++ [.recordFailure now]) := by
      rw [failuresSinceSuccess_failure, hfailures]
    rcases recordFailure_cases s now c with ⟨htrip, hrun⟩ | ⟨hhalf, hfew, hrun⟩
    · have hmany : s.failThreshold ≤ (c.breaker.failures + 1 : ℕ) := by
        rcases htrip with hhalf | hmany
        · rw [hhalf] at hstate
          cases hstate with
          | halfOpen hmany _ _ _ => push_cast; omega
        · exact hmany
      refine ⟨by rw [hrun, failuresSinceSuccess_failure, hfailures], ?_⟩
      rw [hrun]
      exact .opened (hcount.1 hmany) lastFailure_failure
    · refine ⟨by rw [hrun, failuresSinceSuccess_failure, hfailures], ?_⟩
      rw [hrun]
      dsimp only
      cases hstate' : c.breaker.state with
      | closed => exact .closed (not_le.1 fun hle => absurd (hcount.2 hle) (not_le.2 hfew))
      | halfOpen => exact absurd hstate' hhalf
      | opened =>
        rw [hstate'] at hstate
        cases hstate with
        | opened hmany hlast => push_cast at hfew; omega

theorem follows_run (hstore : s.sharedStore = false) (hpos : 1 ≤ s.failThreshold)
    (ops : List Op) : Follows s ops (run s fresh ops) := by
  induction ops using List.reverseRecOn with
  | nil => exact ⟨rfl, .closed hpos⟩
  | append_singleton ops op ih =>
    rw [run_append]
    exact follows_step hstore hpos ih op

/-- The breaker refuses exactly the requests its history says it should. -/
theorem allow_refused_iff (s : Settings) (hstore : s.sharedStore = false)
    (hpos : 1 ≤ s.failThreshold) (ops : List Op) (now : ℚ)
    (hclock : (times ops ++ [now]).Pairwise (· ≤ ·)) :
    (allow s now (run s fresh ops)).1 = false ↔ s.enabled = true ∧ Refused s ops now := by
  obtain ⟨hfailures, hstate⟩ := follows_run hstore hpos ops
  generalize run s fresh ops = c at hfailures hstate
  rcases allow_cases hstore now c with
    ⟨hrun, hclosed⟩ | ⟨henabled, hopen, helapsed, hrun⟩ | ⟨henabled, hopen, hyoung, hrun⟩
  · refine iff_of_false (by simp [hrun]) fun ⟨henabled, hmany, t, hlast, hyoung⟩ => ?_
    generalize c.breaker.state = state at hstate hclosed
    cases hstate with
    | closed hfew => omega
    | opened _ _ => exact hclosed henabled rfl
    | halfOpen _ hopened hseen helapsed =>
      have hle := (List.pairwise_append.1 hclock).2.2 _ hseen now (List.mem_singleton_self now)
      have hsame : c.breaker.openedAt = t := Option.some.inj (hopened.symm.trans hlast)
      linarith
  · refine iff_of_false (by simp [hrun]) fun ⟨_, _, t, hlast, hyoung⟩ => ?_
    rw [hopen] at hstate
    cases hstate with
    | opened _ hopened =>
      have hsame : c.breaker.openedAt = t := Option.some.inj (hopened.symm.trans hlast)
      linarith
  · rw [hopen] at hstate
    cases hstate with
    | opened hmany hopened =>
      exact iff_of_true (by rw [hrun]) ⟨henabled, hmany, _, hopened, hyoung⟩

/-! ## Two failures -/

def pairSettings : Settings := ⟨true, 2, 30, false⟩

def pairOps : List Op := [.allow 1, .recordFailure 2, .allow 3, .recordFailure 4]

theorem second_failure_refused : (allow pairSettings 10 (run pairSettings fresh pairOps)).1 = false :=
  (allow_refused_iff pairSettings rfl (by decide) pairOps 10 (by decide)).2
    ⟨rfl, by decide, 4, rfl, by norm_num [pairSettings]⟩

end Varsten.Proxy.Circuit
