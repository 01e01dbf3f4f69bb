import Varsten.Proxy.ForwardLog
import Varsten.Python.Floats

/-!
# Upstream retries

`post_with_retry` with the delays it sleeps. The jitter is a number from 0 up to 1, and a response
is its status and its `Retry-After`.
-/

namespace Varsten.Proxy.Resilience

open Forward (isUpstreamFailure not_failure_200)
open Python.Floats
open Python.Floats.PyFloat

structure Settings where
  retryEnabled : Bool
  maxAttempts : ℤ
  baseDelaySeconds : PyFloat
  maxDelaySeconds : PyFloat
  isFloat_maxDelay : maxDelaySeconds.IsFloat

/-- What `client.post` does. -/
inductive Posted where
  | requestError
  | response (status : ℕ) (retryAfter : Option String)
deriving DecidableEq

/-- One attempt, and whether the deadline has not passed after it. -/
structure Attempt where
  posted : Posted
  inBudget : Bool

/-- What `random.random()` returns. -/
abbrev Jitter := {r : ℚ // 0 ≤ r ∧ r < 1}

inductive Event where
  | post (posted : Posted)
  | sleep (delay : PyFloat)

/-- The response or the exception that is returned, or an exception that is raised: an
`OverflowError` of the schedule, or the `ValueError` of sleeping nan. -/
inductive Outcome where
  | returned (posted : Posted)
  | raised
deriving DecidableEq

def retriesEnabled (s : Settings) : Bool := s.retryEnabled && decide (0 < s.maxAttempts)

def isRetryableStatus (status : ℕ) : Bool := isUpstreamFailure status

def scheduled (s : Settings) (i : ℕ) : PyFloat := mul s.baseDelaySeconds (.finite (2 ^ i))

/-- `random.uniform(0.0, capped)`. -/
def jittered (s : Settings) (jitter : ℕ → Jitter) (i : ℕ) : PyFloat :=
  scale (jitter i) (PyFloat.min (scheduled s i) s.maxDelaySeconds)

/-- `none` where a power of two is no float. -/
def backoffDelays (s : Settings) (jitter : ℕ → Jitter) : Option (List PyFloat) :=
  if retriesEnabled s then
    (List.range s.maxAttempts.toNat).mapM fun i =>
      (ofNat (2 ^ i)).map fun _ => jittered s jitter i
  else some []

section Run

variable (digit : Char → Option ℕ) (s : Settings)

def headerSeconds (header : Option String) : Option PyFloat :=
  (header.filter (· ≠ "")).bind fun h => parse digit h.toList

def retryAfterSeconds (header : Option String) (default : PyFloat) : PyFloat :=
  match headerSeconds digit header with
  | some x => PyFloat.min x s.maxDelaySeconds
  | none => default

/-- The delay before the next attempt, where the answer is one to retry after. -/
def retryDelay (scheduled : PyFloat) : Posted → Option PyFloat
  | .requestError => some scheduled
  | .response status retryAfter =>
    if status = 200 ∨ isRetryableStatus status = false then none
    else some (retryAfterSeconds digit s retryAfter scheduled)

/-- The loop, with the delays that are left; `asyncio.sleep` raises on nan. -/
def postLoop (net : ℕ → Attempt) : List PyFloat → ℕ → List Event × Outcome
  | [], i => ([.post (net i).posted], .returned (net i).posted)
  | d :: ds, i =>
    match retryDelay digit s d (net i).posted, (net i).inBudget with
    | some delay, true =>
      if delay = .nan then ([.post (net i).posted, .sleep delay], .raised)
      else
        let rest := postLoop net ds (i + 1)
        (.post (net i).posted :: .sleep delay :: rest.1, rest.2)
    | _, _ => ([.post (net i).posted], .returned (net i).posted)

def postWithRetry (jitter : ℕ → Jitter) (net : ℕ → Attempt) : List Event × Outcome :=
  match backoffDelays s jitter with
  | some delays => postLoop digit s net delays 0
  | none => ([], .raised)

end Run

/-! ## What a run is to keep to -/

def posts (events : List Event) : List Posted :=
  events.filterMap fun
    | .post posted => some posted
    | .sleep _ => none

def sleeps (events : List Event) : List PyFloat :=
  events.filterMap fun
    | .post _ => none
    | .sleep delay => some delay

def Posted.retryable : Posted → Bool
  | .requestError => true
  | .response status _ => decide (status ≠ 200) && isRetryableStatus status

structure Bounded (s : Settings) (run : List Event × Outcome) : Prop where
  attempts : ((posts run.1).length : ℤ) ≤ 1 + s.maxAttempts
  delays : ∀ d ∈ sleeps run.1, Within s.maxDelaySeconds d
  retried : ∀ p ∈ (posts run.1).dropLast, p.retryable = true
  last : ∃ p, (posts run.1).getLast? = some p ∧ run.2 = .returned p

/-! ## The loop -/

section Loop

variable {digit : Char → Option ℕ} {s : Settings} {net : ℕ → Attempt}

def delayAfter (digit : Char → Option ℕ) (s : Settings) (scheduled : PyFloat) : Posted → PyFloat
  | .requestError => scheduled
  | .response _ retryAfter => retryAfterSeconds digit s retryAfter scheduled

theorem retryDelay_eq (d : PyFloat) (p : Posted) : retryDelay digit s d p =
    if p.retryable = true then some (delayAfter digit s d p) else none := by
  cases p with
  | requestError => rfl
  | response status retryAfter =>
    simp only [retryDelay, Posted.retryable, delayAfter]
    by_cases h200 : status = 200
    · simp [h200]
    · by_cases hf : isRetryableStatus status = true <;> simp [h200, hf]

theorem postLoop_cons (d : PyFloat) (ds : List PyFloat) (i : ℕ) :
    postLoop digit s net (d :: ds) i =
      if (net i).posted.retryable = true ∧ (net i).inBudget = true then
        if delayAfter digit s d (net i).posted = .nan then
          ([.post (net i).posted, .sleep (delayAfter digit s d (net i).posted)], .raised)
        else
          (.post (net i).posted :: .sleep (delayAfter digit s d (net i).posted) ::
            (postLoop digit s net ds (i + 1)).1, (postLoop digit s net ds (i + 1)).2)
      else ([.post (net i).posted], .returned (net i).posted) := by
  rw [postLoop, retryDelay_eq]
  by_cases hr : (net i).posted.retryable = true <;> by_cases hb : (net i).inBudget = true <;>
    simp [hr, hb]

@[simp] theorem posts_post (p : Posted) (es : List Event) :
    posts (.post p :: es) = p :: posts es := rfl

@[simp] theorem posts_sleep (d : PyFloat) (es : List Event) :
    posts (.sleep d :: es) = posts es := rfl

@[simp] theorem sleeps_post (p : Posted) (es : List Event) :
    sleeps (.post p :: es) = sleeps es := rfl

@[simp] theorem sleeps_sleep (d : PyFloat) (es : List Event) :
    sleeps (.sleep d :: es) = d :: sleeps es := rfl

@[simp] theorem posts_nil : posts [] = [] := rfl

@[simp] theorem sleeps_nil : sleeps [] = [] := rfl

theorem posts_postLoop_ne_nil (ds : List PyFloat) (i : ℕ) :
    posts (postLoop digit s net ds i).1 ≠ [] := by
  cases ds with
  | nil => exact List.cons_ne_nil _ _
  | cons d ds =>
    rw [postLoop_cons]
    split_ifs <;> exact List.cons_ne_nil _ _

theorem posts_postLoop_length (ds : List PyFloat) (i : ℕ) :
    (posts (postLoop digit s net ds i).1).length ≤ ds.length + 1 := by
  induction ds generalizing i with
  | nil => exact le_rfl
  | cons d ds ih =>
    have hrest := ih (i + 1)
    rw [postLoop_cons]
    split_ifs
    · exact Nat.le_add_left _ _
    · simpa using hrest
    · exact Nat.le_add_left _ _

theorem posts_postLoop_retryable (ds : List PyFloat) (i : ℕ) :
    ∀ p ∈ (posts (postLoop digit s net ds i).1).dropLast, p.retryable = true := by
  induction ds generalizing i with
  | nil => exact fun p hp => absurd hp List.not_mem_nil
  | cons d ds ih =>
    rw [postLoop_cons]
    split_ifs with hretry hnan
    · exact fun p hp => absurd hp List.not_mem_nil
    · intro p hp
      rw [posts_post, posts_sleep, List.dropLast_cons_of_ne_nil (posts_postLoop_ne_nil ds _)] at hp
      rcases List.mem_cons.1 hp with rfl | hp
      · exact hretry.1
      · exact ih _ p hp
    · exact fun p hp => absurd hp List.not_mem_nil

/-- A run that does not raise returns its last answer; one that does has slept nan. -/
theorem postLoop_outcome (ds : List PyFloat) (i : ℕ) :
    (∃ p, (posts (postLoop digit s net ds i).1).getLast? = some p ∧
        (postLoop digit s net ds i).2 = .returned p) ∨
      (postLoop digit s net ds i).2 = .raised ∧
        PyFloat.nan ∈ sleeps (postLoop digit s net ds i).1 := by
  induction ds generalizing i with
  | nil => exact .inl ⟨_, rfl, rfl⟩
  | cons d ds ih =>
    rw [postLoop_cons]
    split_ifs with hretry hnan
    · rw [hnan]
      exact .inr ⟨rfl, List.mem_singleton.2 rfl⟩
    · rcases ih (i + 1) with ⟨p, hp, hout⟩ | ⟨hout, hmem⟩
      · refine .inl ⟨p, ?_, hout⟩
        rw [posts_post, posts_sleep, List.getLast?_cons_of_ne_nil (posts_postLoop_ne_nil ds _), hp]
      · exact .inr ⟨hout, List.mem_cons_of_mem _ hmem⟩
    · exact .inl ⟨_, rfl, rfl⟩

/-- The attempts up to the `k`th from `i` are all followed by a retry, if there are delays left. -/
def Retried (net : ℕ → Attempt) (i k : ℕ) : Prop :=
  ∀ j ≤ k, (net (i + j)).posted.retryable = true ∧ (net (i + j)).inBudget = true

theorem retried_succ {i k : ℕ} : Retried net i (k + 1) ↔
    ((net i).posted.retryable = true ∧ (net i).inBudget = true) ∧ Retried net (i + 1) k := by
  constructor
  · intro h
    refine ⟨h 0 (Nat.zero_le _), fun j hj => ?_⟩
    have hnext := h (j + 1) (Nat.succ_le_succ hj)
    rwa [← Nat.add_assoc, Nat.add_right_comm] at hnext
  · rintro ⟨h, hrest⟩ j hj
    cases j with
    | zero => exact h
    | succ j =>
      have hnext := hrest j (Nat.le_of_succ_le_succ hj)
      rwa [Nat.add_right_comm, Nat.add_assoc] at hnext

theorem sleeps_postLoop_iff {bound : PyFloat} (ds : List PyFloat) (i : ℕ) :
    (∀ d ∈ sleeps (postLoop digit s net ds i).1, Within bound d) ↔
      ∀ k d, ds[k]? = some d → Retried net i k →
        Within bound (delayAfter digit s d (net (i + k)).posted) := by
  induction ds generalizing i with
  | nil => exact iff_of_true (fun d hd => absurd hd List.not_mem_nil) (fun k d hd => by cases hd)
  | cons d ds ih =>
    have hsplit : (∀ k e, (d :: ds)[k]? = some e → Retried net i k →
          Within bound (delayAfter digit s e (net (i + k)).posted)) ↔
        ((net i).posted.retryable = true ∧ (net i).inBudget = true →
          Within bound (delayAfter digit s d (net i).posted)) ∧
        ((net i).posted.retryable = true ∧ (net i).inBudget = true →
          ∀ d' ∈ sleeps (postLoop digit s net ds (i + 1)).1, Within bound d') := by
      constructor
      · refine fun h => ⟨fun hretry => h 0 d rfl fun j hj => ?_, fun hretry => (ih _).2 ?_⟩
        · obtain rfl := Nat.le_zero.1 hj
          exact hretry
        · intro k e he hk
          have hnext := h (k + 1) e he (retried_succ.2 ⟨hretry, hk⟩)
          rwa [← Nat.add_assoc, Nat.add_right_comm] at hnext
      · rintro ⟨hhead, htail⟩ k e he hk
        cases k with
        | zero =>
          obtain rfl := Option.some.inj he
          exact hhead (hk 0 le_rfl)
        | succ k =>
          obtain ⟨hretry, hrest⟩ := retried_succ.1 hk
          have hnext := (ih _).1 (htail hretry) k e he hrest
          rwa [Nat.add_right_comm, Nat.add_assoc] at hnext
    rw [hsplit, postLoop_cons]
    split_ifs with hretry hnan
    · rw [hnan]
      refine iff_of_false (fun h => not_within_nan (h _ (List.mem_singleton.2 rfl)))
        fun h => not_within_nan (h.1 hretry)
    · rw [sleeps_post, sleeps_sleep, List.forall_mem_cons]
      exact ⟨fun h => ⟨fun _ => h.1, fun _ => h.2⟩, fun h => ⟨h.1 hretry, h.2 hretry⟩⟩
    · exact iff_of_true (fun d hd => absurd hd List.not_mem_nil)
        ⟨fun h => absurd h hretry, fun h => absurd h hretry⟩

end Loop

/-! ## Sound delays -/

section Delays

variable (digit : Char → Option ℕ) (s : Settings) (jitter : ℕ → Jitter) (net : ℕ → Attempt)

/-- The schedule gives a number the cap leaves from 0 up to the cap, or the jitter takes the number
to zero. -/
def SoundJitter (i : ℕ) : Prop :=
  Fits s.maxDelaySeconds (scheduled s i) ∨
    nonneg s.maxDelaySeconds = true ∧
      ∃ q, PyFloat.min (scheduled s i) s.maxDelaySeconds = .finite q ∧
        nearest (q * (jitter i).1) = 0

/-- The number of the header, or the schedule without one, is sound after attempt `i`. -/
def SoundDelay (i : ℕ) : Posted → Prop
  | .requestError => SoundJitter s jitter i
  | .response _ header =>
    match headerSeconds digit header with
    | some x => Fits s.maxDelaySeconds x
    | none => SoundJitter s jitter i

/-- Attempt `i` is followed by a retry. -/
def Retries (i : ℕ) : Prop :=
  retriesEnabled s = true ∧ i < s.maxAttempts.toNat ∧ Retried net 0 i

structure Conforms : Prop where
  attempts : 0 ≤ s.maxAttempts
  schedule : retriesEnabled s = true → s.maxAttempts ≤ maxExp
  delays : ∀ i, Retries s net i → SoundDelay digit s jitter i (net i).posted

variable {digit s jitter net}

theorem within_jittered_iff {i : ℕ} :
    Within s.maxDelaySeconds (jittered s jitter i) ↔ SoundJitter s jitter i :=
  within_scale_iff s.isFloat_maxDelay (jitter i).2.1 (jitter i).2.2.le

theorem within_delayAfter_iff {i : ℕ} (p : Posted) :
    Within s.maxDelaySeconds (delayAfter digit s (jittered s jitter i) p) ↔
      SoundDelay digit s jitter i p := by
  cases p with
  | requestError => exact within_jittered_iff
  | response status header =>
    simp only [delayAfter, retryAfterSeconds, SoundDelay]
    cases headerSeconds digit header with
    | none => exact within_jittered_iff
    | some x => exact within_min_iff

theorem mapM_eq_some {α β : Type} {f : α → Option β} {g : α → β} {xs : List α}
    (h : ∀ x ∈ xs, f x = some (g x)) : xs.mapM f = some (xs.map g) := by
  induction xs with
  | nil => rfl
  | cons x xs ih =>
    rw [List.forall_mem_cons] at h
    rw [List.mapM_cons, h.1, ih h.2]
    rfl

def schedule (s : Settings) (jitter : ℕ → Jitter) : List PyFloat :=
  if retriesEnabled s then (List.range s.maxAttempts.toNat).map (jittered s jitter) else []

theorem backoffDelays_eq (h : retriesEnabled s = true → s.maxAttempts ≤ maxExp) :
    backoffDelays s jitter = some (schedule s jitter) := by
  rw [backoffDelays, schedule]
  split_ifs with henabled
  · refine mapM_eq_some fun i hi => ?_
    have hmax := h henabled
    have hlt : i < maxExp := by
      rw [List.mem_range] at hi
      omega
    rw [ofNat_pow hlt, Option.map_some]
  · rfl

theorem backoffDelays_eq_none (henabled : retriesEnabled s = true) (h : maxExp < s.maxAttempts) :
    backoffDelays s jitter = none := by
  rw [backoffDelays, if_pos henabled]
  obtain ⟨n, hn⟩ : ∃ n, s.maxAttempts.toNat = maxExp + 1 + n :=
    ⟨s.maxAttempts.toNat - (maxExp + 1), by omega⟩
  rw [hn, List.range_add, List.range_succ, List.mapM_append, List.mapM_append, List.mapM_cons,
    ofNat_pow_none le_rfl]
  cases List.mapM (fun i => (ofNat (2 ^ i)).map fun _ => jittered s jitter i)
    (List.range maxExp) <;> rfl

theorem schedule_getElem {k : ℕ} {d : PyFloat} : (schedule s jitter)[k]? = some d ↔
    retriesEnabled s = true ∧ k < s.maxAttempts.toNat ∧ d = jittered s jitter k := by
  rw [schedule]
  split_ifs with henabled
  · rw [List.getElem?_map, Option.map_eq_some_iff]
    simp only [List.getElem?_eq_some_iff, List.length_range, List.getElem_range]
    constructor
    · rintro ⟨_, ⟨hk, rfl⟩, rfl⟩
      exact ⟨henabled, hk, rfl⟩
    · rintro ⟨-, hk, rfl⟩
      exact ⟨k, ⟨hk, rfl⟩, rfl⟩
  · exact iff_of_false (fun h => by cases h) fun h => henabled h.1

theorem length_schedule (s : Settings) (jitter : ℕ → Jitter) :
    (schedule s jitter).length ≤ s.maxAttempts.toNat := by
  rw [schedule]
  split_ifs
  · rw [List.length_map, List.length_range]
  · exact Nat.zero_le _

theorem sleeps_schedule_iff :
    (∀ d ∈ sleeps (postLoop digit s net (schedule s jitter) 0).1, Within s.maxDelaySeconds d) ↔
      ∀ i, Retries s net i → SoundDelay digit s jitter i (net i).posted := by
  rw [sleeps_postLoop_iff]
  constructor
  · rintro h i ⟨henabled, hi, hretried⟩
    have hwithin := h i _ (schedule_getElem.2 ⟨henabled, hi, rfl⟩) hretried
    rw [Nat.zero_add] at hwithin
    exact (within_delayAfter_iff _).1 hwithin
  · intro h i d hd hretried
    obtain ⟨henabled, hi, rfl⟩ := schedule_getElem.1 hd
    rw [Nat.zero_add]
    exact (within_delayAfter_iff _).2 (h i ⟨henabled, hi, hretried⟩)

end Delays

/-- Retries are bounded exactly where the count, the schedule and the headers are sound. -/
theorem bounded_iff (digit : Char → Option ℕ) (s : Settings) (jitter : ℕ → Jitter)
    (net : ℕ → Attempt) :
    Bounded s (postWithRetry digit s jitter net) ↔ Conforms digit s jitter net := by
  by_cases hschedule : retriesEnabled s = true → s.maxAttempts ≤ maxExp
  · rw [postWithRetry, backoffDelays_eq hschedule]
    constructor
    · intro h
      refine ⟨?_, hschedule, sleeps_schedule_iff.1 h.delays⟩
      have hpos : 0 < (posts (postLoop digit s net (schedule s jitter) 0).1).length :=
        List.length_pos_of_ne_nil (posts_postLoop_ne_nil _ _)
      have hattempts : ((posts (postLoop digit s net (schedule s jitter) 0).1).length : ℤ) ≤
        1 + s.maxAttempts := h.attempts
      omega
    · intro h
      have hdelays := sleeps_schedule_iff.2 h.delays
      refine ⟨?_, hdelays, posts_postLoop_retryable _ _, ?_⟩
      · have hlength : (posts (postLoop digit s net (schedule s jitter) 0).1).length ≤
          (schedule s jitter).length + 1 := posts_postLoop_length _ _
        have hschedule' := length_schedule s jitter
        have hattempts := h.attempts
        change ((posts (postLoop digit s net (schedule s jitter) 0).1).length : ℤ) ≤ _
        omega
      · rcases postLoop_outcome (schedule s jitter) 0 with hreturned | ⟨-, hnan⟩
        · exact hreturned
        · exact absurd (hdelays _ hnan) not_within_nan
  · obtain ⟨henabled, hmax⟩ := Classical.not_imp.1 hschedule
    rw [postWithRetry, backoffDelays_eq_none henabled (not_le.1 hmax)]
    refine iff_of_false (fun h => ?_) fun h => hschedule h.schedule
    obtain ⟨p, hp, -⟩ := h.last
    cases hp

/-! ## Answers that are never bounded -/

def defaultSettings : Settings where
  retryEnabled := true
  maxAttempts := 2
  baseDelaySeconds := ofRat (1 / 10)
  maxDelaySeconds := .finite 1
  isFloat_maxDelay := by
    rintro _ ⟨⟩
    exact nearest_pow 0

def overloaded (retryAfter : String) (_ : ℕ) : Attempt := ⟨.response 503 (some retryAfter), true⟩

def halfJitter (_ : ℕ) : Jitter := ⟨1 / 2, by norm_num⟩

/-- A negative header sleeps less than nothing, and one of nan raises. -/
theorem headers_unbounded :
    ¬ Bounded defaultSettings
        (postWithRetry asciiDigit defaultSettings halfJitter (overloaded "-5")) ∧
      ¬ Bounded defaultSettings
        (postWithRetry asciiDigit defaultSettings halfJitter (overloaded "nan")) := by
  constructor
  · intro h
    have hwithin := h.delays (.finite (-5)) (by decide +kernel)
    have hnonneg := (within_finite.1 hwithin).1
    norm_num at hnonneg
  · intro h
    have hraised : (postWithRetry asciiDigit defaultSettings halfJitter (overloaded "nan")).2 =
      .raised := by decide +kernel
    obtain ⟨p, -, hp⟩ := h.last
    rw [hraised] at hp
    cases hp

/-! ## The loop of the forward path -/

section Forward

variable {digit : Char → Option ℕ} {s : Settings}

def viewOf (header : Forward.Response → Option String) (a : Forward.Attempt) : Attempt :=
  match a.posted with
  | none => ⟨.requestError, a.stillInBudget⟩
  | some r => ⟨.response r.status (header r), a.inBudget⟩

def postedOf (header : Forward.Response → Option String) : Option Forward.Response → Posted
  | none => .requestError
  | some r => .response r.status (header r)

theorem posted_viewOf (header : Forward.Response → Option String) (a : Forward.Attempt) :
    (viewOf header a).posted = postedOf header a.posted := by
  rw [viewOf]
  cases a.posted <;> rfl

theorem retry_forward {header : Forward.Response → Option String} {sent : Forward.Effect}
    {run : List Event × Outcome} {sends : List Forward.Effect × Option Forward.Response}
    (p : Posted) (d : PyFloat) (h : run.2 = .raised ∨
      (posts run.1).length = sends.1.length ∧ run.2 = .returned (postedOf header sends.2)) :
    (if d = .nan then ([.post p, .sleep d], .raised)
        else (.post p :: .sleep d :: run.1, run.2) : List Event × Outcome).2 = .raised ∨
      (posts (if d = .nan then ([.post p, .sleep d], .raised)
          else (.post p :: .sleep d :: run.1, run.2) : List Event × Outcome).1).length =
          (sent :: sends.1).length ∧
        (if d = .nan then ([.post p, .sleep d], .raised)
          else (.post p :: .sleep d :: run.1, run.2) : List Event × Outcome).2 =
          .returned (postedOf header sends.2) := by
  split_ifs
  · exact .inl rfl
  · exact h.imp_right fun h => ⟨congrArg (· + 1) h.1, h.2⟩

theorem forward_succ (header : Forward.Response → Option String) (net : Forward.Network)
    (sent : Forward.Effect) (n i : ℕ) : Forward.postLoop sent net (n + 1) i =
      if (viewOf header (net i)).posted.retryable = true ∧
          (viewOf header (net i)).inBudget = true then
        (sent :: (Forward.postLoop sent net n (i + 1)).1, (Forward.postLoop sent net n (i + 1)).2)
      else ([sent], (net i).posted) := by
  rw [Forward.postLoop, viewOf]
  cases hposted : (net i).posted with
  | none => simp [Posted.retryable]
  | some r =>
    by_cases h200 : r.status = 200
    · simp [Posted.retryable, h200]
    · by_cases hfail : isUpstreamFailure r.status = true <;>
        simp [Posted.retryable, isRetryableStatus, h200, hfail]

/-- Until it raises, the loop sends as often as that of the forward path and ends with its
answer. -/
theorem postLoop_forward (header : Forward.Response → Option String) (net : Forward.Network)
    (sent : Forward.Effect) (ds : List PyFloat) (i : ℕ) :
    (postLoop digit s (fun j => viewOf header (net j)) ds i).2 = .raised ∨
      (posts (postLoop digit s (fun j => viewOf header (net j)) ds i).1).length =
          (Forward.postLoop sent net ds.length i).1.length ∧
        (postLoop digit s (fun j => viewOf header (net j)) ds i).2 =
          .returned (postedOf header (Forward.postLoop sent net ds.length i).2) := by
  induction ds generalizing i with
  | nil => exact .inr ⟨rfl, congrArg _ (posted_viewOf header (net i))⟩
  | cons d ds ih =>
    rw [postLoop_cons, List.length_cons, forward_succ header]
    by_cases hretry : (viewOf header (net i)).posted.retryable = true ∧
        (viewOf header (net i)).inBudget = true
    · rw [if_pos hretry, if_pos hretry]
      exact retry_forward _ _ (ih (i + 1))
    · rw [if_neg hretry, if_neg hretry]
      exact .inr ⟨rfl, congrArg _ (posted_viewOf header (net i))⟩

end Forward

end Varsten.Proxy.Resilience
