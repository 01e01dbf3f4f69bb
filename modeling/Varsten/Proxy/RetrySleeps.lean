import Varsten.Proxy.Resilience

/-!
# The forward path with its sleeps

`_stream_through`, `_forward_once` and `_forward_fallback` with what can end a run before its time:
the delays overflow, a body cannot be written, or the sleep before a retry does not return. Where
none of this happens, the runs are those of the forward path.
-/

namespace Varsten.Proxy.RetrySleeps

open Python (Json Py)
open Python.Floats (PyFloat)
open Providers (Adapter CanonicalCompletion)
open Forward
open Proxy.Resilience (Settings Jitter retriesEnabled jittered backoffDelays delayAfter postedOf)

variable {σ : Type}

/-- `asyncio.sleep` raises on nan, and does not come back from infinity. -/
def returns : PyFloat → Bool
  | .finite _ => true
  | .inf negative => negative
  | .nan => false

/-- The settings of a run, how `float` reads a digit, the `Retry-After` of an answer, which request
bodies httpx writes, and which answers a `JSONResponse` can be written from. -/
structure Setup where
  settings : Settings
  fallbackEnabled : Bool
  configuredFallback : Option String
  captureDetached : Bool
  digit : Char → Option ℕ
  header : Response → Option String
  encodes : Json → Bool
  http : BodyReader
  writes : Response → Bool

namespace Setup

variable (t : Setup)

/-- `len(delays)`. -/
def retries : ℕ := if retriesEnabled t.settings then t.settings.maxAttempts.toNat else 0

/-- The sleep after attempt `i` returns. -/
def wakes (jitter : ℕ → Jitter) (net : Network) (i : ℕ) : Bool :=
  returns (delayAfter t.digit t.settings (jittered t.settings jitter i)
    (postedOf t.header (net i).posted))

/-- What is done before the first request is on its way: its body, the delays and its text. -/
def prepared (adapter : Adapter σ) (jitter : ℕ → Jitter) (body : Json) (model : String)
    (stream : Bool) : Py Json := do
  let wire ← adapter.prepareRequest body model stream
  if (backoffDelays t.settings jitter).isSome && t.encodes wire then return wire
  else .error .valueError

end Setup

/-! ## Streaming -/

/-- The retry loop of a stream; `none` where a sleep does not return. -/
def streamLoop (adapter : Adapter σ) (sent : Effect) (net : Network) (wakes : ℕ → Bool) :
    ℕ → ℕ → σ → List Effect × Option (Pass σ)
  | 0, attempt, s =>
    let pass := streamPass adapter false (net attempt) s
    (sent :: pass.1, some pass.2)
  | retries + 1, attempt, s =>
    let pass := streamPass adapter true (net attempt) s
    match pass.2 with
    | .retry s =>
      if wakes attempt then
        let rest := streamLoop adapter sent net wakes retries (attempt + 1) s
        (sent :: pass.1 ++ rest.1, rest.2)
      else (sent :: pass.1, none)
    | _ => (sent :: pass.1, some pass.2)

def Setup.streamThrough (t : Setup) (adapter : Adapter σ) (jitter : ℕ → Jitter) (req : Request)
    (net : Network) : List Effect :=
  match t.prepared adapter jitter req.body req.upstream true with
  | .error _ => []
  | .ok wire =>
    let run := streamLoop adapter (send adapter req req.upstream wire) net (t.wakes jitter net)
      t.retries 0 adapter.translator
    match run.2 with
    | some (.streamed s) | some (.retry s) => run.1 ++ streamCapture adapter req s
    | _ => run.1

/-! ## Not streaming -/

/-- `post_with_retry`; the answer is `none` where a sleep does not return. -/
def postLoop (sent : Effect) (net : Network) (wakes : ℕ → Bool) :
    ℕ → ℕ → List Effect × Option (Option Response)
  | 0, attempt => ([sent], some (net attempt).posted)
  | retries + 1, attempt =>
    let a := net attempt
    let retry :=
      if wakes attempt then
        let rest := postLoop sent net wakes retries (attempt + 1)
        (sent :: rest.1, rest.2)
      else ([sent], none)
    match a.posted with
    | none => if a.stillInBudget then retry else ([sent], some none)
    | some r =>
      if r.status = 200 || !isUpstreamFailure r.status then ([sent], some (some r))
      else if a.inBudget then retry
      else ([sent], some (some r))

namespace Setup

variable (t : Setup)

def relayed (r : Response) : Reply :=
  if t.writes r then .json r.status (r.detail t.http) none else .raised .valueError

/-- What is done with a 200 answer; a capture that `runs` does so although the answer cannot be
written. -/
def answered (adapter : Adapter σ) (r : Response) (capture : CanonicalCompletion → CaptureArgs)
    (fallbackModel : Option String) (runs : Bool) : List Effect × Reply :=
  let done := Forward.answered adapter t.http r capture fallbackModel
  match done.2 with
  | .json .. =>
    if t.writes r then done
    else (if runs then done.1 else [.recordSuccess], .raised .valueError)
  | _ => done

/-- `_forward_fallback`; `some none` where the degradation model does not answer. -/
def forwardFallback (adapter : Adapter σ) (jitter : ℕ → Jitter) (req : Request) (fbModel : String)
    (net : Network) : List Effect × Option (Option Reply) :=
  match t.prepared adapter jitter req.body fbModel false with
  | .error e => ([], some (some (.raised e)))
  | .ok wire =>
    let posted := postLoop (send adapter req fbModel wire) net (t.wakes jitter net) t.retries 0
    match posted.2 with
    | none => (posted.1, none)
    | some none => (posted.1, some none)
    | some (some r) =>
      if r.status = 200 then
        let done := t.answered adapter r (fallbackArgs adapter req fbModel) (some fbModel) true
        (posted.1 ++ done.1, some (some done.2))
      else (posted.1, some none)

def fallback (req : Request) : Option String :=
  fallbackModel t.fallbackEnabled t.configuredFallback req.upstream

/-- `_forward_once` after the primary failed. -/
def forwardFailed (adapter : Adapter σ) (jitter : ℕ → Jitter) (req : Request) (fbNet : Network)
    (sent : List Effect) (answer : Option Response) : List Effect × Option Reply :=
  let relayed : Reply := match answer with
    | some r => t.relayed r
    | none => .upstreamUnreachable
  match t.fallback req with
  | none => (sent ++ [.recordFailure], some relayed)
  | some fbModel =>
    let fb := t.forwardFallback adapter jitter req fbModel fbNet
    (sent ++ .recordFailure :: fb.1, fb.2.map (·.getD relayed))

/-- `_forward_once`; the degradation model draws its own jitter and meets its own network. -/
def forwardOnce (adapter : Adapter σ) (jitter fbJitter : ℕ → Jitter) (req : Request)
    (net fbNet : Network) : List Effect × Option Reply :=
  match t.prepared adapter jitter req.body req.upstream false with
  | .error e => ([], some (.raised e))
  | .ok wire =>
    let posted := postLoop (send adapter req req.upstream wire) net (t.wakes jitter net) t.retries 0
    match posted.2 with
    | none => (posted.1, none)
    | some none => t.forwardFailed adapter fbJitter req fbNet posted.1 none
    | some (some r) =>
      if r.status = 200 then
        let done := t.answered adapter r (onceArgs adapter req) none t.captureDetached
        (posted.1 ++ done.1, some done.2)
      else if !isUpstreamFailure r.status then
        (posted.1 ++ [.recordSuccess], some (t.relayed r))
      else t.forwardFailed adapter fbJitter req fbNet posted.1 (some r)

end Setup

/-! ## Runs whose sleeps return -/

/-- `post_with_retry` goes on to its next attempt. -/
def repeated (a : Attempt) : Bool :=
  match a.posted with
  | none => a.stillInBudget
  | some r => isUpstreamFailure r.status && a.inBudget

/-- Every sleep of a run returns that goes on after the attempts of `again`. -/
def Rests (again : Attempt → Bool) (net : Network) (wakes : ℕ → Bool) : ℕ → ℕ → Prop
  | 0, _ => True
  | retries + 1, attempt => again (net attempt) = true →
      wakes attempt = true ∧ Rests again net wakes retries (attempt + 1)

section Runs

variable {adapter : Adapter σ} {sent : Effect} {net : Network} {wakes : ℕ → Bool}

theorem streamPass_again {a : Attempt} (s : σ) (h : a.again = true) :
    (streamPass adapter true a s).2 = .retry s := by
  rcases streamPass_ends adapter true a s with ⟨-, hpass⟩ | ⟨hno, -⟩
  · exact hpass
  · simp [h] at hno

theorem streamPass_final {a : Attempt} (s : σ) (h : a.again = false) (s' : σ) :
    (streamPass adapter true a s).2 ≠ .retry s' := by
  rcases streamPass_ends adapter true a s with ⟨hagain, -⟩ | ⟨-, hends⟩
  · simp [h] at hagain
  · exact hends.not_retry s'

theorem streamLoop_again {n i : ℕ} (s : σ) (h : (net i).again = true) :
    streamLoop adapter sent net wakes (n + 1) i s =
      if wakes i = true then
        (sent :: (streamPass adapter true (net i) s).1 ++
          (streamLoop adapter sent net wakes n (i + 1) s).1,
          (streamLoop adapter sent net wakes n (i + 1) s).2)
      else (sent :: (streamPass adapter true (net i) s).1, none) := by
  rw [streamLoop]
  simp only [streamPass_again s h]

theorem streamLoop_final {n i : ℕ} (s : σ) (h : (net i).again = false) :
    streamLoop adapter sent net wakes (n + 1) i s =
      (sent :: (streamPass adapter true (net i) s).1,
        some (streamPass adapter true (net i) s).2) := by
  rw [streamLoop]
  dsimp only
  split
  · rename_i s' hs
    exact absurd hs (streamPass_final s h s')
  · rfl

theorem streamLoop_rests {n i : ℕ} (s : σ) (h : Rests Attempt.again net wakes n i) :
    streamLoop adapter sent net wakes n i s =
      ((Forward.streamLoop adapter sent net n i s).1,
        some (Forward.streamLoop adapter sent net n i s).2) := by
  induction n generalizing i with
  | zero => rfl
  | succ n ih =>
    cases hagain : (net i).again with
    | true =>
      obtain ⟨hwakes, hrest⟩ := h hagain
      rw [streamLoop_again s hagain, if_pos hwakes, ih hrest, Forward.streamLoop]
      simp only [streamPass_again s hagain]
    | false =>
      rw [streamLoop_final s hagain, Forward.streamLoop]
      dsimp only
      split
      · rename_i s' hs
        exact absurd hs (streamPass_final s hagain s')
      · rfl

theorem postLoop_succ (n i : ℕ) : postLoop sent net wakes (n + 1) i =
    if repeated (net i) = true then
      if wakes i = true then
        (sent :: (postLoop sent net wakes n (i + 1)).1, (postLoop sent net wakes n (i + 1)).2)
      else ([sent], none)
    else ([sent], some (net i).posted) := by
  rw [postLoop, repeated]
  cases hposted : (net i).posted with
  | none => rfl
  | some r =>
    by_cases h200 : r.status = 200
    · simp [h200, not_failure_200]
    · by_cases hf : isUpstreamFailure r.status = true <;> simp [h200, hf]

theorem forwardLoop_succ (n i : ℕ) : Forward.postLoop sent net (n + 1) i =
    if repeated (net i) = true then
      (sent :: (Forward.postLoop sent net n (i + 1)).1, (Forward.postLoop sent net n (i + 1)).2)
    else ([sent], (net i).posted) := by
  rw [Forward.postLoop, repeated]
  cases (net i).posted with
  | none => rfl
  | some r =>
    by_cases h200 : r.status = 200
    · simp [h200, not_failure_200]
    · by_cases hf : isUpstreamFailure r.status = true <;> simp [h200, hf]

theorem postLoop_rests {n i : ℕ} (h : Rests repeated net wakes n i) :
    postLoop sent net wakes n i =
      ((Forward.postLoop sent net n i).1, some (Forward.postLoop sent net n i).2) := by
  induction n generalizing i with
  | zero => rfl
  | succ n ih =>
    rw [postLoop_succ, forwardLoop_succ]
    by_cases hrep : repeated (net i) = true
    · obtain ⟨hwakes, hrest⟩ := h hrep
      rw [if_pos hrep, if_pos hrep, if_pos hwakes, ih hrest]
    · rw [if_neg hrep, if_neg hrep]

theorem postLoop_wakeless {n i : ℕ} (h : ¬ Rests repeated net wakes n i) :
    (postLoop sent net wakes n i).2 = none := by
  induction n generalizing i with
  | zero => exact absurd trivial h
  | succ n ih =>
    rw [Rests, Classical.not_imp, Classical.not_and_iff_not_or_not] at h
    obtain ⟨hrep, hwakes | hrest⟩ := h
    · rw [postLoop_succ, if_pos hrep, if_neg hwakes]
    · rw [postLoop_succ, if_pos hrep]
      split_ifs
      · exact ih hrest
      · rfl

theorem postLoop_log (n i : ℕ) :
    ∃ k, (postLoop sent net wakes n i).1 = List.replicate (k + 1) sent := by
  induction n generalizing i with
  | zero => exact ⟨0, rfl⟩
  | succ n ih =>
    rw [postLoop_succ]
    split_ifs
    · obtain ⟨k, hk⟩ := ih (i + 1)
      exact ⟨k + 1, by rw [hk]; rfl⟩
    · exact ⟨0, rfl⟩
    · exact ⟨0, rfl⟩

end Runs

section Prepared

variable {t : Setup} {adapter : Adapter σ} {jitter : ℕ → Jitter} {req : Request} {net : Network}
  {wire : Json}

theorem prepareRequest_of_prepared {body : Json} {model : String} {stream : Bool}
    (h : t.prepared adapter jitter body model stream = .ok wire) :
    adapter.prepareRequest body model stream = .ok wire := by
  obtain ⟨w, hw, h⟩ := Python.Py.bind_eq_ok.1 h
  split_ifs at h
  rwa [← Except.ok.inj h]

theorem prepared_ok {body : Json} {model : String} {stream : Bool}
    (hprepare : adapter.prepareRequest body model stream = .ok wire)
    (hdelays : (backoffDelays t.settings jitter).isSome = true)
    (hencodes : t.encodes wire = true) :
    t.prepared adapter jitter body model stream = .ok wire := by
  rw [Setup.prepared, hprepare, Python.Py.bind_ok, hdelays, hencodes]
  rfl

theorem streamThrough_rests (h : t.prepared adapter jitter req.body req.upstream true = .ok wire)
    (hrests : Rests Attempt.again net (t.wakes jitter net) t.retries 0) :
    Forward.streamThrough adapter t.retries req net =
      .ok (t.streamThrough adapter jitter req net) := by
  rw [Forward.streamThrough, prepareRequest_of_prepared h, Python.Py.bind_ok,
    Setup.streamThrough, h]
  simp only [streamLoop_rests _ hrests]
  generalize Forward.streamLoop adapter _ net t.retries 0 adapter.translator = run
  obtain ⟨log, s | s | - | e⟩ := run <;> rfl

theorem streamThrough_unprepared
    (h : ¬ ∃ wire, t.prepared adapter jitter req.body req.upstream true = .ok wire) :
    t.streamThrough adapter jitter req net = [] := by
  rw [Setup.streamThrough]
  cases hp : t.prepared adapter jitter req.body req.upstream true with
  | error e => rfl
  | ok wire => exact absurd ⟨wire, hp⟩ h

end Prepared

end Varsten.Proxy.RetrySleeps
