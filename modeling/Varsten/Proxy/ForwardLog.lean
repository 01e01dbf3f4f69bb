import Varsten.Proxy.Forward

/-!
# The logs of forwarded requests

What a run of either forward path can look like: the sends of a retry loop, the
breaker call of the primary, the degradation model's part after a failed primary
and at most one capture at the end.
-/

namespace Varsten.Proxy.Forward

open Python (Json Py PyError Gen)
open Providers (Adapter CanonicalCompletion)

variable {σ : Type}

/-- The answer `post_with_retry` ends with. -/
def finalAnswer (net : Network) : ℕ → ℕ → Option Response
  | 0, attempt => (net attempt).posted
  | retries + 1, attempt =>
    match (net attempt).posted with
    | none => if (net attempt).stillInBudget then finalAnswer net retries (attempt + 1) else none
    | some r =>
      if isUpstreamFailure r.status = true ∧ (net attempt).inBudget = true then
        finalAnswer net retries (attempt + 1)
      else some r

def PrimaryFailed (net : Network) (retries : ℕ) : Prop :=
  ∀ r ∈ finalAnswer net retries 0, isUpstreamFailure r.status = true

inductive Bookkeeping : List Effect → Prop where
  | dropped : Bookkeeping []
  | captured (args : CaptureArgs) : Bookkeeping [.capture args]

inductive FallbackLog (adapter : Adapter σ) (cfg : Resilience) (req : Request) (fbNet : Network) :
    List Effect → Prop where
  | unconfigured
      (none : fallbackModel cfg.fallbackEnabled cfg.configuredFallback req.upstream = none) :
      FallbackLog adapter cfg req fbNet []
  | raised {fbModel : String} {e : PyError}
      (some : fallbackModel cfg.fallbackEnabled cfg.configuredFallback req.upstream = some fbModel)
      (prepared : adapter.prepareRequest req.body fbModel false = .error e) :
      FallbackLog adapter cfg req fbNet []
  | silent {fbModel : String} {wire : Json}
      (some : fallbackModel cfg.fallbackEnabled cfg.configuredFallback req.upstream = some fbModel)
      (prepared : adapter.prepareRequest req.body fbModel false = .ok wire)
      (answer : ∀ r ∈ finalAnswer fbNet cfg.retries 0, r.status ≠ 200) :
      FallbackLog adapter cfg req fbNet
        (postLoop (send adapter req fbModel wire) fbNet cfg.retries 0).1
  | answered {fbModel : String} {wire : Json} {r : Response} {rest : List Effect}
      (some : fallbackModel cfg.fallbackEnabled cfg.configuredFallback req.upstream = some fbModel)
      (prepared : adapter.prepareRequest req.body fbModel false = .ok wire)
      (answer : finalAnswer fbNet cfg.retries 0 = .some r) (ok : r.status = 200)
      (tail : Bookkeeping rest) :
      FallbackLog adapter cfg req fbNet
        ((postLoop (send adapter req fbModel wire) fbNet cfg.retries 0).1 ++
          .recordSuccess :: rest)

theorem not_failure_200 : isUpstreamFailure 200 = false := by decide

theorem postLoop_answer (sent : Effect) (net : Network) (n i : ℕ) :
    (postLoop sent net n i).2 = finalAnswer net n i := by
  induction n generalizing i with
  | zero => rfl
  | succ n ih =>
    rw [postLoop, finalAnswer]
    rcases h : (net i).posted with _ | r
    · by_cases hb : (net i).stillInBudget = true <;> simp [hb, ih]
    · by_cases h200 : r.status = 200
      · simp [h200, not_failure_200]
      · by_cases hf : isUpstreamFailure r.status = true <;>
          by_cases hb : (net i).inBudget = true <;> simp [h200, hf, hb, ih]

theorem postLoop_log (sent : Effect) (net : Network) (n i : ℕ) :
    ∃ k, (postLoop sent net n i).1 = List.replicate (k + 1) sent := by
  induction n generalizing i with
  | zero => exact ⟨0, rfl⟩
  | succ n ih =>
    have hretry : ∃ k, sent :: (postLoop sent net n (i + 1)).1 = List.replicate (k + 1) sent := by
      obtain ⟨k, hk⟩ := ih (i + 1)
      exact ⟨k + 1, by rw [hk]; rfl⟩
    rw [postLoop]
    rcases (net i).posted with _ | r
    · dsimp only
      split_ifs
      · exact hretry
      · exact ⟨0, rfl⟩
    · dsimp only
      split_ifs
      · exact ⟨0, rfl⟩
      · exact hretry
      · exact ⟨0, rfl⟩

theorem streamCapture_bookkeeping (adapter : Adapter σ) (req : Request) (s : σ) :
    Bookkeeping (streamCapture adapter req s) := by
  unfold streamCapture
  cases adapter.finish s with
  | error e => exact .dropped
  | ok result => exact .captured _

theorem streamThrough_log {adapter : Adapter σ} {retries : ℕ} {req : Request} {net : Network}
    {log : List Effect} (h : streamThrough adapter retries req net = .ok log) :
    ∃ wire rest, adapter.prepareRequest req.body req.upstream true = .ok wire ∧
      Bookkeeping rest ∧ log = (streamLoop adapter (send adapter req req.upstream wire) net
        retries 0 adapter.translator).1 ++ rest := by
  obtain ⟨wire, hw, h⟩ := Python.Py.bind_eq_ok.1 h
  refine ⟨wire, ?_⟩
  dsimp only at h
  split at h
  · exact ⟨_, hw, streamCapture_bookkeeping adapter req _, (Except.ok.inj h).symm⟩
  · exact ⟨_, hw, streamCapture_bookkeeping adapter req _, (Except.ok.inj h).symm⟩
  · exact ⟨[], hw, .dropped, by rw [List.append_nil]; exact (Except.ok.inj h).symm⟩

theorem answered_log (adapter : Adapter σ) (http : BodyReader) (r : Response)
    (capture : CanonicalCompletion → CaptureArgs) (fbModel : Option String) :
    ∃ rest, Bookkeeping rest ∧
      (answered adapter http r capture fbModel).1 = .recordSuccess :: rest := by
  unfold answered
  cases r.json http >>= adapter.parseCompletion with
  | error e => exact ⟨[], .dropped, rfl⟩
  | ok result => exact ⟨_, .captured _, rfl⟩

theorem forwardFallback_log {adapter : Adapter σ} {cfg : Resilience} {req : Request}
    {fbModel : String} (http : BodyReader) (fbNet : Network)
    (hm : fallbackModel cfg.fallbackEnabled cfg.configuredFallback req.upstream = some fbModel) :
    FallbackLog adapter cfg req fbNet
      (forwardFallback adapter http cfg.retries req fbModel fbNet).1 := by
  unfold forwardFallback
  cases hw : adapter.prepareRequest req.body fbModel false with
  | error e => exact .raised hm hw
  | ok wire =>
    simp only [postLoop_answer]
    cases hr : finalAnswer fbNet cfg.retries 0 with
    | none => exact .silent hm hw (by simp [hr])
    | some r =>
      by_cases hs : r.status = 200
      · obtain ⟨rest, hrest, ha⟩ := answered_log adapter http r _ (some fbModel)
        simp only [hs, if_true]
        rw [ha]
        exact .answered hm hw hr hs hrest
      · simp only [hs, if_false]
        exact .silent hm hw (by simp [hr, hs])

theorem forwardFailed_log (adapter : Adapter σ) (http : BodyReader) (cfg : Resilience)
    (req : Request) (fbNet : Network) (posted : List Effect × Option Response) :
    ∃ rest, FallbackLog adapter cfg req fbNet rest ∧
      (forwardFailed adapter http cfg req fbNet posted).1 = posted.1 ++ .recordFailure :: rest := by
  unfold forwardFailed
  cases hm : fallbackModel cfg.fallbackEnabled cfg.configuredFallback req.upstream with
  | none => exact ⟨[], .unconfigured hm, rfl⟩
  | some fbModel => exact ⟨_, forwardFallback_log http fbNet hm, rfl⟩

/-- A run that does not stream posts the primary request, records its outcome and, after a
failure, tries the degradation model. -/
theorem forwardOnce_log {adapter : Adapter σ} {http : BodyReader} {cfg : Resilience}
    {req : Request} {net fbNet : Network} {log : List Effect} {reply : Reply}
    (h : forwardOnce adapter http cfg req net fbNet = .ok (log, reply)) :
    ∃ wire rest, adapter.prepareRequest req.body req.upstream false = .ok wire ∧
      (¬ PrimaryFailed net cfg.retries ∧ Bookkeeping rest ∧
          log = (postLoop (send adapter req req.upstream wire) net cfg.retries 0).1 ++
            .recordSuccess :: rest ∨
        PrimaryFailed net cfg.retries ∧ FallbackLog adapter cfg req fbNet rest ∧
          log = (postLoop (send adapter req req.upstream wire) net cfg.retries 0).1 ++
            .recordFailure :: rest) := by
  obtain ⟨wire, hw, h⟩ := Python.Py.bind_eq_ok.1 h
  dsimp only at h
  refine ⟨wire, ?_⟩
  have hfailed : forwardFailed adapter http cfg req fbNet
      (postLoop (send adapter req req.upstream wire) net cfg.retries 0) = (log, reply) →
      ∃ rest, FallbackLog adapter cfg req fbNet rest ∧
        log = (postLoop (send adapter req req.upstream wire) net cfg.retries 0).1 ++
          .recordFailure :: rest := by
    intro hf
    obtain ⟨rest, hrest, hlog⟩ := forwardFailed_log adapter http cfg req fbNet
      (postLoop (send adapter req req.upstream wire) net cfg.retries 0)
    exact ⟨rest, hrest, by rw [← hlog, hf]⟩
  simp only [PrimaryFailed]
  cases hr : finalAnswer net cfg.retries 0 with
  | none =>
    simp only [postLoop_answer, hr] at h
    obtain ⟨rest, hrest, hlog⟩ := hfailed (Except.ok.inj h)
    exact ⟨rest, hw, Or.inr ⟨by simp, hrest, hlog⟩⟩
  | some r =>
    simp only [postLoop_answer, hr] at h
    by_cases hs : r.status = 200
    · simp only [hs, if_true] at h
      obtain ⟨rest, hrest, ha⟩ := answered_log adapter http r _ none
      rw [ha] at h
      exact ⟨rest, hw, Or.inl ⟨by simp [hs, not_failure_200], hrest,
        (congrArg Prod.fst (Except.ok.inj h)).symm⟩⟩
    · by_cases hf : isUpstreamFailure r.status = true
      · simp only [hs, hf, if_false, Bool.not_true, Bool.false_eq_true] at h
        obtain ⟨rest, hrest, hlog⟩ := hfailed (Except.ok.inj h)
        exact ⟨rest, hw, Or.inr ⟨by simp [hf], hrest, hlog⟩⟩
      · simp only [hs, hf, if_false, if_true, Bool.not_false] at h
        exact ⟨[], hw, Or.inl ⟨by simp [hf], .dropped,
          (congrArg Prod.fst (Except.ok.inj h)).symm⟩⟩

/-! ## Streams -/

inductive PassEffect : Effect → Prop where
  | success : PassEffect .recordSuccess
  | failure : PassEffect .recordFailure
  | yielded (out : Providers.Out) : PassEffect (.yield out)
  | upstreamError : PassEffect .upstreamError

theorem streamExcept_effects {more hasStreamed : Bool} {a : Attempt} {s : σ} {e : Effect}
    (h : e ∈ (streamExcept more a hasStreamed s).1) : PassEffect e := by
  unfold streamExcept at h
  split_ifs at h
  · cases h
  · simp only [List.mem_cons, List.not_mem_nil, or_false] at h
    rcases h with rfl | rfl | rfl
    · exact .failure
    · exact .upstreamError
    · exact .yielded _

theorem streamPass_effects {adapter : Adapter σ} {more : Bool} {a : Attempt} {s : σ} {e : Effect}
    (h : e ∈ (streamPass adapter more a s).1) : PassEffect e := by
  unfold streamPass at h
  cases hr : a.response with
  | none =>
    rw [hr] at h
    exact streamExcept_effects h
  | some r =>
    rw [hr] at h
    dsimp only at h
    have hread : ∀ record, PassEffect record → e ∈ (if r.complete = true then
        ([record, .yield (.bytes r.chunks.flatten)], .returned)
        else (record :: (streamExcept more a false s).1, (streamExcept more a false s).2)).1 →
        PassEffect e := by
      intro record hrecord hm
      split_ifs at hm
      · simp only [List.mem_cons, List.not_mem_nil, or_false] at hm
        rcases hm with rfl | rfl
        · exact hrecord
        · exact .yielded _
      · rcases List.mem_cons.1 hm with rfl | hm
        · exact hrecord
        · exact streamExcept_effects hm
    have hyield : e ∈ Effect.recordSuccess :: (pushAll adapter s r.chunks).out.map .yield →
        PassEffect e := by
      intro hm
      rcases List.mem_cons.1 hm with rfl | hm
      · exact .success
      · obtain ⟨o, -, rfl⟩ := List.mem_map.1 hm
        exact .yielded o
    split at h
    · split at h
      · split at h
        · split at h
          · cases h
          · exact streamExcept_effects h
        · exact hread _ .failure h
      · exact hread _ .success h
    · split at h
      · exact hyield h
      · split at h
        · exact hyield h
        · rcases List.mem_append.1 h with h | h
          · exact hyield h
          · exact streamExcept_effects h

def Attempt.whole (a : Attempt) : Option (List Python.Utf8.Bytes) :=
  match a.response with
  | some r => if r.status = 200 ∧ r.complete = true then some r.chunks else none
  | none => none

/-- The loop goes on to its next attempt. -/
def Attempt.again (a : Attempt) : Bool :=
  match a.response with
  | none => a.stillInBudget
  | some r =>
    if r.status ≠ 200 then
      if r.complete then isUpstreamFailure r.status && a.inBudget else a.stillInBudget
    else !r.complete && r.chunks.isEmpty && a.stillInBudget

/-- The whole answer that a streamed run ends with. -/
def delivered (net : Network) : ℕ → ℕ → Option (List Python.Utf8.Bytes)
  | 0, attempt => (net attempt).whole
  | retries + 1, attempt =>
    if (net attempt).again then delivered net retries (attempt + 1) else (net attempt).whole

/-- How the run ends: the translator's state after a whole answer, or nothing to keep. -/
def Ends (adapter : Adapter σ) (s : σ) : Option (List Python.Utf8.Bytes) → Pass σ → Prop
  | some chunks, pass => pass = match (pushAll adapter s chunks).result with
    | .ok s' => .streamed s'
    | .error e => .raised e
  | none, pass => pass = .returned ∨ ∃ e, pass = .raised e

theorem Ends.not_retry {adapter : Adapter σ} {s : σ} {whole : Option (List Python.Utf8.Bytes)}
    {pass : Pass σ} (h : Ends adapter s whole pass) (s' : σ) : pass ≠ .retry s' := by
  rintro rfl
  cases whole with
  | none => simp [Ends] at h
  | some chunks =>
    rw [Ends] at h
    cases hr : (pushAll adapter s chunks).result <;> simp [hr] at h

theorem streamPass_ends (adapter : Adapter σ) (more : Bool) (a : Attempt) (s : σ) :
    (more && a.again) = true ∧ (streamPass adapter more a s).2 = .retry s ∨
      (more && a.again) = false ∧ Ends adapter s a.whole (streamPass adapter more a s).2 := by
  have hexcept : ∀ hasStreamed (s : σ), (streamExcept more a hasStreamed s).2 =
      if !hasStreamed && more && a.stillInBudget then .retry s else .returned := by
    intro hasStreamed s
    unfold streamExcept
    split_ifs <;> rfl
  cases hr : a.response with
  | none =>
    have hw : a.whole = none := by simp [Attempt.whole, hr]
    rw [hw]
    unfold streamPass Attempt.again Ends
    cases more <;> cases hb : a.stillInBudget <;> simp [hr, hexcept, hb]
  | some r =>
    by_cases h200 : r.status = 200
    · have hw : a.whole = if r.complete = true then some r.chunks else none := by
        simp [Attempt.whole, hr, h200]
      rw [hw]
      unfold streamPass Attempt.again
      cases hp : (pushAll adapter s r.chunks).result with
      | error e =>
        have hne : r.chunks.isEmpty = false := by
          cases hc : r.chunks with
          | nil =>
            rw [hc] at hp
            cases hp
          | cons c cs => rfl
        cases hc : r.complete <;> simp [hr, h200, hp, hc, hne, Ends]
      | ok s' =>
        cases hc : r.complete with
        | true => simp [hr, h200, hp, hc, Ends]
        | false =>
          cases hcs : r.chunks with
          | nil =>
            rw [hcs] at hp
            obtain rfl : s = s' := Except.ok.inj hp
            cases more <;> cases hb : a.stillInBudget <;>
              simp [hr, h200, hcs, hc, hb, hexcept, Ends, pushAll, Gen.fold, Gen.ok]
          | cons c cs =>
            rw [hcs] at hp
            simp [hr, h200, hcs, hp, hc, hexcept, Ends]
    · have hw : a.whole = none := by simp [Attempt.whole, hr, h200]
      rw [hw]
      unfold streamPass Attempt.again Ends
      cases hc : r.complete with
      | true =>
        cases hf : isUpstreamFailure r.status <;> cases more <;> simp [hr, h200, hf, hc]
        cases a.inBudget <;> simp
      | false =>
        cases hf : isUpstreamFailure r.status <;> cases more <;> cases hst : a.stillInBudget <;>
          cases a.inBudget <;> simp [hr, h200, hf, hc, hst, hexcept]

theorem streamLoop_ends (adapter : Adapter σ) (sent : Effect) (net : Network) (n i : ℕ) (s : σ) :
    Ends adapter s (delivered net n i) (streamLoop adapter sent net n i s).2 := by
  induction n generalizing i with
  | zero =>
    rcases streamPass_ends adapter false (net i) s with ⟨h, -⟩ | ⟨-, h⟩
    · cases h
    · exact h
  | succ n ih =>
    rw [streamLoop, delivered]
    rcases streamPass_ends adapter true (net i) s with ⟨h, hp⟩ | ⟨h, hp⟩
    · rw [Bool.true_and] at h
      simp only [h, hp, if_true]
      exact ih (i + 1)
    · rw [Bool.true_and] at h
      simp only [h, Bool.false_eq_true, if_false]
      split
      · rename_i s' hs
        exact absurd hs (hp.not_retry s')
      · exact hp

/-! ## Captures -/

def Effect.captured : Effect → Option CaptureArgs
  | .capture args => some args
  | _ => none

def captures (log : List Effect) : List CaptureArgs := log.filterMap Effect.captured

theorem captures_append (log rest : List Effect) :
    captures (log ++ rest) = captures log ++ captures rest := List.filterMap_append

theorem postLoop_captures {adapter : Adapter σ} {req : Request} {model : String} {wire : Json}
    (net : Network) (n i : ℕ) :
    captures (postLoop (send adapter req model wire) net n i).1 = [] := by
  obtain ⟨k, hk⟩ := postLoop_log (send adapter req model wire) net n i
  rw [hk]
  refine List.filterMap_eq_nil_iff.2 fun e he => ?_
  rw [List.eq_of_mem_replicate he]
  rfl

theorem streamLoop_captures {adapter : Adapter σ} {sent : Effect} (hs : sent.captured = none)
    (net : Network) (n i : ℕ) (s : σ) :
    captures (streamLoop adapter sent net n i s).1 = [] := by
  have hpass : ∀ more a s, captures (sent :: (streamPass adapter more a s).1) = [] := by
    intro more a s
    refine List.filterMap_eq_nil_iff.2 fun e he => ?_
    rcases List.mem_cons.1 he with rfl | he
    · exact hs
    · cases streamPass_effects he <;> rfl
  induction n generalizing i s with
  | zero => exact hpass false (net i) s
  | succ n ih =>
    rw [streamLoop]
    dsimp only
    split
    · rename_i s' _
      rw [captures_append, hpass, ih, List.append_nil]
    · exact hpass true (net i) s

/-- The completion that a stream's chunks are assembled to. -/
def assembled (adapter : Adapter σ) (chunks : List Python.Utf8.Bytes) : Py CanonicalCompletion :=
  (pushAll adapter adapter.translator chunks).result >>= adapter.finish

/-- A streamed run captures what its whole answer was assembled to, and nothing else. -/
theorem streamThrough_captures {adapter : Adapter σ} {retries : ℕ} {req : Request} {net : Network}
    {log : List Effect} (h : streamThrough adapter retries req net = .ok log) :
    captures log = match delivered net retries 0 with
      | none => []
      | some chunks => match assembled adapter chunks with
        | .ok result => [streamCaptureArgs adapter.provider req result]
        | .error _ => [] := by
  obtain ⟨wire, -, h⟩ := Python.Py.bind_eq_ok.1 h
  dsimp only at h
  have hends := streamLoop_ends adapter (send adapter req req.upstream wire) net retries 0
    adapter.translator
  have hloop : captures (streamLoop adapter (send adapter req req.upstream wire) net retries 0
      adapter.translator).1 = [] := streamLoop_captures rfl net retries 0 adapter.translator
  have hfinish : ∀ s, captures (streamCapture adapter req s) = match adapter.finish s with
      | .ok result => [streamCaptureArgs adapter.provider req result]
      | .error _ => [] := by
    intro s
    unfold streamCapture
    cases adapter.finish s <;> rfl
  cases hd : delivered net retries 0 with
  | none =>
    rw [hd] at hends
    rcases hends with hp | ⟨e, hp⟩
    all_goals
      rw [hp] at h
      obtain rfl := Except.ok.inj h
      exact hloop
  | some chunks =>
    rw [hd, Ends] at hends
    simp only [assembled]
    cases hr : (pushAll adapter adapter.translator chunks).result with
    | error e =>
      rw [hr] at hends
      rw [hends] at h
      obtain rfl := Except.ok.inj h
      exact hloop
    | ok s =>
      rw [hr] at hends
      rw [hends] at h
      obtain rfl := Except.ok.inj h
      rw [captures_append, hloop, hfinish]
      rfl

end Varsten.Proxy.Forward
