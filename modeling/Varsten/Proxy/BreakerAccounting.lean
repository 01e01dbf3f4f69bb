import Varsten.Proxy.Circuit
import Varsten.Proxy.Providers.OpenAI
import Varsten.Proxy.RetrySleeps

/-!
# One breaker outcome per request

A forwarded request makes one breaker call exactly when no attempt records an
outcome before its body breaks off, and when the degradation model does not
answer after the primary failed. Requests that fail this way open the breaker
after the threshold.
-/

namespace Varsten.Proxy.BreakerAccounting

open Python (Json Py PyError Gen)
open Python.Utf8 (Bytes Text)
open Providers (Adapter CanonicalCompletion Out)
open Forward
open Proxy.Resilience (Jitter)
open RetrySleeps (Setup Rests repeated prepared_ok streamLoop_again streamThrough_rests
  streamThrough_unprepared postLoop_rests postLoop_wakeless)

inductive Outcome where
  | success
  | failure
deriving DecidableEq

def Effect.outcome : Effect → Option Outcome
  | .recordSuccess => some .success
  | .recordFailure => some .failure
  | _ => none

def outcomes (log : List Effect) : List Outcome := log.filterMap Effect.outcome

def Effect.isSend : Effect → Bool
  | .send .. => true
  | _ => false

def sends (log : List Effect) : ℕ := log.countP Effect.isSend

@[simp] theorem outcomes_append (xs ys : List Effect) :
    outcomes (xs ++ ys) = outcomes xs ++ outcomes ys :=
  List.filterMap_append

@[simp] theorem outcomes_nil : outcomes [] = [] := rfl

@[simp] theorem outcomes_success (log : List Effect) :
    outcomes (.recordSuccess :: log) = .success :: outcomes log := rfl

@[simp] theorem outcomes_failure (log : List Effect) :
    outcomes (.recordFailure :: log) = .failure :: outcomes log := rfl

@[simp] theorem outcomes_yield (o : Out) (log : List Effect) :
    outcomes (.yield o :: log) = outcomes log := rfl

@[simp] theorem outcomes_error (log : List Effect) :
    outcomes (.upstreamError :: log) = outcomes log := rfl

@[simp] theorem outcomes_capture (args : CaptureArgs) (log : List Effect) :
    outcomes (.capture args :: log) = outcomes log := rfl

@[simp] theorem outcomes_yields (os : List Out) : outcomes (os.map .yield) = [] := by
  induction os with
  | nil => rfl
  | cons o os ih => exact ih

@[simp] theorem sends_append (xs ys : List Effect) : sends (xs ++ ys) = sends xs + sends ys :=
  List.countP_append

@[simp] theorem sends_nil : sends [] = 0 := rfl

@[simp] theorem sends_cons (e : Effect) (log : List Effect) :
    sends (e :: log) = sends log + if Effect.isSend e then 1 else 0 :=
  List.countP_cons

@[simp] theorem sends_send {σ : Type} (adapter : Adapter σ) (req : Request) (m : String)
    (wire : Json) (log : List Effect) :
    sends (send adapter req m wire :: log) = sends log + 1 :=
  sends_cons _ _

@[simp] theorem outcomes_send {σ : Type} (adapter : Adapter σ) (req : Request) (m : String)
    (wire : Json) (log : List Effect) :
    outcomes (send adapter req m wire :: log) = outcomes log := rfl

@[simp] theorem sends_yields (os : List Out) : sends (os.map .yield) = 0 := by
  induction os with
  | nil => rfl
  | cons o os ih => simpa [Effect.isSend] using ih

/-- The client's request met a provider failure, or no complete answer at all. -/
def Attempt.failed (a : Attempt) : Bool :=
  a.response.all fun r => isUpstreamFailure r.status || !r.complete

def retryable (more : Bool) (a : Attempt) (r : Response) : Bool :=
  r.status ≠ 200 && isUpstreamFailure r.status && more && a.inBudget

def retried (more : Bool) (a : Attempt) : Bool :=
  match a.response with
  | none => more && a.stillInBudget
  | some r => retryable more a r && (r.complete || a.stillInBudget)

def breaksOff (more : Bool) (a : Attempt) : Bool :=
  a.response.any fun r => !r.complete && !retryable more a r

/-- No attempt that the loop makes breaks off. -/
def NoBreakOff (net : Network) : ℕ → ℕ → Prop
  | 0, attempt => breaksOff false (net attempt) = false
  | retries + 1, attempt => breaksOff true (net attempt) = false ∧
      (retried true (net attempt) = true → NoBreakOff net retries (attempt + 1))

def verdict (a : Attempt) : Outcome := if Attempt.failed a then .failure else .success

variable {σ : Type}

theorem streamExcept_cases (more hasStreamed : Bool) (a : Attempt) (s : σ) :
    streamExcept more a hasStreamed s = ([], .retry s) ∧ hasStreamed = false ∧ more = true ∧
        a.stillInBudget = true ∨
      streamExcept more a hasStreamed s = ([.recordFailure, .upstreamError, .yield .doneMarker],
        .returned) ∧ ¬ (hasStreamed = false ∧ more = true ∧ a.stillInBudget = true) := by
  unfold streamExcept
  cases hasStreamed <;> cases more <;> cases a.stillInBudget <;> simp

theorem streamPass_clean (adapter : Adapter σ) {more : Bool} {a : Attempt} (s : σ)
    (h : breaksOff more a = false) :
    (retried more a = true → streamPass adapter more a s = ([], .retry s)) ∧
      (retried more a = false → outcomes (streamPass adapter more a s).1 = [verdict a] ∧
        ∀ s', (streamPass adapter more a s).2 ≠ .retry s') := by
  rcases a with ⟨_ | ⟨status, chunks, complete⟩, inBudget, still⟩
  · cases more <;> cases still <;>
      simp [streamPass, streamExcept, retried, verdict, Attempt.failed]
  · simp only [breaksOff, Option.any_some, retryable] at h
    simp only [streamPass, retried, retryable, verdict, Attempt.failed, Option.all_some]
    by_cases hs : status = 200
    · subst hs
      have hf : isUpstreamFailure 200 = false := by decide
      have hc : complete = true := by simpa using h
      subst hc
      simp only [ne_eq, not_true_eq_false, decide_false, Bool.false_and, if_false, hf]
      refine ⟨by simp, fun _ => ?_⟩
      cases (pushAll adapter s chunks).result <;> simp
    · by_cases hf : isUpstreamFailure status = true
      · cases more <;> cases inBudget <;> cases complete <;> cases still <;>
          simp_all [streamExcept]
      · have hf : isUpstreamFailure status = false := by simpa using hf
        have hc : complete = true := by simpa [hs, hf] using h
        subst hc
        simp [hs, hf]

/-- A pass whose attempt breaks off records an outcome, and another unless it retries or raises. -/
theorem streamPass_breaksOff (adapter : Adapter σ) {more : Bool} {a : Attempt} (s : σ)
    (h : breaksOff more a = true) :
    (∃ s', (streamPass adapter more a s).2 = .retry s') ∧
        1 ≤ (outcomes (streamPass adapter more a s).1).length ∨
      (∀ s', (streamPass adapter more a s).2 ≠ .retry s') ∧
        (2 ≤ (outcomes (streamPass adapter more a s).1).length ∨
          outcomes (streamPass adapter more a s).1 = [.success]) := by
  rcases a with ⟨_ | ⟨status, chunks, complete⟩, inBudget, still⟩
  · simp [breaksOff] at h
  · simp only [breaksOff, Option.any_some, retryable, Bool.and_eq_true, Bool.not_eq_true'] at h
    obtain ⟨rfl, hr⟩ := h
    simp only [streamPass]
    by_cases hs : status = 200
    · subst hs
      simp only [ne_eq, not_true_eq_false, if_false, Bool.false_eq_true]
      cases (pushAll adapter s chunks).result with
      | error e => exact Or.inr ⟨by simp, Or.inr (by simp)⟩
      | ok s' =>
        rcases streamExcept_cases more (!chunks.isEmpty) ⟨some ⟨200, chunks, false⟩, inBudget, still⟩
          s' with ⟨he, -⟩ | ⟨he, -⟩ <;> simp [he]
    · have hcases := streamExcept_cases more false
        ⟨some ⟨status, chunks, false⟩, inBudget, still⟩ s
      by_cases hf : isUpstreamFailure status = true
      · have hmb : (more && inBudget) = false := by simpa [hs, hf] using hr
        rcases hcases with ⟨he, -⟩ | ⟨he, -⟩ <;> simp [hs, hf, hmb, he]
      · rcases hcases with ⟨he, -⟩ | ⟨he, -⟩ <;> simp [hs, hf, he]

theorem streamPass_last (adapter : Adapter σ) (a : Attempt) (s s' : σ) :
    (streamPass adapter false a s).2 ≠ .retry s' := by
  have hx : ∀ b s, (streamExcept false a b (s : σ)).2 ≠ .retry s' := by
    intro b s
    rcases streamExcept_cases false b a s with ⟨-, -, h, -⟩ | ⟨h, -⟩
    · simp at h
    · simp [h]
  unfold streamPass
  rcases a with ⟨_ | r, inBudget, still⟩
  · exact hx false s
  · simp only [Bool.false_and, Bool.false_eq_true, if_false]
    split_ifs <;> first | exact hx false s | simp
    · cases (pushAll adapter s r.chunks).result <;> simp
    · cases (pushAll adapter s r.chunks).result with
      | error e => simp
      | ok s'' => exact hx _ s''

theorem streamPass_sends (adapter : Adapter σ) (more : Bool) (a : Attempt) (s : σ) :
    sends (streamPass adapter more a s).1 = 0 := by
  refine List.countP_eq_zero.2 fun e he => ?_
  cases streamPass_effects he <;> simp [Effect.isSend]

section Loop

variable (adapter : Adapter σ) (req : Request) (model : String) (wire : Json) (net : Network)

theorem streamLoop_retry (sent : Effect) (n : ℕ) {i : ℕ} {s s' : σ}
    (h : (streamPass adapter true (net i) s).2 = .retry s') :
    (streamLoop adapter sent net (n + 1) i s).1 = sent :: (streamPass adapter true (net i) s).1 ++
      (streamLoop adapter sent net n (i + 1) s').1 := by
  rw [streamLoop]
  simp only [h]

theorem streamLoop_done {n i : ℕ} {s : σ} {sent : Effect}
    (h : ∀ s', (streamPass adapter true (net i) s).2 ≠ .retry s') :
    (streamLoop adapter sent net (n + 1) i s).1 = sent :: (streamPass adapter true (net i) s).1 := by
  rw [streamLoop]
  dsimp only
  split
  · rename_i s' hs
    exact absurd hs (h s')
  · rfl

theorem retried_false (a : Attempt) : retried false a = false := by
  rcases a with ⟨_ | r, inBudget, still⟩ <;> simp [retried, retryable]

theorem streamLoop_clean (n i : ℕ) (s : σ) (h : NoBreakOff net n i) :
    let log := (streamLoop adapter (send adapter req model wire) net n i s).1
    1 ≤ sends log ∧ outcomes log = [verdict (net (i + sends log - 1))] := by
  induction n generalizing i s with
  | zero =>
    obtain ⟨ho, -⟩ := (streamPass_clean adapter s h).2 (retried_false _)
    have hs := streamPass_sends adapter false (net i) s
    simp only [streamLoop, sends_send, outcomes_send, hs]
    exact ⟨le_rfl, ho⟩
  | succ n ih =>
    obtain ⟨hb, hn⟩ := h
    obtain ⟨hr, hd⟩ := streamPass_clean adapter s hb
    cases hret : retried true (net i) with
    | false =>
      obtain ⟨ho, hx⟩ := hd hret
      have hs := streamPass_sends adapter true (net i) s
      simp only [streamLoop_done adapter net hx, sends_send, outcomes_send, hs]
      exact ⟨by omega, ho⟩
    | true =>
      have hp := hr hret
      obtain ⟨h1, h2⟩ := ih (i + 1) s (hn hret)
      have hlog := streamLoop_retry adapter net (send adapter req model wire) n
        (congrArg Prod.snd hp)
      rw [hp] at hlog
      simp only [hlog, List.singleton_append, sends_send, outcomes_send] at h1 h2 ⊢
      refine ⟨by omega, h2.trans ?_⟩
      congr 3
      omega

theorem breaksOff_failed {more : Bool} {a : Attempt} (h : breaksOff more a = true) :
    Attempt.failed a = true := by
  rcases a with ⟨_ | r, inBudget, still⟩
  · rfl
  · simp only [breaksOff, Option.any_some, Bool.and_eq_true, Bool.not_eq_true'] at h
    simp [Attempt.failed, h.1]

/-- After a break-off a streamed run records twice, or a success for a failed attempt. -/
theorem streamLoop_breaksOff (n i : ℕ) (s : σ) (h : ¬ NoBreakOff net n i) :
    let log := (streamLoop adapter (send adapter req model wire) net n i s).1
    1 ≤ sends log ∧ (2 ≤ (outcomes log).length ∨
      outcomes log = [.success] ∧ Attempt.failed (net (i + sends log - 1)) = true) := by
  induction n generalizing i s with
  | zero =>
    have hb : breaksOff false (net i) = true := by simpa [NoBreakOff] using h
    have hs := streamPass_sends adapter false (net i) s
    simp only [streamLoop, sends_send, outcomes_send, hs]
    refine ⟨le_rfl, ?_⟩
    rcases streamPass_breaksOff adapter s hb with ⟨⟨s', hs'⟩, -⟩ | ⟨-, ho | ho⟩
    · exact absurd hs' (streamPass_last adapter (net i) s s')
    · exact Or.inl ho
    · exact Or.inr ⟨ho, breaksOff_failed hb⟩
  | succ n ih =>
    have hs := streamPass_sends adapter true (net i) s
    by_cases hb : breaksOff true (net i) = true
    · rcases streamPass_breaksOff adapter s hb with ⟨⟨s', hs'⟩, ho⟩ | ⟨hd, ho⟩
      · have hlog := streamLoop_retry adapter net (send adapter req model wire) n hs'
        have hrest : 1 ≤ (outcomes (streamLoop adapter (send adapter req model wire) net n
            (i + 1) s').1).length := by
          by_cases hn : NoBreakOff net n (i + 1)
          · simp [(streamLoop_clean adapter req model wire net n (i + 1) s' hn).2]
          · rcases (ih (i + 1) s' hn).2 with h2 | ⟨h1, -⟩
            · omega
            · simp [h1]
        simp only [hlog, List.cons_append, sends_send, outcomes_send, outcomes_append,
          List.length_append]
        exact ⟨by omega, Or.inl (by omega)⟩
      · simp only [streamLoop_done adapter net hd, sends_send, outcomes_send, hs]
        refine ⟨by omega, ho.imp id fun ho => ⟨ho, ?_⟩⟩
        exact breaksOff_failed hb
    · have hb : breaksOff true (net i) = false := by simpa using hb
      obtain ⟨hret, hn⟩ : retried true (net i) = true ∧ ¬ NoBreakOff net n (i + 1) := by
        by_contra hc
        exact h ⟨hb, fun hr => by_contra fun hn => hc ⟨hr, hn⟩⟩
      have hp := (streamPass_clean adapter s hb).1 hret
      obtain ⟨h1, h2⟩ := ih (i + 1) s hn
      have hlog := streamLoop_retry adapter net (send adapter req model wire) n
        (congrArg Prod.snd hp)
      rw [hp] at hlog
      simp only [hlog, List.singleton_append, sends_send, outcomes_send] at h1 h2 ⊢
      refine ⟨by omega, h2.imp id fun hx => ⟨hx.1, ?_⟩⟩
      obtain ⟨ho, hf⟩ := hx
      rw [← hf]
      congr 2
      omega

end Loop

/-! ## Runs of both paths -/

/-- One breaker call, and a failure if the primary upstream failed. -/
def OneOutcome (log : List Effect) (failed : Prop) : Prop :=
  ∃ o, outcomes log = [o] ∧ (failed → o = .failure)

/-- The last attempt of a streamed run failed or broke off. -/
def StreamFailed (net : Network) (log : List Effect) : Prop :=
  Attempt.failed (net (sends log - 1)) = true

/-- A degradation model is configured and answers 200. -/
def FallbackAnswers (t : Setup) (adapter : Adapter σ) (jitter : ℕ → Jitter) (req : Request)
    (fbNet : Network) : Prop :=
  ∃ fbModel wire r, t.fallback req = some fbModel ∧
    t.prepared adapter jitter req.body fbModel false = .ok wire ∧
    Rests repeated fbNet (t.wakes jitter fbNet) t.retries 0 ∧
    finalAnswer fbNet t.retries 0 = some r ∧ r.status = 200

/-- A clock does not go back: a deadline that has passed once has passed at the second reading. -/
def Monotonic (net : Network) : Prop :=
  ∀ i, (net i).stillInBudget = true → (net i).inBudget = true

theorem outcomes_replicate (adapter : Adapter σ) (req : Request) (m : String) (wire : Json) (k : ℕ) :
    outcomes (List.replicate k (send adapter req m wire)) = [] := by
  induction k with
  | zero => rfl
  | succ k ih => exact ih

theorem Bookkeeping.outcomes_eq {rest : List Effect} (h : Bookkeeping rest) :
    outcomes rest = [] ∧ sends rest = 0 := by
  cases h <;> exact ⟨rfl, rfl⟩

theorem streamThrough_iff {adapter : Adapter σ} {retries : ℕ} {req : Request} {net : Network}
    {log : List Effect} (h : streamThrough adapter retries req net = .ok log) :
    OneOutcome log (StreamFailed net log) ↔ NoBreakOff net retries 0 := by
  obtain ⟨wire, rest, -, hrest, rfl⟩ := streamThrough_log h
  obtain ⟨hr, hs⟩ := Bookkeeping.outcomes_eq hrest
  simp only [OneOutcome, StreamFailed, outcomes_append, sends_append, hr, hs, List.append_nil,
    Nat.add_zero]
  constructor
  · rintro ⟨o, ho, hf⟩
    by_contra hn
    obtain ⟨-, h2 | ⟨h1, hfail⟩⟩ :=
      streamLoop_breaksOff adapter req req.upstream wire net retries 0 adapter.translator hn
    · simp [ho] at h2
    · rw [ho] at h1
      rw [Nat.zero_add] at hfail
      have := hf hfail
      simp_all
  · intro hc
    obtain ⟨-, ho⟩ :=
      streamLoop_clean adapter req req.upstream wire net retries 0 adapter.translator hc
    rw [Nat.zero_add] at ho
    exact ⟨_, ho, fun hf => by rw [verdict, if_pos hf]⟩

/-! ## Sleeps that do not return -/

section Sleeps

variable {t : Setup} {adapter : Adapter σ} {jitter fbJitter : ℕ → Jitter} {req : Request}
  {net fbNet : Network}

theorem failed_of_again {a : Attempt} (h : a.again = true) : Attempt.failed a = true := by
  rw [Attempt.again] at h
  rw [Attempt.failed]
  cases hr : a.response with
  | none => rfl
  | some r =>
    rw [hr] at h
    dsimp only at h
    by_cases hc : r.complete = true
    · by_cases h200 : r.status = 200
      · simp [h200, hc] at h
      · rw [if_pos h200, if_pos hc, Bool.and_eq_true] at h
        simp [h.1]
    · simp [hc]

theorem streamPass_successes {a : Attempt} (s : σ)
    (hclock : a.stillInBudget = true → a.inBudget = true) (h : a.again = true) :
    ∀ o ∈ outcomes (streamPass adapter true a s).1, o = .success := by
  rw [Attempt.again] at h
  cases hr : a.response with
  | none =>
    rw [hr] at h
    dsimp only at h
    simp [streamPass, hr, streamExcept, h]
  | some r =>
    rw [hr] at h
    dsimp only at h
    by_cases h200 : r.status = 200
    · simp only [h200, ne_eq, not_true, if_false, Bool.and_eq_true, Bool.not_eq_true'] at h
      have hnil : r.chunks = [] := List.isEmpty_iff.1 h.1.2
      simp [streamPass, hr, h200, hnil, h.1.1, h.2, pushAll, Gen.fold, Gen.ok, streamExcept]
    · rw [if_pos h200] at h
      cases hc : r.complete with
      | true =>
        rw [hc, if_pos rfl, Bool.and_eq_true] at h
        simp [streamPass, hr, h200, h.1, h.2, hc]
      | false =>
        rw [hc, if_neg (by decide)] at h
        have hin := hclock h
        simp only [streamPass, hr]
        rw [if_pos h200]
        simp only [hc, streamExcept, h]
        cases isUpstreamFailure r.status with
        | true => simp [hin]
        | false => simp

/-- Where a sleep does not return, the run has recorded successes at most, and its last attempt
failed. -/
theorem streamLoop_restless {sent : Effect} {wakes : ℕ → Bool} (hsent : outcomes [sent] = [])
    (hone : sends [sent] = 1) (hclock : Monotonic net) {n i : ℕ} (s : σ)
    (h : ¬ Rests Attempt.again net wakes n i) :
    let run := RetrySleeps.streamLoop adapter sent net wakes n i s
    run.2 = none ∧ (∀ o ∈ outcomes run.1, o = .success) ∧ 1 ≤ sends run.1 ∧
      Attempt.failed (net (i + sends run.1 - 1)) = true := by
  have hcons : ∀ log, outcomes (sent :: log) = outcomes log := fun log => by
    rw [← List.singleton_append, outcomes_append, hsent, List.nil_append]
  have hmore : ∀ log, sends (sent :: log) = sends log + 1 := fun log => by
    rw [← List.singleton_append, sends_append, hone, Nat.add_comm]
  induction n generalizing i with
  | zero => exact absurd trivial h
  | succ n ih =>
    rw [Rests, Classical.not_imp] at h
    obtain ⟨hagain, hrest⟩ := h
    have hpass := @streamPass_successes σ adapter (net i) s (hclock i) hagain
    have hnone := streamPass_sends adapter true (net i) s
    rw [streamLoop_again s hagain]
    by_cases hw : wakes i = true
    · obtain ⟨hrun, hout, hpos, hfail⟩ := ih fun hr => hrest ⟨hw, hr⟩
      rw [if_pos hw]
      refine ⟨hrun, ?_, ?_, ?_⟩
      · simp only [List.cons_append, hcons, outcomes_append, List.mem_append]
        exact fun o ho => ho.elim (hpass o) (hout o)
      · simp only [List.cons_append, hmore]
        omega
      · simp only [List.cons_append, hmore, sends_append, hnone]
        rw [← hfail]
        congr 2
        omega
    · rw [if_neg hw]
      refine ⟨rfl, ?_, ?_, ?_⟩
      · rw [hcons]
        exact hpass
      · rw [hmore]
        omega
      · rw [hmore, hnone]
        exact failed_of_again hagain

/-- A streamed request is recorded once exactly where it is prepared, its sleeps return and no
attempt breaks off. -/
theorem streamed_iff (hclock : Monotonic net) :
    OneOutcome (t.streamThrough adapter jitter req net)
        (StreamFailed net (t.streamThrough adapter jitter req net)) ↔
      (∃ wire, t.prepared adapter jitter req.body req.upstream true = .ok wire) ∧
        Rests Attempt.again net (t.wakes jitter net) t.retries 0 ∧
        NoBreakOff net t.retries 0 := by
  by_cases hprepared : ∃ wire, t.prepared adapter jitter req.body req.upstream true = .ok wire
  · rw [and_iff_right hprepared]
    obtain ⟨wire, hwire⟩ := hprepared
    by_cases hrests : Rests Attempt.again net (t.wakes jitter net) t.retries 0
    · rw [and_iff_right hrests]
      exact streamThrough_iff (streamThrough_rests hwire hrests)
    · refine iff_of_false ?_ fun h => hrests h.1
      rintro ⟨o, ho, hfailed⟩
      have hsent : outcomes [send adapter req req.upstream wire] = [] := rfl
      obtain ⟨hrun, hout, -, hfail⟩ :=
        @streamLoop_restless σ adapter net _ _ hsent rfl hclock _ _ adapter.translator hrests
      have hlog : t.streamThrough adapter jitter req net = (RetrySleeps.streamLoop adapter
          (send adapter req req.upstream wire) net (t.wakes jitter net) t.retries 0
          adapter.translator).1 := by
        rw [Setup.streamThrough, hwire]
        simp only [hrun]
      rw [StreamFailed, hlog] at hfailed
      rw [hlog] at ho
      rw [Nat.zero_add] at hfail
      have hsuccess := hout o (by rw [ho]; exact List.mem_singleton.2 rfl)
      rw [hfailed hfail] at hsuccess
      cases hsuccess
  · rw [streamThrough_unprepared hprepared]
    refine iff_of_false ?_ fun h => hprepared h.1
    rintro ⟨o, ho, -⟩
    cases ho

theorem answered_outcomes (r : Response) (capture : CanonicalCompletion → CaptureArgs)
    (fbModel : Option String) (runs : Bool) :
    outcomes (t.answered adapter r capture fbModel runs).1 = [.success] := by
  obtain ⟨rest, hrest, hlog⟩ := answered_log adapter t.http r capture fbModel
  have hdone : outcomes (answered adapter t.http r capture fbModel).1 = [.success] := by
    rw [hlog, outcomes_success, (Bookkeeping.outcomes_eq hrest).1]
  rw [Setup.answered]
  split
  · split_ifs
    · exact hdone
    · exact hdone
    · rfl
  · exact hdone

theorem posted_outcomes {m : String} {wire : Json} {wakes : ℕ → Bool} (n i : ℕ) :
    outcomes (RetrySleeps.postLoop (send adapter req m wire) net wakes n i).1 = [] := by
  obtain ⟨k, hk⟩ := @RetrySleeps.postLoop_log (send adapter req m wire) net wakes n i
  rw [hk, outcomes_replicate]

theorem fallback_outcomes {fbModel : String} (hm : t.fallback req = some fbModel) :
    outcomes (t.forwardFallback adapter jitter req fbModel fbNet).1 = [.success] ∧
        FallbackAnswers t adapter jitter req fbNet ∨
      outcomes (t.forwardFallback adapter jitter req fbModel fbNet).1 = [] ∧
        ¬ FallbackAnswers t adapter jitter req fbNet := by
  have hanswers : FallbackAnswers t adapter jitter req fbNet ↔ ∃ wire r,
      t.prepared adapter jitter req.body fbModel false = .ok wire ∧
        Rests repeated fbNet (t.wakes jitter fbNet) t.retries 0 ∧
        finalAnswer fbNet t.retries 0 = some r ∧ r.status = 200 := by
    constructor
    · rintro ⟨m, wire, r, hm', h⟩
      obtain rfl := Option.some.inj (hm.symm.trans hm')
      exact ⟨wire, r, h⟩
    · rintro ⟨wire, r, h⟩
      exact ⟨fbModel, wire, r, hm, h⟩
  rw [hanswers, Setup.forwardFallback]
  cases hp : t.prepared adapter jitter req.body fbModel false with
  | error e => exact .inr ⟨rfl, by simp⟩
  | ok wire =>
    dsimp only
    by_cases hrests : Rests repeated fbNet (t.wakes jitter fbNet) t.retries 0
    · have hsent := @posted_outcomes σ adapter req fbNet fbModel wire (t.wakes jitter fbNet)
        t.retries 0
      rw [postLoop_rests hrests] at hsent ⊢
      simp only [postLoop_answer] at hsent ⊢
      cases hr : finalAnswer fbNet t.retries 0 with
      | none => exact .inr ⟨hsent, by simp⟩
      | some r =>
        by_cases h200 : r.status = 200
        · simp only [h200, if_true, outcomes_append, hsent, answered_outcomes]
          exact .inl ⟨rfl, wire, r, rfl, hrests, rfl, h200⟩
        · simp only [h200, if_false]
          exact .inr ⟨hsent, by simp [h200]⟩
    · rw [postLoop_wakeless hrests]
      exact .inr ⟨posted_outcomes _ _, fun ⟨_, _, _, h, _⟩ => hrests h⟩

theorem failed_outcomes (sent : List Effect) (hsent : outcomes sent = [])
    (answer : Option Response) :
    (∃ o, outcomes (t.forwardFailed adapter jitter req fbNet sent answer).1 = [o] ∧
        o = .failure) ↔ ¬ FallbackAnswers t adapter jitter req fbNet := by
  unfold Setup.forwardFailed
  cases hm : t.fallback req with
  | none => simp [hsent, FallbackAnswers, hm]
  | some fbModel =>
    rcases @fallback_outcomes σ t adapter jitter req fbNet fbModel hm with
      ⟨hout, hanswers⟩ | ⟨hout, hanswers⟩
    · simp [hsent, hout, hanswers]
    · simp [hsent, hout, hanswers]

/-- A request that does not stream is recorded once exactly where it is prepared, its sleeps
return, and the degradation model does not answer for a failed primary. -/
theorem posted_iff : OneOutcome (t.forwardOnce adapter jitter fbJitter req net fbNet).1
      (PrimaryFailed net t.retries) ↔
    (∃ wire, t.prepared adapter jitter req.body req.upstream false = .ok wire) ∧
      Rests repeated net (t.wakes jitter net) t.retries 0 ∧
      ¬ (PrimaryFailed net t.retries ∧ FallbackAnswers t adapter fbJitter req fbNet) := by
  rw [Setup.forwardOnce]
  cases hp : t.prepared adapter jitter req.body req.upstream false with
  | error e => simp [OneOutcome]
  | ok wire =>
    have hsent := @posted_outcomes σ adapter req net req.upstream wire (t.wakes jitter net)
      t.retries 0
    dsimp only
    by_cases hrests : Rests repeated net (t.wakes jitter net) t.retries 0
    · rw [postLoop_rests hrests] at hsent ⊢
      simp only [postLoop_answer] at hsent ⊢
      rw [PrimaryFailed]
      cases hr : finalAnswer net t.retries 0 with
      | none =>
        have hfailed := @failed_outcomes σ t adapter fbJitter req fbNet _ hsent none
        simpa [OneOutcome, hrests] using hfailed
      | some r =>
        by_cases h200 : r.status = 200
        · simp [OneOutcome, h200, hsent, answered_outcomes, not_failure_200, hrests]
        · by_cases hf : isUpstreamFailure r.status = true
          · have hfailed := @failed_outcomes σ t adapter fbJitter req fbNet _ hsent (some r)
            simpa [OneOutcome, hrests, h200, hf] using hfailed
          · simp [OneOutcome, h200, hf, hsent, hrests]
    · rw [postLoop_wakeless hrests]
      refine iff_of_false ?_ fun h => hrests h.2.1
      rintro ⟨o, ho, -⟩
      rw [hsent] at ho
      cases ho

end Sleeps

/-! ## Failing requests open the breaker -/

/-- A finally failed request, on either path, that meets its path's condition. -/
inductive CleanFailure : List Effect → Prop where
  | stream {σ : Type} {t : Setup} {adapter : Adapter σ} {jitter : ℕ → Jitter} {req : Request}
      {net : Network} (clock : Monotonic net)
      (prepared : ∃ wire, t.prepared adapter jitter req.body req.upstream true = .ok wire)
      (rests : Rests Attempt.again net (t.wakes jitter net) t.retries 0)
      (clean : NoBreakOff net t.retries 0)
      (failed : StreamFailed net (t.streamThrough adapter jitter req net)) :
      CleanFailure (t.streamThrough adapter jitter req net)
  | once {σ : Type} {t : Setup} {adapter : Adapter σ} {jitter fbJitter : ℕ → Jitter}
      {req : Request} {net fbNet : Network}
      (prepared : ∃ wire, t.prepared adapter jitter req.body req.upstream false = .ok wire)
      (rests : Rests repeated net (t.wakes jitter net) t.retries 0)
      (failed : PrimaryFailed net t.retries)
      (clean : ¬ FallbackAnswers t adapter fbJitter req fbNet) :
      CleanFailure (t.forwardOnce adapter jitter fbJitter req net fbNet).1

theorem CleanFailure.outcomes {log : List Effect} (h : CleanFailure log) :
    outcomes log = [.failure] := by
  cases h with
  | stream clock prepared rests clean failed =>
    obtain ⟨o, ho, hf⟩ := (streamed_iff clock).2 ⟨prepared, rests, clean⟩
    rw [ho, hf failed]
  | once prepared rests failed clean =>
    obtain ⟨o, ho, hf⟩ := posted_iff.2 ⟨prepared, rests, fun h => clean h.2⟩
    rw [ho, hf failed]

def Op.outcome : Circuit.Op → Option Outcome
  | .allow _ => none
  | .recordSuccess => some .success
  | .recordFailure _ => some .failure

/-- The breaker calls that the requests of `runs` make, in any order and with any `allow` calls
among them. -/
def CallsOf (runs : List (List Effect)) (ops : List Circuit.Op) : Prop :=
  (ops.filterMap Op.outcome).Perm (runs.flatMap outcomes)

theorem countP_failure (ops : List Circuit.Op) :
    ops.countP Circuit.Op.isFailure = (ops.filterMap Op.outcome).count .failure := by
  induction ops with
  | nil => rfl
  | cons op ops ih =>
    cases op with
    | allow now => exact ih
    | recordSuccess =>
      change _ = (Outcome.success :: ops.filterMap Op.outcome).count .failure
      rw [List.count_cons_of_ne (by decide)]
      exact ih
    | recordFailure now =>
      change _ = (Outcome.failure :: ops.filterMap Op.outcome).count .failure
      rw [List.count_cons_self, ← ih]
      exact List.countP_cons_of_pos rfl

theorem failures_open_breaker {runs : List (List Effect)} (hr : ∀ log ∈ runs, CleanFailure log)
    (s : Circuit.Settings) (c : Circuit.CircuitView) {ops : List Circuit.Op} {now : ℚ}
    (hops : CallsOf runs (ops ++ [.recordFailure now]))
    (hn : s.failThreshold ≤ runs.length) :
    (Circuit.run s c (ops ++ [.recordFailure now])).breaker.state = .opened := by
  have hflat : runs.flatMap outcomes = List.replicate runs.length .failure := by
    clear hops hn
    induction runs with
    | nil => rfl
    | cons log runs ih =>
      rw [List.flatMap_cons, (hr log (by simp)).outcomes,
        ih fun l hl => hr l (List.mem_cons_of_mem _ hl)]
      rfl
  unfold CallsOf at hops
  rw [hflat] at hops
  have hcount := hops.count_eq .failure
  have hsuccess : Circuit.Op.recordSuccess ∉ ops := by
    intro hm
    have hmem : Outcome.success ∈
        (ops ++ [Circuit.Op.recordFailure now]).filterMap Op.outcome :=
      List.mem_filterMap.2 ⟨_, List.mem_append_left _ hm, rfl⟩
    have := List.eq_of_mem_replicate (hops.mem_iff.1 hmem)
    cases this
  refine Circuit.failures_open s c hsuccess (hn.trans ?_)
  rw [List.count_replicate_self, ← countP_failure, List.countP_append] at hcount
  exact_mod_cast hcount.symm.le

def plainRequest : Request where
  body := .obj [("model", .str "gpt-4o"), ("messages", .arr []), ("stream", .bool true)]
  model := "gpt-4o"
  cacheKey := "key"
  storeCache := true
  upstreamModel := none
  routedFrom := none
  routedFromProvider := none
  arm := none
  expFrom := none
  expTo := none
  idempotencyKey := some "idem-1"

/-- Two retries, and a provider whose answers have the header `retryAfter`. -/
def twoRetries (retryAfter : Option String) : Setup where
  settings := Proxy.Resilience.defaultSettings
  fallbackEnabled := false
  configuredFallback := none
  captureDetached := false
  digit := Python.Floats.asciiDigit
  header _ := retryAfter
  encodes _ := true
  http := ⟨fun _ => none, fun _ => ""⟩
  writes _ := true

def breakingNet : Network := fun _ => ⟨some ⟨200, [[100]], false⟩, true, true⟩

def overloadedNet : Network := fun _ => ⟨some ⟨503, [], true⟩, true, true⟩

end Varsten.Proxy.BreakerAccounting
