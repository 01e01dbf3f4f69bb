import Varsten.Proxy.RetrySleeps
import Varsten.Proxy.StreamMetering

/-!
# The verdict of an upstream error

A streamed response has its status before the upstream is asked. An upstream error reaches a
streaming client in the body alone; a client that does not stream has it with its status, or
the degradation model's answer in its place.
-/

namespace Varsten.Proxy.StreamVerdict

open Python (Json Py Gen Runtime)
open Python.Utf8 (Bytes)
open Providers (Adapter Out)
open Forward
open StreamMetering (last)
open Truncation (halfRuntime streamRequest)
open OpenAIDialect (Provider)
open Proxy.Resilience (Jitter)
open RetrySleeps (Setup Rests repeated streamThrough_rests postLoop_rests forwardLoop_succ
  prepared_ok)

variable {σ : Type}

/-- The status of a `StreamingResponse` that is given none. -/
def streamingStatus : ℕ := 200

def isOutput : Effect → Bool
  | .yield _ | .upstreamError => true
  | _ => false

def outputs (log : List Effect) : List Effect := log.filter isOutput

/-- What a streaming client receives: a status and a body. -/
def streamed (log : List Effect) : ℕ × List Effect := (streamingStatus, outputs log)

def errorBody (http : BodyReader) (body : Bytes) : Json :=
  (http.json body).getD (.obj [("error", .str (http.text body))])

/-- Both clients have the same status and error body, and the same degradation model, none. -/
def SameVerdict (http : BodyReader) (log : List Effect) (reply : Option Reply) : Prop :=
  ∃ status body, streamed log = (status, [.yield (.bytes body)]) ∧
    reply = some (.json status (errorBody http body) none)

/-- What a client that does not stream has of an error: its status and body, or the exception of
writing it; and in their place the reply of the degradation model to a provider failure, where one
is configured and answers. -/
def verdictOf (t : Setup) (adapter : Adapter σ) (jitter : ℕ → Jitter) (req : Request)
    (fbNet : Network) (r : Response) : Option Reply :=
  let relayed : Reply :=
    if t.writes r then .json r.status (errorBody t.http r.chunks.flatten) none
    else .raised .valueError
  if isUpstreamFailure r.status then
    match t.fallback req with
    | some fbModel =>
      (t.forwardFallback adapter jitter req fbModel fbNet).2.map (·.getD relayed)
    | none => some relayed
  else some relayed

structure EndsIn (t : Setup) (adapter : Adapter σ) (jitter : ℕ → Jitter) (req : Request)
    (stream : Bool) (net : Network) (r : Response) : Prop where
  prepared : ∃ wire, t.prepared adapter jitter req.body req.upstream stream = .ok wire
  rests : Rests Attempt.again net (t.wakes jitter net) t.retries 0
  ends : (last net t.retries 0).response = some r
  complete : r.complete = true
  status : r.status ≠ 200

/-! ## Streaming -/

theorem streamPass_relayed (adapter : Adapter σ) {more : Bool} {a : Attempt} (s : σ)
    {r : Response} (hr : a.response = some r) (hc : r.complete = true) (h200 : r.status ≠ 200)
    (hmore : (more && a.again) = false) :
    ∃ record, isOutput record = false ∧ streamPass adapter more a s =
      ([record, .yield (.bytes r.chunks.flatten)], .returned) := by
  rw [Attempt.again, hr] at hmore
  dsimp only at hmore
  rw [if_pos h200, if_pos hc] at hmore
  rw [streamPass, hr]
  dsimp only
  rw [if_pos h200]
  by_cases hf : isUpstreamFailure r.status = true
  · rw [hf, Bool.true_and] at hmore
    rw [if_pos hf, hmore, if_neg (by decide), if_pos hc]
    exact ⟨.recordFailure, rfl, rfl⟩
  · rw [if_neg hf, if_pos hc]
    exact ⟨.recordSuccess, rfl, rfl⟩

theorem streamPass_again (adapter : Adapter σ) {a : Attempt} (s : σ) (h : a.again = true) :
    outputs (streamPass adapter true a s).1 = [] := by
  rw [Attempt.again] at h
  cases hr : a.response with
  | none =>
    rw [hr] at h
    dsimp only at h
    simp [streamPass, hr, streamExcept, h, outputs]
  | some r =>
    rw [hr] at h
    dsimp only at h
    by_cases h200 : r.status = 200
    · simp only [h200, ne_eq, not_true, if_false, Bool.and_eq_true, Bool.not_eq_true'] at h
      have hnil : r.chunks = [] := List.isEmpty_iff.1 h.1.2
      simp [streamPass, hr, h200, hnil, h.1.1, h.2, pushAll, Gen.fold, Gen.ok, streamExcept,
        outputs, isOutput]
    · rw [if_pos h200] at h
      cases hc : r.complete with
      | true =>
        rw [hc, if_pos rfl, Bool.and_eq_true] at h
        simp [streamPass, hr, h200, h.1, h.2, hc, outputs]
      | false =>
        rw [hc, if_neg (by decide)] at h
        simp only [streamPass, hr]
        rw [if_pos h200]
        simp only [hc, streamExcept, h]
        cases isUpstreamFailure r.status with
        | true => cases a.inBudget <;> rfl
        | false => rfl

theorem outputs_cons {e : Effect} (h : isOutput e = false) (log : List Effect) :
    outputs (e :: log) = outputs log := List.filter_cons_of_neg (by simp [h])

theorem streamLoop_relayed (adapter : Adapter σ) {sent : Effect} {net : Network} {n i : ℕ}
    {r : Response} (hs : isOutput sent = false) (hr : (last net n i).response = some r)
    (hc : r.complete = true) (h200 : r.status ≠ 200) (s : σ) :
    outputs (streamLoop adapter sent net n i s).1 = [.yield (.bytes r.chunks.flatten)] ∧
      (streamLoop adapter sent net n i s).2 = .returned := by
  have hends : ∀ (more : Bool) {a : Attempt}, a.response = some r → (more && a.again) = false →
      outputs (sent :: (streamPass adapter more a s).1) = [.yield (.bytes r.chunks.flatten)] ∧
        (streamPass adapter more a s).2 = .returned := by
    intro more a ha hmore
    obtain ⟨record, hrecord, hpass⟩ := streamPass_relayed adapter s ha hc h200 hmore
    rw [hpass, outputs_cons hs, outputs_cons hrecord]
    exact ⟨rfl, rfl⟩
  induction n generalizing i with
  | zero => exact hends false hr rfl
  | succ n ih =>
    rw [last] at hr
    rw [Forward.streamLoop]
    dsimp only
    by_cases hagain : (net i).again = true
    · rw [if_pos hagain] at hr
      have hpass : (streamPass adapter true (net i) s).2 = .retry s := by
        rcases streamPass_ends adapter true (net i) s with ⟨-, hpass⟩ | ⟨hno, -⟩
        · exact hpass
        · rw [hagain] at hno
          cases hno
      rw [hpass]
      dsimp only
      rw [outputs, List.cons_append, ← outputs, outputs_cons hs, outputs, List.filter_append,
        ← outputs, ← outputs, streamPass_again adapter s hagain]
      exact ih hr
    · rw [if_neg hagain] at hr
      have hpass := hends true hr (by simpa using hagain)
      rw [hpass.2]
      exact ⟨hpass.1, rfl⟩

/-! ## Not streaming -/

theorem repeated_of_again {a : Attempt} (h : a.again = true) : repeated a = true := by
  rw [Attempt.again] at h
  rw [repeated]
  cases hr : a.response with
  | none =>
    rw [hr] at h
    simpa [Attempt.posted, hr] using h
  | some r =>
    rw [hr] at h
    dsimp only at h
    cases hc : r.complete with
    | true =>
      have hposted : a.posted = some r := by simp [Attempt.posted, hr, hc]
      by_cases h200 : r.status = 200
      · simp [h200, hc] at h
      · rw [if_pos h200, if_pos hc] at h
        rw [hposted]
        exact h
    | false =>
      have hposted : a.posted = none := by simp [Attempt.posted, hr, hc]
      rw [hposted]
      by_cases h200 : r.status = 200
      · simp only [h200, ne_eq, not_true, if_false, Bool.and_eq_true] at h
        exact h.2
      · simpa [h200, hc] using h

theorem posted_rests {net : Network} {wakes : ℕ → Bool} {n i : ℕ} {r : Response}
    (hrests : Rests Attempt.again net wakes n i) (hr : (last net n i).response = some r)
    (hc : r.complete = true) (h200 : r.status ≠ 200) :
    Rests repeated net wakes n i ∧ finalAnswer net n i = some r := by
  have hposted : ∀ {a : Attempt}, a.response = some r → a.posted = some r := fun ha => by
    simp [Attempt.posted, ha, hc]
  induction n generalizing i with
  | zero => exact ⟨trivial, hposted hr⟩
  | succ n ih =>
    rw [last] at hr
    rw [← postLoop_answer (.recordSuccess), forwardLoop_succ]
    by_cases hagain : (net i).again = true
    · obtain ⟨hwakes, hrest⟩ := hrests hagain
      rw [if_pos hagain] at hr
      obtain ⟨hnext, hfinal⟩ := ih hrest hr
      rw [if_pos (repeated_of_again hagain), postLoop_answer, hfinal]
      exact ⟨fun _ => ⟨hwakes, hnext⟩, rfl⟩
    · rw [if_neg hagain] at hr
      have hend : repeated (net i) = false := by
        rw [Attempt.again, hr] at hagain
        dsimp only at hagain
        rw [if_pos h200, if_pos hc] at hagain
        rw [repeated, hposted hr]
        simpa using hagain
      rw [if_neg (by simp [hend]), hposted hr]
      exact ⟨fun h => absurd (hend.symm.trans h) (by decide), rfl⟩

theorem forwardOnce_relayed {t : Setup} {adapter : Adapter σ} {jitter fbJitter : ℕ → Jitter}
    {req : Request} {net fbNet : Network} {r : Response}
    (h : EndsIn t adapter jitter req false net r) :
    (t.forwardOnce adapter jitter fbJitter req net fbNet).2 =
      verdictOf t adapter fbJitter req fbNet r := by
  obtain ⟨⟨wire, hwire⟩, hrests, hr, hc, h200⟩ := h
  obtain ⟨hposted, hfinal⟩ := posted_rests hrests hr hc h200
  rw [Setup.forwardOnce, hwire]
  simp only [postLoop_rests hposted, postLoop_answer, hfinal, if_neg h200]
  rw [verdictOf]
  cases hf : isUpstreamFailure r.status with
  | false => rfl
  | true =>
    rw [if_neg (by decide), if_pos rfl]
    unfold Setup.forwardFailed
    cases t.fallback req <;> rfl

/-! ## Both clients -/

theorem streamLoop_effects {adapter : Adapter σ} {sent : Effect} {net : Network} {n i : ℕ} {s : σ}
    {e : Effect} (h : e ∈ (streamLoop adapter sent net n i s).1) : e = sent ∨ PassEffect e := by
  have hpass : ∀ {more a s}, e ∈ sent :: (streamPass adapter more a s).1 →
      e = sent ∨ PassEffect e := fun he => (List.mem_cons.1 he).imp_right streamPass_effects
  induction n generalizing i s with
  | zero => exact hpass h
  | succ n ih =>
    rw [Forward.streamLoop] at h
    dsimp only at h
    split at h
    · rcases List.mem_append.1 h with h | h
      · exact hpass h
      · exact ih h
    · exact hpass h

theorem sent_silent (adapter : Adapter σ) (req : Request) (wire : Json) :
    isOutput (send adapter req req.upstream wire) = false := rfl

/-- Where the run ends in an upstream error, a streaming client has status 200 with exactly that
error's body, and no model but the request's own is asked. A client that does not stream has
the status and the body, or the degradation model's reply to a failure. -/
theorem error_relayed (t : Setup) (adapter : Adapter σ) (jitter postJitter fbJitter : ℕ → Jitter)
    (req : Request) (net fbNet : Network) (r : Response)
    (hstream : EndsIn t adapter jitter req true net r)
    (hpost : EndsIn t adapter postJitter req false net r) :
    streamed (t.streamThrough adapter jitter req net) =
        (200, [.yield (.bytes r.chunks.flatten)]) ∧
      (∀ provider model key wire, .send provider model key wire ∈
        t.streamThrough adapter jitter req net → model = req.upstream) ∧
      (t.forwardOnce adapter postJitter fbJitter req net fbNet).2 =
        verdictOf t adapter fbJitter req fbNet r := by
  refine ⟨?_, ?_, forwardOnce_relayed hpost⟩
  all_goals
    obtain ⟨⟨wire, hwire⟩, hrests, hlast, hc, h200⟩ := hstream
    have hrun := streamThrough_rests hwire hrests
    obtain ⟨wire', -, h⟩ := Python.Py.bind_eq_ok.1 hrun
    obtain ⟨houtputs, hreturned⟩ := streamLoop_relayed adapter
      (sent_silent adapter req wire') hlast hc h200 adapter.translator
    dsimp only at h
    rw [hreturned] at h
    rw [← Except.ok.inj h]
  · rw [streamed, houtputs]
    rfl
  · intro provider model key wire' hmem
    rcases streamLoop_effects hmem with hsent | hsent
    · exact (Effect.send.inj hsent).2.1
    · cases hsent

/-! ## A request the provider refuses -/

def refusal : Bytes := "no such model".toList.map fun c => UInt8.ofNat c.toNat

def refusedNetwork : Network := fun _ => ⟨some ⟨400, [refusal], true⟩, true, true⟩

def textReader : BodyReader := ⟨fun _ => none, fun body =>
  String.ofList (body.map fun b => Char.ofNat b.toNat)⟩

def plainSetup : Setup where
  settings := Proxy.Resilience.defaultSettings
  fallbackEnabled := false
  configuredFallback := none
  captureDetached := false
  digit := Python.Floats.asciiDigit
  header _ := none
  encodes _ := true
  http := textReader
  writes _ := true

theorem refusal_ends (stream : Bool) : EndsIn plainSetup (Provider.openai.adapter halfRuntime)
    Proxy.Resilience.halfJitter streamRequest stream refusedNetwork ⟨400, [refusal], true⟩ where
  prepared := ⟨_, prepared_ok rfl (by decide +kernel) rfl⟩
  rests := fun h => absurd h (by decide)
  ends := rfl
  complete := rfl
  status := by decide

theorem refusal_relayed :
    streamed (plainSetup.streamThrough (Provider.openai.adapter halfRuntime)
        Proxy.Resilience.halfJitter streamRequest refusedNetwork) =
      (200, [.yield (.bytes [refusal].flatten)]) ∧
    (plainSetup.forwardOnce (Provider.openai.adapter halfRuntime) Proxy.Resilience.halfJitter
        Proxy.Resilience.halfJitter streamRequest refusedNetwork refusedNetwork).2 =
      some (.json 400 (errorBody textReader [refusal].flatten) none) := by
  obtain ⟨hstreamed, -, hreply⟩ := error_relayed plainSetup (Provider.openai.adapter halfRuntime)
    Proxy.Resilience.halfJitter Proxy.Resilience.halfJitter Proxy.Resilience.halfJitter
    streamRequest refusedNetwork refusedNetwork _ (refusal_ends true) (refusal_ends false)
  exact ⟨hstreamed, hreply⟩

/-- A streaming client has the refusal with status 200, another client with status 400. -/
theorem refusal_differs : EndsIn plainSetup (Provider.openai.adapter halfRuntime)
      Proxy.Resilience.halfJitter streamRequest true refusedNetwork ⟨400, [refusal], true⟩ ∧
    EndsIn plainSetup (Provider.openai.adapter halfRuntime)
      Proxy.Resilience.halfJitter streamRequest false refusedNetwork ⟨400, [refusal], true⟩ ∧
    ¬ SameVerdict textReader (plainSetup.streamThrough (Provider.openai.adapter halfRuntime)
        Proxy.Resilience.halfJitter streamRequest refusedNetwork)
      (plainSetup.forwardOnce (Provider.openai.adapter halfRuntime) Proxy.Resilience.halfJitter
        Proxy.Resilience.halfJitter streamRequest refusedNetwork refusedNetwork).2 := by
  refine ⟨refusal_ends true, refusal_ends false, fun ⟨status, body, hstreamed, hreply⟩ => ?_⟩
  rw [forwardOnce_relayed (refusal_ends false)] at hreply
  have hstatus : streamingStatus = status := congrArg Prod.fst hstreamed
  have hposted : 400 = status := (Reply.json.inj (Option.some.inj hreply)).1
  rw [← hstatus] at hposted
  exact absurd hposted (by decide)

end Varsten.Proxy.StreamVerdict
