import Varsten.Proxy.Truncation

/-!
# Metering of relayed streams

The ledger row of a streamed request is written after its loop. A run that relays bytes of a
200 answer has one row with the translator's usage where that answer arrives whole and its
bookkeeping does not raise.
-/

namespace Varsten.Proxy.StreamMetering

open Python (Json Py Gen Runtime)
open Python.Utf8 (Bytes Text)
open Providers (Adapter CanonicalUsage Out)
open Forward
open Capture (qualityOk)
open Truncation (halfRuntime halfChunk streamRequest halfNetwork)
open OpenAIDialect (Provider)

variable {σ : Type}

/-! ## What is relayed -/

/-- The attempts a streamed run makes. -/
def reached (net : Network) : ℕ → ℕ → List Attempt
  | 0, attempt => [net attempt]
  | retries + 1, attempt =>
    net attempt :: if (net attempt).again then reached net retries (attempt + 1) else []

/-- The attempt at which the run ends. -/
def last (net : Network) : ℕ → ℕ → Attempt
  | 0, attempt => net attempt
  | retries + 1, attempt =>
    if (net attempt).again then last net retries (attempt + 1) else net attempt

def isSent : Out → Bool
  | .bytes chunk => !chunk.isEmpty
  | .chunk _ | .doneMarker => true

/-- The attempt answered 200, and its chunks gave the client at least one byte. -/
def Relays (adapter : Adapter σ) (a : Attempt) (chunks : List Bytes) : Prop :=
  (∃ complete, a.response = some ⟨200, chunks, complete⟩) ∧
    (pushAll adapter adapter.translator chunks).out.any isSent = true

/-! ## What is metered -/

def ledgerRow (loads : Text → Option Json) (args : CaptureArgs) : Option CanonicalUsage :=
  match qualityOk loads args with
  | .ok _ => some args.usage
  | .error _ => none

def ledgerRows (loads : Text → Option Json) (log : List Effect) : List CanonicalUsage :=
  (captures log).filterMap (ledgerRow loads)

/-- One row, with the usage the translator has after the chunks that arrived. -/
def MeteredOnce (adapter : Adapter σ) (loads : Text → Option Json) (chunks : List Bytes)
    (log : List Effect) : Prop :=
  ∃ result, assembled adapter chunks = .ok result ∧ ledgerRows loads log = [result.usage]

/-- Every attempt of the run that relays its answer has that answer metered. -/
def EveryRelayMetered (adapter : Adapter σ) (loads : Text → Option Json) (retries : ℕ)
    (net : Network) (log : List Effect) : Prop :=
  ∀ a ∈ reached net retries 0, ∀ chunks, Relays adapter a chunks →
    MeteredOnce adapter loads chunks log

/-- The relayed answer arrives whole, its completion is assembled, and the health signal of an
experiment arm can be read. -/
def EveryRelayWhole (adapter : Adapter σ) (loads : Text → Option Json) (req : Request)
    (retries : ℕ) (net : Network) : Prop :=
  ∀ a ∈ reached net retries 0, ∀ chunks, Relays adapter a chunks → a.whole = some chunks ∧
    ∃ result, assembled adapter chunks = .ok result ∧
      ∃ quality, qualityOk loads (streamCaptureArgs adapter.provider req result) = .ok quality

/-! ## Only the last attempt relays -/

theorem not_again_of_relays {adapter : Adapter σ} {a : Attempt} {chunks : List Bytes}
    (h : Relays adapter a chunks) : a.again = false := by
  obtain ⟨⟨complete, hr⟩, hout⟩ := h
  rw [Attempt.again, hr]
  cases chunks with
  | nil => cases hout
  | cons chunk chunks => simp

theorem eq_last_of_relays {adapter : Adapter σ} {net : Network} {n i : ℕ} {a : Attempt}
    {chunks : List Bytes} (ha : a ∈ reached net n i) (h : Relays adapter a chunks) :
    a = last net n i := by
  induction n generalizing i with
  | zero => exact List.mem_singleton.1 ha
  | succ n ih =>
    rw [reached, List.mem_cons] at ha
    rw [last]
    rcases ha with rfl | ha
    · rw [not_again_of_relays h]
      rfl
    · split_ifs at ha ⊢
      · exact ih ha
      · cases ha

theorem delivered_eq (net : Network) (n i : ℕ) : delivered net n i = (last net n i).whole := by
  induction n generalizing i with
  | zero => rfl
  | succ n ih =>
    rw [delivered, last]
    split_ifs
    · exact ih (i + 1)
    · rfl

theorem whole_eq {adapter : Adapter σ} {a : Attempt} {chunks whole : List Bytes}
    (h : Relays adapter a chunks) (hw : a.whole = some whole) : whole = chunks := by
  obtain ⟨⟨complete, hr⟩, -⟩ := h
  rw [Attempt.whole, hr] at hw
  dsimp only at hw
  split_ifs at hw
  exact (Option.some.inj hw).symm

/-! ## Metered runs -/

theorem ledgerRows_eq {adapter : Adapter σ} (loads : Text → Option Json) {retries : ℕ}
    {req : Request} {net : Network} {log : List Effect}
    (h : streamThrough adapter retries req net = .ok log) :
    ledgerRows loads log = match (last net retries 0).whole with
      | none => []
      | some chunks => match assembled adapter chunks with
        | .ok result => (ledgerRow loads (streamCaptureArgs adapter.provider req result)).toList
        | .error _ => [] := by
  rw [ledgerRows, streamThrough_captures h, delivered_eq]
  cases (last net retries 0).whole with
  | none => rfl
  | some chunks =>
    dsimp only
    cases assembled adapter chunks with
    | error e => rfl
    | ok result =>
      dsimp only
      rw [List.filterMap_cons, List.filterMap_nil]
      cases ledgerRow loads (streamCaptureArgs adapter.provider req result) with
      | none => rfl
      | some usage => rfl

/-- One relayed answer is metered exactly when it is whole and its bookkeeping does not raise. -/
theorem metered_iff {adapter : Adapter σ} {loads : Text → Option Json} {retries : ℕ}
    {req : Request} {net : Network} {log : List Effect} {chunks : List Bytes}
    (h : streamThrough adapter retries req net = .ok log)
    (hr : Relays adapter (last net retries 0) chunks) :
    MeteredOnce adapter loads chunks log ↔ (last net retries 0).whole = some chunks ∧
      ∃ result, assembled adapter chunks = .ok result ∧
        ∃ quality, qualityOk loads (streamCaptureArgs adapter.provider req result) = .ok quality := by
  have hrows := ledgerRows_eq loads h
  constructor
  · intro ⟨result, hresult, hmetered⟩
    rw [hmetered] at hrows
    cases hw : (last net retries 0).whole with
    | none =>
      rw [hw] at hrows
      cases hrows
    | some whole =>
      obtain rfl := whole_eq hr hw
      rw [hw] at hrows
      dsimp only at hrows
      rw [hresult] at hrows
      dsimp only at hrows
      refine ⟨rfl, result, hresult, ?_⟩
      rw [ledgerRow] at hrows
      cases hq : qualityOk loads (streamCaptureArgs adapter.provider req result) with
      | error e =>
        rw [hq] at hrows
        cases hrows
      | ok quality => exact ⟨quality, rfl⟩
  · intro ⟨hw, result, hresult, quality, hq⟩
    refine ⟨result, hresult, ?_⟩
    rw [hrows, hw]
    dsimp only
    rw [hresult]
    dsimp only
    rw [ledgerRow, hq]
    rfl

/-- Relayed answers are metered exactly in the runs whose relayed answer is whole and whose
bookkeeping does not raise. -/
theorem every_relay_metered_iff (adapter : Adapter σ) (loads : Text → Option Json) (retries : ℕ)
    (req : Request) (net : Network) (log : List Effect)
    (h : streamThrough adapter retries req net = .ok log) :
    EveryRelayMetered adapter loads retries net log ↔
      EveryRelayWhole adapter loads req retries net := by
  constructor
  · intro hmetered a ha chunks hr
    obtain rfl := eq_last_of_relays ha hr
    exact (metered_iff h hr).1 (hmetered _ ha chunks hr)
  · intro hwhole a ha chunks hr
    obtain rfl := eq_last_of_relays ha hr
    exact (metered_iff h hr).2 (hwhole _ ha chunks hr)

/-! ## A stream that breaks off -/

theorem half_metered : ∃ log, streamThrough (Provider.openai.adapter halfRuntime) 0 streamRequest
    halfNetwork = .ok log ∧
      (EveryRelayMetered (Provider.openai.adapter halfRuntime) halfRuntime.loads 0 halfNetwork log ↔
        EveryRelayWhole (Provider.openai.adapter halfRuntime) halfRuntime.loads streamRequest 0
          halfNetwork) :=
  ⟨_, rfl, every_relay_metered_iff _ _ 0 _ _ _ rfl⟩

def brokenNetwork : Network := fun _ => ⟨some ⟨200, [halfChunk], false⟩, true, true⟩

theorem broken_relays : Relays (Provider.openai.adapter halfRuntime) (brokenNetwork 0)
    [halfChunk] := ⟨⟨false, rfl⟩, rfl⟩

/-- The client has a part of the answer, and no row is written for it. -/
theorem broken_unmetered : ∃ log,
    streamThrough (Provider.openai.adapter halfRuntime) 0 streamRequest brokenNetwork = .ok log ∧
      ledgerRows halfRuntime.loads log = [] ∧
      ¬ EveryRelayMetered (Provider.openai.adapter halfRuntime) halfRuntime.loads 0 brokenNetwork
        log := by
  obtain ⟨log, hlog⟩ : ∃ log, streamThrough (Provider.openai.adapter halfRuntime) 0 streamRequest
    brokenNetwork = .ok log := ⟨_, rfl⟩
  have hrows : ledgerRows halfRuntime.loads log = [] := ledgerRows_eq _ hlog
  refine ⟨log, hlog, hrows, fun hmetered => ?_⟩
  obtain ⟨result, -, hone⟩ := hmetered _ (List.mem_singleton_self _) _ broken_relays
  rw [hrows] at hone
  cases hone

end Varsten.Proxy.StreamMetering
