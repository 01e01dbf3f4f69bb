import Mathlib

/-!
# The fallback decision

Whether a failed attempt at Varsten may be repeated at the provider, read off the error by the
adapter of the provider's SDK.
-/

namespace Varsten.Sdk

abbrev Js (ε α : Type) := Except ε α

structure ProviderErrorAdapter (ε : Type) where
  status : ε → Js ε (Option ℚ)
  origin : ε → Js ε (Option String)
  code : ε → Js ε (Option String)
  requestId : ε → Js ε (Option String)
  isTimeout : ε → Js ε Bool
  isConnection : ε → Js ε Bool
  headerlessServerErrorIsVarsten : Option Bool

structure FallbackDecision where
  fallback : Bool
  reasonCode : String
  varstenStatus : Option ℚ

def varstenNoFallbackCodes : List String := ["budget_exceeded", "bad_request", "unauthorized"]

def isFailureStatus (status : ℚ) : Bool := status ≥ 400

section Classify

variable {ε : Type} (adapter : ProviderErrorAdapter ε)

def classifyResponse (status : ℚ) (origin code : Option String) : FallbackDecision :=
  if origin = some "provider" then ⟨false, code.getD "provider_error", some status⟩
  else if origin = some "varsten" then
    if code.any (· ∈ varstenNoFallbackCodes) then ⟨false, code.getD "", some status⟩
    else ⟨isFailureStatus status, code.getD "varsten_error", some status⟩
  else if status ≥ 500 then
    let treatAsVarsten := adapter.headerlessServerErrorIsVarsten ≠ some false
    ⟨treatAsVarsten, if treatAsVarsten then "varsten_5xx" else "unattributed_5xx", some status⟩
  else ⟨false, code.getD "client_error", some status⟩

def classifyError (err : ε) (fallbackOnReadTimeout : Bool) : Js ε FallbackDecision := do
  match ← adapter.status err with
  | some status =>
    let origin ← adapter.origin err
    let code ← adapter.code err
    return classifyResponse adapter status origin code
  | none =>
    if ← adapter.isTimeout err then return ⟨fallbackOnReadTimeout, "varsten_timeout", none⟩
    else if ← adapter.isConnection err then return ⟨true, "connection_error", none⟩
    else return ⟨false, "unknown_error", none⟩

def ProviderTagged (err : ε) : Prop :=
  ∃ status, adapter.status err = .ok (some status) ∧ adapter.origin err = .ok (some "provider")

/-- A failed response that Varsten itself gave: by its tag, without one of the codes that are the
caller's to see, or as a server error without a tag. -/
def VarstenOriginated (err : ε) : Prop :=
  ∃ status origin code, adapter.status err = .ok (some status) ∧ adapter.origin err = .ok origin ∧
    adapter.code err = .ok code ∧
      ((origin = some "varsten" ∧ 400 ≤ status ∧ ∀ c ∈ code, c ∉ varstenNoFallbackCodes) ∨
        (origin ≠ some "varsten" ∧ origin ≠ some "provider" ∧ 500 ≤ status ∧
          adapter.headerlessServerErrorIsVarsten ≠ some false))

/-- No response: a timeout, where those may be repeated, or a failed connection. -/
def TransportFailure (fallbackOnReadTimeout : Bool) (err : ε) : Prop :=
  adapter.status err = .ok none ∧
    ((adapter.isTimeout err = .ok true ∧ fallbackOnReadTimeout = true) ∨
      (adapter.isTimeout err = .ok false ∧ adapter.isConnection err = .ok true))

def Classified (fallbackOnReadTimeout : Bool) (err : ε) : Prop :=
  ∃ d, classifyError adapter err fallbackOnReadTimeout = .ok d ∧ d.fallback = true

variable {adapter} {err : ε} {onTimeout : Bool}

theorem classifyResponse_fallback {status : ℚ} {origin code : Option String} :
    (classifyResponse adapter status origin code).fallback = true ↔
      (origin = some "varsten" ∧ 400 ≤ status ∧ ∀ c ∈ code, c ∉ varstenNoFallbackCodes) ∨
        (origin ≠ some "varsten" ∧ origin ≠ some "provider" ∧ 500 ≤ status ∧
          adapter.headerlessServerErrorIsVarsten ≠ some false) := by
  unfold classifyResponse
  by_cases hprovider : origin = some "provider"
  · simp [hprovider]
  · by_cases hvarsten : origin = some "varsten"
    · cases code with
      | none => simp [hvarsten, isFailureStatus]
      | some code => by_cases hcode : code ∈ varstenNoFallbackCodes <;>
          simp [hvarsten, isFailureStatus, hcode]
    · by_cases hserver : (500 : ℚ) ≤ status <;> simp [hprovider, hvarsten, hserver]

theorem Js.bind_eq_ok {α β : Type} {x : Js ε α} {f : α → Js ε β} {b : β} :
    (x >>= f) = .ok b ↔ ∃ a, x = .ok a ∧ f a = .ok b := by
  cases x with
  | error e => exact iff_of_false (fun h => by cases h) fun ⟨a, h, _⟩ => by cases h
  | ok a => exact ⟨fun h => ⟨a, rfl, h⟩, fun ⟨a', h, h'⟩ => by cases h; exact h'⟩

theorem classified_of_response {status : ℚ} (h : adapter.status err = .ok (some status)) :
    Classified adapter onTimeout err ↔ VarstenOriginated adapter err := by
  constructor
  · rintro ⟨d, hd, hfallback⟩
    obtain ⟨status', hstatus, hd⟩ := Js.bind_eq_ok.1 hd
    obtain rfl := Except.ok.inj (h.symm.trans hstatus)
    obtain ⟨origin, horigin, hd⟩ := Js.bind_eq_ok.1 hd
    obtain ⟨code, hcode, hd⟩ := Js.bind_eq_ok.1 hd
    obtain rfl := Except.ok.inj hd
    exact ⟨status, origin, code, h, horigin, hcode, classifyResponse_fallback.1 hfallback⟩
  · rintro ⟨status', origin, code, hstatus, horigin, hcode, hfailed⟩
    exact ⟨classifyResponse adapter status' origin code,
      Js.bind_eq_ok.2 ⟨_, hstatus, Js.bind_eq_ok.2 ⟨_, horigin, Js.bind_eq_ok.2 ⟨_, hcode, rfl⟩⟩⟩,
      classifyResponse_fallback.2 hfailed⟩

theorem classified_of_none (h : adapter.status err = .ok none) :
    Classified adapter onTimeout err ↔ TransportFailure adapter onTimeout err := by
  constructor
  · rintro ⟨d, hd, hfallback⟩
    obtain ⟨status, hstatus, hd⟩ := Js.bind_eq_ok.1 hd
    obtain rfl := Except.ok.inj (h.symm.trans hstatus)
    obtain ⟨timeout, htimeout, hd⟩ := Js.bind_eq_ok.1 hd
    cases timeout with
    | true =>
      obtain rfl := Except.ok.inj hd
      exact ⟨h, .inl ⟨htimeout, hfallback⟩⟩
    | false =>
      obtain ⟨connection, hconnection, hd⟩ := Js.bind_eq_ok.1 hd
      cases connection with
      | true => exact ⟨h, .inr ⟨htimeout, hconnection⟩⟩
      | false =>
        obtain rfl := Except.ok.inj hd
        cases hfallback
  · rintro ⟨-, ⟨htimeout, honTimeout⟩ | ⟨htimeout, hconnection⟩⟩
    · exact ⟨_, Js.bind_eq_ok.2 ⟨_, h, Js.bind_eq_ok.2 ⟨_, htimeout, rfl⟩⟩, honTimeout⟩
    · exact ⟨_, Js.bind_eq_ok.2 ⟨_, h, Js.bind_eq_ok.2 ⟨_, htimeout,
        Js.bind_eq_ok.2 ⟨_, hconnection, rfl⟩⟩⟩, rfl⟩

/-- The decision is for a fallback exactly where Varsten failed or was not reached. -/
theorem classified_iff : Classified adapter onTimeout err ↔
    VarstenOriginated adapter err ∨ TransportFailure adapter onTimeout err := by
  cases hstatus : adapter.status err with
  | error e =>
    refine iff_of_false ?_ ?_
    · rintro ⟨d, hd, -⟩
      obtain ⟨status, hs, -⟩ := Js.bind_eq_ok.1 hd
      cases hstatus.symm.trans hs
    · rintro (⟨status, origin, code, hs, -⟩ | ⟨hs, -⟩)
      · cases hstatus.symm.trans hs
      · cases hstatus.symm.trans hs
  | ok status =>
    cases status with
    | none =>
      rw [classified_of_none hstatus]
      refine ⟨.inr, fun h => h.resolve_left ?_⟩
      rintro ⟨status, origin, code, hs, -⟩
      cases hstatus.symm.trans hs
    | some status =>
      rw [classified_of_response hstatus]
      refine ⟨.inl, fun h => h.resolve_right ?_⟩
      rintro ⟨hs, -⟩
      cases hstatus.symm.trans hs

theorem not_classified_of_tagged (h : ProviderTagged adapter err) :
    ¬ Classified adapter onTimeout err := by
  obtain ⟨status, hstatus, hprovider⟩ := h
  rw [classified_of_response hstatus]
  rintro ⟨status', origin, code, -, horigin, -, ⟨hvarsten, -⟩ | ⟨-, hother, -⟩⟩
  · rw [hprovider, hvarsten] at horigin
    exact absurd (Option.some.inj (Except.ok.inj horigin)) (by decide)
  · exact hother (Except.ok.inj (hprovider.symm.trans horigin)).symm

end Classify

end Varsten.Sdk
