import Varsten.Sdk.Adapters
import Varsten.Sdk.LocalBreaker

/-!
# One request of the fail-open SDK

The attempt at Varsten, and the one direct call to the provider that may take its place.
-/

namespace Varsten.Sdk.Execute

inductive FallbackMode where
  | auto
  | off
deriving DecidableEq

inductive FallbackPhase where
  | preRequest
  | preFirstToken
deriving DecidableEq

structure FallbackEvent where
  requestId : Option String
  reasonCode : String
  varstenStatus : Option ℚ
  phase : FallbackPhase
  model : String
  latencyMs : ℚ
  sdkVersion : String
  provider : Option String
deriving DecidableEq

/-- `annotate`: by whom a response was served, and why. -/
inductive Served (ρ : Type) where
  | straight (res : ρ)
  | varsten (res : ρ)
  | providerFallback (res : ρ) (reason : String)

inductive Thrown (ε : Type) where
  | raised (err : ε)
  | varstenUnavailable (reasonCode : String) (varstenStatus : Option ℚ)

inductive Effect (β : Type) where
  | primaryCreate (body : β) (idempotencyKey : String)
  | fallbackCreate (body : β) (idempotencyKey : String)
  | recordSuccess
  | recordVarstenFailure
  | onFallback (event : FallbackEvent)
  | emitTelemetry (event : FallbackEvent)
deriving DecidableEq

/-- How a call ends, and what the requests running meanwhile did to the breaker. -/
abbrev CreateFn (β ρ ε : Type) := β → String → LocalBreaker → Js ε ρ × LocalBreaker

structure ExecuteParams (β ρ ε : Type) where
  body : β
  mode : FallbackMode
  primaryCreate : CreateFn β ρ ε
  fallbackCreate : Option (CreateFn β ρ ε)
  breaker : BreakerConfig
  fallbackOnReadTimeout : Bool
  sdkVersion : String
  provider : Option String
  errorAdapter : ProviderErrorAdapter ε
  streaming : Bool
  onFallback : Option (FallbackEvent → Js ε Unit)
  emitTelemetry : Option (FallbackEvent → Js ε Unit)

/-- What a run reads from outside: the model the body names, the key drawn, the clock when the
breaker is asked, when a failure is recorded and around the run, and the draw of the jitter. -/
structure Readings where
  model : String
  idempotencyKey : String
  askedAt : ℚ
  failedAt : ℚ
  random : ℚ
  latencyMs : ℚ

structure Execution (β ρ ε : Type) where
  log : List (Effect β)
  breaker : LocalBreaker
  result : Except (Thrown ε) (Served ρ)

variable {β ρ ε : Type}

def phaseOf (streaming : Bool) : FallbackPhase := if streaming then .preFirstToken else .preRequest

def safeCall (fn : Option (FallbackEvent → Js ε Unit)) (effect : FallbackEvent → Effect β)
    (event : FallbackEvent) : List (Effect β) :=
  match fn with
  | none => []
  | some fn =>
    match fn event with
    | .ok _ => [effect event]
    | .error _ => [effect event]

def doFallback (p : ExecuteParams β ρ ε) (r : Readings) (reasonCode : String)
    (varstenStatus : Option ℚ) (requestId : Option String) (b : LocalBreaker) :
    Execution β ρ ε :=
  match p.fallbackCreate with
  | none => ⟨[], b, .error (.varstenUnavailable reasonCode varstenStatus)⟩
  | some fallbackCreate =>
    let called := [.fallbackCreate p.body r.idempotencyKey]
    match fallbackCreate p.body r.idempotencyKey b with
    | (.error err, b) => ⟨called, b, .error (.raised err)⟩
    | (.ok res, b) =>
      let event : FallbackEvent := {
        requestId, reasonCode, varstenStatus
        phase := phaseOf p.streaming
        model := r.model
        latencyMs := r.latencyMs
        sdkVersion := p.sdkVersion
        provider := p.provider }
      ⟨called ++ safeCall p.onFallback .onFallback event ++
        safeCall p.emitTelemetry .emitTelemetry event, b, .ok (.providerFallback res reasonCode)⟩

def Execution.after (log : List (Effect β)) (e : Execution β ρ ε) : Execution β ρ ε :=
  { e with log := log ++ e.log }

def handleError (p : ExecuteParams β ρ ε) (r : Readings) (err : ε) (b : LocalBreaker) :
    Execution β ρ ε :=
  match classifyError p.errorAdapter err p.fallbackOnReadTimeout with
  | .error thrown => ⟨[], b, .error (.raised thrown)⟩
  | .ok decision =>
    if !decision.fallback then ⟨[], b, .error (.raised err)⟩
    else
      let b := b.recordVarstenFailure p.breaker r.failedAt r.random
      match p.errorAdapter.requestId err with
      | .error thrown => ⟨[.recordVarstenFailure], b, .error (.raised thrown)⟩
      | .ok requestId =>
        (doFallback p r decision.reasonCode decision.varstenStatus requestId b).after
          [.recordVarstenFailure]

def executeWithFallback (p : ExecuteParams β ρ ε) (r : Readings) (b : LocalBreaker) :
    Execution β ρ ε :=
  let called := [.primaryCreate p.body r.idempotencyKey]
  if p.mode = .off then
    match p.primaryCreate p.body r.idempotencyKey b with
    | (.error err, b) => ⟨called, b, .error (.raised err)⟩
    | (.ok res, b) => ⟨called, b, .ok (.straight res)⟩
  else
    let (allowed, b) := b.allow r.askedAt
    if !allowed then doFallback p r "breaker_open" none none b
    else
      match p.primaryCreate p.body r.idempotencyKey b with
      | (.ok res, b) => ⟨called ++ [.recordSuccess], b.recordSuccess, .ok (.varsten res)⟩
      | (.error err, b) => (handleError p r err b).after called

/-! ## The paths of a run -/

section Paths

variable (p : ExecuteParams β ρ ε) (r : Readings) (b : LocalBreaker)

def varstenCall : Option (Js ε ρ) :=
  if p.mode = .off then some (p.primaryCreate p.body r.idempotencyKey b).1
  else if (b.allow r.askedAt).1 then
    some (p.primaryCreate p.body r.idempotencyKey (b.allow r.askedAt).2).1
  else none

def Refused : Prop := p.mode ≠ .off ∧ (b.allow r.askedAt).1 = false

/-- The Varsten call is rejected with a failure of Varsten or of the way to it. -/
def Failed : Prop := p.mode ≠ .off ∧ ∃ err, varstenCall p r b = some (.error err) ∧
  (VarstenOriginated p.errorAdapter err ∨
    TransportFailure p.errorAdapter p.fallbackOnReadTimeout err)

def Resolved : Prop := p.mode ≠ .off ∧ ∃ res, varstenCall p r b = some (.ok res)

inductive IsNote : Effect β → Prop
  | onFallback (event : FallbackEvent) : IsNote (.onFallback event)
  | emitTelemetry (event : FallbackEvent) : IsNote (.emitTelemetry event)

/-- The direct call with what is told of it, or nothing where no provider key is configured. -/
inductive Direct : List (Effect β) → Prop
  | none : Direct []
  | made (notes : List (Effect β)) (h : ∀ e ∈ notes, IsNote e) :
    Direct (.fallbackCreate p.body r.idempotencyKey :: notes)

/-- The effects of a run on each of its paths. -/
inductive Path : List (Effect β) → Prop
  | off (hoff : p.mode = .off) : Path [.primaryCreate p.body r.idempotencyKey]
  | refused (tail : List (Effect β)) (hrefused : Refused p r b) (htail : Direct p r tail) : Path tail
  | resolved (hresolved : Resolved p r b) :
    Path [.primaryCreate p.body r.idempotencyKey, .recordSuccess]
  | surfaced (err : ε) (hon : p.mode ≠ .off) (hcall : varstenCall p r b = some (.error err))
    (herr : ¬ Classified p.errorAdapter p.fallbackOnReadTimeout err) :
    Path [.primaryCreate p.body r.idempotencyKey]
  | fallback (tail : List (Effect β)) (hfailed : Failed p r b) (htail : Direct p r tail) :
    Path (.primaryCreate p.body r.idempotencyKey :: .recordVarstenFailure :: tail)

variable {p r b}

theorem isNote_safeCall {fn : Option (FallbackEvent → Js ε Unit)}
    {effect : FallbackEvent → Effect β} {event : FallbackEvent} (h : IsNote (effect event)) :
    ∀ e ∈ safeCall fn effect event, IsNote e := by
  intro e he
  unfold safeCall at he
  split at he
  · cases he
  · split at he <;> exact List.mem_singleton.1 he ▸ h

theorem direct_doFallback (reasonCode : String) (status : Option ℚ) (requestId : Option String) :
    Direct p r (doFallback p r reasonCode status requestId b).log := by
  rw [doFallback]
  cases p.fallbackCreate with
  | none => exact .none
  | some fallbackCreate =>
    dsimp only
    split
    · exact .made [] (List.forall_mem_nil _)
    · refine .made _ fun e he => ?_
      rcases List.mem_append.1 he with he | he
      · exact isNote_safeCall (.onFallback _) e he
      · exact isNote_safeCall (.emitTelemetry _) e he

theorem handleError_surfaced {err : ε}
    (h : ¬ Classified p.errorAdapter p.fallbackOnReadTimeout err) :
    (handleError p r err b).log = [] := by
  rw [handleError]
  cases hclass : classifyError p.errorAdapter err p.fallbackOnReadTimeout with
  | error thrown => rfl
  | ok decision =>
    have hfallback : decision.fallback = false := Bool.eq_false_iff.2 fun hf => h ⟨_, hclass, hf⟩
    simp [hfallback]

theorem handleError_fallback {err : ε}
    (h : Classified p.errorAdapter p.fallbackOnReadTimeout err) :
    ∃ tail, (handleError p r err b).log = .recordVarstenFailure :: tail ∧ Direct p r tail := by
  obtain ⟨decision, hclass, hfallback⟩ := h
  rw [handleError, hclass]
  dsimp only
  rw [hfallback]
  cases p.errorAdapter.requestId err with
  | error thrown => exact ⟨[], rfl, .none⟩
  | ok requestId => exact ⟨_, rfl, direct_doFallback _ _ _⟩

theorem execute_path : Path p r b (executeWithFallback p r b).log := by
  rw [executeWithFallback]
  by_cases hoff : p.mode = .off
  · rw [if_pos hoff]
    split <;> exact .off hoff
  · rw [if_neg hoff]
    cases hask : b.allow r.askedAt with
    | mk allowed asked =>
      cases allowed with
      | false =>
        exact .refused _ ⟨hoff, congrArg Prod.fst hask⟩ (direct_doFallback _ _ _)
      | true =>
        have hcall : varstenCall p r b =
            some (p.primaryCreate p.body r.idempotencyKey asked).1 := by
          rw [varstenCall, if_neg hoff, hask, if_pos rfl]
        cases hend : p.primaryCreate p.body r.idempotencyKey asked with
        | mk result after =>
          rw [hend] at hcall
          cases result with
          | ok res =>
            simp only [Bool.not_true, Bool.false_eq_true, if_false, hend]
            exact .resolved ⟨hoff, res, hcall⟩
          | error err =>
            simp only [Bool.not_true, Bool.false_eq_true, if_false, hend]
            by_cases hclass : Classified p.errorAdapter p.fallbackOnReadTimeout err
            · obtain ⟨tail, hlog, htail⟩ := handleError_fallback (r := r) (b := after) hclass
              dsimp only [Execution.after]
              rw [hlog]
              exact .fallback tail ⟨hoff, err, hcall, classified_iff.1 hclass⟩ htail
            · have hlog := handleError_surfaced (r := r) (b := after) hclass
              dsimp only [Execution.after]
              rw [hlog]
              exact .surfaced err hoff hcall hclass

theorem not_failed {out : Js ε ρ} (hcall : varstenCall p r b = some out)
    (h : ∀ err, out = .error err → ¬ Classified p.errorAdapter p.fallbackOnReadTimeout err) :
    ¬ Failed p r b := by
  rintro ⟨-, err, hcall', hfailed⟩
  exact h err (Option.some.inj (hcall.symm.trans hcall')) (classified_iff.2 hfailed)

theorem not_resolved {err : ε} (hcall : varstenCall p r b = some (.error err)) :
    ¬ Resolved p r b := by
  rintro ⟨-, res, hcall'⟩
  cases hcall.symm.trans hcall'

theorem varstenCall_refused (h : Refused p r b) : varstenCall p r b = none := by
  rw [varstenCall, if_neg h.1, h.2]
  rfl

end Paths

/-! ## Never two calls of a kind -/

section Calls

def Effect.isVarstenCall : Effect β → Bool
  | .primaryCreate _ _ => true
  | _ => false

def Effect.isDirectCall : Effect β → Bool
  | .fallbackCreate _ _ => true
  | _ => false

variable (p : ExecuteParams β ρ ε) (r : Readings) (b : LocalBreaker)

/-- One call of each kind at most, the direct one only in Varsten's place, both of one request;
and the breaker is told how the Varsten call ended. -/
structure CallsOnce (log : List (Effect β)) : Prop where
  varsten : log.countP Effect.isVarstenCall ≤ 1
  direct : log.countP Effect.isDirectCall ≤ 1
  direct_only : ∀ body key, .fallbackCreate body key ∈ log → Refused p r b ∨ Failed p r b
  direct_tagged : ∀ err, varstenCall p r b = some (.error err) → ProviderTagged p.errorAdapter err →
    ∀ body key, .fallbackCreate body key ∉ log
  direct_resolved : ∀ res, varstenCall p r b = some (.ok res) →
    ∀ body key, .fallbackCreate body key ∉ log
  same : ∀ body key, .primaryCreate body key ∈ log ∨ .fallbackCreate body key ∈ log →
    body = p.body ∧ key = r.idempotencyKey
  failure : .recordVarstenFailure ∈ log ↔ Failed p r b
  success : .recordSuccess ∈ log ↔ Resolved p r b

variable {p r b}

theorem note_calls {notes : List (Effect β)} (h : ∀ e ∈ notes, IsNote e) :
    notes.countP Effect.isVarstenCall = 0 ∧ notes.countP Effect.isDirectCall = 0 := by
  constructor
  all_goals
    refine List.countP_eq_zero.2 fun e he => ?_
    cases h e he <;> exact Bool.false_ne_true

theorem direct_calls {tail : List (Effect β)} (h : Direct p r tail) :
    tail.countP Effect.isVarstenCall = 0 ∧ tail.countP Effect.isDirectCall ≤ 1 := by
  cases h with
  | none => exact ⟨rfl, Nat.zero_le 1⟩
  | made notes h =>
    obtain ⟨hvarsten, hdirect⟩ := note_calls h
    simp [List.countP_cons, hvarsten, hdirect, Effect.isVarstenCall, Effect.isDirectCall]

theorem mem_direct {tail : List (Effect β)} {e : Effect β} (h : Direct p r tail) (he : e ∈ tail) :
    e = .fallbackCreate p.body r.idempotencyKey ∨ IsNote e := by
  cases h with
  | none => cases he
  | made notes h => exact (List.mem_cons.1 he).imp_right (h e)

/-- A direct call's list tells the breaker nothing, and holds no call of another request. -/
theorem direct_members {tail : List (Effect β)} (h : Direct p r tail) :
    .recordVarstenFailure ∉ tail ∧ .recordSuccess ∉ tail ∧
      (∀ body key, .primaryCreate body key ∉ tail) ∧
      ∀ body key, .fallbackCreate body key ∈ tail → body = p.body ∧ key = r.idempotencyKey := by
  have hmem := fun e (he : e ∈ tail) => mem_direct h he
  refine ⟨fun he => ?_, fun he => ?_, fun body key he => ?_, fun body key he => ?_⟩
  · rcases hmem _ he with heq | hnote
    · cases heq
    · cases hnote
  · rcases hmem _ he with heq | hnote
    · cases heq
    · cases hnote
  · rcases hmem _ he with heq | hnote
    · cases heq
    · cases hnote
  · rcases hmem _ he with heq | hnote
    · exact ⟨(Effect.fallbackCreate.inj heq).1, (Effect.fallbackCreate.inj heq).2⟩
    · cases hnote

theorem callsOnce_surfaced (hfailed : ¬ Failed p r b) (hresolved : ¬ Resolved p r b) :
    CallsOnce p r b [.primaryCreate p.body r.idempotencyKey] where
  varsten := by simp [Effect.isVarstenCall]
  direct := by simp [Effect.isDirectCall]
  direct_only body key h := by simp at h
  direct_tagged err _ _ body key h := by simp at h
  direct_resolved res _ body key h := by simp at h
  same body key h := by simpa using h
  failure := iff_of_false (by simp) hfailed
  success := iff_of_false (by simp) hresolved

theorem callsOnce_of_path {log : List (Effect β)} (h : Path p r b log) : CallsOnce p r b log := by
  cases h with
  | off hoff => exact callsOnce_surfaced (fun h => h.1 hoff) fun h => h.1 hoff
  | surfaced err hon hcall herr =>
    refine callsOnce_surfaced (not_failed hcall fun err' heq => ?_) (not_resolved hcall)
    obtain rfl := Except.error.inj heq
    exact herr
  | refused tail hrefused htail =>
    obtain ⟨hfailure, hsuccess, hprimary, hsame⟩ := direct_members htail
    have hnone := varstenCall_refused hrefused
    have hcall : ∀ out, varstenCall p r b ≠ some out := fun out h => by cases hnone.symm.trans h
    exact {
      varsten := (direct_calls htail).1.trans_le (Nat.zero_le 1)
      direct := (direct_calls htail).2
      direct_only := fun _ _ _ => .inl hrefused
      direct_tagged := fun err h => absurd h (hcall _)
      direct_resolved := fun res h => absurd h (hcall _)
      same := fun body key h => h.elim (fun h => absurd h (hprimary body key)) (hsame body key)
      failure := iff_of_false hfailure fun ⟨_, err, h, _⟩ => hcall _ h
      success := iff_of_false hsuccess fun ⟨_, res, h⟩ => hcall _ h }
  | resolved hresolved =>
    obtain ⟨-, res, hcall⟩ := id hresolved
    exact {
      varsten := by simp [List.countP_cons, Effect.isVarstenCall]
      direct := by simp [Effect.isDirectCall]
      direct_only := fun _ _ h => by simp at h
      direct_tagged := fun err h => by cases hcall.symm.trans h
      direct_resolved := fun _ _ _ _ h => by simp at h
      same := fun body key h => by simpa using h
      failure := iff_of_false (by simp) (not_failed hcall fun err h => by cases h)
      success := iff_of_true (by simp) hresolved }
  | fallback tail hfailed htail =>
    obtain ⟨hfailure, hsuccess, hprimary, hsame⟩ := direct_members htail
    obtain ⟨hvarsten, hdirect⟩ := direct_calls htail
    obtain ⟨-, err, hcall, hclass⟩ := id hfailed
    exact {
      varsten := by simp [List.countP_cons, Effect.isVarstenCall, hvarsten]
      direct := by simpa [List.countP_cons, Effect.isDirectCall] using hdirect
      direct_only := fun _ _ _ => .inr hfailed
      direct_tagged := fun err' h htagged => by
        obtain rfl := Except.error.inj (Option.some.inj (hcall.symm.trans h))
        exact absurd (classified_iff.2 hclass) (not_classified_of_tagged htagged)
      direct_resolved := fun res h => by cases hcall.symm.trans h
      same := fun body key h => by
        simp only [List.mem_cons, Effect.primaryCreate.injEq, reduceCtorEq, hprimary, or_false,
          false_or] at h
        exact h.elim id (hsame body key)
      failure := iff_of_true (by simp) hfailed
      success := iff_of_false (by simp [hsuccess]) (not_resolved hcall) }

theorem off_untouched (hoff : p.mode = .off) : (executeWithFallback p r b).breaker =
    (p.primaryCreate p.body r.idempotencyKey b).2 := by
  rw [executeWithFallback, if_pos hoff]
  rcases p.primaryCreate p.body r.idempotencyKey b with ⟨_ | _, _⟩ <;> rfl

/-- A request makes at most one Varsten call and at most one direct call, whatever the calls, the
adapter and the callbacks do; with the fallback off its breaker is what the Varsten call leaves. -/
theorem execute_calls_once (p : ExecuteParams β ρ ε) (r : Readings) (b : LocalBreaker) :
    CallsOnce p r b (executeWithFallback p r b).log ∧
      (p.mode = .off → (executeWithFallback p r b).breaker =
        (p.primaryCreate p.body r.idempotencyKey b).2) :=
  ⟨callsOnce_of_path execute_path, off_untouched⟩

end Calls

/-! ## A call without fallback, and an error without a response -/

def resolves (_ : Unit) (_ : String) (b : LocalBreaker) : Js JsError Unit × LocalBreaker := (.ok (), b)

def resetError : JsError where
  status := none
  headers := [("x-varsten-origin", some "provider")]
  name := "APIConnectionError"
  constructorName := ""
  message := none
  code := some "ECONNRESET"
  error := none
  causeCode := none
  classes := []

def resets (_ : Unit) (_ : String) (b : LocalBreaker) : Js JsError Unit × LocalBreaker :=
  (.error resetError, b)

def sampleParams (mode : FallbackMode) (primaryCreate : CreateFn Unit Unit JsError) :
    ExecuteParams Unit Unit JsError where
  body := ()
  mode
  primaryCreate
  fallbackCreate := some resolves
  breaker := ⟨5, 30000⟩
  fallbackOnReadTimeout := false
  sdkVersion := "varsten-openai/0.1.0"
  provider := none
  errorAdapter := genericAdapter
  streaming := false
  onFallback := none
  emitTelemetry := none

def sampleReadings : Readings := ⟨"gpt-4o", "varsten-1", 1000, 1001, 0, 2⟩

/-- With the fallback off a call that resolves is no success to the breaker; and an error that
carries the provider's tag but no status is answered by a direct call. -/
theorem off_unrecorded :
    (varstenCall (sampleParams .off resolves) sampleReadings .new = some (.ok ()) ∧
      .recordSuccess ∉ (executeWithFallback (sampleParams .off resolves) sampleReadings .new).log) ∧
    varstenCall (sampleParams .auto resets) sampleReadings .new = some (.error resetError) ∧
      genericAdapter.origin resetError = .ok (some "provider") ∧
      .fallbackCreate () "varsten-1" ∈
        (executeWithFallback (sampleParams .auto resets) sampleReadings .new).log :=
  ⟨⟨rfl, by decide +kernel⟩, rfl, congrArg Except.ok (by decide +kernel), by decide +kernel⟩

end Varsten.Sdk.Execute
