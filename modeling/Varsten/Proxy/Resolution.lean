import Varsten.Proxy.ForwardLog
import Varsten.Proxy.OpenAIDialect

/-!
# What a request is resolved to

The states in which a request of the OpenAI dialect is forwarded, and what its answer was asked
with.
-/

namespace Varsten.Proxy.Resolution

open Engine.RequestFacts (field)
open Python (Json Py PyError Runtime)
open Python.Json (item setItem)
open Forward OpenAIDialect

def Rewritten (body out : List (String × Json)) : Prop :=
  out = body ∨ ∃ old xs, item "messages" body = some old ∧ out = setItem "messages" (.arr xs) body

theorem setItem_item {k : String} {v : Json} {fields : List (String × Json)}
    (h : item k fields = some v) : setItem k v fields = fields := by
  induction fields with
  | nil => cases h
  | cons f fields ih =>
    rw [item] at h
    rw [setItem]
    split_ifs at h ⊢ with hk
    · obtain rfl := Option.some.inj h
      rw [← hk]
    · rw [ih h]

theorem Rewritten.eq_of_messages {body out : List (String × Json)} (h : Rewritten body out)
    (hm : field "messages" out = field "messages" body) : out = body := by
  obtain rfl | ⟨old, xs, hold, rfl⟩ := h
  · rfl
  · rw [field, field, Python.Json.item_setItem_self, hold] at hm
    obtain rfl : Json.arr xs = old := hm
    exact setItem_item hold

def controlState (parsed : ParsedClientRequest) (requestedProvider candidateModel : String) :
    OptimizationState :=
  ⟨parsed.body, parsed.model, requestedProvider, none, none, some .control, some parsed.model,
    some candidateModel, false, false⟩

def treatmentState (parsed : ParsedClientRequest)
    (requestedProvider candidateModel candidateProvider : String) : OptimizationState :=
  ⟨parsed.body, candidateModel, candidateProvider, some parsed.model, some requestedProvider,
    some .treatment, some parsed.model, some candidateModel, false, false⟩

def Other (candidateModel candidateProvider model requestedProvider : String) : Prop :=
  candidateModel ≠ "" ∧ (candidateModel ≠ model ∨ candidateProvider ≠ requestedProvider)

/-- What a request is forwarded as that came to the endpoint of a provider, the incumbent. -/
inductive Resolves (parsed : ParsedClientRequest) (incumbent : Provider) : Resolved → Prop where
  | passthrough : Resolves parsed incumbent
      ⟨parsed, incumbent, passthroughState parsed.body parsed.model incumbent.name⟩
  | transform {body : List (String × Json)} {arm : Arm} {trim compression : Bool}
      (rewritten : Rewritten parsed.body body) : Resolves parsed incumbent
      ⟨parsed, incumbent, transformState body parsed.model incumbent.name arm trim compression⟩
  | control {candidateModel : String} : Resolves parsed incumbent
      ⟨parsed, incumbent, controlState parsed incumbent.name candidateModel⟩
  | treatment {candidateModel : String} {candidate : Provider}
      (other : Other candidateModel candidate.name parsed.model incumbent.name) :
      Resolves parsed incumbent ⟨parsed, candidate,
        treatmentState parsed incumbent.name candidateModel candidate.name⟩

theorem Provider.name_inj {p q : Provider} (h : p.name = q.name) : p = q := by
  revert h
  cases p <;> cases q <;> decide

theorem getAdapter_name {name : String} {p : Provider} (h : getAdapter name = some p) :
    p.name = name := by simpa using List.find?_some h

section Cases

variable {sha256 : Python.Utf8.Bytes → String} {lookups : Lookups} {parsed : ParsedClientRequest}
  {requestedProvider : String} {opt : OptimizationState}

theorem rewritten_of_get {body : List (String × Json)} {xs : List Json} {messages : Json}
    (h : (Json.obj body).get "messages" = .ok messages) (hm : messages ≠ .null) :
    Rewritten body (setItem "messages" (.arr xs) body) := by
  cases hi : item "messages" body with
  | none =>
    refine absurd (Except.ok.inj h).symm ?_
    rw [hi]
    exact hm
  | some old => exact .inr ⟨old, xs, hi, rfl⟩

theorem applyTrim_rewritten {body out : List (String × Json)} {params : Json} {applied : Bool}
    (h : transformed (Trim.applyTrim (.obj body) params) = .ok (out, applied)) :
    Rewritten body out := by
  obtain ⟨messages, hget, h⟩ := Python.Py.bind_eq_ok.1 (transformed_eq_ok h)
  split at h
  · rename_i hbody
    obtain rfl := Json.obj.inj hbody
    obtain ⟨⟨trimmed, changed⟩, -, h⟩ := Python.Py.bind_eq_ok.1 h
    dsimp only at h
    split_ifs at h
    · obtain rfl := Json.obj.inj (congrArg Prod.fst (Except.ok.inj h))
      exact rewritten_of_get hget (by simp)
    · exact .inl (Json.obj.inj (congrArg Prod.fst (Except.ok.inj h))).symm
  · exact .inl (Json.obj.inj (congrArg Prod.fst (Except.ok.inj h))).symm

theorem applyCompression_rewritten {body out : List (String × Json)} {original text : String}
    {applied : Bool}
    (h : transformed (Trim.applyCompression sha256 (.obj body) original text) =
      .ok (out, applied)) : Rewritten body out := by
  obtain ⟨messages, hget, h⟩ := Python.Py.bind_eq_ok.1 (transformed_eq_ok h)
  split at h
  · rename_i hbody
    obtain rfl := Json.obj.inj hbody
    obtain ⟨⟨substituted, changed⟩, -, h⟩ := Python.Py.bind_eq_ok.1 h
    dsimp only at h
    split_ifs at h
    · obtain rfl := Json.obj.inj (congrArg Prod.fst (Except.ok.inj h))
      exact rewritten_of_get hget (by simp)
    · exact .inl (Json.obj.inj (congrArg Prod.fst (Except.ok.inj h))).symm
  · exact .inl (Json.obj.inj (congrArg Prod.fst (Except.ok.inj h))).symm

theorem routeArmState_control {decision : RouteDecision} (h : decision.arm = .control) :
    routeArmState parsed requestedProvider decision =
      controlState parsed requestedProvider decision.candidateModel := by
  rw [routeArmState, h, controlState]

theorem routeArmState_treatment {decision : RouteDecision} (h : decision.arm = .treatment) :
    routeArmState parsed requestedProvider decision = treatmentState parsed requestedProvider
      decision.candidateModel decision.candidateProvider := by
  rw [routeArmState, h, treatmentState]

theorem other_of_hasCrossProviderRoute {decision : RouteDecision} {model : String}
    (h : hasCrossProviderRoute decision model requestedProvider = true) :
    Other decision.candidateModel decision.candidateProvider model requestedProvider := by
  simpa [hasCrossProviderRoute, Other] using h

/-- The states of a resolution, before the candidate's key is looked for. -/
inductive State (parsed : ParsedClientRequest) (requestedProvider : String) :
    OptimizationState → Prop where
  | passthrough :
      State parsed requestedProvider (passthroughState parsed.body parsed.model requestedProvider)
  | transform {body : List (String × Json)} {arm : Arm} {trim compression : Bool}
      (rewritten : Rewritten parsed.body body) : State parsed requestedProvider
        (transformState body parsed.model requestedProvider arm trim compression)
  | control {candidateModel : String} :
      State parsed requestedProvider (controlState parsed requestedProvider candidateModel)
  | treatment {candidateModel candidateProvider : String} (named : parsed.model ≠ "")
      (other : Other candidateModel candidateProvider parsed.model requestedProvider) :
      State parsed requestedProvider
        (treatmentState parsed requestedProvider candidateModel candidateProvider)

theorem resolveCompressionState_cases
    (h : resolveCompressionState sha256 lookups parsed requestedProvider = .ok opt) :
    State parsed requestedProvider opt := by
  obtain ⟨decision, -, h⟩ := Python.Py.bind_eq_ok.1 h
  cases decision with
  | none =>
    obtain rfl := Except.ok.inj h
    exact .passthrough
  | some decision =>
    dsimp only at h
    split_ifs at h
    · obtain rfl := Except.ok.inj h
      exact .passthrough
    · split at h
      · obtain rfl := Except.ok.inj h
        exact .transform (.inl rfl)
      · obtain rfl := Except.ok.inj h
        exact .passthrough
      · obtain ⟨⟨body, applied⟩, hc, h⟩ := Python.Py.bind_eq_ok.1 h
        obtain rfl := Except.ok.inj h
        exact .transform (applyCompression_rewritten hc)

theorem resolveTrimState_cases
    (h : resolveTrimState sha256 lookups parsed requestedProvider = .ok opt) :
    State parsed requestedProvider opt := by
  obtain ⟨decision, -, h⟩ := Python.Py.bind_eq_ok.1 h
  cases decision with
  | none => exact resolveCompressionState_cases h
  | some decision =>
    dsimp only at h
    split_ifs at h
    · obtain rfl := Except.ok.inj h
      exact .passthrough
    · split at h
      · obtain rfl := Except.ok.inj h
        exact .transform (.inl rfl)
      · obtain ⟨⟨body, applied⟩, hc, h⟩ := Python.Py.bind_eq_ok.1 h
        obtain rfl := Except.ok.inj h
        exact .transform (applyTrim_rewritten hc)

theorem resolveOptimizations_cases {bypass : Bool}
    (h : resolveOptimizations sha256 lookups parsed requestedProvider bypass = .ok opt) :
    State parsed requestedProvider opt := by
  unfold resolveOptimizations at h
  split_ifs at h
  · obtain rfl := Except.ok.inj h
    exact .passthrough
  · obtain ⟨decision, hd, h⟩ := Python.Py.bind_eq_ok.1 h
    cases decision with
    | none => exact resolveTrimState_cases h
    | some decision =>
      dsimp only at h
      split_ifs at h with hother
      · obtain ⟨ineligibility, -, h⟩ := Python.Py.bind_eq_ok.1 h
        split_ifs at h
        · obtain rfl := Except.ok.inj h
          exact .passthrough
        · obtain rfl := Except.ok.inj h
          cases harm : decision.arm with
          | control =>
            rw [routeArmState_control harm]
            exact .control
          | treatment =>
            rw [routeArmState_treatment harm]
            exact .treatment (lookup_some hd) (other_of_hasCrossProviderRoute hother)
      · exact resolveTrimState_cases h

theorem resolveFailOpen_cases (bypass : Bool) :
    State parsed requestedProvider
      (resolveFailOpen sha256 lookups parsed requestedProvider bypass) := by
  unfold resolveFailOpen
  cases h : resolveOptimizations sha256 lookups parsed requestedProvider bypass with
  | ok opt => exact resolveOptimizations_cases h
  | error e => exact .passthrough

theorem resolveCandidateProvider_self {incumbent : Provider} {hasKey : Provider → Bool}
    (h : opt.upstreamProvider = incumbent.name) :
    resolveCandidateProvider incumbent hasKey opt = .ok (incumbent, opt) := if_pos h

theorem resolveCandidateProvider_treatment {incumbent upstream : Provider}
    {hasKey : Provider → Bool} {candidateModel candidateProvider : String}
    {out : OptimizationState} (named : parsed.model ≠ "")
    (other : Other candidateModel candidateProvider parsed.model incumbent.name)
    (h : resolveCandidateProvider incumbent hasKey
      (treatmentState parsed incumbent.name candidateModel candidateProvider) =
        .ok (upstream, out)) :
    upstream = incumbent ∧ out = passthroughState parsed.body parsed.model incumbent.name ∨
      Other candidateModel upstream.name parsed.model incumbent.name ∧
        out = treatmentState parsed incumbent.name candidateModel upstream.name := by
  by_cases hname : candidateProvider = incumbent.name
  · rw [resolveCandidateProvider_self hname] at h
    obtain ⟨rfl, rfl⟩ := Prod.mk.inj (Except.ok.inj h)
    rw [hname] at other ⊢
    exact .inr ⟨other, rfl⟩
  · unfold resolveCandidateProvider at h
    simp only [treatmentState, if_neg hname, if_neg named] at h
    cases ha : getAdapter candidateProvider with
    | none =>
      rw [ha] at h
      cases h
    | some candidate =>
      rw [ha] at h
      obtain rfl := getAdapter_name ha
      dsimp only at h
      split_ifs at h
      · obtain ⟨rfl, rfl⟩ := Prod.mk.inj (Except.ok.inj h)
        exact .inr ⟨other, rfl⟩
      · obtain ⟨rfl, rfl⟩ := Prod.mk.inj (Except.ok.inj h)
        exact .inl ⟨rfl, rfl⟩

theorem resolveCandidateProvider_cases {incumbent upstream : Provider}
    {hasKey : Provider → Bool} {out : OptimizationState}
    (hs : State parsed incumbent.name opt)
    (h : resolveCandidateProvider incumbent hasKey opt = .ok (upstream, out)) :
    Resolves parsed incumbent ⟨parsed, upstream, out⟩ := by
  cases hs with
  | passthrough =>
    rw [resolveCandidateProvider_self rfl] at h
    obtain ⟨rfl, rfl⟩ := Prod.mk.inj (Except.ok.inj h)
    exact .passthrough
  | transform hr =>
    rw [resolveCandidateProvider_self rfl] at h
    obtain ⟨rfl, rfl⟩ := Prod.mk.inj (Except.ok.inj h)
    exact .transform hr
  | control =>
    rw [resolveCandidateProvider_self rfl] at h
    obtain ⟨rfl, rfl⟩ := Prod.mk.inj (Except.ok.inj h)
    exact .control
  | treatment named hother =>
    obtain ⟨rfl, rfl⟩ | ⟨hother', rfl⟩ := resolveCandidateProvider_treatment named hother h
    · exact .passthrough
    · exact .treatment hother'

end Cases

theorem resolveRequest_cases {w : World} {inc : Incoming} {r : Resolved}
    (h : resolveRequest w inc = .ok r) : Resolves r.parsed inc.endpoint.destination r := by
  obtain ⟨parsed, -, h⟩ := Python.Py.bind_eq_ok.1 h
  obtain ⟨⟨upstream, out⟩, hc, h⟩ := Python.Py.bind_eq_ok.1 h
  obtain rfl := Except.ok.inj h
  exact resolveCandidateProvider_cases (resolveFailOpen_cases _) hc

/-- The request goes to the model the client named, at the provider it named. -/
def AsksIncumbent (inc : Incoming) (r : Resolved) : Prop :=
  r.upstream = inc.endpoint.destination ∧
    (forwardRequest inc r.parsed r.opt).upstream = r.parsed.model

theorem asksIncumbent_iff {w : World} {inc : Incoming} {r : Resolved}
    (h : resolveRequest w inc = .ok r) : AsksIncumbent inc r ↔ r.opt.routedFrom = none := by
  have hself : ∀ m : String, (if m = "" then m else m) = m := fun m => ite_id m
  generalize hp : r.parsed = parsed at *
  have hcases := resolveRequest_cases h
  rw [hp] at hcases
  cases hcases with
  | passthrough => exact iff_of_true ⟨rfl, hself _⟩ rfl
  | transform => exact iff_of_true ⟨rfl, hself _⟩ rfl
  | control => exact iff_of_true ⟨rfl, hself _⟩ rfl
  | treatment hother =>
    refine iff_of_false (fun hask => ?_) (by simp [treatmentState])
    obtain ⟨hp', hm⟩ := hask
    simp only [Request.upstream, forwardRequest, treatmentState, if_neg hother.1] at hm hp'
    rcases hother.2 with hne | hne
    · exact hne hm
    · exact hne (by rw [hp'])

/-- A request that asks the incumbent with the messages of the client sends the client's body. -/
theorem body_of_messages {w : World} {inc : Incoming} {r : Resolved}
    (h : resolveRequest w inc = .ok r)
    (hm : field "messages" r.opt.body = field "messages" r.parsed.body) :
    r.opt.body = r.parsed.body := by
  generalize hp : r.parsed = parsed at *
  have hcases := resolveRequest_cases h
  rw [hp] at hcases
  cases hcases with
  | transform hr => exact hr.eq_of_messages hm
  | _ => rfl

def Untreated (w : World) (inc : Incoming) : Prop :=
  ∀ r, resolveRequest w inc = .ok r → r.opt.routedFrom = none ∧ r.opt.body = r.parsed.body

end Varsten.Proxy.Resolution
