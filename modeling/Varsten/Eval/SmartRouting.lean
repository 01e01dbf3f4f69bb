import Varsten.Eval.Capture
import Varsten.Proxy.Predicate

/-!
# Smart routing on the traffic it serves

The eval asks the default predicate of a stored sample, the proxy asks the predicate of the policy
of the body. A stored sample has no `functions`.
-/

namespace Varsten.Eval.SmartRouting

open Capture
open Engine.RequestFacts (field)
open Proxy.Predicate
open Python (Json Py)

def eligibleForSmartRouting (s : ReplaySample) : Py Bool :=
  isEligible (.obj s.body) defaultPredicate

/-- The sample is of the eval of a smart routing. -/
def Kept (s : ReplaySample) : Prop := eligibleForSmartRouting s = .ok true

/-- Under the default predicate the legacy `functions` alone speak against the body. -/
def OnlyFunctions (body : List (String × Json)) : Prop :=
  withinDefault body = true ∧ (field "tools" body).truthy = false ∧
    (field "functions" body).truthy = true

/-- The policy lets a body through that only its `functions` speak against, and decides any other
as a policy that has just been activated. -/
structure DecidesAsDefault (params body : List (String × Json)) : Prop where
  functions : OnlyFunctions body → routes params (.obj body) = true
  others : ¬ OnlyFunctions body →
    routes params (.obj body) = routes (seedPredicate []) (.obj body)

variable {tap : Tap} {body : List (String × Json)} {payload : Json} {model : String} {i o : ℤ}
  {s : ReplaySample}

theorem withinDefault_captured (h : captureSample tap body payload model i o = some s) :
    withinDefault s.body = withinDefault body := by
  have hfield : ∀ k ∈ ["messages", "response_format", "max_completion_tokens", "max_tokens"],
      field k s.body = field k body := by
    intro k hk
    rw [field_captured h, if_pos]
    revert k
    decide
  simp only [List.forall_mem_cons] at hfield
  obtain ⟨hmessages, hformat, hcompletion, htokens, -⟩ := hfield
  simp only [withinDefault, wantsStructuredOutput, completionBudget, hmessages, hformat,
    hcompletion, htokens]

theorem hasTools_captured (h : captureSample tap body payload model i o = some s) :
    hasTools s.body = (field "tools" body).truthy := by
  rw [hasTools, field_captured h, field_captured h, if_pos (by decide), if_neg (by decide)]
  exact Bool.or_false _

theorem kept_iff (h : captureSample tap body payload model i o = some s) :
    Kept s ↔ withinDefault body = true ∧ (field "tools" body).truthy = false := by
  rw [Kept, eligibleForSmartRouting, isEligible_default, withinDefault_captured h,
    hasTools_captured h]
  simp

theorem routes_seeded (body : List (String × Json)) :
    routes (seedPredicate []) (.obj body) = (withinDefault body && !hasTools body) := by
  have hpredicate : field "predicate" (seedPredicate []) = defaultPredicate := rfl
  rw [routes, Json.obj_orElse_empty, hpredicate, isEligible_default]

/-- The eval keeps what a fresh policy routes, and the bodies that only their `functions` keep
away. -/
theorem kept_iff_seeded (h : captureSample tap body payload model i o = some s) :
    Kept s ↔ routes (seedPredicate []) (.obj body) = true ∨ OnlyFunctions body := by
  rw [kept_iff h, routes_seeded, OnlyFunctions, hasTools]
  cases withinDefault body <;> cases (field "tools" body).truthy <;>
    cases (field "functions" body).truthy <;> simp

/-- A captured body is kept exactly when the policy routes it, where the policy decides as the
default predicate does and the body has no hidden functions. -/
theorem kept_iff_routed_iff (params : List (String × Json))
    (h : captureSample tap body payload model i o = some s) :
    (Kept s ↔ routes params (.obj body) = true) ↔ DecidesAsDefault params body := by
  rw [kept_iff_seeded h]
  by_cases hf : OnlyFunctions body
  · constructor
    · intro hiff
      exact ⟨fun _ => hiff.1 (.inr hf), fun hn => absurd hf hn⟩
    · intro hd
      exact ⟨fun _ => hd.functions hf, fun _ => .inr hf⟩
  · rw [or_iff_left hf]
    constructor
    · intro hiff
      exact ⟨fun hp => absurd hp hf, fun _ => Bool.eq_iff_iff.2 hiff.symm⟩
    · intro hd
      rw [hd.others hf]

/-! ## A call with legacy functions -/

def legacyBody : List (String × Json) :=
  [("model", .str "gpt-4o"),
    ("messages", .arr [.obj [("role", .str "user"), ("content", .str "Weather in Oslo?")]]),
    ("functions", .arr [.obj [("name", .str "get_weather")]])]

def answer : Json :=
  .obj [("choices", .arr [.obj [("message", .obj [("content", .str "Sunny")])]])]

def openTap : Tap := ⟨true, 0, 1, 1, 0, true⟩

def legacySample : ReplaySample where
  id := 1
  routeKey := "gpt-4o"
  source := .traffic
  requestMessages := field "messages" legacyBody
  requestParams := []
  incumbentResponse := some answer
  expectedOutput := none
  inputTokens := 10
  outputTokens := 5
  createdAt := 0

theorem legacy_captured :
    captureSample openTap legacyBody answer "gpt-4o" 10 5 = some legacySample := by
  rfl

theorem legacy_kept_not_routed :
    captureSample openTap legacyBody answer "gpt-4o" 10 5 = some legacySample ∧
      ¬ (Kept legacySample ↔ routes (seedPredicate []) (.obj legacyBody) = true) := by
  refine ⟨legacy_captured, fun h => ?_⟩
  have hkept : Kept legacySample := (kept_iff legacy_captured).2 (by decide +kernel)
  exact absurd (h.1 hkept) (by decide +kernel)

theorem kept_iff_routed_legacy :
    (Kept legacySample ↔ routes (seedPredicate []) (.obj legacyBody) = true) ↔
      DecidesAsDefault (seedPredicate []) legacyBody :=
  kept_iff_routed_iff (seedPredicate []) legacy_captured

end Varsten.Eval.SmartRouting
