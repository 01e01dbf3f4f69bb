import Varsten.Engine.RequestFacts

/-!
# The predicate of smart routing

A request goes to the candidate where no check of the predicate speaks against it. A predicate is
the JSON value under `params["predicate"]`.
-/

namespace Varsten.Proxy.Predicate

open Engine.RequestFacts (field)
open Python (Json Py PyError)

def blockChars : Json → ℕ
  | .obj block => match field "text" block with
    | .str text => text.length
    | _ => 0
  | _ => 0

def messageChars : Json → ℕ
  | .obj message => match field "content" message with
    | .str content => content.length
    | .arr blocks => (blocks.map blockChars).sum
    | _ => 0
  | _ => 0

def promptChars : Json → ℕ
  | .arr messages => (messages.map messageChars).sum
  | _ => 0

def hasTools (body : List (String × Json)) : Bool :=
  (field "tools" body).truthy || (field "functions" body).truthy

def wantsStructuredOutput (body : List (String × Json)) : Bool :=
  match field "response_format" body with
  | .obj format => field "type" format = .str "json_schema" || field "type" format =
      .str "json_object"
  | _ => false

/-- Where `int` raises there is no budget. -/
def completionBudget (body : List (String × Json)) : Option ℤ :=
  let budget := match field "max_completion_tokens" body with
    | .null => field "max_tokens" body
    | tokens => tokens
  if budget = .null then none else budget.toInt.toOption

/-- `n > limit`. -/
def exceeds (n : ℤ) (limit : Json) : Py Bool :=
  match limit.num? with
  | some q => .ok (q < n)
  | none => .error .typeError

/-- Whether a number is over a limit of the predicate; `None` is no limit. -/
def overLimit (predicate : Json) (key : String) (n : Option ℤ) : Py Bool := do
  let limit ← predicate.get key
  match limit, n with
  | .null, _ | _, none => return false
  | limit, some n => exceeds n limit

def refuses (predicate : Json) (key : String) (wanted : Bool) : Py Bool :=
  if wanted then do return !(← predicate.getD key (.bool false)).truthy else .ok false

def isEligible (body predicate : Json) : Py Bool :=
  if !predicate.truthy then .ok true
  else match body with
    | .obj body => do
      if ← overLimit predicate "max_prompt_chars" (some (promptChars (field "messages" body))) then
        return false
      if ← refuses predicate "route_when_tools" (hasTools body) then return false
      if ← refuses predicate "route_when_json_schema" (wantsStructuredOutput body) then
        return false
      if ← overLimit predicate "max_completion_tokens" (completionBudget body) then return false
      return true
    | _ => .ok false

def defaultPredicate : Json :=
  .obj [("max_prompt_chars", .int 6000), ("route_when_tools", .bool false),
    ("route_when_json_schema", .bool false), ("max_completion_tokens", .int 1024)]

/-- What of a policy's params `resolve_route` asks of a body; an exception leaves the request on the
incumbent. -/
def routes (params : List (String × Json)) (body : Json) : Bool :=
  match isEligible (body.orElse (.obj [])) (field "predicate" params) with
  | .ok eligible => eligible
  | .error _ => false

def seedPredicate (params : List (String × Json)) : List (String × Json) :=
  if (Json.item "predicate" params).isSome then params
  else Json.setItem "predicate" defaultPredicate params

def withinDefault (body : List (String × Json)) : Bool :=
  promptChars (field "messages" body) ≤ 6000 && !wantsStructuredOutput body &&
    (completionBudget body).all (· ≤ 1024)

theorem overLimit_int {predicate : Json} {k : String} {limit : ℤ}
    (h : predicate.get k = .ok (.int limit)) (n : Option ℤ) :
    overLimit predicate k n = .ok (n.any (limit < ·)) := by
  rw [overLimit, h]
  cases n with
  | none => rfl
  | some n => simp [Py.bind_ok, exceeds, Json.num?]

theorem refuses_false {predicate : Json} {k : String}
    (h : predicate.getD k (.bool false) = .ok (.bool false)) (wanted : Bool) :
    refuses predicate k wanted = .ok wanted := by
  rw [refuses, h]
  cases wanted <;> rfl

theorem isEligible_of_checks {body : List (String × Json)} {predicate : Json} {b₁ b₂ b₃ b₄ : Bool}
    (h : predicate.truthy = true)
    (h₁ : overLimit predicate "max_prompt_chars" (some (promptChars (field "messages" body))) =
      .ok b₁)
    (h₂ : refuses predicate "route_when_tools" (hasTools body) = .ok b₂)
    (h₃ : refuses predicate "route_when_json_schema" (wantsStructuredOutput body) = .ok b₃)
    (h₄ : overLimit predicate "max_completion_tokens" (completionBudget body) = .ok b₄) :
    isEligible (.obj body) predicate = .ok (!b₁ && !b₂ && !b₃ && !b₄) := by
  simp only [isEligible, h, h₁, h₂, h₃, h₄, Py.bind_ok]
  cases b₁ <;> cases b₂ <;> cases b₃ <;> cases b₄ <;> rfl

theorem isEligible_default (body : List (String × Json)) :
    isEligible (.obj body) defaultPredicate = .ok (withinDefault body && !hasTools body) := by
  rw [isEligible_of_checks rfl (overLimit_int rfl _) (refuses_false rfl _) (refuses_false rfl _)
    (overLimit_int rfl _)]
  have hbudget : (!(completionBudget body).any (1024 < ·)) =
      (completionBudget body).all (· ≤ 1024) := by
    cases completionBudget body <;> simp [← decide_not]
  have hchars : (!(some (promptChars (field "messages" body) : ℤ)).any (6000 < ·)) =
      decide (promptChars (field "messages" body) ≤ 6000) := by
    rw [Option.any_some, ← decide_not]
    exact decide_eq_decide.2 (by omega)
  rw [hbudget, hchars, withinDefault]
  congr 1
  cases hasTools body <;> simp

end Varsten.Proxy.Predicate
