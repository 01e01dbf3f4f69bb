import Varsten.Engine.RequestFacts

/-!
# Cross-provider routing safety

Whether a chat body can be translated to another provider's wire without losing
what it asks for. The first exact reason against it is returned.
-/

namespace Varsten.Proxy.RoutingEligibility

open Python (Json Py PyError)
open Engine.RequestFacts (field)

def safeOpenaiContentTypes : List Json := [.str "text"]

def serverSideTool : List Json → Option String
  | [] => none
  | .obj tool :: tools => match field "type" tool with
    | .str type => if type ≠ "function" then some type else serverSideTool tools
    | _ => serverSideTool tools
  | _ :: tools => serverSideTool tools

def openaiServerSideTool (body : List (String × Json)) : Py (Option String) := do
  return serverSideTool (← ((field "tools" body).orElse (.arr [])).iter)

/-- The parts of one content list; `part_type not in` hashes the type. -/
def unmappedPart : List Json → Py Bool
  | [] => .ok false
  | .obj part :: parts => match field "type" part with
    | .arr _ | .obj _ => .error .typeError
    | type => if type ∈ safeOpenaiContentTypes then unmappedPart parts else .ok true
  | _ :: parts => unmappedPart parts

def unmappedMessage : List Json → Py Bool
  | [] => .ok false
  | .obj message :: messages => do
    let unmapped ← match field "content" message with
      | .arr parts => unmappedPart parts
      | _ => pure false
    if unmapped then return true else unmappedMessage messages
  | _ :: messages => unmappedMessage messages

def hasUnmappedOpenaiContentPart (body : List (String × Json)) : Py Bool := do
  unmappedMessage (← ((field "messages" body).orElse (.arr [])).iter)

/-- The reason code of `_openai_ineligibility`. -/
def openaiIneligibility (body : List (String × Json)) : Py (Option String) := do
  match ← openaiServerSideTool body with
  | some tool => if tool ≠ "" then return some "server_side_tool" else unmapped
  | none => unmapped
where
  unmapped : Py (Option String) := do
    return if ← hasUnmappedOpenaiContentPart body then some "native_multimodal_unmapped" else none

/-- `cross_provider_ineligibility` for a body of the OpenAI dialect. -/
def crossProviderIneligibility (body : List (String × Json))
    (requestedProvider candidateProvider : String) : Py (Option String) :=
  if requestedProvider = candidateProvider then .ok none else openaiIneligibility body

end Varsten.Proxy.RoutingEligibility
