import Varsten.Python.Text

/-!
# Route identity

The canonical route key. `lower` is `str.lower`.
-/

namespace Varsten.Engine.RouteIdentity

open Python.Utf8 (Text)
open Python.Text (isSpace strip)

def maxRouteKeyLen : ℕ := 128

def defaultRoute : String := "default"

/-- `\s+` replaced by one underscore. -/
def collapseSpace : Text → Text
  | [] => []
  | [c] => if isSpace c then ['_'] else [c]
  | c :: d :: rest =>
    if isSpace c then
      if isSpace d then collapseSpace (d :: rest) else '_' :: collapseSpace (d :: rest)
    else c :: collapseSpace (d :: rest)

def normalize (lower : Text → Text) (value : String) : String :=
  String.ofList ((collapseSpace (lower (strip value.toList))).take maxRouteKeyLen)

structure Handles where
  feature : Option String
  workflow : Option String
  requestType : Option String
  taskType : Option String

def isHandle (value : String) : Bool := value ≠ "" ∧ strip value.toList ≠ []

def canonicalRouteKey (lower : Text → Text) (h : Handles) : String :=
  match [h.feature, h.workflow, h.requestType, h.taskType].find? (Option.any isHandle) with
  | some (some value) => normalize lower value
  | _ => defaultRoute

end Varsten.Engine.RouteIdentity
