import Varsten.Python.Value

/-!
# Request facts

The signals that are read off a raw request body before any policy runs. Each is
a scan over the body that trusts no field's type.
-/

namespace Varsten.Engine.RequestFacts

open Python (Json Py PyError)

def field (k : String) (fields : List (String × Json)) : Json := (Json.item k fields).getD .null

def hasTools (body : List (String × Json)) : Bool :=
  (field "tools" body).truthy || (field "functions" body).truthy ||
    (field "tool_config" body).truthy || (field "toolConfig" body).truthy

/-- `response_format.get("type") in {"json_object", "json_schema"}`, which hashes the type. -/
def responseFormatJson (responseFormat : Json) : Py Bool :=
  match responseFormat with
  | .obj fields => match field "type" fields with
    | .arr _ | .obj _ => .error .typeError
    | type => .ok (type = .str "json_object" ∨ type = .str "json_schema")
  | _ => .ok false

def wantsJson (body : List (String × Json)) : Py Bool := do
  if ← responseFormatJson (field "response_format" body) then return true
  let configured := match field "generationConfig" body with
    | .obj config => field "responseMimeType" config = .str "application/json"
    | _ => false
  return configured || (field "response_mime_type" body).orElse (field "responseMimeType" body) =
    .str "application/json"

def multimodalPartTypes : List String :=
  ["audio", "file", "image", "image_url", "input_audio", "input_file", "input_image", "video"]

def multimodalFields : List String :=
  ["audio", "file", "file_data", "fileData", "image", "image_url", "inline_data", "inlineData",
    "input_audio", "input_file", "input_image", "video"]

def nestedFields : List String := ["content", "contents", "messages", "input", "parts"]

def isMultimodalType (type : Json) : Bool :=
  match type with
  | .str s => s.toLower ∈ multimodalPartTypes
  | _ => false

mutual

def hasMultimodal : Json → Bool
  | .obj fields =>
    isMultimodalType (field "type" fields) || multimodalFields.any (fun k =>
      (Json.item k fields).isSome) || hasMultimodalField fields
  | .arr xs => hasMultimodalItem xs
  | _ => false

def hasMultimodalItem : List Json → Bool
  | [] => false
  | x :: xs => hasMultimodal x || hasMultimodalItem xs

def hasMultimodalField : List (String × Json) → Bool
  | [] => false
  | (k, v) :: fields => (decide (k ∈ nestedFields) && hasMultimodal v) || hasMultimodalField fields

end

def bodyHasMultimodal (body : List (String × Json)) : Bool :=
  hasMultimodal (field "messages" body) || hasMultimodal (field "input" body) ||
    hasMultimodal (field "content" body) || hasMultimodal (field "contents" body)

end Varsten.Engine.RequestFacts
