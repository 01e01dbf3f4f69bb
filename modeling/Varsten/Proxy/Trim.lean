import Varsten.Python.Utf8
import Varsten.Python.Value

/-!
# Body transforms

The two transforms of a chat body: `apply_trim`, which windows, deduplicates and
collapses the messages, and `apply_compression`, which swaps the system prompt
for an approved rewrite on an exact hash match. A transform that reports no
change returns the body it was given.
-/

namespace Varsten.Proxy.Trim

open Python (Json Py PyError)
open Python.Utf8 (Text Bytes encode)

/-- `re.sub` of a run of at least `n` characters of the class `p`. -/
def subRuns (p : Char → Bool) (n : ℕ) (rep : Text) : Text → Text → Text
  | pending, [] => if n ≤ pending.length then rep else pending
  | pending, c :: cs =>
    if p c then subRuns p n rep (pending ++ [c]) cs
    else (if n ≤ pending.length then rep else pending) ++ c :: subRuns p n rep [] cs

def collapseText (text : String) : String :=
  String.ofList (subRuns (· = '\n') 3 ['\n', '\n'] []
    (subRuns (fun c => c = ' ' ∨ c = '\t') 2 [' '] [] text.toList))

def keepLastDefault : ℤ := 12

structure TrimParams where
  keepLast : ℤ
  dedupe : Bool
  collapse : Bool

def trimParams (params : Json) : Py TrimParams := do
  let params := params.orElse (.obj [])
  return {
    keepLast := ← (← params.getD "keep_last_turns" (.int keepLastDefault)).toInt
    dedupe := (← params.getD "dedupe" (.bool true)).truthy
    collapse := (← params.getD "collapse_whitespace" (.bool true)).truthy }

def isSystem (m : Json) : Py Bool := return (← m.get "role") = .str "system"

def splitSystem : List Json → Py (List Json × List Json)
  | [] => .ok ([], [])
  | m :: ms => do
    let isSys ← isSystem m
    let (system, rest) ← splitSystem ms
    return if isSys then (m :: system, rest) else (system, m :: rest)

def window (keepLast : ℤ) (rest : List Json) : List Json :=
  if keepLast > 0 ∧ (rest.length : ℤ) > keepLast then rest.drop (rest.length - keepLast.toNat)
  else rest

/-- The loop over the kept messages; `seen` holds the roles and texts already put out. -/
def trimLoop (p : TrimParams) : List (Json × String) → List Json → Py (List Json)
  | _, [] => .ok []
  | seen, m :: ms => do
    match ← m.get "content" with
    | .str content =>
      let text := if p.collapse then collapseText content else content
      let m' := if text = content then m else match m with
        | .obj fields => .obj (Json.setItem "content" (.str text) fields)
        | m => m
      if p.dedupe then
        let role ← Json.hashKey (← m.getD "role" (.str ""))
        if (role, text) ∈ seen then trimLoop p seen ms
        else return m' :: (← trimLoop p ((role, text) :: seen) ms)
      else return m' :: (← trimLoop p seen ms)
    | _ => return m :: (← trimLoop p seen ms)

def trimMessages (messages : List Json) (params : Json) : Py (List Json × Bool) :=
  if messages = [] then .ok (messages, false)
  else do
    let p ← trimParams params
    let (system, rest) ← splitSystem messages
    let out ← trimLoop p [] (system ++ window p.keepLast rest)
    return (out, !Json.pyEqList out messages)

def applyTrim (body params : Json) : Py (Json × Bool) := do
  match ← body.get "messages", body with
  | .arr messages, .obj fields =>
    let (trimmed, changed) ← trimMessages messages params
    return if changed then (.obj (Json.setItem "messages" (.arr trimmed) fields), true)
      else (body, false)
  | _, _ => return (body, false)

/-! ## Compression -/

/-- `message.get("role") in {"system", "developer"}`. -/
def hasPrefixRole (fields : List (String × Json)) : Py Bool :=
  match (Json.item "role" fields).getD .null with
  | .arr _ | .obj _ => .error .typeError
  | role => .ok (role = .str "system" ∨ role = .str "developer")

def extractSystemText : List Json → Py (Option String)
  | .obj fields :: _ => do
    if ← hasPrefixRole fields then
      match (Json.item "content" fields).getD .null with
      | .str content => return if content = "" then none else some content
      | _ => return none
    else return none
  | _ => .ok none

/-- The message that is replaced is the first one: extraction stops at any other. -/
def substituteSystemPrompt (sha256 : Bytes → String) (messages : List Json)
    (originalHash compressedText : String) : Py (List Json × Bool) := do
  match ← extractSystemText messages with
  | none => return (messages, false)
  | some current =>
    if sha256 (encode current.toList) ≠ originalHash then return (messages, false)
    else match messages with
      | .obj fields :: rest =>
        return (.obj (Json.setItem "content" (.str compressedText) fields) :: rest, true)
      | _ => return (messages, false)

def applyCompression (sha256 : Bytes → String) (body : Json)
    (originalHash compressedText : String) : Py (Json × Bool) := do
  match ← body.get "messages", body with
  | .arr messages, .obj fields =>
    let (substituted, applied) ←
      substituteSystemPrompt sha256 messages originalHash compressedText
    return if applied then (.obj (Json.setItem "messages" (.arr substituted) fields), true)
      else (body, false)
  | _, _ => return (body, false)

theorem applyTrim_unchanged {body params out : Json} (h : applyTrim body params = .ok (out, false)) :
    out = body := by
  obtain ⟨messages, -, h⟩ := Python.Py.bind_eq_ok.1 h
  split at h
  · obtain ⟨⟨trimmed, changed⟩, -, h⟩ := Python.Py.bind_eq_ok.1 h
    cases changed with
    | true => cases Except.ok.inj h
    | false => exact (congrArg Prod.fst (Except.ok.inj h)).symm
  · exact (congrArg Prod.fst (Except.ok.inj h)).symm

theorem applyCompression_unchanged {sha256 : Bytes → String} {body out : Json}
    {originalHash compressedText : String}
    (h : applyCompression sha256 body originalHash compressedText = .ok (out, false)) :
    out = body := by
  obtain ⟨messages, -, h⟩ := Python.Py.bind_eq_ok.1 h
  split at h
  · obtain ⟨⟨substituted, applied⟩, -, h⟩ := Python.Py.bind_eq_ok.1 h
    cases applied with
    | true => cases Except.ok.inj h
    | false => exact (congrArg Prod.fst (Except.ok.inj h)).symm
  · exact (congrArg Prod.fst (Except.ok.inj h)).symm

end Varsten.Proxy.Trim
