import Varsten.Sdk.Classify

/-!
# The error adapters of the provider SDKs
-/

namespace Varsten.Sdk

/-- The `error` object of a body. -/
structure ErrorBody where
  origin : Option String
  code : Option String
  requestId : Option String

/-- What the adapters read of a thrown value: a missing name is empty, and `classes` names the
SDK's error classes it is an instance of. -/
structure JsError where
  status : Option ℚ
  headers : List (String × Option String)
  name : String
  constructorName : String
  message : Option String
  code : Option String
  error : Option ErrorBody
  causeCode : Option String
  classes : List String

def readHeader (headers : List (String × Option String)) (name : String) : Option String :=
  (headers.find? fun h => h.1.toLower = name.toLower).bind (·.2)

/-- `\s` of a regular expression. -/
def isSpace (c : Char) : Bool :=
  c ∈ ['\t', '\n', '\x0b', '\x0c', '\r', ' ', '\u00a0', '\u1680', '\u2028', '\u2029', '\u202f',
    '\u205f', '\u3000', '\ufeff'] ∨ ('\u2000' ≤ c ∧ c ≤ '\u200a')

/-- `/pattern/i.test(text)`, of a pattern that is plain text. -/
def testFold (pattern text : String) : Bool := pattern.toList <:+: text.toLower.toList

/-- `/timed?\s?out/i`, from the start of the text. -/
def startsTimedOut (text : List Char) : Bool :=
  match text with
  | 't' :: 'i' :: 'm' :: 'e' :: rest =>
    let rest := if rest.head? = some 'd' then rest.tail else rest
    let rest := if rest.head?.any isSpace then rest.tail else rest
    ['o', 'u', 't'].isPrefixOf rest
  | _ => false

def testTimedOut (text : String) : Bool := text.toLower.toList.tails.any startsTimedOut

def nameBlob (err : JsError) : String := err.name ++ " " ++ err.constructorName

def matchesTimeout (err : JsError) : Bool :=
  testFold "timeout" (nameBlob err) || testTimedOut (err.message.getD "") ||
    err.code = some "ETIMEDOUT" || err.code = some "ESOCKETTIMEDOUT"

def connectionErrnos : List String := ["ECONNREFUSED", "ENOTFOUND", "ECONNRESET", "EAI_AGAIN", "EPIPE"]

def matchesConnection (err : JsError) : Bool :=
  testFold "apiconnection" (nameBlob err) || testFold "connection error" (err.message.getD "") ||
    err.code.any (· ∈ connectionErrnos)

variable {ε : Type}

def genericAdapter : ProviderErrorAdapter JsError where
  status err := .ok err.status
  origin err := .ok <|
    (readHeader err.headers "x-varsten-origin").or (err.error.bind (·.origin))
  code err := .ok <| err.code.or (err.error.bind (·.code))
  requestId err := .ok <| readHeader err.headers "x-varsten-request-id"
  isTimeout err := .ok (matchesTimeout err)
  isConnection err := .ok (matchesConnection err)
  headerlessServerErrorIsVarsten := none

/-- `makeStainlessAdapter`, of the SDK's classes for a timeout and for a failed connection. -/
def makeStainlessAdapter (timeoutClass connectionClass : Option String) :
    ProviderErrorAdapter JsError :=
  { genericAdapter with
    isTimeout err := .ok (timeoutClass.any (· ∈ err.classes) || matchesTimeout err)
    isConnection err := .ok (connectionClass.any (· ∈ err.classes) || matchesConnection err) }

/-- `parseBody`; `parse` reads the `error` object of a text, empty where it is no JSON. -/
def parseBody (parse : String → ErrorBody) (err : JsError) : ErrorBody :=
  err.message.elim ⟨none, none, none⟩ parse

def geminiErrnos : List String := connectionErrnos ++ ["UND_ERR_CONNECT_TIMEOUT"]

def geminiErrorAdapter (parse : String → ErrorBody) : ProviderErrorAdapter JsError where
  status err := .ok err.status
  origin err := .ok <|
    (readHeader err.headers "x-varsten-origin").or (parseBody parse err).origin
  code err := .ok <| err.code.or (parseBody parse err).code
  requestId err := .ok <|
    (readHeader err.headers "x-varsten-request-id").or (parseBody parse err).requestId
  isTimeout err := .ok <| err.name = "AbortError" ||
    testFold "aborted" (err.message.getD "") || testTimedOut (err.message.getD "") ||
      testFold "timeout" (err.message.getD "")
  isConnection err := .ok <|
    (err.name = "TypeError" && ["fetch failed", "network", "terminated", "fetch"].any
      (testFold · (err.message.getD ""))) ||
      (err.causeCode.or err.code).any (· ∈ geminiErrnos)
  headerlessServerErrorIsVarsten := some false

structure ProviderErrorAdapter.Total (adapter : ProviderErrorAdapter ε) : Prop where
  status : ∀ err, ∃ v, adapter.status err = .ok v
  origin : ∀ err, ∃ v, adapter.origin err = .ok v
  code : ∀ err, ∃ v, adapter.code err = .ok v
  isTimeout : ∀ err, ∃ v, adapter.isTimeout err = .ok v
  isConnection : ∀ err, ∃ v, adapter.isConnection err = .ok v

theorem genericAdapter_total : genericAdapter.Total :=
  ⟨fun _ => ⟨_, rfl⟩, fun _ => ⟨_, rfl⟩, fun _ => ⟨_, rfl⟩, fun _ => ⟨_, rfl⟩, fun _ => ⟨_, rfl⟩⟩

theorem stainlessAdapter_total (timeoutClass connectionClass : Option String) :
    (makeStainlessAdapter timeoutClass connectionClass).Total :=
  ⟨fun _ => ⟨_, rfl⟩, fun _ => ⟨_, rfl⟩, fun _ => ⟨_, rfl⟩, fun _ => ⟨_, rfl⟩, fun _ => ⟨_, rfl⟩⟩

theorem geminiErrorAdapter_total (parse : String → ErrorBody) : (geminiErrorAdapter parse).Total :=
  ⟨fun _ => ⟨_, rfl⟩, fun _ => ⟨_, rfl⟩, fun _ => ⟨_, rfl⟩, fun _ => ⟨_, rfl⟩, fun _ => ⟨_, rfl⟩⟩

theorem classifyError_total {adapter : ProviderErrorAdapter ε} (h : adapter.Total) (err : ε)
    (onTimeout : Bool) : ∃ d, classifyError adapter err onTimeout = .ok d := by
  obtain ⟨status, hstatus⟩ := h.status err
  cases status with
  | some status =>
    obtain ⟨origin, horigin⟩ := h.origin err
    obtain ⟨code, hcode⟩ := h.code err
    exact ⟨_, Js.bind_eq_ok.2 ⟨_, hstatus, Js.bind_eq_ok.2 ⟨_, horigin,
      Js.bind_eq_ok.2 ⟨_, hcode, rfl⟩⟩⟩⟩
  | none =>
    obtain ⟨timeout, htimeout⟩ := h.isTimeout err
    obtain ⟨connection, hconnection⟩ := h.isConnection err
    cases timeout with
    | true => exact ⟨_, Js.bind_eq_ok.2 ⟨_, hstatus, Js.bind_eq_ok.2 ⟨_, htimeout, rfl⟩⟩⟩
    | false =>
      cases connection with
      | true => exact ⟨_, Js.bind_eq_ok.2 ⟨_, hstatus, Js.bind_eq_ok.2 ⟨_, htimeout,
          Js.bind_eq_ok.2 ⟨_, hconnection, rfl⟩⟩⟩⟩
      | false => exact ⟨_, Js.bind_eq_ok.2 ⟨_, hstatus, Js.bind_eq_ok.2 ⟨_, htimeout,
          Js.bind_eq_ok.2 ⟨_, hconnection, rfl⟩⟩⟩⟩

end Varsten.Sdk
