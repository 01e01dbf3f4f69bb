import Varsten.Proxy.ClientCompletions
import Varsten.Proxy.MessageTexts

/-!
# Tool-call ids across Gemini

Gemini names a function call and its response, and gives neither an id. The translations
make the id from the name, and read the name of a response back from the id.
-/

namespace Varsten.Proxy.CallIdentity

open Python (Json Py Gen Runtime)
open Engine.RequestFacts (field)
open Providers (Out CanonicalCompletion Turn)
open ClientRequests

variable {rt : Runtime}

/-! ## What Gemini writes -/

/-- The name an id is made from. -/
def shownName (rt : Runtime) (named : Json) : String :=
  rt.str ((named.val "name").orElse (.str "gemini"))

def functionCall : Json → Option Json
  | .obj part => if (field "text" part).truthy then none else match partKind part with
    | .functionCall call => some call
    | _ => none
  | _ => none

def functionResponse : Json → Option Json
  | .obj part => if (field "text" part).truthy then none else match partKind part with
    | .functionResponse response => some response
    | _ => none
  | _ => none

def parts (content : Json) : List Json :=
  match ((content.val "parts").orElse (.arr [])).iter with
  | .ok parts => parts
  | .error _ => []

def historyCalls (contents : List Json) : List Json :=
  contents.flatMap fun content => (parts content).filterMap functionCall

def historyResponses (contents : List Json) : List Json :=
  contents.flatMap fun content => (parts content).filterMap functionResponse

/-- A turn makes calls or gives responses. -/
def IsTurn (content : Json) : Prop :=
  (parts content).filterMap functionCall = [] ∨ (parts content).filterMap functionResponse = []

/-! ## What the OpenAI shape says -/

def messageCalls (message : Json) : List Json :=
  match message.val "tool_calls" with
  | .arr calls => calls
  | _ => []

def isResult (message : Json) : Bool := message.val "role" = .str "tool"

def callIds (messages : List Json) : List Json :=
  (messages.flatMap messageCalls).map fun call => call.val "id"

def resultIds (messages : List Json) : List Json :=
  (messages.filter isResult).map fun message => message.val "tool_call_id"

def calledName (call : Json) : Json := (call.val "function").val "name"

def responseNames (content : Json) : List Json :=
  ((parts content).filterMap functionResponse).map fun response => response.val "name"

def blockFields (type key : String) (content : Json) : List Json :=
  ((contentBlocks (content.val "content")).filter (hasType type)).map fun block => block.val key

/-! ## Identity -/

/-- A tool message becomes a function response with the name of the call that has its id. -/
def NamesItsCall (rt : Runtime) (messages : List Json) : Prop :=
  ∀ message ∈ messages, isResult message = true → ∀ call ∈ messages.flatMap messageCalls,
    call.val "id" = message.val "tool_call_id" → ∀ content,
      Providers.Gemini.turnOf rt message = .ok (.content content) →
        responseNames content = [calledName call]

def SameIds (rt : Runtime) (messages : List Json) : Prop :=
  ∀ message ∈ messages, ∀ content,
    Providers.Anthropic.turnOf rt message = .ok (.content content) →
      blockFields "tool_use" "id" content = callIds [message] ∧
        blockFields "tool_result" "tool_use_id" content = resultIds [message]

/-- The identity of the tool calls of a Gemini history in its OpenAI messages: a response
answers the calls of its name. -/
structure KeepsIdentity (rt : Runtime) (contents messages : List Json) : Prop where
  distinct : (callIds messages).Nodup
  answered : ∀ (i j : ℕ) response call, (historyResponses contents)[i]? = some response →
    (historyCalls contents)[j]? = some call → response.val "name" = call.val "name" →
      (resultIds messages)[i]? = (callIds messages)[j]?
  gemini : NamesItsCall rt messages
  anthropic : SameIds rt messages

/-! ## Translated histories -/

theorem callId_eq (rt : Runtime) (named : Json) :
    callId rt named = .str ("call_" ++ shownName rt named) := rfl

theorem callId_inj {a b : Json} : callId rt a = callId rt b ↔ shownName rt a = shownName rt b := by
  rw [callId_eq, callId_eq]
  constructor
  · intro h
    have htext := congrArg String.toList (Json.str.inj h)
    rw [String.toList_append, String.toList_append] at htext
    exact String.toList_injective (List.append_cancel_left htext)
  · exact fun h => by rw [h]

theorem ids_nodup_iff (rt : Runtime) (calls : List Json) :
    (calls.map (callId rt)).Nodup ↔ (calls.map (shownName rt)).Nodup := by
  rw [List.Nodup, List.Nodup, List.pairwise_map, List.pairwise_map]
  simp only [ne_eq, callId_inj]

def translatedCall (rt : Runtime) (call : Json) : Json :=
  .obj [("id", callId rt call), ("type", .str "function"),
    ("function", .obj [("name", (call.val "name").orElse (.str "")),
      ("arguments", .str (rt.dumps ((call.val "args").orElse (.obj []))))])]

def translatedResponse (rt : Runtime) (response : Json) : Json :=
  .obj [("role", .str "tool"), ("tool_call_id", callId rt response),
    ("content", .str (rt.dumps ((response.val "response").orElse (.obj []))))]

theorem partCall_eq (rt : Runtime) (part : Json) :
    partCall rt part = (functionCall part).map (translatedCall rt) := by
  cases part with
  | obj fields =>
    rw [partCall, functionCall]
    split_ifs
    · rfl
    · cases partKind fields with
      | _ => rfl
  | _ => rfl

theorem partResponse_eq (rt : Runtime) (part : Json) :
    (partResponse rt part).map toolMessage =
      (functionResponse part).map (translatedResponse rt) := by
  cases part with
  | obj fields =>
    rw [partResponse, functionResponse]
    split_ifs
    · rfl
    · cases partKind fields with
      | _ => rfl
  | _ => rfl

def turnMessage (role text : String) (calls : List Json) : Json :=
  .obj ([("role", .str role), ("content", if text = "" then .null else .str text)] ++
    Providers.optionalItem "tool_calls" (if calls = [] then none else some (.arr calls)))

theorem content_messages {fields : Fields} {messages : List Json}
    (h : geminiContentToOpenai rt fields = .ok messages) :
    ((parts (.obj fields)).filterMap functionResponse = [] ∧ ∃ role text,
      (role = "assistant" ∨ role = "user") ∧ messages = [turnMessage role text
        (((parts (.obj fields)).filterMap functionCall).map (translatedCall rt))]) ∨
    ((parts (.obj fields)).filterMap functionResponse ≠ [] ∧ messages =
      ((parts (.obj fields)).filterMap functionResponse).map (translatedResponse rt)) := by
  obtain ⟨ps, hps, h⟩ := Python.Py.bind_eq_ok.1 h
  have hparts : parts (.obj fields) = ps := by
    have hval : (Json.obj fields).val "parts" = field "parts" fields := rfl
    rw [parts, hval, hps]
  have hcalls : ps.filterMap (partCall rt) = (ps.filterMap functionCall).map (translatedCall rt) := by
    rw [List.map_filterMap]
    exact congrArg (fun f => ps.filterMap f) (funext fun part => partCall_eq rt part)
  have hresponses : (ps.filterMap (partResponse rt)).map toolMessage =
      (ps.filterMap functionResponse).map (translatedResponse rt) := by
    rw [List.map_filterMap, List.map_filterMap]
    exact congrArg (fun f => ps.filterMap f) (funext fun part => partResponse_eq rt part)
  dsimp only at h
  rw [hcalls, hresponses] at h
  rw [hparts]
  obtain rfl := Except.ok.inj h
  by_cases hnil : ps.filterMap functionResponse = []
  · refine .inl ⟨hnil, if field "role" fields = .str "model" then "assistant" else "user", _, ?_,
      if_pos (by rw [hnil]; rfl)⟩
    split_ifs
    · exact .inl rfl
    · exact .inr rfl
  · exact .inr ⟨hnil, if_neg (by simpa using hnil)⟩

theorem messageCalls_turn (role text : String) (calls : List Json) :
    messageCalls (turnMessage role text calls) = calls := by
  cases calls with
  | nil => rfl
  | cons call calls => rfl

theorem result_turn {role : String} (h : role = "assistant" ∨ role = "user") (text : String)
    (calls : List Json) : isResult (turnMessage role text calls) = false := by
  obtain rfl | rfl := h
  · rfl
  · rfl

theorem resultIds_append (xs ys : List Json) :
    resultIds (xs ++ ys) = resultIds xs ++ resultIds ys := by
  rw [resultIds, List.filter_append, List.map_append]
  rfl

theorem resultIds_responses (rt : Runtime) (responses : List Json) :
    resultIds (responses.map (translatedResponse rt)) = responses.map (callId rt) := by
  induction responses with
  | nil => rfl
  | cons response responses ih => exact congrArg (callId rt response :: ·) ih

inductive FromHistory (rt : Runtime) (contents : List Json) : Json → Prop
  | turn {role : String} (text : String) (calls : List Json)
      (hrole : role = "assistant" ∨ role = "user") (hcalls : calls ⊆ historyCalls contents) :
      FromHistory rt contents (turnMessage role text (calls.map (translatedCall rt)))
  | result {response : Json} (h : response ∈ historyResponses contents) :
      FromHistory rt contents (translatedResponse rt response)

/-- The calls and the results of the messages are those of the history, in order. -/
structure Translation (rt : Runtime) (contents messages : List Json) : Prop where
  calls : messages.flatMap messageCalls = (historyCalls contents).map (translatedCall rt)
  results : resultIds messages = (historyResponses contents).map (callId rt)
  origin : ∀ message ∈ messages, FromHistory rt contents message

theorem FromHistory.mono {contents contents' : List Json} {message : Json}
    (h : FromHistory rt contents message)
    (hcalls : historyCalls contents ⊆ historyCalls contents')
    (hresponses : historyResponses contents ⊆ historyResponses contents') :
    FromHistory rt contents' message := by
  cases h with
  | turn text calls hrole hsub => exact .turn text calls hrole fun _ hc => hcalls (hsub hc)
  | result h => exact .result (hresponses h)

theorem Translation.append {xs ys ms ns : List Json} (hx : Translation rt xs ms)
    (hy : Translation rt ys ns) : Translation rt (xs ++ ys) (ms ++ ns) := by
  have hcalls : historyCalls (xs ++ ys) = historyCalls xs ++ historyCalls ys :=
    List.flatMap_append
  have hresponses : historyResponses (xs ++ ys) = historyResponses xs ++ historyResponses ys :=
    List.flatMap_append
  refine ⟨?_, ?_, fun message hm => ?_⟩
  · rw [List.flatMap_append, hx.calls, hy.calls, hcalls, List.map_append]
  · rw [resultIds_append, hx.results, hy.results, hresponses, List.map_append]
  · rcases List.mem_append.1 hm with hm | hm
    · exact (hx.origin message hm).mono (hcalls ▸ List.subset_append_left _ _)
        (hresponses ▸ List.subset_append_left _ _)
    · exact (hy.origin message hm).mono (hcalls ▸ List.subset_append_right _ _)
        (hresponses ▸ List.subset_append_right _ _)

theorem content_translation {fields : Fields} {messages : List Json}
    (ht : IsTurn (.obj fields)) (h : geminiContentToOpenai rt fields = .ok messages) :
    Translation rt [.obj fields] messages := by
  have hcalls : historyCalls [.obj fields] = (parts (.obj fields)).filterMap functionCall :=
    List.flatMap_singleton ..
  have hresponses : historyResponses [.obj fields] =
      (parts (.obj fields)).filterMap functionResponse := List.flatMap_singleton ..
  rcases content_messages h with ⟨hnone, role, text, hrole, rfl⟩ | ⟨hsome, rfl⟩
  · refine ⟨?_, ?_, fun message hm => ?_⟩
    · rw [List.flatMap_singleton, messageCalls_turn, hcalls]
    · rw [resultIds, List.filter_singleton, result_turn hrole, hresponses, hnone]
      rfl
    · obtain rfl := List.mem_singleton.1 hm
      exact .turn text _ hrole (by rw [hcalls]; exact List.Subset.refl _)
  · have hnone := ht.resolve_right hsome
    refine ⟨?_, ?_, fun message hm => ?_⟩
    · rw [hcalls, hnone, List.map_nil, List.flatMap_map]
      exact List.flatMap_eq_nil_iff.2 fun _ _ => rfl
    · rw [resultIds_responses, hresponses]
    · obtain ⟨response, hr, rfl⟩ := List.mem_map.1 hm
      exact .result (by rwa [hresponses])

theorem parts_notDict {content : Json} (h : content.isDict = false) : parts content = [] := by
  cases content with
  | obj fields => cases h
  | _ => rfl

theorem history_translation {contents messages : List Json}
    (ht : ∀ content ∈ contents, IsTurn content)
    (h : flatMapDicts (geminiContentToOpenai rt) contents = .ok messages) :
    Translation rt contents messages := by
  induction contents generalizing messages with
  | nil =>
    obtain rfl := Except.ok.inj h
    exact ⟨rfl, rfl, nofun⟩
  | cons content contents ih =>
    rw [List.forall_mem_cons] at ht
    have hskip : content.isDict = false → flatMapDicts (geminiContentToOpenai rt) contents =
        .ok messages → Translation rt (content :: contents) messages := by
      intro hdict h
      have hempty : Translation rt [content] [] := by
        refine ⟨?_, ?_, nofun⟩
        · simp [historyCalls, parts_notDict hdict]
        · simp [historyResponses, parts_notDict hdict, resultIds]
      exact hempty.append (ih ht.2 h)
    cases content with
    | obj fields =>
      obtain ⟨first, hfirst, h⟩ := Python.Py.bind_eq_ok.1 h
      obtain ⟨rest, hrest, h⟩ := Python.Py.bind_eq_ok.1 h
      obtain rfl := Except.ok.inj h
      exact (content_translation ht.1 hfirst).append (ih ht.2 hrest)
    | _ => exact hskip rfl h

/-! ## On to Anthropic -/

theorem callId_orElse (rt : Runtime) (named d : Json) :
    (callId rt named).orElse d = callId rt named := by
  have hne : "call_" ++ shownName rt named ≠ "" := by
    intro h
    have htext := congrArg String.toList h
    rw [String.toList_append] at htext
    cases htext
  exact if_pos ((Json.truthy_str _).2 hne)

theorem toolUse_id {call block : Json}
    (h : Providers.Anthropic.toolUseBlock rt (translatedCall rt call) = .ok block) :
    block.val "id" = callId rt call := by
  simp only [Providers.Anthropic.toolUseBlock, Python.Py.bind_eq_ok] at h
  obtain ⟨_, _, _, _, _, _, id, hid, _, _, h⟩ := h
  obtain rfl := Except.ok.inj hid
  rw [← Except.ok.inj h]
  exact callId_orElse rt call (.str "")

theorem toolUse_ids {calls blocks : List Json}
    (h : (calls.map (translatedCall rt)).mapM (Providers.Anthropic.toolUseBlock rt) = .ok blocks) :
    blocks.map (fun block => block.val "id") = calls.map (callId rt) := by
  induction calls generalizing blocks with
  | nil =>
    obtain rfl := Except.ok.inj h
    rfl
  | cons call calls ih =>
    obtain ⟨block, rest, hb, hr, rfl⟩ := Python.Py.mapM_cons_ok h
    rw [List.map_cons, List.map_cons, toolUse_id hb, ih hr]

theorem ids_append {plain blocks : List Json} (type key : String)
    (h : ∀ block ∈ plain, hasType type block = false) :
    ((plain ++ blocks).filter (hasType type)).map (fun block => block.val key) =
      (blocks.filter (hasType type)).map fun block => block.val key := by
  rw [List.filter_append, List.filter_eq_nil_iff.2 (by simpa using h), List.nil_append]

theorem filter_all {blocks : List Json}
    (h : ∀ block ∈ blocks, ∃ fields, block = Json.obj (("type", .str "tool_use") :: fields)) :
    blocks.filter (hasType "tool_use") = blocks := by
  refine List.filter_eq_self.2 fun block hb => ?_
  obtain ⟨fields, rfl⟩ := h block hb
  rfl

def textBlocks (text : String) : List Json :=
  if text = "" then [] else [.obj [("type", .str "text"), ("text", .str text)]]

theorem textBlocks_plain (text type : String) (h : type ≠ "text") :
    ∀ block ∈ textBlocks text, hasType type block = false := by
  intro block hb
  rw [textBlocks] at hb
  split_ifs at hb
  · cases hb
  · obtain rfl := List.mem_singleton.1 hb
    simpa [hasType, field, Json.item] using h.symm

theorem turnMessage_eq (role text : String) (calls : List Json) :
    turnMessage role text calls = .obj ([("role", .str role),
      ("content", if text = "" then .null else .str text)] ++
        if calls = [] then [] else [("tool_calls", .arr calls)]) := by
  rw [turnMessage]
  split_ifs
  · rfl
  · rfl
  · rfl
  · rfl

theorem turn_content {role text : String} {calls : List Json} {content : Json} (hne : calls ≠ [])
    (h : Providers.Anthropic.anthropicContent rt
      (turnMessage role text (calls.map (translatedCall rt))) = .ok content) :
    ∃ blocks, content = .arr (textBlocks text ++ blocks) ∧
      (calls.map (translatedCall rt)).mapM (Providers.Anthropic.toolUseBlock rt) = .ok blocks := by
  have hmap : calls.map (translatedCall rt) ≠ [] := by simpa using hne
  obtain ⟨call, rest, hcons⟩ := List.exists_cons_of_ne_nil hmap
  rw [turnMessage_eq, if_neg hmap, hcons] at h
  rw [hcons, textBlocks]
  split_ifs at h ⊢ with ht
  · obtain ⟨blocks, hblocks, h⟩ := Python.Py.bind_eq_ok.1 (show
      ((call :: rest).mapM (Providers.Anthropic.toolUseBlock rt) >>= fun blocks =>
        .ok (.arr ([] ++ blocks))) = .ok content from h)
    exact ⟨blocks, (Except.ok.inj h).symm, hblocks⟩
  · obtain ⟨blocks, hblocks, h⟩ := Python.Py.bind_eq_ok.1 (show
      ((call :: rest).mapM (Providers.Anthropic.toolUseBlock rt) >>= fun blocks =>
        .ok (.arr ([.obj [("type", .str "text"), ("text", .str text)]] ++ blocks))) =
          .ok content from h)
    exact ⟨blocks, (Except.ok.inj h).symm, hblocks⟩

theorem turn_empty {role text : String} {content : Json}
    (h : Providers.Anthropic.anthropicContent rt (turnMessage role text []) = .ok content) :
    contentBlocks content = [] := by
  rw [turnMessage_eq, if_pos rfl] at h
  split_ifs at h
  · obtain rfl := Except.ok.inj h
    rfl
  · obtain rfl := Except.ok.inj h
    rfl

theorem turn_sent {role text : String} (hrole : role = "assistant" ∨ role = "user")
    {calls : List Json} {sent : Json}
    (h : Providers.Anthropic.turnOf rt (turnMessage role text calls) = .ok (.content sent)) :
    Providers.Anthropic.anthropicContent rt (turnMessage role text calls) =
      .ok (sent.val "content") := by
  have hturn : Providers.Anthropic.turnOf rt (turnMessage role text calls) =
      (Providers.Anthropic.anthropicContent rt (turnMessage role text calls) >>= fun content =>
        .ok (.content (.obj [("role", .str role), ("content", content)]))) := by
    obtain rfl | rfl := hrole
    · rfl
    · rfl
  rw [hturn] at h
  obtain ⟨content, hcontent, h⟩ := Python.Py.bind_eq_ok.1 h
  obtain rfl := Turn.content.inj (Except.ok.inj h)
  exact hcontent

theorem callIds_turn (role text : String) (calls : List Json) :
    callIds [turnMessage role text (calls.map (translatedCall rt))] = calls.map (callId rt) := by
  rw [callIds, List.flatMap_singleton, messageCalls_turn, List.map_map]
  rfl

theorem turn_sameIds {role : String} (hrole : role = "assistant" ∨ role = "user") (text : String)
    (calls : List Json) :
    SameIds rt [turnMessage role text (calls.map (translatedCall rt))] := by
  intro message hm sent h
  obtain rfl := List.mem_singleton.1 hm
  have hcontent := turn_sent hrole h
  have hresults : resultIds [turnMessage role text (calls.map (translatedCall rt))] = [] := by
    rw [resultIds, List.filter_singleton, result_turn hrole]
    rfl
  rw [hresults, callIds_turn, blockFields, blockFields]
  by_cases hne : calls = []
  · subst hne
    rw [turn_empty hcontent]
    exact ⟨rfl, rfl⟩
  · obtain ⟨blocks, hblocks, hmapM⟩ := turn_content hne hcontent
    have htype := MessageTexts.toolUse_type hmapM
    have hparts : contentBlocks (sent.val "content") = textBlocks text ++ blocks := by
      rw [hblocks]
      rfl
    rw [hparts]
    constructor
    · rw [ids_append _ _ (textBlocks_plain text "tool_use" (by decide)), filter_all htype,
        toolUse_ids hmapM]
    · rw [ids_append _ _ (textBlocks_plain text "tool_result" (by decide)),
        MessageTexts.filter_toolUse (by decide) htype]
      rfl

theorem result_sameIds (rt : Runtime) (response : Json) :
    SameIds rt [translatedResponse rt response] := by
  intro message hm content h
  obtain rfl := List.mem_singleton.1 hm
  have hturn : Providers.Anthropic.turnOf rt (translatedResponse rt response) = .ok (.content
      (.obj [("role", .str "user"), ("content", .arr [.obj [("type", .str "tool_result"),
        ("tool_use_id", (callId rt response).orElse (.str "")),
        ("content", .str (rt.dumps ((response.val "response").orElse (.obj []))))]])])) := rfl
  rw [hturn, callId_orElse] at h
  obtain rfl := Turn.content.inj (Except.ok.inj h)
  exact ⟨rfl, rfl⟩

/-! ## Back to Gemini -/

/-- The name a tool message gives to its function response. -/
def answerName (message : Json) : Json :=
  (message.val "name").orElse ((message.val "tool_call_id").orElse (.str "tool"))

theorem result_sent {message content : Json} (hr : isResult message = true)
    (h : Providers.Gemini.turnOf rt message = .ok (.content content)) :
    responseNames content = [answerName message] := by
  have hrole : message.val "role" = .str "tool" := of_decide_eq_true hr
  simp only [Providers.Gemini.turnOf, Python.Py.bind_eq_ok] at h
  obtain ⟨role, hget, text, htext, raw, hraw, h⟩ := h
  obtain rfl := (Json.get_eq_ok hget).trans hrole
  rw [if_neg (by decide), if_pos rfl] at h
  obtain ⟨name, hname, h⟩ := Python.Py.bind_eq_ok.1 h
  obtain ⟨id, hid, h⟩ := Python.Py.bind_eq_ok.1 h
  obtain rfl := Turn.content.inj (Except.ok.inj h)
  rw [answerName, ← Json.get_eq_ok hname, ← Json.get_eq_ok hid]
  rfl

/-- The names agree where each tool message carries the name of its call, as its name or as its
id. -/
theorem namesItsCall_iff (rt : Runtime) (messages : List Json) :
    NamesItsCall rt messages ↔ ∀ message ∈ messages, isResult message = true →
      ∀ call ∈ messages.flatMap messageCalls, call.val "id" = message.val "tool_call_id" →
        (∃ content, Providers.Gemini.turnOf rt message = .ok (.content content)) →
          answerName message = calledName call := by
  constructor
  · intro h message hm hr call hc hid ⟨content, hcontent⟩
    have hnames := h message hm hr call hc hid content hcontent
    rw [result_sent hr hcontent] at hnames
    exact List.singleton_inj.1 hnames
  · intro h message hm hr call hc hid content hcontent
    rw [result_sent hr hcontent, h message hm hr call hc hid ⟨content, hcontent⟩]

theorem callId_ne_name (rt : Runtime) (call : Json) :
    callId rt call ≠ (call.val "name").orElse (.str "") := by
  rw [callId_eq, shownName]
  intro h
  rw [Json.orElse, Json.orElse] at h
  split_ifs at h with ht
  · rw [← h] at ht
    cases hname : call.val "name" with
    | str s =>
      rw [hname] at h
      have hlength := congrArg String.length (Json.str.inj h)
      rw [String.length_append] at hlength
      have hs : rt.str (.str s) = s := rfl
      rw [hs] at hlength
      have hfive : "call_".length = 5 := by decide
      omega
    | _ =>
      rw [hname] at h
      cases h
  · have hlength := congrArg String.length (Json.str.inj h)
    rw [String.length_append] at hlength
    have hfive : "call_".length = 5 := by decide
    have hzero : "".length = 0 := rfl
    omega

theorem answerName_translated (rt : Runtime) (response : Json) :
    answerName (translatedResponse rt response) = callId rt response :=
  callId_orElse rt response (.str "tool")

theorem Translation.result_mem {contents messages : List Json} (h : Translation rt contents messages)
    {response : Json} (hr : response ∈ historyResponses contents) :
    ∃ response', translatedResponse rt response' ∈ messages ∧
      callId rt response' = callId rt response := by
  have hmem : callId rt response ∈ resultIds messages := by
    rw [h.results]
    exact List.mem_map_of_mem hr
  obtain ⟨message, hm, hid⟩ := List.mem_map.1 hmem
  obtain ⟨hm, hresult⟩ := List.mem_filter.1 hm
  cases h.origin message hm with
  | turn text calls hrole hcalls =>
    rw [result_turn hrole] at hresult
    cases hresult
  | result hr' => exact ⟨_, hm, hid⟩

theorem Translation.names_iff {contents messages : List Json}
    (h : Translation rt contents messages) : NamesItsCall rt messages ↔
      ∀ response ∈ historyResponses contents, ∀ call ∈ historyCalls contents,
        shownName rt response ≠ shownName rt call := by
  rw [namesItsCall_iff]
  constructor
  · intro hnames response hr call hc hshown
    obtain ⟨response', hm, hid⟩ := h.result_mem hr
    have hcall : translatedCall rt call ∈ messages.flatMap messageCalls := by
      rw [h.calls]
      exact List.mem_map_of_mem hc
    have hsame : callId rt call = callId rt response' := by
      rw [hid, callId_inj, hshown]
    have hname := hnames _ hm rfl _ hcall hsame ⟨_, rfl⟩
    rw [answerName_translated, ← hsame] at hname
    exact callId_ne_name rt call hname
  · intro hshown message hm hresult call hc hid _
    rw [h.calls] at hc
    obtain ⟨original, horiginal, rfl⟩ := List.mem_map.1 hc
    cases h.origin message hm with
    | turn text calls hrole hcalls =>
      rw [result_turn hrole] at hresult
      cases hresult
    | result hr => exact absurd (callId_inj.1 hid).symm (hshown _ hr original horiginal)

theorem Translation.sameIds {contents messages : List Json}
    (h : Translation rt contents messages) : SameIds rt messages := by
  intro message hm
  cases h.origin message hm with
  | turn text calls hrole hcalls =>
    exact turn_sameIds hrole text calls _ (List.mem_singleton_self _)
  | result hr => exact result_sameIds rt _ _ (List.mem_singleton_self _)

theorem Translation.callIds_eq {contents messages : List Json}
    (h : Translation rt contents messages) :
    callIds messages = (historyCalls contents).map (callId rt) := by
  rw [callIds, h.calls, List.map_map]
  rfl

/-- A Gemini history keeps the identity of its calls exactly when they have distinct names and
none of them is answered. -/
theorem history_identity_iff {contents messages : List Json}
    (ht : ∀ content ∈ contents, IsTurn content)
    (h : flatMapDicts (geminiContentToOpenai rt) contents = .ok messages) :
    KeepsIdentity rt contents messages ↔
      ((historyCalls contents).map (shownName rt)).Nodup ∧
        ∀ response ∈ historyResponses contents, ∀ call ∈ historyCalls contents,
          shownName rt response ≠ shownName rt call := by
  have htranslation := history_translation ht h
  rw [← ids_nodup_iff, ← htranslation.callIds_eq, ← htranslation.names_iff]
  constructor
  · exact fun hkeeps => ⟨hkeeps.distinct, hkeeps.gemini⟩
  · rintro ⟨hdistinct, hnames⟩
    refine ⟨hdistinct, fun i j response call hi hj hname => ?_, hnames, htranslation.sameIds⟩
    rw [htranslation.results, htranslation.callIds_eq, List.getElem?_map, List.getElem?_map, hi, hj]
    have hshown : shownName rt response = shownName rt call := by rw [shownName, hname, shownName]
    simp [callId_inj, hshown]

/-! ## Answers -/

def answerCall : Json → Option Json
  | .obj part => if (field "text" part).truthy then none
    else if (field "functionCall" part).truthy then some (field "functionCall" part) else none
  | _ => none

def candidateCalls (candidate : Json) : List Json :=
  if candidate.isDict then
    match Providers.Gemini.candidateParts candidate with
    | .ok parts => parts.filterMap answerCall
    | .error _ => []
  else []

/-- The function calls of a Gemini answer, over all its candidates. -/
def answerCalls (raw : Json) : List Json :=
  match ((raw.val "candidates").orElse (.arr [])).iter with
  | .ok candidates => candidates.flatMap candidateCalls
  | .error _ => []

def completionIds (completion : CanonicalCompletion) : List Json :=
  match completion.toolCalls with
  | .arr calls => calls.map fun call => call.val "id"
  | _ => []

theorem geminiToolCall_id {call : Json} {fields : Fields}
    (h : Providers.Gemini.geminiToolCall rt call = .ok fields) :
    (Json.obj fields).val "id" = callId rt call := by
  simp only [Providers.Gemini.geminiToolCall, Python.Py.bind_eq_ok] at h
  obtain ⟨name, hname, args, hargs, h⟩ := h
  obtain rfl := Except.ok.inj h
  rw [callId, ← Json.get_eq_ok hname]
  rfl

def idsOf (calls : List Json) : List Json := calls.map fun call => call.val "id"

def madeIds (rt : Runtime) (calls : List Json) : List Json := calls.map (callId rt)

theorem idsOf_snoc (calls : List Json) (call : Json) :
    idsOf (calls ++ [call]) = idsOf calls ++ [call.val "id"] := List.map_append

theorem fold_ids (rt : Runtime) (f : Json → List Json) (items ids : List Json) :
    items.foldl (fun ids item => ids ++ madeIds rt (f item)) ids =
      ids ++ madeIds rt (items.flatMap f) := by
  rw [List.foldl_append_eq_append, madeIds, List.map_flatMap]
  rfl

theorem parsePart_ids {p p' : Providers.Gemini.Parsed} {part : Json}
    (h : Providers.Gemini.parsePart rt p part = .ok p') :
    idsOf p'.toolCalls = idsOf p.toolCalls ++ madeIds rt (answerCall part).toList := by
  cases part with
  | obj fields =>
    have hpart : Providers.Gemini.parsePart rt p (.obj fields) =
        if (field "text" fields).truthy then
          .ok { p with parts := p.parts ++ [rt.str (field "text" fields)] }
        else if (field "functionCall" fields).truthy then
          Providers.Gemini.geminiToolCall rt (field "functionCall" fields) >>= fun call =>
            .ok { p with toolCalls := p.toolCalls ++ [.obj call] }
        else .ok p := rfl
    rw [hpart] at h
    rw [answerCall]
    split_ifs at h ⊢ with ht hc
    · obtain rfl := Except.ok.inj h
      exact (List.append_nil _).symm
    · obtain ⟨call, hcall, h⟩ := Python.Py.bind_eq_ok.1 h
      obtain rfl := Except.ok.inj h
      rw [idsOf_snoc, geminiToolCall_id hcall]
      rfl
    · obtain rfl := Except.ok.inj h
      exact (List.append_nil _).symm
  | _ =>
    obtain rfl := Except.ok.inj h
    exact (List.append_nil _).symm

theorem candidateCalls_eq {candidate : Json} {ps : List Json} (hd : candidate.isDict = true)
    (h : Providers.Gemini.candidateParts candidate = .ok ps) :
    candidateCalls candidate = ps.flatMap fun part => (answerCall part).toList := by
  rw [candidateCalls, if_pos hd, h]
  exact List.filterMap_eq_flatMap_toList ..

theorem parseCandidate_ids {p p' : Providers.Gemini.Parsed} {candidate : Json}
    (h : Providers.Gemini.parseCandidate rt p candidate = .ok p') :
    idsOf p'.toolCalls = idsOf p.toolCalls ++ madeIds rt (candidateCalls candidate) := by
  rw [Providers.Gemini.parseCandidate] at h
  split_ifs at h with hd
  · simp only [Python.Py.bind_eq_ok] at h
    obtain ⟨reason, -, finish, -, ps, hps, h⟩ := h
    rw [candidateCalls_eq hd hps, ← fold_ids]
    exact Python.Py.foldlM_simulates (R := fun p ids => idsOf p.toolCalls = ids)
      (fun hr hstep => by rw [parsePart_ids hstep, hr]) rfl h
  · obtain rfl := Except.ok.inj h
    rw [candidateCalls, if_neg hd]
    exact (List.append_nil _).symm

theorem answerCalls_eq {raw : Json} {value : Json} {candidates : List Json}
    (hv : raw.get "candidates" = .ok value) (h : (value.orElse (.arr [])).iter = .ok candidates) :
    answerCalls raw = candidates.flatMap candidateCalls := by
  rw [answerCalls, ← Json.get_eq_ok hv, h]

theorem completionIds_ite (calls : List Json) {completion : CanonicalCompletion}
    (h : completion.toolCalls = if calls = [] then .null else .arr calls) :
    completionIds completion = idsOf calls := by
  rw [completionIds, h]
  split_ifs with hnil
  · rw [hnil]
    rfl
  · rfl

theorem parse_ids {raw : Json} {completion : CanonicalCompletion}
    (h : Providers.Gemini.parseCompletion rt raw = .ok completion) :
    completionIds completion = madeIds rt (answerCalls raw) := by
  simp only [Providers.Gemini.parseCompletion, Python.Py.bind_eq_ok] at h
  obtain ⟨value, hv, candidates, hcandidates, p, hp, _, -, _, -, _, -, _, -, h⟩ := h
  obtain rfl := Except.ok.inj h
  have hfold : idsOf p.toolCalls = [] ++ madeIds rt (candidates.flatMap candidateCalls) := by
    rw [← fold_ids]
    exact Python.Py.foldlM_simulates (R := fun p ids => idsOf p.toolCalls = ids)
      (fun hr hstep => by rw [parseCandidate_ids hstep, hr]) rfl hp
  rw [completionIds_ite p.toolCalls rfl, hfold, answerCalls_eq hv hcandidates, List.nil_append]

/-! ### Streamed answers -/

variable {s s' : Providers.Gemini.Translator}

theorem handlePart_ids {part : Json} (h : (Providers.Gemini.handlePart rt s part).result = .ok s') :
    idsOf s'.toolCalls = idsOf s.toolCalls ++ madeIds rt (answerCall part).toList := by
  cases part with
  | obj fields =>
    have hpart : Providers.Gemini.handlePart rt s (.obj fields) =
        if (field "text" fields).truthy then
          .yield (Providers.Gemini.openaiChunk s.model
              [("content", .str (rt.str (field "text" fields)))] .null)
            { s with parts := s.parts ++ [rt.str (field "text" fields)] }
        else if (field "functionCall" fields).truthy then
          (Gen.lift (Providers.Gemini.geminiToolCall rt (field "functionCall" fields))).bind
            fun call => .yield (Providers.Gemini.openaiChunk s.model [("tool_calls",
                .arr [.obj (("index", .int s.toolCalls.length) :: call)])] .null)
              { s with toolCalls := s.toolCalls ++ [.obj call] }
        else .ok s := rfl
    rw [hpart] at h
    rw [answerCall]
    split_ifs at h ⊢ with ht hc
    · obtain rfl := Except.ok.inj h
      exact (List.append_nil _).symm
    · obtain ⟨call, hcall, h⟩ := Gen.bind_result_eq_ok.1 h
      obtain rfl := Except.ok.inj h
      rw [idsOf_snoc, geminiToolCall_id hcall]
      rfl
    · obtain rfl := Except.ok.inj h
      exact (List.append_nil _).symm
  | _ =>
    obtain rfl := Except.ok.inj h
    exact (List.append_nil _).symm

theorem handleFinish_calls {reason : Json}
    (h : (Providers.Gemini.handleFinish s reason).result = .ok s') : s'.toolCalls = s.toolCalls := by
  rw [Providers.Gemini.handleFinish] at h
  split_ifs at h
  · obtain ⟨finish, -, h⟩ := Gen.bind_result_eq_ok.1 h
    obtain rfl := Except.ok.inj h
    rfl
  · obtain rfl := Except.ok.inj h
    rfl

theorem handleCandidate_ids {candidate : Json}
    (h : (Providers.Gemini.handleCandidate rt s candidate).result = .ok s') :
    idsOf s'.toolCalls = idsOf s.toolCalls ++ madeIds rt (candidateCalls candidate) := by
  rw [Providers.Gemini.handleCandidate] at h
  split_ifs at h with hd
  · obtain ⟨ps, hps, h⟩ := Gen.bind_result_eq_ok.1 h
    obtain ⟨s₁, hparts, h⟩ := Gen.bind_result_eq_ok.1 h
    obtain ⟨reason, -, h⟩ := Gen.bind_result_eq_ok.1 h
    rw [handleFinish_calls h, candidateCalls_eq hd hps, ← fold_ids]
    exact Gen.fold_simulates (R := fun (s : Providers.Gemini.Translator) ids =>
      idsOf s.toolCalls = ids) (fun hr hstep => by rw [handlePart_ids hstep, hr]) rfl hparts
  · obtain rfl := Except.ok.inj h
    rw [candidateCalls, if_neg hd]
    exact (List.append_nil _).symm

theorem handlePayload_ids {payload : Json}
    (h : (Providers.Gemini.handlePayload rt s payload).result = .ok s') :
    idsOf s'.toolCalls = idsOf s.toolCalls ++ madeIds rt (answerCalls payload) := by
  obtain ⟨head, hhead, h⟩ := Gen.bind_result_eq_ok.1 h
  have hhead' : Providers.Gemini.payloadHead s payload = .ok head := hhead
  simp only [Providers.Gemini.payloadHead, Python.Py.bind_eq_ok] at hhead'
  obtain ⟨_, -, _, -, _, -, _, -, value, hv, candidates, hcandidates, hhead'⟩ := hhead'
  obtain rfl := Except.ok.inj hhead'
  dsimp only at h
  rw [Providers.Gemini.handleCandidates] at h
  rw [answerCalls_eq hv hcandidates, ← fold_ids]
  refine Gen.fold_simulates (R := fun (s : Providers.Gemini.Translator) ids =>
    idsOf s.toolCalls = ids) (fun hr hstep => by rw [handleCandidate_ids hstep, hr]) ?_ h
  rfl

theorem stream_ids {payloads : List Json}
    (h : (Providers.Gemini.handlePayloads rt .new payloads).result = .ok s) :
    completionIds s.finish = madeIds rt (payloads.flatMap answerCalls) := by
  have hfold : idsOf s.toolCalls = [] ++ madeIds rt (payloads.flatMap answerCalls) := by
    rw [← fold_ids]
    exact Gen.fold_simulates (R := fun (s : Providers.Gemini.Translator) ids =>
      idsOf s.toolCalls = ids) (fun hr hstep => by rw [handlePayload_ids hstep, hr]) rfl h
  rw [completionIds_ite s.toolCalls rfl, hfold, List.nil_append]

/-! ## Answers and histories -/

/-- An answer, whole or streamed, has distinct ids where its calls have distinct names. A Gemini
history keeps the identity of its calls where they have distinct names and none is answered.
In any conversation a result is named after its call where its own name, or else its id, is the
call's name. -/
theorem identity_iff (rt : Runtime) :
    (∀ raw completion, Providers.Gemini.parseCompletion rt raw = .ok completion →
      ((completionIds completion).Nodup ↔ ((answerCalls raw).map (shownName rt)).Nodup)) ∧
    (∀ payloads s, (Providers.Gemini.handlePayloads rt .new payloads).result = .ok s →
      ((completionIds s.finish).Nodup ↔
        ((payloads.flatMap answerCalls).map (shownName rt)).Nodup)) ∧
    (∀ contents messages, (∀ content ∈ contents, IsTurn content) →
      flatMapDicts (geminiContentToOpenai rt) contents = .ok messages →
      (KeepsIdentity rt contents messages ↔
        ((historyCalls contents).map (shownName rt)).Nodup ∧
          ∀ response ∈ historyResponses contents, ∀ call ∈ historyCalls contents,
            shownName rt response ≠ shownName rt call)) ∧
    ∀ messages, NamesItsCall rt messages ↔ ∀ message ∈ messages, isResult message = true →
      ∀ call ∈ messages.flatMap messageCalls, call.val "id" = message.val "tool_call_id" →
        (∃ content, Providers.Gemini.turnOf rt message = .ok (.content content)) →
          answerName message = calledName call := by
  refine ⟨fun raw completion h => ?_, fun payloads s h => ?_,
    fun contents messages => history_identity_iff, namesItsCall_iff rt⟩
  · rw [parse_ids h, madeIds, ids_nodup_iff]
  · rw [stream_ids h, madeIds, ids_nodup_iff]

section LookupHistory

def callPart (name : String) : Json :=
  .obj [("functionCall", .obj [("name", .str name), ("args", .obj [])])]

def responsePart (name : String) : Json :=
  .obj [("functionResponse", .obj [("name", .str name), ("response", .obj [])])]

def modelTurn (names : List String) : Json :=
  .obj [("role", .str "model"), ("parts", .arr (names.map callPart))]

def userTurn (names : List String) : Json :=
  .obj [("role", .str "user"), ("parts", .arr (names.map responsePart))]

theorem lookups_kept : ∃ messages,
    flatMapDicts (geminiContentToOpenai Runtime.blank) [modelTurn ["f", "g"]] = .ok messages ∧
      KeepsIdentity Runtime.blank [modelTurn ["f", "g"]] messages := by
  refine ⟨_, rfl, ((identity_iff Runtime.blank).2.2.1 _ _ (fun content hc => ?_) rfl).2 ⟨?_, nofun⟩⟩
  · obtain rfl := List.mem_singleton.1 hc
    exact .inr rfl
  · decide

/-- Two calls of one name share their id, and the response to a call loses its name. -/
theorem lookups_confused :
    (∃ messages, flatMapDicts (geminiContentToOpenai Runtime.blank) [modelTurn ["f", "f"]] =
      .ok messages ∧ ¬ (callIds messages).Nodup) ∧
    ∃ messages, flatMapDicts (geminiContentToOpenai Runtime.blank)
      [modelTurn ["f"], userTurn ["f"]] = .ok messages ∧
        ¬ KeepsIdentity Runtime.blank [modelTurn ["f"], userTurn ["f"]] messages := by
  constructor
  · exact ⟨_, rfl, by decide⟩
  · refine ⟨_, rfl, fun hkeeps => ?_⟩
    have hnames := hkeeps.gemini _ (List.mem_cons_of_mem _ List.mem_cons_self) rfl _
      List.mem_cons_self rfl _ rfl
    revert hnames
    decide

end LookupHistory

end Varsten.Proxy.CallIdentity
