import Varsten.Proxy.ClientStreams
import Varsten.Proxy.Providers.Anthropic
import Varsten.Proxy.Providers.Gemini
import Varsten.Python.Returns

/-!
# Whole completions for native clients

A canonical completion rendered as an Anthropic message and as a Gemini response. Both
parse back to the same text and tool calls; the usage comes back from Gemini, and from
Anthropic where no input was cached.
-/

namespace Varsten.Proxy.ClientCompletions

open Python (Json Py PyError Runtime)
open Python.Json (str_orElse_empty obj_orElse_empty truthy_str get_of_dict val_orElse_empty)
open Providers (CanonicalUsage CanonicalCompletion)
open ClientRenderers
open ClientStreams (metered meteredCall)
open SseRoundTrip (int_orZero)

variable {rt : Runtime}

/-! ## Rendering -/

def anthropicToolUse (rt : Runtime) (call : Json) : Py Json := do
  let function := (← call.get "function").orElse (.obj [])
  let id ← call.get "id"
  let name ← function.get "name"
  let arguments ← function.get "arguments"
  return .obj ([("type", .str "tool_use")] ++ (if id.truthy then [("id", id)] else []) ++
    [("name", name.orElse (.str "")), ("input", .obj (jsonObject rt arguments))])

def completionToAnthropic (rt : Runtime) (completion : CanonicalCompletion) : Py Json := do
  let text := if completion.content.truthy then
    [.obj [("type", .str "text"), ("text", completion.content)]] else []
  let calls ← (← (completion.toolCalls.orElse (.arr [])).iter).mapM (anthropicToolUse rt)
  let stop ← Anthropic.stopReason completion.finishReason completion.toolCalls
  return .obj [("type", .str "message"), ("role", .str "assistant"), ("model", completion.model),
    ("content", .arr (if text ++ calls = [] then
      [.obj [("type", .str "text"), ("text", .str "")]] else text ++ calls)),
    ("stop_reason", .str stop), ("stop_sequence", .null), ("usage", anthropicUsage completion.usage)]

def geminiFunctionCall (rt : Runtime) (call : Json) : Py Json := do
  let function := (← call.get "function").orElse (.obj [])
  let name ← function.get "name"
  let arguments ← function.get "arguments"
  return .obj [("functionCall", .obj [("name", name.orElse (.str "")),
    ("args", .obj (jsonObject rt arguments))])]

def completionToGemini (rt : Runtime) (completion : CanonicalCompletion) : Py Json := do
  let text := if completion.content.truthy then [.obj [("text", completion.content)]] else []
  let calls ← (← (completion.toolCalls.orElse (.arr [])).iter).mapM (geminiFunctionCall rt)
  let finish ← Gemini.finishReason completion.finishReason
  return .obj [("candidates", .arr [.obj [("content", .obj [("role", .str "model"),
      ("parts", .arr (if text ++ calls = [] then [.obj [("text", .str "")]] else text ++ calls))]),
      ("finishReason", .str finish), ("index", .int 0)]]),
    ("usageMetadata", geminiUsage completion.usage), ("modelVersion", completion.model)]

/-! ## What is compared -/

/-- A tool call: a dict whose `function`, if there is one, is a dict. -/
def IsCall (call : Json) : Prop :=
  call.isDict = true ∧ ((call.val "function").orElse (.obj [])).isDict = true

/-- The fields of a completion have the types of its dataclass. -/
structure Typed (completion : CanonicalCompletion) : Prop where
  model : ∃ model, completion.model = .str model
  content : ∃ text, completion.content = .str text
  toolCalls : completion.toolCalls = .null ∨
    ∃ calls, completion.toolCalls = .arr calls ∧ ∀ call ∈ calls, IsCall call
  finishReason : ∃ reason, completion.finishReason = .str reason

/-- `json.loads(json.dumps(d))` is `d` for the argument objects of the completion. -/
def ArgumentsReadBack (rt : Runtime) (completion : CanonicalCompletion) : Prop :=
  ∀ call ∈ metered rt completion, rt.dumps (.obj call.2) ≠ "" ∧
    rt.loads (rt.dumps (.obj call.2)).toList = some (.obj call.2)

/-- The same content, tool calls (names and argument objects, in order) and usage. -/
structure SameAs (rt : Runtime) (completion parsed : CanonicalCompletion) : Prop where
  content : parsed.content = completion.content
  calls : metered rt parsed = metered rt completion
  usage : parsed.usage = completion.usage

def SurvivesAnthropic (rt : Runtime) (completion : CanonicalCompletion) : Prop :=
  ∃ raw parsed, completionToAnthropic rt completion = .ok raw ∧
    Providers.Anthropic.parseCompletion rt raw = .ok parsed ∧ SameAs rt completion parsed

def SurvivesGemini (rt : Runtime) (completion : CanonicalCompletion) : Prop :=
  ∃ raw parsed, completionToGemini rt completion = .ok raw ∧
    Providers.Gemini.parseCompletion rt raw = .ok parsed ∧ SameAs rt completion parsed

/-! ## Tool calls -/

def callName (call : Json) : Json := ((call.val "function").val "name").orElse (.str "")

def callArguments (rt : Runtime) (call : Json) : Fields :=
  jsonObject rt ((call.val "function").val "arguments")

def toolUse (rt : Runtime) (call : Json) : Fields :=
  [("type", .str "tool_use")] ++
    (if (call.val "id").truthy then [("id", call.val "id")] else []) ++
      [("name", callName call), ("input", .obj (callArguments rt call))]

def functionCall (rt : Runtime) (call : Json) : Json :=
  .obj [("name", callName call), ("args", .obj (callArguments rt call))]

theorem anthropicToolUse_eq (rt : Runtime) {call : Json} (h : IsCall call) :
    anthropicToolUse rt call = .ok (.obj (toolUse rt call)) := by
  rw [anthropicToolUse, get_of_dict h.1, Py.bind_ok]
  dsimp only
  rw [get_of_dict h.1, Py.bind_ok, get_of_dict h.2, Py.bind_ok, get_of_dict h.2, Py.bind_ok,
    val_orElse_empty, val_orElse_empty]
  rfl

theorem geminiFunctionCall_eq (rt : Runtime) {call : Json} (h : IsCall call) :
    geminiFunctionCall rt call = .ok (.obj [("functionCall", functionCall rt call)]) := by
  rw [geminiFunctionCall, get_of_dict h.1, Py.bind_ok]
  dsimp only
  rw [get_of_dict h.2, Py.bind_ok, get_of_dict h.2, Py.bind_ok, val_orElse_empty,
    val_orElse_empty]
  rfl

theorem mapM_ok {f : Json → Py Json} {g : Json → Json} {calls : List Json}
    (h : ∀ call ∈ calls, f call = .ok (g call)) : calls.mapM f = .ok (calls.map g) := by
  induction calls with
  | nil => rfl
  | cons call calls ih =>
    rw [List.forall_mem_cons] at h
    rw [List.mapM_cons, h.1, ih h.2]
    rfl

theorem orElse_idem (j d : Json) : (j.orElse d).orElse d = j.orElse d := by
  by_cases h : j.truthy = true
  · have hj : j.orElse d = j := if_pos h
    rw [hj, hj]
  · have hd : j.orElse d = d := if_neg h
    rw [hd, Json.orElse, ite_self]

theorem jsonObject_written {fields : Fields} (hd : rt.dumps (.obj fields) ≠ "")
    (hl : rt.loads (rt.dumps (.obj fields)).toList = some (.obj fields)) :
    jsonObject rt (.str (rt.dumps (.obj fields))) = fields := by
  rw [jsonObject, if_neg hd, hl]

/-- What `parse_completion` makes of a rendered tool call. -/
def parsedCall (rt : Runtime) (id : Json) (call : Json) : Json :=
  .obj [("id", id), ("type", .str "function"), ("function", .obj [("name", callName call),
    ("arguments", .str (rt.dumps (.obj (callArguments rt call))))])]

theorem meteredCall_parsed {call : Json} (id : Json)
    (hd : rt.dumps (.obj (callArguments rt call)) ≠ "")
    (hl : rt.loads (rt.dumps (.obj (callArguments rt call))).toList =
      some (.obj (callArguments rt call))) :
    meteredCall rt (parsedCall rt id call) = meteredCall rt call := by
  have hname : meteredCall rt (parsedCall rt id call) = (rt.str ((callName call).orElse (.str "")),
    jsonObject rt (.str (rt.dumps (.obj (callArguments rt call))))) := rfl
  rw [hname, jsonObject_written hd hl, callName, orElse_idem]
  rfl

theorem openaiToolCall_eq (rt : Runtime) (call : Json) : ∃ id,
    .obj (Providers.Anthropic.openaiToolCall rt (toolUse rt call)) = parsedCall rt id call := by
  have hname : ((Json.item "name" (toolUse rt call)).getD .null).orElse (.str "") =
      callName call := by
    rw [toolUse]
    split_ifs
    · exact orElse_idem _ _
    · exact orElse_idem _ _
  have hinput : ((Json.item "input" (toolUse rt call)).getD .null).orElse (.obj []) =
      .obj (callArguments rt call) := by
    rw [toolUse]
    split_ifs
    · exact obj_orElse_empty _
    · exact obj_orElse_empty _
  refine ⟨((Json.item "id" (toolUse rt call)).getD .null).orElse (.str ""), ?_⟩
  simp only [Providers.Anthropic.openaiToolCall, hname, hinput]
  rfl

theorem geminiToolCall_eq (rt : Runtime) (call : Json) : ∃ id fields,
    Providers.Gemini.geminiToolCall rt (functionCall rt call) = .ok fields ∧
      .obj fields = parsedCall rt id call := by
  refine ⟨.str ("call_" ++ rt.str ((callName call).orElse (.str "gemini"))), _, rfl, ?_⟩
  have hname : (((Json.item "name" [("name", callName call),
      ("args", .obj (callArguments rt call))]).getD .null).orElse (.str "")) = callName call :=
    orElse_idem _ _
  have hargs : (((Json.item "args" [("name", callName call),
      ("args", .obj (callArguments rt call))]).getD .null).orElse (.obj [])) =
        .obj (callArguments rt call) := obj_orElse_empty _
  rw [hname, hargs]
  rfl

/-! ## Usage -/

theorem usage_anthropic (u : CanonicalUsage) :
    Providers.Anthropic.usageFromAnthropic (anthropicUsage u) .zero =
      .ok ⟨u.inputTokens + u.providerCachedInputTokens, u.outputTokens,
        u.providerCachedInputTokens⟩ := by
  have htruthy : ¬ (!(anthropicUsage u).truthy) = true := by simp [anthropicUsage, Json.truthy]
  rw [Providers.Anthropic.usageFromAnthropic, if_neg htruthy]
  simp [anthropicUsage, Json.get, Json.member, Json.item, CanonicalUsage.zero, int_orZero,
    Py.bind_ok]

theorem usage_gemini (u : CanonicalUsage) :
    Providers.Gemini.usageFromMetadata (geminiUsage u) .zero = .ok u := by
  obtain ⟨input, output, cached⟩ := u
  have htruthy : ¬ (!(geminiUsage ⟨input, output, cached⟩).truthy) = true := by
    simp [geminiUsage, Json.truthy]
  rw [Providers.Gemini.usageFromMetadata, if_neg htruthy]
  have hnull : (Json.null.orElse (.int 0)).toInt = .ok 0 := rfl
  by_cases hc : cached = 0
  · simp [geminiUsage, hc, Json.get, Json.item, CanonicalUsage.zero, int_orZero, hnull, Py.bind_ok]
  · simp [geminiUsage, hc, Json.get, Json.item, CanonicalUsage.zero, int_orZero, Py.bind_ok]

/-! ## Both ways -/

theorem stopReason_ok (reason : String) (toolCalls : Json) :
    ∃ stop, Anthropic.stopReason (.str reason) toolCalls = .ok stop := by
  rw [Anthropic.stopReason]
  split_ifs
  · exact ⟨_, rfl⟩
  · by_cases h : reason = ""
    · subst h
      exact ⟨_, rfl⟩
    · have hreason : (Json.str reason).orElse (.str "stop") = .str reason :=
        if_pos ((truthy_str reason).2 h)
      exact ⟨_, by rw [hreason]; rfl⟩

theorem finishReason_ok (reason : String) :
    ∃ finish, Gemini.finishReason (.str reason) = .ok finish := by
  rw [Gemini.finishReason, Json.orElse]
  split_ifs
  · exact ⟨_, rfl⟩
  · exact ⟨_, rfl⟩

def callsOf (completion : CanonicalCompletion) : List Json :=
  match completion.toolCalls with
  | .arr calls => calls
  | _ => []

theorem Typed.calls {completion : CanonicalCompletion} (h : Typed completion) (rt : Runtime) :
    (completion.toolCalls.orElse (.arr [])).iter = .ok (callsOf completion) ∧
      (∀ call ∈ callsOf completion, IsCall call) ∧
      metered rt completion = (callsOf completion).map (meteredCall rt) := by
  rw [callsOf, metered]
  rcases h.toolCalls with hnull | ⟨calls, harr, hcalls⟩
  · rw [hnull]
    exact ⟨rfl, by simp, rfl⟩
  · rw [harr]
    refine ⟨?_, hcalls, rfl⟩
    cases calls with
    | nil => rfl
    | cons call calls => rfl

theorem metered_ite (calls : List Json) {completion : CanonicalCompletion}
    (h : completion.toolCalls = if calls = [] then .null else .arr calls) :
    metered rt completion = calls.map (meteredCall rt) := by
  rw [metered, h]
  split_ifs with hnil
  · rw [hnil]
    rfl
  · rfl

theorem parsed_calls {calls parsed : List Json}
    (h : List.Forall₂ (fun call out => ∃ id, out = parsedCall rt id call) calls parsed)
    (hr : ∀ call ∈ calls, rt.dumps (.obj (callArguments rt call)) ≠ "" ∧
      rt.loads (rt.dumps (.obj (callArguments rt call))).toList =
        some (.obj (callArguments rt call))) :
    parsed.map (meteredCall rt) = calls.map (meteredCall rt) := by
  induction h with
  | nil => rfl
  | cons hfirst _ ih =>
    rw [List.forall_mem_cons] at hr
    obtain ⟨id, rfl⟩ := hfirst
    rw [List.map_cons, List.map_cons, meteredCall_parsed id hr.1.1 hr.1.2, ih hr.2]

theorem fold_toolUses (rt : Runtime) (calls : List Json) (p : List String × List Json) :
    ∃ parsed, List.Forall₂ (fun call out => ∃ id, out = parsedCall rt id call) calls parsed ∧
      (calls.map fun call => Json.obj (toolUse rt call)).foldl
        (Providers.Anthropic.parseBlock rt) p = (p.1, p.2 ++ parsed) := by
  induction calls generalizing p with
  | nil => exact ⟨[], .nil, by simp⟩
  | cons call calls ih =>
    obtain ⟨id, hid⟩ := openaiToolCall_eq rt call
    have htype : (Json.item "type" (toolUse rt call)).getD .null = .str "tool_use" := rfl
    have hblock : Providers.Anthropic.parseBlock rt p (.obj (toolUse rt call)) =
        (p.1, p.2 ++ [parsedCall rt id call]) := by
      rw [← hid, Providers.Anthropic.parseBlock, htype, if_neg (by decide), if_pos rfl]
    obtain ⟨parsed, hparsed, hfold⟩ := ih (p.1, p.2 ++ [parsedCall rt id call])
    refine ⟨parsedCall rt id call :: parsed, .cons ⟨id, rfl⟩ hparsed, ?_⟩
    rw [List.map_cons, List.foldl_cons, hblock, hfold]
    simp

theorem textBlock_parsed (text : String) (p : List String × List Json) :
    Providers.Anthropic.parseBlock rt p (.obj [("type", .str "text"), ("text", .str text)]) =
      (p.1 ++ [text], p.2) := by
  have hblock : Providers.Anthropic.parseBlock rt p
      (.obj [("type", .str "text"), ("text", .str text)]) =
        (p.1 ++ [rt.str ((Json.str text).orElse (.str ""))], p.2) := rfl
  rw [hblock, str_orElse_empty]
  rfl

theorem anthropic_blocks (rt : Runtime) (text : String) (calls : List Json) :
    ∃ parsed, List.Forall₂ (fun call out => ∃ id, out = parsedCall rt id call) calls parsed ∧
      ∃ parts, String.join parts = text ∧
        (if (if (Json.str text).truthy then
              [Json.obj [("type", .str "text"), ("text", .str text)]] else []) ++
            calls.map (fun call => Json.obj (toolUse rt call)) = [] then
            [Json.obj [("type", .str "text"), ("text", .str "")]]
          else (if (Json.str text).truthy then
              [Json.obj [("type", .str "text"), ("text", .str text)]] else []) ++
            calls.map fun call => Json.obj (toolUse rt call)).foldl
          (Providers.Anthropic.parseBlock rt) ([], []) = (parts, parsed) := by
  by_cases ht : (Json.str text).truthy = true
  · obtain ⟨parsed, hparsed, hfold⟩ := fold_toolUses rt calls ([text], [])
    refine ⟨parsed, hparsed, [text], by simp, ?_⟩
    rw [if_pos ht, if_neg (by simp), List.foldl_append, List.foldl_cons, List.foldl_nil,
      textBlock_parsed, List.nil_append, hfold, List.nil_append]
  · have hempty : text = "" := by simpa [Json.truthy] using ht
    subst hempty
    rw [if_neg ht, List.nil_append]
    cases calls with
    | nil => exact ⟨[], .nil, [""], by simp, by rw [List.map_nil, if_pos rfl]; rfl⟩
    | cons call calls =>
      obtain ⟨parsed, hparsed, hfold⟩ := fold_toolUses rt (call :: calls) ([], [])
      exact ⟨parsed, hparsed, [], rfl, by rw [if_neg (by simp), hfold, List.nil_append]⟩

theorem fold_functionCalls (rt : Runtime) (calls : List Json) (p : Providers.Gemini.Parsed) :
    ∃ parsed, List.Forall₂ (fun call out => ∃ id, out = parsedCall rt id call) calls parsed ∧
      (calls.map fun call => Json.obj [("functionCall", functionCall rt call)]).foldlM
        (Providers.Gemini.parsePart rt) p = .ok ⟨p.parts, p.toolCalls ++ parsed, p.finish⟩ := by
  induction calls generalizing p with
  | nil => exact ⟨[], .nil, by simp; rfl⟩
  | cons call calls ih =>
    obtain ⟨id, fields, hfields, hid⟩ := geminiToolCall_eq rt call
    have hpart : Providers.Gemini.parsePart rt p (.obj [("functionCall", functionCall rt call)]) =
        .ok { p with toolCalls := p.toolCalls ++ [parsedCall rt id call] } := by
      have hstep : Providers.Gemini.parsePart rt p (.obj [("functionCall", functionCall rt call)]) =
          (Providers.Gemini.geminiToolCall rt (functionCall rt call) >>= fun fields =>
            pure { p with toolCalls := p.toolCalls ++ [.obj fields] }) := rfl
      rw [hstep, hfields, Py.bind_ok, hid]
      rfl
    obtain ⟨parsed, hparsed, hfold⟩ := ih { p with
      toolCalls := p.toolCalls ++ [parsedCall rt id call] }
    refine ⟨parsedCall rt id call :: parsed, .cons ⟨id, rfl⟩ hparsed, ?_⟩
    rw [List.map_cons, List.foldlM_cons, hpart, Py.bind_ok, hfold]
    simp

theorem textPart_parsed {text : String} (ht : text ≠ "") (p : Providers.Gemini.Parsed) :
    Providers.Gemini.parsePart rt p (.obj [("text", .str text)]) =
      .ok { p with parts := p.parts ++ [text] } := by
  have hpart : Providers.Gemini.parsePart rt p (.obj [("text", .str text)]) =
      if (Json.str text).truthy then .ok { p with parts := p.parts ++ [rt.str (.str text)] }
      else .ok p := rfl
  rw [hpart, if_pos ((truthy_str text).2 ht)]
  rfl

theorem gemini_parts (rt : Runtime) (text finish : String) (calls : List Json) :
    ∃ parsed, List.Forall₂ (fun call out => ∃ id, out = parsedCall rt id call) calls parsed ∧
      ∃ parts, String.join parts = text ∧
        (if (if (Json.str text).truthy then [Json.obj [("text", .str text)]] else []) ++
            calls.map (fun call => Json.obj [("functionCall", functionCall rt call)]) = [] then
            [Json.obj [("text", .str "")]]
          else (if (Json.str text).truthy then [Json.obj [("text", .str text)]] else []) ++
            calls.map fun call => Json.obj [("functionCall", functionCall rt call)]).foldlM
          (Providers.Gemini.parsePart rt) ⟨[], [], finish⟩ = .ok ⟨parts, parsed, finish⟩ := by
  by_cases ht : (Json.str text).truthy = true
  · obtain ⟨parsed, hparsed, hfold⟩ := fold_functionCalls rt calls ⟨[text], [], finish⟩
    refine ⟨parsed, hparsed, [text], by simp, ?_⟩
    rw [if_pos ht, if_neg (by simp), List.singleton_append, List.foldlM_cons,
      textPart_parsed ((truthy_str text).1 ht), Py.bind_ok, List.nil_append, hfold]
    rfl
  · have hempty : text = "" := by simpa [Json.truthy] using ht
    subst hempty
    rw [if_neg ht, List.nil_append]
    cases calls with
    | nil => exact ⟨[], .nil, [], rfl, by rw [List.map_nil, if_pos rfl]; rfl⟩
    | cons call calls =>
      obtain ⟨parsed, hparsed, hfold⟩ := fold_functionCalls rt (call :: calls) ⟨[], [], finish⟩
      exact ⟨parsed, hparsed, [], rfl, by rw [if_neg (by simp), hfold]; rfl⟩

theorem readBack_calls {completion : CanonicalCompletion} (ht : Typed completion)
    (hr : ArgumentsReadBack rt completion) : ∀ call ∈ callsOf completion,
      rt.dumps (.obj (callArguments rt call)) ≠ "" ∧
        rt.loads (rt.dumps (.obj (callArguments rt call))).toList =
          some (.obj (callArguments rt call)) := by
  intro call hc
  have hmem : meteredCall rt call ∈ metered rt completion := by
    rw [(ht.calls rt).2.2]
    exact List.mem_map_of_mem hc
  exact hr _ hmem

def anthropicBlocks (rt : Runtime) (completion : CanonicalCompletion) : List Json :=
  (if completion.content.truthy then
    [.obj [("type", .str "text"), ("text", completion.content)]] else []) ++
      (callsOf completion).map fun call => .obj (toolUse rt call)

def geminiParts (rt : Runtime) (completion : CanonicalCompletion) : List Json :=
  (if completion.content.truthy then [.obj [("text", completion.content)]] else []) ++
    (callsOf completion).map fun call => .obj [("functionCall", functionCall rt call)]

/-- `blocks or [empty]`, and `parts or [empty]`. -/
def orEmpty (items : List Json) (empty : Json) : List Json :=
  if items = [] then [empty] else items

def anthropicMessage (rt : Runtime) (completion : CanonicalCompletion) (stop : String) : Json :=
  .obj [("type", .str "message"), ("role", .str "assistant"), ("model", completion.model),
    ("content", .arr (orEmpty (anthropicBlocks rt completion)
      (.obj [("type", .str "text"), ("text", .str "")]))),
    ("stop_reason", .str stop), ("stop_sequence", .null), ("usage", anthropicUsage completion.usage)]

def geminiCandidate (rt : Runtime) (completion : CanonicalCompletion) (finish : String) : Json :=
  .obj [("content", .obj [("role", .str "model"),
    ("parts", .arr (orEmpty (geminiParts rt completion) (.obj [("text", .str "")])))]),
    ("finishReason", .str finish), ("index", .int 0)]

def geminiResponse (rt : Runtime) (completion : CanonicalCompletion) (finish : String) : Json :=
  .obj [("candidates", .arr [geminiCandidate rt completion finish]),
    ("usageMetadata", geminiUsage completion.usage), ("modelVersion", completion.model)]

theorem anthropic_rendered (rt : Runtime) {completion : CanonicalCompletion}
    (ht : Typed completion) : ∃ stop,
      completionToAnthropic rt completion = .ok (anthropicMessage rt completion stop) := by
  obtain ⟨reason, hreason⟩ := ht.finishReason
  obtain ⟨stop, hstop⟩ := stopReason_ok reason completion.toolCalls
  obtain ⟨hiter, hcalls, -⟩ := ht.calls rt
  have hmap := mapM_ok (g := fun call => .obj (toolUse rt call)) fun call hc =>
    anthropicToolUse_eq rt (hcalls call hc)
  refine ⟨stop, ?_⟩
  simp only [completionToAnthropic, hiter, hmap, hreason, hstop, Py.bind_ok]
  rfl

theorem gemini_rendered (rt : Runtime) {completion : CanonicalCompletion}
    (ht : Typed completion) : ∃ finish,
      completionToGemini rt completion = .ok (geminiResponse rt completion finish) := by
  obtain ⟨reason, hreason⟩ := ht.finishReason
  obtain ⟨finish, hfinish⟩ := finishReason_ok reason
  obtain ⟨hiter, hcalls, -⟩ := ht.calls rt
  have hmap := mapM_ok (g := fun call => .obj [("functionCall", functionCall rt call)])
    fun call hc => geminiFunctionCall_eq rt (hcalls call hc)
  refine ⟨finish, ?_⟩
  simp only [completionToGemini, hiter, hmap, hreason, hfinish, Py.bind_ok]
  rfl

theorem openaiFinishReason_ok (stop : String) :
    ∃ finish, Providers.Anthropic.openaiFinishReason (.str stop) = .ok finish := by
  rw [Providers.Anthropic.openaiFinishReason, str_orElse_empty]
  split
  · simp_all
  · simp_all
  all_goals exact ⟨_, rfl⟩

theorem modelName_ok (model : String) :
    ∃ name, Providers.Gemini.modelName (.str model) = .ok name := by
  rw [Providers.Gemini.modelName, str_orElse_empty]
  exact ⟨_, rfl⟩

theorem geminiFinish_ok (finish : String) :
    ∃ reason, Providers.Gemini.finishReason (.str finish) = .ok reason := by
  rw [Providers.Gemini.finishReason, str_orElse_empty]
  split
  · simp_all
  · simp_all
  all_goals exact ⟨_, rfl⟩

theorem iter_arr (items : List Json) : ((Json.arr items).orElse (.arr [])).iter = .ok items := by
  cases items with
  | nil => rfl
  | cons item items => rfl

/-- The Anthropic message parses back, with the cached input added to the input. -/
theorem anthropic_parsed {completion : CanonicalCompletion} (ht : Typed completion)
    (hr : ArgumentsReadBack rt completion) :
    ∃ raw parsed, completionToAnthropic rt completion = .ok raw ∧
      Providers.Anthropic.parseCompletion rt raw = .ok parsed ∧
      parsed.content = completion.content ∧ metered rt parsed = metered rt completion ∧
      parsed.usage = ⟨completion.usage.inputTokens + completion.usage.providerCachedInputTokens,
        completion.usage.outputTokens, completion.usage.providerCachedInputTokens⟩ := by
  obtain ⟨text, htext⟩ := ht.content
  obtain ⟨stop, hraw⟩ := anthropic_rendered rt ht
  obtain ⟨finish, hfinish⟩ := openaiFinishReason_ok stop
  obtain ⟨parsed, hparsed, parts, hparts, hfold⟩ := anthropic_blocks rt text (callsOf completion)
  rw [← htext] at hfold
  have hblocks : (orEmpty (anthropicBlocks rt completion)
      (.obj [("type", .str "text"), ("text", .str "")])).foldl
        (Providers.Anthropic.parseBlock rt) ([], []) = (parts, parsed) := hfold
  have hparse : Providers.Anthropic.parseCompletion rt (anthropicMessage rt completion stop) =
      .ok ⟨completion.model.orElse (.str ""), .str (String.join parts),
        if parsed = [] then .null else .arr parsed, finish,
        ⟨completion.usage.inputTokens + completion.usage.providerCachedInputTokens,
          completion.usage.outputTokens, completion.usage.providerCachedInputTokens⟩, none⟩ := by
    simp [Providers.Anthropic.parseCompletion, anthropicMessage, Json.get, Json.item,
      Py.bind_ok, iter_arr, hblocks, hfinish, usage_anthropic]
  refine ⟨_, _, hraw, hparse, ?_, ?_, rfl⟩
  · rw [hparts, htext]
  · rw [metered_ite parsed rfl, parsed_calls hparsed (readBack_calls ht hr), (ht.calls rt).2.2]

theorem gemini_parsed {completion : CanonicalCompletion} (ht : Typed completion)
    (hr : ArgumentsReadBack rt completion) : SurvivesGemini rt completion := by
  obtain ⟨text, htext⟩ := ht.content
  obtain ⟨model, hmodel⟩ := ht.model
  obtain ⟨finish, hraw⟩ := gemini_rendered rt ht
  obtain ⟨reason, hreason⟩ := geminiFinish_ok finish
  obtain ⟨name, hname⟩ := modelName_ok model
  obtain ⟨parsed, hparsed, parts, hparts, hfold⟩ :=
    gemini_parts rt text reason (callsOf completion)
  rw [← htext] at hfold
  have hmade : (orEmpty (geminiParts rt completion) (.obj [("text", .str "")])).foldlM
      (Providers.Gemini.parsePart rt) ⟨[], [], reason⟩ = .ok ⟨parts, parsed, reason⟩ := hfold
  have hcandidate : Providers.Gemini.parseCandidate rt ⟨[], [], "stop"⟩
      (geminiCandidate rt completion finish) = .ok ⟨parts, parsed, reason⟩ := by
    simp [Providers.Gemini.parseCandidate, geminiCandidate, Json.get, Json.item, Json.isDict,
      Py.bind_ok, hreason, Providers.Gemini.candidateParts, obj_orElse_empty, iter_arr, hmade]
  have hparse : Providers.Gemini.parseCompletion rt (geminiResponse rt completion finish) =
      .ok ⟨.str name, .str (String.join parts), if parsed = [] then .null else .arr parsed,
        .str reason, completion.usage, none⟩ := by
    simp [Providers.Gemini.parseCompletion, geminiResponse, Json.get, Json.item,
      Py.bind_ok, iter_arr, hcandidate, hmodel, hname, usage_gemini]
  refine ⟨_, _, hraw, hparse, ?_, ?_, rfl⟩
  · rw [hparts, htext]
  · rw [metered_ite parsed rfl, parsed_calls hparsed (readBack_calls ht hr), (ht.calls rt).2.2]

theorem anthropic_survives_iff {completion : CanonicalCompletion} (ht : Typed completion)
    (hr : ArgumentsReadBack rt completion) :
    SurvivesAnthropic rt completion ↔ completion.usage.providerCachedInputTokens = 0 := by
  obtain ⟨raw, parsed, hraw, hparse, hcontent, hcalls, husage⟩ := anthropic_parsed ht hr
  constructor
  · intro ⟨raw', parsed', hraw', hparse', hsame⟩
    obtain rfl : raw = raw' := Except.ok.inj (hraw.symm.trans hraw')
    obtain rfl : parsed = parsed' := Except.ok.inj (hparse.symm.trans hparse')
    have hinput := congrArg CanonicalUsage.inputTokens (husage.symm.trans hsame.usage)
    exact left_eq_add.1 hinput.symm
  · intro hcached
    refine ⟨raw, parsed, hraw, hparse, hcontent, hcalls, ?_⟩
    rw [husage, hcached, add_zero, ← hcached]

/-- A completion comes back the same from both renderings exactly when no input was cached. -/
theorem survives_iff (rt : Runtime) (completion : CanonicalCompletion) (ht : Typed completion)
    (hr : ArgumentsReadBack rt completion) :
    (SurvivesAnthropic rt completion ∧ SurvivesGemini rt completion) ↔
      completion.usage.providerCachedInputTokens = 0 := by
  rw [anthropic_survives_iff ht hr, and_iff_left (gemini_parsed ht hr)]

/-! ## A tool call with cached input -/

def question : Fields := [("q", .int 1)]

def questionRuntime : Runtime :=
  ⟨fun t => if t = Python.JsonText.dumps SseRoundTrip.noFloats (.obj question)
      then some (.obj question) else none,
    fun payload => String.ofList (Python.JsonText.dumps SseRoundTrip.noFloats payload),
    fun _ => "None", Python.none_ne⟩

def questionCall : Json :=
  .obj [("id", .str "t1"), ("type", .str "function"), ("function", .obj [("name", .str "f"),
    ("arguments", .str (questionRuntime.dumps (.obj question)))])]

def questionCompletion (cached : ℤ) : CanonicalCompletion :=
  ⟨.str "claude", .str "", .arr [questionCall], .str "tool_calls", ⟨100, 5, cached⟩, none⟩

theorem question_typed (cached : ℤ) : Typed (questionCompletion cached) :=
  ⟨⟨_, rfl⟩, ⟨_, rfl⟩, .inr ⟨_, rfl, by simp [IsCall, questionCall, Json.isDict, Json.item]; rfl⟩,
    ⟨_, rfl⟩⟩

theorem question_readBack (cached : ℤ) :
    ArgumentsReadBack questionRuntime (questionCompletion cached) := by
  have hdumps : questionRuntime.dumps (.obj question) ≠ "" := by decide +kernel
  have hloads : questionRuntime.loads (questionRuntime.dumps (.obj question)).toList =
      some (.obj question) := by
    simp only [questionRuntime, String.toList_ofList, if_true]
  intro call hc
  have hcall : call = meteredCall questionRuntime questionCall := List.mem_singleton.1 hc
  have harguments : (meteredCall questionRuntime questionCall).2 = question :=
    jsonObject_written hdumps hloads
  rw [hcall, harguments]
  exact ⟨hdumps, hloads⟩

theorem question_survives :
    SurvivesAnthropic questionRuntime (questionCompletion 0) ∧
      SurvivesGemini questionRuntime (questionCompletion 0) :=
  (survives_iff questionRuntime (questionCompletion 0) (question_typed 0)
    (question_readBack 0)).2 rfl

/-- 100 input tokens, 10 of them cached, come back as 110. -/
theorem cached_input_added :
    Typed (questionCompletion 10) ∧ ArgumentsReadBack questionRuntime (questionCompletion 10) ∧
      (questionCompletion 10).usage.providerCachedInputTokens ≤
        (questionCompletion 10).usage.inputTokens ∧
      ¬ SurvivesAnthropic questionRuntime (questionCompletion 10) :=
  ⟨question_typed 10, question_readBack 10, by decide, fun h => absurd
    ((anthropic_survives_iff (question_typed 10) (question_readBack 10)).1 h) (by decide)⟩

end Varsten.Proxy.ClientCompletions
