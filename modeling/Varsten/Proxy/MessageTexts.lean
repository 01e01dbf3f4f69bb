import Varsten.Proxy.ClientRequests

/-!
# The texts of a conversation

Each wire format read as a system prompt and a list of texts with their side. A request
keeps its texts on another provider's wire exactly when it has no developer or function
message with text, and no text beside a tool result.
-/

namespace Varsten.Proxy.MessageTexts

open Python (Json Py PyError Runtime)
open Python.Json (str_orElse_empty)
open Engine.RequestFacts (field)
open Providers (Turn optionalItem)
open ClientRequests

variable {rt : Runtime}

inductive Side where
  | user
  | assistant
  | toolResult
deriving DecidableEq

/-- The system prompt, and the texts of the turns in order; texts of one turn are joined. -/
structure Outline where
  system : String
  turns : List (Side × String)
deriving DecidableEq

def said (side : Side) (text : String) : List (Side × String) :=
  if text = "" then [] else [(side, text)]

def systemPrompt (texts : List String) : String :=
  "\n\n".intercalate (texts.filter fun text => text ≠ "")

def dicts (entries : Json) : List Json := (contentBlocks entries).filter Json.isDict

/-! ## OpenAI -/

def openaiText (rt : Runtime) : Json → String
  | .str s => s
  | .arr parts => String.join ((parts.filter Json.isDict).map (textOf rt))
  | _ => ""

def openaiSide : Json → Option Side
  | .str "user" => some .user
  | .str "assistant" => some .assistant
  | .str "tool" => some .toolResult
  | .str "function" => some .toolResult
  | _ => none

def isSystemRole (role : Json) : Bool := role = .str "system" ∨ role = .str "developer"

def openaiTurn (rt : Runtime) (message : Json) : List (Side × String) :=
  match openaiSide (message.val "role") with
  | some side => said side (openaiText rt (message.val "content"))
  | none => []

def openaiSystem (rt : Runtime) (message : Json) : String :=
  if isSystemRole (message.val "role") then openaiText rt (message.val "content") else ""

def openaiOutline (rt : Runtime) (body : Json) : Outline where
  system := systemPrompt ((dicts (body.val "messages")).map (openaiSystem rt))
  turns := (dicts (body.val "messages")).flatMap (openaiTurn rt)

/-! ## Anthropic -/

def resultTexts (rt : Runtime) (content : Json) : List String :=
  ((contentBlocks content).filter (hasType "tool_result")).map fun block =>
    anthropicContentText rt (block.val "content")

def anthropicTurn (rt : Runtime) (message : Json) : List (Side × String) :=
  let content := message.val "content"
  if message.val "role" = .str "user" then
    said .user (anthropicContentText rt content) ++
      (resultTexts rt content).flatMap (said .toolResult)
  else if message.val "role" = .str "assistant" then
    said .assistant (anthropicContentText rt content)
  else []

def anthropicOutline (rt : Runtime) (body : Json) : Outline where
  system := anthropicContentText rt (body.val "system")
  turns := (dicts (body.val "messages")).flatMap (anthropicTurn rt)

/-! ## Gemini -/

def partsText (rt : Runtime) (content : Json) : String :=
  String.join ((contentBlocks (content.val "parts")).filterMap (partText rt))

def geminiTurn (rt : Runtime) (result : Json → Option String) (content : Json) :
    List (Side × String) :=
  said (if content.val "role" = .str "model" then .assistant else .user) (partsText rt content) ++
    ((contentBlocks (content.val "parts")).filterMap result).flatMap (said .toolResult)

def geminiOutline (rt : Runtime) (result : Json → Option String) (body : Json) : Outline where
  system := partsText rt (body.val "systemInstruction")
  turns := (dicts (body.val "contents")).flatMap (geminiTurn rt result)

def clientResult (rt : Runtime) (part : Json) : Option String := (partResponse rt part).map Prod.snd

def wireResult (part : Json) : Option String :=
  match ((part.val "functionResponse").val "response").val "content" with
  | .str text => some text
  | _ => none

/-! ## Requests and destinations -/

def requestOutline (rt : Runtime) (parsed : ParsedClientRequest) : Outline :=
  match parsed.dialect with
  | .openai => openaiOutline rt (.obj parsed.body)
  | .anthropic => anthropicOutline rt (.obj parsed.body)
  | .geminiNative => geminiOutline rt (clientResult rt) (.obj parsed.body)

def wireOutline (rt : Runtime) : Provider → Json → Outline
  | .openai => openaiOutline rt
  | .anthropic => anthropicOutline rt
  | .gemini => geminiOutline rt wireResult

/-- No developer or function message with text, unless the wire stays OpenAI's; no text beside
a tool result. -/
def KeepsTexts (rt : Runtime) (parsed : ParsedClientRequest) (candidate : Provider) : Prop :=
  match parsed.dialect with
  | .openai => candidate = .openai ∨ ∀ message ∈ dicts (field "messages" parsed.body),
      message.val "role" = .str "developer" ∨ message.val "role" = .str "function" →
        openaiText rt (message.val "content") = ""
  | .anthropic => ∀ message ∈ dicts (field "messages" parsed.body),
      message.val "role" = .str "user" →
        anthropicContentHasType (message.val "content") "tool_result" →
          anthropicContentText rt (message.val "content") = ""
  | .geminiNative => ∀ content ∈ dicts (field "contents" parsed.body),
      (contentBlocks (content.val "parts")).filterMap (partResponse rt) ≠ [] →
        partsText rt content = ""

/-! ## Lists of texts -/

theorem flatMap_eq_iff_of_sublist {α β : Type} {f g : α → List β} {as : List α}
    (h : ∀ a ∈ as, (f a).Sublist (g a)) :
    as.flatMap f = as.flatMap g ↔ ∀ a ∈ as, f a = g a := by
  induction as with
  | nil => simp
  | cons a as ih =>
    rw [List.forall_mem_cons] at h
    rw [List.flatMap_cons, List.flatMap_cons, List.forall_mem_cons, ← ih h.2]
    refine ⟨fun heq => ?_, fun heq => by rw [heq.1, heq.2]⟩
    have hrest : (as.flatMap f).Sublist (as.flatMap g) := List.Sublist.flatMap_right as h.2
    have hlen := congrArg List.length heq
    have h₁ := h.1.length_le
    have h₂ := hrest.length_le
    rw [List.length_append, List.length_append] at hlen
    exact ⟨h.1.eq_of_length (by omega), hrest.eq_of_length (by omega)⟩

def room (text : String) : ℕ := if text = "" then 0 else text.length + 2

theorem intercalate_length {text : String} {texts : List String} :
    ("\n\n".intercalate (text :: texts)).length =
      text.length + (texts.map fun t => t.length + 2).sum := by
  induction texts generalizing text with
  | nil => simp
  | cons next texts ih =>
    rw [String.intercalate_cons_cons, String.length_append, String.length_append, ih]
    have hbreak : "\n\n".length = 2 := rfl
    rw [hbreak, List.map_cons, List.sum_cons]
    omega

theorem room_sum (texts : List String) :
    (texts.map room).sum =
      ((texts.filter fun text => text ≠ "").map fun t => t.length + 2).sum := by
  induction texts with
  | nil => rfl
  | cons text texts ih =>
    by_cases h : text = ""
    · simp [room, h, ih]
    · simp [room, h, ih]

theorem systemPrompt_length (texts : List String) :
    (systemPrompt texts).length = (texts.map room).sum - 2 ∧ (texts.map room).sum ≠ 1 ∧
      (texts.map room).sum ≠ 2 := by
  rw [room_sum, systemPrompt]
  cases h : texts.filter fun text => text ≠ "" with
  | nil => simp
  | cons text rest =>
    have hne : text ≠ "" := by
      have hmem : text ∈ texts.filter fun text => text ≠ "" := h ▸ List.mem_cons_self
      simpa using (List.mem_filter.1 hmem).2
    have hlen : text.length ≠ 0 := fun h0 => hne (String.length_eq_zero_iff.1 h0)
    rw [intercalate_length, List.map_cons, List.sum_cons]
    omega

theorem sum_eq_iff_of_le {α : Type} {f g : α → ℕ} {as : List α} (h : ∀ a ∈ as, f a ≤ g a) :
    (as.map f).sum = (as.map g).sum ↔ ∀ a ∈ as, f a = g a := by
  induction as with
  | nil => simp
  | cons a as ih =>
    rw [List.forall_mem_cons] at h
    have hle := List.sum_le_sum h.2
    have hiff := ih h.2
    rw [List.map_cons, List.map_cons, List.sum_cons, List.sum_cons, List.forall_mem_cons, ← hiff]
    have ha := h.1
    omega

theorem systemPrompt_eq_iff {f g : Json → String} {messages : List Json}
    (h : ∀ m ∈ messages, f m = g m ∨ f m = "") :
    systemPrompt (messages.map f) = systemPrompt (messages.map g) ↔
      ∀ m ∈ messages, f m = g m := by
  refine ⟨fun heq => ?_, fun heq => by rw [List.map_congr_left heq]⟩
  have hlen := congrArg String.length heq
  obtain ⟨hf, hf₁, hf₂⟩ := systemPrompt_length (messages.map f)
  obtain ⟨hg, hg₁, hg₂⟩ := systemPrompt_length (messages.map g)
  have hle : ∀ m ∈ messages, (room ∘ f) m ≤ (room ∘ g) m := by
    intro m hm
    rcases h m hm with heq | hempty
    · simp [heq]
    · simp [hempty, room]
  rw [List.map_map] at hf hf₁ hf₂
  rw [List.map_map] at hg hg₁ hg₂
  have hsum : (messages.map (room ∘ f)).sum = (messages.map (room ∘ g)).sum := by omega
  intro m hm
  have hroom := (sum_eq_iff_of_le hle).1 hsum m hm
  rcases h m hm with heq | hempty
  · exact heq
  · have hnone : (0 : ℕ) = room (g m) := by simpa [hempty, room] using hroom
    rw [hempty]
    by_contra hne
    rw [room, if_neg (Ne.symm hne)] at hnone
    omega

/-! ## The translating adapters -/

def knownTurn (rt : Runtime) (message : Json) : List (Side × String) :=
  if message.val "role" = .str "function" then [] else openaiTurn rt message

def knownSystem (rt : Runtime) (message : Json) : String :=
  if message.val "role" = .str "developer" then "" else openaiSystem rt message

def knownOutline (rt : Runtime) (body : Json) : Outline where
  system := systemPrompt ((dicts (body.val "messages")).map (knownSystem rt))
  turns := (dicts (body.val "messages")).flatMap (knownTurn rt)

def TypedParts (content : Json) : Prop :=
  ∀ part ∈ dicts content, part.val "type" = .str "text"

def TypedBody (body : Json) : Prop :=
  ∀ message ∈ dicts (body.val "messages"), TypedParts (message.val "content")

theorem outline_eq_iff (rt : Runtime) (body : Json) : knownOutline rt body = openaiOutline rt body ↔
    ∀ message ∈ dicts (body.val "messages"),
      message.val "role" = .str "developer" ∨ message.val "role" = .str "function" →
        openaiText rt (message.val "content") = "" := by
  have hsystem : ∀ m ∈ dicts (body.val "messages"),
      knownSystem rt m = openaiSystem rt m ∨ knownSystem rt m = "" := by
    intro m _
    rw [knownSystem]
    split_ifs
    · exact .inr rfl
    · exact .inl rfl
  have hturn : ∀ m ∈ dicts (body.val "messages"),
      (knownTurn rt m).Sublist (openaiTurn rt m) := by
    intro m _
    rw [knownTurn]
    split_ifs
    · exact List.nil_sublist _
    · exact .refl _
  rw [knownOutline, openaiOutline, Outline.mk.injEq, systemPrompt_eq_iff hsystem,
    flatMap_eq_iff_of_sublist hturn, ← forall₂_and]
  refine forall₂_congr fun m _ => ?_
  by_cases hd : m.val "role" = .str "developer"
  · have hturn : knownTurn rt m = openaiTurn rt m := by simp [knownTurn, hd]
    have hknown : knownSystem rt m = "" := by rw [knownSystem, if_pos hd]
    have hsystem : openaiSystem rt m = openaiText rt (m.val "content") := by
      simp [openaiSystem, isSystemRole, hd]
    rw [hknown, hsystem]
    exact ⟨fun h _ => h.1.symm, fun h => ⟨(h (.inl hd)).symm, hturn⟩⟩
  · have hsame : knownSystem rt m = openaiSystem rt m := by rw [knownSystem, if_neg hd]
    by_cases hf : m.val "role" = .str "function"
    · have hknown : knownTurn rt m = [] := by rw [knownTurn, if_pos hf]
      have hturn : openaiTurn rt m = said .toolResult (openaiText rt (m.val "content")) := by
        rw [openaiTurn, hf]
        rfl
      rw [hknown, hturn, said]
      split_ifs with hempty
      · exact ⟨fun _ _ => hempty, fun _ => ⟨hsame, rfl⟩⟩
      · exact ⟨fun h => h.2.elim, fun h => absurd (h (.inr hf)) hempty⟩
    · simp [hsame, knownTurn, hd, hf]

theorem textOf_string {fields : Fields} {text : String}
    (h : (Json.item "text" fields).getD (.str "") = .str text) :
    textOf rt (.obj fields) = text := by
  rw [textOf, Json.val_obj]
  cases hi : Json.item "text" fields with
  | none =>
    rw [hi] at h
    rw [← Json.str.inj h]
    rfl
  | some value =>
    rw [hi] at h
    rw [show value = .str text from h, Option.getD_some, str_orElse_empty]
    rfl

theorem join_textParts {parts : List Json} {texts : List String}
    (h : Json.textParts parts = .ok texts) (ht : TypedParts (.arr parts)) :
    texts = (parts.filter Json.isDict).map (textOf rt) := by
  induction parts generalizing texts with
  | nil => exact (Except.ok.inj h).symm
  | cons part parts ih =>
    have hrest : TypedParts (.arr parts) := fun p hp => by
      refine ht p ?_
      rw [dicts, contentBlocks, List.mem_filter] at hp ⊢
      exact ⟨List.mem_cons_of_mem _ hp.1, hp.2⟩
    cases part with
    | obj fields =>
      have htype : (Json.item "type" fields).getD .null = .str "text" :=
        ht (.obj fields) (List.mem_filter.2 ⟨List.mem_cons_self, rfl⟩)
      rw [Json.textParts, if_pos htype] at h
      cases hv : (Json.item "text" fields).getD (.str "") with
      | str text =>
        rw [hv] at h
        obtain ⟨rest, hr, h⟩ := Py.bind_eq_ok.1 h
        obtain rfl := Except.ok.inj h
        rw [List.filter_cons_of_pos rfl, List.map_cons, textOf_string hv, ← ih hr hrest]
      | _ =>
        rw [hv] at h
        cases h
    | _ =>
      rw [List.filter_cons_of_neg Bool.false_ne_true]
      exact ih h hrest

theorem contentText_eq {content : Json} {text : String}
    (h : Providers.contentText content = .ok text) (ht : TypedParts content) :
    text = openaiText rt content := by
  cases content with
  | str s => exact (Except.ok.inj h).symm
  | arr parts =>
    obtain ⟨texts, hp, h⟩ := Py.bind_eq_ok.1 h
    obtain rfl := Except.ok.inj h
    rw [join_textParts hp ht]
    rfl
  | _ => exact (Except.ok.inj h).symm

/-! ### Anthropic -/

theorem blockTexts_eq {parts : List Json} (ht : TypedParts (.arr parts)) :
    textParts rt (Providers.Anthropic.contentBlocks parts) =
      (parts.filter Json.isDict).map (textOf rt) := by
  induction parts with
  | nil => rfl
  | cons part parts ih =>
    have hrest : TypedParts (.arr parts) := fun p hp => by
      refine ht p ?_
      rw [dicts, contentBlocks, List.mem_filter] at hp ⊢
      exact ⟨List.mem_cons_of_mem _ hp.1, hp.2⟩
    cases part with
    | obj fields =>
      have htype : (Json.item "type" fields).getD .null = .str "text" :=
        ht (.obj fields) (List.mem_filter.2 ⟨List.mem_cons_self, rfl⟩)
      have hblock : textOf rt (.obj [("type", .str "text"),
          ("text", (Json.item "text" fields).getD (.str ""))]) = textOf rt (.obj fields) := by
        cases hi : Json.item "text" fields with
        | none => simp [textOf, Json.item, hi, Json.orElse, Json.truthy]
        | some value => simp [textOf, Json.item, hi]
      rw [Providers.Anthropic.contentBlocks, if_pos htype, textParts, List.filter_cons_of_pos rfl,
        List.map_cons, hblock, List.filter_cons_of_pos rfl, List.map_cons, ← ih hrest]
      rfl
    | _ =>
      rw [List.filter_cons_of_neg Bool.false_ne_true, ← ih hrest]
      rfl

theorem blocks_plain (parts : List Json) :
    (Providers.Anthropic.contentBlocks parts).filter (hasType "tool_result") = [] := by
  induction parts with
  | nil => rfl
  | cons part parts ih =>
    cases part with
    | obj fields =>
      rw [Providers.Anthropic.contentBlocks]
      split_ifs
      · rw [List.filter_cons_of_neg (by simp [hasType, field, Json.item]), ih]
      · exact ih
    | _ => exact ih

theorem toolUse_type {calls blocks : List Json}
    (h : calls.mapM (Providers.Anthropic.toolUseBlock rt) = .ok blocks) :
    ∀ block ∈ blocks, ∃ fields, block = .obj (("type", .str "tool_use") :: fields) := by
  induction calls generalizing blocks with
  | nil =>
    obtain rfl := Except.ok.inj h
    simp
  | cons call calls ih =>
    obtain ⟨block, rest, hb, hr, rfl⟩ := Py.mapM_cons_ok h
    rw [List.forall_mem_cons]
    refine ⟨?_, ih hr⟩
    simp only [Providers.Anthropic.toolUseBlock, Py.bind_eq_ok] at hb
    obtain ⟨_, _, _, _, _, _, _, _, _, _, hb⟩ := hb
    exact ⟨_, (Except.ok.inj hb).symm⟩

theorem filter_toolUse {blocks : List Json} {type : String} (hne : type ≠ "tool_use")
    (h : ∀ block ∈ blocks, ∃ fields, block = Json.obj (("type", .str "tool_use") :: fields)) :
    blocks.filter (hasType type) = [] := by
  rw [List.filter_eq_nil_iff]
  intro block hb
  obtain ⟨fields, rfl⟩ := h block hb
  simpa [hasType, field, Json.item] using hne.symm

structure Reads (rt : Runtime) (text : String) (content : Json) : Prop where
  text : anthropicContentText rt content = text
  results : resultTexts rt content = []

theorem reads_blocks {parts : List Json} (ht : TypedParts (.arr parts)) :
    Reads rt (openaiText rt (.arr parts)) (.arr (Providers.Anthropic.contentBlocks parts)) := by
  refine ⟨?_, ?_⟩
  · rw [anthropicContentText, blockTexts_eq ht]
    rfl
  · rw [resultTexts, contentBlocks, blocks_plain]
    rfl

theorem keys_plain {xs : List Json} (h : ∀ x ∈ xs, x.isDict = false) :
    Providers.Anthropic.contentBlocks xs = [] := by
  induction xs with
  | nil => rfl
  | cons x xs ih =>
    rw [List.forall_mem_cons] at h
    cases x with
    | obj fields => cases h.1
    | _ => exact ih h.2

def withCalls (rt : Runtime) (message content : Json) : Py Json := do
  let toolCalls := (← message.get "tool_calls").orElse (.arr [])
  if toolCalls.truthy then
    let calls ← (← toolCalls.iter).mapM (Providers.Anthropic.toolUseBlock rt)
    return .arr ((match content with
      | .arr blocks => blocks
      | text => [.obj [("type", .str "text"), ("text", text)]]) ++ calls)
  else return content

theorem reads_append {text : String} {blocks calls : List Json}
    (h : Reads rt text (.arr blocks))
    (hc : ∀ block ∈ calls, ∃ fields, block = Json.obj (("type", .str "tool_use") :: fields)) :
    Reads rt text (.arr (blocks ++ calls)) := by
  refine ⟨?_, ?_⟩
  · rw [← h.text, anthropicContentText, anthropicContentText, textParts, textParts,
      List.filter_append, filter_toolUse (by decide) hc, List.append_nil]
  · rw [← h.results, resultTexts, resultTexts, contentBlocks, contentBlocks, List.filter_append,
      filter_toolUse (by decide) hc, List.append_nil]

theorem withCalls_reads {m content c : Json} {text : String} (h : withCalls rt m content = .ok c)
    (hr : Reads rt text content)
    (hs : (∃ s, content = .str s) ∨ ∃ blocks, content = .arr blocks) : Reads rt text c := by
  simp only [withCalls, Py.bind_eq_ok] at h
  obtain ⟨toolCalls, _, h⟩ := h
  split_ifs at h
  · simp only [Py.bind_eq_ok] at h
    obtain ⟨xs, _, calls, hcalls, h⟩ := h
    rw [← Except.ok.inj h]
    rcases hs with ⟨s, rfl⟩ | ⟨blocks, rfl⟩
    · have hblock : Reads rt text (.arr [.obj [("type", .str "text"), ("text", .str s)]]) := by
        refine ⟨?_, rfl⟩
        rw [← hr.text]
        simp [anthropicContentText, textParts, hasType, field, Json.item, textOf,
          str_orElse_empty, Runtime.str]
      exact reads_append hblock (toolUse_type hcalls)
    · exact reads_append hr (toolUse_type hcalls)
  · rwa [← Except.ok.inj h]

theorem iter_dicts {j : Json} {xs : List Json} (h : (j.orElse (.arr [])).iter = .ok xs) :
    xs = contentBlocks j ∨ contentBlocks j = [] ∧ ∀ x ∈ xs, x.isDict = false := by
  rw [Json.orElse] at h
  split_ifs at h with ht
  · cases j with
    | arr ys => exact .inl (Except.ok.inj h).symm
    | str s =>
      rw [← Except.ok.inj h]
      exact .inr ⟨rfl, by simp [Json.isDict]⟩
    | obj fields =>
      rw [← Except.ok.inj h]
      refine .inr ⟨rfl, fun x hx => ?_⟩
      obtain ⟨f, _, rfl⟩ := List.mem_map.1 hx
      rfl
    | _ => cases h
  · rw [← Except.ok.inj h]
    cases j with
    | arr ys =>
      cases ys with
      | nil => exact .inl rfl
      | cons y ys => exact absurd rfl ht
    | _ => exact .inl rfl

theorem content_reads {m c : Json} (h : Providers.Anthropic.anthropicContent rt m = .ok c)
    (ht : TypedParts (m.val "content")) : Reads rt (openaiText rt (m.val "content")) c := by
  obtain ⟨content, hget, h⟩ := Py.bind_eq_ok.1 h
  rw [← Json.get_eq_ok hget] at ht ⊢
  have hlist : (content.orElse (.arr [])).iter >>= (fun xs =>
      withCalls rt m (.arr (Providers.Anthropic.contentBlocks xs))) = .ok c →
      openaiText rt content = openaiText rt (.arr (contentBlocks content)) →
      Reads rt (openaiText rt content) c := by
    intro hlist htext
    obtain ⟨xs, hx, hcalls⟩ := Py.bind_eq_ok.1 hlist
    refine withCalls_reads hcalls ?_ (.inr ⟨_, rfl⟩)
    rw [htext]
    rcases iter_dicts hx with rfl | ⟨hnil, hplain⟩
    · exact reads_blocks ht
    · rw [hnil, keys_plain hplain]
      exact ⟨rfl, rfl⟩
  cases content with
  | str s =>
    have hstr : withCalls rt m (.str s) = .ok c := h
    exact withCalls_reads hstr ⟨rfl, rfl⟩ (.inl ⟨s, rfl⟩)
  | _ => exact hlist h rfl

/-! ### Turns -/

/-- What an adapter makes of a message: an entry that reads as the message's turn, or its text of
the system prompt. -/
structure Translates (rt : Runtime) (turn : Json → List (Side × String)) (message : Json)
    (t : Turn) : Prop where
  dict : message.isDict = true
  entry : ∀ entry, t.entry = some entry → entry.isDict = true
  turn : t.entry.toList.flatMap turn = knownTurn rt message
  system : t.systemText.toList = [knownSystem rt message].filter fun text => text ≠ ""

theorem Translates.of_system {read : Json → List (Side × String)} {m : Json} {text : String}
    (hd : m.isDict = true) (hr : m.val "role" = .str "system")
    (ht : text = openaiText rt (m.val "content")) : Translates rt read m (.system text) := by
  have hsystem : knownSystem rt m = text := by
    simp [knownSystem, openaiSystem, isSystemRole, hr, ht]
  refine ⟨hd, fun entry (he : none = some entry) => (Option.some_ne_none _ he.symm).elim, ?_, ?_⟩
  · simp [Turn.entry, knownTurn, openaiTurn, openaiSide, hr]
  · rw [hsystem, Turn.systemText]
    split_ifs with hempty
    · simp [hempty]
    · simp [hempty]

theorem knownSystem_of_side (rt : Runtime) {m : Json} {side : Side} (h : openaiSide (m.val "role") = some side) :
    knownSystem rt m = "" := by
  have hrole : isSystemRole (m.val "role") = false := by
    rw [isSystemRole, decide_eq_false_iff_not]
    rintro (hr | hr)
    · rw [hr] at h
      cases h
    · rw [hr] at h
      cases h
  simp [knownSystem, openaiSystem, hrole]

theorem Translates.of_turn {read : Json → List (Side × String)} {m entry : Json} {side : Side}
    (hd : m.isDict = true) (hs : openaiSide (m.val "role") = some side)
    (hf : m.val "role" ≠ .str "function") (he : entry.isDict = true)
    (hread : read entry = said side (openaiText rt (m.val "content"))) :
    Translates rt read m (.content entry) := by
  refine ⟨hd, fun e h => Option.some.inj h ▸ he, ?_, ?_⟩
  · rw [knownTurn, if_neg hf, openaiTurn, hs]
    simpa [Turn.entry] using hread
  · simp [Turn.systemText, knownSystem_of_side rt hs]

theorem Translates.of_skipped {read : Json → List (Side × String)} {m : Json}
    (hd : m.isDict = true) (hr : m.val "role" ≠ .str "system") (hu : m.val "role" ≠ .str "user")
    (ha : m.val "role" ≠ .str "assistant") (ht : m.val "role" ≠ .str "tool") :
    Translates rt read m .skipped := by
  refine ⟨hd, fun entry (he : none = some entry) => (Option.some_ne_none _ he.symm).elim, ?_, ?_⟩
  · rw [knownTurn]
    split_ifs with hf
    · rfl
    · have hside : openaiSide (m.val "role") = none := by
        rw [openaiSide.eq_def]
        split
        · contradiction
        · contradiction
        · contradiction
        · contradiction
        · rfl
      rw [openaiTurn, hside]
      rfl
  · have hsystem : knownSystem rt m = "" := by
      by_cases hd : m.val "role" = .str "developer"
      · rw [knownSystem, if_pos hd]
      · simp [knownSystem, openaiSystem, isSystemRole, hr, hd]
    simp [Turn.systemText, hsystem]

theorem anthropicTurn_result (id : Json) (text : String) :
    anthropicTurn rt (.obj [("role", .str "user"), ("content", .arr [.obj [
      ("type", .str "tool_result"), ("tool_use_id", id), ("content", .str text)]])]) =
      said .toolResult text := by
  simp [anthropicTurn, Json.item, resultTexts, anthropicContentText, contentBlocks, textParts,
    hasType, field, said]

theorem anthropicTurn_user (content : Json) :
    anthropicTurn rt (.obj [("role", .str "user"), ("content", content)]) =
      said .user (anthropicContentText rt content) ++
        (resultTexts rt content).flatMap (said .toolResult) := by
  simp [anthropicTurn, Json.item]

theorem anthropicTurn_assistant (content : Json) :
    anthropicTurn rt (.obj [("role", .str "assistant"), ("content", content)]) =
      said .assistant (anthropicContentText rt content) := by
  simp [anthropicTurn, Json.item]

theorem anthropic_translates {m : Json} {t : Turn}
    (h : Providers.Anthropic.turnOf rt m = .ok t) (ht : TypedParts (m.val "content")) :
    Translates rt (anthropicTurn rt) m t := by
  obtain ⟨role, hrole, h⟩ := Py.bind_eq_ok.1 h
  have hdict : m.isDict = true := by
    cases m with
    | obj fields => rfl
    | _ => cases hrole
  have hval := Json.get_eq_ok hrole
  split_ifs at h with hsystem htool
  · obtain ⟨content, hc, h⟩ := Py.bind_eq_ok.1 h
    obtain ⟨text, htext, h⟩ := Py.bind_eq_ok.1 h
    rw [← Except.ok.inj h]
    rw [← Json.get_eq_ok hc] at ht
    exact .of_system hdict (hval ▸ hsystem) (Json.get_eq_ok hc ▸ contentText_eq htext ht)
  · simp only [Py.bind_eq_ok] at h
    obtain ⟨id, _, content, hc, text, htext, h⟩ := h
    rw [← Except.ok.inj h]
    rw [← Json.get_eq_ok hc] at ht
    have hside : openaiSide (m.val "role") = some .toolResult := by rw [← hval, htool]; rfl
    refine .of_turn hdict hside (by rw [← hval, htool]; decide) rfl ?_
    rw [← Json.get_eq_ok hc, ← contentText_eq htext ht]
    exact anthropicTurn_result _ _
  · obtain ⟨content, hc, h⟩ := Py.bind_eq_ok.1 h
    have hreads := content_reads hc ht
    rw [hval] at h hsystem htool
    cases hr : m.val "role" with
    | str r =>
      rw [hr] at h
      dsimp only at h
      split_ifs at h with hknown
      · rw [← Except.ok.inj h]
        have hfunction : m.val "role" ≠ .str "function" := by
          rw [hr]
          rcases hknown with rfl | rfl
          · decide
          · decide
        rcases hknown with rfl | rfl
        · refine .of_turn hdict (by rw [hr]; rfl) hfunction rfl ?_
          rw [anthropicTurn_user, hreads.text, hreads.results, List.flatMap_nil, List.append_nil]
        · refine .of_turn hdict (by rw [hr]; rfl) hfunction rfl ?_
          rw [anthropicTurn_assistant, hreads.text]
      · rw [← Except.ok.inj h]
        rw [not_or] at hknown
        exact .of_skipped hdict hsystem (by simp [hr, hknown.1]) (by simp [hr, hknown.2]) htool
    | arr xs =>
      rw [hr] at h
      cases h
    | obj fields =>
      rw [hr] at h
      cases h
    | _ =>
      rw [hr] at h
      rw [← Except.ok.inj h]
      exact .of_skipped hdict hsystem (by simp [hr]) (by simp [hr]) htool

/-! ### Gemini -/

theorem functionCall_shape {calls parts : List Json}
    (h : calls.mapM (Providers.Gemini.functionCallPart rt) = .ok parts) :
    ∀ part ∈ parts, ∃ call, part = .obj [("functionCall", call)] := by
  induction calls generalizing parts with
  | nil =>
    obtain rfl := Except.ok.inj h
    simp
  | cons call calls ih =>
    obtain ⟨part, rest, hp, hr, rfl⟩ := Py.mapM_cons_ok h
    rw [List.forall_mem_cons]
    refine ⟨?_, ih hr⟩
    simp only [Providers.Gemini.functionCallPart, Py.bind_eq_ok] at hp
    obtain ⟨_, _, _, _, _, _, _, _, hp⟩ := hp
    exact ⟨_, (Except.ok.inj hp).symm⟩

theorem filterMap_functionCalls {parts : List Json} {f : Json → Option String}
    (hf : ∀ call, f (.obj [("functionCall", call)]) = none)
    (h : ∀ part ∈ parts, ∃ call, part = Json.obj [("functionCall", call)]) :
    parts.filterMap f = [] := by
  rw [List.filterMap_eq_nil_iff]
  intro part hp
  obtain ⟨call, rfl⟩ := h part hp
  exact hf call

theorem geminiTurn_result (name : Json) (text : String) :
    geminiTurn rt wireResult (.obj [("role", .str "user"), ("parts", .arr [.obj [
      ("functionResponse", .obj [("name", name),
        ("response", .obj [("content", .str text)])])]])]) =
      said .toolResult text := by
  simp [geminiTurn, Json.item, partsText, contentBlocks, partText, wireResult, field, said,
    Json.truthy]

theorem partText_text (text : String) :
    partText rt (.obj [("text", .str text)]) = if text = "" then none else some text := by
  rw [partText]
  have hfield : field "text" [("text", .str text)] = .str text := rfl
  rw [hfield]
  by_cases h : text = ""
  · subst h
    rfl
  · rw [if_neg h, if_pos ((Json.truthy_str text).2 h)]
    rfl

def textPart (text : String) : List Json := if text = "" then [] else [.obj [("text", .str text)]]

theorem textPart_reads (rt : Runtime) (text : String) :
    String.join ((textPart text).filterMap (partText rt)) = text ∧
    (textPart text).filterMap wireResult = [] := by
  have hnone : wireResult (.obj [("text", .str text)]) = none := rfl
  rw [textPart]
  split_ifs with h
  · exact ⟨h.symm, rfl⟩
  · simp [partText_text, hnone, h]

def geminiEntry (role : String) (parts : List Json) : Json :=
  .obj [("role", .str role),
    ("parts", .arr (if parts = [] then [.obj [("text", .str "")]] else parts))]

theorem geminiTurn_entry (role : String) (parts : List Json) :
    geminiTurn rt wireResult (geminiEntry role parts) =
      said (if role = "model" then .assistant else .user)
        (String.join (parts.filterMap (partText rt))) ++
          (parts.filterMap wireResult).flatMap (said .toolResult) := by
  have hrole : (geminiEntry role parts).val "role" = .str role := rfl
  have hparts : contentBlocks ((geminiEntry role parts).val "parts") =
      if parts = [] then [.obj [("text", .str "")]] else parts := rfl
  have hnone : wireResult (.obj [("text", .str "")]) = none := rfl
  rw [geminiTurn, partsText, hrole, hparts]
  simp only [Json.str.injEq]
  by_cases h : parts = []
  · simp [h, partText_text, hnone]
  · rw [if_neg h]

theorem geminiTurn_parts (rt : Runtime) (role text : String) {calls : List Json}
    (hc : ∀ part ∈ calls, ∃ call, part = Json.obj [("functionCall", call)]) :
    geminiTurn rt wireResult (geminiEntry role (textPart text ++ calls)) =
      said (if role = "model" then .assistant else .user) text := by
  have htext : calls.filterMap (partText rt) = [] := filterMap_functionCalls (fun _ => rfl) hc
  have hresult : calls.filterMap wireResult = [] := filterMap_functionCalls (fun _ => rfl) hc
  rw [geminiTurn_entry, List.filterMap_append, List.filterMap_append, htext, hresult,
    List.append_nil, List.append_nil, (textPart_reads rt text).1, (textPart_reads rt text).2]
  exact List.append_nil _

theorem gemini_translates {m : Json} {t : Turn}
    (h : Providers.Gemini.turnOf rt m = .ok t) (ht : TypedParts (m.val "content")) :
    Translates rt (geminiTurn rt wireResult) m t := by
  obtain ⟨role, hrole, h⟩ := Py.bind_eq_ok.1 h
  have hdict : m.isDict = true := by
    cases m with
    | obj fields => rfl
    | _ => cases hrole
  have hval := Json.get_eq_ok hrole
  obtain ⟨content, hc, h⟩ := Py.bind_eq_ok.1 h
  obtain ⟨text, htext, h⟩ := Py.bind_eq_ok.1 h
  rw [← Json.get_eq_ok hc] at ht
  have heq : text = openaiText rt (m.val "content") :=
    (contentText_eq htext ht).trans (by rw [← Json.get_eq_ok hc])
  by_cases hsystem : role = .str "system"
  · rw [if_pos hsystem] at h
    rw [← Except.ok.inj h]
    exact .of_system hdict (hval ▸ hsystem) heq
  rw [if_neg hsystem] at h
  by_cases htool : role = .str "tool"
  · rw [if_pos htool] at h
    simp only [Py.bind_eq_ok] at h
    obtain ⟨_, _, _, _, h⟩ := h
    rw [← Except.ok.inj h]
    have hside : openaiSide (m.val "role") = some .toolResult := by rw [← hval, htool]; rfl
    refine .of_turn hdict hside (by rw [← hval, htool]; decide) rfl ?_
    rw [← heq]
    exact geminiTurn_result _ _
  · rw [if_neg htool] at h
    rw [hval] at h hsystem htool
    cases hr : m.val "role" with
    | str r =>
      rw [hr] at h
      dsimp only at h
      by_cases hknown : r = "user" ∨ r = "assistant"
      · rw [if_pos hknown] at h
        simp only [Py.bind_eq_ok] at h
        obtain ⟨_, _, _, _, calls, hcalls, h⟩ := h
        have hentry : .content (geminiEntry (if r = "assistant" then "model" else "user")
          (textPart text ++ calls)) = t := Except.ok.inj h
        rw [← hentry]
        have hread := geminiTurn_parts rt (if r = "assistant" then "model" else "user") text
          (functionCall_shape hcalls)
        rcases hknown with rfl | rfl
        · have hside : openaiSide (m.val "role") = some .user := by rw [hr]; rfl
          exact .of_turn hdict hside (by rw [hr]; decide) rfl (heq ▸ hread)
        · have hside : openaiSide (m.val "role") = some .assistant := by rw [hr]; rfl
          exact .of_turn hdict hside (by rw [hr]; decide) rfl (heq ▸ hread)
      · rw [if_neg hknown] at h
        rw [← Except.ok.inj h]
        rw [not_or] at hknown
        exact .of_skipped hdict hsystem (by simp [hr, hknown.1]) (by simp [hr, hknown.2]) htool
    | arr xs =>
      rw [hr] at h
      cases h
    | obj fields =>
      rw [hr] at h
      cases h
    | _ =>
      rw [hr] at h
      rw [← Except.ok.inj h]
      exact .of_skipped hdict hsystem (by simp [hr]) (by simp [hr]) htool

/-! ### Whole requests -/

theorem mapM_translates {read : Json → List (Side × String)} {turnOf : Json → Py Turn}
    {messages : List Json} {turns : List Turn} (h : messages.mapM turnOf = .ok turns)
    (step : ∀ m ∈ messages, ∀ t, turnOf m = .ok t → Translates rt read m t) :
    messages.filter Json.isDict = messages ∧
      (turns.filterMap Turn.entry).filter Json.isDict = turns.filterMap Turn.entry ∧
      (turns.filterMap Turn.entry).flatMap read = messages.flatMap (knownTurn rt) ∧
      turns.filterMap Turn.systemText =
        (messages.map (knownSystem rt)).filter fun text => text ≠ "" := by
  induction messages generalizing turns with
  | nil =>
    obtain rfl := Except.ok.inj h
    exact ⟨rfl, rfl, rfl, rfl⟩
  | cons m messages ih =>
    obtain ⟨t, rest, ht, hrest, rfl⟩ := Py.mapM_cons_ok h
    rw [List.forall_mem_cons] at step
    obtain ⟨hdicts, hentries, hturns, hsystem⟩ := ih hrest step.2
    have hm := step.1 t ht
    have hentry : (t :: rest).filterMap Turn.entry =
        t.entry.toList ++ rest.filterMap Turn.entry := by
      cases he : t.entry with
      | none => rw [List.filterMap_cons_none he]; rfl
      | some entry => rw [List.filterMap_cons_some he]; rfl
    have htext : (t :: rest).filterMap Turn.systemText =
        t.systemText.toList ++ rest.filterMap Turn.systemText := by
      cases he : t.systemText with
      | none => rw [List.filterMap_cons_none he]; rfl
      | some text => rw [List.filterMap_cons_some he]; rfl
    refine ⟨?_, ?_, ?_, ?_⟩
    · rw [List.filter_cons_of_pos hm.dict, hdicts]
    · have hfirst : t.entry.toList.filter Json.isDict = t.entry.toList := by
        rw [List.filter_eq_self]
        intro entry he
        exact hm.entry entry (Option.mem_toList.1 he)
      rw [hentry, List.filter_append, hentries, hfirst]
    · rw [hentry, List.flatMap_append, hturns, hm.turn, List.flatMap_cons]
    · rw [htext, hsystem, hm.system, ← List.filter_append]
      rfl

theorem item_optional (k l : String) (v : Option Json) (fields : Fields) :
    Json.item k (optionalItem l v ++ fields) =
      if l = k then v.or (Json.item k fields) else Json.item k fields := by
  cases v with
  | none => simp [optionalItem]
  | some v => simp [optionalItem, Json.item]

theorem item_optional_last (k l : String) (v : Option Json) :
    Json.item k (optionalItem l v) = if l = k then v else none := by
  cases v with
  | none => simp [optionalItem, Json.item]
  | some v => simp [optionalItem, Json.item]

theorem dict_of_get {m v : Json} {k : String} (h : m.get k = .ok v) : m.isDict = true := by
  cases m with
  | obj fields => rfl
  | _ => cases h

theorem messages_typed {shape : Json} (ht : TypedBody shape) {messages : List Json}
    (h : ((shape.val "messages").orElse (.arr [])).iter = .ok messages) :
    messages.filter Json.isDict = dicts (shape.val "messages") ∧
      ∀ m ∈ messages, m.isDict = true → TypedParts (m.val "content") := by
  have hfilter : messages.filter Json.isDict = dicts (shape.val "messages") := by
    rcases iter_dicts h with rfl | ⟨hnil, hplain⟩
    · rfl
    · rw [dicts, hnil, List.filter_nil, List.filter_eq_nil_iff]
      exact fun m hm => by simp [hplain m hm]
  exact ⟨hfilter, fun m hm hd => ht m (hfilter ▸ List.mem_filter.2 ⟨hm, hd⟩)⟩

theorem anthropic_prepared {shape wire : Json} {model : String} {stream : Bool}
    (h : Providers.Anthropic.prepareRequest rt shape model stream = .ok wire)
    (ht : TypedBody shape) : anthropicOutline rt wire = knownOutline rt shape := by
  simp only [Providers.Anthropic.prepareRequest, Py.bind_eq_ok] at h
  obtain ⟨list, hget, messages, hiter, turns, hturns, _, _, _, _, n, _, temperature, _, tools, _,
    declared, _, h⟩ := h
  obtain rfl := Json.get_eq_ok hget
  obtain ⟨hfilter, htyped⟩ := messages_typed ht hiter
  obtain ⟨hdicts, hentries, hread, hsystem⟩ := mapM_translates hturns fun m hm t hmt =>
    anthropic_translates hmt (htyped m hm (by
      obtain ⟨_, hrole, _⟩ := Py.bind_eq_ok.1 hmt
      exact dict_of_get hrole))
  have hmessages : contentBlocks (wire.val "messages") = turns.filterMap Turn.entry := by
    rw [← Except.ok.inj h]
    rfl
  have hprompt : wire.val "system" = if turns.filterMap Turn.systemText = [] then .null else
      .str ("\n\n".intercalate (turns.filterMap Turn.systemText)) := by
    rw [← Except.ok.inj h, Json.val_obj]
    simp only [Json.item, List.append_assoc, item_optional, item_optional_last, String.reduceEq,
      if_false, if_true, Option.or_none]
    split_ifs
    · rfl
    · rfl
  have htext : anthropicContentText rt (wire.val "system") =
      "\n\n".intercalate (turns.filterMap Turn.systemText) := by
    rw [hprompt]
    split_ifs with hnil
    · rw [hnil]
      rfl
    · rfl
  rw [anthropicOutline, knownOutline, htext, dicts, hmessages, hentries, hread, ← hfilter, hdicts,
    systemPrompt, hsystem]

theorem gemini_prepared {shape wire : Json} {model : String} {stream : Bool}
    (h : Providers.Gemini.prepareRequest rt shape model stream = .ok wire)
    (ht : TypedBody shape) : geminiOutline rt wireResult wire = knownOutline rt shape := by
  simp only [Providers.Gemini.prepareRequest, Py.bind_eq_ok] at h
  obtain ⟨list, hget, messages, hiter, turns, hturns, tools, _, declared, _, h⟩ := h
  obtain rfl := Json.get_eq_ok hget
  obtain ⟨hfilter, htyped⟩ := messages_typed ht hiter
  obtain ⟨hdicts, hentries, hread, hsystem⟩ := mapM_translates hturns fun m hm t hmt =>
    gemini_translates hmt (htyped m hm (by
      obtain ⟨_, hrole, _⟩ := Py.bind_eq_ok.1 hmt
      exact dict_of_get hrole))
  have hcontents : contentBlocks (wire.val "contents") = turns.filterMap Turn.entry := by
    rw [← Except.ok.inj h]
    rfl
  have hprompt : wire.val "systemInstruction" = if turns.filterMap Turn.systemText = [] then .null
      else .obj [("parts", .arr [.obj [("text",
        .str ("\n\n".intercalate (turns.filterMap Turn.systemText)))]])] := by
    rw [← Except.ok.inj h, Json.val_obj]
    simp only [Json.item, List.append_assoc, item_optional, item_optional_last, String.reduceEq,
      if_false, if_true, Option.or_none]
    split_ifs
    · rfl
    · rfl
  have htext : partsText rt (wire.val "systemInstruction") =
      "\n\n".intercalate (turns.filterMap Turn.systemText) := by
    rw [hprompt]
    split_ifs with hnil
    · rw [hnil]
      rfl
    · have hparts : ∀ text, partsText rt (.obj [("parts", .arr [.obj [("text", .str text)]])]) =
          String.join ([.obj [("text", .str text)]].filterMap (partText rt)) := fun _ => rfl
      rw [hparts]
      by_cases hempty : "\n\n".intercalate (turns.filterMap Turn.systemText) = ""
      · rw [hempty]
        rfl
      · simp [partText_text, hempty]
  rw [geminiOutline, knownOutline, htext, dicts, hcontents, hentries, hread, ← hfilter, hdicts,
    systemPrompt, hsystem]

theorem openai_prepared {shape wire : Json} {model : String} {stream : Bool}
    (h : Providers.OpenAI.prepareRequest shape model stream = .ok wire) :
    openaiOutline rt wire = openaiOutline rt shape := by
  cases shape with
  | obj fields =>
    have hmessages : wire.val "messages" = (Json.obj fields).val "messages" := by
      rw [← Except.ok.inj h, Json.val_obj, Json.val_obj]
      split_ifs
      · rw [Json.item_setItem_of_ne (by decide), Json.item_setItem_of_ne (by decide),
          Json.item_setItem_of_ne (by decide)]
      · rw [Json.item_setItem_of_ne (by decide), Json.item_setItem_of_ne (by decide)]
    rw [openaiOutline, openaiOutline, hmessages]
  | _ => cases h

theorem wire_outline {candidate : Provider} {shape wire : Json} {model : String} {stream : Bool}
    (h : candidate.prepareRequest rt shape model stream = .ok wire) (ht : TypedBody shape) :
    wireOutline rt candidate wire =
      if candidate = .openai then openaiOutline rt shape else knownOutline rt shape := by
  cases candidate with
  | openai =>
    have hopenai : Providers.OpenAI.prepareRequest shape model stream = .ok wire := h
    exact openai_prepared hopenai
  | anthropic => exact anthropic_prepared h ht
  | gemini =>
    have hgemini : Providers.Gemini.prepareRequest rt shape model stream = .ok wire := h
    exact gemini_prepared hgemini ht

/-! ## The client edge -/

/-- A message of the internal shape that the client edge builds for a turn. -/
structure Plain (message : Json) : Prop where
  dict : message.isDict = true
  typed : TypedParts (message.val "content")
  side : ∃ side, openaiSide (message.val "role") = some side
  known : message.val "role" ≠ .str "function"

theorem typed_string (text : String) : TypedParts (.str text) := fun _ hp => nomatch hp

theorem typed_null : TypedParts .null := fun _ hp => nomatch hp

theorem Plain.of_role {m : Json} {role : String} (hd : m.isDict = true)
    (hrole : m.val "role" = .str role) (ht : TypedParts (m.val "content"))
    (hr : role = "user" ∨ role = "assistant" ∨ role = "tool") : Plain m := by
  refine ⟨hd, ht, ?_, ?_⟩
  · rw [hrole]
    rcases hr with rfl | rfl | rfl
    · exact ⟨.user, rfl⟩
    · exact ⟨.assistant, rfl⟩
    · exact ⟨.toolResult, rfl⟩
  · rw [hrole]
    rcases hr with rfl | rfl | rfl
    · decide
    · decide
    · decide

theorem openaiSystem_of_side {m : Json} (h : ∃ side, openaiSide (m.val "role") = some side) :
    openaiSystem rt m = "" := by
  obtain ⟨side, hside⟩ := h
  have hknown := knownSystem_of_side rt hside
  have hrole : m.val "role" ≠ .str "developer" := fun hr => by
    rw [hr] at hside
    cases hside
  rwa [knownSystem, if_neg hrole] at hknown

theorem flatMapDicts_reads {f : Fields → Py (List Json)} {kept : Json → List (Side × String)}
    {entries messages : List Json} (h : flatMapDicts f entries = .ok messages)
    (step : ∀ fields ms, f fields = .ok ms →
      (∀ m ∈ ms, Plain m) ∧ ms.flatMap (openaiTurn rt) = kept (.obj fields)) :
    (∀ m ∈ messages, Plain m) ∧
      messages.flatMap (openaiTurn rt) = (entries.filter Json.isDict).flatMap kept := by
  induction entries generalizing messages with
  | nil =>
    obtain rfl := Except.ok.inj h
    exact ⟨by simp, rfl⟩
  | cons entry entries ih =>
    cases entry with
    | obj fields =>
      obtain ⟨ms, hms, h⟩ := Py.bind_eq_ok.1 h
      obtain ⟨rest, hrest, h⟩ := Py.bind_eq_ok.1 h
      obtain rfl := Except.ok.inj h
      obtain ⟨hplain, hread⟩ := step fields ms hms
      obtain ⟨hplains, hreads⟩ := ih hrest
      refine ⟨fun m hm => (List.mem_append.1 hm).elim (hplain m) (hplains m), ?_⟩
      rw [List.flatMap_append, hread, hreads, List.filter_cons_of_pos rfl, List.flatMap_cons]
    | _ =>
      rw [List.filter_cons_of_neg Bool.false_ne_true]
      exact ih h

theorem systemPrompt_single {text : String} {rest : List String} (h : ∀ t ∈ rest, t = "") :
    systemPrompt (text :: rest) = text := by
  have hrest : rest.filter (fun t => t ≠ "") = [] := by
    rw [List.filter_eq_nil_iff]
    exact fun t ht => by simp [h t ht]
  rw [systemPrompt, List.filter_cons, hrest]
  split_ifs with hempty
  · exact String.intercalate_singleton
  · have htext : text = "" := by simpa using hempty
    rw [htext]
    rfl

theorem systemPrompt_empty {rest : List String} (h : ∀ t ∈ rest, t = "") :
    systemPrompt rest = "" := by
  have hrest : rest.filter (fun t => t ≠ "") = [] := by
    rw [List.filter_eq_nil_iff]
    exact fun t ht => by simp [h t ht]
  rw [systemPrompt, hrest]
  rfl

def IsPrelude (system : String) (messages : List Json) : Prop :=
  messages = [systemMessage system] ∨ messages = [] ∧ system = ""

theorem shape_outline {shape : Json} {system : String} {before messages : List Json}
    (hs : contentBlocks (shape.val "messages") = before ++ messages) (hb : IsPrelude system before)
    (hm : ∀ m ∈ messages, Plain m) :
    openaiOutline rt shape = ⟨system, messages.flatMap (openaiTurn rt)⟩ ∧
      knownOutline rt shape = openaiOutline rt shape ∧ TypedBody shape := by
  have hmdicts : messages.filter Json.isDict = messages :=
    List.filter_eq_self.2 fun m h => (hm m h).dict
  have hbdicts : before.filter Json.isDict = before := by
    rcases hb with rfl | ⟨rfl, _⟩
    · rfl
    · rfl
  have hdicts : dicts (shape.val "messages") = before ++ messages := by
    rw [dicts, hs, List.filter_append, hmdicts, hbdicts]
  have hturns : before.flatMap (openaiTurn rt) = [] := by
    rcases hb with rfl | ⟨rfl, _⟩
    · rfl
    · rfl
  have hempty : ∀ t ∈ messages.map (openaiSystem rt), t = "" := by
    intro t ht
    obtain ⟨m, hmem, rfl⟩ := List.mem_map.1 ht
    exact openaiSystem_of_side (hm m hmem).side
  refine ⟨?_, ?_, ?_⟩
  · rw [openaiOutline, hdicts, List.flatMap_append, hturns, List.nil_append, List.map_append,
      Outline.mk.injEq]
    refine ⟨?_, rfl⟩
    rcases hb with rfl | ⟨rfl, rfl⟩
    · exact systemPrompt_single hempty
    · exact systemPrompt_empty hempty
  · rw [outline_eq_iff, hdicts]
    intro m hmem hrole
    rcases List.mem_append.1 hmem with hmem | hmem
    · rcases hb with rfl | ⟨rfl, _⟩
      · rw [List.mem_singleton.1 hmem] at hrole
        exact absurd hrole (by simp [systemMessage, Json.item])
      · cases hmem
    · obtain ⟨side, hside⟩ := (hm m hmem).side
      rcases hrole with hrole | hrole
      · rw [hrole] at hside
        cases hside
      · exact absurd hrole (hm m hmem).known
  · intro m hmem
    rw [hdicts] at hmem
    rcases List.mem_append.1 hmem with hmem | hmem
    · rcases hb with rfl | ⟨rfl, _⟩
      · rw [List.mem_singleton.1 hmem]
        exact typed_string system
      · cases hmem
    · exact (hm m hmem).typed

/-! ### Anthropic clients -/

/-- What is kept of a turn: of a user turn with a tool result, only the tool results. -/
def keptAnthropic (rt : Runtime) (message : Json) : List (Side × String) :=
  if message.val "role" = .str "user" ∧
      anthropicContentHasType (message.val "content") "tool_result" then
    (resultTexts rt (message.val "content")).flatMap (said .toolResult)
  else anthropicTurn rt message

theorem textOrNull (rt : Runtime) (text : String) :
    openaiText rt (if text = "" then .null else .str text) = text ∧
      TypedParts (if text = "" then Json.null else .str text) := by
  split_ifs with h
  · exact ⟨h.symm, typed_null⟩
  · exact ⟨rfl, typed_string text⟩

theorem toolResults_read (content : Json) :
    (∀ m ∈ anthropicToolResultsToOpenai rt content, Plain m) ∧
      (anthropicToolResultsToOpenai rt content).flatMap (openaiTurn rt) =
        (resultTexts rt content).flatMap (said .toolResult) := by
  refine ⟨fun m hm => ?_, ?_⟩
  · obtain ⟨block, _, rfl⟩ := List.mem_map.1 hm
    exact .of_role rfl rfl (typed_string _) (.inr (.inr rfl))
  · rw [anthropicToolResultsToOpenai, resultTexts, List.flatMap_map, List.flatMap_map]
    rfl

theorem convertedContent (rt : Runtime) (content : Json) :
    openaiText rt (anthropicContentToOpenai rt content) = anthropicContentText rt content ∧
      TypedParts (anthropicContentToOpenai rt content) := by
  cases content with
  | arr blocks =>
    have hlist : ∀ texts : List String, openaiText rt (.arr (texts.map fun text =>
        .obj [("type", .str "text"), ("text", .str text)])) = String.join texts ∧
        TypedParts (.arr (texts.map fun text =>
          .obj [("type", .str "text"), ("text", .str text)])) := by
      intro texts
      refine ⟨?_, fun part hp => ?_⟩
      · have hdicts : (texts.map fun text => Json.obj [("type", .str "text"),
            ("text", .str text)]).filter Json.isDict = texts.map fun text =>
              .obj [("type", .str "text"), ("text", .str text)] := by
          rw [List.filter_eq_self]
          intro part hp
          obtain ⟨text, _, rfl⟩ := List.mem_map.1 hp
          rfl
        have htext : ∀ text, textOf rt (.obj [("type", .str "text"), ("text", .str text)]) =
            text := fun text => textOf_string rfl
        rw [openaiText, hdicts, List.map_map]
        simp [Function.comp_def, htext]
      · rw [dicts, contentBlocks, List.mem_filter] at hp
        obtain ⟨text, _, rfl⟩ := List.mem_map.1 hp.1
        rfl
    rw [anthropicContentToOpenai, anthropicContentText]
    split
    · rename_i text htexts
      rw [htexts]
      exact ⟨by simp [openaiText], typed_string text⟩
    · exact hlist _
  | str s => exact ⟨rfl, typed_string s⟩
  | _ => exact ⟨rfl, typed_string ""⟩

theorem hashKey_str {role key : Json} (h : role.hashKey = .ok key) {r : String} :
    key = .str r ↔ role = .str r := by
  cases role with
  | arr xs => cases h
  | obj fields => cases h
  | _ => simp [← Except.ok.inj h]

theorem resultTexts_of_none {content : Json}
    (h : anthropicContentHasType content "tool_result" = false) : resultTexts rt content = [] := by
  cases content with
  | arr blocks =>
    have hfilter : blocks.filter (hasType "tool_result") = [] := by
      rw [List.filter_eq_nil_iff]
      intro block hb
      rw [anthropicContentHasType, List.any_eq_false] at h
      exact h block hb
    rw [resultTexts, contentBlocks, hfilter]
    rfl
  | _ => rfl

theorem anthropic_message {fields : Fields} {ms : List Json}
    (h : anthropicMessageToOpenai rt fields = .ok ms) :
    (∀ m ∈ ms, Plain m) ∧ ms.flatMap (openaiTurn rt) = keptAnthropic rt (.obj fields) := by
  have hrole : (Json.obj fields).val "role" = field "role" fields := rfl
  have hcontent : (Json.obj fields).val "content" = field "content" fields := rfl
  rw [keptAnthropic, hrole, hcontent]
  rw [anthropicMessageToOpenai] at h
  split_ifs at h with huser hassistant
  · rw [if_pos huser, ← Except.ok.inj h]
    exact toolResults_read _
  · obtain ⟨htext, htyped⟩ := textOrNull rt (anthropicContentText rt (field "content" fields))
    rw [if_neg huser, ← Except.ok.inj h, anthropicTurn, hrole, hassistant.1, List.flatMap_singleton]
    refine ⟨fun m hm => ?_, ?_⟩
    · rw [List.mem_singleton.1 hm]
      exact .of_role rfl rfl htyped (.inr (.inl rfl))
    · rw [if_neg (by decide), if_pos rfl, hcontent]
      exact congrArg (said .assistant) htext
  · obtain ⟨key, hkey, h⟩ := Py.bind_eq_ok.1 h
    obtain ⟨htext, htyped⟩ := convertedContent rt (field "content" fields)
    rw [if_neg huser, ← Except.ok.inj h]
    simp only [hashKey_str hkey]
    by_cases hu : field "role" fields = .str "user"
    · have hnone : anthropicContentHasType (field "content" fields) "tool_result" = false := by
        simpa [hu] using huser
      rw [if_pos (.inl hu), hu, List.flatMap_singleton, anthropicTurn, hrole, hu, if_pos rfl,
        hcontent, resultTexts_of_none hnone, List.flatMap_nil, List.append_nil]
      refine ⟨fun m hm => ?_, congrArg (said .user) htext⟩
      rw [List.mem_singleton.1 hm]
      exact .of_role rfl rfl htyped (.inl rfl)
    · by_cases ha : field "role" fields = .str "assistant"
      · rw [if_pos (.inr ha), ha, List.flatMap_singleton, anthropicTurn, hrole, ha,
          if_neg (by decide), if_pos rfl, hcontent]
        refine ⟨fun m hm => ?_, congrArg (said .assistant) htext⟩
        rw [List.mem_singleton.1 hm]
        exact .of_role rfl rfl htyped (.inr (.inl rfl))
      · rw [if_neg (not_or.2 ⟨hu, ha⟩), anthropicTurn, hrole, if_neg hu, if_neg ha]
        exact ⟨by simp, rfl⟩

theorem anthropic_shape {body : Fields} {shape : Json}
    (h : anthropicRequestToOpenai rt body = .ok shape) :
    openaiOutline rt shape = ⟨anthropicContentText rt (field "system" body),
      (dicts (field "messages" body)).flatMap (keptAnthropic rt)⟩ ∧
      knownOutline rt shape = openaiOutline rt shape ∧ TypedBody shape := by
  simp only [anthropicRequestToOpenai, Py.bind_eq_ok] at h
  obtain ⟨entries, hentries, messages, hmessages, tools, _, h⟩ := h
  obtain ⟨hplain, hread⟩ := flatMapDicts_reads hmessages fun fields ms => anthropic_message
  have hfilter : entries.filter Json.isDict = dicts (field "messages" body) := by
    rcases iter_dicts hentries with rfl | ⟨hnil, hnone⟩
    · rfl
    · rw [dicts, hnil, List.filter_nil, List.filter_eq_nil_iff]
      exact fun m hm => by simp [hnone m hm]
  have hmessages : contentBlocks (shape.val "messages") =
      (if (field "system" body).truthy then
        [systemMessage (anthropicContentText rt (field "system" body))] else []) ++ messages := by
    rw [← Except.ok.inj h]
    rfl
  have hprelude : IsPrelude (anthropicContentText rt (field "system" body))
      (if (field "system" body).truthy then
        [systemMessage (anthropicContentText rt (field "system" body))] else []) := by
    split_ifs with htruthy
    · exact .inl rfl
    · refine .inr ⟨rfl, ?_⟩
      cases hsystem : field "system" body with
      | str s =>
        rw [hsystem, Json.truthy_str, not_not] at htruthy
        exact htruthy
      | arr blocks =>
        rw [hsystem] at htruthy
        cases blocks with
        | nil => rfl
        | cons block blocks => exact absurd rfl htruthy
      | _ => rfl
  rw [← hfilter, ← hread]
  exact shape_outline hmessages hprelude hplain

/-! ### Gemini clients -/

/-- What is kept of a turn: of one with a tool result, only the tool results. -/
def keptGemini (rt : Runtime) (content : Json) : List (Side × String) :=
  if (contentBlocks (content.val "parts")).filterMap (partResponse rt) ≠ [] then
    ((contentBlocks (content.val "parts")).filterMap (clientResult rt)).flatMap (said .toolResult)
  else geminiTurn rt (clientResult rt) content

theorem filterMap_of_iter {α : Type} {j : Json} {xs : List Json} {f : Json → Option α}
    (h : (j.orElse (.arr [])).iter = .ok xs) (hf : ∀ x, x.isDict = false → f x = none) :
    xs.filterMap f = (contentBlocks j).filterMap f := by
  rcases iter_dicts h with rfl | ⟨hnil, hnone⟩
  · rfl
  · rw [hnil, List.filterMap_nil, List.filterMap_eq_nil_iff]
    exact fun x hx => hf x (hnone x hx)

theorem clientResults_eq (parts : List Json) :
    parts.filterMap (clientResult rt) = (parts.filterMap (partResponse rt)).map Prod.snd := by
  rw [List.map_filterMap]
  rfl

theorem toolMessages_read (results : List (Json × String)) :
    (∀ m ∈ results.map toolMessage, Plain m) ∧ (results.map toolMessage).flatMap (openaiTurn rt) =
      (results.map Prod.snd).flatMap (said .toolResult) := by
  refine ⟨fun m hm => ?_, ?_⟩
  · obtain ⟨result, _, rfl⟩ := List.mem_map.1 hm
    exact .of_role rfl rfl (typed_string _) (.inr (.inr rfl))
  · rw [List.flatMap_map, List.flatMap_map]
    rfl

theorem textMessage_read (rt : Runtime) (role : Json) (text : String) (rest : Fields) :
    Plain (.obj ([("role", .str (if role = .str "model" then "assistant" else "user")),
      ("content", if text = "" then .null else .str text)] ++ rest)) ∧
    openaiTurn rt (.obj ([("role", .str (if role = .str "model" then "assistant" else "user")),
      ("content", if text = "" then .null else .str text)] ++ rest)) =
        said (if role = .str "model" then .assistant else .user) text := by
  obtain ⟨htext, htyped⟩ := textOrNull rt text
  by_cases h : role = .str "model"
  · rw [if_pos h, if_pos h]
    exact ⟨.of_role rfl rfl htyped (.inr (.inl rfl)), congrArg (said .assistant) htext⟩
  · rw [if_neg h, if_neg h]
    exact ⟨.of_role rfl rfl htyped (.inl rfl), congrArg (said .user) htext⟩

theorem gemini_content {fields : Fields} {ms : List Json}
    (h : geminiContentToOpenai rt fields = .ok ms) :
    (∀ m ∈ ms, Plain m) ∧ ms.flatMap (openaiTurn rt) = keptGemini rt (.obj fields) := by
  obtain ⟨parts, hparts, h⟩ := Py.bind_eq_ok.1 h
  have hval : (Json.obj fields).val "parts" = field "parts" fields := rfl
  have hrole : (Json.obj fields).val "role" = field "role" fields := rfl
  have htext := filterMap_of_iter (f := partText rt) hparts fun x hx => by
    cases x with
    | obj part => cases hx
    | _ => rfl
  have hresponse := filterMap_of_iter (f := partResponse rt) hparts fun x hx => by
    cases x with
    | obj part => cases hx
    | _ => rfl
  rw [← Except.ok.inj h, keptGemini, clientResults_eq, hval, ← hresponse]
  by_cases hnone : parts.filterMap (partResponse rt) = []
  · have hmap : (parts.filterMap (partResponse rt)).map toolMessage = [] := by rw [hnone]; rfl
    rw [if_pos hmap, if_neg (not_not.2 hnone), geminiTurn, partsText, clientResults_eq, hval, hrole,
      ← htext, ← hresponse, hnone, List.map_nil, List.flatMap_nil, List.append_nil,
      List.flatMap_singleton]
    obtain ⟨hplain, hturn⟩ := textMessage_read rt (field "role" fields)
      (String.join (parts.filterMap (partText rt)))
      (optionalItem "tool_calls" (if parts.filterMap (partCall rt) = [] then none else
        some (.arr (parts.filterMap (partCall rt)))))
    exact ⟨fun m hm => List.mem_singleton.1 hm ▸ hplain, hturn⟩
  · have hmap : (parts.filterMap (partResponse rt)).map toolMessage ≠ [] := fun hmap =>
      hnone (List.map_eq_nil_iff.1 hmap)
    rw [if_neg hmap, if_pos hnone]
    exact toolMessages_read _

theorem gemini_shape {body : Fields} {model : Option String} {stream : Bool} {shape : Json}
    (h : geminiRequestToOpenai rt body model stream = .ok shape) :
    openaiOutline rt shape = ⟨partsText rt (field "systemInstruction" body),
      (dicts (field "contents" body)).flatMap (keptGemini rt)⟩ ∧
      knownOutline rt shape = openaiOutline rt shape ∧ TypedBody shape := by
  obtain ⟨system, hsystem, h⟩ := Py.bind_eq_ok.1 h
  simp only [Py.bind_eq_ok] at h
  obtain ⟨entries, hentries, messages, hmessages, tools, _, declared, _, h⟩ := h
  obtain ⟨hplain, hread⟩ := flatMapDicts_reads hmessages fun fields ms => gemini_content
  have hfilter : entries.filter Json.isDict = dicts (field "contents" body) := by
    rcases iter_dicts hentries with rfl | ⟨hnil, hnone⟩
    · rfl
    · rw [dicts, hnil, List.filter_nil, List.filter_eq_nil_iff]
      exact fun m hm => by simp [hnone m hm]
  have htext : system = partsText rt (field "systemInstruction" body) := by
    cases hi : field "systemInstruction" body with
    | obj fields =>
      rw [hi] at hsystem
      obtain ⟨parts, hparts, hsystem⟩ := Py.bind_eq_ok.1 hsystem
      rw [← Except.ok.inj hsystem, filterMap_of_iter hparts fun x hx => by
        cases x with
        | obj part => cases hx
        | _ => rfl]
      rfl
    | _ =>
      rw [hi] at hsystem
      exact (Except.ok.inj hsystem).symm
  have hmessage : contentBlocks (shape.val "messages") =
      (if system = "" then [] else [systemMessage system]) ++ messages := by
    rw [← Except.ok.inj h]
    rfl
  have hprelude : IsPrelude system (if system = "" then [] else [systemMessage system]) := by
    split_ifs with hempty
    · exact .inr ⟨rfl, hempty⟩
    · exact .inl rfl
  rw [← hfilter, ← hread, ← htext]
  exact shape_outline hmessage hprelude hplain

/-! ## Texts kept -/

theorem said_eq_nil {side : Side} {text : String} : said side text = [] ↔ text = "" := by
  rw [said]
  split_ifs with h
  · simp [h]
  · simp [h]

theorem anthropic_kept_iff (rt : Runtime) (body : Fields) :
    (dicts (field "messages" body)).flatMap (keptAnthropic rt) =
      (dicts (field "messages" body)).flatMap (anthropicTurn rt) ↔
    ∀ message ∈ dicts (field "messages" body), message.val "role" = .str "user" →
      anthropicContentHasType (message.val "content") "tool_result" →
        anthropicContentText rt (message.val "content") = "" := by
  have hsub : ∀ m ∈ dicts (field "messages" body),
      (keptAnthropic rt m).Sublist (anthropicTurn rt m) := by
    intro m _
    rw [keptAnthropic]
    split_ifs with h
    · rw [anthropicTurn, if_pos h.1]
      exact List.sublist_append_right _ _
    · exact .refl _
  rw [flatMap_eq_iff_of_sublist hsub]
  refine forall₂_congr fun m _ => ?_
  rw [keptAnthropic]
  split_ifs with h
  · rw [anthropicTurn, if_pos h.1, List.self_eq_append_left, said_eq_nil]
    exact ⟨fun htext _ _ => htext, fun htext => htext h.1 h.2⟩
  · exact ⟨fun _ hu ht => absurd ⟨hu, ht⟩ h, fun _ => rfl⟩

theorem gemini_kept_iff (rt : Runtime) (body : Fields) :
    (dicts (field "contents" body)).flatMap (keptGemini rt) =
      (dicts (field "contents" body)).flatMap (geminiTurn rt (clientResult rt)) ↔
    ∀ content ∈ dicts (field "contents" body),
      (contentBlocks (content.val "parts")).filterMap (partResponse rt) ≠ [] →
        partsText rt content = "" := by
  have hsub : ∀ m ∈ dicts (field "contents" body),
      (keptGemini rt m).Sublist (geminiTurn rt (clientResult rt) m) := by
    intro m _
    rw [keptGemini]
    split_ifs with h
    · exact List.sublist_append_right _ _
    · exact .refl _
  rw [flatMap_eq_iff_of_sublist hsub]
  refine forall₂_congr fun m _ => ?_
  rw [keptGemini]
  split_ifs with h
  · rw [geminiTurn, List.self_eq_append_left, said_eq_nil]
    exact ⟨fun htext _ => htext, fun htext => htext h⟩
  · exact ⟨fun _ hne => absurd hne h, fun _ => rfl⟩

theorem unmappedPart_typed {parts : List Json}
    (h : RoutingEligibility.unmappedPart parts = .ok false) : TypedParts (.arr parts) := by
  induction parts with
  | nil => exact fun _ hp => nomatch hp
  | cons part parts ih =>
    cases part with
    | obj fields =>
      have htype : field "type" fields = .str "text" ∧
          RoutingEligibility.unmappedPart parts = .ok false := by
        rw [RoutingEligibility.unmappedPart] at h
        split at h
        · cases h
        · cases h
        · split_ifs at h with hsafe
          · exact ⟨List.mem_singleton.1 hsafe, h⟩
          · cases Except.ok.inj h
      intro p hp
      rw [dicts, contentBlocks, List.filter_cons_of_pos rfl, List.mem_cons] at hp
      rcases hp with rfl | hp
      · exact htype.1
      · exact ih htype.2 p hp
    | _ =>
      intro p hp
      exact ih h p hp

theorem unmappedMessage_typed {messages : List Json}
    (h : RoutingEligibility.unmappedMessage messages = .ok false) :
    ∀ message ∈ messages, TypedParts (message.val "content") := by
  induction messages with
  | nil => simp
  | cons message messages ih =>
    rw [List.forall_mem_cons]
    cases message with
    | obj fields =>
      have hval : (Json.obj fields).val "content" = field "content" fields := rfl
      rw [hval]
      rw [RoutingEligibility.unmappedMessage] at h
      cases hc : field "content" fields with
      | arr parts =>
        rw [hc] at h
        obtain ⟨unmapped, hparts, h⟩ := Py.bind_eq_ok.1 h
        cases unmapped with
        | true => cases Except.ok.inj h
        | false => exact ⟨unmappedPart_typed hparts, ih h⟩
      | _ =>
        rw [hc] at h
        exact ⟨fun _ hp => (nomatch hp), ih h⟩
    | _ => exact ⟨fun _ hp => (nomatch hp), ih h⟩

theorem openai_typed {body : Fields}
    (h : RoutingEligibility.openaiIneligibility body = .ok none) : TypedBody (.obj body) := by
  have hunmapped : RoutingEligibility.hasUnmappedOpenaiContentPart body = .ok false := by
    obtain ⟨tool, _, h⟩ := Py.bind_eq_ok.1 h
    have hnone : RoutingEligibility.openaiIneligibility.unmapped body = .ok none := by
      cases tool with
      | none => exact h
      | some tool =>
        dsimp only at h
        split_ifs at h
        · cases h
        · exact h
    obtain ⟨found, hfound, hnone⟩ := Py.bind_eq_ok.1 hnone
    cases found with
    | false => exact hfound
    | true => cases hnone
  obtain ⟨messages, hiter, hmessages⟩ := Py.bind_eq_ok.1 hunmapped
  have hfilter : messages.filter Json.isDict = dicts (field "messages" body) := by
    rcases iter_dicts hiter with rfl | ⟨hnil, hnone⟩
    · rfl
    · rw [dicts, hnil, List.filter_nil, List.filter_eq_nil_iff]
      exact fun m hm => by simp [hnone m hm]
  intro message hm
  have hmem : message ∈ messages.filter Json.isDict := hfilter ▸ hm
  exact unmappedMessage_typed hmessages message (List.mem_filter.1 hmem).1

def toolResultBlock : Json :=
  .obj [("type", .str "tool_result"), ("tool_use_id", .str "t1"), ("content", .str "42")]

/-- An Anthropic client answers a tool call, and asks something in the same turn. -/
def askedBeside (text : String) : ParsedClientRequest where
  dialect := .anthropic
  headers := []
  body := [("model", .str "claude"), ("messages", .arr [.obj [("role", .str "user"),
    ("content", .arr [toolResultBlock, .obj [("type", .str "text"), ("text", .str text)]])]])]
  model := some "claude"
  stream := false

end Varsten.Proxy.MessageTexts
