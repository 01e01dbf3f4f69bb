import Varsten.Eval.Runner
import Varsten.Python.SameValue

/-!
# Answers at parity

An objective pass compares the texts of two messages. What a message says beyond its text, and
what the comparison takes for equal, is overlooked.
-/

namespace Varsten.Eval.AnswerParity

open Capture (ReplaySample)
open Engine.RequestFacts (field responseFormatJson)
open Python (Json Py)
open Python.Json (sameValue mixes sameValue_iff sameValue_null)
open Python.Utf8 (Text)
open Scoring

/-! ## What a message says -/

/-- `choices[0].message`, where it is there. -/
def messageOf (payload : Option Json) : Json :=
  match (payload.getD .null).val "choices" with
  | .arr (choice :: _) => choice.val "message"
  | _ => .null

/-- The text of a content, which a value of another kind has none of, and its other parts. -/
structure Said where
  text : Option String
  parts : List Json
deriving DecidableEq

def isTextPart (part : Json) : Bool := part.val "type" = .str "text"

def said : Json → Said
  | .str s => ⟨some s, []⟩
  | .arr blocks => match Json.textParts blocks with
    | .ok texts => ⟨some (" ".intercalate texts), blocks.filter fun b => !isTextPart b⟩
    | .error _ => ⟨some "", blocks⟩
  | content => if content.truthy then ⟨none, [content]⟩ else ⟨some "", []⟩

def contentOf (payload : Option Json) : Said := said ((messageOf payload).val "content")

structure ToolCall where
  name : Json
  arguments : Json

section Answers

variable (lower : Text → Text) (loads : Text → Option Json)

def argumentsOf (function : Json) : Json :=
  match function.val "arguments" with
  | .str s => (loads s.toList).getD (.str s)
  | arguments => arguments

def callsOf (payload : Option Json) : List ToolCall :=
  match (messageOf payload).val "tool_calls" with
  | .arr calls => calls.map fun call =>
    ⟨(call.val "function").val "name", argumentsOf loads (call.val "function")⟩
  | _ => []

def SameCalls (incumbent candidate : Option Json) : Prop :=
  List.Forall₂ (fun a b => a.name = b.name ∧ sameValue b.arguments a.arguments = true)
    (callsOf loads incumbent) (callsOf loads candidate)

def SameText (a b : Said) : Prop :=
  a.text.map (fun t => normalize lower t.toList) = b.text.map (fun t => normalize lower t.toList) ∧
    a.parts = b.parts

def jsonOf (a : Said) : Option Json := a.text.bind fun t => loads t.toList

def DemandsJson (s : ReplaySample) : Prop :=
  responseFormatJson (field "response_format" s.requestParams) = .ok true

/-- The same tool calls, and the same text, the same JSON value or, where JSON is demanded and the
incumbent gave none, some JSON. -/
structure SameAnswer (s : ReplaySample) (incumbent candidate : Option Json) : Prop where
  calls : SameCalls loads incumbent candidate
  content : SameText lower (contentOf incumbent) (contentOf candidate) ∨
    (∃ x y, jsonOf loads (contentOf incumbent) = some x ∧
      jsonOf loads (contentOf candidate) = some y ∧ sameValue y x = true) ∨
    (DemandsJson s ∧ jsonOf loads (contentOf incumbent) = none ∧
      (jsonOf loads (contentOf candidate)).isSome = true)

/-- The score of a pair of payloads. -/
def scorePayloads (s : ReplaySample) (incumbent candidate : Option Json) :
    Py (Scorer × ℚ × Option Bool) := do
  let cand ← assistantText candidate
  let inc ← assistantText incumbent
  scoreSample lower loads s inc cand

/-- What a pass does not see: other tool calls; a boolean for a number in a JSON answer; a `null`
that was no JSON answer; another part beside a text that is compared. -/
inductive Overlooked (s : ReplaySample) (incumbent candidate : Option Json) : Prop where
  | calls (h : ¬SameCalls loads incumbent candidate)
  | boolean (x y : Json) (hx : jsonOf loads (contentOf incumbent) = some x)
      (hy : jsonOf loads (contentOf candidate) = some y) (hmixes : mixes y x = true)
      (htext : ¬SameText lower (contentOf incumbent) (contentOf candidate))
  | null (hdemands : DemandsJson s) (hnull : jsonOf loads (contentOf incumbent) = some .null)
      (htext : ¬SameText lower (contentOf incumbent) (contentOf candidate))
  | parts (hfree : ¬DemandsJson s) (hplain : ∀ x ∈ jsonOf loads (contentOf incumbent), x = .null)
      (hnull : ¬(jsonOf loads (contentOf incumbent) = some .null ∧
        jsonOf loads (contentOf candidate) = some .null))
      (hparts : (contentOf incumbent).parts ≠ (contentOf candidate).parts)

end Answers

/-! ## What the text keeps -/

def textOf : Json → Option String
  | .str t => some t
  | _ => none

theorem said_orElse {content : Json} (h : ∀ blocks, content ≠ .arr blocks) :
    (said content).text = textOf (content.orElse (.str "")) := by
  cases content with
  | str s =>
    rw [Json.str_orElse_empty]
    rfl
  | arr blocks => exact absurd rfl (h blocks)
  | _ =>
    rw [Json.orElse]
    simp only [said]
    split_ifs <;> rfl

theorem unread {payload : Json}
    (h : ∀ choice rest, payload.val "choices" ≠ .arr (choice :: rest)) :
    (contentOf (some payload)).text = some "" := by
  have hmessage : messageOf (some payload) = .null := by
    rw [messageOf, Option.getD_some]
    split
    · exact absurd ‹_› (h _ _)
    · rfl
  rw [contentOf, hmessage]
  rfl

theorem subscript_val {payload choices : Json} (h : payload.subscript "choices" = .ok choices) :
    payload.val "choices" = choices := by
  cases payload with
  | obj fields =>
    rw [Json.subscript] at h
    rw [Json.val_obj]
    split at h
    · rename_i v hv
      rw [hv]
      exact Except.ok.inj h
    · cases h
  | _ => cases h

theorem subscript_error {payload : Json} {e : Python.PyError}
    (h : payload.subscript "choices" = .error e) : payload.val "choices" = .null := by
  cases payload with
  | obj fields =>
    rw [Json.subscript] at h
    rw [Json.val_obj]
    split at h
    · cases h
    · rename_i hnone
      rw [hnone]
      rfl
  | _ => rfl

theorem message_read {choice message : Json}
    (h : choice.getD "message" (.obj []) = .ok message) (k : String) :
    (choice.val "message").val k = message.val k := by
  cases choice with
  | obj fields =>
    obtain rfl := Except.ok.inj h
    rw [Json.val_obj]
    cases Json.item "message" fields <;> rfl
  | _ => cases h

theorem attribute_error {message : Json} {e : Python.PyError} {k : String}
    (h : message.get k = .error e) : e = .attributeError := by
  cases message with
  | obj fields => cases h
  | _ => exact (Except.error.inj h).symm

theorem default_error {choice d : Json} {e : Python.PyError} {k : String}
    (h : choice.getD k d = .error e) : e = .attributeError := by
  cases choice with
  | obj fields => cases h
  | _ => exact (Except.error.inj h).symm

theorem content_read {payload choices choice message content : Json}
    (hchoices : payload.subscript "choices" = .ok choices) (hchoice : choices.head = .ok choice)
    (hmessage : choice.getD "message" (.obj []) = .ok message)
    (hcontent : message.get "content" = .ok content) : contentOf (some payload) = said content := by
  cases choices with
  | arr xs =>
    cases xs with
    | nil => cases hchoice
    | cons x xs =>
      obtain rfl := Except.ok.inj hchoice
      have hval : messageOf (some payload) = x.val "message" := by
        rw [messageOf, Option.getD_some, subscript_val hchoices]
      rw [contentOf, hval, message_read hmessage, Json.get_eq_ok hcontent]
  | str s =>
    rw [Json.head] at hchoice
    split at hchoice
    · obtain rfl := Except.ok.inj hchoice
      cases hmessage
    · cases hchoice
  | _ => cases hchoice

theorem content_returned {payload j : Json} (h : messageContent payload = .ok j) :
    (contentOf (some payload)).text = textOf j := by
  obtain ⟨choices, hchoices, h⟩ := Py.bind_eq_ok.1 h
  obtain ⟨choice, hchoice, h⟩ := Py.bind_eq_ok.1 h
  obtain ⟨message, hmessage, h⟩ := Py.bind_eq_ok.1 h
  obtain ⟨content, hcontent, h⟩ := Py.bind_eq_ok.1 h
  rw [content_read hchoices hchoice hmessage hcontent]
  split at h
  · obtain ⟨texts, htexts, h⟩ := Py.bind_eq_ok.1 h
    obtain rfl := Except.ok.inj h
    rw [said, htexts]
    rfl
  · rename_i hne
    obtain rfl := Except.ok.inj h
    exact said_orElse hne

theorem content_raised {payload : Json} {e : Python.PyError}
    (h : messageContent payload = .error e) (he : e ≠ .attributeError) :
    (contentOf (some payload)).text = some "" := by
  rw [messageContent] at h
  cases hchoices : payload.subscript "choices" with
  | error e' =>
    refine unread fun choice rest hval => ?_
    rw [subscript_error hchoices] at hval
    cases hval
  | ok choices =>
    rw [hchoices, Py.bind_ok] at h
    cases hchoice : choices.head with
    | error e' =>
      refine unread fun choice rest hval => ?_
      rw [subscript_val hchoices] at hval
      rw [hval] at hchoice
      cases hchoice
    | ok choice =>
      rw [hchoice, Py.bind_ok] at h
      cases hmessage : choice.getD "message" (.obj []) with
      | error e' =>
        rw [hmessage] at h
        obtain rfl := Except.error.inj h
        exact absurd (default_error hmessage) he
      | ok message =>
        rw [hmessage, Py.bind_ok] at h
        cases hcontent : message.get "content" with
        | error e' =>
          rw [hcontent] at h
          obtain rfl := Except.error.inj h
          exact absurd (attribute_error hcontent) he
        | ok content =>
          rw [hcontent, Py.bind_ok] at h
          rw [content_read hchoices hchoice hmessage hcontent]
          split at h
          · rename_i blocks
            cases htexts : Json.textParts blocks with
            | error e' =>
              rw [said, htexts]
            | ok texts =>
              rw [htexts] at h
              cases h
          · cases h

theorem falsy_val {payload : Json} (h : payload.truthy = false) (k : String) :
    payload.val k = .null := by
  cases payload with
  | obj fields =>
    cases fields with
    | nil => rfl
    | cons f fields => cases h
  | _ => rfl

theorem text_read {payload : Option Json} {j : Json} (h : assistantText payload = .ok j) :
    (contentOf payload).text = textOf j := by
  rw [assistantText] at h
  cases payload with
  | none =>
    obtain rfl := Except.ok.inj h
    rfl
  | some payload =>
    cases htruthy : payload.truthy with
    | false =>
      rw [Option.filter_some, if_neg (by simp [htruthy])] at h
      obtain rfl := Except.ok.inj h
      refine unread fun choice rest hval => ?_
      rw [falsy_val htruthy] at hval
      cases hval
    | true =>
      rw [Option.filter_some, if_pos htruthy] at h
      dsimp only at h
      split at h
      · cases h
      · cases h
      · rename_i hattribute _ hraised
        obtain rfl := Except.ok.inj h
        exact content_raised hraised hattribute
      · rename_i hreturned
        obtain rfl := Except.ok.inj h
        exact content_returned hreturned

/-! ## What a pass has seen -/

variable {lower : Text → Text} {loads : Text → Option Json} {s : ReplaySample}
  {incumbent candidate : Option Json} {score : ℚ}

theorem asJson_eq {payload : Option Json} {j : Json} (h : assistantText payload = .ok j) :
    asJson loads j = (jsonOf loads (contentOf payload)).filter (· ≠ .null) := by
  rw [jsonOf, text_read h]
  cases j <;> rfl

theorem normalizeAnswer_eq {payload : Option Json} {j : Json} {t : Text}
    (h : assistantText payload = .ok j) (ht : normalizeAnswer lower j = .ok t) :
    (contentOf payload).text.map (fun t => normalize lower t.toList) = some t := by
  rw [text_read h]
  cases j with
  | str s =>
    obtain rfl := Except.ok.inj ht
    rfl
  | _ => cases ht

/-- A pair that passes: JSON is demanded and there, and equal where the incumbent has some; equal
JSON; or equal texts. -/
inductive Passed (lower : Text → Text) (loads : Text → Option Json) (s : ReplaySample)
    (incumbent candidate : Option Json) : Prop where
  | demanded (y : Json) (hdemands : DemandsJson s)
      (hy : jsonOf loads (contentOf candidate) = some y) (hne : y ≠ .null)
      (heq : ∀ x ∈ jsonOf loads (contentOf incumbent), x ≠ .null → y.pyEq x = true)
  | structured (x y : Json) (hfree : ¬DemandsJson s)
      (hx : jsonOf loads (contentOf incumbent) = some x)
      (hy : jsonOf loads (contentOf candidate) = some y) (hne : x ≠ .null) (heq : y.pyEq x = true)
  | text (hfree : ¬DemandsJson s) (hplain : ∀ x ∈ jsonOf loads (contentOf incumbent), x = .null)
      (htext : (contentOf incumbent).text.map (fun t => normalize lower t.toList) =
        (contentOf candidate).text.map fun t => normalize lower t.toList)

theorem graded_pass {ok : Bool} {scorer : Scorer}
    (h : graded .objective ok = (scorer, score, some true)) : ok = true :=
  Option.some.inj (Prod.mk.inj (Prod.mk.inj h).2).2

theorem filter_null {y : Json} {a : Option Json} (h : a.filter (· ≠ .null) = some y) :
    a = some y ∧ y ≠ .null := by
  obtain ⟨ha, hy⟩ := Option.filter_eq_some_iff.1 h
  exact ⟨ha, by simpa using hy⟩

theorem text_passed {inc cand : Json} (hinc : assistantText incumbent = .ok inc)
    (hcand : assistantText candidate = .ok cand)
    (h : scoreText lower inc cand = .ok (.objective, score, some true)) :
    (contentOf incumbent).text.map (fun t => normalize lower t.toList) =
      (contentOf candidate).text.map fun t => normalize lower t.toList := by
  obtain ⟨i, hi, h⟩ := Py.bind_eq_ok.1 h
  split_ifs at h
  · obtain ⟨c, hc, h⟩ := Py.bind_eq_ok.1 h
    have heq : c = i := of_decide_eq_true (graded_pass (Except.ok.inj h))
    rw [normalizeAnswer_eq hinc hi, normalizeAnswer_eq hcand hc, heq]
  · cases Except.ok.inj h

theorem passed_of_score
    (h : scorePayloads lower loads s incumbent candidate = .ok (.objective, score, some true)) :
    Passed lower loads s incumbent candidate := by
  obtain ⟨cand, hcand, h⟩ := Py.bind_eq_ok.1 h
  obtain ⟨inc, hinc, h⟩ := Py.bind_eq_ok.1 h
  rw [scoreSample] at h
  split at h
  · obtain ⟨_, -, h⟩ := Py.bind_eq_ok.1 h
    cases Except.ok.inj h
  · obtain ⟨wantsJson, hwants, h⟩ := Py.bind_eq_ok.1 h
    have hi : asJson loads inc = _ := asJson_eq hinc
    have hc : asJson loads cand = _ := asJson_eq hcand
    rw [scoreStructured, hi, hc] at h
    cases wantsJson with
    | true =>
      have hpass := graded_pass (Except.ok.inj h)
      obtain ⟨y, hy, hall⟩ := (Option.any_eq_true _ _).1 hpass
      obtain ⟨hy, hne⟩ := filter_null hy
      refine .demanded y hwants hy hne fun x hx hxne => ?_
      exact (Option.all_eq_true _ _).1 hall x (Option.filter_eq_some_iff.2 ⟨hx, by simpa using hxne⟩)
    | false =>
      have hfree : ¬DemandsJson s := fun hdemands => by
        rw [DemandsJson, hwants] at hdemands
        cases hdemands
      cases hx : (jsonOf loads (contentOf incumbent)).filter (· ≠ .null) with
      | some x =>
        rw [hx] at h
        have hpass := graded_pass (Except.ok.inj h)
        obtain ⟨y, hy, heq⟩ := (Option.any_eq_true _ _).1 hpass
        obtain ⟨hx, hne⟩ := filter_null hx
        exact .structured x y hfree hx (filter_null hy).1 hne heq
      | none =>
        rw [hx] at h
        refine .text hfree (fun x hx' => ?_) (text_passed hinc hcand h)
        rw [Option.filter_eq_none_iff] at hx
        simpa using hx x hx'

/-- A pass means the same answer exactly where nothing that differs was overlooked. -/
theorem same_answer_iff
    (h : scorePayloads lower loads s incumbent candidate = .ok (.objective, score, some true)) :
    SameAnswer lower loads s incumbent candidate ↔
      ¬Overlooked lower loads s incumbent candidate := by
  have hpassed := passed_of_score h
  constructor
  · rintro ⟨hcalls, hcontent⟩ hoverlooked
    cases hoverlooked with
    | calls hdiffer => exact hdiffer hcalls
    | boolean x y hx hy hmixes htext =>
      obtain hsame | ⟨x', y', hx', hy', hsame⟩ | ⟨-, hnone, -⟩ := hcontent
      · exact htext hsame
      · obtain rfl := Option.some.inj (hx.symm.trans hx')
        obtain rfl := Option.some.inj (hy.symm.trans hy')
        exact Bool.false_ne_true ((sameValue_iff.1 hsame).2.symm.trans hmixes)
      · cases hx.symm.trans hnone
    | null hdemands hnull htext =>
      obtain hsame | ⟨x, y, hx, hy, hsame⟩ | ⟨-, hnone, -⟩ := hcontent
      · exact htext hsame
      · obtain rfl := Option.some.inj (hx.symm.trans hnull)
        obtain rfl := sameValue_null.1 hsame
        cases hpassed with
        | demanded z _ hz hne _ => exact hne (Option.some.inj (hz.symm.trans hy))
        | structured _ _ hfree | text hfree => exact hfree hdemands
      · cases hnull.symm.trans hnone
    | parts hfree hplain hnull hparts =>
      obtain hsame | ⟨x, y, hx, hy, hsame⟩ | ⟨hdemands, -, -⟩ := hcontent
      · exact hparts hsame.2
      · obtain rfl := hplain x hx
        obtain rfl := sameValue_null.1 hsame
        exact hnull ⟨hx, hy⟩
      · exact hfree hdemands
  · intro hseen
    refine ⟨not_not.1 fun hcalls => hseen (.calls hcalls), ?_⟩
    by_cases htext : SameText lower (contentOf incumbent) (contentOf candidate)
    · exact .inl htext
    refine .inr ?_
    have hsame : ∀ {x y}, jsonOf loads (contentOf incumbent) = some x →
        jsonOf loads (contentOf candidate) = some y → y.pyEq x = true →
        sameValue y x = true := by
      intro x y hx hy heq
      refine sameValue_iff.2 ⟨heq, Bool.eq_false_iff.2 fun hmixes => ?_⟩
      exact hseen (.boolean x y hx hy hmixes htext)
    cases hpassed with
    | demanded y hdemands hy hne heq =>
      cases hx : jsonOf loads (contentOf incumbent) with
      | none => exact .inr ⟨hdemands, rfl, Option.isSome_iff_exists.2 ⟨y, hy⟩⟩
      | some x =>
        have hxne : x ≠ .null := fun hnull => hseen (.null hdemands (hnull ▸ hx) htext)
        exact .inl ⟨x, y, rfl, hy, hsame hx hy (heq x hx hxne)⟩
    | structured x y hfree hx hy hne heq => exact .inl ⟨x, y, hx, hy, hsame hx hy heq⟩
    | text hfree hplain hsaid =>
      have hparts : (contentOf incumbent).parts ≠ (contentOf candidate).parts :=
        fun hparts => htext ⟨hsaid, hparts⟩
      obtain ⟨hi, hc⟩ := not_not.1 fun hnull => hseen (.parts hfree hplain hnull hparts)
      exact .inl ⟨.null, .null, hi, hc, sameValue_null.2 rfl⟩

/-- What a run counts as a definite result of a sample is the score of its two payloads. -/
theorem scorePair_definite {w : Runner.World} {payload : Json} {scorer : Scorer} {ok : Bool}
    {winner : Option String}
    (h : Runner.scorePair w s payload = .ok (scorer, score, some ok, winner)) :
    scorePayloads w.lower w.loads s s.incumbentResponse (some payload) =
      .ok (scorer, score, some ok) := by
  obtain ⟨cand, hcand, h⟩ := Py.bind_eq_ok.1 h
  obtain ⟨inc, hinc, h⟩ := Py.bind_eq_ok.1 h
  obtain ⟨⟨scorer', score', obj⟩, hscored, h⟩ := Py.bind_eq_ok.1 h
  rw [scorePayloads, hcand, Py.bind_ok, hinc, Py.bind_ok, hscored]
  cases obj with
  | some ok' =>
    obtain ⟨rfl, rfl, hok, -⟩ : scorer' = scorer ∧ score' = score ∧ some ok' = some ok ∧
        none = winner := by simpa using Except.ok.inj h
    rw [hok]
  | none =>
    obtain ⟨_, -, h⟩ := Py.bind_eq_ok.1 h
    cases Except.ok.inj h

/-! ## Another tool call -/

def toolAnswer (name arguments : String) : Json :=
  .obj [("choices", .arr [.obj [("message", .obj [("role", .str "assistant"), ("content", .null),
    ("tool_calls", .arr [.obj [("type", .str "function"), ("function", .obj [("name", .str name),
      ("arguments", .str arguments)])]])])]])]

def toolSample (incumbent : Json) : ReplaySample where
  id := 1
  routeKey := "gpt-4o"
  source := .traffic
  requestMessages := .arr []
  requestParams := []
  incumbentResponse := some incumbent
  expectedOutput := none
  inputTokens := 10
  outputTokens := 5
  createdAt := 0

def toolLoads (t : Text) : Option Json :=
  if t = "\x7b\"city\":\"Paris\"\x7d".toList then some (.obj [("city", .str "Paris")])
  else if t = "\x7b\"id\":7\x7d".toList then some (.obj [("id", .int 7)])
  else none

def weather : Json := toolAnswer "get_weather" "\x7b\"city\":\"Paris\"\x7d"

def deletion : Json := toolAnswer "delete_account" "\x7b\"id\":7\x7d"

theorem weather_passes : scorePayloads id toolLoads (toolSample weather) (some weather)
    (some weather) = .ok (.objective, 0, some true) := by decide +kernel

/-- The incumbent's own answer is the same answer. -/
theorem weather_same : SameAnswer id toolLoads (toolSample weather) (some weather)
    (some weather) := by
  refine (same_answer_iff weather_passes).2 fun h => ?_
  cases h with
  | calls h => exact h (.cons ⟨rfl, by decide +kernel⟩ .nil)
  | boolean x y hx => cases hx
  | null hdemands => cases hdemands
  | parts _ _ _ hparts => exact hparts rfl

/-- Where the incumbent asked for the weather the candidate deletes an account, and passes. -/
theorem deletion_passes : scorePayloads id toolLoads (toolSample weather) (some weather)
    (some deletion) = .ok (.objective, 0, some true) ∧
    ¬SameAnswer id toolLoads (toolSample weather) (some weather) (some deletion) := by
  refine ⟨by decide +kernel, fun h => ?_⟩
  cases h.calls with
  | cons hcall => exact absurd hcall.1 (by decide +kernel)

end Varsten.Eval.AnswerParity
