import Varsten.Proxy.RendererShapes

/-!
# The streams that are rendered

The renderers of the native clients change their buffer only where they are fed, and close only
where they end. So the chunks of a whole stream are rendered where each of its payloads is.
-/

namespace Varsten.Proxy.RendererRuns

open Python (Json Py Gen Runtime Returns returns_ok)
open Python.Gen (Ensures)
open Python.Utf8 (Bytes Text)
open SseDecoder (feed feedAll openaiBlock openaiEvents)
open ClientRenderers
open Providers (CanonicalUsage)
open Providers.OpenAI (Slot)
open RendererShapes (payloadFits)

/-! ## Decoders that are fed -/

/-- A decoder that handles the events of each chunk returns where all the events fit. -/
theorem feed_returns {α σ ω : Type} (parse : Text → Option α) (loads : α → Option Json)
    {push : σ → Bytes → Gen ω σ} (bufferOf : σ → Text) (fits : Json → Bool)
    (hpush : ∀ s chunk, Returns (push s chunk).result ↔
      ((feed parse (bufferOf s) chunk).1.filterMap loads).all fits = true)
    (hbuffer : ∀ s chunk, Ensures (push s chunk) fun s' =>
      bufferOf s' = (feed parse (bufferOf s) chunk).2) (chunks : List Bytes) (s : σ) :
    Returns (Gen.fold push s chunks).result ↔
      ((feedAll parse (bufferOf s) chunks).filterMap loads).all fits = true := by
  induction chunks generalizing s with
  | nil => exact iff_of_true (returns_ok s) rfl
  | cons chunk chunks ih =>
    have hrest : ∀ s', (push s chunk).result = .ok s' → (Returns (Gen.fold push s' chunks).result ↔
        ((feedAll parse (feed parse (bufferOf s) chunk).2 chunks).filterMap loads).all fits =
          true) := by
      intro s' hs'
      rw [← hbuffer s chunk s' hs']
      exact ih s'
    rw [feedAll, List.filterMap_append, List.all_append, Bool.and_eq_true, Gen.fold,
      Gen.returns_bind_iff hrest, hpush]

/-! ## Anthropic clients -/

namespace Anthropic

open ClientRenderers.Anthropic

variable {rt : Runtime} {s₀ s : AnthropicRenderer}

/-- The buffer and the end of the stream are as they were. -/
def Kept (s₀ s : AnthropicRenderer) : Prop := s.buffer = s₀.buffer ∧ s.closed = s₀.closed

theorem start_kept (h : Kept s₀ s) (usage : CanonicalUsage) :
    Ensures (ensureMessageStart s usage) (Kept s₀) := .ite (.ok h) (.yield h)

theorem text_kept (h : Kept s₀ s) (text : String) : Ensures (emitText s text) (Kept s₀) := by
  refine .bind (start_kept h _) fun s h => ?_
  cases s.textBlockIndex with
  | some i => exact .yield h
  | none =>
    rintro s' hs'
    obtain rfl := Except.ok.inj hs'
    exact h

theorem closeText_kept (h : Kept s₀ s) : Ensures (closeTextBlock s) (Kept s₀) := by
  rw [closeTextBlock]
  cases s.textBlockIndex with
  | none => exact .ok h
  | some i => exact .yield h

theorem toolBlock_kept (h : Kept s₀ s) (i : ℤ) (slot : Slot) :
    Ensures (toolBlock rt s i slot) fun r => Kept s₀ r.1 := by
  rw [toolBlock]
  cases s.toolBlockIndexes.lookup i with
  | some b => exact .ok h
  | none => exact .bind_any fun event => .yield h

theorem fragment_kept (h : Kept s₀ s) (fragment : Json) :
    Ensures (emitFragment rt s fragment) (Kept s₀) := by
  refine .ite (.bind_any fun r => ?_) (.ok h)
  refine .bind (Q := fun r => Kept s₀ r.1) (toolBlock_kept ?_ _ _) fun b hb =>
    .ite (.ok hb) (.yield hb)
  exact h

theorem fragments_kept (h : Kept s₀ s) (fragments : List Json) :
    Ensures (emitToolCallFragments rt s fragments) (Kept s₀) :=
  .bind (start_kept h _) fun _ h => .bind (closeText_kept h) fun _ h =>
    .fold (fun _ fragment h => fragment_kept h fragment) h fragments

theorem delta_kept (h : Kept s₀ s) (delta : Json) :
    Ensures (handleDelta rt s delta) (Kept s₀) := by
  refine .bind_any fun r => .bind (.ite (start_kept h _) (.ok h)) fun s h => ?_
  refine .bind (.ite (text_kept h _) (.ok h)) fun s h => ?_
  split
  · exact fragments_kept h _
  · exact .ok h

theorem choice_kept (h : Kept s₀ s) (choice : Json) :
    Ensures (handleChoice rt s choice) (Kept s₀) := by
  cases choice with
  | obj fields =>
    refine delta_kept ?_ _
    exact h
  | _ => exact .ok h

theorem payload_kept (h : Kept s₀ s) (payload : Json) :
    Ensures (handlePayload rt s payload) (Kept s₀) := by
  refine .bind_any fun (model, choices) => .fold (fun _ choice h => choice_kept h choice) ?_ choices
  exact h

theorem push_kept (s : AnthropicRenderer) (chunk : Bytes) : Ensures (push rt s chunk) fun s' =>
    s'.buffer = (feed (openaiBlock rt.loads) s.buffer chunk).2 ∧ s'.closed = s.closed :=
  .fold (R := Kept { s with buffer := (feed (openaiBlock rt.loads) s.buffer chunk).2 })
    (fun _ payload h => payload_kept h payload) ⟨rfl, rfl⟩ _

theorem pushes_open (h : s.closed = false) (chunks : List Bytes) :
    Ensures (Gen.fold (push rt) s chunks) fun s' => s'.closed = false :=
  .fold (fun s chunk h s' hs' => (push_kept s chunk s' hs').2.trans h) h chunks

theorem returns_push (s : AnthropicRenderer) (chunk : Bytes) : Returns (push rt s chunk).result ↔
    (feed (openaiBlock rt.loads) s.buffer chunk).1.all payloadFits = true := by
  rw [List.all_eq_true]
  exact Gen.returns_fold (fun p => payloadFits p = true)
    (fun _ _ _ => RendererShapes.Anthropic.returns_payload) _

theorem returns_pushes (model : Json) (chunks : List Bytes) :
    Returns (Gen.fold (push rt) (.new model) chunks).result ↔
      (openaiEvents rt.loads chunks).all payloadFits = true := by
  rw [feed_returns (openaiBlock rt.loads) some AnthropicRenderer.buffer payloadFits,
    List.filterMap_some, openaiEvents]
  · rfl
  · intro s chunk
    rw [List.filterMap_some]
    exact returns_push s chunk
  · exact fun s chunk s' hs' => (push_kept s chunk s' hs').1

end Anthropic

/-! ## Gemini clients -/

namespace Gemini

open ClientRenderers.Gemini

variable {rt : Runtime} {s₀ s : GeminiRenderer}

def Kept (s₀ s : GeminiRenderer) : Prop := s.buffer = s₀.buffer ∧ s.closed = s₀.closed

theorem delta_kept (h : Kept s₀ s) (delta : Json) :
    Ensures (handleDelta rt s delta) (Kept s₀) := by
  refine .bind_any fun r => .bind (Q := Kept s₀) (.ite (.yield h) (.ok h)) fun s h => ?_
  split
  · exact .bind_any fun slots => .ok h
  · exact .ok h

theorem choice_kept (h : Kept s₀ s) (choice : Json) :
    Ensures (handleChoice rt s choice) (Kept s₀) := by
  cases choice with
  | obj fields =>
    refine delta_kept ?_ _
    exact h
  | _ => exact .ok h

theorem payload_kept (h : Kept s₀ s) (payload : Json) :
    Ensures (handlePayload rt s payload) (Kept s₀) := by
  refine .bind_any fun (model, choices) => .fold (fun _ choice h => choice_kept h choice) ?_ choices
  exact h

theorem push_kept (s : GeminiRenderer) (chunk : Bytes) : Ensures (push rt s chunk) fun s' =>
    s'.buffer = (feed (openaiBlock rt.loads) s.buffer chunk).2 ∧ s'.closed = s.closed :=
  .fold (R := Kept { s with buffer := (feed (openaiBlock rt.loads) s.buffer chunk).2 })
    (fun _ payload h => payload_kept h payload) ⟨rfl, rfl⟩ _

theorem pushes_open (h : s.closed = false) (chunks : List Bytes) :
    Ensures (Gen.fold (push rt) s chunks) fun s' => s'.closed = false :=
  .fold (fun s chunk h s' hs' => (push_kept s chunk s' hs').2.trans h) h chunks

theorem returns_push (s : GeminiRenderer) (chunk : Bytes) : Returns (push rt s chunk).result ↔
    (feed (openaiBlock rt.loads) s.buffer chunk).1.all payloadFits = true := by
  rw [List.all_eq_true]
  exact Gen.returns_fold (fun p => payloadFits p = true)
    (fun _ _ _ => RendererShapes.Gemini.returns_payload) _

theorem returns_pushes (model : Json) (chunks : List Bytes) :
    Returns (Gen.fold (push rt) (.new model) chunks).result ↔
      (openaiEvents rt.loads chunks).all payloadFits = true := by
  rw [feed_returns (openaiBlock rt.loads) some GeminiRenderer.buffer payloadFits,
    List.filterMap_some, openaiEvents]
  · rfl
  · intro s chunk
    rw [List.filterMap_some]
    exact returns_push s chunk
  · exact fun s chunk s' hs' => (push_kept s chunk s' hs').1

end Gemini

end Varsten.Proxy.RendererRuns
