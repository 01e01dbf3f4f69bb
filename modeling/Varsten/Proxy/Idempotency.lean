import Varsten.Proxy.BreakerAccounting
import Varsten.Proxy.OpenAIDialect

/-!
# One idempotency key, one body

The client's key goes upstream only with a request no lever changed. It then
accompanies the body the SDK would send exactly when the destination speaks the
client's dialect, the body needs no rewriting and no degradation model is tried.
-/

namespace Varsten.Proxy.Idempotency

open Python (Json Py PyError Runtime)
open Python.Json (item setItem item_setItem_self item_setItem_of_ne)
open Engine.RequestFacts (field)
open Providers (Adapter)
open Forward BreakerAccounting OpenAIDialect

/-! ## The sends of a run -/

section Sends

variable {σ : Type} {adapter : Adapter σ} {req : Request} {e : Effect}

theorem send_not_mem {log : List Effect} (h : sends log = 0) (he : Effect.isSend e = true) :
    e ∉ log := fun hm => List.countP_eq_zero.1 h e hm he

theorem mem_streamLoop {sent : Effect} (hs : Effect.isSend e = true) (net : Network) (n i : ℕ)
    (s : σ) : e ∈ (streamLoop adapter sent net n i s).1 ↔ e = sent := by
  induction n generalizing i s with
  | zero =>
    have hp := send_not_mem (streamPass_sends adapter false (net i) s) hs
    simp only [streamLoop, List.mem_cons, hp, or_false]
  | succ n ih =>
    have hp := send_not_mem (streamPass_sends adapter true (net i) s) hs
    rw [streamLoop]
    dsimp only
    split
    · simp only [List.cons_append, List.mem_cons, List.mem_append, hp, ih, false_or, or_self]
    · simp only [List.mem_cons, hp, or_false]

theorem mem_postLoop (sent : Effect) (net : Network) (n i : ℕ) :
    e ∈ (postLoop sent net n i).1 ↔ e = sent := by
  obtain ⟨k, hk⟩ := postLoop_log sent net n i
  simp [hk]

theorem not_mem_tail {record : Effect} {rest : List Effect} (hr : Effect.isSend record = false)
    (h : Bookkeeping rest) (hs : Effect.isSend e = true) : e ∉ record :: rest :=
  send_not_mem (by simp [(Bookkeeping.outcomes_eq h).2, hr]) hs

theorem mem_fallback {cfg : Resilience} {fbNet : Network} {rest : List Effect}
    (h : FallbackLog adapter cfg req fbNet rest) (hs : Effect.isSend e = true) :
    e ∈ rest ↔ ∃ fbModel wire,
      fallbackModel cfg.fallbackEnabled cfg.configuredFallback req.upstream = some fbModel ∧
      adapter.prepareRequest req.body fbModel false = .ok wire ∧
      e = send adapter req fbModel wire := by
  have hiff : ∀ {fbModel : String} {wire : Json},
      fallbackModel cfg.fallbackEnabled cfg.configuredFallback req.upstream = some fbModel →
      adapter.prepareRequest req.body fbModel false = .ok wire →
      (e = send adapter req fbModel wire ↔ ∃ m w,
        fallbackModel cfg.fallbackEnabled cfg.configuredFallback req.upstream = some m ∧
        adapter.prepareRequest req.body m false = .ok w ∧ e = send adapter req m w) := by
    intro fbModel wire hm hw
    constructor
    · intro he
      exact ⟨fbModel, wire, hm, hw, he⟩
    · intro hx
      obtain ⟨m, w, hm', hw', he⟩ := hx
      obtain rfl := Option.some.inj (hm.symm.trans hm')
      obtain rfl := Except.ok.inj (hw.symm.trans hw')
      exact he
  cases h with
  | unconfigured hm => simp [hm]
  | raised hm hw =>
    simp only [List.not_mem_nil, false_iff]
    intro hx
    obtain ⟨m, w, hm', hw', _⟩ := hx
    obtain rfl := Option.some.inj (hm.symm.trans hm')
    rw [hw] at hw'
    cases hw'
  | silent hm hw => rw [mem_postLoop, hiff hm hw]
  | answered hm hw hr hk tail =>
    rw [List.mem_append, mem_postLoop, or_iff_left (not_mem_tail rfl tail hs), hiff hm hw]

end Sends

/-- A degradation model is tried: the request does not stream and its primary failed. -/
def Degraded (w : World) (parsed : ParsedClientRequest) : Prop :=
  parsed.stream = false ∧ PrimaryFailed w.net w.cfg.retries ∧
    fallbackModel w.cfg.fallbackEnabled w.cfg.configuredFallback parsed.model ≠ none

/-- A forwarded request sends its primary wire and, degraded, the degradation model's. -/
theorem forwardResolved_sends {w : World} {inc : Incoming} {r : Resolved} {log : List Effect}
    (h : forwardResolved w inc r = .ok log) :
    let req := forwardRequest inc r.parsed r.opt
    let adapter := r.upstream.adapter w.rt
    ∃ wire, adapter.prepareRequest req.body req.upstream r.parsed.stream = .ok wire ∧
      ∀ e, Effect.isSend e = true → (e ∈ log ↔ e = send adapter req req.upstream wire ∨
        r.parsed.stream = false ∧ PrimaryFailed w.net w.cfg.retries ∧ ∃ fbModel fbWire,
          fallbackModel w.cfg.fallbackEnabled w.cfg.configuredFallback req.upstream =
            some fbModel ∧
          adapter.prepareRequest req.body fbModel false = .ok fbWire ∧
          e = send adapter req fbModel fbWire) := by
  intro req adapter
  unfold forwardResolved at h
  dsimp only at h
  cases hst : r.parsed.stream with
  | true =>
    rw [hst, if_pos rfl] at h
    obtain ⟨wire, rest, hw, hrest, rfl⟩ := streamThrough_log h
    refine ⟨wire, hw, fun e he => ?_⟩
    have ht := send_not_mem (Bookkeeping.outcomes_eq hrest).2 he
    rw [List.mem_append, mem_streamLoop he, or_iff_left ht]
    exact ⟨Or.inl, fun h => h.resolve_right (by simp)⟩
  | false =>
    rw [hst, if_neg (by simp)] at h
    obtain ⟨⟨log', reply⟩, hrun, hlog⟩ := Python.Py.bind_eq_ok.1 h
    obtain rfl := Except.ok.inj hlog
    obtain ⟨wire, rest, hw, ⟨hp, hrest, rfl⟩ | ⟨hp, hrest, rfl⟩⟩ :=
      forwardOnce_log hrun
    · refine ⟨wire, hw, fun e he => ?_⟩
      rw [List.mem_append, mem_postLoop, or_iff_left (not_mem_tail rfl hrest he)]
      exact ⟨Or.inl, fun h => h.resolve_right fun hd => hp hd.2.1⟩
    · refine ⟨wire, hw, fun e he => ?_⟩
      have hne : e ≠ .recordFailure := by
        rintro rfl
        cases he
      rw [List.mem_append, mem_postLoop, List.mem_cons, or_iff_right hne, mem_fallback hrest he]
      simp only [hp, true_and]
      rfl

/-! ## The wire of an unchanged request -/

/-- The request the client's SDK would send itself: the model it names and the items of its body;
the stream flag counts by its truth value, and not at all where the wire has none. -/
def SdkRequest (body : List (String × Json)) (model : String) (wire : Json) : Prop :=
  model = bodyModel body ∧ ∃ items, wire = .obj items ∧
    (∀ k, k ≠ "stream" → item k items = item k body) ∧
    ∀ flag, item "stream" items = some flag → flag.truthy = (field "stream" body).truthy

def usageOption : Json := .obj [("include_usage", .bool true)]

/-- The body needs no rewriting on its route. Gemini's wire has no place for any item of a chat
body, so there only a body without one is left as it is. -/
def SentAsIs : Endpoint → ParsedClientRequest → Prop
  | .chatCompletions, parsed => (∃ name, item "model" parsed.body = some (.str name)) ∧
      (parsed.stream = true → item "stream_options" parsed.body = some usageOption)
  | .geminiCompatible, parsed => item "contents" parsed.body = some (.arr []) ∧
      ∀ k, k ≠ "contents" → k ≠ "stream" → item k parsed.body = none

theorem openai_sdk_iff {fields : List (String × Json)} {stream : Bool} {wire : Json}
    (hs : stream = (field "stream" fields).truthy)
    (h : Providers.OpenAI.prepareRequest (.obj fields) (bodyModel fields) stream = .ok wire) :
    SdkRequest fields (bodyModel fields) wire ↔
      (∃ name, item "model" fields = some (.str name)) ∧
        (stream = true → item "stream_options" fields = some usageOption) := by
  have hmodel : item "model" fields = some (.str (bodyModel fields)) ↔
      ∃ name, item "model" fields = some (.str name) := by
    constructor
    · intro h
      exact ⟨_, h⟩
    · intro hx
      obtain ⟨name, h⟩ := hx
      simp [bodyModel, h]
  obtain rfl := Except.ok.inj h
  rw [← hmodel]
  constructor
  · intro hx
    obtain ⟨_, items, hi, hitems, _⟩ := hx
    obtain rfl := Json.obj.inj hi
    have hm := hitems "model" (by decide)
    cases stream with
    | true =>
      have ho := hitems "stream_options" (by decide)
      simp only [if_true, item_setItem_self] at ho
      simp only [if_true, item_setItem_of_ne (show "stream_options" ≠ "model" by decide),
        item_setItem_of_ne (show "stream" ≠ "model" by decide), item_setItem_self] at hm
      exact ⟨hm.symm, fun _ => ho.symm⟩
    | false =>
      simp only [Bool.false_eq_true, if_false,
        item_setItem_of_ne (show "stream" ≠ "model" by decide), item_setItem_self] at hm
      exact ⟨hm.symm, fun hc => by cases hc⟩
  · intro hx
    obtain ⟨hm, ho⟩ := hx
    refine ⟨rfl, _, rfl, fun k hk => ?_, fun flag hflag => ?_⟩
    · have hbase : item k (setItem "stream" (.bool stream)
          (setItem "model" (.str (bodyModel fields)) fields)) = item k fields := by
        rw [item_setItem_of_ne (Ne.symm hk)]
        by_cases hkm : k = "model"
        · rw [hkm, item_setItem_self, hm]
        · rw [item_setItem_of_ne (Ne.symm hkm)]
      split_ifs with hst
      · by_cases hko : k = "stream_options"
        · rw [hko, item_setItem_self, ho hst]
          rfl
        · rw [item_setItem_of_ne (Ne.symm hko), hbase]
      · exact hbase
    · have hst : item "stream" (if stream = true then setItem "stream_options"
          (.obj [("include_usage", .bool true)]) (setItem "stream" (.bool stream)
            (setItem "model" (.str (bodyModel fields)) fields))
          else setItem "stream" (.bool stream)
            (setItem "model" (.str (bodyModel fields)) fields)) = some (.bool stream) := by
        split_ifs
        · rw [item_setItem_of_ne (by decide), item_setItem_self]
        · rw [item_setItem_self]
      obtain rfl := Option.some.inj (hst.symm.trans hflag)
      exact hs

theorem item_optional_of_ne {k l : String} (h : k ≠ l) (v : Option Json)
    (rest : List (String × Json)) :
    item l (Providers.optionalItem k v ++ rest) = item l rest := by
  cases v with
  | none => rfl
  | some v => simp [Providers.optionalItem, item, h]

theorem gemini_wire_empty {rt : Runtime} {fields : List (String × Json)} {model : String}
    {stream : Bool} {wire : Json}
    (h : Providers.Gemini.prepareRequest rt (.obj fields) model stream = .ok wire)
    (hnone : ∀ k ∈ ["messages", "temperature", "max_tokens", "max_completion_tokens"],
      item k fields = none) :
    ∃ tools, wire = .obj (("contents", .arr []) :: Providers.optionalItem "tools"
        (if tools = [] then none else
          some (.arr [.obj [("functionDeclarations", .arr tools)]]))) ∧
      (((item "tools" fields).getD .null).orElse (.arr [])).iter.map
        (List.filterMap Providers.Gemini.toolDeclaration) = .ok tools := by
  obtain ⟨messages, hm, h⟩ := Python.Py.bind_eq_ok.1 h
  obtain rfl := Except.ok.inj hm
  rw [hnone "messages" (by simp)] at h
  obtain ⟨messages, hm, h⟩ := Python.Py.bind_eq_ok.1 h
  obtain rfl : [] = messages := Except.ok.inj hm
  obtain ⟨turns, ht, h⟩ := Python.Py.bind_eq_ok.1 h
  obtain rfl : [] = turns := Except.ok.inj ht
  obtain ⟨tools, ht, h⟩ := Python.Py.bind_eq_ok.1 h
  obtain rfl := Except.ok.inj ht
  obtain ⟨tools, ht, h⟩ := Python.Py.bind_eq_ok.1 h
  obtain rfl := Except.ok.inj h
  refine ⟨tools.filterMap Providers.Gemini.toolDeclaration, ?_, by rw [ht]; rfl⟩
  simp [Providers.Gemini.generationConfig, hnone, Providers.optionalItem, Json.orElse,
    Json.truthy]

theorem gemini_wire_keys {rt : Runtime} {fields items : List (String × Json)} {model : String}
    {stream : Bool}
    (h : Providers.Gemini.prepareRequest rt (.obj fields) model stream = .ok (.obj items))
    {k : String} (hk : k ∉ ["contents", "systemInstruction", "generationConfig", "tools"]) :
    item k items = none := by
  simp only [List.mem_cons, List.not_mem_nil, or_false, not_or] at hk
  obtain ⟨hc, hs, hg, ht⟩ := hk
  obtain ⟨_, -, h⟩ := Python.Py.bind_eq_ok.1 h
  obtain ⟨_, -, h⟩ := Python.Py.bind_eq_ok.1 h
  obtain ⟨_, -, h⟩ := Python.Py.bind_eq_ok.1 h
  obtain ⟨_, -, h⟩ := Python.Py.bind_eq_ok.1 h
  obtain ⟨_, -, h⟩ := Python.Py.bind_eq_ok.1 h
  obtain rfl := Json.obj.inj (Except.ok.inj h)
  rw [item, if_neg (Ne.symm hc), List.append_assoc, item_optional_of_ne (Ne.symm hs),
    item_optional_of_ne (Ne.symm hg), ← List.append_nil (Providers.optionalItem _ _),
    item_optional_of_ne (Ne.symm ht)]
  rfl

theorem gemini_is_obj {rt : Runtime} {body wire : Json} {model : String} {stream : Bool}
    (h : Providers.Gemini.prepareRequest rt body model stream = .ok wire) :
    ∃ items, wire = .obj items := by
  obtain ⟨_, -, h⟩ := Python.Py.bind_eq_ok.1 h
  obtain ⟨_, -, h⟩ := Python.Py.bind_eq_ok.1 h
  obtain ⟨_, -, h⟩ := Python.Py.bind_eq_ok.1 h
  obtain ⟨_, -, h⟩ := Python.Py.bind_eq_ok.1 h
  obtain ⟨_, -, h⟩ := Python.Py.bind_eq_ok.1 h
  exact ⟨_, (Except.ok.inj h).symm⟩

theorem no_tools_of_declared {tools : List Json} {fields : List (String × Json)}
    (h : item "tools" fields = some (.arr [.obj [("functionDeclarations", .arr tools)]]))
    (ht : (((item "tools" fields).getD .null).orElse (.arr [])).iter.map
        (List.filterMap Providers.Gemini.toolDeclaration) = .ok tools) : tools = [] := by
  rw [h] at ht
  exact (Except.ok.inj ht).symm

theorem gemini_sdk_iff {rt : Runtime} {parsed : ParsedClientRequest} {stream : Bool} {wire : Json}
    (h : Providers.Gemini.prepareRequest rt (.obj parsed.body) (bodyModel parsed.body) stream =
      .ok wire) :
    SdkRequest parsed.body (bodyModel parsed.body) wire ↔ SentAsIs .geminiCompatible parsed := by
  obtain ⟨items, rfl⟩ := gemini_is_obj h
  constructor
  · intro hx
    obtain ⟨_, items', hi, hitems, _⟩ := hx
    obtain rfl := Json.obj.inj hi
    have hnone : ∀ k ∉ ["contents", "systemInstruction", "generationConfig", "tools"],
        k ≠ "stream" → item k parsed.body = none := fun k hk hs => by
      rw [← hitems k hs, gemini_wire_keys h hk]
    obtain ⟨tools, hw, ht⟩ := gemini_wire_empty h (by
      intro k hk
      simp only [List.mem_cons, List.not_mem_nil, or_false] at hk
      rcases hk with rfl | rfl | rfl | rfl <;> exact hnone _ (by decide) (by decide))
    obtain rfl := Json.obj.inj hw
    have htools : tools = [] := by
      by_contra hne
      refine hne (no_tools_of_declared ?_ ht)
      rw [← hitems "tools" (by decide), if_neg hne]
      rfl
    subst htools
    constructor
    · rw [← hitems "contents" (by decide)]
      rfl
    · intro k hc hs
      rw [← hitems k hs, item, if_neg (Ne.symm hc)]
      rfl
  · intro hx
    obtain ⟨hcontents, hnone⟩ := hx
    obtain ⟨tools, hw, ht⟩ := gemini_wire_empty h (by
      intro k hk
      simp only [List.mem_cons, List.not_mem_nil, or_false] at hk
      rcases hk with rfl | rfl | rfl | rfl <;> exact hnone _ (by decide) (by decide))
    rw [hnone "tools" (by decide) (by decide)] at ht
    obtain rfl : [] = tools := Except.ok.inj ht
    obtain rfl := Json.obj.inj hw
    refine ⟨rfl, _, rfl, fun k hs => ?_, fun flag hf => ?_⟩
    · by_cases hc : k = "contents"
      · rw [hc, hcontents]
        rfl
      · rw [hnone k hc hs, item, if_neg (Ne.symm hc)]
        rfl
    · cases hf

theorem primary_sdk_iff {rt : Runtime} {endpoint : Endpoint} {parsed : ParsedClientRequest}
    {wire : Json} (hs : parsed.stream = (field "stream" parsed.body).truthy)
    (h : (endpoint.destination.adapter rt).prepareRequest (.obj parsed.body)
      (bodyModel parsed.body) parsed.stream = .ok wire) :
    SdkRequest parsed.body (bodyModel parsed.body) wire ↔ SentAsIs endpoint parsed := by
  cases endpoint with
  | chatCompletions => exact openai_sdk_iff hs h
  | geminiCompatible => exact @gemini_sdk_iff rt parsed parsed.stream wire h

theorem prepare_other_model {rt : Runtime} {endpoint : Endpoint} {body wire : Json}
    {model : String} {stream : Bool}
    (h : (endpoint.destination.adapter rt).prepareRequest body model stream = .ok wire)
    (other : String) :
    ∃ wire', (endpoint.destination.adapter rt).prepareRequest body other stream = .ok wire' := by
  cases endpoint with
  | chatCompletions =>
    cases body with
    | obj fields => exact ⟨_, rfl⟩
    | _ => cases h
  | geminiCompatible => exact ⟨wire, h⟩

/-! ## One body for one key -/

def KeyForwarded (inc : Incoming) (opt : OptimizationState) : Prop :=
  withIdempotency (forwardIdem inc.idempotencyKey opt) ≠ none

/-- Every send with the client's key is the SDK's request to the provider of the route, all of them
carry one wire, and none happens for a request that a lever changed. -/
structure OneBody (inc : Incoming) (r : Resolved) (log : List Effect) : Prop where
  sdk : ∀ provider model key wire, Effect.send provider model (some key) wire ∈ log →
    provider = inc.endpoint.destination.name ∧ SdkRequest r.parsed.body model wire
  same : ∀ provider model key wire provider' model' key' wire',
    Effect.send provider model (some key) wire ∈ log →
    Effect.send provider' model' (some key') wire' ∈ log → wire = wire'
  unchanged : (∃ provider model key wire, Effect.send provider model (some key) wire ∈ log) →
    Unchanged r.opt

theorem adapter_name (rt : Runtime) (p : Provider) : (p.adapter rt).provider = p.name := by
  cases p <;> rfl

theorem keyForwarded_unchanged {inc : Incoming} {opt : OptimizationState}
    (h : KeyForwarded inc opt) : Unchanged opt := by
  by_contra hu
  refine h ?_
  have : ¬ (opt.routedFrom = none ∧ (!opt.trimApplied) = true ∧ (!opt.compressionApplied) = true) :=
    fun hc => hu (by simpa [Unchanged] using hc)
  rw [forwardIdem, if_neg this]
  rfl

/-- A keyed request forwards its own body and model to the provider of its route. -/
theorem keyed_request {w : World} {inc : Incoming} {r : Resolved}
    (hr : resolveRequest w inc = .ok r) (hk : KeyForwarded inc r.opt) :
    r.upstream = inc.endpoint.destination ∧
      (forwardRequest inc r.parsed r.opt).body = .obj r.parsed.body ∧
      (forwardRequest inc r.parsed r.opt).upstream = bodyModel r.parsed.body := by
  obtain ⟨hup, hbody, hmodel⟩ := resolveRequest_unchanged hr (keyForwarded_unchanged hk)
  obtain ⟨-, hm, -⟩ := resolveRequest_parsed hr
  refine ⟨hup, congrArg Json.obj hbody, ?_⟩
  simp only [Request.upstream, forwardRequest, hmodel]
  split_ifs <;> exact hm

theorem fallbackModel_ne {enabled : Bool} {configured : Option String} {failed m : String}
    (h : fallbackModel enabled configured failed = some m) : m ≠ failed := by
  unfold fallbackModel at h
  split_ifs at h
  have := (Option.filter_eq_some_iff.1 h).2
  simp only [decide_eq_true_eq] at this
  exact this.2

theorem keyed_sends {w : World} {inc : Incoming} {r : Resolved} {log : List Effect}
    (hr : resolveRequest w inc = .ok r) (h : forwardResolved w inc r = .ok log)
    (hk : KeyForwarded inc r.opt) :
    ∃ key wire, withIdempotency (forwardIdem inc.idempotencyKey r.opt) = some key ∧
      (inc.endpoint.destination.adapter w.rt).prepareRequest (.obj r.parsed.body)
        (bodyModel r.parsed.body) r.parsed.stream = .ok wire ∧
      ∀ e, Effect.isSend e = true → (e ∈ log ↔
        e = .send inc.endpoint.destination.name (bodyModel r.parsed.body) (some key) wire ∨
        r.parsed.stream = false ∧ PrimaryFailed w.net w.cfg.retries ∧ ∃ fbModel fbWire,
          fallbackModel w.cfg.fallbackEnabled w.cfg.configuredFallback
            (bodyModel r.parsed.body) = some fbModel ∧
          (inc.endpoint.destination.adapter w.rt).prepareRequest (.obj r.parsed.body) fbModel
            false = .ok fbWire ∧
          e = .send inc.endpoint.destination.name fbModel (some key) fbWire) := by
  obtain ⟨hup, hbody, hmodel⟩ := keyed_request hr hk
  obtain ⟨key, hkey⟩ := Option.ne_none_iff_exists'.1 hk
  obtain ⟨wire, hw, hsends⟩ := forwardResolved_sends h
  have hsend : ∀ m x, send (r.upstream.adapter w.rt) (forwardRequest inc r.parsed r.opt) m x =
      .send inc.endpoint.destination.name m (some key) x := by
    intro m x
    have hid : (forwardRequest inc r.parsed r.opt).idempotencyKey =
      forwardIdem inc.idempotencyKey r.opt := rfl
    rw [send, hid, hkey, adapter_name, hup]
  simp only [hbody, hmodel, hsend] at hw hsends
  rw [hup] at hw hsends
  exact ⟨key, wire, hkey, hw, hsends⟩

/-- The key accompanies one body, the SDK's own, exactly when the body is sent as it is and no
degradation model is tried; a request that forwards no key meets this anyway. -/
theorem one_body_iff {w : World} {inc : Incoming} {r : Resolved} {log : List Effect}
    (hr : resolveRequest w inc = .ok r) (h : forwardResolved w inc r = .ok log) :
    OneBody inc r log ↔
      (KeyForwarded inc r.opt → SentAsIs inc.endpoint r.parsed ∧ ¬ Degraded w r.parsed) := by
  obtain ⟨-, hm, hst⟩ := resolveRequest_parsed hr
  constructor
  · intro hone hk
    obtain ⟨key, wire, -, hw, hsends⟩ := keyed_sends hr h hk
    have hprimary := hone.sdk _ _ _ _ ((hsends _ rfl).2 (Or.inl rfl))
    refine ⟨(primary_sdk_iff hst hw).1 hprimary.2, fun hd => ?_⟩
    obtain ⟨hs, hf, hne⟩ := hd
    obtain ⟨fbModel, hfb⟩ := Option.ne_none_iff_exists'.1 hne
    rw [hm] at hfb
    rw [hs] at hw
    obtain ⟨fbWire, hfbw⟩ := prepare_other_model hw fbModel
    have hsent := hone.sdk _ _ _ _
      ((hsends _ rfl).2 (Or.inr ⟨hs, hf, fbModel, fbWire, hfb, hfbw, rfl⟩))
    exact fallbackModel_ne hfb hsent.2.1
  · intro hcond
    by_cases hk : KeyForwarded inc r.opt
    · obtain ⟨hasis, hdeg⟩ := hcond hk
      obtain ⟨key, wire, -, hw, hsends⟩ := keyed_sends hr h hk
      have honly : ∀ provider model k x, Effect.send provider model (some k) x ∈ log →
          provider = inc.endpoint.destination.name ∧ model = bodyModel r.parsed.body ∧
            x = wire := by
        intro provider model k x hmem
        rcases (hsends _ rfl).1 hmem with he | ⟨hs, hf, fbModel, fbWire, hfb, -, -⟩
        · cases he
          exact ⟨rfl, rfl, rfl⟩
        · rw [← hm] at hfb
          exact absurd ⟨hs, hf, by rw [hfb]; exact Option.some_ne_none _⟩ hdeg
      constructor
      · intro provider model k x hmem
        obtain ⟨rfl, rfl, rfl⟩ := honly provider model k x hmem
        exact ⟨rfl, (primary_sdk_iff hst hw).2 hasis⟩
      · intro _ _ _ x _ _ _ y hx hy
        rw [(honly _ _ _ _ hx).2.2, (honly _ _ _ _ hy).2.2]
      · exact fun _ => keyForwarded_unchanged hk
    · obtain ⟨wire, -, hsends⟩ := forwardResolved_sends h
      have hnone : ∀ provider model k x, Effect.send provider model (some k) x ∉ log := by
        intro provider model k x hmem
        have hkey : (forwardRequest inc r.parsed r.opt).idempotencyKey =
          forwardIdem inc.idempotencyKey r.opt := rfl
        rcases (hsends _ rfl).1 hmem with he | ⟨-, -, fbModel, fbWire, -, -, he⟩
        all_goals
          rw [send, hkey] at he
          exact hk (ne_of_eq_of_ne (Effect.send.inj he).2.2.1.symm (Option.some_ne_none _))
      constructor
      · intro _ _ _ _ hx
        exact absurd hx (hnone _ _ _ _)
      · intro _ _ _ _ _ _ _ _ hx
        exact absurd hx (hnone _ _ _ _)
      · intro hx
        obtain ⟨_, _, _, _, hx⟩ := hx
        exact absurd hx (hnone _ _ _ _)

/-! ## The degradation model gets the key -/

def plainWorld (net fbNet : Network) : World where
  rt := ⟨fun _ => none, fun _ => "", fun _ => "None", fun _ => by decide⟩
  sha256 := fun _ => ""
  http := ⟨fun _ => some (.obj []), fun _ => ""⟩
  cfg := ⟨0, true, some "gpt-4o-mini"⟩
  hasKey := fun _ => true
  lookups := ⟨.ok none, .ok none, .ok none⟩
  net := net
  fbNet := fbNet

def keyedRequest : Incoming where
  endpoint := .chatCompletions
  body := .obj [("model", .str "gpt-4o"), ("messages", .arr [])]
  idempotencyKey := some "idem-1"
  optimizeEnabled := true
  storeCache := true
  cacheKey := "key"

/-- Every attempt is answered with `status` and an empty body. -/
def answering (status : ℕ) : Network := fun _ => ⟨some ⟨status, [], true⟩, true, true⟩

theorem one_body_iff_answered :
    ∃ r log, resolveRequest (plainWorld (answering 200) (answering 200)) keyedRequest = .ok r ∧
      forwardResolved (plainWorld (answering 200) (answering 200)) keyedRequest r = .ok log ∧
      (OneBody keyedRequest r log ↔ (KeyForwarded keyedRequest r.opt →
        SentAsIs .chatCompletions r.parsed ∧
          ¬ Degraded (plainWorld (answering 200) (answering 200)) r.parsed)) :=
  ⟨_, _, rfl, rfl, one_body_iff rfl rfl⟩

/-- The primary answers 503 and the degradation model is asked under the same key. -/
theorem degraded_body_keeps_key :
    ¬ ∀ r log, resolveRequest (plainWorld (answering 503) (answering 200)) keyedRequest = .ok r →
      forwardResolved (plainWorld (answering 503) (answering 200)) keyedRequest r = .ok log →
      OneBody keyedRequest r log := by
  intro h
  have hone := h _ _ rfl rfl
  have hsame := hone.same "openai" "gpt-4o" "idem-1" _ "openai" "gpt-4o-mini" "idem-1" _
    (List.mem_cons_self ..) (List.mem_cons_of_mem _ (List.mem_cons_of_mem _ (List.mem_cons_self ..)))
  revert hsame
  decide

end Varsten.Proxy.Idempotency
