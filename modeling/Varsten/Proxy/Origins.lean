import Varsten.Proxy.Idempotency
import Varsten.Proxy.Resolution

/-!
# Where a captured answer comes from

The last request a run had sent when it captured an answer: to a provider, a model, with a body.
-/

namespace Varsten.Proxy.Origins

open Python (Json Py Runtime)
open Providers (Adapter CanonicalCompletion)
open BreakerAccounting (Effect.isSend streamPass_sends)
open Forward OpenAIDialect Resolution

structure Origin where
  provider : String
  model : String
  wire : Json

def originOf (o : Option Origin) : Effect → Option Origin
  | .send provider model _ wire => some ⟨provider, model, wire⟩
  | _ => o

def answers : Option Origin → List Effect → List (Origin × CaptureArgs)
  | _, [] => []
  | some o, .capture args :: log => (o, args) :: answers (some o) log
  | o, e :: log => answers (originOf o e) log

section Logs

variable {σ : Type} {adapter : Adapter σ} {req : Request} {x : Origin}

theorem answers_cons {o : Option Origin} {e : Effect} (h : e.captured = none) (log : List Effect) :
    answers o (e :: log) = answers (originOf o e) log := by
  cases e with
  | capture args => exact absurd h (by simp [Effect.captured])
  | _ => cases o <;> rfl

theorem answers_recordSuccess (log : List Effect) :
    answers (some x) (.recordSuccess :: log) = answers (some x) log := rfl

theorem answers_capture (args : CaptureArgs) :
    answers (some x) [.capture args] = [(x, args)] := rfl

theorem answers_append {o : Option Origin} {sent : Effect} {pre : List Effect}
    (hcap : ∀ e ∈ pre, e.captured = none) (hsent : ∀ e ∈ pre, Effect.isSend e = true → e = sent)
    (hx : ∀ o, originOf o sent = some x) (hin : o = some x ∨ sent ∈ pre) (rest : List Effect) :
    answers o (pre ++ rest) = answers (some x) rest := by
  induction pre generalizing o with
  | nil =>
    obtain rfl := hin.resolve_right List.not_mem_nil
    rfl
  | cons e pre ih =>
    rw [List.forall_mem_cons] at hcap hsent
    rw [List.cons_append, answers_cons hcap.1]
    refine ih hcap.2 hsent.2 ?_
    by_cases he : Effect.isSend e = true
    · rw [hsent.1 he]
      exact .inl (hx o)
    · have hkeep : originOf o e = o := by
        cases e with
        | send => exact absurd rfl he
        | _ => rfl
      rw [hkeep]
      refine hin.imp_right fun hmem => ?_
      rcases List.mem_cons.1 hmem with rfl | hmem
      · refine absurd ?_ he
        cases sent with
        | send => rfl
        | _ => exact absurd (hx none) (by simp [originOf])
      · exact hmem

theorem capture_of_mem_answers {o : Option Origin} {log : List Effect} {a : Origin × CaptureArgs}
    (h : a ∈ answers o log) : Effect.capture a.2 ∈ log := by
  induction log generalizing o with
  | nil => exact absurd h List.not_mem_nil
  | cons e log ih =>
    cases hc : e.captured with
    | none =>
      rw [answers_cons hc] at h
      exact List.mem_cons_of_mem _ (ih h)
    | some args =>
      obtain rfl : e = .capture args := by
        cases e with
        | capture args' => exact congrArg Effect.capture (Option.some.inj hc)
        | _ => cases hc
      cases o with
      | none => exact List.mem_cons_of_mem _ (ih h)
      | some o =>
        rcases List.mem_cons.1 h with rfl | h
        · exact List.mem_cons_self
        · exact List.mem_cons_of_mem _ (ih h)

/-- An answer to the request itself, with its arguments, and not the degradation model's. -/
structure Primary (adapter : Adapter σ) (req : Request) (stream : Bool) (a : Origin × CaptureArgs) :
    Prop where
  asked : a.1.provider = adapter.provider ∧ a.1.model = req.upstream
  wire : adapter.prepareRequest req.body req.upstream stream = .ok a.1.wire
  body : a.2.body = req.body
  cacheModel : a.2.cacheModel = req.model
  cacheKey : a.2.cacheKey = req.cacheKey
  storeCache : a.2.storeCache = req.storeCache

theorem originOf_send (o : Option Origin) (model : String) (wire : Json) :
    originOf o (send adapter req model wire) = some ⟨adapter.provider, model, wire⟩ := rfl

theorem answers_postLoop {model : String} {wire : Json} {net : Network} {n : ℕ}
    (rest : List Effect) :
    answers none ((postLoop (send adapter req model wire) net n 0).1 ++ rest) =
      answers (some ⟨adapter.provider, model, wire⟩) rest := by
  obtain ⟨k, hk⟩ := postLoop_log (send adapter req model wire) net n 0
  rw [hk]
  refine answers_append (fun e he => ?_) (fun e he _ => List.eq_of_mem_replicate he)
    (fun o => originOf_send o model wire) (.inr (by simp)) rest
  rw [List.eq_of_mem_replicate he]
  rfl

theorem forwardFallback_unstored {http : BodyReader} {retries : ℕ} {fbModel : String}
    {net : Network} {args : CaptureArgs}
    (h : .capture args ∈ (forwardFallback adapter http retries req fbModel net).1) :
    args.storeCache = false := by
  unfold forwardFallback at h
  cases hw : adapter.prepareRequest req.body fbModel false with
  | error e =>
    rw [hw] at h
    exact absurd h List.not_mem_nil
  | ok wire =>
    rw [hw] at h
    obtain ⟨k, hk⟩ := postLoop_log (send adapter req fbModel wire) net retries 0
    have hpost : Effect.capture args ∉
        (postLoop (send adapter req fbModel wire) net retries 0).1 := by
      intro hmem
      rw [hk] at hmem
      exact absurd (List.eq_of_mem_replicate hmem) (by simp [send])
    dsimp only at h
    split at h
    · split_ifs at h
      · rcases List.mem_append.1 h with hmem | hmem
        · exact absurd hmem hpost
        · unfold answered at hmem
          split at hmem
          · simp only [List.mem_cons, reduceCtorEq, Effect.capture.injEq, List.not_mem_nil,
              or_false, false_or] at hmem
            rw [hmem]
            rfl
          · simp at hmem
      · exact absurd h hpost
    · exact absurd h hpost

theorem forwardFailed_unstored {http : BodyReader} {cfg : Resilience} {fbNet : Network}
    {posted : List Effect × Option Response} {args : CaptureArgs}
    (hposted : Effect.capture args ∉ posted.1)
    (h : .capture args ∈ (forwardFailed adapter http cfg req fbNet posted).1) :
    args.storeCache = false := by
  unfold forwardFailed at h
  dsimp only at h
  split at h
  · simp only [List.mem_append, hposted, List.mem_singleton, reduceCtorEq, or_self] at h
  · simp only [List.mem_append, hposted, List.mem_cons, reduceCtorEq, false_or] at h
    exact forwardFallback_unstored h

theorem forwardOnce_primary {http : BodyReader} {cfg : Resilience} {net fbNet : Network}
    {log : List Effect} {reply : Reply} {a : Origin × CaptureArgs}
    (h : forwardOnce adapter http cfg req net fbNet = .ok (log, reply))
    (ha : a ∈ answers none log) (hstore : a.2.storeCache = true) : Primary adapter req false a := by
  obtain ⟨wire, hw, h⟩ := Python.Py.bind_eq_ok.1 h
  obtain ⟨k, hk⟩ := postLoop_log (send adapter req req.upstream wire) net cfg.retries 0
  have hpost : ∀ args, Effect.capture args ∉
      (postLoop (send adapter req req.upstream wire) net cfg.retries 0).1 := by
    intro args hmem
    rw [hk] at hmem
    exact absurd (List.eq_of_mem_replicate hmem) (by simp [send])
  have hfailed : log = (forwardFailed adapter http cfg req fbNet
      (postLoop (send adapter req req.upstream wire) net cfg.retries 0)).1 → False := by
    rintro rfl
    rw [forwardFailed_unstored (hpost _) (capture_of_mem_answers ha)] at hstore
    cases hstore
  dsimp only at h
  split at h
  · split_ifs at h
    · obtain ⟨rfl, -⟩ := Prod.mk.inj (Except.ok.inj h)
      rw [answers_postLoop] at ha
      unfold answered at ha
      split at ha
      · rw [answers_recordSuccess, answers_capture, List.mem_singleton] at ha
        rw [ha]
        exact ⟨⟨rfl, rfl⟩, hw, rfl, rfl, rfl, rfl⟩
      · exact absurd ha (by simp [answers])
    · obtain ⟨rfl, -⟩ := Prod.mk.inj (Except.ok.inj h)
      rw [answers_postLoop] at ha
      exact absurd ha (by simp [answers])
    · exact (hfailed (congrArg Prod.fst (Except.ok.inj h)).symm).elim
  · exact (hfailed (congrArg Prod.fst (Except.ok.inj h)).symm).elim

theorem answers_streamLoop {wire : Json} {retries : ℕ} {net : Network} (rest : List Effect) :
    answers none ((streamLoop adapter (send adapter req req.upstream wire) net retries 0
        adapter.translator).1 ++ rest) =
      answers (some ⟨adapter.provider, req.upstream, wire⟩) rest := by
  have hcap := List.filterMap_eq_nil_iff.1 (@streamLoop_captures _ adapter
    (send adapter req req.upstream wire) rfl net retries 0 adapter.translator)
  refine answers_append hcap (fun e _ he => ?_) (fun o => originOf_send o req.upstream wire)
    (.inr ((Idempotency.mem_streamLoop rfl net retries 0 adapter.translator).2 rfl)) rest
  exact (Idempotency.mem_streamLoop he net retries 0 adapter.translator).1 ‹_›

theorem streamThrough_primary {retries : ℕ} {net : Network} {log : List Effect}
    {a : Origin × CaptureArgs} (h : streamThrough adapter retries req net = .ok log)
    (ha : a ∈ answers none log) : Primary adapter req true a := by
  have hcaptured : a.2 ∈ captures log :=
    List.mem_filterMap.2 ⟨_, capture_of_mem_answers ha, rfl⟩
  rw [streamThrough_captures h] at hcaptured
  obtain ⟨wire, rest, hw, hrest, rfl⟩ := streamThrough_log h
  rw [answers_streamLoop] at ha
  obtain ⟨result, hargs⟩ : ∃ result, a.2 = streamCaptureArgs adapter.provider req result := by
    split at hcaptured
    · exact absurd hcaptured List.not_mem_nil
    · split at hcaptured
      · next result _ => exact ⟨result, List.mem_singleton.1 hcaptured⟩
      · exact absurd hcaptured List.not_mem_nil
  cases hrest with
  | dropped => exact absurd ha List.not_mem_nil
  | captured args =>
    rw [answers_capture, List.mem_singleton] at ha
    have horigin : a.1 = ⟨adapter.provider, req.upstream, wire⟩ := congrArg Prod.fst ha
    exact ⟨by rw [horigin]; exact ⟨rfl, rfl⟩, by rw [horigin]; exact hw, by rw [hargs]; rfl,
      by rw [hargs]; rfl, by rw [hargs]; rfl, by rw [hargs]; rfl⟩

end Logs

/-! ## A request of the OpenAI dialect -/

section Requests

variable {w : World} {inc : Incoming} {r : Resolved} {log : List Effect}
  {a : Origin × CaptureArgs}

theorem forwardResolved_primary (h : forwardResolved w inc r = .ok log)
    (ha : a ∈ answers none log) (hstore : a.2.storeCache = true) :
    Primary (r.upstream.adapter w.rt) (forwardRequest inc r.parsed r.opt) r.parsed.stream a := by
  unfold forwardResolved at h
  dsimp only at h
  cases hst : r.parsed.stream with
  | true =>
    rw [hst, if_pos rfl] at h
    exact streamThrough_primary h ha
  | false =>
    rw [hst, if_neg (by simp)] at h
    obtain ⟨⟨log', reply⟩, hrun, hlog⟩ := Python.Py.bind_eq_ok.1 h
    obtain rfl := Except.ok.inj hlog
    exact forwardOnce_primary hrun ha hstore

def ownWire (w : World) (inc : Incoming) (parsed : ParsedClientRequest) : Py Json :=
  (inc.endpoint.destination.adapter w.rt).prepareRequest (.obj parsed.body) parsed.model
    parsed.stream

theorem Primary.provider (h : Primary (r.upstream.adapter w.rt)
    (forwardRequest inc r.parsed r.opt) r.parsed.stream a) : a.1.provider = r.upstream.name :=
  h.asked.1.trans (Idempotency.adapter_name w.rt r.upstream)

/-- An untreated request is answered by the model it names, and to what the client sent. -/
theorem Primary.untreated (hr : resolveRequest w inc = .ok r)
    (h : Primary (r.upstream.adapter w.rt) (forwardRequest inc r.parsed r.opt) r.parsed.stream a)
    (hu : Untreated w inc) : a.1.provider = inc.endpoint.destination.name ∧
      a.1.model = r.parsed.model ∧ ownWire w inc r.parsed = .ok a.1.wire := by
  obtain ⟨hfrom, hbody⟩ := hu r hr
  obtain ⟨hup, hmodel⟩ := (asksIncumbent_iff hr).2 hfrom
  have hwire := h.wire
  rw [hup, hmodel, show (forwardRequest inc r.parsed r.opt).body = .obj r.opt.body from rfl,
    hbody] at hwire
  exact ⟨by rw [h.provider, hup], h.asked.2.trans hmodel, hwire⟩

end Requests

/-! ## A greeting -/

def greeting : Incoming where
  endpoint := .chatCompletions
  body := .obj [("model", .str "gpt-4o"),
    ("messages", .arr [.obj [("role", .str "user"), ("content", .str "hi")]])]
  idempotencyKey := none
  optimizeEnabled := true
  storeCache := true
  cacheKey := "key"

def answeredBy (model : String) (route : Option RouteDecision) : World :=
  { Idempotency.plainWorld (Idempotency.answering 200) (Idempotency.answering 200) with
    http := ⟨fun _ => some (.obj [("model", .str model), ("choices", .arr [.obj
      [("finish_reason", .str "stop"), ("message", .obj [("content", .str "hello")])]])]),
      fun _ => ""⟩
    lookups := ⟨.ok route, .ok none, .ok none⟩ }

def toMini : RouteDecision := ⟨"gpt-4o-mini", "openai", false, .treatment⟩

end Varsten.Proxy.Origins
