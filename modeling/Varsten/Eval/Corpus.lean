import Varsten.Eval.Capture
import Varsten.Machine.Runs
import Varsten.Proxy.Capture
import Varsten.Proxy.Origins

/-!
# The replay corpus

The traffic samples of a project, over requests of the OpenAI dialect and what the policies and
draws made of each. Requests in the native dialects are never sampled. Beside a sample stand what
the client had asked for, and what was asked instead.
-/

namespace Varsten.Eval.Corpus

open Capture
open Engine.RequestFacts (field)
open Machine.Runs (steps)
open Proxy.Capture (qualityOk)
open Proxy.Forward (CaptureArgs)
open Proxy.OpenAIDialect
open Proxy.Origins
open Proxy.Resolution
open Python (Json Py)
open Python.Json (item setItem)
open Python.Utf8 (Text)

structure Stored where
  sample : ReplaySample
  client : ParsedClientRequest
  provider : String
  wire : Py Json
  origin : Origin

/-- The sample is of what the client sent, and of what the model it asked said to that. -/
structure Genuine (x : Stored) : Prop where
  messages : x.sample.requestMessages = field "messages" x.client.body
  params : x.sample.requestParams = capturedParams x.client.body
  incumbent : x.origin.provider = x.provider ∧ x.origin.model = x.sample.routeKey
  wire : x.wire = .ok x.origin.wire

/-- The tap at the end of `_capture`. -/
def tapped (loads : Text → Option Json) (tap : Tap) (args : CaptureArgs) : Option ReplaySample :=
  match qualityOk loads args, args.body with
  | .ok _, .obj body =>
    if args.storeCache && args.responsePayload.truthy then
      captureSample tap body args.responsePayload args.cacheModel args.usage.inputTokens
        args.usage.outputTokens
    else none
  | _, _ => none

def stored (w : World) (inc : Incoming) (tap : Tap) : List Stored :=
  match resolveRequest w inc with
  | .error _ => []
  | .ok r => match forwardResolved w inc r with
    | .error _ => []
    | .ok log => (answers none log).filterMap fun a =>
        (tapped w.rt.loads tap a.2).map fun s => {
          sample := s
          client := r.parsed
          provider := inc.endpoint.destination.name
          wire := ownWire w inc r.parsed
          origin := a.1 }

inductive Input where
  | request (w : World) (inc : Incoming) (tap : Tap)
  | evict (keep : ReplaySample → Bool)

def step (corpus : List Stored) : Input → List Stored
  | .request w inc tap => corpus ++ stored w inc tap
  | .evict keep => corpus.filter fun x => keep x.sample

/-- A request that is sampled is untreated. -/
def SamplesUntreated : Input → Prop
  | .request w inc tap => stored w inc tap ≠ [] → Untreated w inc
  | .evict _ => True

theorem tapped_eq_some {loads : Text → Option Json} {tap : Tap} {args : CaptureArgs}
    {s : ReplaySample} (h : tapped loads tap args = some s) : ∃ body, args.body = .obj body ∧
      args.storeCache = true ∧ s.requestMessages = field "messages" body ∧
      s.requestParams = capturedParams body ∧ s.routeKey = args.cacheModel := by
  unfold tapped at h
  split at h
  · next body _ hbody =>
    split_ifs at h with hstore
    rw [Bool.and_eq_true] at hstore
    exact ⟨_, hbody, hstore.1, (captureSample_eq_some h).1, (captureSample_eq_some h).2.1,
      (captureSample_eq_some h).2.2⟩
  · cases h

theorem mem_stored {w : World} {inc : Incoming} {tap : Tap} {x : Stored}
    (h : x ∈ stored w inc tap) : ∃ r a, resolveRequest w inc = .ok r ∧
      Primary (r.upstream.adapter w.rt) (forwardRequest inc r.parsed r.opt) r.parsed.stream a ∧
      x.sample.requestMessages = field "messages" r.opt.body ∧
      x.sample.requestParams = capturedParams r.opt.body ∧ x.sample.routeKey = r.parsed.model ∧
      x.client = r.parsed ∧ x.provider = inc.endpoint.destination.name ∧ x.origin = a.1 ∧
      x.wire = ownWire w inc r.parsed := by
  unfold stored at h
  cases hr : resolveRequest w inc with
  | error e =>
    rw [hr] at h
    exact absurd h List.not_mem_nil
  | ok r =>
    rw [hr] at h
    dsimp only at h
    cases hlog : forwardResolved w inc r with
    | error e =>
      rw [hlog] at h
      exact absurd h List.not_mem_nil
    | ok log =>
      rw [hlog] at h
      obtain ⟨a, ha, hx⟩ := List.mem_filterMap.1 h
      obtain ⟨s, hs, rfl⟩ := Option.map_eq_some_iff.1 hx
      obtain ⟨body, hbody, hstore, hmessages, hparams, hroute⟩ := tapped_eq_some hs
      have hprimary := forwardResolved_primary hlog ha hstore
      obtain rfl : body = r.opt.body := Json.obj.inj (hbody.symm.trans hprimary.body)
      exact ⟨r, a, rfl, hprimary, hmessages, hparams, hroute.trans hprimary.cacheModel, rfl, rfl,
        rfl, rfl⟩

theorem genuine_iff {w : World} {inc : Incoming} {tap : Tap} {x : Stored}
    (h : x ∈ stored w inc tap) : Genuine x ↔ Untreated w inc := by
  obtain ⟨r, a, hr, hprimary, hmessages, hparams, hroute, hclient, hprovider, horigin, hwire⟩ :=
    mem_stored h
  constructor
  · intro hg r' hr'
    obtain rfl := Except.ok.inj (hr.symm.trans hr')
    have hask := hg.incumbent
    rw [horigin, hprovider, hprimary.provider, hprimary.asked.2, hroute] at hask
    have hbody := hg.messages
    rw [hmessages, hclient] at hbody
    exact ⟨(asksIncumbent_iff hr).1 ⟨Provider.name_inj hask.1, hask.2⟩, body_of_messages hr hbody⟩
  · intro hu
    obtain ⟨hp, hm, hw⟩ := hprimary.untreated hr hu
    have hbody := (hu r hr).2
    exact ⟨by rw [hmessages, hbody, hclient], by rw [hparams, hbody, hclient],
      by rw [horigin, hprovider, hroute]; exact ⟨hp, hm⟩, by rw [hwire, horigin, hw]⟩

theorem step_genuine {corpus : List Stored} {i : Input} (h : ∀ x ∈ corpus, Genuine x) :
    (∀ x ∈ step corpus i, Genuine x) ↔ SamplesUntreated i := by
  cases i with
  | request w inc tap =>
    constructor
    · intro hall hne
      obtain ⟨x, hx⟩ := List.exists_mem_of_ne_nil _ hne
      exact (genuine_iff hx).1 (hall x (List.mem_append_right _ hx))
    · intro hcond x hx
      rcases List.mem_append.1 hx with hx | hx
      · exact h x hx
      · exact (genuine_iff hx).2 (hcond (List.ne_nil_of_mem hx))
  | evict keep => exact iff_of_true (fun x hx => h x (List.mem_filter.1 hx).1) trivial

/-- The corpus of a run holds genuine samples only exactly where every request that was sampled was
untreated. -/
theorem corpus_genuine_iff (run : List Input) :
    (∀ p ∈ steps step [] run, ∀ x ∈ step p.1 p.2, Genuine x) ↔
      ∀ p ∈ steps step [] run, SamplesUntreated p.2 := by
  have hrun := @Machine.Runs.steps_iff _ _ step (fun _ => True) (fun s => ∀ x ∈ s, Genuine x)
    (fun _ _ => True) (fun _ i => SamplesUntreated i) (fun _ _ => True) (fun _ _ _ _ => trivial)
    (fun _ _ _ _ hs => (and_iff_left trivial).trans (step_genuine hs)) run []
    trivial (fun _ hx => absurd hx List.not_mem_nil) (fun _ _ => trivial)
  simpa only [and_true] using hrun

/-! ## A route's treatment -/

def everyRequest : Tap := ⟨true, 0, 1, 1, 0, true⟩

def candidateSample : Input :=
  .request (answeredBy "gpt-4o-mini" (some toMini)) greeting everyRequest

/-- A sample for `gpt-4o` holds what `gpt-4o-mini` said. -/
theorem candidate_sampled :
    ∃ x ∈ step [] candidateSample,
      x.sample.routeKey = "gpt-4o" ∧ x.origin.model = "gpt-4o-mini" ∧ ¬ Genuine x := by
  have hmap : (step [] candidateSample).map
      (fun x => (x.sample.routeKey, x.origin.model)) = [("gpt-4o", "gpt-4o-mini")] := by
    decide +kernel
  obtain ⟨x, hx, he⟩ := List.mem_map.1
    (hmap ▸ List.mem_singleton_self ("gpt-4o", "gpt-4o-mini"))
  obtain ⟨hroute, hmodel⟩ := Prod.mk.inj he
  refine ⟨x, hx, hroute, hmodel, fun hg => ?_⟩
  have hsame := hg.incumbent.2
  rw [hroute, hmodel] at hsame
  exact absurd hsame (by decide)

end Varsten.Eval.Corpus
