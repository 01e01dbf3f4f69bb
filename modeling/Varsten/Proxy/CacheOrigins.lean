import Varsten.Machine.Runs
import Varsten.Proxy.CacheSoundness
import Varsten.Proxy.Capture
import Varsten.Proxy.Origins

/-!
# Where a served answer comes from

The cache rows of a project and the snapshots the process keeps of them, over probes and captures of
requests of the OpenAI dialect. Beside a row stand the client's request and what was asked instead.
A capture need not follow a miss: a request may have probed before another one stored.
-/

namespace Varsten.Proxy.CacheOrigins

open Cache (CacheEntry computeCacheKey keyed sortKeys)
open CacheSoundness (bodyModel_agree)
open Capture (CaptureWorld cacheEntry)
open Forward OpenAIDialect Resolution Origins
open Machine.Runs (steps final)
open Python (Json Py)

abbrev Body := List (String × Json)

structure Row where
  entry : CacheEntry
  client : ParsedClientRequest
  endpoint : Endpoint
  wire : Py Json
  origin : Origin

/-- The answer is of the model and provider that the request names, to what a client sent. -/
structure AskedFor (x : Row) (endpoint : Endpoint) (model : String) : Prop where
  model : x.origin.model = model
  provider : x.origin.provider = endpoint.destination.name
  wire : x.wire = .ok x.origin.wire

structure State where
  rows : List Row
  snapshots : String → Option Row

def State.entries (s : State) : List CacheEntry := s.rows.map (·.entry)

/-! ## Lookups -/

def getCached (now : ℚ) (cacheKey : String) (s : State) : Option Row :=
  s.rows.find? fun x => x.entry.cacheKey = cacheKey ∧ x.entry.live now

def getCachedSnapshot (now : ℚ) (cacheKey : String) (s : State) : Option Row :=
  ((s.snapshots cacheKey).filter (·.entry.live now)).or (getCached now cacheKey s)

/-- `distance` is that of the request's embedding, none for a row without one. -/
def semanticSearch (now : ℚ) (model : String) (distance : Row → Option ℚ) (threshold : ℚ)
    (s : State) : Option Row :=
  ((s.rows.filter fun x => x.entry.model = model && (distance x).isSome && x.entry.live now).argmin
    fun x => (distance x).getD 0).filter fun x => (distance x).any (· ≤ threshold)

/-- A request that looks into the caches its plan allows; `detached` is
`settings.proxy_capture_detached`. -/
structure Probe where
  endpoint : Endpoint
  body : Body
  now : ℚ
  detached : Bool
  exactAllowed : Bool
  semanticAllowed : Bool
  distance : Row → Option ℚ
  threshold : ℚ

section Steps

variable (digest : Json → String)

def Probe.exact (p : Probe) (s : State) : Option Row :=
  if !p.exactAllowed then none
  else if p.detached then getCachedSnapshot p.now (computeCacheKey digest p.body) s
  else getCached p.now (computeCacheKey digest p.body) s

/-- `_maybe_serve_openai_cache`: what is served. -/
def Probe.serve (p : Probe) (s : State) : Option Row :=
  (p.exact digest s).or
    (if p.semanticAllowed then
      semanticSearch p.now (bodyModel p.body) p.distance p.threshold s
    else none)

def State.probe (p : Probe) (s : State) : State :=
  match p.exact digest s with
  | some x =>
    if p.detached then
      { s with snapshots :=
          Function.update s.snapshots (computeCacheKey digest p.body) (some x) }
    else s
  | none => s

end Steps

/-! ## Captures -/

/-- `_capture`, which stores the row or leaves the cache. -/
def State.capture (cw : CaptureWorld) (s : State) (x : Row) (args : CaptureArgs) : State :=
  if (Capture.capture cw args s.entries).length = s.entries.length then s
  else ⟨s.rows ++ [x], Function.update s.snapshots x.entry.cacheKey (some x)⟩

def keyedRequest (digest : Json → String) (inc : Incoming) : Incoming :=
  { inc with cacheKey := match inc.body with
    | .obj body => computeCacheKey digest body
    | _ => "" }

def rowOf (w : World) (inc : Incoming) (cw : CaptureWorld) (parsed : ParsedClientRequest)
    (a : Origin × CaptureArgs) : Row :=
  ⟨cacheEntry cw a.2, parsed, inc.endpoint, ownWire w inc parsed, a.1⟩

/-- A request that is forwarded, and its captures. -/
def State.request (w : World) (inc : Incoming) (cw : CaptureWorld) (s : State) : State :=
  match resolveRequest w inc with
  | .error _ => s
  | .ok r => match forwardResolved w inc r with
    | .error _ => s
    | .ok log =>
      (answers none log).foldl (fun s a => s.capture cw (rowOf w inc cw r.parsed a) a.2) s

inductive Input where
  | probe (p : Probe)
  | request (w : World) (inc : Incoming) (cw : CaptureWorld)
  | purgeExpired (now : ℚ)
  | expire (keys : String → Bool)

def step (digest : Json → String) (s : State) : Input → State
  | .probe p => s.probe digest p
  | .request w inc cw => s.request w (keyedRequest digest inc) cw
  | .purgeExpired now => ⟨s.rows.filter (·.entry.live now), fun _ => none⟩
  | .expire keys => { s with snapshots := fun k => if keys k then none else s.snapshots k }

def empty : State := ⟨[], fun _ => none⟩

/-- What a step serves is what its request asks for. -/
def Serves (digest : Json → String) (s : State) : Input → Prop
  | .probe p => ∀ x, p.serve digest s = some x → AskedFor x p.endpoint (bodyModel p.body)
  | _ => True

def Input.body : Input → Option Body
  | .probe p => some p.body
  | .request _ inc _ => match inc.body with
    | .obj body => some body
    | _ => none
  | _ => none

/-- No two bodies have one key but such as agree on the keyed fields. -/
def CollisionFree (digest : Json → String) (run : List Input) : Prop :=
  ∀ i ∈ run, ∀ j ∈ run, ∀ b c, i.body = some b → j.body = some c →
    computeCacheKey digest b = computeCacheKey digest c →
      sortKeys (.obj (keyed b)) = sortKeys (.obj (keyed c))

/-- Each model is asked for at one endpoint, its `home`, and a request that stores its answer is
untreated. -/
def Orderly (home : String → Endpoint) (digest : Json → String) (s : State) (i : Input) : Prop :=
  match i with
  | .probe p => home (bodyModel p.body) = p.endpoint
  | .request w inc cw => s.request w (keyedRequest digest inc) cw ≠ s →
      Untreated w (keyedRequest digest inc) ∧
        ∀ body, inc.body = .obj body → home (bodyModel body) = inc.endpoint
  | _ => True

/-! ## The invariant -/

section Invariant

variable {B : Body → Prop} {home : String → Endpoint} {digest : Json → String} {s : State}

structure Row.Good (B : Body → Prop) (home : String → Endpoint) (digest : Json → String)
    (x : Row) : Prop where
  body : B x.client.body
  cacheKey : x.entry.cacheKey = computeCacheKey digest x.client.body
  model : x.entry.model = bodyModel x.client.body
  home : home (bodyModel x.client.body) = x.endpoint
  asked : AskedFor x x.endpoint (bodyModel x.client.body)

structure State.Good (B : Body → Prop) (home : String → Endpoint) (digest : Json → String)
    (s : State) : Prop where
  rows : ∀ x ∈ s.rows, x.Good B home digest
  snapshots : ∀ k x, s.snapshots k = some x → x.Good B home digest ∧ x.entry.cacheKey = k

def OneModel (B : Body → Prop) (digest : Json → String) : Prop :=
  ∀ b c, B b → B c → computeCacheKey digest b = computeCacheKey digest c → bodyModel b = bodyModel c

theorem bodyModel_of_sortKeys {b c : Body}
    (h : sortKeys (.obj (keyed b)) = sortKeys (.obj (keyed c))) : bodyModel b = bodyModel c :=
  bodyModel_agree ((@CacheSoundness.computeCacheKey_eq_iff Json (fun j => j)
    Function.injective_id b c).1 h "model" (by decide))

theorem getCached_good {now : ℚ} {cacheKey : String} {x : Row} (h : s.Good B home digest)
    (hx : getCached now cacheKey s = some x) :
    x.Good B home digest ∧ x.entry.cacheKey = cacheKey := by
  refine ⟨h.rows x (List.mem_of_find?_eq_some hx), ?_⟩
  have hkey := List.find?_some hx
  rw [decide_eq_true_eq] at hkey
  exact hkey.1

theorem exact_good {p : Probe} {x : Row} (h : s.Good B home digest)
    (hx : p.exact digest s = some x) :
    x.Good B home digest ∧ x.entry.cacheKey = computeCacheKey digest p.body := by
  unfold Probe.exact at hx
  split_ifs at hx
  · rw [getCachedSnapshot, Option.or_eq_some_iff] at hx
    rcases hx with hx | ⟨-, hx⟩
    · exact h.snapshots _ x (Option.filter_eq_some_iff.1 hx).1
    · exact getCached_good h hx
  · exact getCached_good h hx

theorem serve_asked {p : Probe} (h : s.Good B home digest) (hone : OneModel B digest)
    (hp : B p.body) (hhome : home (bodyModel p.body) = p.endpoint) :
    Serves digest s (.probe p) := by
  intro x hx
  have hmodel : x.Good B home digest ∧ bodyModel x.client.body = bodyModel p.body := by
    rw [Probe.serve, Option.or_eq_some_iff] at hx
    rcases hx with hx | ⟨-, hx⟩
    · obtain ⟨hgood, hkey⟩ := exact_good h hx
      exact ⟨hgood, hone _ _ hgood.body hp (hgood.cacheKey.symm.trans hkey)⟩
    · split_ifs at hx
      have hmem := List.argmin_mem (Option.filter_eq_some_iff.1 hx).1
      rw [List.mem_filter, Bool.and_eq_true, Bool.and_eq_true, decide_eq_true_eq] at hmem
      have hgood := h.rows x hmem.1
      exact ⟨hgood, hgood.model.symm.trans hmem.2.1.1⟩
  obtain ⟨hgood, hsame⟩ := hmodel
  have hasked := hgood.asked
  rw [← hgood.home, hsame, hhome] at hasked
  exact hasked

theorem update_good {snapshots : String → Option Row} {key : String} {x : Row}
    (h : ∀ k y, snapshots k = some y → y.Good B home digest ∧ y.entry.cacheKey = k)
    (hx : x.Good B home digest ∧ x.entry.cacheKey = key) (k : String) (y : Row)
    (hy : Function.update snapshots key (some x) k = some y) :
    y.Good B home digest ∧ y.entry.cacheKey = k := by
  by_cases hk : k = key
  · rw [hk] at hy ⊢
    rw [Function.update_self, Option.some.injEq] at hy
    rw [← hy]
    exact hx
  · rw [Function.update_of_ne hk] at hy
    exact h k y hy

theorem probe_good (h : s.Good B home digest) (p : Probe) :
    (s.probe digest p).Good B home digest := by
  unfold State.probe
  split
  · next x hx =>
    split_ifs
    · exact ⟨h.rows, update_good h.snapshots (exact_good h hx)⟩
    · exact h
  · exact h

theorem storeCache_of_capture {cw : CaptureWorld} {args : CaptureArgs} {rows : List CacheEntry}
    (h : Capture.capture cw args rows ≠ rows) : args.storeCache = true := by
  rw [Ne, Capture.capture_eq_self_iff, not_not] at h
  exact h.2.2.2.1

theorem capture_good {cw : CaptureWorld} {x : Row} {args : CaptureArgs}
    (h : s.Good B home digest) (hx : args.storeCache = true → x.Good B home digest) :
    (s.capture cw x args).Good B home digest := by
  unfold State.capture
  split_ifs with hlen
  · exact h
  · have hgood := hx (storeCache_of_capture fun he => hlen (by rw [he]))
    refine ⟨fun y hy => ?_, update_good h.snapshots ⟨hgood, rfl⟩⟩
    rcases List.mem_append.1 hy with hy | hy
    · exact h.rows y hy
    · rw [List.mem_singleton.1 hy]
      exact hgood

theorem rowOf_good {w : World} {inc : Incoming} {cw : CaptureWorld} {r : Resolved}
    {log : List Effect} {a : Origin × CaptureArgs}
    (hr : resolveRequest w (keyedRequest digest inc) = .ok r)
    (hlog : forwardResolved w (keyedRequest digest inc) r = .ok log) (ha : a ∈ answers none log)
    (hstore : a.2.storeCache = true) (hu : Untreated w (keyedRequest digest inc))
    (hb : B r.parsed.body) (hhome : home (bodyModel r.parsed.body) = inc.endpoint) :
    (rowOf w (keyedRequest digest inc) cw r.parsed a).Good B home digest := by
  obtain ⟨hbody, hmodel, -⟩ := resolveRequest_parsed hr
  have hp := forwardResolved_primary hlog ha hstore
  obtain ⟨hprovider, horigin, hwire⟩ := hp.untreated hr hu
  have hkey : (keyedRequest digest inc).cacheKey = computeCacheKey digest r.parsed.body := by
    rw [keyedRequest, show inc.body = .obj r.parsed.body from hbody]
  exact ⟨hb, hp.cacheKey.trans hkey, hp.cacheModel.trans hmodel, hhome,
    ⟨horigin.trans hmodel, hprovider, hwire⟩⟩

theorem request_good {w : World} {inc : Incoming} {cw : CaptureWorld} (h : s.Good B home digest)
    (hb : ∀ body, inc.body = .obj body → B body)
    (ho : Orderly home digest s (.request w inc cw)) :
    (s.request w (keyedRequest digest inc) cw).Good B home digest := by
  by_cases hsame : s.request w (keyedRequest digest inc) cw = s
  · rw [hsame]
    exact h
  · obtain ⟨hu, hhome⟩ := ho hsame
    unfold State.request
    split
    · exact h
    · next r hr =>
      split
      · exact h
      · next log hlog =>
        have hbody := (resolveRequest_parsed hr).1
        refine List.foldlRecOn (answers none log) _ h fun s hs a ha => capture_good hs fun hst => ?_
        exact rowOf_good hr hlog ha hst hu (hb _ hbody) (hhome _ hbody)

theorem step_good {i : Input} (h : s.Good B home digest) (hb : ∀ body, i.body = some body → B body)
    (ho : Orderly home digest s i) : (step digest s i).Good B home digest := by
  cases i with
  | probe p => exact probe_good h p
  | request w inc cw =>
    exact request_good h (fun body hbody => hb body (by simp [Input.body, hbody])) ho
  | purgeExpired now =>
    exact ⟨fun x hx => h.rows x (List.mem_filter.1 hx).1, fun k x hx => absurd hx (by simp [step])⟩
  | expire keys =>
    refine ⟨h.rows, fun k x hx => ?_⟩
    simp only [step] at hx
    split_ifs at hx
    exact h.snapshots k x hx

end Invariant

/-- Where each model has its endpoint and only untreated requests store their answers, every answer
that is served comes from the model and provider asked for, to what a client sent. -/
theorem served_asked_for {home : String → Endpoint} {digest : Json → String} {run : List Input}
    (hd : CollisionFree digest run)
    (h : ∀ p ∈ steps (step digest) empty run, Orderly home digest p.1 p.2) :
    ∀ p ∈ steps (step digest) empty run, Serves digest p.1 p.2 := by
  let B : Body → Prop := fun b => ∃ i ∈ run, i.body = some b
  have hone : OneModel B digest := by
    rintro b c ⟨i, hi, hb⟩ ⟨j, hj, hc⟩ hkey
    exact bodyModel_of_sortKeys (hd i hi j hj b c hb hc hkey)
  have hin := @Machine.Runs.input_of_steps _ _ (step digest) (fun i => i ∈ run) run empty
    fun _ hi => hi
  have hrun := @Machine.Runs.history _ _ (step digest)
    (fun past s => s.Good B home digest ∧ ∀ p ∈ past, Serves digest p.1 p.2)
    (fun s i => Orderly home digest s i ∧ i ∈ run)
    (fun past s i hc hq => by
      have hb : ∀ body, i.body = some body → B body := fun body hbody => ⟨i, hc.2, hbody⟩
      refine ⟨step_good hq.1 hb hc.1, fun p hp => ?_⟩
      rcases List.mem_append.1 hp with hp | hp
      · exact hq.2 p hp
      · rw [List.mem_singleton.1 hp]
        cases i with
        | probe q => exact serve_asked hq.1 hone (hb _ rfl) hc.1
        | _ => trivial)
    run empty [] ⟨⟨fun _ hx => absurd hx List.not_mem_nil, fun _ _ hx => absurd hx (by simp [empty])⟩,
      fun _ hp => absurd hp List.not_mem_nil⟩ fun p hp => ⟨h p hp, hin p hp⟩
  exact hrun.2

/-! ## A greeting, twice -/

def oneKey : Json → String := fun _ => "key"

def storing : CaptureWorld := ⟨fun _ => none, true, true, true, 0, 3600⟩

def again : Probe where
  endpoint := .chatCompletions
  body := [("model", .str "gpt-4o"),
    ("messages", .arr [.obj [("role", .str "user"), ("content", .str "hi")]])]
  now := 1
  detached := false
  exactAllowed := true
  semanticAllowed := false
  distance := fun _ => none
  threshold := 0

/-- The answer of a route's candidate is served to the next request for the incumbent. -/
theorem candidate_served : ∃ x, again.serve oneKey (step oneKey empty
      (.request (answeredBy "gpt-4o-mini" (some toMini)) greeting storing)) = some x ∧
    x.origin.model = "gpt-4o-mini" ∧ ¬ AskedFor x again.endpoint (bodyModel again.body) := by
  have hmap : (again.serve oneKey (step oneKey empty
      (.request (answeredBy "gpt-4o-mini" (some toMini)) greeting storing))).map
        (·.origin.model) = some "gpt-4o-mini" := by
    decide +kernel
  obtain ⟨x, hx, hmodel⟩ := Option.map_eq_some_iff.1 hmap
  refine ⟨x, hx, hmodel, fun ha => ?_⟩
  have hsame := ha.model
  rw [hmodel] at hsame
  exact absurd hsame (by decide)

def servedRun : List Input :=
  [.request (answeredBy "gpt-4o" none) greeting storing, .probe again]

theorem servedRun_body {i : Input} {b : Body} (hi : i ∈ servedRun) (hb : i.body = some b) :
    b = again.body := by
  simp only [servedRun, List.mem_cons, List.not_mem_nil, or_false] at hi
  rcases hi with rfl | rfl <;> exact (Option.some.inj hb).symm

theorem greeting_untreated :
    Untreated (answeredBy "gpt-4o" none) (keyedRequest oneKey greeting) := by
  intro r hr
  obtain ⟨r', hr', hfrom, hbody⟩ : ∃ r', resolveRequest (answeredBy "gpt-4o" none)
      (keyedRequest oneKey greeting) = .ok r' ∧ r'.opt.routedFrom = none ∧
        r'.opt.body = r'.parsed.body := ⟨_, rfl, rfl, rfl⟩
  obtain rfl := Except.ok.inj (hr.symm.trans hr')
  exact ⟨hfrom, hbody⟩

/-- The incumbent's own answer is served to the next request for it. -/
theorem incumbent_served : ∃ x, again.serve oneKey (step oneKey empty
      (.request (answeredBy "gpt-4o" none) greeting storing)) = some x ∧
    AskedFor x again.endpoint (bodyModel again.body) := by
  have hsome : (again.serve oneKey (step oneKey empty
      (.request (answeredBy "gpt-4o" none) greeting storing))).isSome = true := by
    decide +kernel
  obtain ⟨x, hx⟩ := Option.isSome_iff_exists.1 hsome
  have hrun := @served_asked_for (fun _ => .chatCompletions) oneKey servedRun (fun i hi j hj b c hb hc _ => by
      rw [servedRun_body hi hb, servedRun_body hj hc]) (fun p hp => by
      rcases List.mem_cons.1 hp with rfl | hp
      · exact fun _ => ⟨greeting_untreated, fun _ _ => rfl⟩
      · obtain rfl := List.mem_singleton.1 hp
        exact rfl)
  exact ⟨x, hx, hrun _ (List.mem_cons_of_mem _ (List.mem_singleton_self _)) x hx⟩

end Varsten.Proxy.CacheOrigins
