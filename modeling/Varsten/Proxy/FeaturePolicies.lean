import Varsten.Proxy.Ledger
import Varsten.Proxy.PolicyCaches

/-!
# Policies of a feature

A recommendation activates its policy under a route key, and a request resolves one under its own.
Features, workflows, request types and task types share the keys, which end after 128 characters,
and the policies of the default route are for every request.
-/

namespace Varsten.Proxy.FeaturePolicies

open BatchJobs (written)
open ControlPlane (Lever PolicyKey Recommendation Recommendations)
open Engine.RouteIdentity
open Ledger (RequestContext routeKeyFromContext)
open Machine.ReadThrough (Tagged Reads tagged_empty tagged_step tagged_serve)
open Machine.Runs (final)
open PolicyCaches
open Python.Utf8 (Text)

variable (lower : Text → Text) (recs : Recommendations)

/-! ## Activations -/

def routeOf (n : ℕ) : String := (recs n).elim defaultRoute (Recommendation.routeKey lower)

/-- An activation is given its recommendation, and has its route key from that. -/
def keyed : Operation → Operation
  | .activateRule id lever incumbent candidate _ n at_ =>
    .activateRule id lever incumbent candidate (routeOf lower recs n) n at_
  | .activateTrimPolicy id model _ n at_ =>
    .activateTrimPolicy id model (routeOf lower recs n) n at_
  | .activateCompressionPolicy id model _ artifact n at_ =>
    .activateCompressionPolicy id model (routeOf lower recs n) artifact n at_
  | o => o

def keyedInput : Input → Input
  | .perform t o => .perform t (keyed lower recs o)
  | i => i

/-- The state after a run of a project that begins without policies. -/
def after (c : Canary.Settings) (run : List Input) : State :=
  final (step c) (start []) (run.map (keyedInput lower recs))

/-! ## The rows -/

def Sourced (p : ProxyPolicy) : Prop :=
  ∀ n, p.source = some n → p.key.routeKey = routeOf lower recs n

structure Sound (rows : List ProxyPolicy) : Prop where
  sourced : ∀ p ∈ rows, Sourced lower recs p
  ids : (rows.map (·.id)).Nodup

def Extends (old new : List ProxyPolicy) : Prop :=
  ∀ p ∈ old, ∃ p' ∈ new, p'.id = p.id ∧ p'.key = p.key

/-- A write of a session that saw `view`. -/
inductive WriteOk (view : List ProxyPolicy) : Write → Prop where
  | insert (row : ProxyPolicy) (h : Sourced lower recs row) : WriteOk view (.insert row)
  | save (read new : ProxyPolicy) (hread : read ∈ view) (h : new.source = read.source ∨
      ∀ n, new.source = some n → read.key.routeKey = routeOf lower recs n) :
      WriteOk view (.save read new)

def Safe (rows : List ProxyPolicy) (writes : List Write) : Prop :=
  ∀ later, Sound lower recs later → Extends rows later →
    ∀ res, writes.foldlM Write.apply later = some res → Sound lower recs res

variable {lower recs} {a b rows later view : List ProxyPolicy} {w : Write} {writes : List Write}

theorem Extends.refl (rows : List ProxyPolicy) : Extends rows rows :=
  fun p hp => ⟨p, hp, rfl, rfl⟩

theorem Extends.trans {d : List ProxyPolicy} (h : Extends a b) (h' : Extends b d) :
    Extends a d := by
  intro p hp
  obtain ⟨p', hp', hid, hkey⟩ := h p hp
  obtain ⟨p'', hp'', hid', hkey'⟩ := h' p' hp'
  exact ⟨p'', hp'', hid'.trans hid, hkey'.trans hkey⟩

theorem saved_kept (read new p : ProxyPolicy) :
    (if p.id = read.id then read.save new p else p).id = p.id ∧
      (if p.id = read.id then read.save new p else p).key = p.key := by
  split_ifs
  · exact ⟨rfl, rfl⟩
  · exact ⟨rfl, rfl⟩

theorem saved_extends (read new : ProxyPolicy) (rows : List ProxyPolicy) :
    Extends rows (rows.map fun p => if p.id = read.id then read.save new p else p) :=
  fun p hp => ⟨_, List.mem_map_of_mem hp, saved_kept read new p⟩

theorem apply_extends (h : w.apply rows = some a) : Extends rows a := by
  cases w with
  | insert row =>
    rw [Write.apply] at h
    split_ifs at h
    obtain rfl := Option.some.inj h
    exact fun p hp => ⟨p, List.mem_append_left _ hp, rfl, rfl⟩
  | save read new =>
    obtain rfl := Option.some.inj h
    exact saved_extends read new rows

theorem writes_extend (h : writes.foldlM Write.apply rows = some a) : Extends rows a := by
  induction writes generalizing rows with
  | nil =>
    obtain rfl := Option.some.inj h
    exact .refl rows
  | cons w writes ih =>
    obtain ⟨next, hnext, h⟩ := Option.bind_eq_some_iff.1 h
    exact (apply_extends hnext).trans (ih h)

theorem commit_extends (writes : List Write) (rows : List ProxyPolicy) :
    Extends rows (commit writes rows) := by
  rw [commit]
  cases h : writes.foldlM Write.apply rows with
  | none => exact .refl rows
  | some a => exact writes_extend h

theorem apply_mono (h : Extends a b) {b' : List ProxyPolicy} (hb : w.apply b = some b') :
    ∃ a', w.apply a = some a' ∧ Extends a' b' := by
  cases w with
  | insert row =>
    rw [Write.apply] at hb
    split_ifs at hb with hfree
    obtain rfl := Option.some.inj hb
    have hfree' : ¬(a.any fun p => p.id = row.id || p.key = row.key) = true := by
      intro hany
      obtain ⟨p, hp, heq⟩ := List.any_eq_true.1 hany
      obtain ⟨p', hp', hid, hkey⟩ := h p hp
      exact hfree (List.any_eq_true.2 ⟨p', hp', by rwa [hid, hkey]⟩)
    refine ⟨a ++ [row], by rw [Write.apply, if_neg hfree'], fun p hp => ?_⟩
    rcases List.mem_append.1 hp with hp | hp
    · obtain ⟨p', hp', hkept⟩ := h p hp
      exact ⟨p', List.mem_append_left _ hp', hkept⟩
    · obtain rfl := List.mem_singleton.1 hp
      exact ⟨p, List.mem_append_right _ hp, rfl, rfl⟩
  | save read new =>
    obtain rfl := Option.some.inj hb
    refine ⟨_, rfl, fun p hp => ?_⟩
    obtain ⟨r, hr, rfl⟩ := List.mem_map.1 hp
    obtain ⟨r', hr', hid, hkey⟩ := h r hr
    refine ⟨_, List.mem_map_of_mem hr', ?_, ?_⟩
    · exact (saved_kept read new r').1.trans (hid.trans (saved_kept read new r).1.symm)
    · exact (saved_kept read new r').2.trans (hkey.trans (saved_kept read new r).2.symm)

theorem writes_mono (h : Extends a b) {b' : List ProxyPolicy}
    (hb : writes.foldlM Write.apply b = some b') :
    ∃ a', writes.foldlM Write.apply a = some a' ∧ Extends a' b' := by
  induction writes generalizing a b with
  | nil =>
    obtain rfl := Option.some.inj hb
    exact ⟨a, rfl, h⟩
  | cons w writes ih =>
    obtain ⟨next, hnext, hb⟩ := Option.bind_eq_some_iff.1 hb
    obtain ⟨a₁, ha₁, hext⟩ := apply_mono h hnext
    obtain ⟨a', ha', hext'⟩ := ih hext hb
    exact ⟨a', Option.bind_eq_some_iff.2 ⟨a₁, ha₁, ha'⟩, hext'⟩

theorem Sound.insert {row : ProxyPolicy} (h : Sound lower recs rows)
    (hrow : Sourced lower recs row) (hfree : ∀ p ∈ rows, p.id ≠ row.id) :
    Sound lower recs (rows ++ [row]) := by
  constructor
  · intro p hp
    rcases List.mem_append.1 hp with hp | hp
    · exact h.sourced p hp
    · exact List.mem_singleton.1 hp ▸ hrow
  · rw [List.map_append, List.nodup_append]
    refine ⟨h.ids, List.nodup_singleton _, ?_⟩
    rintro _ hid _ hnew rfl
    obtain ⟨p, hp, hpid⟩ := List.mem_map.1 hid
    exact hfree p hp (hpid.trans (List.mem_singleton.1 hnew))

theorem Sound.save {read new : ProxyPolicy} (h : Sound lower recs rows)
    (hkey : ∀ p ∈ rows, p.id = read.id → p.key = read.key) (hnew : new.source = read.source ∨
      ∀ n, new.source = some n → read.key.routeKey = routeOf lower recs n) :
    Sound lower recs (rows.map fun p => if p.id = read.id then read.save new p else p) := by
  constructor
  · intro p hp n hn
    obtain ⟨r, hr, rfl⟩ := List.mem_map.1 hp
    rw [(saved_kept read new r).2]
    split_ifs at hn with hid
    · by_cases hsame : new.source = read.source
      · have hsource : (read.save new r).source = r.source := if_pos hsame
        exact h.sourced r hr n (hsource.symm.trans hn)
      · have hsource : (read.save new r).source = new.source := if_neg hsame
        rw [hkey r hr hid]
        exact hnew.resolve_left hsame n (hsource.symm.trans hn)
    · exact h.sourced r hr n hn
  · rw [List.map_map]
    have hids : (fun p : ProxyPolicy => p.id) ∘
        (fun p => if p.id = read.id then read.save new p else p) = fun p => p.id :=
      funext fun p => (saved_kept read new p).1
    rw [hids]
    exact h.ids

theorem eq_of_id (h : (rows.map (·.id)).Nodup) {p p' : ProxyPolicy} (hp : p ∈ rows)
    (hp' : p' ∈ rows) (hid : p.id = p'.id) : p = p' :=
  List.inj_on_of_nodup_map h hp hp' hid

theorem Sound.apply (h : Sound lower recs rows) (hview : Extends view rows)
    (hw : WriteOk lower recs view w) (ha : w.apply rows = some a) : Sound lower recs a := by
  cases hw with
  | insert row hrow =>
    rw [Write.apply] at ha
    split_ifs at ha with hfree
    obtain rfl := Option.some.inj ha
    refine h.insert hrow fun p hp hid => hfree (List.any_eq_true.2 ⟨p, hp, ?_⟩)
    simp [hid]
  | save read new hread hnew =>
    obtain rfl := Option.some.inj ha
    obtain ⟨p', hp', hid', hkey'⟩ := hview read hread
    refine h.save (fun p hp hid => ?_) hnew
    rw [eq_of_id h.ids hp hp' (hid.trans hid'.symm), hkey']

theorem Sound.applyAll (h : Sound lower recs rows) (hview : Extends view rows)
    (hw : ∀ w ∈ writes, WriteOk lower recs view w) (ha : writes.foldlM Write.apply rows = some a) :
    Sound lower recs a := by
  induction writes generalizing rows with
  | nil =>
    obtain rfl := Option.some.inj ha
    exact h
  | cons w writes ih =>
    obtain ⟨next, hnext, ha⟩ := Option.bind_eq_some_iff.1 ha
    have hsound := h.apply hview (hw w List.mem_cons_self) hnext
    exact ih hsound (hview.trans (apply_extends hnext))
      (fun w' hw' => hw w' (List.mem_cons_of_mem w hw')) ha

/-! ## Transactions -/

theorem Safe.nil (rows : List ProxyPolicy) : Safe lower recs rows [] := by
  intro later hsound _ res hres
  obtain rfl := Option.some.inj hres
  exact hsound

theorem Safe.extend (h : Safe lower recs a writes) (hext : Extends a b) :
    Safe lower recs b writes :=
  fun later hsound hlater => h later hsound (hext.trans hlater)

theorem Safe.commit (h : Safe lower recs rows writes) (hsound : Sound lower recs rows) :
    Sound lower recs (commit writes rows) := by
  rw [PolicyCaches.commit]
  cases hres : writes.foldlM Write.apply rows with
  | none => exact hsound
  | some res => exact h rows hsound (.refl rows) res hres

theorem commit_seen (h : Extends rows later) (hres : writes.foldlM Write.apply later = some a) :
    Extends (commit writes rows) a := by
  obtain ⟨now, hnow, hext⟩ := writes_mono h hres
  rw [commit, hnow]
  exact hext

theorem Safe.append {more : List Write} (h : Safe lower recs rows writes)
    (hmore : ∀ w ∈ more, WriteOk lower recs (PolicyCaches.commit writes rows) w) :
    Safe lower recs rows (writes ++ more) := by
  intro later hsound hlater res hres
  rw [List.foldlM_append] at hres
  obtain ⟨mid, hmid, hres⟩ := Option.bind_eq_some_iff.1 hres
  exact (h later hsound hlater mid hmid).applyAll (commit_seen hlater hmid) hmore hres

/-! ## What operations write -/

variable {c : Canary.Settings}

theorem find_key {key : PolicyKey} {p : ProxyPolicy} (h : rows.find? (·.key = key) = some p) :
    p ∈ rows ∧ p.key = key :=
  ⟨List.mem_of_find?_eq_some h, by simpa using List.find?_some h⟩

theorem activate_ok {id n : ℕ} {key : PolicyKey} {at_ : ℚ}
    {params : List (String × Python.Json) → List (String × Python.Json)}
    (hkey : key.routeKey = routeOf lower recs n) :
    WriteOk lower recs rows (activate c rows id key params n at_) := by
  rw [activate]
  split
  · refine .insert _ fun m hm => ?_
    obtain rfl := Option.some.inj hm
    exact hkey
  · rename_i p hfind
    obtain ⟨hp, rfl⟩ := find_key hfind
    refine .save _ _ hp (.inr fun m hm => ?_)
    obtain rfl := Option.some.inj hm
    exact hkey

theorem setPolicy_ok {id : ℕ} {f : ProxyPolicy → Option ProxyPolicy} {clears : List Cache}
    (hf : ∀ p new, f p = some new → new.source = p.source) :
    ∀ w ∈ (setPolicy rows id f clears).writes, WriteOk lower recs rows w := by
  intro w hw
  rw [setPolicy] at hw
  split at hw
  · cases hw
  · rename_i p hfind
    split at hw
    · cases hw
    · rename_i new hnew
      obtain rfl := List.mem_singleton.1 hw
      exact .save _ _ (List.mem_of_find?_eq_some hfind) (.inl (hf p new hnew))

theorem activated_ok {write : Write} {clears : List Cache} (h : WriteOk lower recs rows write) :
    ∀ w ∈ (⟨[write], clears⟩ : Effect).writes, WriteOk lower recs rows w :=
  fun _ hw => List.mem_singleton.1 hw ▸ h

theorem none_ok : ∀ w ∈ Effect.none.writes, WriteOk lower recs rows w :=
  fun _ hw => absurd hw List.not_mem_nil

/-- Only an activation gives a row a source, and it finds the row under the key of that. -/
theorem effect_ok (o : Operation) :
    ∀ w ∈ ((keyed lower recs o).effect c rows).writes, WriteOk lower recs rows w := by
  cases o with
  | activateRule id lever incumbent candidate routeKey n at_ =>
    rw [keyed, Operation.effect]
    split_ifs
    · exact none_ok
    · exact activated_ok (activate_ok rfl)
  | activateTrimPolicy id model routeKey n at_ =>
    rw [keyed, Operation.effect]
    split_ifs
    · exact none_ok
    · exact activated_ok (activate_ok rfl)
  | activateCompressionPolicy id model routeKey artifact n at_ =>
    cases artifact with
    | none => exact none_ok
    | some artifact =>
      rw [keyed, Operation.effect]
      split_ifs
      · exact none_ok
      · exact activated_ok (activate_ok rfl)
  | deactivateExecution n =>
    intro w hw
    obtain ⟨p, hp, rfl⟩ := List.mem_map.1 hw
    exact .save _ _ (List.mem_of_mem_filter hp) (.inl rfl)
  | update cache id enabled holdbackPercent =>
    refine setPolicy_ok fun p new h => ?_
    split_ifs at h
    obtain rfl := Option.some.inj h
    rfl
  | recordRollback id =>
    refine setPolicy_ok fun p new h => ?_
    split_ifs at h
    obtain rfl := Option.some.inj h
    rfl
  | maybePromoteCanary id =>
    refine setPolicy_ok fun p new h => ?_
    split_ifs at h
    obtain ⟨target, -, rfl⟩ := Option.map_eq_some_iff.1 h
    rfl
  | adjustAdaptiveHoldback id proposed =>
    refine setPolicy_ok fun p new h => ?_
    split_ifs at h
    obtain rfl := Option.some.inj h
    rfl
  | addBanditCandidate id candidate provider run =>
    refine setPolicy_ok fun p new h => ?_
    dsimp only at h
    split_ifs at h
    obtain ⟨target, -, rfl⟩ := Option.map_eq_some_iff.1 h
    rfl
  | removeBanditCandidate id candidate =>
    refine setPolicy_ok fun p new h => ?_
    dsimp only at h
    split_ifs at h
    obtain rfl := Option.some.inj h
    rfl

/-! ## Lookups -/

/-- The recommendation that a resolved policy comes from. -/
def sourceOf : Snapshot → Option ℕ
  | .routing _ _ _ _ _ source _ _ _ => source
  | .trim _ _ _ source _ => source
  | .compression _ _ _ source _ => source

variable (lower recs) in
/-- What a lookup of a route finds comes from a recommendation of the route, or of the default. -/
def OfRoute (k : Key) (found : Option Snapshot) : Prop :=
  ∀ routeKey snap n, k.routeKey = some routeKey → routeKey ≠ "" → found = some snap →
    sourceOf snap = some n →
      routeOf lower recs n = routeKey ∨ routeOf lower recs n = defaultRoute

theorem sourceOf_snapshot (p : ProxyPolicy) (cache : Cache) :
    sourceOf (snapshot p cache) = p.source := by
  cases cache <;> rfl

theorem latest_mem {p : ProxyPolicy} (h : latest rows = some p) : p ∈ rows :=
  List.argmax_mem h

theorem exact_source (h : Sound lower recs rows) {k : Key} {routeKey : String} {snap : Snapshot}
    {n : ℕ} (hsnap : exact rows k routeKey = some snap) (hn : sourceOf snap = some n) :
    routeOf lower recs n = routeKey := by
  obtain ⟨p, hp, rfl⟩ := Option.map_eq_some_iff.1 hsnap
  obtain ⟨hbase, hroute⟩ := List.mem_filter.1 (latest_mem hp)
  have hrow : p ∈ rows := List.mem_of_mem_filter hbase
  rw [← h.sourced p hrow n ((sourceOf_snapshot p _).symm.trans hn)]
  simpa using hroute

theorem reads_ofRoute (h : Sound lower recs rows) : Reads queries (OfRoute lower recs) rows := by
  constructor
  · rintro k _ hfound routeKey snap n hkey hne rfl hn
    have hfilter : k.routeKey.filter (· ≠ "") = some routeKey := by
      rw [hkey, Option.filter_some, if_pos (by simpa using hne)]
    simp only [queries] at hfound
    rw [hfilter] at hfound
    obtain ⟨snap', hexact, heq⟩ := Option.map_eq_some_iff.1 hfound
    obtain rfl := Option.some.inj heq
    exact .inl (exact_source h hexact hn)
  · intro k routeKey snap n _ _ hfound hn
    exact .inr (exact_source h hfound hn)

/-! ## Runs -/

variable (lower recs) in
structure Invariant (s : State) : Prop where
  store : Sound lower recs s.proxy.store
  transactions : ∀ t, Safe lower recs s.proxy.store (s.transactions t)
  tagged : Tagged (OfRoute lower recs) s.proxy

theorem invariant_start : Invariant lower recs (start []) :=
  ⟨⟨fun _ h => absurd h List.not_mem_nil, List.nodup_nil⟩, fun _ => .nil _, tagged_empty _⟩

/-- The rows that a step leaves are those before it, or what a commit makes of them. -/
theorem store_step (s : State) (i : Input) : (step c s i).proxy.store = s.proxy.store ∨
    ∃ t, i = .commit t ∧ (step c s i).proxy.store = commit (s.transactions t) s.proxy.store := by
  cases i with
  | commit t => exact .inr ⟨t, rfl, rfl⟩
  | perform t o => exact .inl rfl
  | rollback t => exact .inl rfl
  | lookup l k =>
    refine .inl ?_
    simp only [step, State.seen, Machine.ReadThrough.step]
    split_ifs <;> rfl
  | proceed l =>
    refine .inl ?_
    simp only [step, State.seen, Machine.ReadThrough.step]
    split <;> rfl
  | abandon l => exact .inl rfl
  | expire keys => exact .inl rfl

theorem pending_safe {s : State} (h : Invariant lower recs s) (i : Input) (t : ℕ) :
    Safe lower recs s.proxy.store (s.pending c (keyedInput lower recs i) t) := by
  cases i with
  | perform u o =>
    rw [keyedInput, State.pending]
    by_cases htu : t = u
    · subst htu
      rw [Function.update_self]
      exact (h.transactions t).append (effect_ok o)
    · rw [Function.update_of_ne htu]
      exact h.transactions t
  | commit u | rollback u =>
    change Safe lower recs s.proxy.store (Function.update s.transactions u [] t)
    by_cases htu : t = u
    · rw [htu, Function.update_self]
      exact .nil _
    · rw [Function.update_of_ne htu]
      exact h.transactions t
  | _ => exact h.transactions t

theorem invariant_step {s : State} (h : Invariant lower recs s) (i : Input) :
    Invariant lower recs (step c s (keyedInput lower recs i)) := by
  have hpending := pending_safe (c := c) h i
  have htagged := tagged_step h.tagged (reads_ofRoute h.store) (s.seen c (keyedInput lower recs i))
  rcases store_step (c := c) s (keyedInput lower recs i) with hstore | ⟨t, -, hstore⟩
  · exact ⟨hstore ▸ h.store, fun u => hstore ▸ hpending u, htagged⟩
  · refine ⟨hstore ▸ (h.transactions t).commit h.store, fun u => ?_, htagged⟩
    exact hstore ▸ (hpending u).extend (commit_extends _ _)

theorem invariant_after (c : Canary.Settings) (run : List Input) :
    Invariant lower recs (after lower recs c run) := by
  suffices h : ∀ (inputs : List Input) (s : State), Invariant lower recs s →
      Invariant lower recs (final (step c) s (inputs.map (keyedInput lower recs))) from
    h run _ invariant_start
  intro inputs
  induction inputs with
  | nil => exact fun s hs => hs
  | cons i inputs ih => exact fun s hs => ih _ (invariant_step hs i)

/-! ## The routes of requests -/

/-- The key that a feature is given by a recommendation for it. -/
def featureKey (lower : Text → Text) (r : Recommendation) : String :=
  canonicalRouteKey lower ⟨(r.targetKey.filter (· ≠ "")).or r.relatedFeature, none, none, none⟩

/-- The lookup of a request; one of its results, cached, about to be or read on the spot. -/
def Resolves (s : State) (k : Key) (snap : Snapshot) : Prop :=
  s.proxy.serve queries k = some snap ∨ ∃ l, s.proxy.flights l = some (.found k (some snap))

def requestKey (lower : Text → Text) (cache : Cache) (model : String)
    (ctx : Option RequestContext) (requestType : String) : Key :=
  ⟨cache, model, some (routeKeyFromContext lower ctx requestType)⟩

theorem collapseSpace_ne_nil : {t : Text} → t ≠ [] → collapseSpace t ≠ []
  | [], h => absurd rfl h
  | [c], _ => by
    rw [collapseSpace]
    split_ifs <;> exact List.cons_ne_nil _ _
  | c :: d :: rest, _ => by
    rw [collapseSpace]
    split_ifs
    · exact collapseSpace_ne_nil (List.cons_ne_nil d rest)
    · exact List.cons_ne_nil _ _
    · exact List.cons_ne_nil _ _

theorem normalize_ne_empty (hlower : ∀ t, t ≠ [] → lower t ≠ []) {value : String}
    (h : isHandle value = true) : normalize lower value ≠ "" := by
  have hstrip : Python.Text.strip value.toList ≠ [] := by
    simp only [isHandle, decide_eq_true_eq] at h
    exact h.2
  have hne := collapseSpace_ne_nil (hlower _ hstrip)
  intro hempty
  rw [Engine.RouteIdentity.normalize, String.ofList_eq_empty_iff, List.take_eq_nil_iff] at hempty
  exact hempty.elim (by decide) hne

theorem canonicalRouteKey_ne_empty (hlower : ∀ t, t ≠ [] → lower t ≠ []) (handles : Handles) :
    canonicalRouteKey lower handles ≠ "" := by
  rw [canonicalRouteKey]
  split
  · rename_i value hfind
    have hhandle := List.find?_some hfind
    exact normalize_ne_empty hlower hhandle
  · decide

theorem routeOf_feature (hlower : ∀ t, t ≠ [] → lower t ≠ []) {n : ℕ} {r : Recommendation}
    (hr : recs n = some r) (htarget : r.targetType = some "feature") :
    routeOf lower recs n = featureKey lower r := by
  rw [routeOf, hr, Option.elim_some, Recommendation.routeKey, if_pos htarget]
  exact if_neg (canonicalRouteKey_ne_empty hlower _)

theorem routeKey_of_tag {ctx : RequestContext} {tag : String} (htag : ctx.feature = some tag)
    (hhandle : isHandle tag = true) (requestType : String) :
    routeKeyFromContext lower (some ctx) requestType = normalize lower tag := by
  simp [routeKeyFromContext, canonicalRouteKey, htag, hhandle]

/-- In every state of every run a request resolves a policy of a feature only under the feature's
own key, which a feature tag of its own then has too, or where the feature has the default key. -/
theorem feature_policy_serves_route (hlower : ∀ t, t ≠ [] → lower t ≠ []) (c : Canary.Settings)
    (run : List Input) {cache : Cache} {model requestType : String} {ctx : Option RequestContext}
    {snap : Snapshot} {n : ℕ} {r : Recommendation}
    (hresolves : Resolves (after lower recs c run) (requestKey lower cache model ctx requestType)
      snap) (hn : sourceOf snap = some n) (hr : recs n = some r)
    (htarget : r.targetType = some "feature") : featureKey lower r = defaultRoute ∨
      routeKeyFromContext lower ctx requestType = featureKey lower r ∧
        ∀ request tag, ctx = some request → request.feature = some tag → isHandle tag = true →
          normalize lower tag = featureKey lower r := by
  have hinv : Invariant lower recs (after lower recs c run) := invariant_after c run
  have hroute : OfRoute lower recs (requestKey lower cache model ctx requestType) (some snap) := by
    rcases hresolves with hserve | ⟨l, hflight⟩
    · exact hserve ▸ tagged_serve hinv.tagged (reads_ofRoute hinv.store) _
    · exact hinv.tagged.flying l _ _ hflight
  have hkey := hroute _ snap n rfl (canonicalRouteKey_ne_empty hlower _) rfl hn
  rw [routeOf_feature hlower hr htarget] at hkey
  refine hkey.symm.imp_right fun hkey => ⟨hkey.symm, ?_⟩
  rintro request tag rfl htag hhandle
  rw [hkey, routeKey_of_tag htag hhandle]

/-! ## Requests of other features -/

def targeted (feature : String) : Recommendation where
  lever := some .tokenTrim
  targetType := some "feature"
  targetKey := some feature
  relatedModel := some "gpt-4o"
  relatedFeature := none

def asciiLower (t : Text) : Text := t.map Char.toLower

/-- The trim of a feature is applied. -/
def applied : List Input := [.perform 0 (.activateTrimPolicy 1 "gpt-4o" "" 7 0), .commit 0]

def appliedState (feature : String) : State :=
  after asciiLower (fun n => if n = 7 then some (targeted feature) else none)
    ⟨true, false, 10, [10, 50, 100]⟩ applied

def tagged (feature workflow : Option String) : RequestContext where
  feature := feature
  workflow := workflow
  taskType := none
  taskConfidence := none
  riskLevel := none
  qualityThreshold := none
  sdkClient := none
  extra := []

def chatKey (ctx : RequestContext) : Key :=
  requestKey asciiLower .trim "gpt-4o" (some ctx) "chat_completion"

def Trimmed (feature : String) (ctx : RequestContext) : Prop :=
  ∃ snap, Resolves (appliedState feature) (chatKey ctx) snap ∧ sourceOf snap = some 7

theorem trimmed_of {feature : String} {ctx : RequestContext}
    (h : ((appliedState feature).proxy.serve queries (chatKey ctx)).map sourceOf =
      some (some 7)) : Trimmed feature ctx := by
  obtain ⟨snap, hsnap, hn⟩ := Option.map_eq_some_iff.1 h
  exact ⟨snap, .inl hsnap, hn⟩

theorem asciiLower_ne_nil (t : Text) (h : t ≠ []) : asciiLower t ≠ [] := by
  simpa [asciiLower] using h

theorem served_trim {route : String} (h : route ≠ "") (c : Canary.Settings) :
    ((final (step c) (start []) [.perform 0 (.activateTrimPolicy 1 "gpt-4o" route 7 0),
      .commit 0]).proxy.serve queries ⟨.trim, "gpt-4o", some route⟩).map sourceOf =
        some (some 7) := by
  have hroute : (some route).filter (fun x => !decide (x = "")) = some route := by
    simp [Option.filter, h]
  simp [final, step, start, State.seen, State.pending, State.effect, Operation.effect, activate,
    Machine.ReadThrough.step, Machine.ReadThrough.State.serve, Machine.ReadThrough.Queries.read,
    queries, exact, base, latest, commit, Write.apply, Cache.reads, snapshot, sourceOf, hroute]

theorem trimmed_of_routeKey {feature : String} {ctx : RequestContext}
    (h : routeKeyFromContext asciiLower (some ctx) "chat_completion" =
      featureKey asciiLower (targeted feature)) : Trimmed feature ctx := by
  have hroute : routeOf asciiLower (fun n => if n = 7 then some (targeted feature) else none) 7 =
      featureKey asciiLower (targeted feature) :=
    routeOf_feature asciiLower_ne_nil (if_pos rfl) rfl
  have hne : featureKey asciiLower (targeted feature) ≠ "" :=
    canonicalRouteKey_ne_empty asciiLower_ne_nil _
  have hserved := served_trim hne ⟨true, false, 10, [10, 50, 100]⟩
  refine trimmed_of ?_
  rw [← hroute] at hserved
  rw [chatKey, requestKey, h, ← hroute]
  exact hserved

/-- The requests of the feature are trimmed. -/
theorem checkout_served : Trimmed "checkout" (tagged (some " Checkout") none) ∧
    routeKeyFromContext asciiLower (some (tagged (some " Checkout") none)) "chat_completion" =
      featureKey asciiLower (targeted "checkout") := by
  have htrimmed : Trimmed "checkout" (tagged (some " Checkout") none) :=
    trimmed_of_routeKey (by decide +kernel)
  obtain ⟨snap, hresolves, hn⟩ := htrimmed
  refine ⟨⟨snap, hresolves, hn⟩, ?_⟩
  have hserves := feature_policy_serves_route asciiLower_ne_nil _ applied hresolves hn
    (if_pos rfl : _ = some (targeted "checkout")) rfl
  exact (hserves.resolve_left (by decide +kernel)).1

def SameFeature (lower : Text → Text) (ctx : RequestContext) (feature : String) : Prop :=
  ∃ tag, ctx.feature = some tag ∧ collapseSpace (lower (Python.Text.strip tag.toList)) =
    collapseSpace (lower (Python.Text.strip feature.toList))

def longName (last : Char) : String := String.ofList (List.replicate 128 'x' ++ [last])

theorem isHandle_longName {last : Char}
    (h : Python.Text.strip (List.replicate 128 'x' ++ [last]) ≠ []) :
    isHandle (longName last) = true := by
  have htext : (longName last).toList = List.replicate 128 'x' ++ [last] := String.toList_ofList
  have hne : longName last ≠ "" := by
    intro hempty
    rw [hempty] at htext
    exact absurd htext.symm (by simp)
  rw [isHandle, htext]
  exact decide_eq_true ⟨hne, h⟩

theorem routeKey_longName :
    routeKeyFromContext asciiLower (some (tagged (some (longName 'b')) none)) "chat_completion" =
      featureKey asciiLower (targeted (longName 'a')) := by
  have hkey : ∀ feature, isHandle feature = true →
      featureKey asciiLower (targeted feature) = normalize asciiLower feature := by
    intro feature h
    have hne : feature ≠ "" := (of_decide_eq_true h).1
    simp [featureKey, canonicalRouteKey, targeted, Option.filter, hne, h]
  rw [@routeKey_of_tag asciiLower (tagged (some (longName 'b')) none) _ rfl
    (isHandle_longName (by decide +kernel)), hkey _ (isHandle_longName (by decide +kernel)),
    Engine.RouteIdentity.normalize, Engine.RouteIdentity.normalize, longName, longName,
    String.toList_ofList, String.toList_ofList]
  decide +kernel

/-- The trim of a feature is resolved for a workflow of its name and for another feature whose name
begins with the same characters, and the trim of a feature named default for any other. -/
theorem other_features_served :
    (Trimmed "checkout" (tagged none (some "checkout")) ∧
      ¬SameFeature asciiLower (tagged none (some "checkout")) "checkout") ∧
    (Trimmed (longName 'a') (tagged (some (longName 'b')) none) ∧
      ¬SameFeature asciiLower (tagged (some (longName 'b')) none) (longName 'a')) ∧
    Trimmed "default" (tagged (some "search") none) ∧
      ¬SameFeature asciiLower (tagged (some "search") none) "default" := by
  refine ⟨⟨trimmed_of_routeKey (by decide +kernel), ?_⟩,
    ⟨trimmed_of_routeKey routeKey_longName, ?_⟩, trimmed_of (by decide +kernel), ?_⟩
  · rintro ⟨tag, htag, -⟩
    cases htag
  · rintro ⟨tag, htag, hsame⟩
    obtain rfl := Option.some.inj htag
    rw [longName, longName, String.toList_ofList, String.toList_ofList] at hsame
    exact absurd hsame (by decide +kernel)
  · rintro ⟨tag, htag, hsame⟩
    obtain rfl := Option.some.inj htag
    exact absurd hsame (by decide +kernel)

end Varsten.Proxy.FeaturePolicies
