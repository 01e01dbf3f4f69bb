import Varsten.Proxy.Providers.OpenAI

/-!
# OpenAI streams of one answer

An answer of any number of choices and the chunks that stream it. Pieces of the
choices, and fragments of the tool calls in each, may interleave in any way.
-/

namespace Varsten.Proxy.OpenAIStream

open Python (Json Py PyError)
open Providers
open Providers.OpenAI

/-- A text field; one that is empty may be `null` or missing. -/
def IsText (s : String) (v : Json) : Prop := v.orElse (.str "") = .str s

theorem IsText.eq {s : String} {v : Json} (h : IsText s v) (hv : v.truthy = true) : v = .str s := by
  rwa [IsText, Json.orElse, if_pos hv] at h

theorem IsText.truthy_iff {s : String} {v : Json} (h : IsText s v) :
    v.truthy = true ↔ s ≠ "" := by
  constructor
  · intro hv
    rw [h.eq hv] at hv
    exact (Json.truthy_str s).1 hv
  · intro hs
    by_contra hv
    rw [IsText, Json.orElse, if_neg hv] at h
    exact hs (Json.str.inj h).symm

/-! ## Answers -/

structure Call where
  id : String
  name : String
  arguments : String
  id_ne : id ≠ ""

structure Choice where
  content : String
  calls : List Call
  finish : String
  finish_ne : finish ≠ ""

structure Answer where
  choices : List Choice
  choices_ne : choices ≠ []

def IsCall (c : Call) (j : Json) : Prop :=
  ∃ fields fn, j = .obj fields ∧ Json.item "index" fields = none ∧
    Json.item "id" fields = some (.str c.id) ∧ Json.item "type" fields = some (.str "function") ∧
    Json.item "function" fields = some (.obj fn) ∧ Json.item "name" fn = some (.str c.name) ∧
    Json.item "arguments" fn = some (.str c.arguments)

def IsChoice (i : ℕ) (c : Choice) (j : Json) : Prop :=
  ∃ fields message calls, j = .obj fields ∧ Json.item "index" fields = some (.int i) ∧
    Json.item "finish_reason" fields = some (.str c.finish) ∧
    Json.item "message" fields = some (.obj message) ∧
    IsText c.content ((Json.obj message).val "content") ∧
    ((Json.obj message).val "tool_calls").orElse (.arr []) = .arr calls ∧
    List.Forall₂ IsCall c.calls calls

/-- The completion that is not streamed. -/
def IsResponse (a : Answer) (j : Json) : Prop :=
  ∃ fields entries, j = .obj fields ∧ Json.item "choices" fields = some (.arr entries) ∧
    List.Forall₂ (fun c e => IsChoice c.2 c.1 e) a.choices.zipIdx entries

/-! ## Chunks -/

structure Frag where
  index : ℕ
  id : String
  name : String
  arguments : String

structure Piece where
  index : ℕ
  content : String
  frags : List Frag
  finish : String

def HasIndex (i : ℕ) (fields : List (String × Json)) : Prop :=
  (Json.item "index" fields).getD (.int 0) = .int i

def IsFrag (f : Frag) (j : Json) : Prop :=
  ∃ fields fn, j = .obj fields ∧ HasIndex f.index fields ∧ IsText f.id (j.val "id") ∧
    (j.val "type").orElse (.str "function") = .str "function" ∧
    (j.val "function").orElse (.obj []) = .obj fn ∧ IsText f.name ((Json.obj fn).val "name") ∧
    IsText f.arguments ((Json.obj fn).val "arguments")

def IsPiece (p : Piece) (j : Json) : Prop :=
  ∃ fields delta calls, j = .obj fields ∧ HasIndex p.index fields ∧
    (j.val "delta").orElse (.obj []) = .obj delta ∧
    IsText p.content ((Json.obj delta).val "content") ∧
    ((Json.obj delta).val "tool_calls").orElse (.arr []) = .arr calls ∧
    List.Forall₂ IsFrag p.frags calls ∧ IsText p.finish (j.val "finish_reason")

def IsUsage (v : Json) : Prop := v.truthy = true → ∃ u, usageFrom v = .ok u

def IsChunk (ps : List Piece) (j : Json) : Prop :=
  ∃ fields entries, j = .obj fields ∧ (Json.item "choices" fields).getD (.arr []) = .arr entries ∧
    List.Forall₂ IsPiece ps entries ∧ IsUsage (j.val "usage")

def Announces (values : List String) (v : String) : Prop :=
  v ∈ values ∧ ∀ w ∈ values, w = "" ∨ w = v

structure Frag.Assemble (fs : List Frag) (c : Call) : Prop where
  id : Announces (fs.map Frag.id) c.id
  name : String.join (fs.map Frag.name) = c.name
  arguments : String.join (fs.map Frag.arguments) = c.arguments

structure Piece.Assemble (ps : List Piece) (c : Choice) : Prop where
  content : String.join (ps.map Piece.content) = c.content
  calls : ∀ t (h : t < c.calls.length),
    Frag.Assemble ((ps.flatMap Piece.frags).filter (·.index = t)) c.calls[t]
  bound : ∀ f ∈ ps.flatMap Piece.frags, f.index < c.calls.length
  finish : Announces (ps.map Piece.finish) c.finish

/-- The pieces of every choice assemble to it, in whatever order the choices come. -/
structure Streams (ps : List Piece) (a : Answer) : Prop where
  choices : ∀ i (h : i < a.choices.length),
    Piece.Assemble (ps.filter (·.index = i)) a.choices[i]
  bound : ∀ p ∈ ps, p.index < a.choices.length

def Streamed (events : List Json) (a : Answer) : Prop :=
  ∃ chunks, List.Forall₂ IsChunk chunks events ∧ Streams chunks.flatten a

/-! ## Fragments fill their slots -/

def latest (r : Json) (values : List String) : Json :=
  values.foldl (fun r s => if s = "" then r else .str s) r

theorem latest_eq {values : List String} {v : String} (hv : v ≠ "")
    (h : ∀ w ∈ values, w = "" ∨ w = v) (r : Json) (hr : r = .str v ∨ v ∈ values) :
    latest r values = .str v := by
  induction values generalizing r with
  | nil => exact hr.resolve_right List.not_mem_nil
  | cons w ws ih =>
    rw [List.forall_mem_cons] at h
    rw [latest, List.foldl_cons]
    split_ifs with hw
    · refine ih h.2 r (hr.imp_right fun hm => ?_)
      rw [List.mem_cons, hw] at hm
      exact hm.resolve_left hv
    · exact ih h.2 _ (.inl (by rw [h.1.resolve_left hw]))

theorem Announces.latest {values : List String} {v : String} (h : Announces values v)
    (hv : v ≠ "") (r : Json) : latest r values = .str v :=
  latest_eq hv h.2 r (.inr h.1)

theorem IsText.keep {s : String} {v : Json} (h : IsText s v) (r : Json) :
    (if v.truthy then v else r) = if s = "" then r else .str s := by
  by_cases hv : v.truthy = true
  · rw [if_pos hv, if_neg (h.truthy_iff.1 hv), h.eq hv]
  · rw [if_neg hv, if_pos (not_not.1 (mt h.truthy_iff.2 hv))]

theorem IsText.append {β : Type} {s : String} {v : Json} (h : IsText s v) (t : String)
    (g : String → Py β) :
    (if v.truthy = true then Json.appendStr t v >>= g else pure t >>= g) = g (t ++ s) := by
  by_cases hv : v.truthy = true
  · rw [if_pos hv, h.eq hv]
    rfl
  · rw [if_neg hv, not_not.1 (mt h.truthy_iff.2 hv), String.append_empty]
    rfl

def Frag.merge (s : Slot) (f : Frag) : Slot where
  id := if f.id = "" then s.id else .str f.id
  type := s.type
  name := s.name ++ f.name
  arguments := s.arguments ++ f.arguments

def mergeAll (s : Slot) (fs : List Frag) : Slot := fs.foldl Frag.merge s

theorem mergeAll_eq (s : Slot) (fs : List Frag) :
    mergeAll s fs = ⟨latest s.id (fs.map Frag.id), s.type, s.name ++ String.join (fs.map Frag.name),
      s.arguments ++ String.join (fs.map Frag.arguments)⟩ := by
  induction fs generalizing s with
  | nil => simp [mergeAll, latest]
  | cons f fs ih =>
    rw [mergeAll, List.foldl_cons, ← mergeAll, ih]
    simp [Frag.merge, latest, String.join_cons, String.append_assoc]

theorem updateSlot_eq {f : Frag} {j : Json} (h : IsFrag f j) {s : Slot}
    (hs : s.type = .str "function") : updateSlot s j = .ok (f.merge s) := by
  obtain ⟨fields, fn, rfl, -, hid, htype, hfn, hname, hargs⟩ := h
  have hget : ∀ fields k, (Json.obj fields).get k = .ok ((Json.obj fields).val k) :=
    fun _ _ => rfl
  have hkeep : (if ((Json.obj fields).val "type").truthy then (Json.obj fields).val "type"
      else s.type) = s.type := by
    rw [hs]
    exact htype
  simp only [updateSlot, hget, Py.bind_ok, hfn, hname.append, hargs.append, hid.keep, hkeep]
  rfl

/-! ## Slots -/

def Frag.key (f : Frag) : Json := .float f.index

theorem IsFrag.key {f : Frag} {j : Json} (h : IsFrag f j) :
    (j.getD "index" (.int 0) >>= Json.hashKey) = .ok f.key := by
  obtain ⟨fields, fn, rfl, hi, -⟩ := h
  rw [Json.getD, hi]
  simp [Py.bind_ok, Json.hashKey, Frag.key]

def accumulate (slots : Slots) (fs : List Frag) : Slots :=
  fs.foldl (fun slots f => setSlot f.key (f.merge (slotAt f.key slots)) slots) slots

theorem slotAt_setSlot (k l : Json) (s : Slot) (slots : Slots) :
    slotAt l (setSlot k s slots) = if k = l then s else slotAt l slots := by
  induction slots with
  | nil => simp [setSlot, slotAt]
  | cons p slots ih =>
    by_cases hp : p.1 = k
    · subst hp
      by_cases hl : p.1 = l <;> simp [setSlot, slotAt, hl]
    · by_cases hl : p.1 = l
      · have hk : k ≠ l := fun h => hp (hl.trans h.symm)
        simp only [setSlot, if_neg hp, slotAt, if_pos hl, if_neg hk]
      · simp [setSlot, slotAt, hp, hl, ih]

theorem mem_keys_setSlot (k l : Json) (s : Slot) (slots : Slots) :
    l ∈ (setSlot k s slots).map Prod.fst ↔ l = k ∨ l ∈ slots.map Prod.fst := by
  induction slots with
  | nil => simp [setSlot]
  | cons p slots ih =>
    rw [setSlot]
    split_ifs with hp
    · simp [hp]
    · rw [List.map_cons, List.mem_cons, ih, List.map_cons, List.mem_cons]
      tauto

theorem nodup_keys_setSlot {k : Json} {s : Slot} {slots : Slots}
    (h : (slots.map Prod.fst).Nodup) : ((setSlot k s slots).map Prod.fst).Nodup := by
  induction slots with
  | nil => simp [setSlot]
  | cons p slots ih =>
    rw [List.map_cons, List.nodup_cons] at h
    rw [setSlot]
    split_ifs with hp
    · rw [List.map_cons, List.nodup_cons]
      exact ⟨hp ▸ h.1, h.2⟩
    · rw [List.map_cons, List.nodup_cons, mem_keys_setSlot]
      exact ⟨fun hm => hm.elim hp h.1, ih h.2⟩

theorem slotAt_mem {slots : Slots} (h : (slots.map Prod.fst).Nodup) {p : Json × Slot}
    (hp : p ∈ slots) : slotAt p.1 slots = p.2 := by
  induction slots with
  | nil => cases hp
  | cons q slots ih =>
    rw [List.map_cons, List.nodup_cons] at h
    rw [slotAt]
    rcases List.mem_cons.1 hp with rfl | hp
    · rw [if_pos rfl]
    · rw [if_neg, ih h.2 hp]
      exact fun heq => h.1 (heq ▸ List.mem_map_of_mem hp)

theorem accumulate_concat (slots : Slots) (fs : List Frag) (f : Frag) :
    accumulate slots (fs ++ [f]) =
      setSlot f.key (f.merge (slotAt f.key (accumulate slots fs))) (accumulate slots fs) := by
  rw [accumulate, List.foldl_append]
  rfl

theorem accumulate_append (slots : Slots) (fs gs : List Frag) :
    accumulate slots (fs ++ gs) = accumulate (accumulate slots fs) gs := List.foldl_append ..

theorem slotAt_accumulate (fs : List Frag) (t : ℕ) :
    slotAt (.float t) (accumulate [] fs) = mergeAll .empty (fs.filter (·.index = t)) := by
  induction fs using List.reverseRecOn with
  | nil => rfl
  | append_singleton fs f ih =>
    rw [accumulate_concat, slotAt_setSlot, List.filter_append]
    by_cases h : f.index = t
    · have hk : f.key = .float t := by rw [Frag.key, h]
      rw [if_pos hk, hk, ih]
      simp [h, mergeAll]
    · have hk : f.key ≠ .float t := by simpa [Frag.key] using h
      rw [if_neg hk, ih]
      simp [h]

theorem mem_keys_accumulate (fs : List Frag) (k : Json) :
    k ∈ (accumulate [] fs).map Prod.fst ↔ ∃ f ∈ fs, k = f.key := by
  induction fs using List.reverseRecOn with
  | nil => simp [accumulate]
  | append_singleton fs f ih =>
    rw [accumulate_concat, mem_keys_setSlot, ih]
    constructor
    · rintro (rfl | ⟨g, hg, rfl⟩)
      · exact ⟨f, by simp, rfl⟩
      · exact ⟨g, by simp [hg], rfl⟩
    · rintro ⟨g, hg, rfl⟩
      rcases List.mem_append.1 hg with hg | hg
      · exact .inr ⟨g, hg, rfl⟩
      · exact .inl (by rw [List.mem_singleton.1 hg])

theorem nodup_keys_accumulate (fs : List Frag) :
    ((accumulate [] fs).map Prod.fst).Nodup := by
  induction fs using List.reverseRecOn with
  | nil => exact List.nodup_nil
  | append_singleton fs f ih =>
    rw [accumulate_concat]
    exact nodup_keys_setSlot ih

theorem type_setSlot {k : Json} {s : Slot} {slots : Slots} {v : Json} (hs : s.type = v)
    (h : ∀ l, (slotAt l slots).type = v) (l : Json) : (slotAt l (setSlot k s slots)).type = v := by
  rw [slotAt_setSlot]
  split_ifs
  · exact hs
  · exact h l

theorem accumulateToolCalls_eq {fs : List Frag} {js : List Json} (h : List.Forall₂ IsFrag fs js)
    {slots : Slots} (hs : ∀ l, (slotAt l slots).type = .str "function") :
    accumulateToolCalls slots js = .ok (accumulate slots fs) ∧
      ∀ l, (slotAt l (accumulate slots fs)).type = .str "function" := by
  induction h generalizing slots with
  | nil => exact ⟨rfl, hs⟩
  | @cons f j fs js hf _ ih =>
    have hslots : ∀ l, (slotAt l (setSlot f.key (f.merge (slotAt f.key slots)) slots)).type =
        .str "function" := type_setSlot (hs f.key) hs
    have hnext := ih hslots
    have hkey := hf.key
    obtain ⟨i, hi, hk⟩ := Py.bind_eq_ok.1 hkey
    refine ⟨?_, hnext.2⟩
    rw [accumulateToolCalls, hi, Py.bind_ok, hk, Py.bind_ok, updateSlot_eq hf (hs f.key), Py.bind_ok]
    exact hnext.1

/-! ## The assembled calls -/

def keyRank (p : Json × Slot) : ℚ :=
  match p.1 with
  | .float x => x
  | _ => 0

def rankLe (p q : Json × Slot) : Bool := keyRank p ≤ keyRank q

theorem mergeSort_rank {slots : Slots} (h : ∀ p ∈ slots, ∃ t : ℕ, p.1 = .float t) :
    slots.mergeSort (fun p q => keyLe p.1 q.1) = slots.mergeSort rankLe := by
  have hmap := List.map_mergeSort (r := fun p q => keyLe p.1 q.1) (s := rankLe) (f := id)
    (l := slots) fun p hp q hq => by
      obtain ⟨t, ht⟩ := h p hp
      obtain ⟨u, hu⟩ := h q hq
      simp [keyLe, rankLe, keyRank, ht, hu]
  simpa only [List.map_id_fun, id_eq] using hmap

theorem comparable_floats {ks : List Json} (h : ∀ k ∈ ks, ∃ t : ℕ, k = .float t) :
    comparable ks = true := by
  have hall : ks.all (fun k => match k with | .float _ => true | _ => false) = true := by
    rw [List.all_eq_true]
    intro k hk
    obtain ⟨t, rfl⟩ := h k hk
    rfl
  unfold comparable
  split
  · rfl
  · rfl
  · exact Bool.or_eq_true_iff.2 (.inl hall)

def indexed (slots : Slots) (m : ℕ) : Slots :=
  (List.range m).map fun t : ℕ => (.float t, slotAt (.float t) slots)

theorem perm_indexed {slots : Slots} {m : ℕ} (hn : (slots.map Prod.fst).Nodup)
    (hk : ∀ k, k ∈ slots.map Prod.fst ↔ ∃ t < m, k = .float (t : ℕ)) :
    slots.Perm (indexed slots m) := by
  have hinj : Function.Injective fun t : ℕ =>
      ((.float t, slotAt (.float t) slots) : Json × Slot) := fun t u h => by
    simpa using (Prod.mk.inj h).1
  apply (List.perm_ext_iff_of_nodup (List.Nodup.of_map _ hn) (List.nodup_range.map hinj)).2
  intro p
  constructor
  · intro hp
    obtain ⟨t, ht, heq⟩ := (hk p.1).1 (List.mem_map_of_mem hp)
    refine List.mem_map.2 ⟨t, List.mem_range.2 ht, ?_⟩
    rw [← heq, slotAt_mem hn hp]
  · intro hp
    obtain ⟨t, ht, rfl⟩ := List.mem_map.1 hp
    obtain ⟨p, hp, heq⟩ := List.mem_map.1 ((hk _).2 ⟨t, List.mem_range.1 ht, rfl⟩)
    rwa [← heq, slotAt_mem hn hp]

theorem sortedSlots_eq {slots : Slots} {m : ℕ} (hn : (slots.map Prod.fst).Nodup)
    (hk : ∀ k, k ∈ slots.map Prod.fst ↔ ∃ t < m, k = .float (t : ℕ)) :
    sortedSlots slots = .ok ((List.range m).map fun t : ℕ => (slotAt (.float t) slots).toJson) := by
  have hfloat : ∀ k ∈ slots.map Prod.fst, ∃ t : ℕ, k = .float t := fun k h =>
    let ⟨t, _, ht⟩ := (hk k).1 h
    ⟨t, ht⟩
  have hmem : ∀ {p}, p ∈ slots → p.1 ∈ slots.map Prod.fst := fun h => List.mem_map_of_mem h
  have hperm := (List.mergeSort_perm slots rankLe).trans (perm_indexed hn hk)
  have hsorted : slots.mergeSort rankLe = indexed slots m := by
    have hanti : ∀ p q, p ∈ slots.mergeSort rankLe → q ∈ indexed slots m → rankLe p q = true →
        rankLe q p = true → p = q := by
      intro p q hp hq hpq hqp
      obtain ⟨t, _, rfl⟩ := List.mem_map.1 (hperm.mem_iff.1 hp)
      obtain ⟨u, _, rfl⟩ := List.mem_map.1 hq
      simp only [rankLe, keyRank, decide_eq_true_eq, Nat.cast_le] at hpq hqp
      rw [Nat.le_antisymm hpq hqp]
    have hslots : (slots.mergeSort rankLe).Pairwise fun p q => rankLe p q = true := by
      apply List.pairwise_mergeSort
      · intro p q r
        simp only [rankLe, decide_eq_true_eq]
        exact le_trans
      · intro p q
        simpa [rankLe] using le_total (keyRank p) (keyRank q)
    have hindexed : (indexed slots m).Pairwise fun p q => rankLe p q = true := by
      rw [indexed, List.pairwise_map]
      refine List.pairwise_le_range.imp fun h => ?_
      simpa [rankLe, keyRank] using h
    exact List.Perm.eq_of_pairwise hanti hslots hindexed hperm
  rw [sortedSlots, if_pos (comparable_floats hfloat), mergeSort_rank fun p hp => hfloat _ (hmem hp),
    hsorted, indexed, List.map_map]
  rfl

def Call.toJson (c : Call) : Json := (Slot.mk (.str c.id) (.str "function") c.name c.arguments).toJson

theorem Frag.Assemble.merged {fs : List Frag} {c : Call} (h : Frag.Assemble fs c) :
    mergeAll .empty fs = ⟨.str c.id, .str "function", c.name, c.arguments⟩ := by
  rw [mergeAll_eq, h.id.latest c.id_ne, h.name, h.arguments]
  simp [Slot.empty]

theorem sortedSlots_calls {fs : List Frag} {calls : List Call}
    (hc : ∀ t (h : t < calls.length), Frag.Assemble (fs.filter (·.index = t)) calls[t])
    (hb : ∀ f ∈ fs, f.index < calls.length) :
    sortedSlots (accumulate [] fs) = .ok (calls.map Call.toJson) := by
  rw [sortedSlots_eq (m := calls.length) (nodup_keys_accumulate fs) fun k => ?_]
  · congr 1
    apply List.ext_getElem
    · simp
    · intro t ht ht'
      rw [List.length_map] at ht'
      simp only [List.getElem_map, List.getElem_range, slotAt_accumulate, (hc t ht').merged,
        Call.toJson]
  · rw [mem_keys_accumulate]
    constructor
    · rintro ⟨f, hf, rfl⟩
      exact ⟨f.index, hb f hf, rfl⟩
    · rintro ⟨t, ht, rfl⟩
      obtain ⟨f, hf, -⟩ := List.mem_map.1 (hc t ht).id.1
      rw [List.mem_filter, decide_eq_true_eq] at hf
      exact ⟨f, hf.1, by rw [Frag.key, hf.2]⟩

/-! ## Runs of one choice -/

/-- What `assemble_stream` holds after some pieces, all of one choice. -/
structure Holds (a : Assembly) (ps : List Piece) : Prop where
  parts : joinParts a.parts = .ok (String.join (ps.map Piece.content))
  slots : a.slots = accumulate [] (ps.flatMap Piece.frags)
  types : ∀ l, (slotAt l a.slots).type = .str "function"
  finishReason : a.finishReason = latest .null (ps.map Piece.finish)
  usage : ∃ u, usageFrom a.usage = .ok u

theorem start_holds : Holds .start [] where
  parts := rfl
  slots := rfl
  types := fun _ => rfl
  finishReason := rfl
  usage := ⟨.zero, rfl⟩

theorem joinParts_concat (parts : List Json) (v : Json) :
    joinParts (parts ++ [v]) = joinParts parts >>= fun s => Json.appendStr s v := by
  rw [joinParts, List.foldlM_append]
  congr 1
  funext s
  rw [List.foldlM_cons]
  cases h : Json.appendStr s v with
  | error e => rfl
  | ok t => rfl

theorem withToolCalls_eq {slots : Slots} {v : Json} {calls : List Json}
    (h : v.orElse (.arr []) = .arr calls) :
    withToolCalls slots v = accumulateToolCalls slots calls := by
  rw [withToolCalls]
  by_cases hv : v.truthy = true
  · rw [Json.orElse, if_pos hv] at h
    rw [if_pos hv, h]
    rfl
  · rw [Json.orElse, if_neg hv] at h
    rw [if_neg hv, ← Json.arr.inj h]
    rfl

theorem assembleChoice_holds {a : Assembly} {ps : List Piece} {p : Piece} {j : Json}
    (ha : Holds a ps) (hp : IsPiece p j) :
    ∃ a', assembleChoice a j = .ok a' ∧ Holds a' (ps ++ [p]) := by
  obtain ⟨fields, delta, calls, rfl, -, hdelta, hcontent, hcalls, hfrags, hfinish⟩ := hp
  obtain ⟨hslots, htypes⟩ := accumulateToolCalls_eq hfrags ha.types
  have hget : ∀ fields k, (Json.obj fields).get k = .ok ((Json.obj fields).val k) :=
    fun _ _ => rfl
  simp only [assembleChoice, hget, Py.bind_ok, hdelta, withToolCalls_eq hcalls, hslots]
  refine ⟨_, rfl, ?_, ?_, htypes, ?_, ha.usage⟩
  · dsimp only
    rw [List.map_append, String.join_append]
    by_cases hc : ((Json.obj delta).val "content").truthy = true
    · rw [if_pos hc, joinParts_concat, ha.parts, hcontent.eq hc]
      simp [Py.bind_ok, Json.appendStr]
    · rw [if_neg hc, ha.parts]
      simp [not_not.1 (mt hcontent.truthy_iff.2 hc)]
  · dsimp only
    rw [ha.slots, List.flatMap_append, accumulate_append]
    simp
  · dsimp only
    rw [hfinish.keep, ha.finishReason]
    simp [latest]

theorem assembleChoices_holds {a : Assembly} {ps qs : List Piece} {js : List Json}
    (ha : Holds a ps) (hq : List.Forall₂ IsPiece qs js) :
    ∃ a', js.foldlM assembleChoice a = .ok a' ∧ Holds a' (ps ++ qs) := by
  induction hq generalizing a ps with
  | nil => exact ⟨a, rfl, by rwa [List.append_nil]⟩
  | @cons q j qs js hq _ ih =>
    obtain ⟨a₁, h₁, ha₁⟩ := assembleChoice_holds ha hq
    obtain ⟨a₂, h₂, ha₂⟩ := ih ha₁
    refine ⟨a₂, ?_, by rwa [List.append_assoc] at ha₂⟩
    rw [List.foldlM_cons, h₁]
    exact h₂

theorem assembleEvent_holds {a : Assembly} {ps qs : List Piece} {j : Json} (ha : Holds a ps)
    (hq : IsChunk qs j) : ∃ a', assembleEvent a j = .ok a' ∧ Holds a' (ps ++ qs) := by
  obtain ⟨fields, entries, rfl, hentries, hqs, husage⟩ := hq
  have hget : ∀ k, (Json.obj fields).get k = .ok ((Json.obj fields).val k) := fun _ => rfl
  have hchoices : (Json.obj fields).getD "choices" (.arr []) = .ok (.arr entries) :=
    congrArg Except.ok hentries
  have hiter : (Json.arr entries).iter = .ok entries := rfl
  simp only [assembleEvent, hget, hchoices, hiter, Py.bind_ok]
  refine assembleChoices_holds ⟨ha.parts, ha.slots, ha.types, ha.finishReason, ?_⟩ hqs
  dsimp only
  split_ifs with hu
  · exact husage hu
  · exact ha.usage

theorem assembleEvents_holds {chunks : List (List Piece)} {js : List Json}
    (h : List.Forall₂ IsChunk chunks js) {a : Assembly} {ps : List Piece} (ha : Holds a ps) :
    ∃ a', js.foldlM assembleEvent a = .ok a' ∧ Holds a' (ps ++ chunks.flatten) := by
  induction h generalizing a ps with
  | nil => exact ⟨a, rfl, by simpa using ha⟩
  | @cons c j chunks js hc _ ih =>
    obtain ⟨a₁, h₁, ha₁⟩ := assembleEvent_holds ha hc
    obtain ⟨a₂, h₂, ha₂⟩ := ih ha₁
    refine ⟨a₂, ?_, by rwa [List.append_assoc, ← List.flatten_cons] at ha₂⟩
    rw [List.foldlM_cons, h₁]
    exact h₂

theorem assembleStream_eq {events : List Json} {a : Answer} (h : Streamed events a) {c : Choice}
    (hc : a.choices = [c]) :
    ∃ r, assembleStream events = .ok r ∧ r.raw = none ∧ r.content = .str c.content ∧
      r.toolCalls.orElse (.arr []) = .arr (c.calls.map Call.toJson) ∧
      r.finishReason = .str c.finish := by
  obtain ⟨chunks, hchunks, hs⟩ := h
  have hlen : a.choices.length = 1 := by rw [hc]; rfl
  have hall : chunks.flatten.filter (·.index = 0) = chunks.flatten := by
    rw [List.filter_eq_self]
    intro p hp
    have := hs.bound p hp
    simp only [decide_eq_true_eq]
    omega
  have hps := hs.choices 0 (by omega)
  simp only [hall, hc, List.getElem_cons_zero] at hps
  obtain ⟨b, hb, hh⟩ := assembleEvents_holds hchunks start_holds
  rw [List.nil_append] at hh
  obtain ⟨u, hu⟩ := hh.usage
  have hcalls := sortedSlots_calls hps.calls hps.bound
  rw [← hh.slots] at hcalls
  have hparts := hh.parts
  rw [hps.content] at hparts
  simp only [assembleStream, hb, hcalls, hparts, hu, Py.bind_ok]
  refine ⟨_, rfl, rfl, rfl, ?_, ?_⟩
  · cases c.calls with
    | nil => rfl
    | cons call calls => rfl
  · dsimp only
    rw [hh.finishReason, hps.finish.latest c.finish_ne, Json.orElse,
      if_pos ((Json.truthy_str _).2 c.finish_ne)]

/-! ## Replay -/

def served (outs : List Out) : List Json :=
  outs.filterMap fun out => match out with
    | .chunk payload => some payload
    | _ => none

/-- The stored payload, served over SSE, again streams the answer. -/
def Replays (payload : Json) (a : Answer) : Prop :=
  ∃ outs, toOpenaiSse payload = .ok outs ∧ Streamed (served outs) a

/-- What is assembled from a stream serves the whole answer, as JSON and over SSE. -/
def Faithful (events : List Json) (a : Answer) : Prop :=
  ∃ r, assembleStream events = .ok r ∧ IsResponse a (completionPayload r) ∧
    Replays (completionPayload r) a

/-- One choice, with at most one tool call. -/
def Plain (a : Answer) : Prop := a.choices.length = 1 ∧ ∀ c ∈ a.choices, c.calls.length ≤ 1

def sseDelta (content toolCalls : Json) : List (String × Json) :=
  let delta : List (String × Json) := [("role", .str "assistant")]
  let delta := if content.truthy then delta ++ [("content", content)] else delta
  if toolCalls.truthy then delta ++ [("tool_calls", toolCalls)] else delta

def sseChunk (model : Json) (delta : List (String × Json)) (finishReason : Json) : Json :=
  .obj [("object", .str "chat.completion.chunk"), ("model", model),
    ("choices", .arr [.obj [("index", .int 0), ("delta", .obj delta),
      ("finish_reason", finishReason)]])]

theorem sseDelta_content (content toolCalls : Json) :
    (Json.obj (sseDelta content toolCalls)).val "content" =
      if content.truthy then content else .null := by
  rw [sseDelta]
  split_ifs <;> simp [Json.item]

theorem sseDelta_toolCalls (content toolCalls : Json) :
    (Json.obj (sseDelta content toolCalls)).val "tool_calls" =
      if toolCalls.truthy then toolCalls else .null := by
  rw [sseDelta]
  split_ifs <;> simp [Json.item]

theorem toOpenaiSse_eq {a : Answer} {j : Json} (h : IsResponse a j) :
    ∃ c cs model content toolCalls calls, a.choices = c :: cs ∧ IsText c.content content ∧
      toolCalls.orElse (.arr []) = .arr calls ∧ List.Forall₂ IsCall c.calls calls ∧
      (toOpenaiSse j).map served = .ok [sseChunk model (sseDelta content toolCalls) .null,
        sseChunk model [] (.str c.finish)] := by
  obtain ⟨fields, entries, rfl, hchoices, hall⟩ := h
  obtain ⟨c, cs, hcs⟩ := List.exists_cons_of_ne_nil a.choices_ne
  rw [hcs, List.zipIdx_cons] at hall
  cases hall with
  | @cons _ e _ es he _ =>
    obtain ⟨choice, message, calls, rfl, -, hfinish, hmessage, hcontent, htools, hcalls⟩ := he
    refine ⟨c, cs, (Json.item "model" fields).getD (.str ""), _, _, calls, hcs, hcontent, htools,
      hcalls, ?_⟩
    have hget : ∀ fields k, (Json.obj fields).get k = .ok ((Json.obj fields).val k) :=
      fun _ _ => rfl
    have hsub : (Json.obj fields).subscript "choices" = .ok (.arr (.obj choice :: es)) := by
      rw [Json.subscript, hchoices]
    have hhead : (Json.arr (.obj choice :: es)).head = .ok (.obj choice) := rfl
    have hmodel : (Json.obj fields).getD "model" (.str "") =
        .ok ((Json.item "model" fields).getD (.str "")) := rfl
    have hmsg : (Json.obj choice).val "message" = .obj message := by rw [Json.val_obj, hmessage]; rfl
    have hfin : (Json.obj choice).val "finish_reason" = .str c.finish := by
      rw [Json.val_obj, hfinish]
      rfl
    have hor : ∀ d, (Json.str c.finish).orElse d = .str c.finish := fun d => by
      rw [Json.orElse, if_pos ((Json.truthy_str _).2 c.finish_ne)]
    simp only [toOpenaiSse, hsub, hhead, hget, hmsg, hfin, hmodel, hor, Python.Json.obj_orElse_empty,
      Py.bind_ok]
    rfl

def Call.frag (c : Call) : Frag := ⟨0, c.id, c.name, c.arguments⟩

theorem IsCall.frag {c : Call} {j : Json} (h : IsCall c j) : IsFrag c.frag j := by
  obtain ⟨fields, fn, rfl, hi, hid, htype, hfn, hname, hargs⟩ := h
  refine ⟨fields, fn, rfl, ?_, ?_, ?_, ?_, ?_, ?_⟩
  · rw [HasIndex, hi]
    rfl
  · rw [IsText, Json.val_obj, hid]
    exact Json.str_orElse_empty _
  · rw [Json.val_obj, htype]
    rfl
  · rw [Json.val_obj, hfn]
    exact Json.obj_orElse_empty _
  · rw [IsText, Json.val_obj, hname]
    exact Json.str_orElse_empty _
  · rw [IsText, Json.val_obj, hargs]
    exact Json.str_orElse_empty _

theorem IsCall.index_eq {c : Call} {f : Frag} {j : Json} (h : IsCall c j) (hf : IsFrag f j) :
    f.index = 0 := by
  obtain ⟨fields, fn, rfl, hi, -⟩ := h
  obtain ⟨fields', fn', heq, hi', -⟩ := hf
  obtain rfl := Json.obj.inj heq
  rw [HasIndex, hi] at hi'
  exact_mod_cast (Json.int.inj hi').symm

theorem index_zero {cs : List Call} {fs : List Frag} {js : List Json}
    (hc : List.Forall₂ IsCall cs js) (hf : List.Forall₂ IsFrag fs js) :
    ∀ f ∈ fs, f.index = 0 := by
  induction hf generalizing cs with
  | nil => exact fun f h => absurd h List.not_mem_nil
  | cons hf _ ih =>
    cases hc with
    | cons hc hcs => exact List.forall_mem_cons.2 ⟨hc.index_eq hf, ih hcs⟩

theorem text_keep {s : String} {v : Json} (h : IsText s v) :
    IsText s (if v.truthy then v else .null) := by
  split_ifs with hv
  · exact h
  · rw [IsText, Json.orElse, if_neg hv] at h
    exact h

theorem arr_keep {v : Json} {xs : List Json} (h : v.orElse (.arr []) = .arr xs) :
    (if v.truthy then v else .null).orElse (.arr []) = .arr xs := by
  split_ifs with hv
  · exact h
  · rw [Json.orElse, if_neg hv] at h
    exact h

theorem sseChunk_isChunk {p : Piece} {model finish : Json} {delta : List (String × Json)}
    {calls : List Json} (hi : p.index = 0)
    (hc : IsText p.content ((Json.obj delta).val "content"))
    (ht : ((Json.obj delta).val "tool_calls").orElse (.arr []) = .arr calls)
    (hf : List.Forall₂ IsFrag p.frags calls) (hfin : IsText p.finish finish) :
    IsChunk [p] (sseChunk model delta finish) := by
  refine ⟨_, _, rfl, rfl, .cons ⟨_, delta, calls, rfl, ?_, ?_, hc, ht, hf, hfin⟩ .nil, ?_⟩
  · rw [HasIndex, hi]
    rfl
  · exact Json.obj_orElse_empty delta
  · exact fun h => absurd h (by simp [sseChunk, Json.item, Json.truthy])

theorem sseChunk_piece {ps : List Piece} {model finish : Json} {delta : List (String × Json)}
    {calls : List Json} (h : IsChunk ps (sseChunk model delta finish))
    (ht : ((Json.obj delta).val "tool_calls").orElse (.arr []) = .arr calls) :
    ∃ p, ps = [p] ∧ p.index = 0 ∧ List.Forall₂ IsFrag p.frags calls := by
  obtain ⟨fields, entries, heq, hentries, hps, -⟩ := h
  obtain rfl := Json.obj.inj heq
  obtain rfl := Json.arr.inj hentries
  obtain ⟨p, _, hp, hnil, rfl⟩ := List.forall₂_cons_right_iff.1 hps
  obtain rfl := List.forall₂_nil_right_iff.1 hnil
  obtain ⟨fields', delta', calls', heq', hi, hdelta, -, hcalls, hfrags, -⟩ := hp
  obtain rfl := Json.obj.inj heq'
  have hd : delta = delta' := by
    rw [← Json.obj.injEq, ← hdelta]
    exact (Json.obj_orElse_empty delta).symm
  subst hd
  obtain rfl := Json.arr.inj (ht.symm.trans hcalls)
  refine ⟨p, rfl, ?_, hfrags⟩
  exact_mod_cast (Json.int.inj hi).symm

theorem Announces.single {s v : String} (h : s = v) : Announces [s] v := by
  subst h
  exact ⟨List.mem_singleton_self _, fun w hw => .inr (List.mem_singleton.1 hw)⟩

theorem pieces_assemble {c : Choice} (hcalls : c.calls.length ≤ 1) :
    Piece.Assemble [⟨0, c.content, c.calls.map Call.frag, ""⟩, ⟨0, "", [], c.finish⟩] c := by
  refine ⟨by simp [String.join_cons], ?_, ?_, by simp, fun w hw => ?_⟩
  · intro t ht
    obtain ⟨call, hcall⟩ : ∃ call, c.calls = [call] := List.length_eq_one_iff.1 (by omega)
    have h0 : t = 0 := by omega
    subst h0
    simp only [hcall]
    exact ⟨Announces.single rfl, by simp [Call.frag, String.join_cons],
      by simp [Call.frag, String.join_cons]⟩
  · intro f hf
    simp only [List.flatMap_cons, List.flatMap_nil, List.append_nil, List.mem_map] at hf
    obtain ⟨call, hcall, rfl⟩ := hf
    exact List.length_pos_of_mem hcall
  · simpa using hw

theorem replays_of_plain {a : Answer} {j : Json} (h : IsResponse a j) (hp : Plain a) :
    Replays j a := by
  obtain ⟨c, cs, model, content, toolCalls, calls, hcs, hcontent, htools, hcalls, heq⟩ :=
    toOpenaiSse_eq h
  have hcs' : cs = [] := by
    have hlen := hp.1
    rw [hcs, List.length_cons] at hlen
    exact List.length_eq_zero_iff.1 (by omega)
  subst hcs'
  have hle := hp.2 c (by rw [hcs]; exact List.mem_singleton_self c)
  obtain ⟨outs, houts, hserved⟩ : ∃ outs, toOpenaiSse j = .ok outs ∧ served outs = _ := by
    cases hj : toOpenaiSse j with
    | error e => rw [hj] at heq; cases heq
    | ok outs => rw [hj] at heq; exact ⟨outs, rfl, Except.ok.inj heq⟩
  refine ⟨outs, houts, [[⟨0, c.content, c.calls.map Call.frag, ""⟩], [⟨0, "", [], c.finish⟩]], ?_, ?_⟩
  · rw [hserved]
    have htools' := arr_keep htools
    rw [← sseDelta_toolCalls content] at htools'
    refine .cons (sseChunk_isChunk rfl ?_ htools' ?_ rfl)
      (.cons (sseChunk_isChunk rfl rfl rfl .nil (Json.str_orElse_empty _)) .nil)
    · rw [sseDelta_content]
      exact text_keep hcontent
    · exact List.forall₂_map_left_iff.2 (hcalls.imp fun _ _ => IsCall.frag)
  · refine ⟨fun i hi => ?_, fun p hp => ?_⟩
    · rw [hcs, List.length_singleton] at hi
      have h0 : i = 0 := by omega
      subst h0
      simp only [hcs, List.getElem_cons_zero]
      exact pieces_assemble hle
    · rw [hcs]
      simp only [List.flatten_cons, List.flatten_nil, List.cons_append, List.nil_append,
        List.mem_cons, List.not_mem_nil, or_false] at hp
      rcases hp with rfl | rfl <;> exact Nat.one_pos

theorem plain_of_replays {a : Answer} {j : Json} (h : IsResponse a j) (hr : Replays j a) :
    Plain a := by
  obtain ⟨c, cs, model, content, toolCalls, calls, hcs, -, htools, hcalls, heq⟩ := toOpenaiSse_eq h
  obtain ⟨outs, houts, chunks, hchunks, hs⟩ := hr
  rw [houts] at heq
  rw [Except.ok.inj heq] at hchunks
  obtain ⟨ps, _, hps, hrest, rfl⟩ := List.forall₂_cons_right_iff.1 hchunks
  obtain ⟨qs, _, hqs, hnil, rfl⟩ := List.forall₂_cons_right_iff.1 hrest
  obtain rfl := List.forall₂_nil_right_iff.1 hnil
  have htools' := arr_keep htools
  rw [← sseDelta_toolCalls content] at htools'
  obtain ⟨p, rfl, hp, hpf⟩ := sseChunk_piece hps htools'
  obtain ⟨q, rfl, hq, hqf⟩ := sseChunk_piece hqs rfl
  have hlen : a.choices.length = 1 := by
    by_contra hne
    have hlt : 1 < a.choices.length := by
      rw [hcs, List.length_cons] at hne ⊢
      omega
    have hfinish := (hs.choices 1 hlt).finish.1
    simp [hp, hq] at hfinish
  refine ⟨hlen, ?_⟩
  have hone : cs = [] := by
    rw [hcs, List.length_cons] at hlen
    exact List.length_eq_zero_iff.1 (by omega)
  subst hone
  rw [hcs, List.forall_mem_singleton]
  by_contra hlt
  have hassemble := hs.choices 0 (by omega)
  simp only [hcs, List.getElem_cons_zero] at hassemble
  obtain ⟨f, hf, -⟩ := List.mem_map.1 (hassemble.calls 1 (by omega)).id.1
  rw [List.mem_filter, decide_eq_true_eq, List.mem_flatMap] at hf
  obtain ⟨⟨r, hr, hfr⟩, hone⟩ := hf
  simp only [List.mem_filter, List.flatten_cons, List.flatten_nil, List.cons_append,
    List.nil_append, List.mem_cons, List.not_mem_nil, or_false] at hr
  rcases hr.1 with rfl | rfl
  · exact absurd hone (by rw [index_zero hcalls hpf f hfr]; decide)
  · rw [List.forall₂_nil_right_iff.1 hqf] at hfr
    cases hfr

theorem replays_iff {a : Answer} {j : Json} (h : IsResponse a j) : Replays j a ↔ Plain a :=
  ⟨plain_of_replays h, replays_of_plain h⟩

/-! ## Streamed answers -/

theorem Call.toJson_isCall (c : Call) : IsCall c c.toJson := ⟨_, _, rfl, rfl, rfl, rfl, rfl, rfl, rfl⟩

theorem calls_isCall (calls : List Call) :
    List.Forall₂ IsCall calls (calls.map Call.toJson) := by
  induction calls with
  | nil => exact .nil
  | cons c calls ih => exact .cons c.toJson_isCall ih

theorem payload_single {r : CanonicalCompletion} {a : Answer} (hraw : r.raw = none)
    (h : IsResponse a (completionPayload r)) : a.choices.length = 1 := by
  obtain ⟨fields, entries, heq, hchoices, hall⟩ := h
  rw [completionPayload, hraw] at heq
  obtain rfl := Json.obj.inj heq
  obtain rfl := Json.arr.inj (Option.some.inj hchoices)
  simpa using hall.length_eq

theorem text_orNull (s : String) : ((Json.str s).orElse .null).orElse (.str "") = .str s := by
  by_cases hs : s = ""
  · subst hs
    rfl
  · have ht := (Json.truthy_str s).2 hs
    simp only [Json.orElse, ht, if_true]

theorem payload_isResponse {r : CanonicalCompletion} {a : Answer} {c : Choice}
    (ha : a.choices = [c]) (hraw : r.raw = none) (hcontent : r.content = .str c.content)
    (htools : r.toolCalls.orElse (.arr []) = .arr (c.calls.map Call.toJson))
    (hfinish : r.finishReason = .str c.finish) : IsResponse a (completionPayload r) := by
  rw [completionPayload, hraw, IsResponse, ha]
  refine ⟨_, _, rfl, rfl, .cons ⟨_, _, c.calls.map Call.toJson, rfl, rfl, ?_, rfl, ?_, ?_,
    calls_isCall c.calls⟩ .nil⟩
  · rw [hfinish]
    rfl
  · have hval : ∀ m : List (String × Json), (Json.obj (if r.toolCalls.truthy then
        [("role", .str "assistant"), ("content", r.content.orElse .null)] ++ m
        else [("role", .str "assistant"), ("content", r.content.orElse .null)])).val "content" =
          r.content.orElse .null := fun m => by split_ifs <;> rfl
    have htext : (r.content.orElse .null).orElse (.str "") = .str c.content := by
      rw [hcontent]
      exact text_orNull c.content
    exact (congrArg (fun v => v.orElse (.str "")) (hval [("tool_calls", r.toolCalls)])).trans htext
  · have hkeep := arr_keep htools
    by_cases ht : r.toolCalls.truthy = true
    · simpa [ht, Json.item] using hkeep
    · simpa [ht, Json.item] using hkeep

theorem assembled_raw {events : List Json} {r : CanonicalCompletion}
    (h : assembleStream events = .ok r) : r.raw = none := by
  simp only [assembleStream, Py.bind_eq_ok] at h
  obtain ⟨_, _, _, _, _, _, _, _, h⟩ := h
  rw [← Except.ok.inj h]

theorem assembled_response_iff {events : List Json} {a : Answer} (h : Streamed events a) :
    (∃ r, assembleStream events = .ok r ∧ IsResponse a (completionPayload r)) ↔
      a.choices.length = 1 := by
  constructor
  · intro hr
    obtain ⟨r, hr, hresponse⟩ := hr
    exact payload_single (assembled_raw hr) hresponse
  · intro hlen
    obtain ⟨c, hc⟩ := List.length_eq_one_iff.1 hlen
    obtain ⟨r, hr, hraw, hcontent, htools, hfinish⟩ := assembleStream_eq h hc
    exact ⟨r, hr, payload_isResponse hc hraw hcontent htools hfinish⟩

theorem faithful_iff_plain {events : List Json} {a : Answer} (h : Streamed events a) :
    Faithful events a ↔ Plain a := by
  constructor
  · intro hf
    obtain ⟨r, _, hr, hreplay⟩ := hf
    exact plain_of_replays hr hreplay
  · intro hp
    obtain ⟨r, hr, hresponse⟩ := (assembled_response_iff h).2 hp.1
    exact ⟨r, hr, hresponse, replays_of_plain hresponse hp⟩

theorem parsed_payload {raw : Json} {r : CanonicalCompletion} (h : parseCompletion raw = .ok r) :
    completionPayload r = raw := by
  simp only [parseCompletion, Py.bind_eq_ok] at h
  obtain ⟨_, _, _, _, _, _, _, _, _, _, _, _, _, _, _, _, _, _, h⟩ := h
  rw [← Except.ok.inj h]
  rfl

/-- A stream, or a stored completion, is replayed whole over SSE exactly when the answer has one
choice and at most one tool call; as JSON, exactly when it has one choice. -/
theorem replay_faithful_iff (a : Answer) :
    (∀ events, Streamed events a → (Faithful events a ↔ Plain a)) ∧
      (∀ events, Streamed events a →
        ((∃ r, assembleStream events = .ok r ∧ IsResponse a (completionPayload r)) ↔
          a.choices.length = 1)) ∧
      ∀ raw r, IsResponse a raw → parseCompletion raw = .ok r →
        (Replays (completionPayload r) a ↔ Plain a) := by
  refine ⟨fun _ h => faithful_iff_plain h, fun _ h => assembled_response_iff h, ?_⟩
  intro raw r hraw hr
  rw [parsed_payload hr]
  exact replays_iff hraw

/-! ## Two choices -/

def twoAnswer : Answer where
  choices := [⟨"yes", [], "stop", by decide⟩, ⟨"no", [], "stop", by decide⟩]
  choices_ne := by simp

def twoPieces : List Piece := [⟨0, "yes", [], "stop"⟩, ⟨1, "no", [], "stop"⟩]

def twoEvents : List Json :=
  [.obj [("choices", .arr [
    .obj [("index", .int 0), ("delta", .obj [("content", .str "yes")]),
      ("finish_reason", .str "stop")],
    .obj [("index", .int 1), ("delta", .obj [("content", .str "no")]),
      ("finish_reason", .str "stop")]])]]

theorem two_streamed : Streamed twoEvents twoAnswer := by
  refine ⟨[twoPieces], .cons ⟨_, _, rfl, rfl, ?_, fun h => absurd h (by decide)⟩ .nil, ?_, ?_⟩
  · exact .cons ⟨_, _, [], rfl, rfl, rfl, rfl, rfl, .nil, rfl⟩
      (.cons ⟨_, _, [], rfl, rfl, rfl, rfl, rfl, .nil, rfl⟩ .nil)
  · intro i hi
    match i, hi with
    | 0, _ => exact ⟨rfl, fun t ht => absurd ht (Nat.not_lt_zero t), fun _ hf => absurd hf
        List.not_mem_nil, Announces.single rfl⟩
    | 1, _ => exact ⟨rfl, fun t ht => absurd ht (Nat.not_lt_zero t), fun _ hf => absurd hf
        List.not_mem_nil, Announces.single rfl⟩
  · intro p hp
    simp only [List.flatten_cons, List.flatten_nil, List.append_nil, twoPieces, List.mem_cons,
      List.not_mem_nil, or_false] at hp
    rcases hp with rfl | rfl <;> decide

def twoChoice (i : ℤ) (text : String) : Json :=
  .obj [("index", .int i), ("message", .obj [("content", .str text)]),
    ("finish_reason", .str "stop")]

def twoResponse : Json := .obj [("choices", .arr [twoChoice 0 "yes", twoChoice 1 "no"])]

theorem two_response : IsResponse twoAnswer twoResponse :=
  ⟨_, _, rfl, rfl, .cons ⟨_, _, [], rfl, rfl, rfl, rfl, rfl, rfl, .nil⟩
    (.cons ⟨_, _, [], rfl, rfl, rfl, rfl, rfl, rfl, .nil⟩ .nil)⟩

theorem two_replayed : (Faithful twoEvents twoAnswer ↔ Plain twoAnswer) ∧
    ((∃ r, assembleStream twoEvents = .ok r ∧ IsResponse twoAnswer (completionPayload r)) ↔
      twoAnswer.choices.length = 1) ∧
    ∃ r, parseCompletion twoResponse = .ok r ∧
      (Replays (completionPayload r) twoAnswer ↔ Plain twoAnswer) := by
  obtain ⟨hstream, hjson, hstored⟩ := replay_faithful_iff twoAnswer
  exact ⟨hstream _ two_streamed, hjson _ two_streamed, _, rfl, hstored _ _ two_response rfl⟩

/-- The assembled payload answers `yesno` as its only choice. -/
theorem two_choices_mixed :
    ¬ ∀ (events : List Json) (a : Answer), Streamed events a → Faithful events a := fun h =>
  absurd ((faithful_iff_plain two_streamed).1 (h _ _ two_streamed)).1 (by decide)

end Varsten.Proxy.OpenAIStream
