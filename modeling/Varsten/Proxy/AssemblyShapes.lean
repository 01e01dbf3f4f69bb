import Varsten.Proxy.StreamShapes

/-!
# The streams that are assembled

Which OpenAI events are reduced to a completion without raising: each by its shape, and all of
them by their contents, by the indexes of their tool calls and by the usage that was last.
-/

namespace Varsten.Proxy.StreamShapes.OpenAI

open Python (Json Py Runtime Returns returns_ok not_returns_error returns_bind_iff
  returns_bind_total returns_pure returns_foldlM)
open Python.Json
open Providers.OpenAI

variable {frag choice ev j : Json} {slots : Slots} {slot : Slot} {a : Assembly}

/-- `frag.get("index", 0)`. -/
def indexOf (frag : Json) : Json := (frag.getD "index" (.int 0)).toOption.getD (.int 0)

def fragmentFits (frag : Json) : Bool :=
  frag.isDict && ((indexOf frag).isHashable && ((frag.val "function").orDefault isDict &&
    (((frag.val "function").val "name").orDefault isText &&
      ((frag.val "function").val "arguments").orDefault isText)))

def toolCallsFit (toolCalls : Json) : Bool :=
  toolCalls.orDefault fun calls => calls.isIterable && calls.elements.all fragmentFits

def choiceFits (choice : Json) : Bool :=
  choice.isDict && ((choice.val "delta").orDefault isDict &&
    toolCallsFit ((choice.val "delta").val "tool_calls"))

/-- `ev.get("choices", [])`. -/
def choicesOf (ev : Json) : Json := (ev.getD "choices" (.arr [])).toOption.getD (.arr [])

def eventFits (ev : Json) : Bool :=
  ev.isDict && ((choicesOf ev).isIterable && (choicesOf ev).elements.all choiceFits)

def usageFits (usage : Json) : Bool :=
  usage.isDict && (countFits usage "prompt_tokens" && (countFits usage "completion_tokens" &&
    ((usage.val "prompt_tokens_details").orDefault isDict &&
      countFits (usage.val "prompt_tokens_details") "cached_tokens")))

/-! ## One event -/

theorem returns_append {α : Type} {s : String} {f : String → Py α} {P : Prop}
    (hf : ∀ t, Returns (f t) ↔ P) :
    Returns (if j.truthy then appendStr s j >>= f else pure s >>= f) ↔
      j.orDefault isText = true ∧ P := by
  rw [orDefault]
  cases j.truthy with
  | false => exact (hf s).trans (and_iff_right rfl).symm
  | true => exact (returns_bind_iff fun t _ => hf t).trans (and_congr_left' returns_appendStr)

theorem returns_updateSlot : Returns (updateSlot slot frag) ↔ frag.isDict = true ∧
    (frag.val "function").orDefault isDict = true ∧
      ((frag.val "function").val "name").orDefault isText = true ∧
        ((frag.val "function").val "arguments").orDefault isText = true := by
  rw [updateSlot, get_bind]
  refine and_congr_right fun hd => ?_
  rw [get_bind, and_iff_right hd, get_bind, and_iff_right hd, get_orElse_bind]
  refine and_congr_right fun hfn => ?_
  rw [get_orElse_bind, and_iff_right hfn]
  exact (returns_append fun _ => returns_append fun _ => iff_true_intro (returns_pure _)).trans
    (by rw [and_true])

theorem getD_eq {k : String} {d : Json} (hd : j.isDict = true) :
    j.getD k d = .ok ((j.getD k d).toOption.getD d) := by
  cases j with
  | obj fields => rfl
  | _ => cases hd

theorem returns_accumulate {deltas : List Json} :
    Returns (accumulateToolCalls slots deltas) ↔ deltas.all fragmentFits = true := by
  induction deltas generalizing slots with
  | nil => exact iff_of_true (returns_ok _) rfl
  | cons frag deltas ih =>
    rw [accumulateToolCalls, List.all_cons, Bool.and_eq_true]
    cases hd : frag.isDict with
    | false =>
      have hfits : fragmentFits frag = false := by rw [fragmentFits, hd, Bool.false_and]
      cases frag with
      | obj fields => cases hd
      | _ =>
        exact iff_of_false (not_returns_error _) fun h =>
          Bool.false_ne_true (hfits.symm.trans h.1)
    | true =>
      rw [getD_eq hd, Python.Py.bind_ok]
      have hrest : ∀ key, Returns (updateSlot (slotAt key slots) frag >>= fun slot =>
          accumulateToolCalls (setSlot key slot slots) deltas) ↔
          Returns (updateSlot (slotAt key slots) frag) ∧ deltas.all fragmentFits = true :=
        fun key => returns_bind_iff fun slot _ => ih
      simp only [returns_updateSlot] at hrest
      rw [returns_bind_iff fun key _ => hrest key, returns_hashKey]
      simp only [fragmentFits, hd, Bool.and_eq_true, and_assoc, indexOf, true_and]

theorem returns_toolCalls {calls : Json} :
    Returns (withToolCalls slots calls) ↔ toolCallsFit calls = true := by
  rw [withToolCalls, toolCallsFit, orDefault]
  cases calls.truthy with
  | false => exact iff_of_true (returns_ok _) rfl
  | true =>
    have hloop : ∀ xs, calls.iter = .ok xs → (Returns (accumulateToolCalls slots xs) ↔
        calls.elements.all fragmentFits = true) := by
      intro xs hxs
      rw [iter_eq hxs, returns_accumulate]
    rw [if_pos rfl, returns_bind_iff hloop, returns_iter, Bool.not_true, Bool.false_or,
      Bool.and_eq_true]

theorem returns_choice : Returns (assembleChoice a choice) ↔ choiceFits choice = true := by
  simp only [choiceFits, Bool.and_eq_true]
  rw [assembleChoice, get_bind]
  refine and_congr_right fun hd => ?_
  rw [get_orElse_bind]
  refine and_congr_right fun hdelta => ?_
  rw [get_orElse_bind, and_iff_right hdelta, returns_bind_total fun slots => ?_, returns_toolCalls]
  exact (get_bind _).2 ⟨hd, returns_pure _⟩

theorem returns_event : Returns (assembleEvent a ev) ↔ eventFits ev = true := by
  simp only [eventFits, Bool.and_eq_true]
  rw [assembleEvent, get_bind]
  refine and_congr_right fun hd => ?_
  rw [get_bind, and_iff_right hd, getD_eq hd, Python.Py.bind_ok, ← choicesOf]
  have hloop : ∀ xs, (choicesOf ev).iter = .ok xs → ∀ a : Assembly,
      (Returns (xs.foldlM assembleChoice a) ↔ (choicesOf ev).elements.all choiceFits = true) := by
    intro xs hxs a
    rw [iter_eq hxs, List.all_eq_true]
    exact returns_foldlM (fun c => choiceFits c = true) (fun _ _ _ => returns_choice) a
  rw [returns_bind_iff fun xs hxs => hloop xs hxs _, returns_iter]

theorem returns_events {events : List Json} :
    Returns (events.foldlM assembleEvent a) ↔ events.all eventFits = true := by
  rw [List.all_eq_true]
  exact returns_foldlM (fun ev => eventFits ev = true) (fun _ _ _ => returns_event) a

theorem returns_usage {usage : Json} :
    Returns (Providers.OpenAI.usageFrom usage) ↔ usageFits usage = true := by
  simp only [usageFits, countFits, Bool.and_eq_true]
  rw [usageFrom, get_bind]
  refine and_congr_right fun hd => ?_
  rw [get_bind, and_iff_right hd, returns_bind_iff fun _ _ => ?_, returns_toInt_orElse]
  rw [get_bind, and_iff_right hd, returns_bind_iff fun _ _ => ?_, returns_toInt_orElse]
  rw [get_orElse_bind, returns_bind_total fun _ => returns_pure _, returns_toInt_orElse]

/-! ## All the events -/

structure Gathered where
  parts : List Json
  keys : List Json
  usage : Json

def Gathered.start : Gathered := ⟨[], [], .obj []⟩

def keyOf (frag : Json) : Json := (indexOf frag).hashKey.toOption.getD .null

def gatherChoice (g : Gathered) (choice : Json) : Gathered :=
  let delta := choice.val "delta"
  { g with
    parts := if (delta.val "content").truthy then g.parts ++ [delta.val "content"] else g.parts
    keys := if (delta.val "tool_calls").truthy then
        g.keys ++ (delta.val "tool_calls").elements.map keyOf
      else g.keys }

def gather (g : Gathered) (ev : Json) : Gathered :=
  (choicesOf ev).elements.foldl gatherChoice
    { g with usage := if (ev.val "usage").truthy then ev.val "usage" else g.usage }

def gathered (events : List Json) : Gathered := events.foldl gather .start

/-- Keys that `sorted` can compare: there is one, or all are numbers or all are texts. -/
def sortable (keys : List Json) : Bool :=
  (keys.all fun k => keys.all fun l => k = l) ||
    (keys.all (fun k => match k with | .float _ => true | _ => false) ||
      keys.all (fun k => match k with | .str _ => true | _ => false))

def assembles (events : List Json) : Bool :=
  events.all eventFits && (sortable (gathered events).keys &&
    ((gathered events).parts.all isText && usageFits (gathered events).usage))

structure Agrees (a : Assembly) (g : Gathered) : Prop where
  parts : a.parts = g.parts
  keys : ∀ k, k ∈ a.slots.map Prod.fst ↔ k ∈ g.keys
  nodup : (a.slots.map Prod.fst).Nodup
  usage : a.usage = g.usage

theorem mem_setSlot {key k : Json} :
    k ∈ (setSlot key slot slots).map Prod.fst ↔ k = key ∨ k ∈ slots.map Prod.fst := by
  induction slots with
  | nil => simp [setSlot]
  | cons s slots ih =>
    rw [setSlot]
    split_ifs with hs
    · simp [hs]
    · rw [List.map_cons, List.mem_cons, ih, List.map_cons, List.mem_cons]
      tauto

theorem nodup_setSlot {key : Json} (h : (slots.map Prod.fst).Nodup) :
    ((setSlot key slot slots).map Prod.fst).Nodup := by
  induction slots with
  | nil => simp [setSlot]
  | cons s slots ih =>
    rw [setSlot]
    rw [List.map_cons, List.nodup_cons] at h
    split_ifs with hs
    · rw [List.map_cons, List.nodup_cons, ← hs]
      exact h
    · rw [List.map_cons, List.nodup_cons, mem_setSlot]
      exact ⟨fun hmem => hmem.elim hs h.1, ih h.2⟩

theorem accumulate_keys {slots' : Slots} {deltas : List Json}
    (h : accumulateToolCalls slots deltas = .ok slots') (hnodup : (slots.map Prod.fst).Nodup) :
    (slots'.map Prod.fst).Nodup ∧
      ∀ k, k ∈ slots'.map Prod.fst ↔ k ∈ slots.map Prod.fst ++ deltas.map keyOf := by
  induction deltas generalizing slots with
  | nil =>
    obtain rfl := Except.ok.inj h
    simp [hnodup]
  | cons frag deltas ih =>
    rw [accumulateToolCalls] at h
    obtain ⟨index, hindex, h⟩ := Python.Py.bind_eq_ok.1 h
    obtain ⟨key, hkey, h⟩ := Python.Py.bind_eq_ok.1 h
    obtain ⟨slot, -, h⟩ := Python.Py.bind_eq_ok.1 h
    obtain ⟨hnodup', hkeys⟩ := ih h (nodup_setSlot hnodup)
    have hkeyOf : keyOf frag = key := by
      have hget : indexOf frag = index := by
        rw [indexOf, hindex]
        rfl
      rw [keyOf, hget, hkey]
      rfl
    refine ⟨hnodup', fun k => ?_⟩
    rw [hkeys, List.mem_append, List.mem_append, mem_setSlot, List.map_cons, List.mem_cons, hkeyOf]
    tauto

theorem toolCalls_keys {slots' : Slots} {calls : Json}
    (h : withToolCalls slots calls = .ok slots') (hnodup : (slots.map Prod.fst).Nodup) :
    (slots'.map Prod.fst).Nodup ∧ ∀ k, k ∈ slots'.map Prod.fst ↔ k ∈ slots.map Prod.fst ∨
      calls.truthy = true ∧ k ∈ calls.elements.map keyOf := by
  rw [withToolCalls] at h
  split_ifs at h with htruthy
  · obtain ⟨deltas, hdeltas, h⟩ := Python.Py.bind_eq_ok.1 h
    obtain ⟨hnodup', hkeys⟩ := accumulate_keys h hnodup
    refine ⟨hnodup', fun k => ?_⟩
    rw [hkeys, List.mem_append, iter_eq hdeltas, and_iff_right htruthy]
  · obtain rfl := Except.ok.inj h
    refine ⟨hnodup, fun k => ?_⟩
    simp [htruthy]

theorem choice_agrees {g : Gathered} {a' : Assembly} (h : Agrees a g)
    (hchoice : assembleChoice a choice = .ok a') : Agrees a' (gatherChoice g choice) := by
  rw [assembleChoice] at hchoice
  obtain ⟨delta, hdelta, hchoice⟩ := Python.Py.bind_eq_ok.1 hchoice
  obtain ⟨content, hcontent, hchoice⟩ := Python.Py.bind_eq_ok.1 hchoice
  obtain ⟨calls, hcalls, hchoice⟩ := Python.Py.bind_eq_ok.1 hchoice
  obtain ⟨slots, hslots, hchoice⟩ := Python.Py.bind_eq_ok.1 hchoice
  obtain ⟨finish, -, hchoice⟩ := Python.Py.bind_eq_ok.1 hchoice
  obtain rfl := Except.ok.inj hchoice
  obtain rfl := get_eq_ok hdelta
  have hcontent' := get_eq_ok hcontent
  have hcalls' := get_eq_ok hcalls
  rw [val_orElse_empty] at hcontent' hcalls'
  subst hcontent' hcalls'
  obtain ⟨hnodup, hkeys⟩ := toolCalls_keys hslots h.nodup
  refine ⟨?_, fun k => ?_, hnodup, h.usage⟩
  · dsimp only [gatherChoice]
    rw [h.parts]
  · dsimp only [gatherChoice]
    rw [hkeys, h.keys]
    split_ifs with htruthy
    · rw [List.mem_append, and_iff_right htruthy]
    · simp [htruthy]

theorem event_agrees {g : Gathered} {a' : Assembly} (h : Agrees a g)
    (hev : assembleEvent a ev = .ok a') : Agrees a' (gather g ev) := by
  rw [assembleEvent] at hev
  obtain ⟨model, hmodel, hev⟩ := Python.Py.bind_eq_ok.1 hev
  obtain ⟨usage, husage, hev⟩ := Python.Py.bind_eq_ok.1 hev
  obtain ⟨choices, hchoices, hev⟩ := Python.Py.bind_eq_ok.1 hev
  obtain ⟨xs, hxs, hev⟩ := Python.Py.bind_eq_ok.1 hev
  obtain rfl := get_eq_ok husage
  have helements : xs = (choicesOf ev).elements := by
    rw [choicesOf, hchoices]
    exact iter_eq hxs
  rw [helements] at hev
  refine Python.Py.foldlM_simulates choice_agrees ?_ hev
  exact ⟨h.parts, h.keys, h.nodup, by rw [h.usage]⟩

theorem start_agrees : Agrees .start .start :=
  ⟨rfl, fun _ => Iff.rfl, List.nodup_nil, rfl⟩

/-- Keys without repeats are comparable where there are fewer than two or where they are of one
sort. -/
theorem comparable_iff {keys seen : List Json} (hnodup : keys.Nodup)
    (h : ∀ k, k ∈ keys ↔ k ∈ seen) : comparable keys = sortable seen := by
  have hall : ∀ p : Json → Bool, keys.all p = seen.all p := by
    intro p
    rw [Bool.eq_iff_iff, List.all_eq_true, List.all_eq_true]
    exact forall_congr' fun k => by rw [h]
  rw [sortable, ← hall, ← hall, ← hall]
  simp only [← hall]
  match keys, hnodup with
  | [], _ => rfl
  | [k], _ => simp [comparable]
  | k :: l :: keys, hnodup =>
    have hne : k ≠ l := fun heq => by simp [heq] at hnodup
    have hdiffer : ((k :: l :: keys).all fun a => (k :: l :: keys).all fun b => a = b) = false := by
      simp [hne]
    exact (congrArg₂ or hdiffer rfl).symm

theorem returns_sorted {g : Gathered} (h : Agrees a g) :
    Returns (sortedSlots a.slots) ↔ sortable g.keys = true := by
  rw [sortedSlots, ← comparable_iff h.nodup h.keys]
  split_ifs with hkeys
  · exact iff_of_true (returns_ok _) hkeys
  · exact iff_of_false (not_returns_error _) hkeys

theorem returns_join {parts : List Json} :
    Returns (joinParts parts) ↔ parts.all isText = true := by
  rw [List.all_eq_true]
  exact returns_foldlM (fun p => isText p = true) (fun _ _ _ => returns_appendStr) ""

theorem returns_assembleStream {events : List Json} :
    Returns (assembleStream events) ↔ assembles events = true := by
  simp only [assembles, Bool.and_eq_true]
  rw [assembleStream, returns_bind_iff fun a ha => ?_, returns_events]
  have hagrees : Agrees a (gathered events) :=
    Python.Py.foldlM_simulates event_agrees start_agrees ha
  rw [returns_bind_iff fun _ _ => ?_, returns_sorted hagrees]
  rw [returns_bind_iff fun _ _ => ?_, returns_join, hagrees.parts]
  rw [returns_bind_total fun _ => returns_pure _, returns_usage, hagrees.usage]

end Varsten.Proxy.StreamShapes.OpenAI
