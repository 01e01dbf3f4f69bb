import Varsten.Proxy.TrimStable

/-!
# The last turn

A last turn that repeats an earlier one of the window is dropped as a duplicate, so that the
conversation then ends with another turn, unless what stands between repeats too.
-/

namespace Varsten.Proxy.Trim

open Python (Json Py)
open Machine.FirstSeen

def collapsed (m : Json) : Json :=
  match text? m with
  | none => m
  | some t => withText m (collapseText t)

/-- Equal up to the whitespace of the text. -/
def Alike (m m' : Json) : Prop := collapsed m = collapsed m'

instance {m m' : Json} : Decidable (Alike m m') := inferInstanceAs (Decidable (_ = _))

/-- The last turn stays last, every system text is there, and the turns are some of those that
there were, in their order. -/
structure Keeps (turn : Json) (messages out : List Json) : Prop where
  last : ∃ m, out.getLast? = some m ∧ Alike turn m
  systems : ∀ m ∈ systems messages, ∀ t, text? m = some t →
    ∃ m' ∈ Trim.systems out, (text? m').map collapseText = some (collapseText t)
  turns : ∃ ms, ms.Sublist (Trim.turns messages) ∧ List.Forall₂ Alike ms (Trim.turns out)

section

variable {p : TrimParams} {m turn : Json} {messages : List Json} {params : Json} {t : String}

theorem setItem_setItem (k : String) (v w : Json) (fields : List (String × Json)) :
    Json.setItem k v (Json.setItem k w fields) = Json.setItem k v fields := by
  induction fields with
  | nil => simp [Json.setItem]
  | cons f fields ih =>
    rw [Json.setItem, Json.setItem]
    split_ifs with hf
    · rw [Json.setItem, if_pos rfl]
    · rw [Json.setItem, if_neg hf, ih]

theorem withText_withText {s : String} : withText (withText m s) t = withText m t := by
  cases m with
  | obj fields => rw [withText, withText, withText, setItem_setItem]
  | _ => rfl

theorem collapseText_shownText : collapseText (shownText p t) = collapseText t := by
  unfold shownText
  cases p.collapse with
  | false => rfl
  | true => exact collapseText_idempotent t

theorem collapsed_some (ht : text? m = some t) : collapsed m = withText m (collapseText t) := by
  simp only [collapsed, ht]

theorem alike_tidied : Alike m (tidied p m) := by
  rcases tidied_cases p m with h | ⟨t, ht, -, h⟩
  · rw [h]
    rfl
  · rw [h, Alike, collapsed_some ht, collapsed_some (text?_withText (dict_of_text ht)),
      withText_withText, collapseText_shownText]

theorem alike_tidied_iff : Alike turn (tidied p m) ↔ Alike turn m :=
  ⟨fun h => h.trans alike_tidied.symm, fun h => h.trans alike_tidied⟩

theorem system_text_kept (hm : m ∈ systems messages) (ht : text? m = some t) :
    ∃ m' ∈ systems (trimmed p messages), (text? m').map collapseText = some (collapseText t) := by
  obtain ⟨x, hx, hxt⟩ : ∃ x ∈ keepFirst (repeatKey p) [] (systems messages),
      (text? x).map collapseText = some (collapseText t) := by
    cases hd : p.dedupe with
    | false =>
      exact ⟨m, mem_keepFirst_of_none hm (repeatKey_off hd), by rw [ht, Option.map_some]⟩
    | true =>
      obtain ⟨x, hx, hkey⟩ := exists_keepFirst hm (repeatKey_some hd ht) (List.not_mem_nil)
      refine ⟨x, hx, ?_⟩
      rw [repeatKey, if_pos hd, Option.map_eq_some_iff] at hkey
      obtain ⟨s, hs, hsame⟩ := hkey
      rw [hs, Option.map_some, ← collapseText_shownText (p := p), (Prod.mk.inj hsame).2,
        collapseText_shownText]
  refine ⟨tidied p x, ?_, ?_⟩
  · rw [trimmed, systems_map, systems_kept]
    exact List.mem_map_of_mem hx
  · rw [text?_tidied, Option.map_map]
    rw [← hxt]
    simp [Function.comp_def, collapseText_shownText]

theorem turns_trimmed : ∃ ms, ms.Sublist (turns messages) ∧
    List.Forall₂ Alike ms (turns (trimmed p messages)) := by
  refine ⟨keepFirst (repeatKey p) [] (window p.keepLast (turns messages)),
    keepFirst_sublist.trans window_suffix.sublist, ?_⟩
  rw [trimmed, turns_map, turns_kept]
  exact List.forall₂_map_right_iff.2 (List.forall₂_same.2 fun _ _ => alike_tidied)

/-- The conversation ends with the last turn of the window that repeats none before it. -/
theorem getLast?_trimmed {m' : Json} (h : turns messages ≠ []) :
    (trimmed p messages).getLast? = some m' ↔
      ∃ m, LastFresh (repeatKey p) (window p.keepLast (turns messages)) m ∧ tidied p m = m' := by
  obtain ⟨x, hx⟩ : ∃ x, LastFresh (repeatKey p) (window p.keepLast (turns messages)) x :=
    exists_lastFresh (window_ne_nil h)
  have hlast : (kept p messages).getLast? = some x := by
    rw [kept_eq, List.getLast?_append, hx.getLast?, Option.some_or]
  rw [trimmed, List.getLast?_map, hlast, Option.map_some, Option.some.injEq]
  refine ⟨fun hm => ⟨x, hx, hm⟩, ?_⟩
  rintro ⟨m, hm, rfl⟩
  rw [Option.some.inj (hx.getLast?.symm.trans hm.getLast?)]

/-- The last turn is kept exactly where no other turn of the window is new after it came first. -/
theorem question_kept_iff (hlast : messages.getLast? = some turn)
    (hturn : isSystemTurn turn = false) :
    (∃ out changed, trimMessages messages params = .ok (out, changed) ∧ Keeps turn messages out) ↔
      ∃ p, trimParams params = .ok p ∧ Trims p messages ∧ ∃ m,
        LastFresh (repeatKey p) (window p.keepLast (turns messages)) m ∧ Alike turn m := by
  have hmem : turn ∈ messages := List.mem_of_getLast? hlast
  have hne : messages ≠ [] := List.ne_nil_of_mem hmem
  have hturns : turns messages ≠ [] :=
    List.ne_nil_of_mem (List.mem_filter.2 ⟨hmem, by rw [hturn]; rfl⟩)
  constructor
  · rintro ⟨out, changed, h, hkeeps⟩
    obtain ⟨p, hp, htrims, rfl, -⟩ := trimMessages_inv h hne
    obtain ⟨m', hm', halike⟩ := hkeeps.last
    obtain ⟨m, hm, rfl⟩ := (getLast?_trimmed hturns).1 hm'
    exact ⟨p, hp, htrims, m, hm, alike_tidied_iff.1 halike⟩
  · rintro ⟨p, hp, htrims, m, hm, halike⟩
    exact ⟨_, _, trimMessages_eq hp htrims hne,
      ⟨tidied p m, (getLast?_trimmed hturns).2 ⟨m, hm, rfl⟩, alike_tidied_iff.2 halike⟩,
      fun _ hm _ ht => system_text_kept hm ht, turns_trimmed⟩

end

def said (role content : String) : Json := .obj [("role", .str role), ("content", .str content)]

/-- The last turn repeats the only one before it. -/
theorem repeated_kept : ∃ out changed,
    trimMessages [said "user" "hi  there", said "user" "hi there"] (.obj []) = .ok (out, changed) ∧
      Keeps (said "user" "hi there") [said "user" "hi  there", said "user" "hi there"] out := by
  refine (question_kept_iff rfl rfl).2 ⟨⟨12, true, true⟩, rfl, trims_of_roles ?_,
    said "user" "hi  there", ⟨[], [said "user" "hi there"], by decide +kernel, ?_, ?_⟩,
    by decide +kernel⟩
  · rw [List.forall_mem_cons, List.forall_mem_singleton]
    exact ⟨⟨_, rfl⟩, ⟨_, rfl⟩⟩
  · decide +kernel
  · rw [List.forall_mem_singleton]
    exact ⟨(.str "user", "hi there"), by decide +kernel, by decide +kernel⟩

/-- The last answer is dropped: it repeats the first. -/
theorem answer_dropped : ¬∃ out changed,
    trimMessages [said "user" "yes", said "assistant" "Delete both?", said "user" "yes"] (.obj []) =
      .ok (out, changed) ∧
      Keeps (said "user" "yes")
        [said "user" "yes", said "assistant" "Delete both?", said "user" "yes"] out := by
  rintro ⟨out, changed, h, hkeeps⟩
  have hout : trimMessages [said "user" "yes", said "assistant" "Delete both?", said "user" "yes"]
      (.obj []) = .ok ([said "user" "yes", said "assistant" "Delete both?"], true) := by
    decide +kernel
  obtain ⟨rfl, -⟩ := Prod.mk.inj (Except.ok.inj (h.symm.trans hout))
  obtain ⟨m, hm, halike⟩ := hkeeps.last
  obtain rfl := Option.some.inj hm
  revert halike
  decide +kernel

end Varsten.Proxy.Trim
