import Varsten.Proxy.TrimOrder

/-!
# Trimming again

Trimming what was trimmed changes nothing: the order is kept, the window has room, the texts are
collapsed and none of them repeats another.
-/

namespace Varsten.Proxy.Trim

open Python (Json Py)
open Machine.FirstSeen

/-- The message itself or with its text collapsed. -/
def Collapsed (m m' : Json) : Prop :=
  m' = m ∨ ∃ t, text? m = some t ∧ m' = withText m (collapseText t)

def partLength (part : Json) : ℕ :=
  match part.val "text" with
  | .str t => t.length
  | _ => 0

def textLength (m : Json) : ℕ :=
  match m.val "content" with
  | .str t => t.length
  | .arr parts => (parts.map partLength).sum
  | _ => 0

def totalLength (messages : List Json) : ℕ := (messages.map textLength).sum

section

variable {p : TrimParams} {m : Json} {messages out : List Json} {params : Json} {changed : Bool}

theorem collapsed_tidied : Collapsed m (tidied p m) := by
  rcases tidied_cases p m with h | ⟨t, ht, hne, h⟩
  · exact .inl h
  · refine .inr ⟨t, ht, ?_⟩
    rw [h]
    unfold shownText at hne ⊢
    cases hc : p.collapse with
    | false =>
      rw [hc] at hne
      exact absurd rfl hne
    | true => rfl

theorem textLength_of_text {t : String} (ht : text? m = some t) : textLength m = t.length := by
  rw [textLength, text?_eq_some.1 ht]

theorem textLength_tidied : textLength (tidied p m) ≤ textLength m := by
  rcases tidied_cases p m with h | ⟨t, ht, -, h⟩
  · rw [h]
  · have htidy : text? (tidied p m) = some (shownText p t) := by
      rw [text?_tidied, ht, Option.map_some]
    rw [textLength_of_text htidy, textLength_of_text ht]
    exact length_shownText

/-! ## The same again -/

theorem length_turns_kept :
    (turns (kept p messages)).length ≤ (window p.keepLast (turns messages)).length := by
  rw [turns_kept]
  exact keepFirst_sublist.length_le

theorem ordered_trimmed : ordered p (trimmed p messages) = trimmed p messages := by
  have hwindow : window p.keepLast ((turns (kept p messages)).map (tidied p)) =
      (turns (kept p messages)).map (tidied p) :=
    window_of_le (by simpa using length_turns_kept)
  rw [ordered, trimmed, systems_map, turns_map, hwindow, ← List.map_append, systems_kept,
    turns_kept, ← kept_eq]

theorem kept_trimmed : kept p (trimmed p messages) = trimmed p messages := by
  rw [kept, ordered_trimmed, trimmed, keepFirst_map fun _ _ => repeatKey_tidied, kept,
    keepFirst_keepFirst]

theorem trimmed_trimmed : trimmed p (trimmed p messages) = trimmed p messages := by
  rw [trimmed, kept_trimmed, trimmed, List.map_map]
  simp [Function.comp_def]

theorem Trims.trimmed (h : Trims p messages) : Trims p (trimmed p messages) := by
  have hout : ∀ m ∈ Trim.trimmed p messages, Readable p m := by
    intro m hm
    obtain ⟨x, hx, rfl⟩ := List.mem_map.1 hm
    exact (h.readable x (kept_sublist.subset hx)).tidied
  exact ⟨fun m hm => (hout m hm).dict, by rwa [ordered_trimmed]⟩

theorem key_mem_of_text {fields : List (String × Json)} {t : String}
    (ht : text? (.obj fields) = some t) : "content" ∈ fields.map Prod.fst := by
  rw [text?_eq_some, Json.val_obj] at ht
  cases hitem : Json.item "content" fields with
  | none =>
    rw [hitem] at ht
    cases ht
  | some v => exact List.mem_map_of_mem (Json.mem_of_item hitem)

theorem keyed_tidied (h : Json.Keyed m) : Json.Keyed (tidied p m) := by
  rcases tidied_cases p m with htidy | ⟨t, ht, -, htidy⟩
  · rwa [htidy]
  · obtain ⟨fields, rfl⟩ := exists_fields (dict_of_text ht)
    rw [htidy]
    exact Json.keyed_setItem h (key_mem_of_text ht) trivial

theorem keyed_trimmed (h : Json.KeyedList messages) : Json.KeyedList (trimmed p messages) := by
  rw [Json.keyedList_iff] at h ⊢
  intro m hm
  obtain ⟨x, hx, rfl⟩ := List.mem_map.1 hm
  exact keyed_tidied (h x (kept_subperm.subset hx))

/-! ## A result that equals the input -/

theorem kept_of_length (h : (trimmed p messages).length = messages.length) :
    kept p messages = ordered p messages ∧ window p.keepLast (turns messages) = turns messages := by
  have hkept : (kept p messages).length ≤ (ordered p messages).length := kept_sublist.length_le
  have hwindow : (window p.keepLast (turns messages)).length ≤ (turns messages).length :=
    window_suffix.length_le
  have hsplit : (systems messages ++ turns messages).length = messages.length :=
    (List.filter_append_perm isSystemTurn messages).length_eq
  have hordered : (ordered p messages).length =
      (systems messages).length + (window p.keepLast (turns messages)).length :=
    List.length_append
  rw [trimmed, List.length_map] at h
  rw [List.length_append] at hsplit
  exact ⟨kept_sublist.eq_of_length (by omega), window_suffix.eq_of_length (by omega)⟩

theorem systems_prefix {xs ys zs : List Json} (h : Json.pyEqList (xs ++ ys) zs = true)
    (hxs : ∀ x ∈ xs, isSystemTurn x = true) : ∃ pre post, zs = pre ++ post ∧
      pre.length = xs.length ∧ ∀ z ∈ pre, isSystemTurn z = true := by
  induction xs generalizing zs with
  | nil => exact ⟨[], zs, rfl, rfl, List.forall_mem_nil _⟩
  | cons x xs ih =>
    cases zs with
    | nil => cases h
    | cons z zs =>
      rw [List.cons_append, Json.pyEqList, Bool.and_eq_true] at h
      rw [List.forall_mem_cons] at hxs
      obtain ⟨pre, post, rfl, hlen, hpre⟩ := ih h.2 hxs.2
      have hz : isSystemTurn z = true :=
        decide_eq_true (Json.val_of_pyEq h.1 (of_decide_eq_true hxs.1))
      exact ⟨z :: pre, post, rfl, by rw [List.length_cons, List.length_cons, hlen],
        List.forall_mem_cons.2 ⟨hz, hpre⟩⟩

theorem in_order {pre post : List Json} (hpre : ∀ m ∈ pre, isSystemTurn m = true)
    (hlen : pre.length = (systems (pre ++ post)).length) :
    systems (pre ++ post) ++ turns (pre ++ post) = pre ++ post := by
  have hsystems : pre.filter isSystemTurn = pre := List.filter_eq_self.2 hpre
  rw [systems, List.filter_append, hsystems, List.length_append] at hlen
  have hnone : post.filter isSystemTurn = [] := List.length_eq_zero_iff.1 (by omega)
  have hturns : pre.filter (!isSystemTurn ·) = [] := List.filter_eq_nil_iff.2 fun m hm => by
    simp [hpre m hm]
  have hpost : post.filter (!isSystemTurn ·) = post := by
    refine List.filter_eq_self.2 fun m hm => ?_
    rw [List.filter_eq_nil_iff] at hnone
    simpa using hnone m hm
  rw [systems, turns, List.filter_append, List.filter_append, hsystems, hnone, hturns, hpost,
    List.append_nil, List.nil_append]

theorem map_tidied_of_pyEq {ms : List Json}
    (h : Json.pyEqList (ms.map (tidied p)) ms = true) : ms.map (tidied p) = ms := by
  induction ms with
  | nil => rfl
  | cons m ms ih =>
    rw [List.map_cons, Json.pyEqList, Bool.and_eq_true] at h
    rw [List.map_cons, tidied_eq_of_pyEq h.1, ih h.2]

theorem trimmed_eq_of_pyEq (h : Json.pyEqList (trimmed p messages) messages = true) :
    trimmed p messages = messages := by
  obtain ⟨hkept, hwindow⟩ := kept_of_length (Json.pyEqList_forall₂ h).length_eq
  have hsplit : trimmed p messages =
      (systems messages).map (tidied p) ++ (turns messages).map (tidied p) := by
    rw [trimmed, hkept, ordered, hwindow, List.map_append]
  have hsystems : ∀ m ∈ (systems messages).map (tidied p), isSystemTurn m = true := by
    intro m hm
    obtain ⟨x, hx, rfl⟩ := List.mem_map.1 hm
    rw [isSystemTurn_tidied, isSystemTurn_of_systems hx]
  obtain ⟨pre, post, hmessages, hlen, hpre⟩ := systems_prefix (hsplit ▸ h) hsystems
  rw [List.length_map] at hlen
  have hinorder : systems messages ++ turns messages = messages := by
    rw [hmessages] at hlen ⊢
    exact in_order hpre hlen
  have hmap : trimmed p messages = messages.map (tidied p) := by
    rw [trimmed, hkept, ordered, hwindow, hinorder]
  rw [hmap] at h ⊢
  exact map_tidied_of_pyEq h

theorem totalLength_trimmed : totalLength (trimmed p messages) ≤ totalLength messages := by
  obtain ⟨ms, hperm, hsub⟩ : List.Subperm (kept p messages) messages := kept_subperm
  calc totalLength (trimmed p messages)
      = ((kept p messages).map (textLength ∘ tidied p)).sum := by
        rw [totalLength, trimmed, List.map_map]
    _ ≤ ((kept p messages).map textLength).sum :=
        List.sum_le_sum fun _ _ => textLength_tidied
    _ = (ms.map textLength).sum := ((hperm.map textLength).sum_eq).symm
    _ ≤ totalLength messages :=
        (hsub.map textLength).sum_le_sum fun _ _ => Nat.zero_le _

theorem collapsed_kept : List.Forall₂ Collapsed (kept p messages) (trimmed p messages) :=
  List.forall₂_map_right_iff.2 (List.forall₂_same.2 fun _ _ => collapsed_tidied)

/-- Trimming again changes nothing, only messages and whitespace are removed, and no change is
reported exactly where there is none. -/
theorem trimMessages_stable (hkeyed : Json.KeyedList messages)
    (h : trimMessages messages params = .ok (out, changed)) :
    trimMessages out params = .ok (out, false) ∧
      (∃ ms, List.Subperm ms messages ∧ List.Forall₂ Collapsed ms out) ∧
      totalLength out ≤ totalLength messages ∧ (changed = false ↔ out = messages) := by
  by_cases hne : messages = []
  · subst hne
    obtain ⟨rfl, rfl⟩ := Prod.mk.inj (Except.ok.inj h)
    exact ⟨rfl, ⟨[], List.Subperm.refl [], .nil⟩, le_rfl, iff_of_true rfl rfl⟩
  · obtain ⟨p, hp, htrims, rfl, rfl⟩ := trimMessages_inv h hne
    have hself := Json.pyEqList_self _ (keyed_trimmed (p := p) hkeyed)
    refine ⟨?_, ⟨kept p messages, kept_subperm, collapsed_kept⟩, totalLength_trimmed, ?_⟩
    · by_cases hout : trimmed p messages = []
      · rw [hout, trimMessages, if_pos rfl]
      · rw [trimMessages_eq hp htrims.trimmed hout, trimmed_trimmed, hself]
        rfl
    · rw [Bool.not_eq_false']
      refine ⟨trimmed_eq_of_pyEq, fun hsame => ?_⟩
      rw [hsame]
      exact Json.pyEqList_self _ hkeyed

end

def chat : List Json :=
  [.obj [("role", .str "user"), ("content", .str "hi  there")],
    .obj [("role", .str "system"), ("content", .str "be brief")],
    .obj [("role", .str "user"), ("content", .str "hi there")]]

def chatTrimmed : List Json :=
  [.obj [("role", .str "system"), ("content", .str "be brief")],
    .obj [("role", .str "user"), ("content", .str "hi there")]]

theorem chat_stable : trimMessages chatTrimmed (.obj []) = .ok (chatTrimmed, false) ∧
    (∃ ms, List.Subperm ms chat ∧ List.Forall₂ Collapsed ms chatTrimmed) ∧
    totalLength chatTrimmed ≤ totalLength chat ∧ (true = false ↔ chatTrimmed = chat) :=
  trimMessages_stable (by simp [chat, Json.KeyedList, Json.Keyed, Json.KeyedFields])
    (by decide +kernel)

end Varsten.Proxy.Trim
