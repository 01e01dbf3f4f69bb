import Varsten.Machine.FirstSeen
import Varsten.Proxy.TrimText
import Varsten.Python.Equality
import Varsten.Python.Returns

/-!
# What trimming keeps

The messages that trimming keeps are picked first, by the window and by the roles and texts that
came before, and the texts of what is kept are collapsed.
-/

namespace Varsten.Proxy.Trim

open Python (Json Py PyError)
open Machine.FirstSeen

def text? (m : Json) : Option String :=
  match m.val "content" with
  | .str t => some t
  | _ => none

def isSystemTurn (m : Json) : Bool := m.val "role" = .str "system"

def roleKey (m : Json) : Py Json := m.getD "role" (.str "") >>= Json.hashKey

def ownRole (m : Json) : Json := (roleKey m).toOption.getD .null

def withText (m : Json) (t : String) : Json :=
  match m with
  | .obj fields => .obj (Json.setItem "content" (.str t) fields)
  | m => m

section Params

variable (p : TrimParams)

def shownText (t : String) : String := if p.collapse then collapseText t else t

def tidied (m : Json) : Json :=
  match text? m with
  | none => m
  | some t => if shownText p t = t then m else withText m (shownText p t)

/-- What a message must not share with one before it. -/
def repeatKey (m : Json) : Option (Json × String) :=
  if p.dedupe then (text? m).map fun t => (ownRole m, shownText p t) else none

def systems (messages : List Json) : List Json := messages.filter isSystemTurn

def turns (messages : List Json) : List Json := messages.filter (!isSystemTurn ·)

def ordered (messages : List Json) : List Json :=
  systems messages ++ window p.keepLast (turns messages)

def kept (messages : List Json) : List Json := keepFirst (repeatKey p) [] (ordered p messages)

def trimmed (messages : List Json) : List Json := (kept p messages).map (tidied p)

/-- The loop reads the message without raising. -/
structure Readable (m : Json) : Prop where
  dict : m.isDict = true
  role : p.dedupe = true → (text? m).isSome = true → ∃ key, roleKey m = .ok key

structure Trims (messages : List Json) : Prop where
  dict : ∀ m ∈ messages, m.isDict = true
  readable : ∀ m ∈ ordered p messages, Readable p m

end Params

/-! ## The loop -/

section Loop

variable {p : TrimParams} {seen : List (Json × String)} {m : Json} {ms out : List Json} {t : String}

theorem exists_fields (h : m.isDict = true) : ∃ fields, m = .obj fields := by
  cases m with
  | obj fields => exact ⟨fields, rfl⟩
  | _ => cases h

theorem dict_of_get {k : String} {v : Json} (h : m.get k = .ok v) : m.isDict = true := by
  cases m with
  | obj fields => rfl
  | _ => cases h

theorem text?_eq_some : text? m = some t ↔ m.val "content" = .str t := by
  unfold text?
  split
  · rename_i s hs
    rw [hs, Option.some.injEq, Json.str.injEq]
  · rename_i hno
    exact ⟨fun h => (by cases h), fun h => absurd h (hno t)⟩

theorem tidied_none (ht : text? m = none) : tidied p m = m := by
  simp only [tidied, ht]

theorem tidied_some (ht : text? m = some t) :
    tidied p m = if shownText p t = t then m else withText m (shownText p t) := by
  simp only [tidied, ht]

theorem repeatKey_off (hd : p.dedupe = false) : repeatKey p m = none := by
  simp [repeatKey, hd]

theorem repeatKey_none (ht : text? m = none) : repeatKey p m = none := by
  simp [repeatKey, ht]

theorem repeatKey_some (hd : p.dedupe = true) (ht : text? m = some t) :
    repeatKey p m = some (ownRole m, shownText p t) := by
  simp [repeatKey, hd, ht]

theorem ownRole_of_ok {key : Json} (h : roleKey m = .ok key) : ownRole m = key := by
  rw [ownRole, h]
  rfl

theorem bind_pure_eq_map {α β : Type} (x : Py α) (f : α → β) :
    (x >>= fun a => pure (f a)) = x.map f := by
  cases x <;> rfl

theorem map_eq_ok {α β : Type} {x : Py α} {f : α → β} {b : β} (h : x.map f = .ok b) :
    ∃ a, x = .ok a ∧ b = f a := by
  cases x with
  | error e => cases h
  | ok a => exact ⟨a, rfl, (Except.ok.inj h).symm⟩

theorem trimLoop_none (hm : m.isDict = true) (ht : text? m = none) :
    trimLoop p seen (m :: ms) = (trimLoop p seen ms).map (m :: ·) := by
  rw [trimLoop, Json.get_of_dict hm, Python.Py.bind_ok]
  split
  · rename_i s hs
    rw [text?_eq_some.2 hs] at ht
    cases ht
  · cases trimLoop p seen ms <;> rfl

theorem trimLoop_some (hm : m.isDict = true) (ht : text? m = some t) :
    trimLoop p seen (m :: ms) = if p.dedupe
      then roleKey m >>= fun role => if (role, shownText p t) ∈ seen then trimLoop p seen ms
        else (trimLoop p ((role, shownText p t) :: seen) ms).map (tidied p m :: ·)
      else (trimLoop p seen ms).map (tidied p m :: ·) := by
  rw [tidied_some ht, trimLoop, Json.get_of_dict hm, Python.Py.bind_ok]
  split
  · rename_i s hs
    obtain rfl : s = t := Json.str.inj (hs.symm.trans (text?_eq_some.1 ht))
    dsimp only
    rw [← shownText]
    cases p.dedupe with
    | false => exact bind_pure_eq_map _ _
    | true =>
      rw [if_pos rfl, if_pos rfl, roleKey]
      cases m.getD "role" (.str "") with
      | error e => rfl
      | ok v =>
        dsimp only [Python.Py.bind_ok]
        cases v.hashKey with
        | error e => rfl
        | ok role => exact congrArg (ite _ _) (bind_pure_eq_map _ _)
  · rename_i hno
    exact absurd (text?_eq_some.1 ht) (hno t)

theorem trimLoop_fresh (hm : Readable p m) (h : Fresh (repeatKey p) seen m) :
    trimLoop p seen (m :: ms) =
      (trimLoop p ((repeatKey p m).toList ++ seen) ms).map (tidied p m :: ·) := by
  cases ht : text? m with
  | none => rw [trimLoop_none hm.dict ht, repeatKey_none ht, tidied_none ht]; rfl
  | some t =>
    rw [trimLoop_some hm.dict ht]
    cases hd : p.dedupe with
    | false => rw [repeatKey_off hd]; rfl
    | true =>
      obtain ⟨role, hrole⟩ := hm.role hd (by rw [ht]; rfl)
      have hkey := repeatKey_some hd ht
      rw [fresh_iff hkey, ownRole_of_ok hrole] at h
      rw [if_pos rfl, hrole, Python.Py.bind_ok, if_neg h, hkey, ownRole_of_ok hrole]
      rfl

theorem trimLoop_repeat (hm : Readable p m) (h : ¬Fresh (repeatKey p) seen m) :
    trimLoop p seen (m :: ms) = trimLoop p seen ms := by
  cases ht : text? m with
  | none => exact absurd (fresh_of_none (repeatKey_none ht)) h
  | some t =>
    cases hd : p.dedupe with
    | false => exact absurd (fresh_of_none (repeatKey_off hd)) h
    | true =>
      obtain ⟨role, hrole⟩ := hm.role hd (by rw [ht]; rfl)
      rw [fresh_iff (repeatKey_some hd ht), ownRole_of_ok hrole, not_not] at h
      rw [trimLoop_some hm.dict ht, hd, if_pos rfl, hrole, Python.Py.bind_ok, if_pos h]

theorem trimLoop_eq (h : ∀ m ∈ ms, Readable p m) :
    trimLoop p seen ms = .ok ((keepFirst (repeatKey p) seen ms).map (tidied p)) := by
  induction ms generalizing seen with
  | nil => rfl
  | cons m ms ih =>
    rw [List.forall_mem_cons] at h
    by_cases hm : Fresh (repeatKey p) seen m
    · rw [trimLoop_fresh h.1 hm, keepFirst_fresh hm, ih h.2]
      rfl
    · rw [trimLoop_repeat h.1 hm, keepFirst_repeat hm, ih h.2]

theorem readable_of_trimLoop (h : trimLoop p seen ms = .ok out) : ∀ m ∈ ms, Readable p m := by
  induction ms generalizing seen out with
  | nil => exact List.forall_mem_nil _
  | cons m ms ih =>
    have hm : m.isDict = true := by
      rw [trimLoop] at h
      obtain ⟨v, hv, -⟩ := Python.Py.bind_eq_ok.1 h
      exact dict_of_get hv
    rw [List.forall_mem_cons]
    cases ht : text? m with
    | none =>
      rw [trimLoop_none hm ht] at h
      obtain ⟨rest, hrest, -⟩ := map_eq_ok h
      exact ⟨⟨hm, fun _ hsome => by simp [ht] at hsome⟩, ih hrest⟩
    | some t =>
      rw [trimLoop_some hm ht] at h
      cases hd : p.dedupe with
      | false =>
        rw [hd] at h
        obtain ⟨rest, hrest, -⟩ := map_eq_ok h
        exact ⟨⟨hm, fun hon => by simp [hd] at hon⟩, ih hrest⟩
      | true =>
        rw [hd, if_pos rfl] at h
        obtain ⟨role, hrole, h⟩ := Python.Py.bind_eq_ok.1 h
        refine ⟨⟨hm, fun _ _ => ⟨role, hrole⟩⟩, ?_⟩
        split_ifs at h
        · exact ih h
        · obtain ⟨rest, hrest, -⟩ := map_eq_ok h
          exact ih hrest

end Loop

/-! ## The whole of it -/

section Whole

variable {p : TrimParams} {params : Json} {messages out : List Json} {changed : Bool}

theorem splitSystem_eq (h : ∀ m ∈ messages, m.isDict = true) : splitSystem messages =
    .ok (systems messages, turns messages) := by
  induction messages with
  | nil => rfl
  | cons m messages ih =>
    rw [List.forall_mem_cons] at h
    have hsystem : isSystem m = .ok (isSystemTurn m) := by
      rw [isSystem, Json.get_of_dict h.1]
      rfl
    rw [splitSystem, hsystem, ih h.2]
    cases hm : isSystemTurn m <;> simp [systems, turns, hm, Python.Py.bind_ok]

theorem dict_of_splitSystem {parts : List Json × List Json}
    (h : splitSystem messages = .ok parts) : ∀ m ∈ messages, m.isDict = true := by
  induction messages generalizing parts with
  | nil => exact List.forall_mem_nil _
  | cons m messages ih =>
    rw [splitSystem] at h
    obtain ⟨flag, hflag, h⟩ := Python.Py.bind_eq_ok.1 h
    obtain ⟨rest, hrest, -⟩ := Python.Py.bind_eq_ok.1 h
    obtain ⟨v, hv, -⟩ := Python.Py.bind_eq_ok.1 hflag
    exact List.forall_mem_cons.2 ⟨dict_of_get hv, ih hrest⟩

theorem trimMessages_eq (hp : trimParams params = .ok p) (h : Trims p messages)
    (hne : messages ≠ []) : trimMessages messages params =
      .ok (trimmed p messages, !Json.pyEqList (trimmed p messages) messages) := by
  have hloop : trimLoop p [] (systems messages ++ window p.keepLast (turns messages)) =
      .ok (trimmed p messages) := trimLoop_eq h.readable
  rw [trimMessages, if_neg hne, hp, Python.Py.bind_ok, splitSystem_eq h.dict, Python.Py.bind_ok]
  dsimp only
  rw [hloop]
  rfl

theorem trimMessages_inv (h : trimMessages messages params = .ok (out, changed))
    (hne : messages ≠ []) : ∃ p, trimParams params = .ok p ∧ Trims p messages ∧
      out = trimmed p messages ∧ changed = !Json.pyEqList out messages := by
  rw [trimMessages, if_neg hne] at h
  obtain ⟨p, hp, h⟩ := Python.Py.bind_eq_ok.1 h
  obtain ⟨parts, hparts, h⟩ := Python.Py.bind_eq_ok.1 h
  obtain ⟨loop, hloop, h⟩ := Python.Py.bind_eq_ok.1 h
  have hdict := dict_of_splitSystem hparts
  obtain rfl := Except.ok.inj (hparts.symm.trans (splitSystem_eq hdict))
  have htrims : Trims p messages := ⟨hdict, readable_of_trimLoop hloop⟩
  obtain rfl : loop = trimmed p messages :=
    Except.ok.inj (hloop.symm.trans (trimLoop_eq htrims.readable))
  obtain ⟨rfl, rfl⟩ := Prod.mk.inj (Except.ok.inj h)
  exact ⟨p, hp, htrims, rfl, rfl⟩

end Whole

/-! ## What the collapse changes -/

section Tidied

variable {p : TrimParams} {m : Json} {t : String}

theorem shownText_shownText : shownText p (shownText p t) = shownText p t := by
  unfold shownText
  cases p.collapse with
  | false => rfl
  | true => exact collapseText_idempotent t

theorem length_shownText : (shownText p t).length ≤ t.length := by
  unfold shownText
  cases p.collapse with
  | false => exact le_rfl
  | true => exact length_collapseText t

theorem dict_of_text (ht : text? m = some t) : m.isDict = true := by
  cases m with
  | obj fields => rfl
  | _ => cases ht

theorem text?_withText (hm : m.isDict = true) : text? (withText m t) = some t := by
  obtain ⟨fields, rfl⟩ := exists_fields hm
  rw [text?_eq_some, withText, Json.val_obj, Json.item_setItem_self, Option.getD_some]

theorem val_withText {k : String} (hk : "content" ≠ k) : (withText m t).val k = m.val k := by
  cases m with
  | obj fields => rw [withText, Json.val_obj, Json.val_obj, Json.item_setItem_of_ne hk]
  | _ => rfl

theorem roleKey_withText : roleKey (withText m t) = roleKey m := by
  cases m with
  | obj fields =>
    have hrole : "content" ≠ "role" := by decide
    rw [roleKey, roleKey, withText, Json.getD, Json.getD, Json.item_setItem_of_ne hrole]
  | _ => rfl

theorem isDict_withText : (withText m t).isDict = m.isDict := by
  cases m <;> rfl

theorem tidied_cases (p : TrimParams) (m : Json) : tidied p m = m ∨
    ∃ t, text? m = some t ∧ shownText p t ≠ t ∧ tidied p m = withText m (shownText p t) := by
  cases ht : text? m with
  | none => exact .inl (tidied_none ht)
  | some t =>
    by_cases hshown : shownText p t = t
    · exact .inl (by rw [tidied_some ht, if_pos hshown])
    · exact .inr ⟨t, rfl, hshown, by rw [tidied_some ht, if_neg hshown]⟩

@[simp] theorem text?_tidied : text? (tidied p m) = (text? m).map (shownText p) := by
  cases ht : text? m with
  | none => rw [tidied_none ht, ht, Option.map_none]
  | some t =>
    rw [tidied_some ht, Option.map_some]
    split_ifs with hshown
    · rw [ht, hshown]
    · exact text?_withText (dict_of_text ht)

theorem val_tidied {k : String} (hk : "content" ≠ k) : (tidied p m).val k = m.val k := by
  rcases tidied_cases p m with h | ⟨t, -, -, h⟩
  · rw [h]
  · rw [h, val_withText hk]

@[simp] theorem isSystemTurn_tidied : isSystemTurn (tidied p m) = isSystemTurn m := by
  rw [isSystemTurn, isSystemTurn, val_tidied (by decide)]

@[simp] theorem roleKey_tidied : roleKey (tidied p m) = roleKey m := by
  rcases tidied_cases p m with h | ⟨t, -, -, h⟩
  · rw [h]
  · rw [h, roleKey_withText]

@[simp] theorem isDict_tidied : (tidied p m).isDict = m.isDict := by
  rcases tidied_cases p m with h | ⟨t, -, -, h⟩
  · rw [h]
  · rw [h, isDict_withText]

@[simp] theorem repeatKey_tidied : repeatKey p (tidied p m) = repeatKey p m := by
  rw [repeatKey, repeatKey, text?_tidied, ownRole, ownRole, roleKey_tidied, Option.map_map]
  simp only [Function.comp_def, shownText_shownText]

@[simp] theorem tidied_tidied : tidied p (tidied p m) = tidied p m := by
  cases ht : text? m with
  | none => rw [tidied_none ht, tidied_none ht]
  | some t =>
    have htidy : text? (tidied p m) = some (shownText p t) := by
      rw [text?_tidied, ht, Option.map_some]
    rw [tidied_some htidy, if_pos shownText_shownText]

theorem Readable.tidied (h : Readable p m) : Readable p (tidied p m) where
  dict := by rw [isDict_tidied, h.dict]
  role hd hsome := by
    rw [roleKey_tidied]
    exact h.role hd (by simpa using hsome)

theorem tidied_eq_of_pyEq (h : Json.pyEq (Trim.tidied p m) m = true) : Trim.tidied p m = m := by
  refine (tidied_cases p m).resolve_right ?_
  rintro ⟨t, ht, hshown, htidy⟩
  rw [htidy] at h
  have hcontent := text?_eq_some.1 (text?_withText (t := shownText p t) (dict_of_text ht))
  have hsame := Json.val_of_pyEq h hcontent
  rw [text?_eq_some.1 ht] at hsame
  exact hshown (Json.str.inj hsame).symm

end Tidied

end Varsten.Proxy.Trim
