import Varsten.Proxy.Trim

/-!
# What compression substitutes

`extract_system_text` returns in the first turn of its loop;
`substitute_system_prompt` walks the whole list and replaces the first system
or developer message it meets. After the hash has matched they stop at the same
message, and the call takes the rewrite exactly where the body opens with the
evaluated prompt.
-/

namespace Varsten.Proxy.Compression

open Python (Json Py PyError)
open Python.Json (item setItem)
open Python.Utf8 (Bytes encode)
open Trim (hasPrefixRole extractSystemText)

def isPrefixMessage : Json → Py Bool
  | .obj message => hasPrefixRole message
  | _ => .ok false

/-- `{**message, "content": compressed_text}`. -/
def withContent (compressedText : String) : Json → Json
  | .obj message => .obj (setItem "content" (.str compressedText) message)
  | message => message

/-- The loop of `substitute_system_prompt`: no role is read once `replaced` is set. -/
def replaceLoop (compressedText : String) : Bool → List Json → Py (List Json × Bool)
  | replaced, [] => .ok ([], replaced)
  | true, message :: messages => do
    let (out, replaced) ← replaceLoop compressedText true messages
    return (message :: out, replaced)
  | false, message :: messages => do
    if ← isPrefixMessage message then
      let (out, replaced) ← replaceLoop compressedText true messages
      return (withContent compressedText message :: out, replaced)
    else
      let (out, replaced) ← replaceLoop compressedText false messages
      return (message :: out, replaced)

section

variable (sha256 : Bytes → String)

def systemTextHash (text : String) : String := sha256 (encode text.toList)

def substituteSystemPrompt (messages : List Json) (originalHash compressedText : String) :
    Py (List Json × Bool) := do
  match ← extractSystemText messages with
  | none => return (messages, false)
  | some current =>
    if systemTextHash sha256 current ≠ originalHash then return (messages, false)
    else replaceLoop compressedText false messages

def applyCompression (body : List (String × Json)) (originalHash compressedText : String) :
    Py (List (String × Json) × Bool) :=
  match item "messages" body with
  | some (.arr messages) => do
    let (substituted, applied) ←
      substituteSystemPrompt sha256 messages originalHash compressedText
    return if applied then (setItem "messages" (.arr substituted) body, true) else (body, false)
  | _ => .ok (body, false)

end

/-! ## The two loops stop at one message -/

variable {sha256 : Bytes → String} {messages : List Json} {message : List (String × Json)}
  {text current : String}

theorem replaceLoop_true (compressedText : String) (messages : List Json) :
    replaceLoop compressedText true messages = .ok (messages, true) := by
  induction messages with
  | nil => rfl
  | cons message messages ih => rw [replaceLoop, ih, Py.bind_ok]; rfl

theorem replaceLoop_prefix (h : hasPrefixRole message = .ok true) (messages : List Json) :
    replaceLoop text false (.obj message :: messages) =
      .ok (.obj (setItem "content" (.str text) message) :: messages, true) := by
  rw [replaceLoop, isPrefixMessage, h, Py.bind_ok, if_pos rfl, replaceLoop_true, Py.bind_ok]
  rfl

theorem extractSystemText_eq_some (h : extractSystemText messages = .ok (some current)) :
    ∃ message rest, messages = .obj message :: rest ∧ hasPrefixRole message = .ok true ∧
      item "content" message = some (.str current) ∧ current ≠ "" := by
  cases messages with
  | nil => cases h
  | cons first rest =>
    cases first with
    | obj message =>
      obtain ⟨isPrefix, hp, h⟩ := Py.bind_eq_ok.1 h
      cases isPrefix with
      | false => cases h
      | true =>
        refine ⟨message, rest, rfl, hp, ?_⟩
        rw [if_pos rfl] at h
        cases hc : item "content" message with
        | none => rw [hc] at h; cases h
        | some content =>
          rw [hc] at h
          cases content with
          | str content =>
            dsimp only [Option.getD] at h
            split_ifs at h with hne
            · cases h
            · obtain rfl := Option.some.inj (Except.ok.inj h)
              exact ⟨rfl, hne⟩
          | _ => cases h
    | _ => cases h

theorem extractSystemText_of_content (hp : hasPrefixRole message = .ok true)
    (hc : item "content" message = some (.str text)) (hne : text ≠ "") (rest : List Json) :
    extractSystemText (.obj message :: rest) = .ok (some text) := by
  rw [extractSystemText, hp, Py.bind_ok, if_pos rfl, hc]
  exact congrArg Except.ok (if_neg hne)

theorem substituteSystemPrompt_eq (sha256 : Bytes → String) (messages : List Json)
    (originalHash compressedText : String) :
    substituteSystemPrompt sha256 messages originalHash compressedText =
      Trim.substituteSystemPrompt sha256 messages originalHash compressedText := by
  simp only [substituteSystemPrompt, Trim.substituteSystemPrompt]
  cases h : extractSystemText messages with
  | error e => rfl
  | ok found =>
    cases found with
    | none => rfl
    | some current =>
      obtain ⟨message, rest, rfl, hp, -⟩ := extractSystemText_eq_some h
      rw [Py.bind_ok, Py.bind_ok]
      dsimp only
      rw [systemTextHash]
      by_cases hhash : sha256 (encode current.toList) = originalHash
      · rw [if_neg (not_not.2 hhash), if_neg (not_not.2 hhash)]
        exact replaceLoop_prefix hp rest
      · rw [if_pos hhash, if_pos hhash]

theorem applyCompression_eq (sha256 : Bytes → String) (body : List (String × Json))
    (originalHash compressedText : String) :
    Trim.applyCompression sha256 (.obj body) originalHash compressedText =
      (applyCompression sha256 body originalHash compressedText).map
        fun r => (.obj r.1, r.2) := by
  rw [Trim.applyCompression, applyCompression, Json.get, Py.bind_ok]
  cases item "messages" body with
  | none => rfl
  | some messages =>
    cases messages with
    | arr messages =>
      dsimp only [Option.getD_some]
      rw [substituteSystemPrompt_eq]
      cases Trim.substituteSystemPrompt sha256 messages originalHash compressedText with
      | error e => rfl
      | ok r =>
        obtain ⟨substituted, applied⟩ := r
        cases applied <;> rfl
    | _ => rfl

/-! ## What the call does to a body -/

def leading (body : List (String × Json)) : Option (List (String × Json)) :=
  match item "messages" body with
  | some (.arr (.obj message :: _)) => some message
  | _ => none

/-- A role that can be looked up in the set of prefix roles. -/
def RoleHashable (body : List (String × Json)) : Prop :=
  ∀ message ∈ leading body, ∀ role ∈ item "role" message,
    (∀ xs, role ≠ .arr xs) ∧ ∀ fields, role ≠ .obj fields

def HasPrefixRole (message : List (String × Json)) : Prop :=
  item "role" message = some (.str "system") ∨ item "role" message = some (.str "developer")

/-- The first message is a system or developer message whose content is `original`. -/
def Opens (original : String) (body : List (String × Json)) : Prop :=
  ∃ message ∈ leading body, HasPrefixRole message ∧
    item "content" message = some (.str original)

/-- `after` is `before` with the value of the key `k`, which both have, set to `v`. -/
structure OnlyAt (k : String) (v : Json) (before after : List (String × Json)) : Prop where
  value : item k after = some v
  others : ∀ l ≠ k, item l after = item l before
  keys : after.map Prod.fst = before.map Prod.fst

/-- `out` is `body` with only the content of the first message replaced by `rewrite`. -/
def Replaced (rewrite : String) (body out : List (String × Json)) : Prop :=
  ∃ message rest message', item "messages" body = some (.arr (.obj message :: rest)) ∧
    OnlyAt "content" (.str rewrite) message message' ∧
    OnlyAt "messages" (.arr (.obj message' :: rest)) body out ∧
    (rewrite ≠ "" → extractSystemText (.obj message' :: rest) = .ok (some rewrite))

theorem onlyAt_setItem {k : String} {fields : List (String × Json)} {old : Json} (v : Json)
    (h : item k fields = some old) : OnlyAt k v fields (setItem k v fields) where
  value := Json.item_setItem_self k v fields
  others _ hl := Json.item_setItem_of_ne hl.symm v fields
  keys := by
    induction fields with
    | nil => cases h
    | cons f fields ih =>
      rw [item] at h
      rw [setItem]
      split_ifs at h ⊢ with hf
      · rw [List.map_cons, List.map_cons, hf]
      · rw [List.map_cons, List.map_cons, ih h]

theorem hasPrefixRole_eq_true (message : List (String × Json)) :
    hasPrefixRole message = .ok true ↔ HasPrefixRole message := by
  rw [hasPrefixRole, HasPrefixRole]
  cases item "role" message with
  | none => simp
  | some role => cases role <;> simp

theorem hasPrefixRole_ok {body : List (String × Json)} (h : RoleHashable body)
    (hl : leading body = some message) : ∃ b, hasPrefixRole message = .ok b := by
  have h' := h message hl
  rw [hasPrefixRole]
  cases hr : item "role" message with
  | none => exact ⟨_, rfl⟩
  | some role =>
    cases role with
    | arr xs => exact absurd rfl ((h' (.arr xs) hr).1 xs)
    | obj fields => exact absurd rfl ((h' (.obj fields) hr).2 fields)
    | _ => exact ⟨_, rfl⟩

theorem hasPrefixRole_congr {message' : List (String × Json)}
    (h : item "role" message' = item "role" message) :
    hasPrefixRole message' = hasPrefixRole message := by
  rw [hasPrefixRole, hasPrefixRole, h]

theorem leading_eq_some {body : List (String × Json)} :
    leading body = some message ↔
      ∃ rest, item "messages" body = some (.arr (.obj message :: rest)) := by
  rw [leading]
  constructor
  · intro h
    split at h
    · rename_i first rest hitem
      obtain rfl := Option.some.inj h
      exact ⟨rest, hitem⟩
    · cases h
  · rintro ⟨rest, h⟩
    rw [h]

theorem systemTextHash_injective (hinj : Function.Injective sha256) :
    Function.Injective (systemTextHash sha256) := by
  intro a b h
  have hab := congrArg Python.Utf8.decode (hinj h)
  rw [Python.Utf8.decode_encode, Python.Utf8.decode_encode] at hab
  exact String.toList_inj.1 hab

section

variable {body : List (String × Json)} {original : String}

theorem applyCompression_of_opens (h : Opens original body) (hne : original ≠ "")
    (rewrite : String) :
    ∃ out, applyCompression sha256 body (systemTextHash sha256 original) rewrite =
      .ok (out, true) ∧ Replaced rewrite body out := by
  obtain ⟨message, hl, hrole, hcontent⟩ := h
  obtain ⟨rest, hitem⟩ := leading_eq_some.1 hl
  have hp := (hasPrefixRole_eq_true message).2 hrole
  let message' := setItem "content" (.str rewrite) message
  have hcall : applyCompression sha256 body (systemTextHash sha256 original) rewrite =
      .ok (setItem "messages" (.arr (.obj message' :: rest)) body, true) := by
    rw [applyCompression, hitem]
    dsimp only
    rw [substituteSystemPrompt, extractSystemText_of_content hp hcontent hne, Py.bind_ok]
    dsimp only
    rw [if_neg (not_not.2 rfl), replaceLoop_prefix hp]
    rfl
  have hmessage : OnlyAt "content" (.str rewrite) message message' := onlyAt_setItem _ hcontent
  have hp' : hasPrefixRole message' = .ok true :=
    (hasPrefixRole_congr (hmessage.others "role" (by decide))).trans hp
  exact ⟨_, hcall, message, rest, message', hitem, hmessage, onlyAt_setItem _ hitem,
    fun hr => extractSystemText_of_content hp' hmessage.value hr rest⟩

theorem extractSystemText_ok (hrole : RoleHashable body) {messages : List Json}
    (hitem : item "messages" body = some (.arr messages)) :
    ∃ found, extractSystemText messages = .ok found := by
  cases messages with
  | nil => exact ⟨none, rfl⟩
  | cons first rest =>
    cases first with
    | obj message =>
      obtain ⟨isPrefix, hp⟩ := hasPrefixRole_ok hrole (leading_eq_some.2 ⟨rest, hitem⟩)
      rw [extractSystemText, hp, Py.bind_ok]
      split_ifs
      · cases (item "content" message).getD .null <;> exact ⟨_, rfl⟩
      · exact ⟨none, rfl⟩
    | _ => exact ⟨none, rfl⟩

theorem applyCompression_of_not_opens (hinj : Function.Injective sha256)
    (hrole : RoleHashable body) (h : ¬ Opens original body) (rewrite : String) :
    applyCompression sha256 body (systemTextHash sha256 original) rewrite =
      .ok (body, false) := by
  rw [applyCompression]
  split
  · rename_i messages hitem
    obtain ⟨found, hfound⟩ := extractSystemText_ok hrole hitem
    rw [substituteSystemPrompt, hfound, Py.bind_ok]
    cases found with
    | none => rfl
    | some current =>
      obtain ⟨message, rest, rfl, hp, hcontent, -⟩ := extractSystemText_eq_some hfound
      have hother : current ≠ original := by
        rintro rfl
        exact h ⟨message, leading_eq_some.2 ⟨rest, hitem⟩, (hasPrefixRole_eq_true message).1 hp,
          hcontent⟩
      dsimp only
      rw [if_pos ((systemTextHash_injective hinj).ne hother)]
      rfl
  · rfl

theorem applyCompression_unhashable (h : ¬ RoleHashable body) (originalHash rewrite : String) :
    applyCompression sha256 body originalHash rewrite = .error .typeError := by
  simp only [RoleHashable, not_forall] at h
  obtain ⟨message, hl, role, hr, h⟩ := h
  obtain ⟨rest, hitem⟩ := leading_eq_some.1 hl
  have hraise : hasPrefixRole message = .error .typeError := by
    rw [hasPrefixRole, Option.mem_def.1 hr]
    cases role with
    | arr xs => rfl
    | obj fields => rfl
    | _ => exact absurd ⟨by rintro _ ⟨⟩, by rintro _ ⟨⟩⟩ h
  rw [applyCompression, hitem]
  dsimp only
  rw [substituteSystemPrompt, extractSystemText, hraise]
  rfl

/-- The rewrite is put in exactly where the body opens with the evaluated prompt, and nowhere
else in the body. -/
theorem compression_exact (hinj : Function.Injective sha256) (hrole : RoleHashable body)
    (hne : original ≠ "") (rewrite : String) :
    ∃ out applied, applyCompression sha256 body (systemTextHash sha256 original) rewrite =
        .ok (out, applied) ∧
      (applied = true ↔ Opens original body) ∧
      (applied = true → Replaced rewrite body out) ∧ (applied = false → out = body) := by
  by_cases h : Opens original body
  · obtain ⟨out, hcall, hout⟩ := applyCompression_of_opens h hne rewrite
    exact ⟨out, true, hcall, by simp [h], fun _ => hout, by simp⟩
  · exact ⟨body, false, applyCompression_of_not_opens hinj hrole h rewrite, by simp [h], by simp,
      fun _ => rfl⟩

end

def terseDigest (bs : Bytes) : String :=
  if bs = encode "Answer tersely.".toList then
    "b94454a7c110c62590b2391f9134b0f65d459eda4cc38b3c2d8b07d2b1243157"
  else String.ofList ('x' :: bs.map fun b => Char.ofNat b.toNat)

theorem ofNat_toNat_injective : Function.Injective fun b : UInt8 => Char.ofNat b.toNat := by
  intro a b h
  have hn : ∀ u : UInt8, (Char.ofNat u.toNat).toNat = u.toNat := fun u => by
    rw [Python.Utf8.toNat_ofNat, if_pos (.inl (by have := u.toNat_lt; omega))]
  have hab := congrArg Char.toNat h
  rw [hn, hn] at hab
  exact UInt8.toNat_inj.1 hab

theorem terseDigest_injective : Function.Injective terseDigest := by
  intro a b h
  rw [terseDigest, terseDigest] at h
  split_ifs at h with ha hb hb
  · rw [ha, hb]
  · exact absurd (congrArg (fun s => s.toList.head?) h) (by simp)
  · exact absurd (congrArg (fun s => s.toList.head?) h) (by simp)
  · have hl := congrArg String.toList h
    rw [String.toList_ofList, String.toList_ofList] at hl
    exact ofNat_toNat_injective.list_map (List.cons.inj hl).2

theorem terse_compressed :
    ∃ out applied, applyCompression terseDigest
        [("messages", .arr [.obj [("role", .str "system"), ("content", .str "Answer tersely.")]])]
        (systemTextHash terseDigest "Answer tersely.") "Be terse." = .ok (out, applied) ∧
      (applied = true ↔ Opens "Answer tersely."
        [("messages",
          .arr [.obj [("role", .str "system"), ("content", .str "Answer tersely.")]])]) ∧
      (applied = true → Replaced "Be terse."
        [("messages", .arr [.obj [("role", .str "system"), ("content", .str "Answer tersely.")]])]
        out) ∧
      (applied = false → out =
        [("messages",
          .arr [.obj [("role", .str "system"), ("content", .str "Answer tersely.")]])]) :=
  compression_exact terseDigest_injective
    (by
      intro message hm role hr
      obtain rfl := Option.some.inj hm
      obtain rfl := Option.some.inj hr
      exact ⟨by rintro _ ⟨⟩, by rintro _ ⟨⟩⟩)
    (by decide) "Be terse."

/-- An empty prompt is what the body opens with, and is not taken for one. -/
theorem empty_not_compressed :
    ¬ ∀ (body : List (String × Json)) (original rewrite : String),
      ∃ out applied, applyCompression terseDigest body (systemTextHash terseDigest original)
        rewrite = .ok (out, applied) ∧ (applied = true ↔ Opens original body) := by
  intro h
  obtain ⟨out, applied, hcall, happlied⟩ :=
    h [("messages", .arr [.obj [("role", .str "system"), ("content", .str "")]])] "" "Be terse."
  obtain ⟨-, rfl⟩ := Prod.mk.inj (Except.ok.inj hcall)
  exact absurd (happlied.2 ⟨_, rfl, .inl rfl, rfl⟩) (by decide)

end Varsten.Proxy.Compression
