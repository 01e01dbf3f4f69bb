import Varsten.Proxy.KeyOrder
import Varsten.Proxy.Providers.Gemini

/-!
# The Gemini wire and key order

The generateContent body is read off the messages, the token limits, the
temperature and the tools. Requests that hold alike values there get alike bodies.
-/

namespace Varsten.Proxy.GeminiWire

open Python (Json Py Runtime)
open Providers (Turn optionalItem contentText parseArguments)
open Cache (Fields Alike AgreeAt sortKeys sortFields sortItems sortFields_eq keyedFields alike_arr)
open Providers.Gemini

/-- No loop that reads a dict's keys as messages comes to an end, unless there are none. -/
theorem mapM_strings {β : Type} {f : Json → Py β} (hf : ∀ s, ∃ e, f (.str s) = .error e)
    {xs : List Json} {us : List β} (h : ∀ x ∈ xs, ∃ s, x = .str s) (hu : xs.mapM f = .ok us) :
    us = [] := by
  cases xs with
  | nil => exact (Except.ok.inj hu).symm
  | cons x xs =>
    obtain ⟨s, rfl⟩ := h x List.mem_cons_self
    obtain ⟨e, he⟩ := hf s
    obtain ⟨u, us, hu, -⟩ := Py.mapM_cons_ok hu
    rw [he] at hu
    cases hu

theorem filterMap_congr {α β : Type} {R : α → α → Prop} {f : α → Option β} {xs ys : List α}
    (hf : ∀ {x y}, R x y → f x = f y) (h : List.Forall₂ R xs ys) :
    xs.filterMap f = ys.filterMap f := by
  induction h with
  | nil => rfl
  | cons hxy _ ih => rw [List.filterMap_cons, List.filterMap_cons, hf hxy, ih]

variable {rt : Runtime} {a b : Json}

theorem get_alike {k : String} {v w : Json} (h : Alike a b) (ha : a.get k = .ok v)
    (hb : b.get k = .ok w) : Alike v w := by
  rw [Json.get_eq_ok ha, Json.get_eq_ok hb]
  exact h.val k

theorem iter_alike {xs ys : List Json} (h : Alike a b) (ha : a.iter = .ok xs)
    (hb : b.iter = .ok ys) :
    List.Forall₂ Alike xs ys ∨ ∀ x, x ∈ xs ∨ x ∈ ys → ∃ s, x = .str s := by
  cases a with
  | arr as =>
    cases b <;> simp only [Alike, sortKeys, reduceCtorEq] at h
    obtain rfl := Except.ok.inj ha
    obtain rfl := Except.ok.inj hb
    exact Or.inl (alike_arr.1 (by rw [Alike, sortKeys, sortKeys, h]))
  | str s =>
    obtain rfl := h.str_left
    obtain rfl := Except.ok.inj (ha.symm.trans hb)
    exact Or.inl (List.forall₂_same.2 fun _ _ => rfl)
  | obj f =>
    cases b <;> simp only [Alike, sortKeys, reduceCtorEq] at h
    obtain rfl := Except.ok.inj ha
    obtain rfl := Except.ok.inj hb
    right
    intro x hx
    rcases hx with hx | hx
    all_goals
      obtain ⟨f, -, rfl⟩ := List.mem_map.1 hx
      exact ⟨f.1, rfl⟩
  | _ => cases ha

theorem eq_str_iff {s : String} (h : Alike a b) : a = .str s ↔ b = .str s := by
  constructor
  · rintro rfl
    exact h.str_left
  · rintro rfl
    exact (Alike.str_left h.symm)

theorem textParts_alike {xs ys : List Json} {s t : List String} (h : List.Forall₂ Alike xs ys)
    (hs : Json.textParts xs = .ok s) (ht : Json.textParts ys = .ok t) : s = t := by
  induction h generalizing s t with
  | nil => exact Except.ok.inj (hs.symm.trans ht)
  | @cons x y xs ys hxy _ ih =>
    cases x <;> cases y <;> try simp only [Alike, sortKeys, reduceCtorEq] at hxy
    case obj.obj f g =>
      have htype := eq_str_iff (s := "text") ((Alike.agreeAt hxy "type").getD .null)
      have htext := (Alike.agreeAt hxy "text").getD (.str "")
      simp only [Json.textParts] at hs ht
      by_cases hty : (Json.item "type" f).getD .null = .str "text"
      · rw [if_pos hty] at hs
        rw [if_pos (htype.1 hty)] at ht
        cases hf : (Json.item "text" f).getD (.str "") with
        | str u =>
          rw [hf] at hs htext
          rw [htext.str_left] at ht
          obtain ⟨s, hs', hs⟩ := Py.bind_eq_ok.1 hs
          obtain ⟨t, ht', ht⟩ := Py.bind_eq_ok.1 ht
          obtain rfl := Except.ok.inj hs
          obtain rfl := Except.ok.inj ht
          rw [ih hs' ht']
        | _ =>
          rw [hf] at hs
          cases hs
      · rw [if_neg hty] at hs
        rw [if_neg fun h => hty (htype.2 h)] at ht
        exact ih hs ht
    all_goals exact ih hs ht

theorem contentText_alike {s t : String} (h : Alike a b) (hs : contentText a = .ok s)
    (ht : contentText b = .ok t) : s = t := by
  cases a <;> cases b <;> try simp only [Alike, sortKeys, reduceCtorEq] at h
  case arr.arr xs ys =>
    obtain ⟨p, hp, hs⟩ := Py.bind_eq_ok.1 hs
    obtain ⟨q, hq, ht⟩ := Py.bind_eq_ok.1 ht
    obtain rfl := Except.ok.inj hs
    obtain rfl := Except.ok.inj ht
    rw [textParts_alike (alike_arr.1 (by rw [Alike, sortKeys, sortKeys, h])) hp hq]
  case str.str =>
    obtain rfl := Json.str.inj h
    exact Except.ok.inj (hs.symm.trans ht)
  all_goals exact Except.ok.inj (hs.symm.trans ht)

theorem parseArguments_alike {v w : Json} (h : Alike a b) (hv : parseArguments rt a = .ok v)
    (hw : parseArguments rt b = .ok w) : v = w := by
  have ho := h.orElse (show Alike (.str "\x7b\x7d") (.str "\x7b\x7d") from rfl)
  unfold parseArguments at hv hw
  cases ha : a.orElse (.str "\x7b\x7d") with
  | str s =>
    rw [ha] at ho hv
    rw [ho.str_left] at hw
    exact Except.ok.inj (hv.symm.trans hw)
  | _ =>
    rw [ha] at hv
    cases hv

theorem functionCallPart_alike {v w : Json} (h : Alike a b)
    (hv : functionCallPart rt a = .ok v) (hw : functionCallPart rt b = .ok w) : Alike v w := by
  obtain ⟨f, hf, hv⟩ := Py.bind_eq_ok.1 hv
  obtain ⟨args, ha, hv⟩ := Py.bind_eq_ok.1 hv
  obtain ⟨x, hx, hv⟩ := Py.bind_eq_ok.1 hv
  obtain ⟨name, hn, hv⟩ := Py.bind_eq_ok.1 hv
  obtain ⟨f', hf', hw⟩ := Py.bind_eq_ok.1 hw
  obtain ⟨args', ha', hw⟩ := Py.bind_eq_ok.1 hw
  obtain ⟨x', hx', hw⟩ := Py.bind_eq_ok.1 hw
  obtain ⟨name', hn', hw⟩ := Py.bind_eq_ok.1 hw
  obtain rfl := Except.ok.inj hv
  obtain rfl := Except.ok.inj hw
  have hfun : Alike (f.orElse (.obj [])) (f'.orElse (.obj [])) := (get_alike h hf hf').orElse rfl
  obtain rfl := parseArguments_alike (get_alike hfun ha ha') hx hx'
  have hname : sortKeys (name.orElse (.str "")) = sortKeys (name'.orElse (.str "")) :=
    (get_alike hfun hn hn').orElse rfl
  simp only [Alike, sortKeys, sortFields, hname]

def TurnAlike : Turn → Turn → Prop
  | .system s, .system t => s = t
  | .content v, .content w => Alike v w
  | .skipped, .skipped => True
  | _, _ => False

theorem toolCalls_alike {calls calls' : Json} {xs ys us vs : List Json} (h : Alike calls calls')
    (hx : (calls.orElse (.arr [])).iter = .ok xs) (hy : (calls'.orElse (.arr [])).iter = .ok ys)
    (hu : xs.mapM (functionCallPart rt) = .ok us) (hv : ys.mapM (functionCallPart rt) = .ok vs) :
    List.Forall₂ Alike us vs := by
  rcases iter_alike (h.orElse rfl) hx hy with hxy | hstr
  · exact Py.mapM_forall₂ (f := functionCallPart rt) functionCallPart_alike hxy hu hv
  · have herr : ∀ s, ∃ e, functionCallPart rt (.str s) = .error e := fun s => ⟨_, rfl⟩
    rw [mapM_strings herr (fun x hx => hstr x (Or.inl hx)) hu,
      mapM_strings herr (fun x hx => hstr x (Or.inr hx)) hv]
    exact .nil

theorem turnOf_alike {u v : Turn} (h : Alike a b) (hu : turnOf rt a = .ok u)
    (hv : turnOf rt b = .ok v) : TurnAlike u v := by
  obtain ⟨role, hr, hu⟩ := Py.bind_eq_ok.1 hu
  obtain ⟨content, hc, hu⟩ := Py.bind_eq_ok.1 hu
  obtain ⟨text, ht, hu⟩ := Py.bind_eq_ok.1 hu
  obtain ⟨role', hr', hv⟩ := Py.bind_eq_ok.1 hv
  obtain ⟨content', hc', hv⟩ := Py.bind_eq_ok.1 hv
  obtain ⟨text', ht', hv⟩ := Py.bind_eq_ok.1 hv
  have hrole := get_alike h hr hr'
  obtain rfl := contentText_alike (get_alike h hc hc') ht ht'
  by_cases hs : role = .str "system"
  · rw [if_pos hs] at hu
    rw [if_pos ((eq_str_iff hrole).1 hs)] at hv
    obtain rfl := Except.ok.inj hu
    obtain rfl := Except.ok.inj hv
    rfl
  rw [if_neg hs] at hu
  rw [if_neg fun h => hs ((eq_str_iff hrole).2 h)] at hv
  by_cases htool : role = .str "tool"
  · rw [if_pos htool] at hu
    rw [if_pos ((eq_str_iff hrole).1 htool)] at hv
    obtain ⟨name, hn, hu⟩ := Py.bind_eq_ok.1 hu
    obtain ⟨id, hi, hu⟩ := Py.bind_eq_ok.1 hu
    obtain ⟨name', hn', hv⟩ := Py.bind_eq_ok.1 hv
    obtain ⟨id', hi', hv⟩ := Py.bind_eq_ok.1 hv
    obtain rfl := Except.ok.inj hu
    obtain rfl := Except.ok.inj hv
    have hname : sortKeys (name.orElse (id.orElse (.str "tool"))) =
        sortKeys (name'.orElse (id'.orElse (.str "tool"))) :=
      (get_alike h hn hn').orElse ((get_alike h hi hi').orElse rfl)
    simp only [TurnAlike, Alike, sortKeys, sortFields, sortItems, hname]
  rw [if_neg htool] at hu
  rw [if_neg fun h => htool ((eq_str_iff hrole).2 h)] at hv
  cases role with
  | str r =>
    obtain rfl := hrole.str_left
    dsimp only at hu hv
    by_cases hturn : r = "user" ∨ r = "assistant"
    · rw [if_pos hturn] at hu hv
      obtain ⟨calls, hcalls, hu⟩ := Py.bind_eq_ok.1 hu
      obtain ⟨xs, hxs, hu⟩ := Py.bind_eq_ok.1 hu
      obtain ⟨us, hus, hu⟩ := Py.bind_eq_ok.1 hu
      obtain ⟨calls', hcalls', hv⟩ := Py.bind_eq_ok.1 hv
      obtain ⟨ys, hys, hv⟩ := Py.bind_eq_ok.1 hv
      obtain ⟨vs, hvs, hv⟩ := Py.bind_eq_ok.1 hv
      obtain rfl := Except.ok.inj hu
      obtain rfl := Except.ok.inj hv
      have hall := toolCalls_alike (get_alike h hcalls hcalls') hxs hys hus hvs
      have hparts : ∀ p : List Json, sortKeys (.arr (if p ++ us = [] then
          [.obj [("text", .str "")]] else p ++ us)) = sortKeys (.arr (if p ++ vs = [] then
          [.obj [("text", .str "")]] else p ++ vs)) := by
        intro p
        have happ : List.Forall₂ Alike (p ++ us) (p ++ vs) := by
          exact List.rel_append (List.forall₂_same.2 fun _ _ => (rfl : Alike _ _)) hall
        have hnil : p ++ us = [] ↔ p ++ vs = [] := by
          rw [← List.length_eq_zero_iff, happ.length_eq, List.length_eq_zero_iff]
        simp only [hnil]
        split_ifs
        · rfl
        · exact alike_arr.2 happ
      simp only [TurnAlike, Alike, sortKeys, sortFields]
      simp only [sortKeys] at hparts
      rw [hparts]
    · rw [if_neg hturn] at hu hv
      obtain rfl := Except.ok.inj hu
      obtain rfl := Except.ok.inj hv
      trivial
  | null =>
    obtain rfl := hrole.null_left
    obtain rfl := Except.ok.inj hu
    obtain rfl := Except.ok.inj hv
    trivial
  | arr _ | obj _ => cases hu
  | bool _ | int _ | float _ =>
    cases role' <;> simp only [Alike, sortKeys, reduceCtorEq] at hrole
    obtain rfl := Except.ok.inj hu
    obtain rfl := Except.ok.inj hv
    trivial

theorem toolDeclaration_alike (h : Alike a b) :
    Option.Rel Alike (toolDeclaration a) (toolDeclaration b) := by
  cases a <;> cases b <;> try simp only [Alike, sortKeys, reduceCtorEq] at h
  case obj.obj f g =>
    have hfun : Alike ((Json.item "function" f).getD .null) ((Json.item "function" g).getD .null) :=
      (Alike.agreeAt h "function").getD .null
    unfold toolDeclaration
    dsimp only
    revert hfun
    generalize (Json.item "function" f).getD .null = x
    generalize (Json.item "function" g).getD .null = y
    intro hfun
    cases x <;> cases y <;> try simp only [Alike, sortKeys, reduceCtorEq] at hfun
    case obj.obj f g =>
      have hitem : ∀ k d, sortKeys (((Json.item k f).getD .null).orElse d) =
          sortKeys (((Json.item k g).getD .null).orElse d) :=
        fun k d => ((Alike.agreeAt hfun k).getD .null).orElse rfl
      apply Option.Rel.some
      simp only [Alike, sortKeys, sortFields, hitem]
    all_goals exact .none
  all_goals exact .none

theorem systemText_alike {u v : Turn} (h : TurnAlike u v) : u.systemText = v.systemText := by
  cases u <;> cases v <;> first | rfl | cases h
  rfl

theorem entry_alike {u v : Turn} (h : TurnAlike u v) : Option.Rel Alike u.entry v.entry := by
  cases u <;> cases v <;> first | exact .none | exact .some h | cases h

theorem sortFields_append (f g : Fields) : sortFields (f ++ g) = sortFields f ++ sortFields g := by
  rw [sortFields_eq, sortFields_eq, sortFields_eq, List.map_append]

theorem sortFields_optionalItem (k : String) (v : Option Json) :
    sortFields (optionalItem k v) = optionalItem k (v.map sortKeys) := by
  cases v <;> rfl

theorem sortFields_eq_nil {f g : Fields} (h : sortFields f = sortFields g) : f = [] ↔ g = [] := by
  rw [sortFields_eq, sortFields_eq] at h
  rw [← List.map_eq_nil_iff (f := fun f : String × Json => (f.1, sortKeys f.2)), h,
    List.map_eq_nil_iff]

theorem eq_null_iff (h : Alike a b) : a = .null ↔ b = .null := by
  constructor
  · rintro rfl
    exact h.null_left
  · rintro rfl
    exact Alike.null_left h.symm

variable {f g : Fields}

theorem generationConfig_alike (h : ∀ k ∈ keyedFields, AgreeAt f g k) :
    sortFields (generationConfig f) = sortFields (generationConfig g) := by
  have htemp := h "temperature" (by decide)
  have hmax : Alike (((Json.item "max_tokens" f).getD .null).orElse
      ((Json.item "max_completion_tokens" f).getD .null))
      (((Json.item "max_tokens" g).getD .null).orElse
        ((Json.item "max_completion_tokens" g).getD .null)) :=
    ((h "max_tokens" (by decide)).getD .null).orElse
      ((h "max_completion_tokens" (by decide)).getD .null)
  unfold AgreeAt at htemp
  simp only [generationConfig, sortFields_append, sortFields_optionalItem, htemp, eq_null_iff hmax]
  split_ifs
  · rfl
  · simp only [Option.map_some, show sortKeys _ = sortKeys _ from hmax]

theorem get_agree {k : String} {v w : Json} (h : AgreeAt f g k) (hv : (Json.obj f).get k = .ok v)
    (hw : (Json.obj g).get k = .ok w) : Alike v w := by
  obtain rfl := Except.ok.inj hv
  obtain rfl := Except.ok.inj hw
  exact h.getD .null

theorem prepareRequest_alike {model model' : String} {stream stream' : Bool} {v w : Json}
    (h : ∀ k ∈ keyedFields, AgreeAt f g k)
    (hv : prepareRequest rt (.obj f) model stream = .ok v)
    (hw : prepareRequest rt (.obj g) model' stream' = .ok w) :
    ∃ f' g', v = .obj f' ∧ w = .obj g' ∧ sortFields f' = sortFields g' := by
  obtain ⟨msgs, hm, hv⟩ := Py.bind_eq_ok.1 hv
  obtain ⟨xs, hx, hv⟩ := Py.bind_eq_ok.1 hv
  obtain ⟨turns, ht, hv⟩ := Py.bind_eq_ok.1 hv
  obtain ⟨tools, htl, hv⟩ := Py.bind_eq_ok.1 hv
  obtain ⟨ts, hts, hv⟩ := Py.bind_eq_ok.1 hv
  obtain ⟨msgs', hm', hw⟩ := Py.bind_eq_ok.1 hw
  obtain ⟨ys, hy, hw⟩ := Py.bind_eq_ok.1 hw
  obtain ⟨turns', ht', hw⟩ := Py.bind_eq_ok.1 hw
  obtain ⟨tools', htl', hw⟩ := Py.bind_eq_ok.1 hw
  obtain ⟨ts', hts', hw⟩ := Py.bind_eq_ok.1 hw
  obtain rfl := Except.ok.inj hv
  obtain rfl := Except.ok.inj hw
  refine ⟨_, _, rfl, rfl, ?_⟩
  have hturns : List.Forall₂ TurnAlike turns turns' := by
    rcases iter_alike ((get_agree (h "messages" (by decide)) hm hm').orElse rfl) hx hy with hxy | hs
    · exact Py.mapM_forall₂ (f := turnOf rt) turnOf_alike hxy ht ht'
    · have herr : ∀ s, ∃ e, turnOf rt (.str s) = .error e := fun s => ⟨_, rfl⟩
      rw [mapM_strings herr (fun x hx => hs x (Or.inl hx)) ht,
        mapM_strings herr (fun x hx => hs x (Or.inr hx)) ht']
      exact .nil
  have hdecl : List.Forall₂ Alike (ts.filterMap toolDeclaration) (ts'.filterMap toolDeclaration) := by
    rcases iter_alike ((get_agree (h "tools" (by decide)) htl htl').orElse rfl) hts hts'
      with hxy | hs
    · exact List.rel_filterMap (fun _ _ hxy => toolDeclaration_alike hxy) hxy
    · have hnone : ∀ zs : List Json, (∀ z ∈ zs, ∃ s, z = .str s) →
          zs.filterMap toolDeclaration = [] := by
        intro zs hz
        refine List.filterMap_eq_nil_iff.2 fun z hm => ?_
        obtain ⟨s, rfl⟩ := hz z hm
        rfl
      rw [hnone ts fun x hx => hs x (Or.inl hx), hnone ts' fun x hx => hs x (Or.inr hx)]
      exact .nil
  have hsystem := filterMap_congr (R := TurnAlike) systemText_alike hturns
  have hentries : sortKeys (.arr (turns.filterMap Turn.entry)) =
      sortKeys (.arr (turns'.filterMap Turn.entry)) :=
    alike_arr.2 (List.rel_filterMap (fun _ _ h => entry_alike h) hturns)
  have hconfig := generationConfig_alike h
  have hnil : ts.filterMap toolDeclaration = [] ↔ ts'.filterMap toolDeclaration = [] := by
    rw [← List.length_eq_zero_iff, hdecl.length_eq, List.length_eq_zero_iff]
  have hdecls : sortKeys (.arr (ts.filterMap toolDeclaration)) =
      sortKeys (.arr (ts'.filterMap toolDeclaration)) := alike_arr.2 hdecl
  have hconf : sortKeys (.obj (generationConfig f)) = sortKeys (.obj (generationConfig g)) :=
    Cache.alike_obj_of_sortFields hconfig
  have hdeclared : sortKeys (.arr [.obj [("functionDeclarations",
      .arr (ts.filterMap toolDeclaration))]]) = sortKeys (.arr [.obj [("functionDeclarations",
      .arr (ts'.filterMap toolDeclaration))]]) := by
    simp only [sortKeys, sortItems, sortFields] at hdecls ⊢
    rw [hdecls]
  simp only [sortFields, sortFields_append, sortFields_optionalItem, hentries, hsystem, hnil,
    sortFields_eq_nil hconfig, apply_ite (Option.map sortKeys), Option.map_none, Option.map_some,
    hconf, hdeclared]

end Varsten.Proxy.GeminiWire
