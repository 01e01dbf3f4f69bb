import Varsten.Proxy.Trimming

/-!
# The order of what trimming keeps

The system messages that repeat none before them come first, then the turns of the window that
repeat none before them in it.
-/

namespace Varsten.Proxy.Trim

open Python (Json Py)
open Machine.FirstSeen

section Parts

variable {p : TrimParams} {m : Json} {messages xs ys : List Json} {n : ℤ}

theorem window_suffix : window n xs <:+ xs := by
  rw [window]
  split_ifs
  · exact List.drop_suffix _ xs
  · exact List.suffix_rfl

theorem window_of_le (h : ys.length ≤ (window n xs).length) : window n ys = ys := by
  rw [window] at h ⊢
  refine if_neg fun hcut => ?_
  split_ifs at h with hxs
  · rw [List.length_drop] at h
    omega
  · omega

theorem window_ne_nil (h : xs ≠ []) : window n xs ≠ [] := by
  have hpos := List.length_pos_of_ne_nil h
  rw [← List.length_pos_iff, window]
  split_ifs
  · rw [List.length_drop]
    omega
  · exact hpos

theorem ordered_subperm : List.Subperm (ordered p messages) messages := by
  have hperm : (systems messages ++ turns messages).Perm messages :=
    List.filter_append_perm isSystemTurn messages
  exact ((List.Sublist.refl _).append window_suffix.sublist).subperm.trans hperm.subperm

theorem kept_sublist : (kept p messages).Sublist (ordered p messages) := keepFirst_sublist

theorem kept_subperm : List.Subperm (kept p messages) messages :=
  kept_sublist.subperm.trans ordered_subperm

theorem ownRole_eq_system : ownRole m = .str "system" ↔ isSystemTurn m = true := by
  cases m with
  | obj fields =>
    rw [ownRole, roleKey, isSystemTurn, decide_eq_true_iff, Json.getD, Python.Py.bind_ok,
      Json.val_obj]
    cases Json.item "role" fields with
    | none => decide
    | some v => cases v <;> simp [Json.hashKey, Except.toOption]
  | _ => simp [ownRole, roleKey, Json.getD, Python.Py.bind_error, Except.toOption, isSystemTurn,
      Json.val]

theorem key_ne_of_turn {x y : Json} (hx : isSystemTurn x = true) (hy : isSystemTurn y = false)
    {k : Json × String} (hk : k ∈ repeatKey p x) : k ∉ repeatKey p y := by
  have hrole : ∀ {z : Json}, k ∈ repeatKey p z → k.1 = ownRole z := by
    intro z hz
    rw [repeatKey] at hz
    split_ifs at hz
    · obtain ⟨t, -, rfl⟩ := Option.mem_map.1 hz
      rfl
    · cases hz
  intro hky
  have hsystem : ownRole y = .str "system" := by
    rw [← hrole hky, hrole hk, ownRole_eq_system, hx]
  rw [ownRole_eq_system, hy] at hsystem
  cases hsystem

theorem isSystemTurn_of_systems (h : m ∈ systems messages) : isSystemTurn m = true :=
  (List.mem_filter.1 h).2

theorem isSystemTurn_of_turns (h : m ∈ turns messages) : isSystemTurn m = false := by
  simpa using (List.mem_filter.1 h).2

theorem kept_eq : kept p messages = keepFirst (repeatKey p) [] (systems messages) ++
    keepFirst (repeatKey p) [] (window p.keepLast (turns messages)) :=
  keepFirst_append_of_disjoint fun _ hx _ hy _ => key_ne_of_turn (isSystemTurn_of_systems hx)
    (isSystemTurn_of_turns (window_suffix.subset hy))

theorem systems_kept :
    systems (kept p messages) = keepFirst (repeatKey p) [] (systems messages) := by
  have hsystems : (keepFirst (repeatKey p) [] (systems messages)).filter isSystemTurn =
      keepFirst (repeatKey p) [] (systems messages) :=
    List.filter_eq_self.2 fun m hm => isSystemTurn_of_systems (keepFirst_sublist.subset hm)
  have hturns : (keepFirst (repeatKey p) [] (window p.keepLast (turns messages))).filter
      isSystemTurn = [] := List.filter_eq_nil_iff.2 fun m hm => by
    rw [isSystemTurn_of_turns (window_suffix.subset (keepFirst_sublist.subset hm))]
    exact Bool.false_ne_true
  rw [systems, kept_eq, List.filter_append, hsystems, hturns, List.append_nil]

theorem turns_kept : turns (kept p messages) =
    keepFirst (repeatKey p) [] (window p.keepLast (turns messages)) := by
  have hsystems : (keepFirst (repeatKey p) [] (systems messages)).filter (!isSystemTurn ·) = [] :=
    List.filter_eq_nil_iff.2 fun m hm => by
      simp [isSystemTurn_of_systems (keepFirst_sublist.subset hm)]
  have hturns : (keepFirst (repeatKey p) [] (window p.keepLast (turns messages))).filter
      (!isSystemTurn ·) = keepFirst (repeatKey p) [] (window p.keepLast (turns messages)) :=
    List.filter_eq_self.2 fun m hm => by
      rw [isSystemTurn_of_turns (window_suffix.subset (keepFirst_sublist.subset hm))]
      rfl
  rw [turns, kept_eq, List.filter_append, hsystems, hturns, List.nil_append]

theorem trims_of_roles (h : ∀ m ∈ messages, ∃ role, m.val "role" = .str role) :
    Trims p messages := by
  have hreadable : ∀ m ∈ messages, Readable p m := by
    intro m hm
    obtain ⟨role, hrole⟩ := h m hm
    cases m with
    | obj fields =>
      refine ⟨rfl, fun _ _ => ⟨.str role, ?_⟩⟩
      rw [Json.val_obj] at hrole
      rw [roleKey, Json.getD, Python.Py.bind_ok]
      cases hitem : Json.item "role" fields with
      | none =>
        rw [hitem] at hrole
        cases hrole
      | some v =>
        rw [hitem] at hrole
        obtain rfl : v = .str role := hrole
        rfl
    | _ => cases hrole
  exact ⟨fun m hm => (hreadable m hm).dict, fun m hm => hreadable m (ordered_subperm.subset hm)⟩

theorem systems_map : systems (messages.map (tidied p)) = (systems messages).map (tidied p) := by
  rw [systems, systems, List.filter_map]
  simp [Function.comp_def]

theorem turns_map : turns (messages.map (tidied p)) = (turns messages).map (tidied p) := by
  rw [turns, turns, List.filter_map]
  simp [Function.comp_def]

end Parts

end Varsten.Proxy.Trim
