import Varsten.Python.Value

/-!
# Equality of values

Every value equals itself where its dicts have each key once, and an equal dict has equal items.
-/

namespace Varsten.Python.Json

mutual

def Keyed : Json → Prop
  | .arr xs => KeyedList xs
  | .obj fs => (fs.map Prod.fst).Nodup ∧ KeyedFields fs
  | _ => True

def KeyedList : List Json → Prop
  | [] => True
  | x :: xs => Keyed x ∧ KeyedList xs

def KeyedFields : List (String × Json) → Prop
  | [] => True
  | (_, x) :: fs => Keyed x ∧ KeyedFields fs

end

theorem item_of_mem {fs : List (String × Json)} (h : (fs.map Prod.fst).Nodup) {f : String × Json}
    (hf : f ∈ fs) : item f.1 fs = some f.2 := by
  induction fs with
  | nil => cases hf
  | cons g fs ih =>
    rw [List.map_cons, List.nodup_cons] at h
    rw [item]
    rcases List.mem_cons.1 hf with rfl | hf
    · rw [if_pos rfl]
    · have hne : g.1 ≠ f.1 := fun heq => h.1 (heq ▸ List.mem_map_of_mem hf)
      rw [if_neg hne, ih h.2 hf]

theorem mem_of_item {fs : List (String × Json)} {k : String} {v : Json} (h : item k fs = some v) :
    (k, v) ∈ fs := by
  induction fs with
  | nil => cases h
  | cons f fs ih =>
    rw [item] at h
    split_ifs at h with hk
    · obtain rfl := Option.some.inj h
      exact List.mem_cons.2 (.inl (by rw [← hk]))
    · exact List.mem_cons_of_mem f (ih h)

mutual

theorem pyEq_self : (j : Json) → Keyed j → pyEq j j = true
  | .null, _ | .bool _, _ | .int _, _ | .float _, _ | .str _, _ => by
    simp [pyEq, scalarEq, num?]
  | .arr xs, h => pyEqList_self xs h
  | .obj fs, h => by
    rw [Keyed] at h
    rw [pyEq, Bool.and_eq_true]
    exact ⟨by simp, pyEqFields_self fs fs h.2 fun f hf => item_of_mem h.1 hf⟩

theorem pyEqList_self : (xs : List Json) → KeyedList xs → pyEqList xs xs = true
  | [], _ => rfl
  | x :: xs, h => by
    rw [KeyedList] at h
    rw [pyEqList, pyEq_self x h.1, pyEqList_self xs h.2]
    rfl

theorem pyEqFields_self : (fs gs : List (String × Json)) → KeyedFields fs →
    (∀ f ∈ fs, item f.1 gs = some f.2) → pyEqFields fs gs = true
  | [], _, _, _ => rfl
  | (k, x) :: fs, gs, h, hitem => by
    rw [KeyedFields] at h
    rw [List.forall_mem_cons] at hitem
    rw [pyEqFields, hitem.1]
    dsimp only
    rw [pyEq_self x h.1, pyEqFields_self fs gs h.2 hitem.2]
    rfl

end

theorem pyEqFields_item {fs gs : List (String × Json)} (h : pyEqFields fs gs = true) {k : String}
    {v : Json} (hk : item k fs = some v) : ∃ w, item k gs = some w ∧ pyEq v w = true := by
  induction fs with
  | nil => cases hk
  | cons f fs ih =>
    rw [pyEqFields, Bool.and_eq_true] at h
    rw [item] at hk
    split_ifs at hk with heq
    · obtain rfl := Option.some.inj hk
      subst heq
      cases hitem : item f.1 gs with
      | none =>
        rw [hitem] at h
        cases h.1
      | some w =>
        rw [hitem] at h
        exact ⟨w, rfl, h.1⟩
    · exact ih h.2 hk

theorem pyEq_str {s : String} {j : Json} (h : pyEq (.str s) j = true) : j = .str s := by
  cases j with
  | str t =>
    have heq : Json.str s = .str t := by simpa [pyEq, scalarEq, num?] using h
    exact heq.symm
  | _ => simp [pyEq, scalarEq, num?] at h

theorem pyEq_obj {fs : List (String × Json)} {j : Json} (h : pyEq (.obj fs) j = true) :
    ∃ gs, j = .obj gs ∧ pyEqFields fs gs = true := by
  cases j with
  | obj gs =>
    rw [pyEq, Bool.and_eq_true] at h
    exact ⟨gs, rfl, h.2⟩
  | _ => simp [pyEq] at h

theorem val_of_pyEq {a b : Json} (h : pyEq a b = true) {k s : String} (hk : a.val k = .str s) :
    b.val k = .str s := by
  cases a with
  | obj fs =>
    obtain ⟨gs, rfl, hfields⟩ := pyEq_obj h
    rw [val_obj] at hk ⊢
    cases hitem : item k fs with
    | none =>
      rw [hitem] at hk
      cases hk
    | some v =>
      rw [hitem, Option.getD_some] at hk
      obtain ⟨w, hw, heq⟩ := pyEqFields_item hfields hitem
      rw [hk] at heq
      rw [hw, Option.getD_some, pyEq_str heq]
  | _ => cases hk

theorem pyEqList_forall₂ {xs ys : List Json} (h : pyEqList xs ys = true) :
    List.Forall₂ (fun x y => pyEq x y = true) xs ys := by
  induction xs generalizing ys with
  | nil =>
    cases ys with
    | nil => exact .nil
    | cons y ys => cases h
  | cons x xs ih =>
    cases ys with
    | nil => cases h
    | cons y ys =>
      rw [pyEqList, Bool.and_eq_true] at h
      exact .cons h.1 (ih h.2)

theorem keyedList_iff {xs : List Json} : KeyedList xs ↔ ∀ x ∈ xs, Keyed x := by
  induction xs with
  | nil => simp [KeyedList]
  | cons x xs ih => rw [KeyedList, List.forall_mem_cons, ih]

theorem keyedFields_iff {fs : List (String × Json)} : KeyedFields fs ↔ ∀ f ∈ fs, Keyed f.2 := by
  induction fs with
  | nil => simp [KeyedFields]
  | cons f fs ih => rw [KeyedFields, List.forall_mem_cons, ih]

theorem map_setItem {fs : List (String × Json)} {k : String} {v : Json} (h : k ∈ fs.map Prod.fst) :
    (setItem k v fs).map Prod.fst = fs.map Prod.fst := by
  induction fs with
  | nil => cases h
  | cons f fs ih =>
    rw [setItem]
    split_ifs with hk
    · simp [hk]
    · have hmem : k ∈ fs.map Prod.fst := (List.mem_cons.1 h).resolve_left fun heq => hk heq.symm
      rw [List.map_cons, List.map_cons, ih hmem]

theorem mem_setItem {fs : List (String × Json)} {k : String} {v : Json} {f : String × Json}
    (h : f ∈ setItem k v fs) : f ∈ fs ∨ f = (k, v) := by
  induction fs with
  | nil => exact .inr (List.mem_singleton.1 h)
  | cons g fs ih =>
    rw [setItem] at h
    split_ifs at h
    · exact (List.mem_cons.1 h).symm.imp_left fun h => List.mem_cons_of_mem g h
    · rcases List.mem_cons.1 h with rfl | h
      · exact .inl List.mem_cons_self
      · exact (ih h).imp_left fun h => List.mem_cons_of_mem g h

theorem keyed_setItem {fs : List (String × Json)} {k : String} {v : Json} (h : Keyed (.obj fs))
    (hk : k ∈ fs.map Prod.fst) (hv : Keyed v) : Keyed (.obj (setItem k v fs)) := by
  rw [Keyed, keyedFields_iff] at h ⊢
  refine ⟨by rw [map_setItem hk]; exact h.1, fun f hf => ?_⟩
  rcases mem_setItem hf with hf | rfl
  · exact h.2 f hf
  · exact hv

/-! ## Setting items -/

theorem setItem_new {k : String} {fs : List (String × Json)} (h : k ∉ fs.map Prod.fst) (v : Json) :
    setItem k v fs = fs ++ [(k, v)] := by
  induction fs with
  | nil => rfl
  | cons f fs ih =>
    rw [List.map_cons, List.mem_cons, not_or] at h
    rw [setItem, if_neg (Ne.symm h.1), ih h.2, List.cons_append]

theorem nodup_setItem {fs : List (String × Json)} (h : (fs.map Prod.fst).Nodup) (k : String)
    (v : Json) : ((setItem k v fs).map Prod.fst).Nodup := by
  by_cases hk : k ∈ fs.map Prod.fst
  · rwa [map_setItem hk]
  · rw [setItem_new hk, List.map_append]
    exact h.append (List.nodup_singleton k) (List.disjoint_singleton.2 hk)

def setItems (done fs : List (String × Json)) : List (String × Json) :=
  fs.foldl (fun done f => setItem f.1 f.2 done) done

theorem setItems_new {done fs : List (String × Json)} (h : ((done ++ fs).map Prod.fst).Nodup) :
    setItems done fs = done ++ fs := by
  induction fs generalizing done with
  | nil => exact (List.append_nil done).symm
  | cons f fs ih =>
    have hf : f.1 ∉ done.map Prod.fst := by
      rw [List.map_append, List.nodup_append] at h
      exact fun hm => h.2.2 _ hm f.1 List.mem_cons_self rfl
    rw [List.append_cons] at h ⊢
    rw [← ih h, setItems, List.foldl_cons, setItem_new hf]
    rfl

end Varsten.Python.Json
