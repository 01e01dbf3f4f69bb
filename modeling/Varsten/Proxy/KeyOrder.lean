import Varsten.Proxy.Cache

/-!
# Key order

Two values are alike when a dump with sorted keys writes them alike. Reading an
item, a truth value or an element does not tell alike values apart.
-/

namespace Varsten.Proxy.Cache

open Python (Json Py)

abbrev Fields := List (String × Json)

def keyLe (f g : String × Json) : Bool := f.1 ≤ g.1

def Alike (a b : Json) : Prop := sortKeys a = sortKeys b

theorem keyLe_trans (f g h : String × Json) (hfg : keyLe f g = true) (hgh : keyLe g h = true) :
    keyLe f h = true := by
  simp only [keyLe, decide_eq_true_eq] at *
  exact hfg.trans hgh

theorem keyLe_total (f g : String × Json) : (keyLe f g || keyLe g f) = true := by
  simp only [keyLe, Bool.or_eq_true, decide_eq_true_eq]
  exact le_total f.1 g.1

theorem sortFields_eq (fields : Fields) :
    sortFields fields = fields.map fun f => (f.1, sortKeys f.2) := by
  induction fields with
  | nil => rfl
  | cons f fields ih => simp [sortFields, ih]

theorem sortItems_eq (xs : List Json) : sortItems xs = xs.map sortKeys := by
  induction xs with
  | nil => rfl
  | cons x xs ih => simp [sortItems, ih]

/-! ## Lookups -/

theorem item_eq_filter (k : String) (fields : Fields) :
    Json.item k fields = ((fields.filter fun f => f.1 = k).head?).map Prod.snd := by
  induction fields with
  | nil => rfl
  | cons f fields ih =>
    rw [Json.item]
    split_ifs with h
    · simp [h]
    · simp [h, ih]

theorem filter_mergeSort (k : String) (fields : Fields) :
    (fields.mergeSort keyLe).filter (fun f => f.1 = k) = fields.filter fun f => f.1 = k := by
  have hpair : (fields.filter fun f => f.1 = k).Pairwise fun f g => keyLe f g = true := by
    apply List.pairwise_of_forall_mem_list
    intro f hf g hg
    have hfk := (List.mem_filter.1 hf).2
    have hgk := (List.mem_filter.1 hg).2
    simp only [decide_eq_true_eq] at hfk hgk
    simp [keyLe, hfk, hgk]
  have hsub := List.sublist_mergeSort keyLe_trans keyLe_total hpair List.filter_sublist
  have hfilter := hsub.filter fun f => f.1 = k
  rw [List.filter_filter] at hfilter
  simp only [Bool.and_self] at hfilter
  exact (hfilter.eq_of_length
    ((List.mergeSort_perm fields keyLe).filter _).length_eq.symm).symm

theorem item_mergeSort (k : String) (fields : Fields) :
    Json.item k (fields.mergeSort keyLe) = Json.item k fields := by
  rw [item_eq_filter, filter_mergeSort, ← item_eq_filter]

theorem item_sortFields (k : String) (fields : Fields) :
    Json.item k (sortFields fields) = (Json.item k fields).map sortKeys := by
  induction fields with
  | nil => rfl
  | cons f fields ih =>
    obtain ⟨l, v⟩ := f
    simp only [sortFields, Json.item]
    split_ifs
    · rfl
    · exact ih

/-! ## Dicts -/

def AgreeAt (f g : Fields) (k : String) : Prop :=
  (Json.item k f).map sortKeys = (Json.item k g).map sortKeys

theorem alike_obj_eq {f g : Fields} :
    Alike (.obj f) (.obj g) ↔ (sortFields f).mergeSort keyLe = (sortFields g).mergeSort keyLe := by
  rw [Alike, sortKeys, sortKeys, Json.obj.injEq]
  rfl

theorem Alike.agreeAt {f g : Fields} (h : Alike (.obj f) (.obj g)) (k : String) :
    AgreeAt f g k := by
  rw [AgreeAt, ← item_sortFields, ← item_sortFields, ← item_mergeSort, ← item_mergeSort k
    (sortFields g), alike_obj_eq.1 h]

theorem mem_iff_item {f : Fields} (hf : (f.map Prod.fst).Nodup) (k : String) (v : Json) :
    (k, v) ∈ f ↔ Json.item k f = some v := by
  induction f with
  | nil => simp [Json.item]
  | cons x f ih =>
    obtain ⟨l, w⟩ := x
    simp only [List.map_cons, List.nodup_cons] at hf
    simp only [List.mem_cons, Prod.mk.injEq, Json.item]
    split_ifs with h
    · subst h
      have hl : (l, v) ∉ f := fun hm => hf.1 (List.mem_map.2 ⟨_, hm, rfl⟩)
      simp [hl, eq_comm]
    · simp [Ne.symm h, ih hf.2]

theorem alike_obj_iff {f g : Fields} (hf : (f.map Prod.fst).Nodup) (hg : (g.map Prod.fst).Nodup) :
    Alike (.obj f) (.obj g) ↔ ∀ k, AgreeAt f g k := by
  refine ⟨fun h => h.agreeAt, fun h => ?_⟩
  have hkeys : ∀ f : Fields, (sortFields f).map Prod.fst = f.map Prod.fst := by
    intro f
    rw [sortFields_eq, List.map_map]
    rfl
  have hf' : ((sortFields f).map Prod.fst).Nodup := by rwa [hkeys]
  have hg' : ((sortFields g).map Prod.fst).Nodup := by rwa [hkeys]
  have hmem : ∀ x, x ∈ sortFields f ↔ x ∈ sortFields g := by
    intro x
    obtain ⟨k, v⟩ := x
    rw [mem_iff_item hf', mem_iff_item hg', item_sortFields, item_sortFields, h k]
  have hperm : (sortFields f).Perm (sortFields g) :=
    (List.perm_ext_iff_of_nodup hf'.of_map hg'.of_map).2 hmem
  rw [alike_obj_eq]
  refine List.Perm.eq_of_pairwise ?_ (List.pairwise_mergeSort keyLe_trans keyLe_total _)
    (List.pairwise_mergeSort keyLe_trans keyLe_total _)
    ((List.mergeSort_perm _ _).trans (hperm.trans (List.mergeSort_perm _ _).symm))
  · intro x y hx hy hxy hyx
    have hk : x.1 = y.1 := le_antisymm (of_decide_eq_true hxy) (of_decide_eq_true hyx)
    have hx' := (List.mergeSort_perm _ _).mem_iff.1 hx
    have hy' := (hmem y).2 ((List.mergeSort_perm _ _).mem_iff.1 hy)
    obtain ⟨k, v⟩ := x
    obtain ⟨l, w⟩ := y
    obtain rfl : k = l := hk
    have hv := (mem_iff_item hf' k v).1 hx'
    have hw := (mem_iff_item hf' k w).1 hy'
    rw [Option.some.inj (hv.symm.trans hw)]

theorem alike_obj_of_sortFields {f g : Fields} (h : sortFields f = sortFields g) :
    Alike (.obj f) (.obj g) := by
  rw [alike_obj_eq, h]

/-! ## Reading alike values -/

section Reading

variable {a b : Json}

theorem Alike.str_left {s : String} (h : Alike (.str s) b) : b = .str s := by
  cases b <;> simp [Alike, sortKeys] at h
  rw [h]

theorem Alike.isDict (h : Alike a b) : a.isDict = b.isDict := by
  cases a <;> cases b <;> first | rfl | simp [Alike, sortKeys] at h

theorem Alike.null_left (h : Alike .null b) : b = .null := by
  cases b <;> simp [Alike, sortKeys] at h
  rfl

theorem isEmpty_eq {α : Type} {xs ys : List α} (h : xs.length = ys.length) :
    xs.isEmpty = ys.isEmpty := by
  cases xs <;> cases ys <;> simp at h ⊢

theorem length_mergeSort_eq {f g : Fields}
    (h : (sortFields f).mergeSort keyLe = (sortFields g).mergeSort keyLe) :
    f.length = g.length := by
  have hl := congrArg List.length h
  simpa [sortFields_eq] using hl

theorem alike_arr {xs ys : List Json} :
    Alike (.arr xs) (.arr ys) ↔ List.Forall₂ Alike xs ys := by
  rw [Alike, sortKeys, sortKeys, sortItems_eq, sortItems_eq, Json.arr.injEq,
    ← List.forall₂_eq_eq_eq, List.forall₂_map_left_iff, List.forall₂_map_right_iff]
  rfl

theorem Alike.truthy (h : Alike a b) : a.truthy = b.truthy := by
  cases a <;> cases b
  case obj.obj f g =>
    simp only [Json.truthy, isEmpty_eq (length_mergeSort_eq (alike_obj_eq.1 h))]
  case arr.arr xs ys => simp only [Json.truthy, isEmpty_eq (alike_arr.1 h).length_eq]
  all_goals simp only [Alike, sortKeys, reduceCtorEq] at h
  all_goals first | rfl | rw [h]

theorem Alike.orElse {c d : Json} (h : Alike a b) (hd : Alike c d) :
    Alike (a.orElse c) (b.orElse d) := by
  simp only [Json.orElse, h.truthy]
  split_ifs
  · exact h
  · exact hd

theorem AgreeAt.getD {f g : Fields} {k : String} (h : AgreeAt f g k) (d : Json) :
    Alike ((Json.item k f).getD d) ((Json.item k g).getD d) := by
  unfold AgreeAt at h
  cases hf : Json.item k f <;> cases hg : Json.item k g <;> rw [hf, hg] at h
  · rfl
  · cases h
  · cases h
  · exact Option.some.inj h

theorem Alike.val (h : Alike a b) (k : String) : Alike (a.val k) (b.val k) := by
  cases a <;> cases b
  case obj.obj f g => exact (h.agreeAt k).getD .null
  all_goals first | rfl | simp [Alike, sortKeys] at h

end Reading

end Varsten.Proxy.Cache
