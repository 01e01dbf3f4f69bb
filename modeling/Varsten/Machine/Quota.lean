import Mathlib

/-!
# Quotas

Calls fall into classes, and a class has a quota: a call is admitted while fewer
calls of its class than the quota came before it. A machine whose state tells how
many came before gives exactly these answers.
-/

namespace Varsten.Machine.Quota

variable {α κ σ : Type}

def answers (step : σ → α → σ × Bool) : σ → List α → List Bool
  | _, [] => []
  | s, a :: as => (step s a).2 :: answers step (step s a).1 as

/-- Whether a quota leaves room after `n` calls; there may be no quota. -/
def room : Option ℕ → ℕ → Bool
  | none, _ => true
  | some quota, n => decide (n < quota)

variable [DecidableEq κ]

def seen (cls : α → κ) (k : κ) (calls : List α) : ℕ := calls.countP fun a => cls a = k

def admitted (cls : α → κ) (quota : κ → Option ℕ) : List α → List α → List Bool
  | _, [] => []
  | past, a :: as =>
    room (quota (cls a)) (seen cls (cls a) past) :: admitted cls quota (past ++ [a]) as

def ofClass (cls : α → κ) (k : κ) (calls : List α) (given : List Bool) : List Bool :=
  ((calls.zip given).filter fun p => cls p.1 = k).map Prod.snd

variable {cls : α → κ} {quota : κ → Option ℕ} {k : κ} {past calls : List α} {a : α}

theorem seen_append (cls : α → κ) (k : κ) (xs ys : List α) :
    seen cls k (xs ++ ys) = seen cls k xs + seen cls k ys := List.countP_append

theorem seen_snoc_self (h : cls a = k) (past : List α) :
    seen cls k (past ++ [a]) = seen cls k past + 1 := by
  rw [seen_append, seen, seen, List.countP_singleton, if_pos (decide_eq_true h)]

theorem seen_snoc_of_ne (h : cls a ≠ k) (past : List α) :
    seen cls k (past ++ [a]) = seen cls k past := by
  rw [seen_append, seen, seen, List.countP_singleton, if_neg (by simpa using h), add_zero]

theorem seen_eq_zero (h : ∀ a ∈ past, cls a ≠ k) : seen cls k past = 0 :=
  List.countP_eq_zero.2 fun a ha => by simpa using h a ha

theorem ofClass_admitted (cls : α → κ) (quota : κ → Option ℕ) (k : κ) (past calls : List α) :
    ofClass cls k calls (admitted cls quota past calls) =
      (List.range (seen cls k calls)).map fun i => room (quota k) (seen cls k past + i) := by
  induction calls generalizing past with
  | nil => rfl
  | cons a as ih =>
    rw [admitted, ofClass, List.zip_cons_cons, List.filter_cons]
    have htail := ih (past ++ [a])
    rw [ofClass] at htail
    by_cases h : cls a = k
    · have hcount : seen cls k (a :: as) = seen cls k as + 1 := by
        rw [seen, List.countP_cons_of_pos (by simpa using h)]
        rfl
      rw [if_pos (decide_eq_true h), List.map_cons, htail, hcount, seen_snoc_self h,
        List.range_succ_eq_map, List.map_cons, List.map_map, h]
      refine congrArg₂ List.cons rfl (List.map_congr_left fun i _ => ?_)
      rw [Function.comp_apply, Nat.succ_eq_add_one, add_assoc, add_comm 1]
    · have hcount : seen cls k (a :: as) = seen cls k as := by
        rw [seen, List.countP_cons_of_neg (by simpa using h)]
        rfl
      rw [if_neg (by simpa using h), htail, hcount, seen_snoc_of_ne h]

theorem map_room_range (q n : ℕ) :
    (List.range n).map (fun i => room (some q) i) =
      List.replicate (min q n) true ++ List.replicate (n - q) false := by
  induction n with
  | zero => simp
  | succ n ih =>
    rw [List.range_succ, List.map_append, ih, List.map_singleton, room]
    by_cases h : n < q
    · rw [decide_eq_true h, min_eq_right h.le, min_eq_right h, Nat.sub_eq_zero_of_le h.le,
        Nat.sub_eq_zero_of_le h, List.replicate_succ']
      simp
    · have hle := not_lt.1 h
      rw [decide_eq_false h, min_eq_left hle, min_eq_left (by omega), Nat.sub_add_comm hle,
        List.replicate_succ', List.append_assoc]

/-- Of the calls of a class the first are admitted, as many as the quota has room for. -/
theorem ofClass_some {q : ℕ} (h : quota k = some q) (calls : List α) :
    ofClass cls k calls (admitted cls quota [] calls) =
      List.replicate (min q (seen cls k calls)) true ++
        List.replicate (seen cls k calls - q) false := by
  rw [ofClass_admitted, h, ← map_room_range]
  exact List.map_congr_left fun i _ => by rw [seen, List.countP_nil, zero_add]

theorem ofClass_none (h : quota k = none) (calls : List α) :
    ofClass cls k calls (admitted cls quota [] calls) =
      List.replicate (seen cls k calls) true := by
  rw [ofClass_admitted, h]
  exact (List.map_const' ..).trans (by rw [List.length_range])

/-- A machine whose steps answer by the quota, over calls of which each may follow the earlier. -/
theorem answers_eq_admitted {step : σ → α → σ × Bool} (r : α → α → Prop)
    (Inv : List α → σ → Prop)
    (hstep : ∀ past s a, (∀ b ∈ past, r b a) → Inv past s →
      (step s a).2 = room (quota (cls a)) (seen cls (cls a) past) ∧
        Inv (past ++ [a]) (step s a).1)
    {s : σ} (hinv : Inv past s) (hr : (past ++ calls).Pairwise r) :
    answers step s calls = admitted cls quota past calls := by
  induction calls generalizing s past with
  | nil => rfl
  | cons a as ih =>
    have hbefore : ∀ b ∈ past, r b a := fun b hb =>
      (List.pairwise_append.1 hr).2.2 b hb a List.mem_cons_self
    obtain ⟨hanswer, hnext⟩ := hstep past s a hbefore hinv
    rw [answers, admitted, hanswer, ih hnext (by simpa using hr)]

end Varsten.Machine.Quota
