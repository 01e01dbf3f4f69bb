import Varsten.Machine.Exchanges
import Varsten.Proxy.TrimOrder

/-!
# Tool calls and their answers

The window may cut between a call and its answer, and an answer that repeats an earlier one is
dropped as a duplicate, whatever call it answers.
-/

namespace Varsten.Proxy.Trim

open Python (Json Py)
open Machine.FirstSeen Machine.Exchanges

/-- The ids of the tool calls of an assistant message. -/
def callIds (m : Json) : List Json :=
  if m.val "role" = .str "assistant" then
    match m.val "tool_calls" with
    | .arr calls => calls.map (·.val "id")
    | _ => []
  else []

/-- The id of the call that a tool message answers. -/
def answerIds (m : Json) : List Json :=
  if m.val "role" = .str "tool" then [m.val "tool_call_id"] else []

section

variable {p : TrimParams} {m m' : Json} {messages : List Json} {params : Json}

/-- The turns, each with whether it is one of the last ones and repeats none of those before it. -/
def marks (p : TrimParams) (messages : List Json) : List (Json × Bool) :=
  let recent := window p.keepLast (turns messages)
  ((turns messages).take ((turns messages).length - recent.length)).map (·, false) ++
    markFirst (repeatKey p) [] recent

theorem marked_marks : marked (marks p messages) = turns (kept p messages) := by
  have hold : ∀ old : List Json, marked (old.map (·, false)) = [] := by
    intro old
    simp [marked, List.filter_map, Function.comp_def]
  rw [marks, marked_append, hold, List.nil_append, turns_kept]
  exact filter_markFirst

theorem callIds_tidied : callIds (tidied p m) = callIds m := by
  rw [callIds, callIds, val_tidied (by decide), val_tidied (by decide)]

theorem answerIds_tidied : answerIds (tidied p m) = answerIds m := by
  rw [answerIds, answerIds, val_tidied (by decide), val_tidied (by decide)]

theorem system_silent (h : isSystemTurn m = true) : callIds m = [] ∧ answerIds m = [] := by
  have hrole : m.val "role" = .str "system" := of_decide_eq_true h
  rw [callIds, answerIds, hrole]
  exact ⟨if_neg (by decide), if_neg (by decide)⟩

theorem paired_turns : Paired callIds answerIds (turns messages) ↔
    Paired callIds answerIds messages :=
  paired_filter fun m _ hm => system_silent (by simpa using hm)

theorem paired_trimmed : Paired callIds answerIds (trimmed p messages) ↔
    Linked callIds answerIds (marks p messages) := by
  rw [trimmed, paired_map (fun _ => callIds_tidied) fun _ => answerIds_tidied, ← paired_turns,
    ← marked_marks, paired_marked]

/-! ## The turns that stay -/

def turn (messages : List Json) (n : ℕ) : Json := (turns messages).getD n .null

/-- How many turns are older than the last `keep_last_turns`. -/
def cut (p : TrimParams) (messages : List Json) : ℕ :=
  if 0 < p.keepLast then (turns messages).length - p.keepLast.toNat else 0

def Repeats (p : TrimParams) (m m' : Json) : Prop := ∃ k ∈ repeatKey p m, k ∈ repeatKey p m'

/-- A turn is one of the last ones and repeats none of those before it. -/
def Stays (p : TrimParams) (messages : List Json) (n : ℕ) : Prop :=
  cut p messages ≤ n ∧
    ∀ k < n, cut p messages ≤ k → ¬Repeats p (turn messages k) (turn messages n)

instance : Decidable (Repeats p m m') :=
  decidable_of_iff ((repeatKey p m).any fun k => k ∈ repeatKey p m') (by
    simp [Repeats, Option.any_eq_true])

instance : DecidablePred (Stays p messages) := fun _ => inferInstanceAs (Decidable (_ ∧ _))

theorem window_eq_drop : window p.keepLast (turns messages) =
    (turns messages).drop (cut p messages) := by
  unfold window cut
  split_ifs with hwindow hpos hpos
  · rfl
  · exact absurd hwindow.1 hpos
  · rw [Nat.sub_eq_zero_of_le (by omega), List.drop_zero]
  · rw [List.drop_zero]

theorem getElem?_marks (n : ℕ) : (marks p messages)[n]? =
    (turns messages)[n]?.map fun m => (m, decide (Stays p messages n)) := by
  have hcut : cut p messages ≤ (turns messages).length := by
    unfold cut
    split_ifs <;> omega
  have hlen : ((turns messages).take (cut p messages)).length = cut p messages := by
    rw [List.length_take, min_eq_left hcut]
  have hmarks : marks p messages = ((turns messages).take (cut p messages)).map (·, false) ++
      markFirst (repeatKey p) [] ((turns messages).drop (cut p messages)) := by
    rw [marks, window_eq_drop, List.length_drop, Nat.sub_sub_self hcut]
  rw [hmarks]
  rcases Nat.lt_or_ge n (cut p messages) with hn | hn
  · rw [List.getElem?_append_left (by rwa [List.length_map, hlen]), List.getElem?_map,
      List.getElem?_take_of_lt hn]
    congr 1
    funext m
    rw [decide_eq_false fun hs : Stays p messages n => absurd hs.1 (not_le.2 hn)]
  · rw [List.getElem?_append_right (by rwa [List.length_map, hlen]), List.length_map, hlen,
      getElem?_markFirst, List.getElem?_drop, Nat.add_sub_cancel' hn]
    cases hm : (turns messages)[n]? with
    | none => rfl
    | some m =>
      rw [Option.map_some, Option.map_some]
      refine congrArg (fun b => some (m, b)) (decide_eq_decide.2 ?_)
      have hturn : turn messages n = m := by rw [turn, List.getD_eq_getElem?_getD, hm]; rfl
      rw [Stays, and_iff_right hn, hturn]
      constructor
      · rintro hfresh k hk hcutk ⟨key, hkey, hkeym⟩
        refine hfresh key hkeym ?_
        rw [List.nil_append, List.mem_filterMap]
        have hkl : k < (turns messages).length :=
          hk.trans (List.getElem?_eq_some_iff.1 hm).1
        refine ⟨turn messages k, ?_, hkey⟩
        rw [List.mem_take_iff_getElem]
        refine ⟨k - cut p messages, ?_, ?_⟩
        · rw [List.length_drop]
          omega
        · simp only [List.getElem_drop, Nat.add_sub_cancel' hcutk]
          rw [turn, List.getD_eq_getElem _ _ hkl]
      · intro hnone key hkeym hmem
        rw [List.nil_append, List.mem_filterMap] at hmem
        obtain ⟨x, hx, hkey⟩ := hmem
        obtain ⟨k, hk, rfl⟩ := List.mem_take_iff_getElem.1 hx
        rw [List.length_drop] at hk
        refine hnone (cut p messages + k) (by omega) (by omega) ⟨key, ?_, hkeym⟩
        rw [turn, List.getD_eq_getElem _ _ (by omega)]
        rwa [List.getElem_drop] at hkey

/-! ## Exchanges -/

/-- What trimming puts out pairs calls and answers. -/
def TrimsPaired (messages : List Json) (params : Json) : Prop :=
  ∃ out changed, trimMessages messages params = .ok (out, changed) ∧
    Paired callIds answerIds out

theorem trimsPaired_iff (hne : messages ≠ []) : TrimsPaired messages params ↔
    ∃ p, trimParams params = .ok p ∧ Trims p messages ∧
      Linked callIds answerIds (marks p messages) := by
  constructor
  · rintro ⟨out, changed, h, hpaired⟩
    obtain ⟨p, hp, htrims, rfl, -⟩ := trimMessages_inv h hne
    exact ⟨p, hp, htrims, paired_trimmed.1 hpaired⟩
  · rintro ⟨p, hp, htrims, hlinked⟩
    exact ⟨_, _, trimMessages_eq hp htrims hne, paired_trimmed.2 hlinked⟩

/-- Calls and answers stay paired exactly where neither the window nor a repeat parts a call from
its answer, unless the one that stays has another partner; with ids used once there is none. -/
theorem exchanges_kept_iff (h : Paired callIds answerIds messages) :
    (TrimsPaired messages params ↔ messages = [] ∨ ∃ p, trimParams params = .ok p ∧
      Trims p messages ∧ Joined callIds answerIds (Stays p messages) (turns messages)) ∧
    (Distinct callIds answerIds messages →
      (TrimsPaired messages params ↔ messages = [] ∨ ∃ p, trimParams params = .ok p ∧
        Trims p messages ∧ Whole callIds answerIds (Stays p messages) (turns messages))) := by
  have hturns : Paired callIds answerIds (turns messages) := paired_turns.2 h
  have hjoined : TrimsPaired messages params ↔ messages = [] ∨ ∃ p, trimParams params = .ok p ∧
      Trims p messages ∧ Joined callIds answerIds (Stays p messages) (turns messages) := by
    by_cases hne : messages = []
    · subst hne
      exact iff_of_true ⟨[], false, rfl, h⟩ (.inl rfl)
    · rw [trimsPaired_iff hne, or_iff_right hne]
      refine exists_congr fun p => and_congr_right fun _ => and_congr_right fun _ => ?_
      exact linked_iff_joined getElem?_marks hturns
  refine ⟨hjoined, fun hdistinct => ?_⟩
  have hsub : (turns messages).Sublist messages := List.filter_sublist
  have honce : Distinct callIds answerIds (turns messages) :=
    ⟨hdistinct.1.sublist (hsub.flatMap callIds), hdistinct.2.sublist (hsub.flatMap answerIds)⟩
  rw [hjoined]
  refine or_congr_right (exists_congr fun p => and_congr_right fun _ => and_congr_right fun _ => ?_)
  exact joined_iff_whole honce

end

def asks (id : String) : Json :=
  .obj [("role", .str "assistant"), ("content", .null),
    ("tool_calls", .arr [.obj [("id", .str id)]])]

def gives (id result : String) : Json :=
  .obj [("role", .str "tool"), ("tool_call_id", .str id), ("content", .str result)]

/-- Both exchanges give different results, and none is split. -/
theorem results_kept :
    TrimsPaired [asks "a", gives "a" "sunny", asks "b", gives "b" "rain"] (.obj []) := by
  refine ((exchanges_kept_iff (by decide +kernel)).2 (by decide +kernel)).2
    (.inr ⟨⟨12, true, true⟩, rfl, trims_of_roles ?_, by decide +kernel⟩)
  simp only [List.forall_mem_cons]
  exact ⟨⟨_, rfl⟩, ⟨_, rfl⟩, ⟨_, rfl⟩, ⟨_, rfl⟩, List.forall_mem_nil _⟩

/-- The second result equals the first and is dropped. -/
theorem result_dropped :
    Paired callIds answerIds [asks "a", gives "a" "sunny", asks "b", gives "b" "sunny"] ∧
      ¬TrimsPaired [asks "a", gives "a" "sunny", asks "b", gives "b" "sunny"] (.obj []) := by
  refine ⟨by decide +kernel, ?_⟩
  rintro ⟨out, changed, h, hpaired⟩
  have hout : trimMessages [asks "a", gives "a" "sunny", asks "b", gives "b" "sunny"] (.obj []) =
      .ok ([asks "a", gives "a" "sunny", asks "b"], true) := by decide +kernel
  obtain ⟨rfl, -⟩ := Prod.mk.inj (Except.ok.inj (h.symm.trans hout))
  revert hpaired
  decide +kernel

end Varsten.Proxy.Trim
