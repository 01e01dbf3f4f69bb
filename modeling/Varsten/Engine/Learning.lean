import Varsten.Engine.Outcomes

/-!
# What a sweep learns

The candidates of a sweep, the priors that are persisted of them, and what they owe to the order of
the rows and to the limit.
-/

namespace Varsten.Engine.Learning

open Python.Utf8 (Text)
open Python.Precision (context contextSum contextSum_perm Fits)
open Machine.Gathered
open Machine.RankedCut
open Outcomes

/-! ## Folds -/

section Folds

variable {β : Type} (w : β → ℚ) (p : β → Bool)

theorem foldl_context (a : ℚ) (xs : List β) :
    xs.foldl (fun a x => context (a + w x)) a = contextSum a (xs.map w) := by
  rw [contextSum, List.foldl_map]

theorem foldl_accumulate (a : ℚ) (xs : List β) :
    xs.foldl (fun a x => accumulate a (w x) (p x)) a = contextSum a ((xs.filter p).map w) := by
  induction xs generalizing a with
  | nil => rfl
  | cons x xs ih =>
    rw [List.foldl_cons, ih, List.filter_cons]
    cases p x <;> rfl

theorem foldl_tally (n : ℕ) (xs : List β) :
    xs.foldl (fun n x => tally n (p x)) n = n + xs.countP p := by
  induction xs generalizing n with
  | nil => rfl
  | cons x xs ih =>
    rw [List.foldl_cons, ih, List.countP_cons]
    cases hx : p x
    · simp [tally]
    · simp only [tally, if_true]
      omega

theorem foldl_append {γ : Type} (f : β → List γ) (ys : List γ) (xs : List β) :
    xs.foldl (fun ys x => ys ++ f x) ys = ys ++ xs.flatMap f := by
  induction xs generalizing ys with
  | nil => simp
  | cons x xs ih => rw [List.foldl_cons, ih, List.flatMap_cons, List.append_assoc]

variable {w p} {xs ys : List β}

theorem accumulate_perm (h : Fits (xs.map w)) (hp : xs.Perm ys) :
    xs.foldl (fun a x => accumulate a (w x) (p x)) 0 =
      ys.foldl (fun a x => accumulate a (w x) (p x)) 0 := by
  rw [foldl_accumulate, foldl_accumulate]
  exact contextSum_perm (h.sublist (List.filter_sublist.map w)) ((hp.filter p).map w)

theorem context_perm (h : Fits (xs.map w)) (hp : xs.Perm ys) :
    xs.foldl (fun a x => context (a + w x)) 0 = ys.foldl (fun a x => context (a + w x)) 0 := by
  rw [foldl_context, foldl_context]
  exact contextSum_perm h (hp.map w)

theorem tally_perm (hp : xs.Perm ys) :
    xs.foldl (fun n x => tally n (p x)) 0 = ys.foldl (fun n x => tally n (p x)) 0 := by
  rw [foldl_tally, foldl_tally, hp.countP_eq]

theorem succ_perm (hp : xs.Perm ys) :
    xs.foldl (fun n _ => n + 1) 0 = ys.foldl (fun n _ => n + 1) 0 := by
  have hlength : ∀ (n : ℕ) (zs : List β), zs.foldl (fun n _ => n + 1) n = n + zs.length := by
    intro n zs
    induction zs generalizing n with
    | nil => rfl
    | cons z zs ih => rw [List.foldl_cons, ih, List.length_cons, add_assoc, add_comm 1]
  rw [hlength, hlength, hp.length_eq]

theorem append_perm {γ : Type} {f : β → List γ} (hp : xs.Perm ys) :
    (xs.foldl (fun zs x => zs ++ f x) []).Perm (ys.foldl (fun zs x => zs ++ f x) []) := by
  rw [foldl_append, foldl_append]
  exact hp.flatMap_right f

end Folds

/-! ## The statistics of a segment -/

def weightedSaving (w : DecisionRow → ℚ) (row : DecisionRow) : Option ℚ :=
  (decisionSavings row).map fun value => context (value * w row)

theorem addSavings_perm {w : DecisionRow → ℚ} {xs ys : List DecisionRow}
    (h : Fits (xs.filterMap (weightedSaving w))) (hp : xs.Perm ys) :
    xs.foldl (fun a row => addSavings a (w row) (decisionSavings row)) 0 =
      ys.foldl (fun a row => addSavings a (w row) (decisionSavings row)) 0 := by
  have hfold : ∀ (a : ℚ) (zs : List DecisionRow),
      zs.foldl (fun a row => addSavings a (w row) (decisionSavings row)) a =
        contextSum a (zs.filterMap (weightedSaving w)) := by
    intro a zs
    induction zs generalizing a with
    | nil => rfl
    | cons row zs ih =>
      rw [List.foldl_cons, ih, List.filterMap_cons, weightedSaving]
      cases decisionSavings row <;> rfl
  rw [hfold, hfold]
  exact contextSum_perm h (hp.filterMap _)

theorem foldl_addDecision (w : DecisionRow → ℚ) (s : SegmentStats) (rows : List DecisionRow) :
    rows.foldl (fun s row => s.addDecision row (w row)) s = { s with
      rawSampleCount := rows.foldl (fun n _ => n + 1) s.rawSampleCount
      sampleWeight := rows.foldl (fun a row => context (a + w row)) s.sampleWeight
      rawMeasuredSavingsCount := rows.foldl
        (fun n row => tally n (decisionSavings row).isSome) s.rawMeasuredSavingsCount
      measuredSavingsWeight := rows.foldl
        (fun a row => accumulate a (w row) (decisionSavings row).isSome) s.measuredSavingsWeight
      totalGrossSavings := rows.foldl
        (fun a row => addSavings a (w row) (decisionSavings row)) s.totalGrossSavings
      pricingStatuses := rows.foldl
        (fun xs row => xs ++ [orUnknown row.pricingStatus]) s.pricingStatuses
      proofConfidences := rows.foldl (fun xs row => xs ++
        (row.proof.map fun proof => orUnknown proof.confidence).toList) s.proofConfidences
      rawQualityMeasuredCount := rows.foldl
        (fun n row => tally n row.qualityOk.isSome) s.rawQualityMeasuredCount
      qualityMeasuredWeight := rows.foldl
        (fun a row => accumulate a (w row) row.qualityOk.isSome) s.qualityMeasuredWeight
      rawQualityPassedCount := rows.foldl
        (fun n row => tally n (row.qualityOk = some true)) s.rawQualityPassedCount
      qualityPassedWeight := rows.foldl
        (fun a row => accumulate a (w row) (row.qualityOk = some true)) s.qualityPassedWeight } := by
  induction rows generalizing s with
  | nil => rfl
  | cons row rows ih =>
    rw [List.foldl_cons, ih]
    rfl

structure LinkedFeedback where
  row : FeedbackRow
  decisionId : String
  weight : ℚ

theorem foldl_addFeedback (s : SegmentStats) (xs : List LinkedFeedback) :
    xs.foldl (fun s x => s.addFeedback x.row x.decisionId x.weight) s = { s with
      rawFeedbackCount := xs.foldl (fun n _ => n + 1) s.rawFeedbackCount
      feedbackWeight := xs.foldl (fun a x => context (a + x.weight)) s.feedbackWeight
      feedbackDecisionWeights := gather (fun x : LinkedFeedback => some x.decisionId)
        (fun a x => max a x.weight) 0 s.feedbackDecisionWeights xs
      rawAcceptedCount := xs.foldl (fun n x => tally n (accepted x.row)) s.rawAcceptedCount
      acceptedWeight := xs.foldl
        (fun a x => accumulate a x.weight (accepted x.row)) s.acceptedWeight
      rawCorrectiveCount := xs.foldl (fun n x => tally n (corrective x.row)) s.rawCorrectiveCount
      correctiveWeight := xs.foldl
        (fun a x => accumulate a x.weight (corrective x.row)) s.correctiveWeight
      failureModes := xs.foldl
        (fun ys x => ys ++ (x.row.failureMode.filter (· ≠ "")).toList) s.failureModes } := by
  induction xs generalizing s with
  | nil => rfl
  | cons x xs ih =>
    rw [List.foldl_cons, ih]
    rfl

def decisionWeights (xs : List LinkedFeedback) : Dict String ℚ :=
  gather (fun x : LinkedFeedback => some x.decisionId) (fun a x => max a x.weight) 0 [] xs

theorem decisionWeights_perm {xs ys : List LinkedFeedback} (hp : xs.Perm ys) :
    (decisionWeights xs).Perm (decisionWeights ys) := by
  refine perm_of_entries (nodup_gather List.nodup_nil) (nodup_gather List.nodup_nil)
    fun id v => ?_
  have hfold : ∀ a : ℚ, (own (fun x : LinkedFeedback => some x.decisionId) id xs).foldl
      (fun a x => max a x.weight) a = (own (fun x : LinkedFeedback => some x.decisionId) id
        ys).foldl (fun a x => max a x.weight) a := by
    have : RightCommutative fun (a : ℚ) (x : LinkedFeedback) => max a x.weight :=
      ⟨fun a x y => max_right_comm a x.weight y.weight⟩
    exact fun a => (own_perm hp).foldl_eq a
  have hnil : (keys ([] : Dict String ℚ)).Nodup := List.nodup_nil
  rw [decisionWeights, decisionWeights, mem_gather hnil, mem_gather hnil, hfold]
  simp only [hp.mem_iff]

def statsOf (w : DecisionRow → ℚ) (rows : List DecisionRow) (xs : List LinkedFeedback) :
    SegmentStats :=
  xs.foldl (fun s x => s.addFeedback x.row x.decisionId x.weight)
    (rows.foldl (fun s row => s.addDecision row (w row)) .empty)

structure WithinPrecision (w : DecisionRow → ℚ) (rows : List DecisionRow)
    (xs : List LinkedFeedback) : Prop where
  samples : Fits (rows.map w)
  savings : Fits (rows.filterMap (weightedSaving w))
  feedback : Fits (xs.map (·.weight))
  decisions : Fits ((decisionWeights xs).map (·.2))

theorem sortedCounts_perm {xs ys : List String} (h : xs.Perm ys) :
    sortedCounts xs = sortedCounts ys := by
  rw [sortedCounts, sortedCounts, List.toFinset_eq_of_perm _ _ h]
  simp only [h.count_eq]

theorem topCounts_perm {xs ys : List String} (h : xs.Perm ys) : topCounts xs = topCounts ys := by
  rw [topCounts, topCounts, sortedCounts_perm h]

theorem asDict_congr {s : SegmentStats} {statuses confidences modes : List String}
    {weights : Dict String ℚ} (key : SegmentKey) (hs : s.pricingStatuses.Perm statuses)
    (hc : s.proofConfidences.Perm confidences) (hm : s.failureModes.Perm modes)
    (hw : s.feedbackDecisionWeights.Perm weights)
    (hfits : Fits (s.feedbackDecisionWeights.map (·.2))) :
    s.asDict key = { s with
      pricingStatuses := statuses
      proofConfidences := confidences
      failureModes := modes
      feedbackDecisionWeights := weights }.asDict key := by
  have hsum : contextSum 0 (s.feedbackDecisionWeights.map (·.2)) =
      contextSum 0 (weights.map (·.2)) := contextSum_perm hfits (hw.map _)
  simp only [SegmentStats.asDict, SegmentStats.rates, SegmentStats.feedbackDecisionWeight,
    sortedCounts_perm hs, topCounts_perm hc, topCounts_perm hm, hw.length_eq, hsum]
  rfl

theorem asDict_perm {w : DecisionRow → ℚ} {rows rows' : List DecisionRow}
    {xs xs' : List LinkedFeedback} (key : SegmentKey) (h : WithinPrecision w rows xs)
    (hr : rows.Perm rows') (hx : xs.Perm xs') :
    (statsOf w rows xs).asDict key = (statsOf w rows' xs').asDict key := by
  have hstats : ∀ rows xs, statsOf w rows xs = xs.foldl
      (fun s x => s.addFeedback x.row x.decisionId x.weight)
      (rows.foldl (fun s row => s.addDecision row (w row)) .empty) := fun _ _ => rfl
  have hlists : statsOf w rows' xs' = { statsOf w rows xs with
      pricingStatuses := (statsOf w rows' xs').pricingStatuses
      proofConfidences := (statsOf w rows' xs').proofConfidences
      failureModes := (statsOf w rows' xs').failureModes
      feedbackDecisionWeights := (statsOf w rows' xs').feedbackDecisionWeights } := by
    simp only [hstats, foldl_addFeedback, foldl_addDecision, SegmentStats.empty,
      succ_perm hr, succ_perm hx, context_perm h.samples hr, context_perm h.feedback hx,
      accumulate_perm h.samples hr, accumulate_perm h.feedback hx, tally_perm hr, tally_perm hx,
      addSavings_perm h.savings hr]
  rw [hlists]
  refine asDict_congr key ?_ ?_ ?_ ?_ ?_
  all_goals simp only [hstats, foldl_addFeedback, foldl_addDecision, SegmentStats.empty]
  · exact append_perm hr
  · exact append_perm hr
  · exact append_perm hx
  · exact decisionWeights_perm hx
  · exact h.decisions

/-! ## The segments -/

section Segments

variable (lower : Text → Text) (decay : Decay) (decisions : List DecisionRow)
  (feedback : List FeedbackRow)

def linkedKey (row : FeedbackRow) : Option SegmentKey :=
  (linked lower decay decisions row).map (·.2.1)

def linkedFeedback (row : FeedbackRow) : Option LinkedFeedback :=
  (linked lower decay decisions row).map fun l => ⟨row, l.1, l.2.2⟩

def segmentDecisions (key : SegmentKey) : List DecisionRow := own (scoredKey lower) key decisions

def segmentFeedback (key : SegmentKey) : List LinkedFeedback :=
  (own (linkedKey lower decay decisions) key feedback).filterMap
    (linkedFeedback lower decay decisions)

def segmentStats (key : SegmentKey) : SegmentStats :=
  statsOf (decayWeight decay) (segmentDecisions lower decisions key)
    (segmentFeedback lower decay decisions feedback key)

theorem foldl_addLinked (s : SegmentStats) (rows : List FeedbackRow) :
    rows.foldl (addLinked lower decay decisions) s =
      (rows.filterMap (linkedFeedback lower decay decisions)).foldl
        (fun s x => s.addFeedback x.row x.decisionId x.weight) s := by
  induction rows generalizing s with
  | nil => rfl
  | cons row rows ih =>
    rw [List.foldl_cons, ih, List.filterMap_cons, addLinked, linkedFeedback]
    cases linked lower decay decisions row <;> rfl

variable {lower decay decisions feedback}

theorem mem_of_decisionSegment {id : String} {x : SegmentKey × ℚ}
    (h : decisionSegment lower decay decisions id = some x) :
    ∃ row ∈ decisions, row.id = id ∧ scoredKey lower row = some x.1 ∧
      decayWeight decay row = x.2 := by
  obtain ⟨row, hrow, hx⟩ := List.exists_of_findSome?_eq_some h
  split_ifs at hx with hid
  obtain ⟨key, hkey, rfl⟩ := Option.map_eq_some_iff.1 hx
  exact ⟨row, List.mem_reverse.1 hrow, hid, hkey, rfl⟩

theorem decisionSegment_iff (hd : (decisions.map (·.id)).Nodup) {id : String}
    {x : SegmentKey × ℚ} : decisionSegment lower decay decisions id = some x ↔
      ∃ row ∈ decisions, row.id = id ∧ scoredKey lower row = some x.1 ∧
        decayWeight decay row = x.2 := by
  refine ⟨mem_of_decisionSegment, ?_⟩
  rintro ⟨row, hrow, hid, hkey, hw⟩
  cases hs : decisionSegment lower decay decisions id with
  | none =>
    have hnone := List.findSome?_eq_none_iff.1 hs row (List.mem_reverse.2 hrow)
    rw [if_pos hid, hkey] at hnone
    cases hnone
  | some y =>
    obtain ⟨row', hrow', hid', hkey', hw'⟩ := mem_of_decisionSegment hs
    obtain rfl := List.inj_on_of_nodup_map hd hrow hrow' (hid.trans hid'.symm)
    rw [hkey] at hkey'
    exact congrArg some (Prod.ext (Option.some.inj hkey').symm (hw'.symm.trans hw))

theorem decisionSegment_perm {decisions' : List DecisionRow} (hd : (decisions.map (·.id)).Nodup)
    (hp : decisions.Perm decisions') :
    decisionSegment lower decay decisions = decisionSegment lower decay decisions' := by
  have hd' : (decisions'.map (·.id)).Nodup := (hp.map _).nodup_iff.1 hd
  funext id
  refine Option.ext fun x => ?_
  rw [decisionSegment_iff hd, decisionSegment_iff hd']
  simp only [hp.mem_iff]

theorem linked_perm {decisions' : List DecisionRow} (hd : (decisions.map (·.id)).Nodup)
    (hp : decisions.Perm decisions') :
    linked lower decay decisions = linked lower decay decisions' := by
  funext row
  rw [linked, linked, decisionSegment_perm hd hp]

theorem exists_of_linkedKey {row : FeedbackRow} {key : SegmentKey}
    (h : linkedKey lower decay decisions row = some key) :
    ∃ d ∈ decisions, scoredKey lower d = some key := by
  obtain ⟨⟨id, x⟩, hl, rfl⟩ := Option.map_eq_some_iff.1 h
  obtain ⟨id', -, hs⟩ := Option.bind_eq_some_iff.1 hl
  obtain ⟨y, hy, heq⟩ := Option.map_eq_some_iff.1 hs
  obtain ⟨rfl, rfl⟩ := Prod.mk.inj heq
  obtain ⟨d, hd, -, hkey, -⟩ := mem_of_decisionSegment hy
  exact ⟨d, hd, hkey⟩

theorem nodup_segments : (keys (segments lower decay decisions feedback)).Nodup :=
  nodup_gather (nodup_gather List.nodup_nil)

/-- A segment for each key of a scored decision, with the statistics of its own rows. -/
theorem mem_segments {key : SegmentKey} {s : SegmentStats} :
    (key, s) ∈ segments lower decay decisions feedback ↔
      (∃ row ∈ decisions, scoredKey lower row = some key) ∧
        s = segmentStats lower decay decisions feedback key := by
  have hnil : (keys ([] : Dict SegmentKey SegmentStats)).Nodup := List.nodup_nil
  rw [segments, mem_gather (nodup_gather hnil), mem_keys_gather, getD_gather, foldl_addLinked]
  have hkeys : ((key ∈ keys ([] : Dict SegmentKey SegmentStats) ∨
      ∃ row ∈ decisions, scoredKey lower row = some key) ∨
        ∃ row ∈ feedback, (linked lower decay decisions row).map (·.2.1) = some key) ↔
      ∃ row ∈ decisions, scoredKey lower row = some key := by
    constructor
    · rintro ((h | h) | ⟨row, -, h⟩)
      · exact absurd h List.not_mem_nil
      · exact h
      · exact exists_of_linkedKey h
    · exact fun h => .inl (.inr h)
  rw [hkeys]
  rfl

theorem mem_keys_segments {key : SegmentKey} :
    key ∈ keys (segments lower decay decisions feedback) ↔
      ∃ row ∈ decisions, scoredKey lower row = some key := by
  constructor
  · intro h
    obtain ⟨⟨key, s⟩, he, rfl⟩ := List.mem_map.1 h
    exact (mem_segments.1 he).1
  · exact fun h => List.mem_map.2 ⟨_, mem_segments.2 ⟨h, rfl⟩, rfl⟩

variable (lower decay decisions feedback) in
def candidateOf (key : SegmentKey) : Candidate :=
  (segmentStats lower decay decisions feedback key).asDict key

theorem scoredSegments_eq : scoredSegments lower decay decisions feedback =
    (keys (segments lower decay decisions feedback)).map
      (candidateOf lower decay decisions feedback) := by
  rw [scoredSegments, keys, List.map_map]
  refine List.map_congr_left fun e he => ?_
  rw [Function.comp_apply, candidateOf, ← (mem_segments.1 he).2]

theorem candidateOf_injective :
    Function.Injective (candidateOf lower decay decisions feedback) :=
  fun _ _ h => congrArg Candidate.segment h

theorem nodup_scoredSegments : (scoredSegments lower decay decisions feedback).Nodup := by
  rw [scoredSegments_eq]
  exact nodup_segments.map candidateOf_injective

/-! ## The order of the rows -/

variable (lower decay decisions feedback) in
def Precise : Prop := ∀ key, WithinPrecision (decayWeight decay)
  (segmentDecisions lower decisions key) (segmentFeedback lower decay decisions feedback key)

section Order

variable {decisions' : List DecisionRow} {feedback' : List FeedbackRow}

theorem segmentFeedback_congr
    (hl : linked lower decay decisions = linked lower decay decisions') (key : SegmentKey) :
    segmentFeedback lower decay decisions feedback key =
      segmentFeedback lower decay decisions' feedback key := by
  have hkey : linkedKey lower decay decisions = linkedKey lower decay decisions' := by
    funext row
    rw [linkedKey, linkedKey, hl]
  have hfeed : linkedFeedback lower decay decisions = linkedFeedback lower decay decisions' := by
    funext row
    rw [linkedFeedback, linkedFeedback, hl]
  rw [segmentFeedback, segmentFeedback, hkey, hfeed]

theorem segmentFeedback_perm (hd : (decisions.map (·.id)).Nodup) (hp : decisions.Perm decisions')
    (hf : feedback.Perm feedback') (key : SegmentKey) :
    (segmentFeedback lower decay decisions feedback key).Perm
      (segmentFeedback lower decay decisions' feedback' key) := by
  rw [segmentFeedback_congr (linked_perm hd hp)]
  exact (own_perm hf).filterMap _

theorem keys_segments_perm (hp : decisions.Perm decisions') :
    (keys (segments lower decay decisions feedback)).Perm
      (keys (segments lower decay decisions' feedback')) := by
  refine (List.perm_ext_iff_of_nodup nodup_segments nodup_segments).2 fun key => ?_
  rw [mem_keys_segments, mem_keys_segments]
  simp only [hp.mem_iff]

theorem scoredSegments_perm (hd : (decisions.map (·.id)).Nodup)
    (hprecise : Precise lower decay decisions feedback) (hp : decisions.Perm decisions')
    (hf : feedback.Perm feedback') :
    (scoredSegments lower decay decisions feedback).Perm
      (scoredSegments lower decay decisions' feedback') := by
  have hcandidate : candidateOf lower decay decisions feedback =
      candidateOf lower decay decisions' feedback' := by
    funext key
    exact asDict_perm key (hprecise key) (own_perm hp) (segmentFeedback_perm hd hp hf key)
  rw [scoredSegments_eq, scoredSegments_eq, hcandidate]
  exact (keys_segments_perm hp).map _

/-! ## A segment's rows first -/

variable (lower decisions) in
def front (key : SegmentKey) : List DecisionRow :=
  segmentDecisions lower decisions key ++
    decisions.filter fun row => ¬ scoredKey lower row = some key

theorem perm_front (key : SegmentKey) : (front lower decisions key).Perm decisions := by
  simpa [front, segmentDecisions, own] using List.filter_append_perm _ decisions

theorem segmentDecisions_front (key k : SegmentKey) :
    segmentDecisions lower (front lower decisions key) k = segmentDecisions lower decisions k := by
  rw [segmentDecisions, front, own_append, segmentDecisions, segmentDecisions, own, own, own, own,
    List.filter_filter, List.filter_filter]
  by_cases hk : key = k
  · subst hk
    simp
  · have hne : ¬ k = key := fun h => hk h.symm
    rw [List.filter_eq_nil_iff.2, List.nil_append]
    · refine List.filter_congr fun row _ => ?_
      by_cases h : scoredKey lower row = some k <;> simp [h, hne]
    · intro row _
      by_cases h : scoredKey lower row = some k <;> simp [h, hne]

theorem candidateOf_front (hd : (decisions.map (·.id)).Nodup) (key : SegmentKey) :
    candidateOf lower decay (front lower decisions key) feedback =
      candidateOf lower decay decisions feedback := by
  have hl : linked lower decay (front lower decisions key) = linked lower decay decisions :=
    (linked_perm hd (perm_front key).symm).symm
  funext k
  rw [candidateOf, candidateOf, segmentStats, segmentStats, segmentDecisions_front,
    segmentFeedback_congr hl]

theorem exists_scoredSegments_front (hd : (decisions.map (·.id)).Nodup) {key : SegmentKey}
    (h : ∃ row ∈ decisions, scoredKey lower row = some key) : ∃ cs,
      scoredSegments lower decay (front lower decisions key) feedback =
        candidateOf lower decay decisions feedback key :: cs := by
  obtain ⟨row, hrow, hkey⟩ := h
  have hmem : row ∈ segmentDecisions lower decisions key :=
    List.mem_filter.2 ⟨hrow, by simpa using hkey⟩
  obtain ⟨first, rest, hsplit⟩ : ∃ first rest, front lower decisions key = first :: rest ∧
      scoredKey lower first = some key := by
    cases hown : segmentDecisions lower decisions key with
    | nil => rw [hown] at hmem; cases hmem
    | cons first tail =>
      refine ⟨first, _, by rw [front, hown]; rfl, ?_⟩
      have hfirst : first ∈ segmentDecisions lower decisions key := by simp [hown]
      simpa using (List.mem_filter.1 hfirst).2
  obtain ⟨hsplit, hfirst⟩ := hsplit
  have hhead : ∃ v d, segments lower decay (front lower decisions key) feedback =
      (key, v) :: d := by
    rw [segments, hsplit, gather_cons, hfirst]
    dsimp only [update]
    obtain ⟨v, d, hg⟩ := gather_head (key, _)
    rw [hg]
    exact gather_head (key, v)
  obtain ⟨v, d, hseg⟩ := hhead
  refine ⟨(keys d).map (candidateOf lower decay decisions feedback), ?_⟩
  rw [scoredSegments_eq, hseg, candidateOf_front hd]
  rfl

end Order

end Segments

/-! ## A sweep -/

/-- `PROMOTABLE_READINESS`. -/
def cleared (c : Candidate) : Bool :=
  c.readiness.status = .recommendable || c.readiness.status = .autoApplyCandidate

/-- A row of `engine_outcome_priors`. -/
structure EngineOutcomePrior where
  segment : SegmentKey
  readinessStatus : ReadinessStatus
  sampleCount : ℤ
  measuredSavingsCount : ℤ
  totalGrossSavings : Option ℚ
  averageGrossSavings : Option ℚ
  qualityPassRate : Option ℚ
  feedbackAcceptanceRate : Option ℚ
  reasonCodes : List String

def segmentValue (limit : ℕ) (value : String) : String :=
  String.ofList ((if value = "" then "unknown" else value).toList.take limit)

def outcomePrior (c : Candidate) : EngineOutcomePrior where
  segment := {
    routeKey := segmentValue 128 c.segment.routeKey
    taskType := segmentValue 128 c.segment.taskType
    riskLevel := segmentValue 32 c.segment.riskLevel
    providerRequested := segmentValue 64 c.segment.providerRequested
    modelRequested := segmentValue 128 c.segment.modelRequested
    providerChosen := segmentValue 64 c.segment.providerChosen
    modelChosen := segmentValue 128 c.segment.modelChosen
    lever := segmentValue 32 c.segment.lever }
  readinessStatus := c.readiness.status
  sampleCount := c.sampleCount
  measuredSavingsCount := c.measuredSavingsCount
  totalGrossSavings := c.totalGrossSavings
  averageGrossSavings := c.averageGrossSavings
  qualityPassRate := c.quality.passRate
  feedbackAcceptanceRate := c.feedback.acceptanceRate
  reasonCodes := c.readiness.reasonCodes

/-- What is left of the project's priors once they are deleted and written again. -/
def refreshProjectOutcomePriors (candidates : List Candidate) : List EngineOutcomePrior :=
  candidates.map outcomePrior

section Sweep

variable (lower : Text → Text) (decay : Decay) (decisions : List DecisionRow)
  (feedback : List FeedbackRow)

def scoreProjectLearningCandidates : List Candidate :=
  scoreOptimizationOutcomes lower decay defaultLimit decisions feedback

/-- Every cleared segment is handed to the promotion, whose own filters are not part of this, and
persisted, and the order of the rows does not matter. -/
structure Learned : Prop where
  promoted : ∀ c ∈ scoredSegments lower decay decisions feedback, cleared c →
    c ∈ scoreProjectLearningCandidates lower decay decisions feedback
  persisted : ∀ c ∈ scoredSegments lower decay decisions feedback, cleared c →
    outcomePrior c ∈ refreshProjectOutcomePriors
      (scoreProjectLearningCandidates lower decay decisions feedback)
  unordered : ∀ decisions' feedback', decisions.Perm decisions' → feedback.Perm feedback' →
    ∀ c, c ∈ scoreProjectLearningCandidates lower decay decisions' feedback' ↔
      c ∈ scoreProjectLearningCandidates lower decay decisions feedback

/-- No more than ten segments are cleared, and no tie of the sort key crosses the limit. -/
def Uncut : Prop :=
  (scoredSegments lower decay decisions feedback).countP (cleared ·) ≤ defaultLimit ∧
    Decided sortKey defaultLimit (scoredSegments lower decay decisions feedback)

variable {lower decay decisions feedback}

theorem readinessRank_cleared (c : Candidate) :
    readinessRank c.readiness.status ≤ 1 ↔ cleared c = true := by
  rw [cleared]
  cases c.readiness.status <;> decide

theorem sortKey_lt_of_cleared {a b : Candidate} (ha : cleared a = true) (hb : ¬ cleared b = true) :
    sortKey a < sortKey b := by
  rw [← readinessRank_cleared] at ha hb
  refine Prod.Lex.toLex_lt_toLex.2 (.inl ?_)
  dsimp only
  omega

theorem promoted_iff :
    (∀ c ∈ scoredSegments lower decay decisions feedback, cleared c →
      c ∈ scoreProjectLearningCandidates lower decay decisions feedback) ↔
      (scoredSegments lower decay decisions feedback).countP (cleared ·) ≤ defaultLimit := by
  have h := @kept_iff _ _ _ sortKey defaultLimit (scoredSegments lower decay decisions feedback)
    (fun c => cleared c = true) _ (fun a _ b _ ha hb => sortKey_lt_of_cleared ha hb)
    nodup_scoredSegments
  simpa [scoreProjectLearningCandidates, scoreOptimizationOutcomes] using h

theorem Learned.uncut (hd : (decisions.map (·.id)).Nodup)
    (h : Learned lower decay decisions feedback) : Uncut lower decay decisions feedback := by
  refine ⟨promoted_iff.1 h.promoted, ?_⟩
  by_contra hno
  obtain ⟨z, hz, hout, hin⟩ := exists_of_not_decided nodup_scoredSegments hno
  rw [scoredSegments_eq] at hz
  obtain ⟨key, hkey, rfl⟩ := List.mem_map.1 hz
  obtain ⟨cs, hcs⟩ := exists_scoredSegments_front hd (mem_keys_segments.1 hkey)
  have hperm : (scoredSegments lower decay decisions feedback).Perm
      (candidateOf lower decay decisions feedback key :: cs) := by
    rw [← hcs, scoredSegments_eq, scoredSegments_eq, candidateOf_front hd]
    exact (keys_segments_perm (perm_front key).symm).map _
  have hfront : candidateOf lower decay decisions feedback key ∈
      scoreProjectLearningCandidates lower decay (front lower decisions key) feedback := by
    rw [scoreProjectLearningCandidates, scoreOptimizationOutcomes, hcs]
    exact hin cs hperm
  exact hout ((h.unordered _ _ (perm_front key).symm (List.Perm.refl _) _).1 hfront)

theorem Uncut.learned (hd : (decisions.map (·.id)).Nodup)
    (hp : Precise lower decay decisions feedback) (h : Uncut lower decay decisions feedback) :
    Learned lower decay decisions feedback where
  promoted := promoted_iff.2 h.1
  persisted c hc hcleared := List.mem_map_of_mem (promoted_iff.2 h.1 c hc hcleared)
  unordered _ _ hdec hfeed _ := (h.2.mem_cut_perm (scoredSegments_perm hd hp hdec hfeed)).symm

/-- What is learned keeps every cleared segment and ignores the order of the rows only where
nothing that matters is cut, and there it does within the precision of the sums. -/
theorem learned_iff (hd : (decisions.map (·.id)).Nodup) :
    (Learned lower decay decisions feedback → Uncut lower decay decisions feedback) ∧
      (Precise lower decay decisions feedback →
        (Learned lower decay decisions feedback ↔ Uncut lower decay decisions feedback)) :=
  ⟨fun h => h.uncut hd, fun hp => ⟨fun h => h.uncut hd, fun h => h.learned hd hp⟩⟩

end Sweep

/-! ## Eleven routes -/

def letters (n : ℕ) : String := String.ofList [Char.ofNat (97 + n / 8), Char.ofNat (97 + n % 8)]

def saving (route n : ℕ) : DecisionRow where
  id := letters n
  optimizationApplied := true
  lever := some "token_trim"
  cacheStatus := some "miss"
  decisionType := some "trim"
  routeKey := some (letters route)
  feature := none
  workflow := none
  requestType := none
  taskType := some "classification"
  riskLevel := some "low"
  providerRequested := some "openai"
  modelRequested := some "gpt-4o"
  providerChosen := some "openai"
  modelChosen := some "gpt-4o"
  realizedSavings := some 1
  proof := none
  pricingStatus := some "priced"
  qualityOk := some true
  createdAt := 0

def acceptance (n : ℕ) : FeedbackRow := ⟨some (letters n), some "accepted", none⟩

def savings (routes : ℕ) : List DecisionRow :=
  (List.range (5 * routes)).map fun n => saving (n % routes) n

def acceptances (routes : ℕ) : List FeedbackRow := (List.range (5 * routes)).map acceptance

/-- Evidence that is not a day old. -/
def fresh : Decay := ⟨some 0, some 14, fun _ _ => 1⟩

/-- Of eleven cleared routes one is dropped. -/
theorem eleventh_dropped : ((savings 11).map (·.id)).Nodup ∧
    (∃ c ∈ scoredSegments id fresh (savings 11) (acceptances 11), cleared c ∧
      c ∉ scoreProjectLearningCandidates id fresh (savings 11) (acceptances 11)) ∧
    ¬ Learned id fresh (savings 11) (acceptances 11) := by
  have hcount : ¬ (scoredSegments id fresh (savings 11) (acceptances 11)).countP (cleared ·) ≤
      defaultLimit := by
    decide +kernel
  rw [← promoted_iff] at hcount
  exact ⟨by decide +kernel, by simpa using hcount, fun h => hcount h.promoted⟩

def route : SegmentKey :=
  ⟨"aa", "classification", "low", "openai", "gpt-4o", "openai", "gpt-4o", "token_trim"⟩

theorem fits_ones {xs : List ℚ} (n : ℕ) (hn : n < 10 ^ 28) (hx : xs = List.replicate n 1) :
    Fits xs := by
  subst hx
  refine ⟨0, fun x hx => ⟨1, by simp [List.eq_of_mem_replicate hx]⟩, ?_⟩
  have hcast : (n : ℚ) < 10 ^ 28 := by exact_mod_cast hn
  simpa [Python.Precision.prec] using hcast

theorem scoredKey_savings : ∀ row ∈ savings 1, scoredKey id row = some route := by
  decide +kernel

theorem precise_savings : Precise id fresh (savings 1) (acceptances 1) := by
  intro key
  by_cases hk : key = route
  · subst hk
    constructor
    · exact fits_ones 5 (by norm_num) (by decide +kernel)
    · exact fits_ones 5 (by norm_num) (by decide +kernel)
    · exact fits_ones 5 (by norm_num) (by decide +kernel)
    · exact fits_ones 5 (by norm_num) (by decide +kernel)
  · have hrows : segmentDecisions id (savings 1) key = [] := by
      refine List.filter_eq_nil_iff.2 fun row hrow => ?_
      simpa [scoredKey_savings row hrow] using Ne.symm hk
    have hfeed : segmentFeedback id fresh (savings 1) (acceptances 1) key = [] := by
      rw [segmentFeedback, own, List.filter_eq_nil_iff.2, List.filterMap_nil]
      intro row _ hlinked
      obtain ⟨d, hd, hkey⟩ := exists_of_linkedKey (by simpa using hlinked)
      rw [scoredKey_savings d hd] at hkey
      exact hk (Option.some.inj hkey).symm
    have hnone : Fits [] := fits_ones 0 (by norm_num) rfl
    rw [hrows, hfeed]
    exact ⟨hnone, hnone, hnone, hnone⟩

/-- A single cleared route is learned. -/
theorem savings_learned : Learned id fresh (savings 1) (acceptances 1) ∧
    ∃ c ∈ scoreProjectLearningCandidates id fresh (savings 1) (acceptances 1), cleared c := by
  refine ⟨((learned_iff (by decide +kernel)).2 precise_savings).2 ⟨by decide +kernel, ?_⟩, ?_⟩
  · intro c hc _
    exact List.countP_le_length.trans (by decide +kernel)
  · decide +kernel

end Varsten.Engine.Learning
