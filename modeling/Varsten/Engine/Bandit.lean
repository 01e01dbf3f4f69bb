import Varsten.Machine.Table

/-!
# The bandit among cleared candidates

The draws of a request are a parameter: of the Beta distribution for each candidate, of the
exploration budget, and of the choice among candidates to explore. Arithmetic is exact.
-/

namespace Varsten.Engine.Bandit

inductive Mode where
  | off
  | shadow
  | active
deriving DecidableEq

/-- A row of the persisted outcome priors. -/
structure EngineOutcomePrior where
  modelChosen : Option String
  providerChosen : Option String
  sampleCount : ℕ
  qualityPassRate : Option ℚ
  averageGrossSavings : Option ℚ
  measuredSavingsCount : ℕ

structure CandidateStats where
  model : String
  provider : String
  sampleCount : ℕ
  qualityPassRate : Option ℚ
  averageSavings : Option ℚ

inductive Reason where
  | exploit
  | explore
  | fallbackPrimary
deriving DecidableEq

structure BanditChoice where
  model : String
  provider : String
  reason : Reason
  sampledQuality : Option ℚ

def qualityFloor : ℚ := 95 / 100
def explorationBudget : ℚ := 2 / 100
def minSamples : ℕ := 25

structure Draws where
  beta : ℕ → ℚ
  beta_nonneg : ∀ i, 0 ≤ beta i
  beta_le : ∀ i, beta i ≤ 1
  random : ℚ
  random_nonneg : 0 ≤ random
  random_lt : random < 1
  choice : ℕ

/-! ## The evidence -/

def EngineOutcomePrior.key (row : EngineOutcomePrior) : Option (String × String) :=
  (row.modelChosen.filter fun m => m ≠ "" ∧ m ≠ "unknown").map fun model =>
    (model, (row.providerChosen.filter (· ≠ "")).getD "openai")

def weighted (xs : List (Option ℚ × ℕ)) : Option ℚ :=
  let measured := xs.filter fun x => x.1.isSome ∧ 0 < x.2
  let weight := (measured.map (·.2)).sum
  if weight = 0 then none
  else some ((measured.map fun x => x.1.getD 0 * (x.2 : ℚ)).sum / weight)

def mergedStats (rows : List EngineOutcomePrior) (key : String × String) : CandidateStats :=
  let own := rows.filter (·.key = some key)
  { model := key.1
    provider := key.2
    sampleCount := (own.map (·.sampleCount)).sum
    qualityPassRate := weighted (own.map fun row => (row.qualityPassRate, row.sampleCount))
    averageSavings :=
      weighted (own.map fun row => (row.averageGrossSavings, row.measuredSavingsCount)) }

def mergedKeys (rows : List EngineOutcomePrior) : List (String × String) :=
  ((rows.filterMap (·.key)).reverse.dedup).reverse

def mergeCandidateRows (rows : List EngineOutcomePrior) : List CandidateStats :=
  (mergedKeys rows).map (mergedStats rows)

/-! ## The selection -/

/-- A candidate judged by a draw: it has enough samples and a measured quality. -/
def CandidateStats.judged (c : CandidateStats) : Bool :=
  c.qualityPassRate.isSome && minSamples ≤ c.sampleCount

def qualityDraw (d : Draws) (x : CandidateStats × ℕ) : ℚ := if x.1.judged then d.beta x.2 else 1

def cleared (d : Draws) (cs : List CandidateStats) : List (CandidateStats × ℕ) :=
  cs.zipIdx.filter fun x => qualityFloor ≤ qualityDraw d x

def unproven (x : CandidateStats × ℕ) : Bool := x.1.sampleCount < minSamples

def proven (x : CandidateStats × ℕ) : Bool :=
  minSamples ≤ x.1.sampleCount && x.1.averageSavings.isSome

def savings (x : CandidateStats × ℕ) : ℚ := x.1.averageSavings.getD 0

def choose (d : Draws) (reason : Reason) (x : CandidateStats × ℕ) : BanditChoice :=
  ⟨x.1.model, x.1.provider, reason, some (qualityDraw d x)⟩

def selectCandidate (d : Draws) (primary : String × String) (cs : List CandidateStats) :
    BanditChoice :=
  let young := (cleared d cs).filter unproven
  match young[d.choice % young.length]? with
  | some x =>
    if d.random < explorationBudget then choose d .explore x
    else (((cleared d cs).filter proven).argmax savings).elim
      ⟨primary.1, primary.2, .fallbackPrimary, none⟩ (choose d .exploit)
  | none => (((cleared d cs).filter proven).argmax savings).elim
      ⟨primary.1, primary.2, .fallbackPrimary, none⟩ (choose d .exploit)

/-- An entry of `params.bandit_candidates` with a model. -/
structure Entry where
  model : String
  provider : Option String

def Entry.pair (primaryProvider : String) (e : Entry) : String × String :=
  (e.model, (e.provider.filter (· ≠ "")).getD primaryProvider)

def permitted (primary : String × String) (entries : List Entry) : List (String × String) :=
  primary :: entries.map (Entry.pair primary.2)

def candidateFor (stats : List CandidateStats) (pair : String × String) : CandidateStats :=
  ((stats.filter (·.model = pair.1)).getLast?).getD ⟨pair.1, pair.2, 0, none, none⟩

def allowed (rows : List EngineOutcomePrior) (primary : String × String) (entries : List Entry) :
    List CandidateStats :=
  (permitted primary entries).map (candidateFor (mergeCandidateRows rows))

/-- `_maybe_bandit_select`: the pair to route to, and the choice of the sampler for the trace. -/
def maybeBanditSelect (mode : Mode) (rows : List EngineOutcomePrior) (primary : String × String)
    (entries : List Entry) (d : Draws) : (String × String) × Option BanditChoice :=
  if mode = .off ∨ entries = [] then (primary, none)
  else
    let choice := selectCandidate d primary (allowed rows primary entries)
    if mode = .active then ((choice.model, choice.provider), some choice)
    else (primary, some choice)

/-! ## What a choice is made of -/

variable {d : Draws} {primary : String × String} {cs : List CandidateStats}

/-- The choices of the sampler: an under-sampled cleared candidate, the proven cleared one with the
highest savings, or the primary. -/
theorem selectCandidate_cases (d : Draws) (primary : String × String) (cs : List CandidateStats) :
    (∃ x ∈ (cleared d cs).filter unproven, selectCandidate d primary cs = choose d .explore x) ∨
      (∃ x, ((cleared d cs).filter proven).argmax savings = some x ∧
        selectCandidate d primary cs = choose d .exploit x) ∨
      selectCandidate d primary cs = ⟨primary.1, primary.2, .fallbackPrimary, none⟩ := by
  have hexploit : ∀ c, c = (((cleared d cs).filter proven).argmax savings).elim
      ⟨primary.1, primary.2, .fallbackPrimary, none⟩ (choose d .exploit) →
        (∃ x, ((cleared d cs).filter proven).argmax savings = some x ∧ c = choose d .exploit x) ∨
          c = ⟨primary.1, primary.2, .fallbackPrimary, none⟩ := by
    intro c hc
    cases hbest : ((cleared d cs).filter proven).argmax savings with
    | none => exact .inr (by rw [hc, hbest, Option.elim_none])
    | some x => exact .inl ⟨x, rfl, by rw [hc, hbest, Option.elim_some]⟩
  unfold selectCandidate
  dsimp only
  split
  · next x hx =>
    split_ifs
    · exact .inl ⟨x, List.mem_of_getElem? hx, rfl⟩
    · exact .inr (hexploit _ rfl)
  · exact .inr (hexploit _ rfl)

theorem mem_cleared {x : CandidateStats × ℕ} :
    x ∈ cleared d cs ↔ x ∈ cs.zipIdx ∧ (x.1.judged = true → qualityFloor ≤ d.beta x.2) := by
  rw [cleared, List.mem_filter, decide_eq_true_eq, qualityDraw]
  refine and_congr_right fun _ => ?_
  split_ifs with hj
  · simp [hj]
  · simp only [hj, Bool.false_eq_true, false_implies, iff_true]
    norm_num [qualityFloor]

theorem not_judged_of_unproven {x : CandidateStats × ℕ} (h : unproven x = true) :
    x.1.judged = false := by
  have hlt : x.1.sampleCount < minSamples := of_decide_eq_true h
  simp [CandidateStats.judged, Nat.not_le.2 hlt]

/-! ## What can be chosen -/

/-- The proven candidates that are cleared when of the judged ones that of place `i` alone is. -/
def contest (cs : List CandidateStats) (i : ℕ) : List (CandidateStats × ℕ) :=
  cs.zipIdx.filter fun x => proven x && (!x.1.judged || x.2 = i)

/-- No draws lead out of the permitted pairs: every under-sampled candidate is of a permitted pair,
and the best of every candidate with those that no draw excludes is. -/
structure Confined (pairs : List (String × String)) (cs : List CandidateStats) : Prop where
  young : ∀ c ∈ cs, c.sampleCount < minSamples → (c.model, c.provider) ∈ pairs
  best : ∀ i x, (contest cs i).argmax savings = some x → (x.1.model, x.1.provider) ∈ pairs

def onlyClears (i : ℕ) (random : ℚ) (h0 : 0 ≤ random) (h1 : random < 1) (choice : ℕ) : Draws where
  beta := fun j => if j = i then 1 else 0
  beta_nonneg := fun j => by split_ifs <;> norm_num
  beta_le := fun j => by split_ifs <;> norm_num
  random := random
  random_nonneg := h0
  random_lt := h1
  choice := choice

theorem cleared_onlyClears {i choice : ℕ} {u : ℚ} {h0 : 0 ≤ u} {h1 : u < 1} :
    (cleared (onlyClears i u h0 h1 choice) cs).filter proven = contest cs i := by
  rw [cleared, contest, List.filter_filter]
  refine List.filter_congr fun x _ => ?_
  cases hj : x.1.judged <;> by_cases hi : x.2 = i <;>
    simp [qualityDraw, hj, hi, onlyClears] <;> norm_num [qualityFloor]

theorem mem_of_zipIdx {x : CandidateStats × ℕ} (h : x ∈ cs.zipIdx) : x.1 ∈ cs :=
  List.mem_of_getElem? (List.mem_zipIdx_iff_getElem?.1 h)

theorem zipIdx_eq {x y : CandidateStats × ℕ} (hx : x ∈ cs.zipIdx) (hy : y ∈ cs.zipIdx)
    (h : x.2 = y.2) : x = y := by
  have hx' := List.mem_zipIdx_iff_getElem?.1 hx
  rw [h, List.mem_zipIdx_iff_getElem?.1 hy] at hx'
  exact Prod.ext (Option.some.inj hx').symm h

theorem selectCandidate_young {x : CandidateStats × ℕ} {n : ℕ} (hr : d.random < explorationBudget)
    (hx : ((cleared d cs).filter unproven)[n]? = some x) (hn : d.choice = n) :
    selectCandidate d primary cs = choose d .explore x := by
  have hlt : n < ((cleared d cs).filter unproven).length := (List.getElem?_eq_some_iff.1 hx).1
  unfold selectCandidate
  dsimp only
  rw [hn, Nat.mod_eq_of_lt hlt, hx]
  exact if_pos hr

theorem selectCandidate_best {x : CandidateStats × ℕ} (hr : explorationBudget ≤ d.random)
    (hx : ((cleared d cs).filter proven).argmax savings = some x) :
    selectCandidate d primary cs = choose d .exploit x := by
  unfold selectCandidate
  dsimp only
  rw [hx]
  split
  · exact if_neg (not_lt.2 hr)
  · rfl

theorem contest_of_best {x : CandidateStats × ℕ}
    (hx : ((cleared d cs).filter proven).argmax savings = some x) :
    (contest cs x.2).argmax savings = some x := by
  have hmem : x ∈ cleared d cs := (List.mem_filter.1 (List.argmax_mem hx)).1
  have hcontest : contest cs x.2 =
      ((cleared d cs).filter proven).filter fun y => !y.1.judged || y.2 = x.2 := by
    rw [contest, cleared, List.filter_filter, List.filter_filter]
    refine List.filter_congr fun y hy => ?_
    have hclear : (!y.1.judged || decide (y.2 = x.2)) = true →
        decide (qualityFloor ≤ qualityDraw d y) = true := by
      intro h
      rcases Bool.or_eq_true_iff.1 h with hj | hi
      · have hy' : y ∈ cleared d cs :=
          mem_cleared.2 ⟨hy, fun hj' => absurd hj' (by simpa using hj)⟩
        exact (List.mem_filter.1 hy').2
      · have hxz : x ∈ cs.zipIdx := (List.mem_filter.1 hmem).1
        obtain rfl := zipIdx_eq hy hxz (of_decide_eq_true hi)
        exact (List.mem_filter.1 hmem).2
    cases hq : (!y.1.judged || decide (y.2 = x.2)) with
    | false => simp
    | true => simp [hclear hq]
  rw [hcontest]
  exact Machine.Table.argmax_filter hx (by simp)

/-- All draws of a request choose a permitted pair exactly when the candidates are confined. -/
theorem confined_iff {pairs : List (String × String)} (hprimary : primary ∈ pairs) :
    (∀ d, ((selectCandidate d primary cs).model, (selectCandidate d primary cs).provider) ∈ pairs) ↔
      Confined pairs cs := by
  constructor
  · intro h
    refine ⟨fun c hc hlt => ?_, fun i x hx => ?_⟩
    · obtain ⟨i, hi⟩ := List.getElem?_of_mem hc
      have hzip : (c, i) ∈ cs.zipIdx := List.mem_zipIdx_iff_getElem?.2 hi
      have hunproven : unproven (c, i) = true := decide_eq_true hlt
      have hyoung : ∀ n, (c, i) ∈
          (cleared (onlyClears 0 0 le_rfl zero_lt_one n) cs).filter unproven := by
        intro n
        refine List.mem_filter.2 ⟨mem_cleared.2 ⟨hzip, fun hj => ?_⟩, hunproven⟩
        rw [not_judged_of_unproven hunproven] at hj
        exact absurd hj (by simp)
      obtain ⟨n, hn⟩ := List.getElem?_of_mem (hyoung 0)
      have hn' : ((cleared (onlyClears 0 0 le_rfl zero_lt_one n) cs).filter unproven)[n]? =
          some (c, i) := hn
      have hchoice := h (onlyClears 0 0 le_rfl zero_lt_one n)
      rw [selectCandidate_young (by norm_num [onlyClears, explorationBudget]) hn' rfl] at hchoice
      exact hchoice
    · have hchoice := h (onlyClears i (1 / 2) (by norm_num) (by norm_num) 0)
      rw [selectCandidate_best (x := x) (by norm_num [onlyClears, explorationBudget])
        (by rw [cleared_onlyClears, hx])] at hchoice
      exact hchoice
  · intro h d
    rcases selectCandidate_cases d primary cs with ⟨x, hx, he⟩ | ⟨x, hx, he⟩ | he
    · rw [he]
      obtain ⟨hclear, hlt⟩ := List.mem_filter.1 hx
      exact h.young x.1 (mem_of_zipIdx (List.mem_filter.1 hclear).1) (of_decide_eq_true hlt)
    · rw [he]
      exact h.best x.2 x (contest_of_best hx)
    · rw [he]
      exact hprimary

/-! ## The routed pair -/

/-- What is claimed of a selection: it stays in the permitted pairs, with the primary unless the
bandit is active; what it explores is under-sampled, and what it exploits is proven, cleared and of
the highest savings among those. -/
structure Sound (mode : Mode) (rows : List EngineOutcomePrior) (primary : String × String)
    (entries : List Entry) (d : Draws) : Prop where
  within : (maybeBanditSelect mode rows primary entries d).1 ∈ permitted primary entries
  inactive : mode ≠ .active → (maybeBanditSelect mode rows primary entries d).1 = primary
  explore : ∀ c, (maybeBanditSelect mode rows primary entries d).2 = some c →
    c.reason = .explore → ∃ x ∈ cleared d (allowed rows primary entries),
      x.1.sampleCount < minSamples ∧ c.model = x.1.model ∧ c.provider = x.1.provider
  exploit : ∀ c, (maybeBanditSelect mode rows primary entries d).2 = some c →
    c.reason = .exploit → ∃ x ∈ (cleared d (allowed rows primary entries)).filter proven,
      c.model = x.1.model ∧ c.provider = x.1.provider ∧
        ∀ y ∈ (cleared d (allowed rows primary entries)).filter proven, savings y ≤ savings x

variable {mode : Mode} {rows : List EngineOutcomePrior} {entries : List Entry}

theorem choice_of_select {c : BanditChoice}
    (h : (maybeBanditSelect mode rows primary entries d).2 = some c) :
    c = selectCandidate d primary (allowed rows primary entries) := by
  unfold maybeBanditSelect at h
  split_ifs at h
  · exact (Option.some.inj h).symm
  · exact (Option.some.inj h).symm

theorem sound_of_within
    (h : (maybeBanditSelect mode rows primary entries d).1 ∈ permitted primary entries) :
    Sound mode rows primary entries d where
  within := h
  inactive := by
    intro hm
    unfold maybeBanditSelect
    split_ifs <;> rfl
  explore := by
    intro c hc hreason
    rw [choice_of_select hc] at hreason ⊢
    rcases selectCandidate_cases d primary (allowed rows primary entries) with
      ⟨x, hx, he⟩ | ⟨x, -, he⟩ | he
    · obtain ⟨hclear, hlt⟩ := List.mem_filter.1 hx
      rw [he]
      exact ⟨x, hclear, of_decide_eq_true hlt, rfl, rfl⟩
    · rw [he] at hreason
      exact absurd hreason (by simp [choose])
    · rw [he] at hreason
      exact absurd hreason (by simp)
  exploit := by
    intro c hc hreason
    rw [choice_of_select hc] at hreason ⊢
    rcases selectCandidate_cases d primary (allowed rows primary entries) with
      ⟨x, -, he⟩ | ⟨x, hx, he⟩ | he
    · rw [he] at hreason
      exact absurd hreason (by simp [choose])
    · rw [he]
      exact ⟨x, List.argmax_mem hx, rfl, rfl, fun y hy => List.le_of_mem_argmax hy hx⟩
    · rw [he] at hreason
      exact absurd hreason (by simp)

/-- The evidence keeps an active bandit in the cleared pairs. -/
def EvidenceConfined (mode : Mode) (rows : List EngineOutcomePrior) (primary : String × String)
    (entries : List Entry) : Prop :=
  mode = .active → entries ≠ [] →
    Confined (permitted primary entries) (allowed rows primary entries)

/-- All draws of a request are sound exactly when the evidence is confined. -/
theorem bandit_sound_iff (mode : Mode) (rows : List EngineOutcomePrior)
    (primary : String × String) (entries : List Entry) :
    (∀ d, Sound mode rows primary entries d) ↔ EvidenceConfined mode rows primary entries := by
  have hprimary : primary ∈ permitted primary entries := List.mem_cons_self
  constructor
  · intro h hactive hne
    refine (confined_iff hprimary).1 fun d => ?_
    have hwithin := (h d).within
    unfold maybeBanditSelect at hwithin
    rwa [if_neg (by simp [hactive, hne]), if_pos hactive] at hwithin
  · intro h d
    refine sound_of_within ?_
    unfold maybeBanditSelect
    split_ifs with hoff hactive
    · exact hprimary
    · exact (confined_iff hprimary).2 (h hactive fun he => hoff (.inr he)) d
    · exact hprimary

/-! ## Evidence of another provider -/

/-- The evidence of the model `b` is of another provider than the one that was cleared. -/
def otherProvider : List EngineOutcomePrior :=
  [⟨some "b", some "azure", 40, none, some 1, 40⟩]

theorem uncleared_pair_routed :
    ¬ ∀ d, Sound .active otherProvider ("a", "openai") [⟨"b", some "openai"⟩] d := by
  intro h
  have hwithin := (h (onlyClears 0 (1 / 2) (by norm_num) (by norm_num) 0)).within
  exact absurd hwithin (by decide +kernel)

end Varsten.Engine.Bandit
