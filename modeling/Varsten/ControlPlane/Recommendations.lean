import Varsten.ControlPlane.State
import Varsten.Machine.Runs
import Varsten.Machine.UnitOfWork

/-!
# Recommendations

The stored recommendations of a project, and the sessions that write them. A refresh upserts the
seeds that it computes and commits them at once; an endpoint or the engine reads a recommendation
and later commits its status, with the savings that a passing run has measured. Any number of
sessions are open at the same time. The upsert of a generated compression is left out.
-/

namespace Varsten.ControlPlane.Recommendations

open Machine (Table)
open Machine.Runs (steps final)
open Machine.UnitOfWork (Object Carries Faithful Found)
open Python.Utf8 (Text)

inductive Content where
  | title
  | description
  | lever
  | targetType
  | targetKey
  | rationale
  | estimatedMonthlySavingsUsd
  | monthlyRequestVolume
  | qualityDeltaPercent
  | measurementMethod
  | riskLevel
  | confidence
  | relatedProvider
  | relatedModel
  | relatedFeature
  | relatedCustomerId
  | relatedEnvironment
  | details
deriving DecidableEq

inductive Column where
  | type
  | status
  | content (c : Content)
deriving DecidableEq

abbrev Value (α : Type) : Column → Type
  | .type => Text
  | .status => RecommendationStatus
  | .content _ => α

instance {α : Type} [DecidableEq α] : ∀ c, DecidableEq (Value α c)
  | .type => inferInstanceAs (DecidableEq Text)
  | .status => inferInstanceAs (DecidableEq RecommendationStatus)
  | .content _ => inferInstanceAs (DecidableEq α)

abbrev Recommendation (α : Type) := Machine.UnitOfWork.Row Text (Value α)

abbrev Rows (α : Type) := Machine.UnitOfWork.Rows Text (Value α)

abbrev Session (α : Type) := Machine.UnitOfWork.Session Text (Value α)

structure RecommendationSeed (α : Type) where
  dedupeKey : Text
  type : Text
  content : Content → α

section Columns

variable {α : Type}

def columns (type : Text) (status : RecommendationStatus) (content : Content → α) :
    ∀ c, Value α c
  | .type => type
  | .status => status
  | .content c => content c

def typeOf (row : Recommendation α) : Text := row.cells .type

def status (row : Recommendation α) : RecommendationStatus := row.cells .status

def content (row : Recommendation α) : Content → α := fun c => row.cells (.content c)

/-- A new recommendation is open. -/
def RecommendationSeed.row (seed : RecommendationSeed α) : Recommendation α :=
  ⟨seed.dedupeKey, columns seed.type .opened seed.content⟩

/-- `apply_measured_savings`: `measured` are the savings and the method of a run that has measured
some. -/
def applyMeasuredSavings (measured : Option (α × α)) (content : Content → α) : Content → α :=
  match measured with
  | none => content
  | some (savings, method) =>
    Function.update (Function.update content .estimatedMonthlySavingsUsd savings)
      .measurementMethod method

variable [DecidableEq α]

def refreshed (seed : RecommendationSeed α) (o : Object Text (Value α)) : Object Text (Value α) :=
  o.assign (columns (typeOf o.row) (status o.row) seed.content)

def transitioned (next : RecommendationStatus) (measured : Option (α × α))
    (o : Object Text (Value α)) : Object Text (Value α) :=
  o.assign (columns (typeOf o.row) next (applyMeasuredSavings measured (content o.row)))

end Columns

/-! ## Sessions -/

section Actions

variable {α : Type}

inductive Action (α : Type) where
  | load (dedupeKey : Text)
  | upsert (seed : RecommendationSeed α)
  | transition (dedupeKey : Text) (next : RecommendationStatus) (measured : Option (α × α))

variable [DecidableEq α]

def upsert (rows : Rows α) (x : Session α) (seed : RecommendationSeed α) : Session α :=
  match Machine.UnitOfWork.get x rows seed.dedupeKey with
  | some existing =>
    if status existing.row ≠ .opened then x.hold existing
    else x.hold (refreshed seed existing)
  | none => x.add seed.row

/-- The recommendation of `transition_recommendation` has been read before. -/
def transition (x : Session α) (dedupeKey : Text) (next : RecommendationStatus)
    (measured : Option (α × α)) : Session α :=
  match x.held.find dedupeKey with
  | some o => x.hold (transitioned next measured o)
  | none => x

def act (rows : Rows α) (x : Session α) : Action α → Session α
  | .load dedupeKey => ((Machine.UnitOfWork.get x rows dedupeKey).map x.hold).getD x
  | .upsert seed => upsert rows x seed
  | .transition dedupeKey next measured => transition x dedupeKey next measured

inductive Acted (x : Session α) (rows : Rows α) : Action α → Object Text (Value α) → Prop
  | kept {a : Action α} {o : Object Text (Value α)} (h : Found x rows o) : Acted x rows a o
  | refreshed {seed : RecommendationSeed α} {o : Object Text (Value α)} (h : Found x rows o)
      (hkey : o.key = seed.dedupeKey) (hopen : status o.row = .opened) :
      Acted x rows (.upsert seed) (refreshed seed o)
  | transitioned {dedupeKey : Text} {next : RecommendationStatus} {measured : Option (α × α)}
      {o : Object Text (Value α)} (h : Found x rows o) (hkey : o.key = dedupeKey) :
      Acted x rows (.transition dedupeKey next measured) (transitioned next measured o)

variable {rows : Rows α} {x : Session α} {a : Action α} {o : Object Text (Value α)}

theorem acted_of_held (ho : o ∈ (act rows x a).held.rows) : Acted x rows a o := by
  have hold : ∀ {o' : Object Text (Value α)}, Acted x rows a o' →
      o ∈ (x.hold o').held.rows → Acted x rows a o := by
    intro o' hacted hmem
    rcases Machine.UnitOfWork.mem_hold hmem with rfl | hmem
    · exact hacted
    · exact .kept (.inl hmem)
  cases a with
  | load dedupeKey =>
    dsimp only [act] at ho
    cases hget : Machine.UnitOfWork.get x rows dedupeKey with
    | none =>
      rw [hget] at ho
      exact .kept (.inl ho)
    | some existing =>
      rw [hget] at ho
      exact hold (.kept (Machine.UnitOfWork.get_eq_some hget).1) ho
  | upsert seed =>
    dsimp only [act, upsert] at ho
    cases hget : Machine.UnitOfWork.get x rows seed.dedupeKey with
    | none =>
      rw [hget] at ho
      exact .kept (.inl ho)
    | some existing =>
      obtain ⟨hfound, hkey⟩ := Machine.UnitOfWork.get_eq_some hget
      rw [hget] at ho
      dsimp only at ho
      split_ifs at ho with hopen
      · exact hold (.kept hfound) ho
      · exact hold (.refreshed hfound hkey (not_not.1 hopen)) ho
  | transition dedupeKey next measured =>
    dsimp only [act, transition] at ho
    cases hfind : x.held.find dedupeKey with
    | none =>
      rw [hfind] at ho
      exact .kept (.inl ho)
    | some existing =>
      obtain ⟨hmem, hkey⟩ := Table.find_eq_some.1 hfind
      rw [hfind] at ho
      exact hold (.transitioned (.inl hmem) hkey) ho

theorem added_of_act {row : Recommendation α} (h : row ∈ (act rows x a).added) :
    row ∈ x.added ∨ ∃ seed, a = .upsert seed ∧ row = seed.row := by
  cases a with
  | load dedupeKey =>
    dsimp only [act] at h
    cases hget : Machine.UnitOfWork.get x rows dedupeKey with
    | none => exact .inl (by rwa [hget] at h)
    | some existing => exact .inl (by rwa [hget] at h)
  | upsert seed =>
    dsimp only [act, upsert] at h
    cases hget : Machine.UnitOfWork.get x rows seed.dedupeKey with
    | none =>
      rw [hget] at h
      rcases List.mem_append.1 h with h | h
      · exact .inl h
      · exact .inr ⟨seed, rfl, List.mem_singleton.1 h⟩
    | some existing =>
      rw [hget] at h
      dsimp only at h
      split_ifs at h <;> exact .inl h
  | transition dedupeKey next measured =>
    dsimp only [act, transition] at h
    cases hfind : x.held.find dedupeKey with
    | none => exact .inl (by rwa [hfind] at h)
    | some existing => exact .inl (by rwa [hfind] at h)

end Actions

/-! ## Steps -/

/-- The session of a refresh has the time it started. -/
structure Work (α : Type) where
  startedAt : Option ℚ
  session : Session α

structure State (α : Type) where
  now : ℚ
  rows : Rows α
  refreshedAt : Option ℚ
  works : ℕ → Option (Work α)

inductive Input (α : Type) where
  | tick (d : ℚ)
  | ensureFresh (w : ℕ)
  | openSession (w : ℕ)
  | act (w : ℕ) (a : Action α)
  | commit (w : ℕ)
  | rollback (w : ℕ)

section Steps

variable {α : Type}

def State.initial : State α := ⟨0, Table.empty, none, fun _ => none⟩

def State.setWork (s : State α) (w : ℕ) (x : Option (Work α)) : State α :=
  { s with works := Function.update s.works w x }

/-- `ensure_recommendations_fresh` then serves what is stored. -/
def isFresh (maxAge : ℚ) (s : State α) : Bool :=
  s.refreshedAt.any fun last => s.now - last < maxAge

def openWork (s : State α) (w : ℕ) (startedAt : Option ℚ) : State α :=
  if (s.works w).isSome then s else s.setWork w (some ⟨startedAt, .empty⟩)

def commitWork (s : State α) (w : ℕ) (x : Work α) : State α :=
  match Machine.UnitOfWork.commit s.rows x.session with
  | some rows => { s with rows, refreshedAt := x.startedAt.or s.refreshedAt }.setWork w none
  | none => s.setWork w none

def step [DecidableEq α] (maxAge : ℚ) (s : State α) : Input α → State α
  | .tick d => { s with now := s.now + max d 0 }
  | .ensureFresh w => if isFresh maxAge s then s else openWork s w (some s.now)
  | .openSession w => openWork s w none
  | .act w a => ((s.works w).map fun x =>
      s.setWork w (some { x with session := act s.rows x.session a })).getD s
  | .commit w => ((s.works w).map (commitWork s w)).getD s
  | .rollback w => s.setWork w none

end Steps

/-! ## What a step does -/

section Effects

variable {α : Type} {s : State α}

theorem setWork_some {w w' : ℕ} {x : Option (Work α)} {y : Work α}
    (h : (s.setWork w x).works w' = some y) :
    (w' = w ∧ x = some y) ∨ (w' ≠ w ∧ s.works w' = some y) := by
  unfold State.setWork at h
  by_cases hw : w' = w
  · subst hw
    exact .inl ⟨rfl, by simpa using h⟩
  · exact .inr ⟨hw, by simpa [Function.update_of_ne hw] using h⟩

theorem ended_some {w w' : ℕ} {y : Work α} (h : (s.setWork w none).works w' = some y) :
    w' ≠ w ∧ s.works w' = some y := by
  rcases setWork_some h with ⟨-, hnone⟩ | hsame
  · cases hnone
  · exact hsame

variable [DecidableEq α]

/-- What a step does to the rows and to the sessions. -/
inductive Effect (maxAge : ℚ) (s : State α) : Input α → State α → Prop
  | quiet {a : Input α} {s' : State α} (hnow : s.now ≤ s'.now) (hrows : s'.rows = s.rows)
      (hrefreshed : s'.refreshedAt = s.refreshedAt)
      (hworks : ∀ w x, s'.works w = some x → s.works w = some x) : Effect maxAge s a s'
  | refreshing {w : ℕ} (hfree : s.works w = none) (hstale : isFresh maxAge s = false) :
      Effect maxAge s (.ensureFresh w) (s.setWork w (some ⟨some s.now, .empty⟩))
  | opened {w : ℕ} (hfree : s.works w = none) :
      Effect maxAge s (.openSession w) (s.setWork w (some ⟨none, .empty⟩))
  | acted {w : ℕ} {a : Action α} {x : Work α} (hx : s.works w = some x) :
      Effect maxAge s (.act w a)
        (s.setWork w (some { x with session := act s.rows x.session a }))
  | committed {w : ℕ} {x : Work α} {s' : State α} (hx : s.works w = some x)
      (hnow : s'.now = s.now)
      (hrows : Machine.UnitOfWork.commit s.rows x.session = some s'.rows)
      (hrefreshed : s'.refreshedAt = x.startedAt.or s.refreshedAt)
      (hworks : ∀ w' y, s'.works w' = some y → w' ≠ w ∧ s.works w' = some y) :
      Effect maxAge s (.commit w) s'

theorem effect (maxAge : ℚ) (s : State α) (a : Input α) :
    Effect maxAge s a (step maxAge s a) := by
  have hsame : ∀ {a : Input α}, Effect maxAge s a s := .quiet le_rfl rfl rfl fun _ _ h => h
  cases a with
  | tick d => exact .quiet (le_add_of_nonneg_right (le_max_right d 0)) rfl rfl fun _ _ h => h
  | ensureFresh w =>
    simp only [step, openWork]
    split_ifs with hfresh hopen
    · exact hsame
    · exact hsame
    · exact .refreshing (Option.not_isSome_iff_eq_none.1 hopen) (Bool.eq_false_iff.2 hfresh)
  | openSession w =>
    simp only [step, openWork]
    split_ifs with hopen
    · exact hsame
    · exact .opened (Option.not_isSome_iff_eq_none.1 hopen)
  | act w a =>
    simp only [step]
    cases hx : s.works w with
    | none => exact hsame
    | some x => exact .acted hx
  | commit w =>
    simp only [step]
    cases hx : s.works w with
    | none => exact hsame
    | some x =>
      simp only [Option.map_some, Option.getD_some, commitWork]
      cases hrows : Machine.UnitOfWork.commit s.rows x.session with
      | none => exact .quiet le_rfl rfl rfl fun _ _ h => (ended_some h).2
      | some rows => exact .committed hx rfl hrows rfl fun _ _ h => ended_some h
  | rollback w => exact .quiet le_rfl rfl rfl fun _ _ h => (ended_some h).2

end Effects

/-! ## Where a column comes from -/

section Sources

variable {α : Type} {past : List (State α × Input α)} {s s' : State α} {a : Input α}

/-- A transition writes the status, and where it applies what a run has measured, the savings and
the method. -/
inductive Decides (next : RecommendationStatus) (measured : Option (α × α)) :
    ∀ c, Value α c → Prop
  | status : Decides next measured .status next
  | savings {savings method : α} (h : measured = some (savings, method)) :
      Decides next measured (.content .estimatedMonthlySavingsUsd) savings
  | method {savings method : α} (h : measured = some (savings, method)) :
      Decides next measured (.content .measurementMethod) method

/-- The column of a key is what a refresh has computed for it, or what a transition of it writes. -/
def Sourced (past : List (State α × Input α)) (k : Text) (c : Column) (v : Value α c) : Prop :=
  ∃ q ∈ past,
    (∃ w seed, q.2 = .act w (.upsert seed) ∧ seed.dedupeKey = k ∧ seed.row.cells c = v) ∨
    ∃ w next measured, q.2 = .act w (.transition k next measured) ∧ Decides next measured c v

theorem Sourced.later {k : Text} {c : Column} {v : Value α c} (h : Sourced past k c v)
    (q : State α × Input α) : Sourced (past ++ [q]) k c v := by
  obtain ⟨q', hq', h⟩ := h
  exact ⟨q', List.mem_append_left _ hq', h⟩

theorem decides_measured (next : RecommendationStatus) (measured : Option (α × α))
    (content : Content → α) (c : Content) :
    applyMeasuredSavings measured content c = content c ∨
      Decides next measured (.content c) (applyMeasuredSavings measured content c) := by
  rcases measured with _ | ⟨savings, method⟩
  · exact .inl rfl
  · dsimp only [applyMeasuredSavings]
    rw [Function.update_apply, Function.update_apply]
    split_ifs with hmethod hsavings
    · subst hmethod
      exact .inr (.method rfl)
    · subst hsavings
      exact .inr (.savings rfl)
    · exact .inl rfl

structure Known (past : List (State α × Input α)) (s : State α) : Prop where
  rows : ∀ row ∈ s.rows.rows, Carries (Sourced past) row
  works : ∀ w x, s.works w = some x → x.session.Carries (Sourced past)

theorem Known.later (h : Known past s) (q : State α × Input α) : Known (past ++ [q]) s where
  rows row hrow c := (h.rows row hrow c).later q
  works w x hx := ⟨fun o ho c => ((h.works w x hx).1 o ho c).later q,
    fun row hrow c => ((h.works w x hx).2 row hrow c).later q⟩

theorem known_initial : Known ([] : List (State α × Input α)) .initial :=
  ⟨fun _ hrow => absurd hrow List.not_mem_nil, fun _ _ hx => by cases hx⟩

variable [DecidableEq α] {w : ℕ}

theorem sourced_refreshed {seed : RecommendationSeed α} {o : Object Text (Value α)}
    (h : Carries (Sourced past) o.row) (hkey : o.key = seed.dedupeKey) :
    Carries (Sourced (past ++ [(s, .act w (.upsert seed))])) (refreshed seed o).row := by
  intro c
  cases c with
  | type => exact (h .type).later _
  | status => exact (h .status).later _
  | content c => exact ⟨_, List.mem_append_right _ (List.mem_singleton_self _),
      .inl ⟨w, seed, rfl, hkey.symm, rfl⟩⟩

theorem sourced_transitioned {k : Text} {next : RecommendationStatus} {measured : Option (α × α)}
    {o : Object Text (Value α)} (h : Carries (Sourced past) o.row) (hkey : o.key = k) :
    Carries (Sourced (past ++ [(s, .act w (.transition k next measured))]))
      (transitioned next measured o).row := by
  have hnow : ∀ {c : Column} {v : Value α c}, Decides next measured c v →
      Sourced (past ++ [(s, .act w (.transition k next measured))]) o.key c v :=
    fun hdecides => ⟨_, List.mem_append_right _ (List.mem_singleton_self _),
      .inr ⟨w, next, measured, by rw [hkey], hdecides⟩⟩
  intro c
  cases c with
  | type => exact (h .type).later _
  | status => exact hnow .status
  | content c =>
    rcases decides_measured next measured (content o.row) c with hsame | hdecides
    · exact (congrArg (Sourced _ _ (.content c)) hsame).mpr ((h (.content c)).later _)
    · exact hnow hdecides

theorem Known.act {x : Work α} {a : Action α} (h : Known past s) (hx : s.works w = some x) :
    (Recommendations.act s.rows x.session a).Carries (Sourced (past ++ [(s, .act w a)])) := by
  have hfound : ∀ {o : Object Text (Value α)}, Found x.session s.rows o →
      Carries (Sourced past) o.row := fun hfound => hfound.carries (h.works w x hx) h.rows
  refine ⟨fun o ho => ?_, fun row hrow => ?_⟩
  · cases acted_of_held ho with
    | kept hkept => exact fun c => (hfound hkept c).later _
    | refreshed hold hkey hopen => exact sourced_refreshed (hfound hold) hkey
    | transitioned hold hkey => exact sourced_transitioned (hfound hold) hkey
  · rcases added_of_act hrow with hold | ⟨seed, rfl, rfl⟩
    · exact fun c => ((h.works w x hx).2 row hold c).later _
    · exact fun c => ⟨_, List.mem_append_right _ (List.mem_singleton_self _),
        .inl ⟨w, seed, rfl, rfl, rfl⟩⟩

theorem Known.step {maxAge : ℚ} (h : Known past s) (heffect : Effect maxAge s a s') :
    Known (past ++ [(s, a)]) s' := by
  have hlater := h.later (s, a)
  have hempty : (Machine.UnitOfWork.Session.empty : Session α).Carries
      (Sourced (past ++ [(s, a)])) :=
    ⟨fun _ ho => absurd ho List.not_mem_nil, fun _ hrow => absurd hrow List.not_mem_nil⟩
  cases heffect with
  | quiet hnow hrows hrefreshed hworks =>
    exact ⟨hrows ▸ hlater.rows, fun w x hx => hlater.works w x (hworks w x hx)⟩
  | refreshing hfree hstale =>
    refine ⟨hlater.rows, fun w x hx => ?_⟩
    rcases setWork_some hx with ⟨-, hnew⟩ | ⟨-, hold⟩
    · exact Option.some.inj hnew ▸ hempty
    · exact hlater.works w x hold
  | opened hfree =>
    refine ⟨hlater.rows, fun w x hx => ?_⟩
    rcases setWork_some hx with ⟨-, hnew⟩ | ⟨-, hold⟩
    · exact Option.some.inj hnew ▸ hempty
    · exact hlater.works w x hold
  | acted hx =>
    refine ⟨hlater.rows, fun w' y hy => ?_⟩
    rcases setWork_some hy with ⟨-, hnew⟩ | ⟨-, hold⟩
    · exact Option.some.inj hnew ▸ h.act hx
    · exact hlater.works w' y hold
  | committed hx hnow hrows hrefreshed hworks =>
    exact ⟨Machine.UnitOfWork.carries_commit hlater.rows (hlater.works _ _ hx) hrows,
      fun w y hy => hlater.works w y (hworks w y hy).2⟩

/-- However the sessions interleave, every column of a stored recommendation is what a refresh has
computed for its key, or what a transition of it has written. -/
theorem column_sourced (maxAge : ℚ) (as : List (Input α)) {row : Recommendation α}
    (hrow : row ∈ (final (step maxAge) .initial as).rows.rows) (c : Column) :
    Sourced (steps (step maxAge) .initial as) row.key c (row.cells c) := by
  have hstep : ∀ past (s : State α) a, True → Known past s →
      Known (past ++ [(s, a)]) (step maxAge s a) := fun _ s a _ h => h.step (effect maxAge s a)
  have hrun : Known (steps (step maxAge) .initial as) (final (step maxAge) .initial as) :=
    Machine.Runs.history hstep known_initial fun _ _ => trivial
  exact hrun.rows row hrow c

def exampleSeed (savings : ℕ) : RecommendationSeed ℕ where
  dedupeKey := []
  type := []
  content c := if c = .estimatedMonthlySavingsUsd then savings else 1

/-- A refresh that computes other savings while a session applies the recommendation. -/
def refreshedWhileApplied : List (Input ℕ) :=
  [.ensureFresh 0, .act 0 (.upsert (exampleSeed 5)), .commit 0, .openSession 1, .act 1 (.load []),
    .tick 61, .ensureFresh 0, .act 0 (.upsert (exampleSeed 6)),
    .act 1 (.transition [] .applied (some (7, 9))), .commit 0, .commit 1]

theorem seed_sourced : ∃ row ∈ (final (step 60) .initial refreshedWhileApplied).rows.rows,
    row.cells .status = .applied ∧ row.cells (.content .estimatedMonthlySavingsUsd) = 7 ∧
      ∀ c, Sourced (steps (step 60) .initial refreshedWhileApplied) row.key c (row.cells c) := by
  have hlength : (final (step 60) .initial refreshedWhileApplied).rows.rows.length = 1 := by
    decide +kernel
  obtain ⟨row, hrow⟩ := List.length_eq_one_iff.1 hlength
  have hmem : row ∈ (final (step 60) .initial refreshedWhileApplied).rows.rows :=
    hrow ▸ List.mem_singleton_self row
  have hcells : (final (step 60) .initial refreshedWhileApplied).rows.rows.map (fun row =>
      ((row.cells .status : RecommendationStatus),
        (row.cells (.content .estimatedMonthlySavingsUsd) : ℕ))) = [(.applied, 7)] := by
    decide +kernel
  rw [hrow] at hcells
  obtain ⟨hstatus, hsavings⟩ := Prod.mk.inj (List.singleton_inj.1 hcells)
  exact ⟨row, hmem, hstatus, hsavings, column_sourced 60 _ hmem⟩

end Sources

/-! ## Decided recommendations -/

section Decided

variable {α : Type} {s s' : State α} {a : Input α} {row : Recommendation α}

/-- Every session that has read the row has read it decided, and has not changed it. -/
def Settled (x : Session α) (k : Text) : Prop :=
  ∀ o ∈ x.held.rows, o.key = k → status o.row ≠ .opened ∧ ∀ c, o.changed c = false

def decides (k : Text) : Input α → Prop
  | .act _ (.transition dedupeKey _ _) => dedupeKey = k
  | _ => False

structure Kept (row : Recommendation α) (s : State α) : Prop where
  stored : row ∈ s.rows.rows
  settled : ∀ w x, s.works w = some x → Settled x.session row.key

variable [DecidableEq α]

theorem Kept.act {w : ℕ} {x : Work α} {a : Action α} (h : Kept row s) (hx : s.works w = some x)
    (hstatus : status row ≠ .opened) (ha : ¬decides row.key (.act w a)) :
    Settled (Recommendations.act s.rows x.session a) row.key := by
  have hfound : ∀ {o : Object Text (Value α)}, Found x.session s.rows o → o.key = row.key →
      status o.row ≠ .opened ∧ ∀ c, o.changed c = false := by
    rintro o (hheld | ⟨row', hrow', rfl⟩) hkey
    · exact h.settled w x hx o hheld hkey
    · obtain rfl := Table.eq_of_key_eq hrow' h.stored hkey
      exact ⟨hstatus, fun _ => rfl⟩
  intro o ho hkey
  cases acted_of_held ho with
  | kept hkept => exact hfound hkept hkey
  | refreshed hold hseed hopen => exact absurd hopen (hfound hold hkey).1
  | transitioned hold hdecided => exact absurd (hdecided.symm.trans hkey) ha

theorem Kept.step {maxAge : ℚ} (h : Kept row s) (hstatus : status row ≠ .opened)
    (ha : ¬decides row.key a) (heffect : Effect maxAge s a s') : Kept row s' := by
  have hempty : Settled (Machine.UnitOfWork.Session.empty : Session α) row.key :=
    fun _ ho => absurd ho List.not_mem_nil
  cases heffect with
  | quiet hnow hrows hrefreshed hworks =>
    exact ⟨hrows ▸ h.stored, fun w x hx => h.settled w x (hworks w x hx)⟩
  | refreshing hfree hstale =>
    refine ⟨h.stored, fun w x hx => ?_⟩
    rcases setWork_some hx with ⟨-, hnew⟩ | ⟨-, hold⟩
    · exact Option.some.inj hnew ▸ hempty
    · exact h.settled w x hold
  | opened hfree =>
    refine ⟨h.stored, fun w x hx => ?_⟩
    rcases setWork_some hx with ⟨-, hnew⟩ | ⟨-, hold⟩
    · exact Option.some.inj hnew ▸ hempty
    · exact h.settled w x hold
  | acted hx =>
    refine ⟨h.stored, fun w y hy => ?_⟩
    rcases setWork_some hy with ⟨-, hnew⟩ | ⟨-, hold⟩
    · exact Option.some.inj hnew ▸ h.act hx hstatus ha
    · exact h.settled w y hold
  | committed hx hnow hrows hrefreshed hworks =>
    refine ⟨Machine.UnitOfWork.mem_commit_unchanged hrows h.stored fun o ho hkey =>
      (h.settled _ _ hx o ho hkey).2, fun w y hy => h.settled w y (hworks w y hy).2⟩

theorem Kept.run {maxAge : ℚ} {as : List (Input α)} (h : Kept row s)
    (hstatus : status row ≠ .opened) (has : ∀ a ∈ as, ¬decides row.key a) :
    Kept row (final (Recommendations.step maxAge) s as) := by
  induction as generalizing s with
  | nil => exact h
  | cons a as ih =>
    obtain ⟨ha, has⟩ := List.forall_mem_cons.1 has
    exact ih (h.step hstatus ha (effect maxAge s a)) has

/-- A recommendation that has been decided stays as it is, whatever is refreshed, until a session
decides it again: but for the sessions that had read it while it was open. -/
theorem decided_kept (maxAge : ℚ) (as : List (Input α)) (hrow : row ∈ s.rows.rows)
    (hstatus : status row ≠ .opened)
    (hsettled : ∀ w x, s.works w = some x → Settled x.session row.key)
    (has : ∀ a ∈ as, ¬decides row.key a) :
    row ∈ (final (step maxAge) s as).rows.rows :=
  (Kept.run ⟨hrow, hsettled⟩ hstatus has).stored

def exampleRow : Recommendation ℕ :=
  ⟨[], columns [] .applied (applyMeasuredSavings (some (7, 9)) (exampleSeed 5).content)⟩

def exampleApplied : State ℕ := { State.initial with rows := Table.empty.put exampleRow }

theorem applied_kept : exampleRow ∈ (final (step 60) exampleApplied
    [.ensureFresh 1, .act 1 (.upsert (exampleSeed 6)), .commit 1]).rows.rows :=
  decided_kept 60 _ (List.mem_singleton_self _) (by decide) (fun _ _ hx => by cases hx)
    (by simp [decides])

/-- A refresh that has read the recommendation open writes its estimate over what was measured. -/
example : (final (step 60) .initial [.ensureFresh 0, .act 0 (.upsert (exampleSeed 5)), .commit 0,
      .tick 60, .ensureFresh 1, .act 1 (.upsert (exampleSeed 6)),
      .openSession 2, .act 2 (.load []), .act 2 (.transition [] .applied (some (7, 9))), .commit 2,
      .commit 1]).rows.rows.map (fun row => (status row, content row .estimatedMonthlySavingsUsd,
        content row .measurementMethod)) = [(.applied, 6, 9)] := by
  decide +kernel

end Decided

/-! ## One session at a time -/

section Serial

variable {α : Type} {past : List (State α × Input α)} {s s' : State α} {a : Input α} {maxAge : ℚ}

/-- A session is opened only while there is no other. -/
def Serial (maxAge : ℚ) (s : State α) : Input α → Prop
  | .ensureFresh _ => isFresh maxAge s = true ∨ ∀ w, s.works w = none
  | .openSession _ => ∀ w, s.works w = none
  | _ => True

/-- The content is that of one seed of the key, with what a run has measured for it. -/
def OfSeed (past : List (State α × Input α)) (row : Recommendation α) : Prop :=
  ∃ q ∈ past, ∃ w seed, q.2 = .act w (.upsert seed) ∧ seed.dedupeKey = row.key ∧
    (content row = seed.content ∨ ∃ q' ∈ past, ∃ w next measured,
      q'.2 = .act w (.transition row.key next measured) ∧
      content row = applyMeasuredSavings measured seed.content)

structure Whole (past : List (State α × Input α)) (s : State α) : Prop where
  rows : ∀ row ∈ s.rows.rows, OfSeed past row
  held : ∀ w x, s.works w = some x → ∀ o ∈ x.session.held.rows,
    OfSeed past o.row ∧ Faithful s.rows o
  added : ∀ w x, s.works w = some x → ∀ row ∈ x.session.added, OfSeed past row
  alone : ∀ w w' x x', s.works w = some x → s.works w' = some x' → w = w'

theorem OfSeed.later {row : Recommendation α} (h : OfSeed past row) (q : State α × Input α) :
    OfSeed (past ++ [q]) row := by
  obtain ⟨q', hq', w, seed, hseed, hkey, hcontent⟩ := h
  refine ⟨q', List.mem_append_left _ hq', w, seed, hseed, hkey, hcontent.imp_right ?_⟩
  rintro ⟨q'', hq'', h⟩
  exact ⟨q'', List.mem_append_left _ hq'', h⟩

theorem Whole.later (h : Whole past s) (q : State α × Input α) : Whole (past ++ [q]) s where
  rows row hrow := (h.rows row hrow).later q
  held w x hx o ho := ⟨(h.held w x hx o ho).1.later q, (h.held w x hx o ho).2⟩
  added w x hx row hrow := (h.added w x hx row hrow).later q
  alone := h.alone

theorem whole_initial : Whole ([] : List (State α × Input α)) .initial :=
  ⟨fun _ hrow => absurd hrow List.not_mem_nil, fun _ _ hx => (by cases hx),
    fun _ _ hx => (by cases hx), fun _ _ _ _ hx => by cases hx⟩

theorem applyMeasuredSavings_again (m : α × α) (measured : Option (α × α)) (content : Content → α) :
    applyMeasuredSavings (some m) (applyMeasuredSavings measured content) =
      applyMeasuredSavings (some m) content := by
  rcases measured with _ | ⟨savings, method⟩
  · rfl
  · funext c
    cases c <;> simp [applyMeasuredSavings]

variable [DecidableEq α] {w : ℕ}

theorem ofSeed_transitioned {k : Text} {next : RecommendationStatus} {measured : Option (α × α)}
    {o : Object Text (Value α)} (h : OfSeed past o.row) (hkey : o.key = k) :
    OfSeed (past ++ [(s, .act w (.transition k next measured))])
      (transitioned next measured o).row := by
  rcases measured with _ | m
  · exact h.later _
  · obtain ⟨q, hq, w', seed, hseed, hkey', hcontent⟩ := h
    refine ⟨q, List.mem_append_left _ hq, w', seed, hseed, hkey', .inr ⟨_,
      List.mem_append_right _ (List.mem_singleton_self _), w, next, some m, by rw [← hkey]; rfl,
      ?_⟩⟩
    change applyMeasuredSavings (some m) (content o.row) = _
    rcases hcontent with hcontent | ⟨-, -, -, -, measured, -, hcontent⟩
    · rw [hcontent]
    · rw [hcontent, applyMeasuredSavings_again]

theorem Whole.acted_held {x : Work α} {a : Action α} (h : Whole past s) (hx : s.works w = some x)
    {o : Object Text (Value α)} (ho : o ∈ (act s.rows x.session a).held.rows) :
    OfSeed (past ++ [(s, .act w a)]) o.row ∧ Faithful s.rows o := by
  have hfound : ∀ {o : Object Text (Value α)}, Found x.session s.rows o →
      OfSeed past o.row ∧ Faithful s.rows o := by
    intro o hfound
    refine ⟨?_, hfound.faithful fun o ho => (h.held w x hx o ho).2⟩
    rcases hfound with hheld | ⟨row, hrow, rfl⟩
    · exact (h.held w x hx o hheld).1
    · exact h.rows row hrow
  cases acted_of_held ho with
  | kept hkept => exact ⟨(hfound hkept).1.later _, (hfound hkept).2⟩
  | @refreshed seed o hold hkey hopen =>
    exact ⟨⟨_, List.mem_append_right _ (List.mem_singleton_self _), w, seed, rfl, hkey.symm,
      .inl rfl⟩, (hfound hold).2.assign _⟩
  | transitioned hold hkey =>
    exact ⟨ofSeed_transitioned (hfound hold).1 hkey, (hfound hold).2.assign _⟩

theorem Whole.acted_added {x : Work α} {a : Action α} (h : Whole past s) (hx : s.works w = some x)
    {row : Recommendation α} (hrow : row ∈ (act s.rows x.session a).added) :
    OfSeed (past ++ [(s, .act w a)]) row := by
  rcases added_of_act hrow with hold | ⟨seed, rfl, rfl⟩
  · exact (h.added w x hx row hold).later _
  · exact ⟨_, List.mem_append_right _ (List.mem_singleton_self _), w, seed, rfl, rfl, .inl rfl⟩

omit [DecidableEq α] in
theorem Whole.opened {startedAt : Option ℚ} (h : Whole past s) (halone : ∀ w, s.works w = none) :
    Whole past (s.setWork w (some ⟨startedAt, .empty⟩)) := by
  have honly : ∀ {w' : ℕ} {y : Work α}, (s.setWork w (some ⟨startedAt, .empty⟩)).works w' = some y →
      w' = w ∧ y.session = .empty := by
    intro w' y hy
    rcases setWork_some hy with ⟨hw, hnew⟩ | ⟨-, hold⟩
    · exact ⟨hw, by rw [← Option.some.inj hnew]⟩
    · rw [halone] at hold
      cases hold
  refine ⟨h.rows, fun w' y hy o ho => ?_, fun w' y hy row hrow => ?_, fun w' w'' y y' hy hy' => ?_⟩
  · rw [(honly hy).2] at ho
    exact absurd ho List.not_mem_nil
  · rw [(honly hy).2] at hrow
    exact absurd hrow List.not_mem_nil
  · exact (honly hy).1.trans (honly hy').1.symm

omit [DecidableEq α] in
theorem Whole.committed {x : Work α} {rows : Rows α} (h : Whole past s) (hx : s.works w = some x)
    (hrows : Machine.UnitOfWork.commit s.rows x.session = some rows) :
    ∀ row ∈ rows.rows, OfSeed past row := by
  intro row hrow
  rcases (Machine.UnitOfWork.mem_commit hrows).1 hrow with ⟨old, hold, rfl⟩ | hadded
  · rcases Machine.UnitOfWork.updated_cases x.session old with hsame | ⟨o, ho, hkey, hwrite⟩
    · rw [hsame]
      exact h.rows old hold
    · obtain ⟨hseed, hfaithful⟩ := h.held w x hx o ho
      rw [hwrite, hfaithful.write hold hkey.symm]
      exact hseed
  · exact h.added w x hx row hadded

theorem Whole.step (h : Whole past s) (hserial : Serial maxAge s a)
    (heffect : Effect maxAge s a s') : Whole (past ++ [(s, a)]) s' := by
  have hlater := h.later (s, a)
  cases heffect with
  | quiet hnow hrows hrefreshed hworks =>
    exact ⟨hrows ▸ hlater.rows, fun w x hx => hrows ▸ hlater.held w x (hworks w x hx),
      fun w x hx => hlater.added w x (hworks w x hx),
      fun w w' x x' hx hx' => h.alone w w' x x' (hworks w x hx) (hworks w' x' hx')⟩
  | refreshing hfree hstale =>
    rcases hserial with hfresh | halone
    · rw [hstale] at hfresh
      cases hfresh
    · exact hlater.opened halone
  | opened hfree => exact hlater.opened hserial
  | @acted w a x hx =>
    refine ⟨hlater.rows, fun w' y hy o ho => ?_, fun w' y hy row hrow => ?_,
      fun w' w'' y y' hy hy' => ?_⟩
    · rcases setWork_some hy with ⟨-, hnew⟩ | ⟨-, hold⟩
      · rw [← Option.some.inj hnew] at ho
        exact h.acted_held hx ho
      · exact hlater.held w' y hold o ho
    · rcases setWork_some hy with ⟨-, hnew⟩ | ⟨-, hold⟩
      · rw [← Option.some.inj hnew] at hrow
        exact h.acted_added hx hrow
      · exact hlater.added w' y hold row hrow
    · have hsome : ∀ {w' : ℕ} {y : Work α}, (s.setWork w (some { x with
          session := act s.rows x.session a })).works w' = some y → w' = w := by
        intro w' y hy
        rcases setWork_some hy with ⟨hw, -⟩ | ⟨-, hold⟩
        · exact hw
        · exact h.alone w' w y x hold hx
      rw [hsome hy, hsome hy']
  | committed hx hnow hrows hrefreshed hworks =>
    have hnone : ∀ w' y, s'.works w' = some y → False := fun w' y hy =>
      (hworks w' y hy).1 (h.alone w' _ y _ (hworks w' y hy).2 hx)
    exact ⟨hlater.committed hx hrows, fun w' y hy => (hnone w' y hy).elim,
      fun w' y hy => (hnone w' y hy).elim, fun w' _ y _ hy => (hnone w' y hy).elim⟩

/-- Where sessions come one after the other, the content of every stored recommendation is that of
one seed, with what one run has measured. -/
theorem serial_whole (maxAge : ℚ) (as : List (Input α))
    (hserial : ∀ p ∈ steps (step maxAge) State.initial as, Serial maxAge p.1 p.2)
    {row : Recommendation α} (hrow : row ∈ (final (step maxAge) .initial as).rows.rows) :
    OfSeed (steps (step maxAge) .initial as) row := by
  have hstep : ∀ past (s : State α) a, Serial maxAge s a → Whole past s →
      Whole (past ++ [(s, a)]) (step maxAge s a) := fun _ s a hserial h =>
    h.step hserial (effect maxAge s a)
  have hrun : Whole (steps (step maxAge) .initial as) (final (step maxAge) .initial as) :=
    Machine.Runs.history hstep whole_initial hserial
  exact hrun.rows row hrow

def exampleRun : List (Input ℕ) :=
  [.ensureFresh 0, .act 0 (.upsert (exampleSeed 5)), .commit 0,
    .openSession 1, .act 1 (.load []), .act 1 (.transition [] .applied (some (7, 9))), .commit 1]

theorem serial_exampleRun :
    ∀ p ∈ steps (step 60) State.initial exampleRun, Serial 60 p.1 p.2 := by
  have hnone : ∀ w, (final (step 60) State.initial (exampleRun.take 3)).works w = none := by
    intro w
    change Function.update (Function.update (Function.update (fun _ => none) 0 _) 0 _) 0 _ w = _
    rw [Function.update_idem, Function.update_idem, Function.update_apply]
    split_ifs <;> rfl
  refine List.forall_mem_cons.2 ⟨.inr fun _ => rfl, ?_⟩
  refine List.forall_mem_cons.2 ⟨trivial, List.forall_mem_cons.2 ⟨trivial, ?_⟩⟩
  refine List.forall_mem_cons.2 ⟨hnone, ?_⟩
  simp [steps, Serial]

theorem transitioned_whole : OfSeed (steps (step 60) .initial exampleRun) exampleRow :=
  have hcells : ∀ c, (if decide (columns [] .opened (exampleSeed 5).content c ≠ exampleRow.cells c)
      then exampleRow.cells c else columns [] .opened (exampleSeed 5).content c) =
        exampleRow.cells c := by
    intro c
    split_ifs with hc
    · rfl
    · simpa using hc
  serial_whole 60 exampleRun serial_exampleRun
    (List.mem_singleton.2 (Machine.UnitOfWork.Row.ext rfl (funext fun c => (hcells c).symm)))

/-- No refresh started later than now, and the one under way started after those committed. -/
structure Gated (s : State α) : Prop where
  refreshed : ∀ t, s.refreshedAt = some t → t ≤ s.now
  started : ∀ w x t, s.works w = some x → x.startedAt = some t →
    t ≤ s.now ∧ ∀ last, s.refreshedAt = some last → last ≤ t
  alone : ∀ w w' x x', s.works w = some x → s.works w' = some x' → w = w'

omit [DecidableEq α] in
theorem gated_initial : Gated (State.initial : State α) :=
  ⟨fun _ h => (by cases h), fun _ _ _ h => (by cases h), fun _ _ _ _ h => by cases h⟩

omit [DecidableEq α] in
theorem Gated.opened {startedAt : Option ℚ} (h : Gated s) (halone : ∀ w, s.works w = none)
    (hnow : ∀ t, startedAt = some t → t = s.now) :
    Gated (s.setWork w (some ⟨startedAt, .empty⟩)) := by
  have honly : ∀ {w' : ℕ} {y : Work α}, (s.setWork w (some ⟨startedAt, .empty⟩)).works w' = some y →
      w' = w ∧ y.startedAt = startedAt := by
    intro w' y hy
    rcases setWork_some hy with ⟨hw, hnew⟩ | ⟨-, hold⟩
    · exact ⟨hw, by rw [← Option.some.inj hnew]⟩
    · rw [halone] at hold
      cases hold
  refine ⟨h.refreshed, fun w' y t hy ht => ?_, fun w' w'' y y' hy hy' => ?_⟩
  · rw [hnow t ((honly hy).2.symm.trans ht)]
    exact ⟨le_rfl, fun last hlast => h.refreshed last hlast⟩
  · exact (honly hy).1.trans (honly hy').1.symm

theorem Gated.step (h : Gated s) (hserial : Serial maxAge s a) (heffect : Effect maxAge s a s') :
    Gated s' := by
  cases heffect with
  | quiet hnow hrows hrefreshed hworks =>
    refine ⟨fun t ht => ?_, fun w x t hx ht => ?_, fun w w' x x' hx hx' =>
      h.alone w w' x x' (hworks w x hx) (hworks w' x' hx')⟩
    · exact (h.refreshed t (hrefreshed ▸ ht)).trans hnow
    · obtain ⟨hle, hlast⟩ := h.started w x t (hworks w x hx) ht
      exact ⟨hle.trans hnow, hrefreshed ▸ hlast⟩
  | refreshing hfree hstale =>
    rcases hserial with hfresh | halone
    · rw [hstale] at hfresh
      cases hfresh
    · exact h.opened halone fun t ht => (Option.some.inj ht).symm
  | opened hfree => exact h.opened hserial fun t ht => by cases ht
  | @acted w a x hx =>
    have hsome : ∀ {w' : ℕ} {y : Work α}, (s.setWork w (some { x with
        session := act s.rows x.session a })).works w' = some y →
        w' = w ∧ y.startedAt = x.startedAt := by
      intro w' y hy
      rcases setWork_some hy with ⟨hw, hnew⟩ | ⟨hw, hold⟩
      · exact ⟨hw, by rw [← Option.some.inj hnew]⟩
      · exact absurd (h.alone w' w y x hold hx) hw
    refine ⟨h.refreshed, fun w' y t hy ht => ?_, fun w' w'' y y' hy hy' => ?_⟩
    · exact h.started w x t hx ((hsome hy).2.symm.trans ht)
    · rw [(hsome hy).1, (hsome hy').1]
  | @committed w x _ hx hnow hrows hrefreshed hworks =>
    have hnone : ∀ w' y, s'.works w' = some y → False := fun w' y hy =>
      (hworks w' y hy).1 (h.alone w' _ y _ (hworks w' y hy).2 hx)
    refine ⟨fun t ht => ?_, fun w' y t hy => (hnone w' y hy).elim,
      fun w' _ y _ hy => (hnone w' y hy).elim⟩
    rw [hrefreshed, Option.or_eq_some_iff] at ht
    rw [hnow]
    rcases ht with hstarted | ⟨-, hlast⟩
    · exact (h.started w x t hx hstarted).1
    · exact h.refreshed t hlast

theorem refreshedAt_le (h : Gated s) (heffect : Effect maxAge s a s') {t : ℚ}
    (ht : ∃ last, s.refreshedAt = some last ∧ t ≤ last) :
    ∃ last, s'.refreshedAt = some last ∧ t ≤ last := by
  cases heffect with
  | quiet hnow hrows hrefreshed hworks => rwa [hrefreshed]
  | refreshing hfree hstale => exact ht
  | opened hfree => exact ht
  | acted hx => exact ht
  | @committed w x _ hx hnow hrows hrefreshed hworks =>
    obtain ⟨last, hlast, hle⟩ := ht
    rw [hrefreshed]
    cases hstarted : x.startedAt with
    | none => exact ⟨last, hlast, hle⟩
    | some t' => exact ⟨t', rfl, hle.trans ((h.started w x t' hx hstarted).2 last hlast)⟩

theorem Gated.run (h : Gated s) {as : List (Input α)}
    (hserial : ∀ p ∈ steps (Recommendations.step maxAge) s as, Serial maxAge p.1 p.2) :
    Gated (final (Recommendations.step maxAge) s as) := by
  have hstep : ∀ (_ : List (State α × Input α)) (s : State α) a, Serial maxAge s a → Gated s →
      Gated (Recommendations.step maxAge s a) := fun _ s a ha hs => hs.step ha (effect maxAge s a)
  exact @Machine.Runs.history _ _ _ (fun _ s => Gated s) _ hstep as s [] h hserial

theorem refreshedAt_le_run (h : Gated s) {as : List (Input α)}
    (hserial : ∀ p ∈ steps (Recommendations.step maxAge) s as, Serial maxAge p.1 p.2) {t : ℚ}
    (ht : ∃ last, s.refreshedAt = some last ∧ t ≤ last) :
    ∃ last, (final (Recommendations.step maxAge) s as).refreshedAt = some last ∧ t ≤ last := by
  induction as generalizing s with
  | nil => exact ht
  | cons a as ih =>
    obtain ⟨ha, has⟩ := List.forall_mem_cons.1 hserial
    exact ih (h.step ha (effect maxAge s a)) has (refreshedAt_le h (effect maxAge s a) ht)

/-- Where sessions come one after the other, a refresh starts only when `maxAge` has passed since
the start of every refresh that has been committed. -/
theorem refresh_spaced (maxAge : ℚ) (before later : List (Input α)) {w : ℕ} {x : Work α} {t : ℚ}
    (hserial : ∀ p ∈ steps (step maxAge) State.initial (before ++ .commit w :: later),
      Serial maxAge p.1 p.2)
    (hx : (final (step maxAge) .initial before).works w = some x) (ht : x.startedAt = some t)
    (hcommitted : Machine.UnitOfWork.commit (final (step maxAge) .initial before).rows x.session ≠
      none)
    (hstale : isFresh maxAge (final (step maxAge) .initial (before ++ .commit w :: later)) =
      false) :
    t + maxAge ≤ (final (step maxAge) State.initial (before ++ .commit w :: later)).now := by
  rw [Machine.Runs.steps_append] at hserial
  obtain ⟨hbefore, hcommit⟩ := List.forall_mem_append.1 hserial
  obtain ⟨ha, hlater⟩ := List.forall_mem_cons.1 hcommit
  have hgated := gated_initial.run hbefore
  have hsplit : final (step maxAge) State.initial (before ++ .commit w :: later) =
      final (step maxAge) (step maxAge (final (step maxAge) .initial before) (.commit w))
        later := by
    rw [final, List.foldl_append]
    rfl
  generalize final (step maxAge) State.initial before = s at *
  have hrefreshed : (step maxAge s (.commit w)).refreshedAt = some t := by
    simp only [step, hx, Option.map_some, Option.getD_some, commitWork]
    cases hrows : Machine.UnitOfWork.commit s.rows x.session with
    | none => exact absurd hrows hcommitted
    | some rows => simp [State.setWork, ht]
  obtain ⟨last, hlast, hle⟩ := refreshedAt_le_run (hgated.step ha (effect maxAge _ _)) hlater
    ⟨t, hrefreshed, le_rfl⟩
  rw [hsplit] at hstale ⊢
  rw [isFresh, hlast, Option.any_some, decide_eq_false_iff_not, not_lt] at hstale
  linarith

theorem next_refresh_spaced : (0 : ℚ) + 60 ≤ (final (step 60) (State.initial : State ℕ)
    ([.ensureFresh 0] ++ .commit 0 :: [.tick 60])).now := by
  refine refresh_spaced 60 [.ensureFresh 0] [.tick 60] ?_ rfl rfl (fun h => by cases h)
    (by decide +kernel)
  refine List.forall_mem_cons.2 ⟨.inr fun _ => rfl, ?_⟩
  simp [steps, Serial]

end Serial

end Varsten.ControlPlane.Recommendations
