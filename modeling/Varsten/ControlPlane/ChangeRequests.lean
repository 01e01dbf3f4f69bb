import Varsten.ControlPlane.Approval

/-!
# The life of a change request

A request leaves `proposed` once. What it rests on and who decided it stay from then on, and each
decision leaves one event in the audit trail, in every run whose overlapping operations find their
rows as they have read them.
-/

namespace Varsten.ControlPlane.ChangeRequests

open Machine.Commits (committed)
open Machine.Runs
open Approval (loadArtifact_requests)
open Sessions (AllFresh Event Store idle oneByOne)
open Python.Utf8 (Text)

variable {lower : Text → Text} {recs : Recommendations} {s s' : State} {a : Input} {rec : ℕ}

/-- The event that `decide_change_request` records: whether it approves, and the actor. -/
def decision (rec : ℕ) (p : State × Input) : Option (Bool × ℕ) :=
  match p.2.operation with
  | .decide i approve user =>
    if i = rec ∧ (p.1.changeRequests rec).any (·.status = .proposed) then some (approve, user)
    else none
  | _ => none

/-- The decisions of a request that a run leaves in the audit log. -/
def auditTrail (rec : ℕ) (run : List (State × Input)) : List (Bool × ℕ) :=
  run.filterMap (decision rec)

/-- The moves of a status. -/
inductive StatusMove : ChangeRequestStatus → ChangeRequestStatus → Prop where
  | approve : StatusMove .proposed .approved
  | reject : StatusMove .proposed .rejected
  | activate {st : ChangeRequestStatus} : st = .proposed ∨ st = .approved → StatusMove st .active
  | rollBack : StatusMove .active .rolledBack

/-- The recommendation is of a lever that `GOVERNED_LEVERS` has. -/
def Governed (recs : Recommendations) (rec : ℕ) : Prop :=
  ∃ r, recs rec = some r ∧ r.lever.any Lever.isGated = true

/-- What a step that decides nothing does to a request; without an approval it activates only what
nothing governs. -/
inductive Quiet (recs : Recommendations) (enforced : Bool) (rec : ℕ) :
    Option ChangeRequest → Option ChangeRequest → Prop where
  | kept (cr : Option ChangeRequest) : Quiet recs enforced rec cr cr
  | proposed (e : Evidence) : Governed recs rec →
      Quiet recs enforced rec none (some ⟨.proposed, e, none⟩)
  | refreshed {cr : ChangeRequest} (e : Evidence) : cr.status = .proposed →
      Quiet recs enforced rec (some cr) (some { cr with evidence := e })
  | activated {cr : ChangeRequest} : cr.status = .proposed ∨ cr.status = .approved →
      cr.status = .approved ∨ enforced = false ∨ ¬Governed recs rec →
      Quiet recs enforced rec (some cr) (some { cr with status := .active })
  | rolledBack {cr : ChangeRequest} : cr.status = .active →
      Quiet recs enforced rec (some cr) (some { cr with status := .rolledBack })

/-! ## One step -/

section Updates

variable {enforced : Bool}

theorem quiet_set {i : ℕ} {cr : ChangeRequest}
    (h : Quiet recs enforced i (s.changeRequests i) (some cr)) :
    Quiet recs enforced rec (s.changeRequests rec)
      ((s.setChangeRequest i cr).changeRequests rec) := by
  unfold State.setChangeRequest
  by_cases hi : rec = i
  · subst hi
    simpa only [Function.update_self] using h
  · simpa only [Function.update_of_ne hi] using Quiet.kept _

theorem quiet_markActive {i : ℕ} (h : ∀ cr, s.changeRequests i = some cr →
    cr.status = .approved ∨ enforced = false ∨ ¬Governed recs i) :
    Quiet recs enforced rec (s.changeRequests rec) ((markActive s i).changeRequests rec) := by
  unfold markActive
  split
  · next cr hcr =>
    split_ifs with hs
    · exact quiet_set (hcr ▸ .activated hs (h cr hcr))
    · exact .kept _
  · exact .kept _

theorem quiet_markRolledBack (i : ℕ) :
    Quiet recs enforced rec (s.changeRequests rec) ((markRolledBack s i).changeRequests rec) := by
  unfold markRolledBack
  split
  · next cr hcr =>
    split_ifs with hs
    · exact quiet_set (hcr ▸ .rolledBack hs)
    · exact .kept _
  · exact .kept _

theorem quiet_ensure (h : s'.changeRequests = s.changeRequests) (run : EvalRun) :
    Quiet recs enforced rec (s.changeRequests rec)
      ((ensureChangeRequest recs s' run).changeRequests rec) := by
  rw [← h]
  unfold ensureChangeRequest
  split
  · exact .kept _
  split
  · exact .kept _
  next r hr =>
  split
  · exact .kept _
  next hgated =>
  dsimp only
  split
  · next cr hcr =>
    split_ifs with hs
    · exact quiet_set (hcr ▸ .refreshed _ hs)
    · exact .kept _
  · next hnone => exact quiet_set (hnone ▸ .proposed _ ⟨r, hr, not_not.1 hgated⟩)

theorem quiet_recordRollback (p : ProxyPolicy) :
    Quiet recs enforced rec (s.changeRequests rec)
      ((recordRollback recs s p).changeRequests rec) := by
  unfold recordRollback
  dsimp only
  split
  · exact .kept _
  · next i _ =>
    split
    · exact .kept _
    · exact quiet_markRolledBack (s := (s.putPolicy _).setStatus i .rolledBack) i

end Updates

theorem decision_eq_some {approve : Bool} {user : ℕ}
    (h : decision rec (s, a) = some (approve, user)) :
    a.operation = .decide rec approve user ∧
      ∃ cr, s.changeRequests rec = some cr ∧ cr.status = .proposed := by
  unfold decision at h
  split at h
  · next i approve' user' hop =>
    split_ifs at h with hc
    obtain ⟨rfl, hproposed⟩ := hc
    obtain ⟨rfl, rfl⟩ := Prod.mk.inj (Option.some.inj h)
    obtain ⟨cr, hcr, hs⟩ := (Option.any_eq_true _ _).1 hproposed
    exact ⟨hop, cr, hcr, of_decide_eq_true hs⟩
  · cases h

theorem step_decided {approve : Bool} {user : ℕ} (h : decision rec (s, a) = some (approve, user)) :
    ∃ cr, s.changeRequests rec = some cr ∧ cr.status = .proposed ∧
      (step lower recs s a).changeRequests rec = some { cr with
        status := if approve then .approved else .rejected
        decidedBy := some user } := by
  obtain ⟨hop, cr, hcr, hs⟩ := decision_eq_some h
  refine ⟨cr, hcr, hs, ?_⟩
  simp only [step, perform, hop, decideChangeRequest, hcr, hs, Option.bind_eq_bind,
    Option.bind_some, ne_eq, not_true_eq_false, if_false, Option.getD_some,
    State.setChangeRequest, Function.update_self]

theorem approved_of_gates {i : ℕ} {r : Recommendation} {automated : Bool} {g : Gates}
    {cr : ChangeRequest} (hr : recs i = some r) (hg : gatesPass g s i r automated = true)
    (hcr : s.changeRequests i = some cr) :
    cr.status = .approved ∨ g.enforced = false ∨ ¬Governed recs i := by
  have happroved : changeRequestApproved g s i r = true := by
    simp only [gatesPass, Bool.and_eq_true] at hg
    exact hg.2
  simp only [changeRequestApproved, hcr, Option.any_some, Bool.or_eq_true, Bool.not_eq_true',
    decide_eq_true_eq] at happroved
  rcases happroved with (hfree | henforced) | hs
  · refine .inr (.inr ?_)
    rintro ⟨r', hr', hgated⟩
    obtain rfl := Option.some.inj (hr.symm.trans hr')
    exact absurd hgated (by simp [hfree])
  · exact .inr (.inl henforced)
  · exact .inl hs

theorem step_quiet (h : decision rec (s, a) = none) :
    Quiet recs a.gates.enforced rec (s.changeRequests rec)
      ((step lower recs s a).changeRequests rec) := by
  unfold step
  cases hp : perform lower recs s a with
  | none => exact .kept _
  | some s' =>
    rw [Option.getD_some]
    cases performed_of_step hp with
    | @applied s₁ i _ r _ hr hg h₁ =>
      have hsame : s₁.changeRequests = s.changeRequests := by cases h₁ <;> rfl
      refine hsame ▸ quiet_markActive (s := s₁) fun cr hcr => ?_
      exact approved_of_gates hr hg (hsame ▸ hcr)
    | @dropped i _ _ _ => exact quiet_markRolledBack (s := deactivateExecution s i) i
    | drifted _ _ _ => exact quiet_recordRollback _
    | finished _ _ _ => exact quiet_ensure (by rfl) _
    | @decided i user approve cr hop hcr hs =>
      have hi : rec ≠ i := by
        rintro rfl
        simp [decision, hop, hcr, hs] at h
      simpa only [State.setChangeRequest, Function.update_of_ne hi] using Quiet.kept _
    | loaded _ =>
      rw [loadArtifact_requests]
      exact .kept _
    | _ => exact .kept _

/-! ## Decided requests -/

structure Later (cr cr' : ChangeRequest) : Prop where
  evidence : cr'.evidence = cr.evidence
  decidedBy : cr'.decidedBy = cr.decidedBy
  status : Relation.ReflTransGen StatusMove cr.status cr'.status
  decided : cr'.status ≠ .proposed

theorem later_of_quiet {cr₀ cr : ChangeRequest} (h : Later cr₀ cr) {next : Option ChangeRequest}
    {enforced : Bool} (hq : Quiet recs enforced rec (some cr) next) :
    ∃ cr', next = some cr' ∧ Later cr₀ cr' := by
  cases hq with
  | kept => exact ⟨cr, rfl, h⟩
  | refreshed e hs => exact absurd hs h.decided
  | activated hs _ => exact ⟨_, rfl, h.evidence, h.decidedBy, h.status.tail (.activate hs), by simp⟩
  | rolledBack hs =>
    have hmove : StatusMove cr.status .rolledBack := hs ▸ .rollBack
    exact ⟨_, rfl, h.evidence, h.decidedBy, h.status.tail hmove, by simp⟩

theorem later_step {cr₀ cr : ChangeRequest} (h : Later cr₀ cr)
    (hcr : s.changeRequests rec = some cr) (a : Input) :
    ∃ cr', (step lower recs s a).changeRequests rec = some cr' ∧ Later cr₀ cr' := by
  cases hd : decision rec (s, a) with
  | none => exact later_of_quiet h (hcr ▸ step_quiet hd)
  | some event =>
    obtain ⟨-, seen, hseen, hs⟩ := @decision_eq_some _ _ _ event.1 event.2 hd
    obtain rfl := Option.some.inj (hcr.symm.trans hseen)
    exact absurd hs h.decided

theorem later_run {cr₀ cr : ChangeRequest} (h : Later cr₀ cr)
    (hcr : s.changeRequests rec = some cr) (as : List Input) :
    ∃ cr', (final (step lower recs) s as).changeRequests rec = some cr' ∧ Later cr₀ cr' := by
  induction as generalizing s cr with
  | nil => exact ⟨cr, hcr, h⟩
  | cons a as ih =>
    obtain ⟨cr', hcr', h'⟩ := @later_step lower recs _ _ _ _ h hcr a
    exact ih h' hcr'

theorem frozen_run (s : State) (as : List Input) {cr : ChangeRequest}
    (hcr : s.changeRequests rec = some cr) (hs : cr.status ≠ .proposed) :
    ∃ cr', (final (step lower recs) s as).changeRequests rec = some cr' ∧
      cr'.evidence = cr.evidence ∧ cr'.decidedBy = cr.decidedBy ∧
      cr'.status ≠ .proposed ∧ Relation.ReflTransGen StatusMove cr.status cr'.status ∧
      (cr.status = .rejected ∨ cr.status = .rolledBack → cr' = cr) := by
  have hstart : Later cr cr := ⟨rfl, rfl, .refl, hs⟩
  obtain ⟨cr', hcr', h⟩ := @later_run lower recs _ _ _ _ hstart hcr as
  refine ⟨cr', hcr', h.evidence, h.decidedBy, h.decided, h.status, fun hend => ?_⟩
  have hstatus : cr'.status = cr.status := by
    rcases Relation.ReflTransGen.cases_head h.status with heq | ⟨st, hmove, -⟩
    · exact heq.symm
    · rcases hend with hend | hend <;> rw [hend] at hmove <;> cases hmove with
      | activate hst => simp at hst
  cases cr with
  | mk status evidence decidedBy =>
    cases cr' with
    | mk status' evidence' decidedBy' =>
      obtain rfl : evidence' = evidence := h.evidence
      obtain rfl : decidedBy' = decidedBy := h.decidedBy
      obtain rfl : status' = status := hstatus
      rfl

/-- From any state, whatever overlapping operations follow and find their rows as they have read
them: a request that has left `proposed` keeps its evidence and its decider, its status moves along
the state machine and never back to `proposed`, and one that is rejected or rolled back stays as it
is. -/
theorem decided_request_frozen (lower : Text → Text) (recs : Recommendations) (t : Store)
    {es : List Event} (hfresh : AllFresh lower recs (steps (Sessions.step lower recs) t es))
    (rec : ℕ) {cr : ChangeRequest} (hcr : t.base.changeRequests rec = some cr)
    (hs : cr.status ≠ .proposed) :
    ∃ cr', (final (Sessions.step lower recs) t es).base.changeRequests rec = some cr' ∧
      cr'.evidence = cr.evidence ∧ cr'.decidedBy = cr.decidedBy ∧
      cr'.status ≠ .proposed ∧ Relation.ReflTransGen StatusMove cr.status cr'.status ∧
      (cr.status = .rejected ∨ cr.status = .rolledBack → cr' = cr) := by
  obtain ⟨as, -, hbase⟩ := Sessions.run_fresh hfresh
  rw [hbase]
  exact frozen_run t.base as hcr hs

/-! ## The audit trail -/

/-- What the trail of a request says of it. -/
inductive Trailed : List (Bool × ℕ) → Option ChangeRequest → Prop where
  | absent : Trailed [] none
  | undecided {cr : ChangeRequest} : cr.decidedBy = none → cr.status ≠ .approved →
      cr.status ≠ .rejected → Trailed [] (some cr)
  | decided {cr : ChangeRequest} {approve : Bool} {user : ℕ} : cr.decidedBy = some user →
      cr.status ≠ .proposed → (cr.status = .rejected ↔ approve = false) →
      Trailed [(approve, user)] (some cr)

theorem trailed_quiet {trail : List (Bool × ℕ)} {cr next : Option ChangeRequest}
    {enforced : Bool} (h : Trailed trail cr) (hq : Quiet recs enforced rec cr next) :
    Trailed trail next := by
  cases hq with
  | kept => exact h
  | proposed e _ =>
    cases h
    exact .undecided rfl (by simp) (by simp)
  | refreshed e hs =>
    cases h with
    | undecided hby _ _ => exact .undecided hby (by simp [hs]) (by simp [hs])
    | decided _ hleft _ => exact absurd hs hleft
  | activated hs _ =>
    cases h with
    | undecided hby _ _ => exact .undecided hby (by simp) (by simp)
    | decided hby hleft hverdict =>
      have happroved := hs.resolve_left hleft
      exact .decided hby (by simp) (by simpa [happroved] using hverdict)
  | rolledBack hs =>
    cases h with
    | undecided hby _ _ => exact .undecided hby (by simp) (by simp)
    | decided hby _ hverdict =>
      exact .decided hby (by simp) (by simpa [hs] using hverdict)

theorem trailed_decided {trail : List (Bool × ℕ)} {cr : ChangeRequest} (approve : Bool) (user : ℕ)
    (h : Trailed trail (some cr)) (hs : cr.status = .proposed) :
    Trailed (trail ++ [(approve, user)]) (some { cr with
      status := if approve then .approved else .rejected
      decidedBy := some user }) := by
  cases h with
  | undecided _ _ _ => cases approve <;> exact .decided rfl (by simp) (by simp)
  | decided _ hleft _ => exact absurd hs hleft

theorem auditTrail_step {past : List (State × Input)}
    (h : Trailed (auditTrail rec past) (s.changeRequests rec)) :
    Trailed (auditTrail rec (past ++ [(s, a)])) ((step lower recs s a).changeRequests rec) := by
  unfold auditTrail at h ⊢
  rw [List.filterMap_append]
  cases hd : decision rec (s, a) with
  | none => simpa [hd] using trailed_quiet h (step_quiet hd)
  | some event =>
    obtain ⟨cr, hcr, hs, hnext⟩ := @step_decided lower recs _ _ _ event.1 event.2 hd
    rw [hcr] at h
    simpa [hd, hnext] using trailed_decided event.1 event.2 h hs

theorem trailed_run (as : List Input) :
    Trailed (auditTrail rec (steps (step lower recs) .initial as))
      ((final (step lower recs) .initial as).changeRequests rec) := by
  have hstep : ∀ past s a, True → Trailed (auditTrail rec past) (s.changeRequests rec) →
      Trailed (auditTrail rec (past ++ [(s, a)])) ((step lower recs s a).changeRequests rec) :=
    fun _ _ _ _ h => auditTrail_step h
  have hstart : Trailed (auditTrail rec []) (State.initial.changeRequests rec) := .absent
  exact history hstep hstart fun _ _ => trivial

/-- In every run of overlapping operations that find their rows as they have read them, a request
is decided at most once. Its audit trail is empty while nobody has decided it, and then the one
event that names the decider and says what the status shows. -/
theorem audit_trail_exact (lower : Text → Text) (recs : Recommendations) {es : List Event}
    (hfresh : AllFresh lower recs (steps (Sessions.step lower recs) idle es)) (rec : ℕ) :
    Trailed (auditTrail rec (committed (steps (Sessions.step lower recs) idle es)))
      ((final (Sessions.step lower recs) idle es).base.changeRequests rec) := by
  obtain ⟨as, hcommitted, hbase⟩ := Sessions.run_fresh hfresh
  rw [hcommitted, hbase]
  exact trailed_run as

/-! ## Under enforcement -/

structure Signed (recs : Recommendations) (rec : ℕ) (cr : ChangeRequest) : Prop where
  governed : Governed recs rec
  live : cr.status = .active ∨ cr.status = .rolledBack → cr.decidedBy.isSome = true
  approved : cr.status = .approved → cr.decidedBy.isSome = true

theorem signed_quiet {cr next : Option ChangeRequest} (h : ∀ x ∈ cr, Signed recs rec x)
    (hq : Quiet recs true rec cr next) : ∀ x ∈ next, Signed recs rec x := by
  cases hq with
  | kept => exact h
  | proposed e hgov =>
    rintro _ ⟨⟩
    exact ⟨hgov, by simp, by simp⟩
  | @refreshed cr e hs =>
    rintro _ ⟨⟩
    exact ⟨(h cr rfl).governed, by simp [hs], by simp [hs]⟩
  | @activated cr _ hok =>
    rintro _ ⟨⟩
    have hcr := h cr rfl
    have happroved : cr.status = .approved := by simpa [hcr.governed] using hok
    exact ⟨hcr.governed, fun _ => hcr.approved happroved, by simp⟩
  | @rolledBack cr hs =>
    rintro _ ⟨⟩
    have hcr := h cr rfl
    exact ⟨hcr.governed, fun _ => hcr.live (.inl hs), by simp⟩

theorem signed_step (h : ∀ x ∈ s.changeRequests rec, Signed recs rec x)
    (henforced : a.gates.enforced = true) :
    ∀ x ∈ (step lower recs s a).changeRequests rec, Signed recs rec x := by
  cases hd : decision rec (s, a) with
  | none => exact signed_quiet h (henforced ▸ step_quiet hd)
  | some event =>
    obtain ⟨cr, hcr, -, hnext⟩ := @step_decided lower recs _ _ _ event.1 event.2 hd
    intro x hx
    rw [hnext] at hx
    obtain rfl := Option.some.inj hx
    exact ⟨(h cr hcr).governed, fun _ => rfl, fun _ => rfl⟩

theorem signed_run {as : List Input} (h : ∀ x ∈ s.changeRequests rec, Signed recs rec x)
    (henforced : ∀ a ∈ as, a.gates.enforced = true) :
    ∀ x ∈ (final (step lower recs) s as).changeRequests rec, Signed recs rec x := by
  induction as generalizing s with
  | nil => exact h
  | cons a as ih =>
    rw [List.forall_mem_cons] at henforced
    exact ih (signed_step h henforced.1) henforced.2

theorem approval_run {as : List Input} (henforced : ∀ a ∈ as, a.gates.enforced = true)
    {cr : ChangeRequest} (hcr : (final (step lower recs) .initial as).changeRequests rec = some cr)
    (hlive : cr.status = .active ∨ cr.status = .rolledBack) :
    ∃ user, cr.decidedBy = some user ∧
      auditTrail rec (steps (step lower recs) .initial as) = [(true, user)] := by
  have hstart : ∀ x ∈ State.initial.changeRequests rec, Signed recs rec x :=
    fun _ hx => absurd hx (by simp [State.initial])
  have hsigned := (signed_run hstart henforced cr hcr).live hlive
  have htrail := @trailed_run lower recs rec as
  rw [hcr] at htrail
  generalize auditTrail rec (steps (step lower recs) .initial as) = trail at htrail
  cases htrail with
  | undecided hby _ _ => simp [hby] at hsigned
  | @decided _ approve user hby _ hverdict =>
    refine ⟨user, hby, ?_⟩
    have happrove : approve = true := by
      rcases hlive with hs | hs <;> simpa [hs] using hverdict
    rw [happrove]

/-- With governance enforced throughout, and the rows of overlapping operations as they were read,
the trail of a request that is live, or was until its rollback, is exactly one approval, by the
decider that the request names. -/
theorem live_has_one_approval (lower : Text → Text) (recs : Recommendations) {es : List Event}
    (hfresh : AllFresh lower recs (steps (Sessions.step lower recs) idle es))
    (henforced : ∀ p ∈ committed (steps (Sessions.step lower recs) idle es),
      p.2.gates.enforced = true) (rec : ℕ) {cr : ChangeRequest}
    (hcr : (final (Sessions.step lower recs) idle es).base.changeRequests rec = some cr)
    (hlive : cr.status = .active ∨ cr.status = .rolledBack) :
    ∃ user, cr.decidedBy = some user ∧
      auditTrail rec (committed (steps (Sessions.step lower recs) idle es)) = [(true, user)] := by
  obtain ⟨as, hcommitted, hbase⟩ := Sessions.run_fresh hfresh
  rw [hcommitted] at henforced ⊢
  rw [hbase] at hcr
  exact approval_run (inputs_of_steps henforced) hcr hlive

/-! ## A downshift that is approved and applied -/

open Approval (enforced downshiftOfM)

def approvedDownshift : List Input :=
  [⟨enforced, .evaluate 0 (some "n") ⟨0, 0⟩⟩, ⟨enforced, .startRun 0⟩,
    ⟨enforced, .finishRun 0 (some .safe)⟩, ⟨enforced, .decide 0 true 7⟩]

def appliedDownshift : List Input := approvedDownshift ++ [⟨enforced, .transition 0 .applied⟩]

def evaluatedAgain : List Input :=
  [⟨enforced, .evaluate 0 (some "o") ⟨1, 1⟩⟩, ⟨enforced, .startRun 0⟩,
    ⟨enforced, .finishRun 0 (some .safe)⟩]

def approvedState : State := final (step id downshiftOfM) .initial approvedDownshift

theorem approved_downshift_frozen :
    ∃ cr, (final (Sessions.step id downshiftOfM) ⟨approvedState, []⟩
      (oneByOne evaluatedAgain)).base.changeRequests 0 = some cr ∧ cr.evidence = ⟨0, "n", none⟩ := by
  obtain ⟨cr, hcr, hevidence, -⟩ := @decided_request_frozen id downshiftOfM ⟨approvedState, []⟩ _
    (Sessions.fresh_oneByOne id downshiftOfM approvedState evaluatedAgain) 0
    ⟨.approved, ⟨0, "n", none⟩, some 7⟩ rfl (by decide)
  exact ⟨cr, hcr, hevidence⟩

theorem approved_downshift_trailed :
    auditTrail 0 (committed (steps (Sessions.step id downshiftOfM) idle
      (oneByOne approvedDownshift))) = [(true, 7)] ∧
    Trailed (auditTrail 0 (committed (steps (Sessions.step id downshiftOfM) idle
        (oneByOne approvedDownshift))))
      ((final (Sessions.step id downshiftOfM) idle (oneByOne approvedDownshift)).base.changeRequests
        0) := by
  refine ⟨?_, audit_trail_exact id downshiftOfM
    (Sessions.fresh_oneByOne id downshiftOfM .initial approvedDownshift) 0⟩
  rw [idle, (Sessions.run_oneByOne id downshiftOfM .initial approvedDownshift).2]
  rfl

theorem applied_downshift_signed :
    ∃ user, auditTrail 0 (committed (steps (Sessions.step id downshiftOfM) idle
      (oneByOne appliedDownshift))) = [(true, user)] := by
  obtain ⟨hfinal, hcommitted⟩ := Sessions.run_oneByOne id downshiftOfM .initial appliedDownshift
  have henforced : ∀ p ∈ committed (steps (Sessions.step id downshiftOfM) idle
      (oneByOne appliedDownshift)), p.2.gates.enforced = true := by
    have hin : ∀ a ∈ appliedDownshift, a.gates.enforced = true := by
      simp [appliedDownshift, approvedDownshift, enforced]
    rw [idle, hcommitted]
    exact input_of_steps hin
  have hcr : (final (Sessions.step id downshiftOfM) idle
      (oneByOne appliedDownshift)).base.changeRequests 0 =
        some ⟨.active, ⟨0, "n", none⟩, some 7⟩ := by
    rw [idle, hfinal]
    rfl
  obtain ⟨user, -, htrail⟩ := live_has_one_approval id downshiftOfM
    (Sessions.fresh_oneByOne id downshiftOfM .initial appliedDownshift) henforced 0 hcr (.inl rfl)
  exact ⟨user, htrail⟩

end Varsten.ControlPlane.ChangeRequests
