import Varsten.Machine.Runs
import Varsten.Machine.SessionLocks

/-!
# Ticks under advisory locks

The periodic jobs on any number of instances of the backend. A tick checks out a connection, asks
for the lock of its job, sweeps and releases; between these steps other ticks run, the database
fails, schedulers stop and instances die. `digest` is the 8-byte blake2b of a text, as a signed
number.
-/

namespace Varsten.Core.Scheduler

open Machine.Runs (final)
open Machine.SessionLocks

inductive Job where
  | driftSweep
  | batchPoll
  | cachePurge
  | alertSweep
  | trialSweep
  | learningPromotion
deriving DecidableEq

def Job.name : Job → String
  | .driftSweep => "drift-sweep"
  | .batchPoll => "batch-poll"
  | .cachePurge => "cache-purge"
  | .alertSweep => "alert-sweep"
  | .trialSweep => "trial-sweep"
  | .learningPromotion => "learning-promotion"

def lockKey (digest : String → ℤ) (job : Job) : ℤ := digest ("varsten.scheduler:" ++ job.name)

variable {ι : Type}

/-- A connection of the pool of an instance. -/
abbrev Session (ι : Type) := ι × ℕ

/-- Where the loop of a job is; `running none` is a sweep without the lock. -/
inductive Phase (ι : Type) where
  | idle
  | connected (conn : Session ι)
  | running (conn : Option (Session ι))
  | releasing (conn : Session ι) (acquired : Bool)
deriving DecidableEq

def Phase.conn : Phase ι → Option (Session ι)
  | .idle => none
  | .connected c => some c
  | .running c => c
  | .releasing c _ => some c

/-- The connection that holds the lock for the tick. -/
def Phase.held : Phase ι → Option (Session ι)
  | .running c => c
  | .releasing c true => some c
  | _ => none

/-- Who has a connection; a stray is the thread of a tick that was cancelled while it asked for the
lock. -/
inductive Use where
  | free
  | tick (job : Job)
  | stray (job : Job)

/-- `lost` are the connections whose session has ended on the server; `orphans` are the sweeps of
cancelled ticks, whose threads go on. -/
structure State (ι : Type) where
  locks : Locks ℤ (Session ι)
  pool : Session ι → Use
  lost : Session ι → Bool
  phase : ι → Job → Phase ι
  orphans : List (ι × Job)

def State.initial : State ι := ⟨fun _ => none, fun _ => .free, fun _ => false, fun _ _ => .idle, []⟩

/-- `answered` is whether the server answers, and a connection `none` that it refuses one. -/
inductive Input (ι : Type) where
  | begin (i : ι) (job : Job) (conn : Option ℕ)
  | tryLock (i : ι) (job : Job) (answered : Bool)
  | finish (i : ι) (job : Job)
  | release (i : ι) (job : Job) (answered : Bool)
  | cancel (i : ι) (job : Job)
  | strayLock (c : Session ι) (answered : Bool)
  | orphanEnds (n : ℕ)
  | close (c : Session ι)
  | lose (c : Session ι)
  | crash (i : ι)

section Steps

variable [DecidableEq ι]

def State.setPhase (s : State ι) (i : ι) (job : Job) (p : Phase ι) : State ι :=
  { s with phase := Function.update s.phase i (Function.update (s.phase i) job p) }

def State.setUse (s : State ι) (c : Session ι) (u : Use) : State ι :=
  { s with pool := Function.update s.pool c u }

def State.setLocks (s : State ι) (locks : Locks ℤ (Session ι)) : State ι := { s with locks }

/-- A connection goes back to the pool, which replaces it if its session was lost. -/
def State.giveBack (s : State ι) (c : Session ι) : State ι :=
  { s.setUse c .free with lost := Function.update s.lost c false }

variable (enabled : Bool) (digest : String → ℤ) (s : State ι)

/-- `_run_guarded` up to the connection; without the setting the tick runs unguarded. -/
def begin (i : ι) (job : Job) (conn : Option ℕ) : State ι :=
  match s.phase i job, conn with
  | .idle, none => s.setPhase i job (.running none)
  | .idle, some n =>
    if !enabled then s.setPhase i job (.running none)
    else match s.pool (i, n) with
      | .free => (s.setUse (i, n) (.tick job)).setPhase i job (.connected (i, n))
      | _ => s
  | _, _ => s

/-- The query of `_acquire_advisory_lock`. -/
def acquire (i : ι) (job : Job) (answered : Bool) : State ι :=
  match s.phase i job with
  | .connected c =>
    if answered && !s.lost c then
      let granted := tryLock s.locks (lockKey digest job) c
      (s.setLocks granted.2).setPhase i job
        (if granted.1 then .running (some c) else .releasing c false)
    else (s.giveBack c).setPhase i job (.running none)
  | _ => s

/-- `_run_safe` returns, whether its sweep raised or not. -/
def finish (i : ι) (job : Job) : State ι :=
  match s.phase i job with
  | .running none => s.setPhase i job .idle
  | .running (some c) => s.setPhase i job (.releasing c true)
  | _ => s

/-- `_release_advisory_lock`. -/
def release (i : ι) (job : Job) (answered : Bool) : State ι :=
  match s.phase i job with
  | .releasing c _ =>
    ((s.setLocks (if answered && !s.lost c then unlock s.locks (lockKey digest job) c
      else s.locks)).giveBack c).setPhase i job .idle
  | _ => s

/-- `stop` cancels the task of a loop; what it waits for in a thread goes on. -/
def cancel (i : ι) (job : Job) : State ι :=
  match s.phase i job with
  | .connected c => (s.setUse c (.stray job)).setPhase i job .idle
  | .running none =>
    { s.setPhase i job .idle with orphans := s.orphans ++ [(i, job)] }
  | .running (some c) =>
    { s.setPhase i job (.releasing c true) with orphans := s.orphans ++ [(i, job)] }
  | _ => s

def strayLock (c : Session ι) (answered : Bool) : State ι :=
  match s.pool c with
  | .stray job =>
    (s.setLocks (if answered && !s.lost c then (tryLock s.locks (lockKey digest job) c).2
      else s.locks)).giveBack c
  | _ => s

def close (c : Session ι) : State ι :=
  match s.pool c with
  | .free => (s.setLocks (drop (· = c) s.locks)).giveBack c
  | _ => s

def lose (c : Session ι) : State ι :=
  { s.setLocks (drop (· = c) s.locks) with lost := Function.update s.lost c true }

def crash (i : ι) : State ι where
  locks := drop (·.1 = i) s.locks
  pool c := if c.1 = i then .free else s.pool c
  lost c := if c.1 = i then false else s.lost c
  phase := Function.update s.phase i fun _ => .idle
  orphans := s.orphans.filter (·.1 ≠ i)

def step : Input ι → State ι
  | .begin i job conn => begin enabled s i job conn
  | .tryLock i job answered => acquire digest s i job answered
  | .finish i job => finish s i job
  | .release i job answered => release digest s i job answered
  | .cancel i job => cancel s i job
  | .strayLock c answered => strayLock digest s c answered
  | .orphanEnds n => { s with orphans := s.orphans.eraseIdx n }
  | .close c => close s c
  | .lose c => lose s c
  | .crash i => crash s i

end Steps

/-- A sweep of the job is in progress on the instance. -/
def Sweeping (s : State ι) (i : ι) (job : Job) : Prop :=
  (∃ conn, s.phase i job = .running conn) ∨ (i, job) ∈ s.orphans

/-- A sweep of the job is in progress on the instance that no lock guards: its tick failed open, lost
its session or was cancelled. -/
def Unguarded (s : State ι) (i : ι) (job : Job) : Prop :=
  s.phase i job = .running none ∨ (∃ c, s.phase i job = .running (some c) ∧ s.lost c = true) ∨
    (i, job) ∈ s.orphans

/-! ## Connections and locks -/

variable {digest : String → ℤ} {s : State ι} {i i' : ι} {job job' : Job} {c : Session ι}

theorem Phase.conn_of_held {p : Phase ι} (h : p.held = some c) : p.conn = some c := by
  cases p with
  | running conn => exact h
  | releasing c' acquired =>
    cases acquired with
    | true => exact h
    | false => cases h
  | _ => cases h

/-- A connection serves one tick of its instance, and a tick that was given the lock has it as long
as its session lasts. -/
structure Inv (digest : String → ℤ) (s : State ι) : Prop where
  ticks : ∀ i job c, (s.phase i job).conn = some c → c.1 = i ∧ s.pool c = .tick job
  holds : ∀ i job c, (s.phase i job).held = some c → s.lost c = false →
    Holds s.locks (lockKey digest job) c

theorem inv_initial : Inv digest (State.initial : State ι) where
  ticks _ _ _ h := by cases h
  holds _ _ _ h := by cases h

theorem Inv.slot (h : Inv digest s) (hc : (s.phase i job).conn = some c)
    (hc' : (s.phase i' job').conn = some c) : i' = i ∧ job' = job := by
  obtain ⟨rfl, huse⟩ := h.ticks i job c hc
  obtain ⟨rfl, huse'⟩ := h.ticks i' job' c hc'
  exact ⟨rfl, Use.tick.inj (huse'.symm.trans huse)⟩

theorem Inv.unused (h : Inv digest s) (hc : ∀ job, s.pool c ≠ .tick job) (i : ι) (job : Job) :
    (s.phase i job).conn ≠ some c := fun hconn => hc job (h.ticks i job c hconn).2

variable [DecidableEq ι]

theorem setPhase_self {p : Phase ι} : (s.setPhase i job p).phase i job = p := by
  simp [State.setPhase]

theorem setPhase_of_ne {p : Phase ι} (h : ¬(i' = i ∧ job' = job)) :
    (s.setPhase i job p).phase i' job' = s.phase i' job' := by
  unfold State.setPhase
  by_cases hi : i' = i
  · subst hi
    have hjob : job' ≠ job := fun heq => h ⟨rfl, heq⟩
    simp only [Function.update_self, Function.update_of_ne hjob]
  · simp only [Function.update_of_ne hi]

theorem Inv.setPhase {p : Phase ι} (h : Inv digest s)
    (hconn : ∀ c, p.conn = some c → c.1 = i ∧ s.pool c = .tick job)
    (hheld : ∀ c, p.held = some c → s.lost c = false → Holds s.locks (lockKey digest job) c) :
    Inv digest (s.setPhase i job p) := by
  constructor
  · intro i' job' c hc
    by_cases hslot : i' = i ∧ job' = job
    · obtain ⟨rfl, rfl⟩ := hslot
      rw [setPhase_self] at hc
      exact hconn c hc
    · rw [setPhase_of_ne hslot] at hc
      exact h.ticks i' job' c hc
  · intro i' job' c hc hlost
    by_cases hslot : i' = i ∧ job' = job
    · obtain ⟨rfl, rfl⟩ := hslot
      rw [setPhase_self] at hc
      exact hheld c hc hlost
    · rw [setPhase_of_ne hslot] at hc
      exact h.holds i' job' c hc hlost

theorem Inv.leave {p : Phase ι} (h : Inv digest s) (hp : p.conn = none) :
    Inv digest (s.setPhase i job p) := by
  refine h.setPhase (fun c hc => ?_) fun c hc _ => ?_
  · rw [hp] at hc
    cases hc
  · rw [Phase.conn_of_held hc] at hp
    cases hp

theorem Inv.left {p : Phase ι} (h : Inv digest s) (hc : (s.phase i job).conn = some c)
    (hp : p.conn ≠ some c) (i' : ι) (job' : Job) :
    ((s.setPhase i job p).phase i' job').conn ≠ some c := by
  by_cases hslot : i' = i ∧ job' = job
  · obtain ⟨rfl, rfl⟩ := hslot
    rwa [setPhase_self]
  · rw [setPhase_of_ne hslot]
    exact fun hc' => hslot (h.slot hc hc')

theorem Inv.setUse {u : Use} (h : Inv digest s) (hc : ∀ i job, (s.phase i job).conn ≠ some c) :
    Inv digest (s.setUse c u) := by
  refine ⟨fun i job c' hc' => ?_, h.holds⟩
  have hne : c' ≠ c := fun heq => hc i job (heq ▸ hc')
  obtain ⟨hi, huse⟩ := h.ticks i job c' hc'
  exact ⟨hi, (Function.update_of_ne hne ..).trans huse⟩

theorem Inv.giveBack (h : Inv digest s) (hc : ∀ i job, (s.phase i job).conn ≠ some c) :
    Inv digest (s.giveBack c) := by
  refine ⟨(h.setUse hc).ticks, fun i job c' hheld hlost => h.holds i job c' hheld ?_⟩
  have hne : c' ≠ c := fun heq => hc i job (heq ▸ Phase.conn_of_held hheld)
  exact (Function.update_of_ne hne ..).symm.trans hlost

omit [DecidableEq ι] in
theorem Inv.setLocks {locks : Locks ℤ (Session ι)} (h : Inv digest s)
    (hl : ∀ i job c, (s.phase i job).held = some c → Holds s.locks (lockKey digest job) c →
      Holds locks (lockKey digest job) c) : Inv digest (s.setLocks locks) :=
  ⟨h.ticks, fun i job c hc hlost => hl i job c hc (h.holds i job c hc hlost)⟩

theorem Inv.begin (h : Inv digest s) (enabled : Bool) (conn : Option ℕ) :
    Inv digest (begin enabled s i job conn) := by
  unfold Scheduler.begin
  split
  · exact h.leave rfl
  · next n hphase =>
    split_ifs
    · exact h.leave rfl
    · split
      · next hfree =>
        have huse : Inv digest (s.setUse (i, n) (.tick job)) :=
          h.setUse (h.unused fun job => by simp [hfree])
        refine huse.setPhase (fun c hc => ?_) fun c hc _ => by cases hc
        obtain rfl := Option.some.inj hc
        exact ⟨rfl, Function.update_self ..⟩
      · exact h
  · exact h

theorem Inv.acquire (h : Inv digest s) (answered : Bool) :
    Inv digest (acquire digest s i job answered) := by
  unfold Scheduler.acquire
  split
  · next c hphase =>
    have hconn : (s.phase i job).conn = some c := by rw [hphase]; rfl
    split_ifs with hanswered
    · have hlocked := h.setLocks fun i' job' c' _ hold =>
        hold.tryLock (k := lockKey digest job) (s := c)
      refine hlocked.setPhase (fun c' hc' => ?_) fun c' hc' _ => ?_
      · have heq : c' = c := by split_ifs at hc' <;> exact (Option.some.inj hc').symm
        exact heq ▸ h.ticks i job c hconn
      · split_ifs at hc' with hgranted
        · obtain rfl := Option.some.inj hc'
          exact holds_of_tryLock hgranted
        · cases hc'
    · exact (h.leave (p := .running none) rfl).giveBack (h.left hconn (by simp [Phase.conn]))
  · exact h

theorem Inv.finish (h : Inv digest s) : Inv digest (finish s i job) := by
  unfold Scheduler.finish
  split
  · exact h.leave rfl
  · next c hphase =>
    have hheld : (s.phase i job).held = some c := by rw [hphase]; rfl
    refine h.setPhase (fun c' hc' => ?_) fun c' hc' hlost => ?_
    · obtain rfl := Option.some.inj hc'
      exact h.ticks i job c (Phase.conn_of_held hheld)
    · obtain rfl := Option.some.inj hc'
      exact h.holds i job c hheld hlost
  · exact h

theorem Inv.release (h : Inv digest s) (answered : Bool) :
    Inv digest (release digest s i job answered) := by
  unfold Scheduler.release
  split
  · next c acquired hphase =>
    have hconn : (s.phase i job).conn = some c := by rw [hphase]; rfl
    have hidle : Inv digest (s.setPhase i job .idle) := h.leave rfl
    have halone := h.left (p := .idle) hconn (by simp [Phase.conn])
    refine Inv.giveBack (s := (s.setPhase i job .idle).setLocks _) (hidle.setLocks ?_) halone
    intro i' job' c' hheld hold
    have hne : c' ≠ c := fun heq => halone i' job' (heq ▸ Phase.conn_of_held hheld)
    split_ifs
    · exact hold.unlock hne
    · exact hold
  · exact h

theorem Inv.cancel (h : Inv digest s) : Inv digest (cancel s i job) := by
  unfold Scheduler.cancel
  split
  · next c hphase =>
    have hconn : (s.phase i job).conn = some c := by rw [hphase]; rfl
    exact (h.leave (p := .idle) rfl).setUse (h.left hconn (by simp [Phase.conn]))
  · have hidle : Inv digest (s.setPhase i job .idle) := h.leave rfl
    exact ⟨hidle.ticks, hidle.holds⟩
  · next c hphase =>
    have hnext : Inv digest (Scheduler.finish s i job) := h.finish
    simp only [Scheduler.finish, hphase] at hnext
    exact ⟨hnext.ticks, hnext.holds⟩
  · exact h

theorem Inv.strayLock (h : Inv digest s) (answered : Bool) :
    Inv digest (strayLock digest s c answered) := by
  unfold Scheduler.strayLock
  split
  · next job hstray =>
    refine Inv.giveBack (s := s.setLocks _) (h.setLocks fun i' job' c' _ hold => ?_)
      (h.unused fun job => by simp [hstray])
    split_ifs
    · exact hold.tryLock
    · exact hold
  · exact h

theorem Inv.close (h : Inv digest s) : Inv digest (close s c) := by
  unfold Scheduler.close
  split
  · next hfree =>
    have halone := h.unused (c := c) fun job => by simp [hfree]
    refine Inv.giveBack (s := s.setLocks _) (h.setLocks fun i job c' hheld hold =>
      holds_drop.2 ⟨hold, ?_⟩) halone
    have hne : c' ≠ c := fun heq => halone i job (heq ▸ Phase.conn_of_held hheld)
    exact decide_eq_false hne
  · exact h

theorem Inv.lose (h : Inv digest s) (c : Session ι) : Inv digest (lose s c) := by
  refine ⟨h.ticks, fun i job c' hheld hlost => ?_⟩
  have hne : c' ≠ c := by
    rintro rfl
    simp [Scheduler.lose] at hlost
  have hold := h.holds i job c' hheld ((Function.update_of_ne hne ..).symm.trans hlost)
  have hkept : Holds (drop (· = c) s.locks) (lockKey digest job) c' :=
    holds_drop.2 ⟨hold, decide_eq_false hne⟩
  exact hkept

theorem crash_phase_of_ne (h : i' ≠ i) : (crash s i).phase i' = s.phase i' :=
  Function.update_of_ne h ..

theorem crash_conn (hc : ((crash s i).phase i' job).conn = some c) :
    i' ≠ i ∧ (s.phase i' job).conn = some c := by
  by_cases hi : i' = i
  · subst hi
    simp [crash, Phase.conn] at hc
  · rw [crash_phase_of_ne hi] at hc
    exact ⟨hi, hc⟩

theorem Inv.crash (h : Inv digest s) : Inv digest (crash s i) := by
  constructor
  · intro i' job c hc
    obtain ⟨hi, hconn⟩ := crash_conn hc
    obtain ⟨rfl, huse⟩ := h.ticks i' job c hconn
    exact ⟨rfl, (if_neg hi).trans huse⟩
  · intro i' job c hheld hlost
    obtain ⟨hi, hconn⟩ := crash_conn (Phase.conn_of_held hheld)
    rw [crash_phase_of_ne hi] at hheld
    have hc : c.1 ≠ i := (h.ticks i' job c hconn).1 ▸ hi
    have hkept : Holds (drop (·.1 = i) s.locks) (lockKey digest job) c :=
      holds_drop.2 ⟨h.holds i' job c hheld ((if_neg hc).symm.trans hlost), decide_eq_false hc⟩
    exact hkept

theorem inv_step (h : Inv digest s) (enabled : Bool) (a : Input ι) :
    Inv digest (step enabled digest s a) := by
  cases a with
  | begin i job conn => exact h.begin enabled conn
  | tryLock i job answered => exact h.acquire answered
  | finish i job => exact h.finish
  | release i job answered => exact h.release answered
  | cancel i job => exact h.cancel
  | strayLock c answered => exact h.strayLock answered
  | orphanEnds n => exact ⟨h.ticks, h.holds⟩
  | close c => exact h.close
  | lose c => exact h.lose c
  | crash i => exact h.crash

theorem inv_run (h : Inv digest s) (enabled : Bool) (as : List (Input ι)) :
    Inv digest (final (step enabled digest) s as) := by
  induction as generalizing s with
  | nil => exact h
  | cons a as ih => exact ih (inv_step h enabled a)

/-- Whatever instances do and whatever fails, two instances sweep a job at once only where one of
the sweeps runs without the lock, because its tick failed open, lost its session or was
cancelled. -/
theorem sweeps_exclusive (enabled : Bool) (digest : String → ℤ) (as : List (Input ι)) {i i' : ι}
    {job : Job} (hne : i ≠ i') (hi : Sweeping (final (step enabled digest) .initial as) i job)
    (hi' : Sweeping (final (step enabled digest) .initial as) i' job) :
    Unguarded (final (step enabled digest) .initial as) i job ∨
      Unguarded (final (step enabled digest) .initial as) i' job := by
  have h : Inv digest (final (step enabled digest) (State.initial : State ι) as) :=
    inv_run inv_initial enabled as
  generalize final (step enabled digest) State.initial as = s at h hi hi'
  rcases hi with ⟨_ | c, hrun⟩ | horphan
  · exact .inl (.inl hrun)
  · rcases hi' with ⟨_ | c', hrun'⟩ | horphan'
    · exact .inr (.inl hrun')
    · have hheld : (s.phase i job).held = some c := by rw [hrun]; rfl
      have hheld' : (s.phase i' job).held = some c' := by rw [hrun']; rfl
      cases hlost : s.lost c with
      | true => exact .inl (.inr (.inl ⟨c, hrun, hlost⟩))
      | false =>
        cases hlost' : s.lost c' with
        | true => exact .inr (.inr (.inl ⟨c', hrun', hlost'⟩))
        | false =>
          obtain rfl := (h.holds i job c hheld hlost).unique (h.holds i' job c' hheld' hlost')
          have hi := (h.ticks i job c (Phase.conn_of_held hheld)).1
          have hi' := (h.ticks i' job c (Phase.conn_of_held hheld')).1
          exact absurd (hi.symm.trans hi') hne
    · exact .inr (.inr (.inr horphan'))
  · exact .inl (.inr (.inr horphan))

/-! ## Orderly runs -/

/-- No scheduler stops in the middle of a tick, no session is lost, and every release gets
through. -/
def Orderly : Input ι → Prop
  | .cancel _ _ => False
  | .lose _ => False
  | .release _ _ answered => answered = true
  | _ => True

/-- What is locked is locked once, for a tick that has it. -/
structure Backed (digest : String → ℤ) (s : State ι) : Prop where
  once : ∀ k c n, s.locks k = some (c, n) → n = 0
  held : ∀ k c, Holds s.locks k c →
    ∃ job, lockKey digest job = k ∧ (s.phase c.1 job).held = some c
  calm : ∀ c job, s.pool c ≠ .stray job
  alive : ∀ c, s.lost c = false

omit [DecidableEq ι] in
theorem backed_initial : Backed digest (State.initial : State ι) where
  once _ _ _ h := by cases h
  held _ _ h := by obtain ⟨n, hn⟩ := h; cases hn
  calm _ _ h := by cases h
  alive _ := rfl

theorem Backed.setPhase {p : Phase ι} (h : Backed digest s)
    (hp : p.held = (s.phase i job).held) : Backed digest (s.setPhase i job p) := by
  refine ⟨h.once, fun k c hc => ?_, h.calm, h.alive⟩
  obtain ⟨job', hkey, hheld⟩ := h.held k c hc
  refine ⟨job', hkey, ?_⟩
  by_cases hslot : c.1 = i ∧ job' = job
  · obtain ⟨rfl, rfl⟩ := hslot
    rw [setPhase_self, hp, hheld]
  · rw [setPhase_of_ne hslot, hheld]

theorem Backed.setUse {u : Use} (h : Backed digest s) (hu : ∀ job, u ≠ .stray job) :
    Backed digest (s.setUse c u) := by
  refine ⟨h.once, h.held, fun c' job => ?_, h.alive⟩
  by_cases hc : c' = c
  · subst hc
    simpa only [State.setUse, Function.update_self] using hu job
  · simpa only [State.setUse, Function.update_of_ne hc] using h.calm c' job

theorem lost_giveBack (h : ∀ c, s.lost c = false) (c' : Session ι) :
    (s.giveBack c).lost c' = false := by
  dsimp only [State.giveBack]
  rw [Function.update_apply]
  split_ifs
  · rfl
  · exact h c'

theorem Backed.giveBack (h : Backed digest s) (c : Session ι) : Backed digest (s.giveBack c) := by
  have huse : Backed digest (s.setUse c .free) := h.setUse (by simp)
  exact ⟨huse.once, huse.held, huse.calm, lost_giveBack h.alive⟩

omit [DecidableEq ι] in
theorem Backed.drop (h : Backed digest s) (ended : Session ι → Bool)
    (next : State ι) (hlocks : next.locks = drop ended s.locks)
    (hphase : ∀ c job, ended c = false → next.phase c.1 job = s.phase c.1 job)
    (hcalm : ∀ c job, next.pool c ≠ .stray job) (halive : ∀ c, next.lost c = false) :
    Backed digest next := by
  refine ⟨fun k c n hk => ?_, fun k c hk => ?_, hcalm, halive⟩
  · rw [hlocks, drop_eq_some] at hk
    exact h.once k c n hk.1
  · rw [hlocks, holds_drop] at hk
    obtain ⟨job, hkey, hheld⟩ := h.held k c hk.1
    exact ⟨job, hkey, (hphase c job hk.2).symm ▸ hheld⟩

omit [DecidableEq ι] in
theorem Backed.not_holds (h : Backed digest s) (hinv : Inv digest s)
    (hphase : s.phase i job = .connected c) (k : ℤ) : ¬Holds s.locks k c := by
  intro hk
  obtain ⟨job', -, hheld⟩ := h.held k c hk
  have hconn : (s.phase i job).conn = some c := by rw [hphase]; rfl
  obtain ⟨hi, rfl⟩ := hinv.slot hconn (Phase.conn_of_held hheld)
  rw [hi, hphase] at hheld
  cases hheld

theorem Backed.take (h : Backed digest s) (hfree : s.locks (lockKey digest job) = none)
    (hnone : (s.phase i job).held = none) (hi : c.1 = i) :
    Backed digest ((s.setLocks (Function.update s.locks (lockKey digest job)
      (some (c, 0)))).setPhase i job (.running (some c))) := by
  have hcases : ∀ k c' n, Function.update s.locks (lockKey digest job) (some (c, 0)) k =
      some (c', n) → (k = lockKey digest job ∧ c' = c ∧ n = 0) ∨ s.locks k = some (c', n) := by
    intro k c' n hk
    by_cases hkey : k = lockKey digest job
    · subst hkey
      rw [Function.update_self] at hk
      obtain ⟨hc, hn⟩ := Prod.mk.inj (Option.some.inj hk)
      exact .inl ⟨rfl, hc.symm, hn.symm⟩
    · rw [Function.update_of_ne hkey] at hk
      exact .inr hk
  refine ⟨fun k c' n hk => ?_, ?_, h.calm, h.alive⟩
  · rcases hcases k c' n hk with ⟨-, -, hn⟩ | hold
    · exact hn
    · exact h.once k c' n hold
  · rintro k c' ⟨n, hk⟩
    rcases hcases k c' n hk with ⟨rfl, rfl, -⟩ | hold
    · exact ⟨job, rfl, by rw [hi, setPhase_self]; rfl⟩
    · obtain ⟨job', hkey, hheld⟩ := h.held k c' ⟨n, hold⟩
      have hslot : ¬(c'.1 = i ∧ job' = job) := by
        rintro ⟨rfl, rfl⟩
        rw [hheld] at hnone
        cases hnone
      exact ⟨job', hkey, by rw [setPhase_of_ne hslot]; exact hheld⟩

/-- A tick that has the lock for a job is the only one, and who asks after it is refused. -/
theorem acquire_eq (h : Backed digest s) (hinv : Inv digest s)
    (hphase : s.phase i job = .connected c) :
    (s.locks (lockKey digest job) = none ∧ acquire digest s i job true =
      (s.setLocks (Function.update s.locks (lockKey digest job) (some (c, 0)))).setPhase i job
        (.running (some c))) ∨
    ((∃ t, Holds s.locks (lockKey digest job) t) ∧ acquire digest s i job true =
      s.setPhase i job (.releasing c false)) := by
  simp only [acquire, hphase, h.alive c, Bool.not_false, Bool.and_self, if_true]
  cases hk : s.locks (lockKey digest job) with
  | none => exact .inl ⟨rfl, by rw [tryLock_free hk, if_pos rfl]⟩
  | some x =>
    have hholds : Holds s.locks (lockKey digest job) x.1 := ⟨x.2, hk⟩
    have hne : x.1 ≠ c := fun heq => h.not_holds hinv hphase _ (heq ▸ hholds)
    refine .inr ⟨⟨x.1, hholds⟩, ?_⟩
    rw [tryLock_refused hholds hne, if_neg Bool.false_ne_true]
    rfl

theorem Backed.acquire (h : Backed digest s) (hinv : Inv digest s) (answered : Bool) :
    Backed digest (acquire digest s i job answered) := by
  cases hphase : s.phase i job with
  | connected c =>
    have hnone : (s.phase i job).held = none := by rw [hphase]; rfl
    have hconn : (s.phase i job).conn = some c := by rw [hphase]; rfl
    cases answered with
    | true =>
      rcases acquire_eq h hinv hphase with ⟨hfree, heq⟩ | ⟨-, heq⟩
      · exact heq ▸ h.take hfree hnone (hinv.ticks i job c hconn).1
      · exact heq ▸ h.setPhase hnone.symm
    | false =>
      simp only [Scheduler.acquire, hphase, Bool.false_and, Bool.false_eq_true, if_false]
      exact (h.giveBack c).setPhase hnone.symm
  | _ => simpa only [Scheduler.acquire, hphase] using h

theorem Backed.release (h : Backed digest s) :
    Backed digest (release digest s i job true) := by
  unfold Scheduler.release
  split
  · next c acquired hphase =>
    have hconn : (s.phase i job).conn = some c := by rw [hphase]; rfl
    rw [if_pos (by rw [h.alive c]; rfl)]
    refine ⟨fun k c' n hk => ?_, fun k c' hk => ?_, (h.giveBack c).calm, (h.giveBack c).alive⟩
    · exact h.once k c' n ((unlock_eq_some h.once).1 hk).1
    · obtain ⟨n, hn⟩ := hk
      obtain ⟨hold, hother⟩ := (unlock_eq_some h.once).1 hn
      obtain ⟨job', hkey, hheld⟩ := h.held k c' ⟨n, hold⟩
      have hslot : ¬(c'.1 = i ∧ job' = job) := by
        rintro ⟨hi, rfl⟩
        have hcc := Phase.conn_of_held hheld
        rw [hi, hconn] at hcc
        exact hother ⟨hkey.symm, (Option.some.inj hcc).symm⟩
      exact ⟨job', hkey, by rw [setPhase_of_ne hslot]; exact hheld⟩
  · exact h

theorem backed_step (h : Backed digest s) (hinv : Inv digest s) (enabled : Bool) {a : Input ι}
    (ha : Orderly a) : Backed digest (step enabled digest s a) := by
  cases a with
  | begin i job conn =>
    simp only [step, begin]
    split
    · next hphase => exact h.setPhase (by rw [hphase]; rfl)
    · next n hphase =>
      split_ifs
      · exact h.setPhase (by rw [hphase]; rfl)
      · split
        · exact (h.setUse (by simp)).setPhase (by simp only [State.setUse, hphase]; rfl)
        · exact h
    · exact h
  | tryLock i job answered => exact h.acquire hinv answered
  | finish i job =>
    simp only [step, finish]
    split
    · next hphase => exact h.setPhase (by rw [hphase]; rfl)
    · next hphase => exact h.setPhase (by rw [hphase]; rfl)
    · exact h
  | release i job answered =>
    obtain rfl : answered = true := ha
    exact h.release
  | cancel i job => exact ha.elim
  | lose c => exact ha.elim
  | strayLock c answered =>
    simp only [step, strayLock]
    split
    · next job hstray => exact absurd hstray (h.calm c job)
    · exact h
  | orphanEnds n => exact ⟨h.once, h.held, h.calm, h.alive⟩
  | close c =>
    simp only [step, close]
    split
    · exact h.drop (· = c) _ rfl (fun _ _ _ => rfl) (h.giveBack c).calm (h.giveBack c).alive
    · exact h
  | crash i =>
    refine h.drop (·.1 = i) _ rfl (fun c job hc => ?_) (fun c job => ?_) fun c => ?_
    · exact congrFun (crash_phase_of_ne (of_decide_eq_false hc)) job
    · change (if c.1 = i then Use.free else s.pool c) ≠ _
      split_ifs
      · simp
      · exact h.calm c job
    · change (if c.1 = i then false else s.lost c) = false
      rw [h.alive c, ite_self]

theorem backed_run (h : Backed digest s) (hinv : Inv digest s) (enabled : Bool)
    {as : List (Input ι)} (has : ∀ a ∈ as, Orderly a) :
    Backed digest (final (step enabled digest) s as) := by
  induction as generalizing s with
  | nil => exact h
  | cons a as ih =>
    rw [List.forall_mem_cons] at has
    exact ih (backed_step h hinv enabled has.1) (inv_step hinv enabled a) has.2

omit [DecidableEq ι] in
theorem Backed.held_iff (h : Backed digest s) (hinv : Inv digest s)
    (hkeys : ∀ job job', lockKey digest job = lockKey digest job' → job = job') :
    (∃ t, Holds s.locks (lockKey digest job) t) ↔
      ∃ i', (s.phase i' job).held.isSome = true := by
  constructor
  · rintro ⟨t, ht⟩
    obtain ⟨job', hkey, hheld⟩ := h.held _ t ht
    obtain rfl := hkeys job' job hkey
    exact ⟨t.1, by rw [hheld]; rfl⟩
  · rintro ⟨i', hi'⟩
    obtain ⟨t, ht⟩ := Option.isSome_iff_exists.1 hi'
    exact ⟨t, hinv.holds i' job t ht (h.alive t)⟩

/-- In orderly runs no sweep is dropped: a tick that asks for the lock skips if another instance has
it for the same job, and sweeps otherwise. -/
theorem sweeps_unless_held (enabled : Bool) {digest : String → ℤ}
    (hkeys : ∀ job job', lockKey digest job = lockKey digest job' → job = job')
    {as : List (Input ι)} (has : ∀ a ∈ as, Orderly a) {i : ι} {job : Job} {c : Session ι}
    (hphase : (final (step enabled digest) .initial as).phase i job = .connected c) :
    let s := final (step enabled digest) .initial as
    let s' := step enabled digest s (.tryLock i job true)
    ((∃ i', i' ≠ i ∧ (s.phase i' job).held.isSome = true) ∧
        s'.phase i job = .releasing c false) ∨
      ((∀ i', (s.phase i' job).held = none) ∧ s'.phase i job = .running (some c)) := by
  intro s s'
  have hinv : Inv digest s := inv_run inv_initial enabled as
  have hbacked : Backed digest s := backed_run backed_initial inv_initial enabled has
  have hs' : s' = acquire digest s i job true := rfl
  rcases acquire_eq hbacked hinv hphase with ⟨hfree, heq⟩ | ⟨hheld, heq⟩
  · refine .inr ⟨fun i' => ?_, by rw [hs', heq, setPhase_self]⟩
    rw [← Option.not_isSome_iff_eq_none]
    intro hsome
    obtain ⟨t, n, hn⟩ := (hbacked.held_iff hinv hkeys).2 ⟨i', hsome⟩
    rw [hfree] at hn
    cases hn
  · obtain ⟨i', hi'⟩ := (hbacked.held_iff hinv hkeys).1 hheld
    refine .inl ⟨⟨i', ?_, hi'⟩, by rw [hs', heq, setPhase_self]⟩
    rintro rfl
    rw [show s.phase i' job = .connected c from hphase] at hi'
    cases hi'

/-! ## Two instances -/

def jobDigest (s : String) : ℤ :=
  if s = "varsten.scheduler:drift-sweep" then 6744439249202567114
  else if s = "varsten.scheduler:batch-poll" then 6796059936348513441
  else if s = "varsten.scheduler:cache-purge" then 3493090240710095346
  else if s = "varsten.scheduler:alert-sweep" then -6472216557818978091
  else if s = "varsten.scheduler:trial-sweep" then -4208863723875147730
  else if s = "varsten.scheduler:learning-promotion" then -4820806597627001977
  else 0

theorem jobDigest_keys (job job' : Job) (h : lockKey jobDigest job = lockKey jobDigest job') :
    job = job' := by
  cases job <;> cases job' <;> first | rfl | exact absurd h (by decide +kernel)

def sweepOfFirst : List (Input ℕ) :=
  [.begin 0 .driftSweep (some 0), .tryLock 0 .driftSweep true]

/-- The database refuses the second instance a connection. -/
theorem second_failed_open :
    Unguarded (final (step true jobDigest) .initial
        (sweepOfFirst ++ [.begin 1 .driftSweep none])) 0 .driftSweep ∨
      Unguarded (final (step true jobDigest) .initial
        (sweepOfFirst ++ [.begin 1 .driftSweep none])) 1 .driftSweep :=
  sweeps_exclusive true jobDigest _ (by decide) (.inl ⟨some (0, 0), by decide +kernel⟩)
    (.inl ⟨none, by decide +kernel⟩)

def secondAsks : List (Input ℕ) := sweepOfFirst ++ [.begin 1 .driftSweep (some 0)]

theorem second_skips :
    (step true jobDigest (final (step true jobDigest) .initial secondAsks)
      (.tryLock 1 .driftSweep true)).phase 1 .driftSweep = .releasing (1, 0) false := by
  have horderly : ∀ a ∈ secondAsks, Orderly a := by simp [secondAsks, sweepOfFirst, Orderly]
  have hasks : (final (step true jobDigest) .initial secondAsks).phase 1 .driftSweep =
      .connected (1, 0) := by decide +kernel
  rcases sweeps_unless_held true jobDigest_keys horderly hasks with ⟨-, h⟩ | ⟨h, -⟩
  · exact h
  · exact absurd (h 0) (by decide +kernel)

end Varsten.Core.Scheduler
