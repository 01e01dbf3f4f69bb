import Varsten.Machine.Runs
import Varsten.Proxy.BatchUsage

/-!
# Batch jobs

The row of one submitted job, its rows in the ledger, and attempts to sync it, any number at once.
An attempt works on its copy of the job until it commits, and writes each model's ledger row with a
commit of its own before the last one finalizes the job. An attempt that raises is gone.
-/

namespace Varsten.Proxy.BatchJobs

open BatchUsage (ByModel addRow parseOutputUsage setTally)
open Machine.Runs (steps final)
open Python (Json Py)
open Python.Utf8 (Bytes Text)

inductive Status where
  | created
  | submitted
  | inProgress
  | completed
  | finalized
  | failed
  | cancelled
  | expired
deriving DecidableEq

/-- `ACTIVE_STATUSES`. -/
def Status.isActive : Status → Bool
  | .submitted | .inProgress | .completed => true
  | _ => false

/-- `_STATUS_MAP.get(provider_status, status)`. -/
def statusOf (providerStatus : String) (status : Status) : Status :=
  match providerStatus with
  | "validating" | "in_progress" | "finalizing" | "cancelling" => .inProgress
  | "completed" => .completed
  | "failed" => .failed
  | "expired" => .expired
  | "cancelled" => .cancelled
  | _ => status

structure Job where
  status : Status
  outputFile : Option String

/-- What the provider keeps under a file id. -/
structure Provider where
  loads : Text → Option Json
  content : String → Bytes

/-- The models of an output file, in the order in which their rows are written. -/
def Provider.models (p : Provider) (file : String) : Py (List Json) := do
  return (← parseOutputUsage p.loads (p.content file)).1.map (·.1)

/-- What an attempt does next: ask the provider with its copy of the job; look at the row again;
download and stage the output; write the ledger rows that are left, and finalize. -/
inductive Phase where
  | loaded (copy : Job)
  | polled
  | finalizing (file : String)
  | measuring (models : List Json)

structure State where
  job : Job
  rows : List Json
  attempts : ℕ → Option Phase

/-- A response of the provider is its status and its output file; `none` is an exception, also of
the commit after it. -/
inductive Input where
  | start (r : ℕ)
  | respond (r : ℕ) (response : Option (String × Option String))
  | proceed (r : ℕ) (ok : Bool)

def written {α : Type} [DecidableEq α] (copy new row : α) : α := if new = copy then row else new

def described (copy : Job) (response : String × Option String) : Job :=
  ⟨statusOf response.1 copy.status, (response.2.filter (· ≠ "")).or copy.outputFile⟩

def poll (job copy : Job) (response : String × Option String) : Job :=
  let new := described copy response
  ⟨written copy.status new.status job.status, written copy.outputFile new.outputFile job.outputFile⟩

section Steps

variable (p : Provider)

def advance (job : Job) (rows : List Json) : Phase → Job × List Json × Option Phase
  | .loaded copy => (job, rows, some (.loaded copy))
  | .polled =>
    match job.status, job.outputFile.filter (· ≠ "") with
    | .completed, some file => (job, rows, some (.finalizing file))
    | _, _ => (job, rows, none)
  | .finalizing file =>
    match p.models file with
    | .ok models => (job, rows, some (.measuring models))
    | .error _ => (job, rows, none)
  | .measuring (m :: models) => (job, rows ++ [m], some (.measuring models))
  | .measuring [] => ({ job with status := .finalized }, rows, none)

def State.setAttempt (s : State) (r : ℕ) (phase : Option Phase) : State :=
  { s with attempts := Function.update s.attempts r phase }

def step (s : State) : Input → State
  | .start r =>
    if (s.attempts r).isSome ∨ s.job.status = .finalized ∨ s.job.status = .failed then s
    else s.setAttempt r (some (.loaded s.job))
  | .respond r response =>
    match s.attempts r, response with
    | some (.loaded copy), some response =>
      { s.setAttempt r (some .polled) with job := poll s.job copy response }
    | some (.loaded _), none => s.setAttempt r none
    | _, _ => s
  | .proceed r ok =>
    match s.attempts r with
    | none => s
    | some phase =>
      if ok then
        let next := advance p s.job s.rows phase
        ⟨next.1, next.2.1, Function.update s.attempts r next.2.2⟩
      else s.setAttempt r none

/-- A job that the provider has accepted and nobody has synced. -/
def initial (providerStatus : String) : State :=
  ⟨⟨statusOf providerStatus .submitted, none⟩, [], fun _ => none⟩

def Metered (s : State) (file : String) : Prop := p.models file = .ok s.rows

/-- No model has two rows; a finalized job has one for each model of its output; and the output of a
job that is no longer active is metered. -/
structure MeteredOnce (s : State) : Prop where
  once : s.rows.Nodup
  finalized : s.job.status = .finalized → ∃ file, s.job.outputFile = some file ∧ Metered p s file
  left : s.job.status.isActive = false → ∀ file, s.job.outputFile = some file → Metered p s file

/-- One attempt at a time, none that raises behind its first row, and no output file with a job that
ends without completing. -/
def Orderly (s : State) : Input → Prop
  | .start _ => ∀ r, s.attempts r = none
  | .respond r response => ∀ copy x, s.attempts r = some (.loaded copy) → response = some x →
      (described copy x).status.isActive = false → (described copy x).outputFile = none
  | .proceed r ok => ok = false → ∀ models, s.attempts r = some (.measuring models) → s.rows = []

end Steps

/-! ## The models of a file -/

theorem keys_setTally (key : Json) (tally : BatchUsage.Tally) {acc : ByModel}
    (h : (acc.map (·.1)).Nodup) : ((setTally key tally acc).map (·.1)).Nodup ∧
      ∀ k ∈ (setTally key tally acc).map (·.1), k = key ∨ k ∈ acc.map (·.1) := by
  induction acc with
  | nil => simp [setTally]
  | cons m acc ih =>
    rw [List.map_cons, List.nodup_cons] at h
    rw [setTally]
    split_ifs with hk
    · rw [List.map_cons, List.nodup_cons, ← hk]
      exact ⟨h, fun k hin => .inr hin⟩
    · obtain ⟨hnodup, hkeys⟩ := ih h.2
      rw [List.map_cons, List.nodup_cons]
      refine ⟨⟨fun hin => ?_, hnodup⟩, fun k hin => ?_⟩
      · rcases hkeys _ hin with he | hin
        · exact hk he
        · exact h.1 hin
      · rcases List.mem_cons.1 hin with rfl | hin
        · exact .inr List.mem_cons_self
        · rcases hkeys k hin with rfl | hin
          · exact .inl rfl
          · exact .inr (List.mem_cons_of_mem _ hin)

theorem keys_addRow {acc acc' : ByModel × ℕ} {row : Json} (h : (acc.1.map (·.1)).Nodup)
    (hrow : addRow acc row = .ok acc') : (acc'.1.map (·.1)).Nodup := by
  obtain ⟨response, -, hrow⟩ := Py.bind_eq_ok.1 hrow
  obtain ⟨body, -, hrow⟩ := Py.bind_eq_ok.1 hrow
  obtain ⟨usage, -, hrow⟩ := Py.bind_eq_ok.1 hrow
  obtain ⟨model, -, hrow⟩ := Py.bind_eq_ok.1 hrow
  split at hrow
  · obtain rfl := Except.ok.inj hrow
    exact h
  · obtain ⟨key, -, hrow⟩ := Py.bind_eq_ok.1 hrow
    obtain ⟨prompt, -, hrow⟩ := Py.bind_eq_ok.1 hrow
    obtain ⟨input, -, hrow⟩ := Py.bind_eq_ok.1 hrow
    obtain ⟨completion, -, hrow⟩ := Py.bind_eq_ok.1 hrow
    obtain ⟨output, -, hrow⟩ := Py.bind_eq_ok.1 hrow
    obtain rfl := Except.ok.inj hrow
    exact (keys_setTally _ _ h).1

theorem nodup_models {p : Provider} {file : String} {models : List Json}
    (h : p.models file = .ok models) : models.Nodup := by
  obtain ⟨acc, hacc, h⟩ := Py.bind_eq_ok.1 h
  obtain rfl := Except.ok.inj h
  exact Py.foldlM_simulates (R := fun acc (_ : Unit) => (acc.1.map (·.1)).Nodup)
    (g := fun _ _ => ()) (c := ()) keys_addRow List.nodup_nil hacc

/-! ## One attempt at a time -/

section Attempts

variable {p : Provider} {job job' : Job} {rows rows' : List Json} {phase : Phase}

def Quiet (job : Job) : Prop :=
  job.status.isActive = false → job.status ≠ .finalized → job.outputFile = none

def Consistent (p : Provider) (job : Job) (rows : List Json) : Option Phase → Prop
  | none => Quiet job ∧ (job.status ≠ .finalized → rows = []) ∧ (job.status = .finalized →
      ∃ file, job.outputFile = some file ∧ p.models file = .ok rows)
  | some (.loaded copy) => copy = job ∧ Quiet job ∧ job.status ≠ .finalized ∧ rows = []
  | some .polled => Quiet job ∧ job.status ≠ .finalized ∧ rows = []
  | some (.finalizing file) =>
    job.status = .completed ∧ job.outputFile = some file ∧ rows = []
  | some (.measuring models) => job.status = .completed ∧ ∃ file, job.outputFile = some file ∧
      p.models file = .ok (rows ++ models)

theorem consistent_gone (hs : job.status ≠ .finalized) (hq : Quiet job) (hrows : rows = []) :
    Consistent p job rows none :=
  ⟨hq, fun _ => hrows, fun h => absurd h hs⟩

theorem quiet_of_completed (h : job.status = .completed) : Quiet job := by
  intro hactive
  rw [h] at hactive
  exact absurd hactive (by decide)

theorem ne_finalized_of_completed (h : job.status = .completed) : job.status ≠ .finalized := by
  rw [h]
  decide

theorem statusOf_ne_finalized {ps : String} {status : Status} (h : status ≠ .finalized) :
    statusOf ps status ≠ .finalized := by
  unfold statusOf
  split <;> first | decide | exact h

theorem poll_self (x : String × Option String) : poll job job x = described job x := by
  unfold poll written described
  dsimp only
  split_ifs with h₁ h₂ h₂ <;> simp_all

theorem consistent_raise (h : Consistent p job rows (some phase))
    (hx : ∀ models, phase = .measuring models → rows = []) : Consistent p job rows none := by
  cases phase with
  | loaded copy => exact consistent_gone h.2.2.1 h.2.1 h.2.2.2
  | polled => exact consistent_gone h.2.1 h.1 h.2.2
  | finalizing file =>
    exact consistent_gone (ne_finalized_of_completed h.1) (quiet_of_completed h.1) h.2.2
  | measuring models =>
    exact consistent_gone (ne_finalized_of_completed h.1) (quiet_of_completed h.1) (hx models rfl)

theorem consistent_poll {copy : Job} {x : String × Option String}
    (h : Consistent p job rows (some (.loaded copy)))
    (hx : (described copy x).status.isActive = false → (described copy x).outputFile = none) :
    Consistent p (poll job copy x) rows (some .polled) := by
  obtain ⟨rfl, -, hs, hrows⟩ := h
  rw [poll_self]
  exact ⟨fun hactive _ => hx hactive, statusOf_ne_finalized hs, hrows⟩

theorem consistent_advance (h : Consistent p job rows (some phase)) :
    Consistent p (advance p job rows phase).1 (advance p job rows phase).2.1
      (advance p job rows phase).2.2 := by
  cases phase with
  | loaded copy => exact h
  | polled =>
    dsimp only [advance]
    split
    · next file hs hf =>
      exact ⟨hs, (Option.filter_eq_some_iff.1 hf).1, h.2.2⟩
    · exact consistent_gone h.2.1 h.1 h.2.2
  | finalizing file =>
    obtain ⟨hs, hf, hrows⟩ := h
    dsimp only [advance]
    split
    · next models hm =>
      refine ⟨hs, file, hf, ?_⟩
      rw [hrows, List.nil_append]
      exact hm
    · exact consistent_gone (ne_finalized_of_completed hs) (quiet_of_completed hs) hrows
  | measuring models =>
    obtain ⟨hs, file, hf, hm⟩ := h
    cases models with
    | cons m models =>
      refine ⟨hs, file, hf, ?_⟩
      rw [advance, List.append_assoc]
      exact hm
    | nil =>
      rw [List.append_nil] at hm
      exact ⟨fun _ hne => absurd rfl hne, fun hne => absurd rfl hne, fun _ => ⟨file, hf, hm⟩⟩

end Attempts

/-! ## Whole runs -/

section Runs

variable {p : Provider} {s : State}

def single : Option (ℕ × Phase) → ℕ → Option Phase
  | none => fun _ => none
  | some x => Function.update (fun _ => none) x.1 (some x.2)

/-- At most one attempt is on its way, and the job and its rows are consistent with it. -/
def Inv (p : Provider) (s : State) : Prop :=
  ∃ x, s.attempts = single x ∧ Consistent p s.job s.rows (x.map (·.2))

theorem single_eq {x : Option (ℕ × Phase)} {r : ℕ} {phase : Phase}
    (h : single x r = some phase) : x = some (r, phase) := by
  cases x with
  | none => exact absurd h (by simp [single])
  | some x =>
    by_cases hr : r = x.1
    · rw [hr, single, Function.update_self, Option.some.injEq] at h
      rw [hr, ← h]
    · rw [single, Function.update_of_ne hr] at h
      exact absurd h (by simp)

theorem single_idle {x : Option (ℕ × Phase)} (h : ∀ r, single x r = none) : x = none := by
  cases x with
  | none => rfl
  | some x => exact absurd (h x.1) (by simp [single])

theorem inv_next {r : ℕ} {phase : Phase} {next : Option Phase} {job : Job} {rows : List Json}
    (h : s.attempts = single (some (r, phase))) (hc : Consistent p job rows next) :
    Inv p ⟨job, rows, Function.update s.attempts r next⟩ := by
  refine ⟨next.map (r, ·), ?_, ?_⟩
  · rw [h]
    cases next with
    | none => simp [single]
    | some phase => simp [single]
  · cases next <;> exact hc

theorem inv_start (h : Inv p s) {r : ℕ} (hx : ∀ r, s.attempts r = none) :
    Inv p (step p s (.start r)) := by
  obtain ⟨x, hattempts, hc⟩ := h
  obtain rfl : x = none := single_idle fun r => hattempts ▸ hx r
  rw [step]
  split_ifs with hgone
  · exact ⟨none, hattempts, hc⟩
  · rw [not_or, not_or] at hgone
    refine ⟨some (r, .loaded s.job), ?_, rfl, hc.1, hgone.2.1, hc.2.1 hgone.2.1⟩
    simp only [State.setAttempt, hattempts, single]

theorem inv_step (h : Inv p s) {i : Input} (hx : Orderly s i) : Inv p (step p s i) := by
  cases i with
  | start r => exact inv_start h hx
  | respond r response =>
    rw [step.eq_def]
    dsimp only
    split
    · next _ copy x hr =>
      obtain ⟨y, hattempts, hc⟩ := h
      obtain rfl := single_eq (hattempts ▸ hr)
      exact inv_next hattempts (consistent_poll hc (hx copy x hr rfl))
    · next _ copy hr =>
      obtain ⟨y, hattempts, hc⟩ := h
      obtain rfl := single_eq (hattempts ▸ hr)
      exact inv_next hattempts (consistent_raise hc (by simp))
    · exact h
  | proceed r ok =>
    rw [step.eq_def]
    dsimp only
    split
    · exact h
    · next phase hr =>
      obtain ⟨y, hattempts, hc⟩ := h
      obtain rfl := single_eq (hattempts ▸ hr)
      split_ifs with hok
      · exact inv_next hattempts (consistent_advance hc)
      · refine inv_next hattempts (consistent_raise hc fun models hp => ?_)
        exact hx (Bool.eq_false_iff.2 hok) models (hp ▸ hr)

theorem inv_initial (providerStatus : String) : Inv p (initial providerStatus) :=
  ⟨none, rfl, fun _ _ => rfl, fun _ => rfl, fun h =>
    absurd h (statusOf_ne_finalized (by decide))⟩

theorem consistent_once {job : Job} {rows : List Json} {phase : Option Phase}
    (h : Consistent p job rows phase) :
    rows.Nodup ∧ Quiet job ∧ (job.status = .finalized →
      ∃ file, job.outputFile = some file ∧ p.models file = .ok rows) := by
  have hempty : ∀ {rows : List Json}, rows = [] → rows.Nodup := by
    rintro _ rfl
    exact List.nodup_nil
  cases phase with
  | none =>
    refine ⟨?_, h.1, h.2.2⟩
    by_cases hs : job.status = .finalized
    · obtain ⟨file, -, hm⟩ := h.2.2 hs
      exact nodup_models hm
    · exact hempty (h.2.1 hs)
  | some phase =>
    cases phase with
    | loaded copy => exact ⟨hempty h.2.2.2, h.2.1, fun hs => absurd hs h.2.2.1⟩
    | polled => exact ⟨hempty h.2.2, h.1, fun hs => absurd hs h.2.1⟩
    | finalizing file =>
      exact ⟨hempty h.2.2, quiet_of_completed h.1,
        fun hs => absurd hs (ne_finalized_of_completed h.1)⟩
    | measuring models =>
      obtain ⟨hs, file, hf, hm⟩ := h
      exact ⟨(nodup_models hm).of_append_left, quiet_of_completed hs,
        fun hd => absurd hd (ne_finalized_of_completed hs)⟩

theorem meteredOnce_of_inv (h : Inv p s) : MeteredOnce p s := by
  obtain ⟨x, -, hc⟩ := h
  obtain ⟨honce, hquiet, hfinal⟩ := consistent_once hc
  refine ⟨honce, hfinal, fun hactive file hfile => ?_⟩
  by_cases hs : s.job.status = .finalized
  · obtain ⟨file', hfile', hm⟩ := hfinal hs
    obtain rfl := Option.some.inj (hfile.symm.trans hfile')
    exact hm
  · rw [hquiet hactive hs] at hfile
    exact absurd hfile (by simp)

/-- In an orderly run the output of a job is metered once. -/
theorem orderly_run_metered_once {providerStatus : String} {inputs : List Input}
    (h : ∀ x ∈ steps (step p) (initial providerStatus) inputs, Orderly x.1 x.2) :
    MeteredOnce p (final (step p) (initial providerStatus) inputs) :=
  meteredOnce_of_inv (@Machine.Runs.history _ _ _ (fun _ s => Inv p s) _
    (fun _ _ _ hx hs => inv_step hs hx) _ _ [] (inv_initial providerStatus) h)

end Runs

/-! ## A job of two models -/

def outputRow (model : String) : Json :=
  .obj [("response", .obj [("body", .obj [("model", .str model),
    ("usage", .obj [("prompt_tokens", .int 9), ("completion_tokens", .int 3)])])])]

def twoModels : Provider where
  loads := fun line => if line = ['1'] then some (outputRow "gpt-4o") else
    some (outputRow "gpt-4o-mini")
  content := fun _ => [49, 10, 50]

def completedResponse : Option (String × Option String) := some ("completed", some "file-1")

def attempt (r : ℕ) : List Input :=
  [.start r, .respond r completedResponse, .proceed r true, .proceed r true, .proceed r true,
    .proceed r true, .proceed r true]

theorem twoModels_metered_once :
    MeteredOnce twoModels (final (step twoModels) (initial "validating") (attempt 1)) := by
  refine orderly_run_metered_once ?_
  simp only [attempt, steps, List.forall_mem_cons]
  refine ⟨fun r => rfl, ?_, ?_, ?_, ?_, ?_, ?_, fun x hx => absurd hx List.not_mem_nil⟩
  · intro copy x hr hx hactive
    obtain rfl := Option.some.inj hx
    exact absurd hactive (by simp [described, statusOf, Status.isActive])
  all_goals exact fun hok => absurd hok (by decide)

def interrupted : List Input :=
  [.start 1, .respond 1 completedResponse, .proceed 1 true, .proceed 1 true, .proceed 1 true,
    .proceed 1 false] ++ attempt 2

theorem interrupted_metered_twice :
    ¬ MeteredOnce twoModels (final (step twoModels) (initial "validating") interrupted) := by
  intro h
  exact absurd h.once (by decide +kernel)

end Varsten.Proxy.BatchJobs
