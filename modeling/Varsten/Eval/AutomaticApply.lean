import Varsten.ControlPlane.Evaluations
import Varsten.Eval.Overhead
import Varsten.Machine.Runs

/-!
# Automatic apply

An execution that ends writes the verdict of the runner to its run and adds its results to those
the run has. The gate of an automatic apply asks the latest run for one verdict, which the runner
gives on objective proof alone. Nothing keeps a run from being executed again.
-/

namespace Varsten.Eval.AutomaticApply

open ControlPlane (Recommendations Recommendation Lever RunStatus Verdict Evals Gates latestRun
  perform application applyRecommendationAutomated assertAppliable performed_of_step)
open Machine.Runs (final history steps)
open Python.Decimals
open Python.Utf8 (Text)
open Runner
open Scoring

/-- What the last execution that completed wrote to its run, and the results of them all. -/
structure Record where
  report : Report
  results : List EvalSampleResult

structure State where
  control : ControlPlane.State
  records : ℕ → Option Record

def State.initial : State := ⟨.initial, fun _ => none⟩

/-- An input of the control plane; where an execution ends, what its run is and what it meets. -/
structure Input where
  input : ControlPlane.Input
  run : EvalRun
  world : World

section Steps

variable (lower : Text → Text) (recs : Recommendations) (cfg : Settings)

def Input.evaluation (i : Input) : Evaluation := runEval i.world i.run cfg

def Input.asControl (i : Input) : ControlPlane.Input :=
  match i.input.operation with
  | .finishRun n _ => { i.input with
      operation := .finishRun n ((i.evaluation cfg).report.map (·.verdict)) }
  | _ => i.input

def State.results (s : State) (run : ℕ) : List EvalSampleResult :=
  (s.records run).elim [] (·.results)

def Input.recorded (s : State) (i : Input) : Option (ℕ × Record) :=
  match i.input.operation with
  | .finishRun n _ => do
    let x ← s.control.evals.executions[n]?
    let report ← (i.evaluation cfg).report
    return (x.run, ⟨report, s.results x.run ++ (i.evaluation cfg).results⟩)
  | _ => none

def step (s : State) (i : Input) : State :=
  match perform lower recs s.control (i.asControl cfg) with
  | none => s
  | some control =>
    ⟨control, (i.recorded cfg s).elim s.records fun x =>
      Function.update s.records x.1 (some x.2)⟩

end Steps

/-- The proof that an automatic apply rests on: enough samples, none of them scored by the judge, an
objective pass rate over the threshold, and an interval over the tolerance. -/
structure Proven (cfg : Settings) (r : Record) : Prop where
  count : r.report.sampleCount = r.results.length
  enough : cfg.evalMinSamples ≤ r.report.sampleCount
  objective : ∀ row ∈ r.results, row.scorer ≠ .judge
  passRate : r.report.objectivePassRate = some (quantize roundHalfEven digits
    (r.results.countP (fun row => row.objectivePass = some true) / r.results.length))
  passes : ∃ rate, r.report.objectivePassRate = some rate ∧
    cfg.evalObjectivePassThreshold ≤ rate
  interval : r.report.scoreDeltaCiLow = (meanCi (r.results.map (·.score))).2.1
  low : ciTolerance ≤ r.report.scoreDeltaCiLow

/-- The run that begins to be executed is neither being executed nor completed. -/
def Once (s : State) (i : Input) : Prop :=
  ∀ task, i.input.operation = .startRun task → ∀ n ∈ s.control.evals.queued[task]?,
    ∀ run ∈ s.control.evals.runs.find n, run.status = .pending ∨ run.status = .failed

variable {lower : Text → Text} {recs : Recommendations} {cfg : Settings}

/-! ## A safe verdict -/

section Counting

variable (t : Tally) (rows : List EvalSampleResult)

theorem scores_count : (rows.foldl Tally.count t).scores = t.scores ++ rows.map (·.score) := by
  induction rows generalizing t with
  | nil => simp
  | cons row rows ih =>
    rw [List.foldl_cons, ih]
    simp [Tally.count]

theorem mem_scorers_count {k : Scorer} : k ∈ (rows.foldl Tally.count t).scorers ↔
    k ∈ t.scorers ∨ ∃ row ∈ rows, row.scorer = k := by
  induction rows generalizing t with
  | nil => simp
  | cons row rows ih =>
    rw [List.foldl_cons, ih]
    simp only [Tally.count, Finset.mem_insert, List.exists_mem_cons_iff]
    constructor
    · rintro ((rfl | h) | h)
      · exact .inr (.inl rfl)
      · exact .inl h
      · exact .inr (.inr h)
    · rintro (h | rfl | h)
      · exact .inl (.inr h)
      · exact .inl (.inl rfl)
      · exact .inr h

theorem objTotal_count : (rows.foldl Tally.count t).objTotal =
    t.objTotal + rows.countP fun row => row.objectivePass.isSome := by
  induction rows generalizing t with
  | nil => simp
  | cons row rows ih =>
    rw [List.foldl_cons, ih, List.countP_cons]
    dsimp only [Tally.count]
    omega

theorem objPass_count : (rows.foldl Tally.count t).objPass =
    t.objPass + rows.countP fun row => row.objectivePass = some true := by
  induction rows generalizing t with
  | nil => simp
  | cons row rows ih =>
    rw [List.foldl_cons, ih, List.countP_cons, Tally.count]
    simp only [decide_eq_true_eq]
    omega

end Counting

theorem verdictOf_safe {t : Tally} (h : verdictOf cfg t = .safe) :
    cfg.evalMinSamples ≤ t.scores.length ∧ .judge ∉ t.scorers ∧
      (∃ rate, passRate t = some rate ∧ cfg.evalObjectivePassThreshold ≤ rate) ∧
        ciTolerance ≤ (meanCi t.scores).2.1 := by
  unfold verdictOf at h
  dsimp only at h
  split_ifs at h with hcount hjudge hlo hpass
  rw [Bool.and_eq_true, Option.any_eq_true] at hpass
  obtain ⟨⟨rate, hrate, hthreshold⟩, hlow⟩ := hpass
  exact ⟨not_lt.1 hcount, hjudge, ⟨rate, hrate, of_decide_eq_true hthreshold⟩,
    of_decide_eq_true hlow⟩

theorem proven_of_safe {w : World} {run : EvalRun} {report : Report}
    (h : (runEval w run cfg).report = some report) (hsafe : report.verdict = .safe) :
    Proven cfg ⟨report, (runEval w run cfg).results⟩ := by
  rcases runEval_cases w run cfg with ⟨out, t, report', hadded, hfinal, hrun⟩ | ⟨calls, hrun⟩
  · rw [hrun] at h ⊢
    obtain rfl := Option.some.inj h
    obtain ⟨delta, -, hfinal⟩ := Python.Py.bind_eq_ok.1 hfinal
    obtain rfl := Except.ok.inj hfinal
    set rows := out.filterMap resultOf with hrows
    obtain ⟨hcount, hjudge, hpasses, hlow⟩ := verdictOf_safe hsafe
    have hscores : t.scores = rows.map (·.score) := by
      rw [hadded.counted, scores_count]
      rfl
    have hobjective : ∀ row ∈ rows, row.scorer ≠ .judge := by
      intro row hrow hj
      rw [hadded.counted, mem_scorers_count] at hjudge
      exact hjudge (.inr ⟨row, hrow, hj⟩)
    have htotal : t.objTotal = rows.length := by
      rw [hadded.counted, objTotal_count, List.countP_eq_length.2]
      · exact Nat.zero_add _
      · intro row hrow
        exact Option.isSome_iff_ne_none.2 fun hn =>
          hobjective row hrow ((hadded.judged row hrow).2 hn)
    have hpass : t.objPass = rows.countP fun row => row.objectivePass = some true := by
      rw [hadded.counted, objPass_count]
      exact Nat.zero_add _
    have hlength : t.scores.length = rows.length := by
      rw [hscores, List.length_map]
    refine ⟨hlength, hcount, hobjective, ?_, hpasses, ?_, hlow⟩
    · obtain ⟨rate, hrate, -⟩ := hpasses
      have hsome := hrate
      unfold passRate at hsome
      split_ifs at hsome
      rw [← htotal, ← hpass]
      exact hrate.trans hsome.symm
    · rw [← hscores]
  · rw [hrun] at h
    exact absurd h (by simp)

/-! ## The runs of the control plane -/

structure Quiet (e e' : Evals) : Prop where
  executions : e'.executions = e.executions
  runs : e'.runs = e.runs ∨
    ∃ run, e.runs.find run.id = none ∧ run.status = .pending ∧ e'.runs = e.runs.put run

section Moves

variable {s s' : ControlPlane.State} {a : ControlPlane.Input}

theorem quiet_same {e e' : Evals} (hexec : e'.executions = e.executions)
    (hruns : e'.runs = e.runs) : Quiet e e' := ⟨hexec, .inl hruns⟩

theorem quiet_createRun {e e' : Evals} {rec : ℕ} {model : String} {f : ControlPlane.Fresh}
    (h : e.createRun (ControlPlane.newRun rec model f) = some e') : Quiet e e' := by
  obtain ⟨runs, hruns, rfl⟩ := Option.map_eq_some_iff.1 h
  obtain ⟨hfree, rfl⟩ := Machine.Table.add_eq_some.1 hruns
  exact ⟨rfl, .inr ⟨_, hfree, rfl, rfl⟩⟩

theorem quiet_evaluate {e e' : Evals} {rec : ℕ} {substitute : Option String}
    {f : ControlPlane.Fresh}
    (h : ControlPlane.evaluateRecommendation recs e rec substitute f = some e') : Quiet e e' := by
  simp only [ControlPlane.evaluateRecommendation, Option.bind_eq_bind,
    Option.bind_eq_some_iff] at h
  obtain ⟨r, -, h⟩ := h
  split at h
  · exact absurd h (by simp)
  split at h
  · exact absurd h (by simp)
  obtain ⟨model, -, h⟩ := Option.bind_eq_some_iff.1 h
  split at h
  · obtain rfl := Option.some.inj h
    exact quiet_same rfl rfl
  · obtain ⟨e₁, h₁, rfl⟩ := Option.map_eq_some_iff.1 h
    obtain ⟨hexec, hruns⟩ := quiet_createRun h₁
    exact ⟨hexec, hruns⟩

theorem quiet_generate {rec id : ℕ} {model hash text : String} {f : ControlPlane.Fresh}
    {e' : Evals} (h : ControlPlane.generateCompression recs s rec model hash text id f = some e') :
    Quiet s.evals e' := by
  simp only [ControlPlane.generateCompression, Option.bind_eq_bind,
    Option.bind_eq_some_iff] at h
  obtain ⟨r, -, h⟩ := h
  split at h
  · exact absurd h (by simp)
  obtain ⟨artifacts, -, h⟩ := Option.bind_eq_some_iff.1 h
  obtain ⟨hexec, hruns⟩ := quiet_createRun (e := { s.evals with artifacts }) h
  exact ⟨hexec, hruns⟩

theorem quiet_perform (h : perform lower recs s a = some s')
    (hstart : ∀ task, a.operation ≠ .startRun task)
    (hfinish : ∀ n outcome, a.operation ≠ .finishRun n outcome) : Quiet s.evals s'.evals := by
  cases performed_of_step h with
  | evaluated _ he => exact quiet_evaluate he
  | started ha _ => exact absurd ha (hstart _)
  | finished ha _ _ => exact absurd ha (hfinish _ _)
  | generated _ he => exact quiet_generate he
  | applied _ _ _ h₁ =>
    exact quiet_same (by simp [ControlPlane.Activation.evals h₁])
      (by simp [ControlPlane.Activation.evals h₁])
  | dropped _ _ => exact quiet_same (by simp) (by simp)
  | drifted _ _ _ => exact quiet_same (by simp) (by simp)
  | loaded _ => exact quiet_same (by simp) (by simp)
  | _ => exact quiet_same rfl rfl

theorem startRun_cases {task : ℕ} (hop : a.operation = .startRun task)
    (h : perform lower recs s a = some s') :
    ∃ n run, s.evals.queued[task]? = some n ∧ s.evals.runs.find n = some run ∧
      ((s'.evals.runs = s.evals.runs.put { run with status := .running } ∧
          ∃ artifact, s'.evals.executions = s.evals.executions ++ [⟨n, artifact⟩]) ∨
        (s'.evals.runs = s.evals.runs.put { run with status := .failed } ∧
          s'.evals.executions = s.evals.executions)) := by
  unfold perform at h
  rw [hop] at h
  obtain ⟨e, he, rfl⟩ := Option.map_eq_some_iff.1 h
  simp only [ControlPlane.startRun, Option.bind_eq_bind, Option.bind_eq_some_iff] at he
  obtain ⟨n, hn, run, hrun, r, -, he⟩ := he
  refine ⟨n, run, hn, hrun, ?_⟩
  split at he
  · split at he
    · obtain rfl := Option.some.inj he
      exact .inr ⟨rfl, rfl⟩
    · obtain rfl := Option.some.inj he
      exact .inl ⟨rfl, _, rfl⟩
  · obtain rfl := Option.some.inj he
    exact .inl ⟨rfl, _, rfl⟩

theorem finishRun_cases {n : ℕ} {outcome : Option Verdict}
    (hop : a.operation = .finishRun n outcome) (h : perform lower recs s a = some s') :
    ∃ x run, s.evals.executions[n]? = some x ∧ s.evals.runs.find x.run = some run ∧
      s'.evals.executions = s.evals.executions.eraseIdx n ∧
        s'.evals.runs = s.evals.runs.put (run.ended x.artifact outcome) := by
  simp only [perform, hop, ControlPlane.finishRun, Option.bind_eq_bind, Option.bind_eq_some_iff,
    Option.some.injEq] at h
  obtain ⟨x, hx, run, hrun, rfl⟩ := h
  refine ⟨x, run, hx, hrun, ?_⟩
  rw [ControlPlane.ensureChangeRequest_evals]
  exact ⟨rfl, rfl⟩

end Moves

/-! ## Completed runs have their records -/

/-- What a completed run has recorded: its verdict, and the proof of a safe one. -/
def Backed (cfg : Settings) (run : ControlPlane.EvalRun) (y : Record) : Prop :=
  run.verdict = some y.report.verdict ∧ (y.report.verdict = .safe → Proven cfg y)

/-- Runs are executed one execution at a time, until one completes. -/
structure Sound (cfg : Settings) (s : State) : Prop where
  apart : s.control.evals.executions.Pairwise (·.run ≠ ·.run)
  running : ∀ x ∈ s.control.evals.executions,
    ∃ run, s.control.evals.runs.find x.run = some run ∧ run.status = .running
  known : ∀ n y, s.records n = some y →
    ∃ run, s.control.evals.runs.find n = some run ∧ run.status = .completed
  recorded : ∀ n run, s.control.evals.runs.find n = some run → run.status = .completed →
    ∃ y, s.records n = some y ∧ Backed cfg run y

variable {s : State} {i : Input}

theorem sound_quiet {control : ControlPlane.State} (h : Sound cfg s)
    (hq : Quiet s.control.evals control.evals) : Sound cfg ⟨control, s.records⟩ := by
  obtain ⟨hexec, hruns | ⟨new, hfree, hpending, hruns⟩⟩ := hq
  · refine ⟨?_, ?_, ?_, ?_⟩
    · rw [hexec]
      exact h.apart
    · rw [hexec, hruns]
      exact h.running
    · rw [hruns]
      exact h.known
    · rw [hruns]
      exact h.recorded
  · have hold : ∀ {n run}, s.control.evals.runs.find n = some run →
        control.evals.runs.find n = some run := by
      intro n run hrun
      rw [hruns, Machine.Table.find_put, if_neg, hrun]
      rintro rfl
      rw [hfree] at hrun
      cases hrun
    refine ⟨?_, fun x hx => ?_, fun n y hy => ?_, fun n run hrun hdone => ?_⟩
    · rw [hexec]
      exact h.apart
    · obtain ⟨run, hrun, hstatus⟩ := h.running x (hexec ▸ hx)
      exact ⟨run, hold hrun, hstatus⟩
    · obtain ⟨run, hrun, hstatus⟩ := h.known n y hy
      exact ⟨run, hold hrun, hstatus⟩
    · rw [hruns, Machine.Table.find_put] at hrun
      split_ifs at hrun
      · obtain rfl := Option.some.inj hrun
        rw [hpending] at hdone
        cases hdone
      · exact h.recorded n run hrun hdone

theorem sound_put {control : ControlPlane.State} {n : ℕ} {run : ControlPlane.EvalRun}
    {status : RunStatus} (h : Sound cfg s) (hrun : s.control.evals.runs.find n = some run)
    (hfree : run.status = .pending ∨ run.status = .failed) (hstatus : status ≠ .completed)
    (hruns : control.evals.runs = s.control.evals.runs.put { run with status })
    (hexec : control.evals.executions = s.control.evals.executions ∨ status = .running ∧
      ∃ artifact, control.evals.executions = s.control.evals.executions ++ [⟨n, artifact⟩]) :
    Sound cfg ⟨control, s.records⟩ := by
  obtain ⟨-, hkey⟩ := Machine.Table.find_eq_some.1 hrun
  have hfind : ∀ m, control.evals.runs.find m =
      if m = n then some { run with status } else s.control.evals.runs.find m := by
    intro m
    rw [hruns, Machine.Table.find_put]
    simp only [hkey, eq_comm]
  have hother : ∀ x ∈ s.control.evals.executions, x.run ≠ n := by
    rintro x hx rfl
    obtain ⟨run', hrun', hrunning⟩ := h.running x hx
    obtain rfl := Option.some.inj (hrun.symm.trans hrun')
    rcases hfree with hp | hf
    · rw [hp] at hrunning
      cases hrunning
    · rw [hf] at hrunning
      cases hrunning
  have hrunning : ∀ x ∈ s.control.evals.executions,
      ∃ run', control.evals.runs.find x.run = some run' ∧ run'.status = .running := by
    intro x hx
    rw [hfind, if_neg (hother x hx)]
    exact h.running x hx
  refine ⟨?_, ?_, fun m y hy => ?_, fun m run' hrun' hdone => ?_⟩
  · rcases hexec with hexec | ⟨-, artifact, hexec⟩
    · rw [hexec]
      exact h.apart
    · rw [hexec, List.pairwise_append]
      refine ⟨h.apart, List.pairwise_singleton _ _, fun x hx y hy => ?_⟩
      rw [List.mem_singleton.1 hy]
      exact hother x hx
  · rcases hexec with hexec | ⟨rfl, artifact, hexec⟩
    · rw [hexec]
      exact hrunning
    · rw [hexec]
      intro x hx
      rcases List.mem_append.1 hx with hx | hx
      · exact hrunning x hx
      · rw [List.mem_singleton.1 hx, hfind, if_pos rfl]
        exact ⟨_, rfl, rfl⟩
  · obtain ⟨run', hrun', hdone⟩ := h.known m y hy
    rw [hfind, if_neg]
    · exact ⟨run', hrun', hdone⟩
    · rintro rfl
      obtain rfl := Option.some.inj (hrun.symm.trans hrun')
      rcases hfree with hp | hf
      · rw [hp] at hdone
        cases hdone
      · rw [hf] at hdone
        cases hdone
  · rw [hfind] at hrun'
    split_ifs at hrun'
    · obtain rfl := Option.some.inj hrun'
      exact absurd hdone hstatus
    · exact h.recorded m run' hrun' hdone

theorem sound_finish {control : ControlPlane.State} {n : ℕ} {x : ControlPlane.Execution}
    {run : ControlPlane.EvalRun} {w : World} {r : EvalRun} (h : Sound cfg s)
    (hx : s.control.evals.executions[n]? = some x)
    (hrun : s.control.evals.runs.find x.run = some run)
    (hexec : control.evals.executions = s.control.evals.executions.eraseIdx n)
    (hruns : control.evals.runs = s.control.evals.runs.put
      (run.ended x.artifact ((runEval w r cfg).report.map (·.verdict)))) :
    Sound cfg ⟨control, ((runEval w r cfg).report.map fun report =>
      (⟨report, s.results x.run ++ (runEval w r cfg).results⟩ : Record)).elim s.records fun y =>
        Function.update s.records x.run (some y)⟩ := by
  obtain ⟨-, hkey⟩ := Machine.Table.find_eq_some.1 hrun
  obtain ⟨hn, hget⟩ := List.getElem?_eq_some_iff.1 hx
  have hnone : s.records x.run = none := by
    by_contra hne
    obtain ⟨y, hy⟩ := Option.ne_none_iff_exists'.1 hne
    obtain ⟨run', hrun', hdone⟩ := h.known x.run y hy
    obtain ⟨run'', hrun'', hrunning⟩ := h.running x (List.mem_of_getElem? hx)
    obtain rfl := Option.some.inj (hrun'.symm.trans hrun'')
    rw [hdone] at hrunning
    cases hrunning
  have hfind : ∀ m, control.evals.runs.find m = if m = x.run then
      some (run.ended x.artifact ((runEval w r cfg).report.map (·.verdict)))
        else s.control.evals.runs.find m := by
    intro m
    have hid : (run.ended x.artifact ((runEval w r cfg).report.map (·.verdict))).id = x.run := by
      rw [← hkey]
      cases (runEval w r cfg).report <;> rfl
    rw [hruns, Machine.Table.find_put]
    simp only [hid, eq_comm]
  have hapart : (s.control.evals.executions.eraseIdx n).Pairwise (·.run ≠ ·.run) :=
    h.apart.sublist (List.eraseIdx_sublist _ _)
  have hothers : ∀ y ∈ s.control.evals.executions.eraseIdx n, y.run ≠ x.run := by
    intro y hy
    obtain ⟨m, hm, hmn, rfl⟩ := List.mem_eraseIdx_iff_getElem.1 hy
    rw [← hget]
    rcases Nat.lt_or_gt_of_ne hmn with hlt | hlt
    · exact List.pairwise_iff_getElem.1 h.apart m n hm hn hlt
    · exact (List.pairwise_iff_getElem.1 h.apart n m hn hm hlt).symm
  have hrunning : ∀ y ∈ s.control.evals.executions.eraseIdx n,
      ∃ run', control.evals.runs.find y.run = some run' ∧ run'.status = .running := by
    intro y hy
    rw [hfind, if_neg (hothers y hy)]
    exact h.running y (List.mem_of_mem_eraseIdx hy)
  cases hreport : (runEval w r cfg).report with
  | none =>
    rw [hreport] at hfind
    refine ⟨by rwa [hexec], by rwa [hexec], fun m y hy => ?_, fun m run' hrun' hdone => ?_⟩
    · have hm : m ≠ x.run := by
        rintro rfl
        rw [Option.map_none, Option.elim_none, hnone] at hy
        cases hy
      rw [hfind, if_neg hm]
      exact h.known m y hy
    · rw [hfind] at hrun'
      split_ifs at hrun'
      · obtain rfl := Option.some.inj hrun'
        cases hdone
      · exact h.recorded m run' hrun' hdone
  | some report =>
    rw [hreport] at hfind
    have hresults : s.results x.run = [] := by rw [State.results, hnone, Option.elim_none]
    rw [Option.map_some, Option.elim_some, hresults, List.nil_append]
    refine ⟨by rwa [hexec], by rwa [hexec], fun m y hy => ?_, fun m run' hrun' hdone => ?_⟩
    · rw [hfind]
      split_ifs with hm
      · exact ⟨_, rfl, rfl⟩
      · dsimp only at hy
        rw [Function.update_of_ne hm] at hy
        exact h.known m y hy
    · rw [hfind] at hrun'
      split_ifs at hrun' with hm
      · obtain rfl := Option.some.inj hrun'
        rw [hm]
        refine ⟨_, Function.update_self _ _ _, rfl, fun hsafe => ?_⟩
        exact proven_of_safe hreport hsafe
      · dsimp only
        rw [Function.update_of_ne hm]
        exact h.recorded m run' hrun' hdone

theorem sound_step (h : Sound cfg s) (honce : Once s i) : Sound cfg (step lower recs cfg s i) := by
  unfold step
  cases hp : perform lower recs s.control (i.asControl cfg) with
  | none => exact h
  | some control =>
    dsimp only
    have hsame : (∀ n outcome, i.input.operation ≠ .finishRun n outcome) →
        i.asControl cfg = i.input ∧ i.recorded cfg s = none := by
      intro hne
      unfold Input.asControl Input.recorded
      constructor
      · split
        · next n outcome he => exact absurd he (hne n outcome)
        · rfl
      · split
        · next n outcome he => exact absurd he (hne n outcome)
        · rfl
    by_cases hfinish : ∃ n outcome, i.input.operation = .finishRun n outcome
    · obtain ⟨n, outcome, hop⟩ := hfinish
      have hcontrol : (i.asControl cfg).operation =
          .finishRun n ((i.evaluation cfg).report.map (·.verdict)) := by
        simp only [Input.asControl, hop]
      obtain ⟨x, run, hx, hrun, hexec, hruns⟩ := finishRun_cases hcontrol hp
      have hrecorded : i.recorded cfg s = (i.evaluation cfg).report.map fun report =>
          (x.run, ⟨report, s.results x.run ++ (i.evaluation cfg).results⟩) := by
        cases hreport : (i.evaluation cfg).report <;> simp [Input.recorded, hop, hx, hreport]
      have hsound := sound_finish h hx hrun hexec hruns
      rw [hrecorded]
      change Sound cfg ⟨control, ((i.evaluation cfg).report.map _).elim _ _⟩ at hsound
      cases hreport : (i.evaluation cfg).report with
      | none =>
        rw [hreport] at hsound
        exact hsound
      | some report =>
        rw [hreport] at hsound
        exact hsound
    · have hne : ∀ n outcome, i.input.operation ≠ .finishRun n outcome :=
        fun n outcome he => hfinish ⟨n, outcome, he⟩
      obtain ⟨hcontrol, hnone⟩ := hsame hne
      rw [hcontrol] at hp
      rw [hnone]
      by_cases hstart : ∃ task, i.input.operation = .startRun task
      · obtain ⟨task, hop⟩ := hstart
        obtain ⟨n, run, hn, hrun, hmove⟩ := startRun_cases hop hp
        have hfree := honce task hop n hn run hrun
        rcases hmove with ⟨hruns, hexec⟩ | ⟨hruns, hexec⟩
        · exact sound_put h hrun hfree (by decide) hruns (.inr ⟨rfl, hexec⟩)
        · exact sound_put h hrun hfree (by decide) hruns (.inl hexec)
      · exact sound_quiet h (quiet_perform hp (fun task he => hstart ⟨task, he⟩) hne)

theorem sound_initial : Sound cfg State.initial where
  apart := List.Pairwise.nil
  running := fun _ hx => absurd hx List.not_mem_nil
  known := fun _ _ hy => by cases hy
  recorded := fun _ _ hrun => absurd (Machine.Table.find_eq_some.1 hrun).1 List.not_mem_nil

theorem sound_final {inputs : List Input}
    (h : ∀ p ∈ steps (step lower recs cfg) .initial inputs, Once p.1 p.2) :
    Sound cfg (final (step lower recs cfg) .initial inputs) :=
  @history _ _ _ (fun _ s => Sound cfg s) _ (fun _ _ _ honce hs => sound_step hs honce) inputs _ []
    sound_initial h

theorem assertAppliable_automated {s : ControlPlane.State} {rec : ℕ} {r : Recommendation}
    {run : Option ControlPlane.EvalRun} (hg : r.lever.any Lever.isGated = true)
    (h : assertAppliable s rec r true = some run) :
    ∃ x, latestRun s rec = some x ∧ x.status = .completed ∧ x.verdict = some .safe := by
  unfold assertAppliable at h
  rw [if_neg (not_not.2 hg)] at h
  obtain ⟨x, hx, h⟩ := Option.bind_eq_some_iff.1 h
  have hdone : x.status = .completed := by
    by_contra hs
    rw [if_pos hs] at h
    exact absurd h (by simp)
  rw [if_neg (not_not.2 hdone)] at h
  refine ⟨x, hx, hdone, ?_⟩
  cases hv : x.verdict with
  | none => simp [hv] at h
  | some v =>
    cases v with
    | safe => rfl
    | _ => simp [hv] at h

/-- After a run that executes no run again, an open recommendation of a gated lever is applied
automatically only where its latest run is completed and proven. -/
theorem automatic_apply_proven {inputs : List Input} {g : Gates} {rec : ℕ} {r : Recommendation}
    {s' : ControlPlane.State} (hr : recs rec = some r) (hg : r.lever.any Lever.isGated = true)
    (honce : ∀ p ∈ steps (step lower recs cfg) .initial inputs, Once p.1 p.2)
    (hopen : (final (step lower recs cfg) .initial inputs).control.status rec = .opened)
    (h : applyRecommendationAutomated lower recs g
      (final (step lower recs cfg) .initial inputs).control rec = some s') :
    ∃ x y, latestRun (final (step lower recs cfg) .initial inputs).control rec = some x ∧
      x.status = .completed ∧
        (final (step lower recs cfg) .initial inputs).records x.id = some y ∧ Proven cfg y := by
  have hsound : Sound cfg (final (step lower recs cfg) .initial inputs) := sound_final honce
  set s := final (step lower recs cfg) .initial inputs
  have hpass : ∃ run, assertAppliable s.control rec r true = some run := by
    simp only [applyRecommendationAutomated, Option.bind_eq_bind, Option.bind_eq_some_iff] at h
    obtain ⟨r', hr', h⟩ := h
    obtain rfl := Option.some.inj (hr.symm.trans hr')
    rw [if_neg (not_not.2 hopen)] at h
    obtain ⟨s₁, h₁, -⟩ := Option.bind_eq_some_iff.1 h
    have hgates := (ControlPlane.applyRecommendation_cases h₁).1
    simp only [ControlPlane.gatesPass, Bool.and_eq_true] at hgates
    exact Option.isSome_iff_exists.1 hgates.1.2
  obtain ⟨run, hrun⟩ := hpass
  obtain ⟨x, hx, hdone, hverdict⟩ := assertAppliable_automated hg hrun
  have hfind : s.control.evals.runs.find x.id = some x :=
    Machine.Table.find_eq_some.2 ⟨(Machine.Table.latest_mem hx).1, rfl⟩
  obtain ⟨y, hy, hsame, hproven⟩ := hsound.recorded x.id x hfind hdone
  have hsafe : y.report.verdict = .safe := Option.some.inj (hsame.symm.trans hverdict)
  exact ⟨x, y, hx, hdone, hy, hproven hsafe⟩

/-! ## One golden sample -/

open Capture (ReplaySample)
open Overhead (twoReplays goldenSample downshiftRun answerOf)

def downshift : Recommendation := ⟨some .modelDownshift, none, none, some "gpt-4o", none⟩

def downshiftOnly : Recommendations := fun rec => if rec = 0 then some downshift else none

def oneReplay : World := { twoReplays with stored := .ok [goldenSample 0] }

def evaluated : List Input :=
  [⟨⟨.allow, .evaluate 0 (some "gpt-4o-mini") ⟨0, 0⟩⟩, downshiftRun, oneReplay⟩,
    ⟨⟨.allow, .startRun 0⟩, downshiftRun, oneReplay⟩,
    ⟨⟨.allow, .finishRun 0 none⟩, downshiftRun, oneReplay⟩]

def single : Settings := ⟨1, 200, 95 / 100⟩

theorem automatic_apply_downshift :
    ∃ x y, latestRun (final (step id downshiftOnly single) .initial evaluated).control 0 = some x ∧
      x.status = .completed ∧
        (final (step id downshiftOnly single) .initial evaluated).records x.id = some y ∧
          Proven single y := by
  refine automatic_apply_proven (g := .allow) (r := downshift) rfl rfl ?_ (by decide +kernel)
    (Option.eq_some_of_isSome (by decide +kernel))
  simp only [evaluated, steps, List.forall_mem_cons]
  refine ⟨?_, ?_, ?_, List.forall_mem_nil _⟩
  · rintro task ⟨⟩
  · rintro task ⟨⟩ n hn run hrun
    obtain rfl : 0 = n := Option.some.inj hn
    exact .inl (congrArg (·.status) (Option.some.inj hrun).symm)
  · rintro task ⟨⟩

/-! ## A run that is executed twice -/

/-- Traffic with a long answer, before there is a golden sample of the route. -/
def longAnswer : String := "It depends on the plan, which one of them do you have in mind?"

def trafficSample (id : ℕ) : ReplaySample :=
  ⟨id, "gpt-4o", .traffic, .arr [], [], some (answerOf (.str longAnswer)), none, 5, 1, 0⟩

def oneJudged : World := { twoReplays with stored := .ok [trafficSample 0] }

def evaluatedTwice : List Input :=
  [⟨⟨.allow, .evaluate 0 (some "gpt-4o-mini") ⟨0, 0⟩⟩, downshiftRun, oneJudged⟩,
    ⟨⟨.allow, .evaluate 0 (some "gpt-4o-mini") ⟨1, 1⟩⟩, downshiftRun, oneJudged⟩,
    ⟨⟨.allow, .startRun 0⟩, downshiftRun, oneJudged⟩,
    ⟨⟨.allow, .finishRun 0 none⟩, downshiftRun, oneJudged⟩,
    ⟨⟨.allow, .startRun 0⟩, downshiftRun, oneReplay⟩,
    ⟨⟨.allow, .finishRun 0 none⟩, downshiftRun, oneReplay⟩]

theorem judged_run_applied :
    (applyRecommendationAutomated id downshiftOnly .allow
        (final (step id downshiftOnly single) .initial evaluatedTwice).control 0).isSome = true ∧
      (latestRun (final (step id downshiftOnly single) .initial evaluatedTwice).control 0).map
        (fun x => ((final (step id downshiftOnly single) .initial evaluatedTwice).results
          x.id).map (·.scorer)) = some [.judge, .golden] := by
  decide +kernel

end Varsten.Eval.AutomaticApply
