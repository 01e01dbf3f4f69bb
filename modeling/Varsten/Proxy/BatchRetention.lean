import Varsten.Machine.Runs
import Varsten.Machine.Table

/-!
# Staged batch content

The rows of all batch jobs, the objects in storage, attempts to finalize a job, and sweeps that
delete what is past its time. A sweep works on the rows it has read: it deletes their objects one by
one, whether or not a delete raises, and marks all of them with one commit. An upload of the input,
or an attempt, may come at any time. `ttl` is `batch_object_ttl_hours`, in seconds.
-/

namespace Varsten.Proxy.BatchRetention

open Machine (Table)
open Machine.Runs (steps final)

/-- `f"{project_id}/batches/{job_id}/input.jsonl"`, or the output's. -/
structure Key where
  project : ℕ
  job : ℕ
  output : Bool
  deriving DecidableEq

def inputKey (project job : ℕ) : Key := ⟨project, job, false⟩

def outputKey (project job : ℕ) : Key := ⟨project, job, true⟩

structure BatchJob where
  id : ℕ
  projectId : ℕ
  inputStorageKey : Key
  outputStorageKey : Option Key
  expiresAt : Option ℚ
  objectsPurgedAt : Option ℚ
  deriving DecidableEq

/-- The rows a sweep has read, and the keys it has not come to. -/
structure Sweep where
  startedAt : ℚ
  jobs : List ℕ
  keys : List Key

/-- An attempt has written the output of a job and is about to commit. -/
structure State where
  jobs : Table BatchJob.id
  objects : Key → Bool
  now : ℚ
  attempts : ℕ → Option ℕ
  sweeps : ℕ → Option Sweep

def State.initial : State := ⟨Table.empty, fun _ => false, 0, fun _ => none, fun _ => none⟩

inductive Input where
  | stage (id project : ℕ)
  | upload (id : ℕ)
  | write (f id : ℕ)
  | commit (f : ℕ) (ok : Bool)
  | pass (d : ℚ≥0)
  | select (k : ℕ)
  | delete (k : ℕ) (ok : Bool)
  | mark (k : ℕ) (ok : Bool)
  | crash (k : ℕ)

def Expired (job : BatchJob) (now : ℚ) : Prop := ∃ t, job.expiresAt = some t ∧ t ≤ now

instance (job : BatchJob) (now : ℚ) : Decidable (Expired job now) :=
  match h : job.expiresAt with
  | none => .isFalse fun ⟨_, ht, _⟩ => by simp [h] at ht
  | some t => decidable_of_iff (t ≤ now) ⟨fun hle => ⟨t, h, hle⟩, fun ⟨u, hu, hle⟩ => by
      rw [h] at hu
      exact Option.some.inj hu ▸ hle⟩

def BatchJob.keys (job : BatchJob) : List Key := job.inputStorageKey :: job.outputStorageKey.toList

def BatchJob.record (id : ℕ) (job : BatchJob) : BatchJob :=
  if job.id = id then { job with outputStorageKey := some (outputKey job.projectId id) } else job

def BatchJob.mark (sweep : Sweep) (job : BatchJob) : BatchJob :=
  if job.id ∈ sweep.jobs then { job with objectsPurgedAt := some sweep.startedAt } else job

def dueJobs (s : State) : List BatchJob :=
  s.jobs.rows.filter fun job => Expired job s.now ∧ job.objectsPurgedAt = none

def store (s : State) (key : Key) : State :=
  { s with objects := Function.update s.objects key true }

theorem record_id (id : ℕ) (job : BatchJob) : (job.record id).id = job.id := by
  unfold BatchJob.record
  split_ifs <;> rfl

theorem mark_id (sweep : Sweep) (job : BatchJob) : (job.mark sweep).id = job.id := by
  unfold BatchJob.mark
  split_ifs <;> rfl

section Steps

variable (ttl : ℚ)

def step (s : State) : Input → State
  | .stage id project =>
    (s.jobs.add ⟨id, project, inputKey project id, none, some (s.now + ttl), none⟩).elim s
      fun jobs => { s with jobs }
  | .upload id =>
    match s.jobs.find id with
    | some job => store s (inputKey job.projectId id)
    | none => s
  | .write f id =>
    match s.jobs.find id with
    | some job =>
      { store s (outputKey job.projectId id) with
        attempts := Function.update s.attempts f (some id) }
    | none => s
  | .commit f ok =>
    match s.attempts f with
    | some id =>
      { s with
        jobs := if ok then s.jobs.update (BatchJob.record id) (record_id id) else s.jobs
        attempts := Function.update s.attempts f none }
    | none => s
  | .pass d => { s with now := s.now + d }
  | .select k =>
    { s with
      sweeps := Function.update s.sweeps k (some ⟨s.now, (dueJobs s).map (·.id),
        (dueJobs s).flatMap BatchJob.keys⟩) }
  | .delete k ok =>
    match s.sweeps k with
    | some ⟨t, jobs, key :: keys⟩ =>
      { s with
        objects := if ok then Function.update s.objects key false else s.objects
        sweeps := Function.update s.sweeps k (some ⟨t, jobs, keys⟩) }
    | _ => s
  | .mark k ok =>
    match s.sweeps k with
    | some ⟨t, jobs, []⟩ =>
      { s with
        jobs := if ok then s.jobs.update (BatchJob.mark ⟨t, jobs, []⟩) (mark_id _) else s.jobs
        sweeps := Function.update s.sweeps k none }
    | _ => s
  | .crash k => { s with sweeps := Function.update s.sweeps k none }

end Steps

/-! ## Why an object is left -/

/-- The delete of a key raised. -/
def DeleteFailed (p : State × Input) (key : Key) : Prop :=
  ∃ k t jobs keys, p.2 = .delete k false ∧ p.1.sweeps k = some ⟨t, jobs, key :: keys⟩

/-- A key was written when its job had expired. -/
def WrittenLate (p : State × Input) (key : Key) : Prop :=
  (∃ job ∈ p.1.jobs.rows, job.id = key.job ∧ Expired job p.1.now) ∧
    (p.2 = .upload key.job ∧ key.output = false ∨ ∃ f, p.2 = .write f key.job ∧ key.output = true)

/-- A sweep took the job up when its output was there and not recorded. -/
def Unrecorded (p : State × Input) (key : Key) : Prop :=
  (∃ k, p.2 = .select k) ∧ p.1.objects key = true ∧ key.output = true ∧
    ∃ job ∈ dueJobs p.1, job.id = key.job ∧ job.outputStorageKey = none

def Cause (past : List (State × Input)) (key : Key) : Prop :=
  ∃ p ∈ past, DeleteFailed p key ∨ WrittenLate p key ∨ Unrecorded p key

theorem Cause.later {past : List (State × Input)} {key : Key} (h : Cause past key)
    (q : State × Input) : Cause (past ++ [q]) key := by
  obtain ⟨p, hp, hcause⟩ := h
  exact ⟨p, List.mem_append_left _ hp, hcause⟩

/-! ## Runs -/

section Runs

variable {ttl : ℚ} {s : State} {past : List (State × Input)}

theorem Expired.later {job : BatchJob} {now now' : ℚ} (h : Expired job now) (hle : now ≤ now') :
    Expired job now' := by
  obtain ⟨t, ht, hexpired⟩ := h
  exact ⟨t, ht, hexpired.trans hle⟩

/-- The keys of a row are those of its job. -/
structure Named (job : BatchJob) : Prop where
  input : job.inputStorageKey = inputKey job.projectId job.id
  output : ∀ key, job.outputStorageKey = some key → key = outputKey job.projectId job.id

def Past (s : State) (id : ℕ) : Prop := ∃ job ∈ s.jobs.rows, job.id = id ∧ Expired job s.now

/-- What is left of the jobs of a sweep is still to be deleted, or has a cause. -/
structure Swept (past : List (State × Input)) (s : State) (sweep : Sweep) : Prop where
  jobs : ∀ id ∈ sweep.jobs, Past s id
  keys : ∀ key ∈ sweep.keys, Past s key.job
  left : ∀ key, key.job ∈ sweep.jobs → s.objects key = true → key ∈ sweep.keys ∨ Cause past key

structure Retained (past : List (State × Input)) (s : State) : Prop where
  named : ∀ job ∈ s.jobs.rows, Named job
  objects : ∀ key, s.objects key = true → ∃ job ∈ s.jobs.rows, job.id = key.job ∧
    key.project = job.projectId
  sweeps : ∀ k sweep, s.sweeps k = some sweep → Swept past s sweep
  purged : ∀ job ∈ s.jobs.rows, job.objectsPurgedAt.isSome = true → Expired job s.now ∧
    ∀ key, key.job = job.id → s.objects key = true → Cause past key

structure Grown (s s' : State) : Prop where
  rows : ∀ job ∈ s.jobs.rows, ∃ job' ∈ s'.jobs.rows, job'.id = job.id ∧
    job'.projectId = job.projectId ∧ job'.expiresAt = job.expiresAt
  now : s.now ≤ s'.now

theorem Past.grown {s' : State} {id : ℕ} (h : Past s id) (hgrown : Grown s s') : Past s' id := by
  obtain ⟨job, hjob, rfl, t, ht, hle⟩ := h
  obtain ⟨job', hjob', hid, -, hexpires⟩ := hgrown.rows job hjob
  exact ⟨job', hjob', hid, t, hexpires.trans ht, hle.trans hgrown.now⟩

/-- What an object that was not there owes. -/
def Fresh (past : List (State × Input)) (s : State) (key : Key) : Prop :=
  (∃ job ∈ s.jobs.rows, job.id = key.job ∧ key.project = job.projectId) ∧
    (Past s key.job → Cause past key)

theorem Swept.later {sweep : Sweep} (h : Swept past s sweep) {s' : State} {q : State × Input}
    (hgrown : Grown s s')
    (hobjects : ∀ key, s'.objects key = true → s.objects key = true ∨ Fresh (past ++ [q]) s key) :
    Swept (past ++ [q]) s' sweep where
  jobs id hid := (h.jobs id hid).grown hgrown
  keys key hkey := (h.keys key hkey).grown hgrown
  left key hkey hobject := by
    rcases hobjects key hobject with hold | hfresh
    · exact (h.left key hkey hold).imp_right fun hcause => hcause.later q
    · exact .inr (hfresh.2 (h.jobs key.job hkey))

theorem Retained.later (h : Retained past s) {s' : State} (q : State × Input)
    (hgrown : Grown s s') (hnamed : ∀ job ∈ s'.jobs.rows, Named job)
    (hobjects : ∀ key, s'.objects key = true → s.objects key = true ∨ Fresh (past ++ [q]) s key)
    (hsweeps : ∀ k sweep, s'.sweeps k = some sweep →
      s.sweeps k = some sweep ∨ Swept (past ++ [q]) s' sweep)
    (hpurged : ∀ job ∈ s'.jobs.rows, job.objectsPurgedAt.isSome = true →
      (∃ job₀ ∈ s.jobs.rows, job₀.id = job.id ∧ job₀.expiresAt = job.expiresAt ∧
        job₀.objectsPurgedAt.isSome = true) ∨
      (Expired job s'.now ∧ ∀ key, key.job = job.id → s'.objects key = true →
        Cause (past ++ [q]) key)) : Retained (past ++ [q]) s' where
  named := hnamed
  objects key hobject := by
    obtain ⟨job, hjob, hid, hproject⟩ : ∃ job ∈ s.jobs.rows, job.id = key.job ∧
        key.project = job.projectId := by
      rcases hobjects key hobject with hold | hfresh
      · exact h.objects key hold
      · exact hfresh.1
    obtain ⟨job', hjob', hid', hproject', -⟩ := hgrown.rows job hjob
    exact ⟨job', hjob', hid'.trans hid, hproject.trans hproject'.symm⟩
  sweeps k sweep hsweep := by
    rcases hsweeps k sweep hsweep with hold | hnew
    · exact (h.sweeps k sweep hold).later hgrown hobjects
    · exact hnew
  purged job hjob hmarked := by
    rcases hpurged job hjob hmarked with ⟨job₀, hjob₀, hid, hexpires, hmarked₀⟩ | hnew
    · obtain ⟨⟨t, ht, hle⟩, hcause⟩ := h.purged job₀ hjob₀ hmarked₀
      refine ⟨⟨t, hexpires ▸ ht, hle.trans hgrown.now⟩, fun key hkey hobject => ?_⟩
      rcases hobjects key hobject with hold | hfresh
      · exact (hcause key (hkey.trans hid.symm) hold).later q
      · exact hfresh.2 ⟨job₀, hjob₀, hid.trans hkey.symm, t, ht, hle⟩
    · exact hnew

theorem Grown.of_rows {s' : State} (hrows : ∀ job ∈ s.jobs.rows, job ∈ s'.jobs.rows)
    (hnow : s.now ≤ s'.now) : Grown s s' :=
  ⟨fun job hjob => ⟨job, hrows job hjob, rfl, rfl, rfl⟩, hnow⟩

theorem Retained.quiet (h : Retained past s) {s' : State} (q : State × Input)
    (hjobs : s'.jobs = s.jobs) (hnow : s.now ≤ s'.now)
    (hobjects : ∀ key, s'.objects key = true → s.objects key = true ∨ Fresh (past ++ [q]) s key)
    (hsweeps : ∀ k sweep, s'.sweeps k = some sweep →
      s.sweeps k = some sweep ∨ Swept (past ++ [q]) s' sweep) : Retained (past ++ [q]) s' :=
  h.later q (.of_rows (fun _ hjob => hjobs ▸ hjob) hnow) (hjobs ▸ h.named) hobjects hsweeps
    fun job hjob hmarked => .inl ⟨job, hjobs ▸ hjob, rfl, rfl, hmarked⟩

theorem Retained.same (h : Retained past s) (q : State × Input) : Retained (past ++ [q]) s :=
  h.quiet q rfl le_rfl (fun _ hobject => .inl hobject) fun _ _ hsweep => .inl hsweep

theorem retained_initial : Retained [] State.initial :=
  ⟨nofun, nofun, nofun, nofun⟩

theorem Retained.stage (h : Retained past s) (id project : ℕ) :
    Retained (past ++ [(s, .stage id project)]) (step ttl s (.stage id project)) := by
  rw [step]
  cases hadd : s.jobs.add ⟨id, project, inputKey project id, none, some (s.now + ttl), none⟩ with
  | none => exact h.same _
  | some jobs =>
    obtain ⟨hnone, rfl⟩ := Table.add_eq_some.1 hadd
    have hrows := Table.put_rows_new hnone
    refine h.later _ (.of_rows (fun job hjob => ?_) le_rfl) (fun job hjob => ?_)
      (fun _ hobject => .inl hobject) (fun _ _ hsweep => .inl hsweep) fun job hjob hmarked => ?_
    · exact hrows ▸ List.mem_append_left _ hjob
    · rcases List.mem_append.1 (hrows ▸ hjob) with hold | hnew
      · exact h.named job hold
      · rw [List.mem_singleton.1 hnew]
        exact ⟨rfl, nofun⟩
    · rcases List.mem_append.1 (hrows ▸ hjob) with hold | hnew
      · exact .inl ⟨job, hold, rfl, rfl, hmarked⟩
      · rw [List.mem_singleton.1 hnew] at hmarked
        cases hmarked

theorem Retained.store (h : Retained past s) {job : BatchJob} {a : Input} {output : Bool}
    (hjob : s.jobs.find job.id = some job)
    (ha : a = .upload job.id ∧ output = false ∨ ∃ f, a = .write f job.id ∧ output = true)
    (attempts : ℕ → Option ℕ) : Retained (past ++ [(s, a)])
      { store s ⟨job.projectId, job.id, output⟩ with attempts } := by
  obtain ⟨hrow, -⟩ := Table.find_eq_some.1 hjob
  refine h.quiet _ rfl le_rfl (fun key hobject => ?_) fun _ _ hsweep => .inl hsweep
  by_cases hkey : key = ⟨job.projectId, job.id, output⟩
  · subst hkey
    refine .inr ⟨⟨job, hrow, rfl, rfl⟩, fun hpast => ?_⟩
    exact ⟨(s, a), List.mem_append_right _ (List.mem_singleton_self _), .inr (.inl ⟨hpast, ha⟩)⟩
  · exact .inl ((Function.update_of_ne hkey _ _).symm.trans hobject)

theorem Retained.commit (h : Retained past s) (f : ℕ) (ok : Bool) :
    Retained (past ++ [(s, .commit f ok)]) (step ttl s (.commit f ok)) := by
  rw [step]
  cases s.attempts f with
  | none => exact h.same _
  | some id =>
    cases ok with
    | false =>
      exact h.quiet _ rfl le_rfl (fun _ hobject => .inl hobject) fun _ _ hsweep => .inl hsweep
    | true =>
      have hrecord : ∀ job : BatchJob, (job.record id).projectId = job.projectId ∧
          (job.record id).expiresAt = job.expiresAt ∧
          (job.record id).objectsPurgedAt = job.objectsPurgedAt := by
        intro job
        unfold BatchJob.record
        split_ifs <;> exact ⟨rfl, rfl, rfl⟩
      refine h.later _ ⟨fun job hjob => ?_, le_rfl⟩ (fun job hjob => ?_)
        (fun _ hobject => .inl hobject) (fun _ _ hsweep => .inl hsweep) fun job hjob hmarked => ?_
      · exact ⟨job.record id, List.mem_map_of_mem hjob, record_id id job, (hrecord job).1,
          (hrecord job).2.1⟩
      · obtain ⟨job, hrow, rfl⟩ := List.mem_map.1 hjob
        obtain ⟨hinput, houtput⟩ := h.named job hrow
        unfold BatchJob.record
        split_ifs with hid
        · exact ⟨hinput, fun key hkey => by rw [← Option.some.inj hkey, hid]⟩
        · exact ⟨hinput, houtput⟩
      · obtain ⟨job, hrow, rfl⟩ := List.mem_map.1 hjob
        obtain ⟨-, hexpires, hpurged⟩ := hrecord job
        exact .inl ⟨job, hrow, (record_id id job).symm, hexpires.symm, hpurged ▸ hmarked⟩

theorem keys_past (h : Retained past s) {key : Key}
    (hkey : key ∈ (dueJobs s).flatMap BatchJob.keys) : Past s key.job := by
  obtain ⟨job, hjob, hkey⟩ := List.mem_flatMap.1 hkey
  obtain ⟨hrow, hdue⟩ := List.mem_filter.1 hjob
  have hexpired : Expired job s.now := (of_decide_eq_true hdue).1
  refine ⟨job, hrow, ?_, hexpired⟩
  rcases List.mem_cons.1 hkey with rfl | hkey
  · rw [(h.named job hrow).input]
    rfl
  · rw [(h.named job hrow).output key (Option.mem_toList.1 hkey)]
    rfl

theorem Retained.swept (h : Retained past s) (k : ℕ) :
    Swept (past ++ [(s, .select k)]) s
      ⟨s.now, (dueJobs s).map (·.id), (dueJobs s).flatMap BatchJob.keys⟩ where
  jobs id hid := by
    obtain ⟨job, hjob, rfl⟩ := List.mem_map.1 hid
    obtain ⟨hrow, hdue⟩ := List.mem_filter.1 hjob
    exact ⟨job, hrow, rfl, (of_decide_eq_true hdue).1⟩
  keys key hkey := keys_past h hkey
  left key hkey hobject := by
    obtain ⟨job, hjob, hid⟩ := List.mem_map.1 hkey
    obtain ⟨hrow, -⟩ := List.mem_filter.1 hjob
    obtain ⟨job', hrow', hid', hproject⟩ := h.objects key hobject
    obtain rfl : job' = job := Table.eq_of_key_eq hrow' hrow (hid'.trans hid.symm)
    obtain ⟨hinput, houtput⟩ := h.named job' hrow'
    obtain ⟨project, id, output⟩ := key
    dsimp only at hproject hid hid'
    subst hproject hid'
    have hmem : ∀ key ∈ job'.keys, key ∈ (dueJobs s).flatMap BatchJob.keys :=
      fun key hkey => List.mem_flatMap.2 ⟨job', hjob, hkey⟩
    cases output with
    | false =>
      refine .inl (hmem _ ?_)
      rw [BatchJob.keys, hinput]
      exact List.mem_cons_self
    | true =>
      cases hrecorded : job'.outputStorageKey with
      | some key =>
        have hkey : key = ⟨job'.projectId, job'.id, true⟩ := houtput key hrecorded
        refine .inl (hmem _ (List.mem_cons_of_mem _ ?_))
        rw [hrecorded, hkey]
        exact List.mem_singleton_self _
      | none =>
        exact .inr ⟨(s, .select k), List.mem_append_right _ (List.mem_singleton_self _),
          .inr (.inr ⟨⟨k, rfl⟩, hobject, rfl, job', hjob, rfl, hrecorded⟩)⟩

theorem Retained.select (h : Retained past s) (k : ℕ) :
    Retained (past ++ [(s, .select k)]) (step ttl s (.select k)) := by
  refine h.quiet _ rfl le_rfl (fun _ hobject => .inl hobject) fun k' sweep hsweep => ?_
  by_cases hk : k' = k
  · subst hk
    simp only [step, Function.update_self, Option.some.injEq] at hsweep
    have hswept := h.swept k'
    rw [hsweep] at hswept
    exact .inr ⟨hswept.jobs, hswept.keys, hswept.left⟩
  · exact .inl ((Function.update_of_ne hk _ _).symm.trans hsweep)

theorem Retained.delete (h : Retained past s) (k : ℕ) (ok : Bool) :
    Retained (past ++ [(s, .delete k ok)]) (step ttl s (.delete k ok)) := by
  rcases hsweep : s.sweeps k with _ | ⟨t, jobs, _ | ⟨key, keys⟩⟩ <;> simp only [step, hsweep]
  · exact h.same _
  · exact h.same _
  obtain ⟨hjobs, hkeys, hleft⟩ := h.sweeps k _ hsweep
  have hobjects : ∀ key', (if ok then Function.update s.objects key false else s.objects) key' =
      true → s.objects key' = true ∧ (key' = key → ok = false) := by
    intro key' hobject
    cases ok with
    | false => exact ⟨hobject, fun _ => rfl⟩
    | true =>
      by_cases hkey : key' = key
      · simp [hkey] at hobject
      · simp only [if_true, Function.update_of_ne hkey] at hobject
        exact ⟨hobject, fun hkey' => absurd hkey' hkey⟩
  refine h.quiet _ rfl le_rfl (fun key' hobject => .inl (hobjects key' hobject).1)
    fun k' sweep hsweep' => ?_
  by_cases hk : k' = k
  · subst hk
    simp only [Function.update_self, Option.some.injEq] at hsweep'
    subst hsweep'
    refine .inr ⟨hjobs, fun key' hkey' => hkeys key' (List.mem_cons_of_mem _ hkey'),
      fun key' hkey' hobject => ?_⟩
    obtain ⟨hold, hfailed⟩ := hobjects key' hobject
    rcases hleft key' hkey' hold with hmem | hcause
    · rcases List.mem_cons.1 hmem with rfl | hmem
      · obtain rfl := hfailed rfl
        exact .inr ⟨(s, .delete k' false), List.mem_append_right _ (List.mem_singleton_self _),
          .inl ⟨k', t, jobs, keys, rfl, hsweep⟩⟩
      · exact .inl hmem
    · exact .inr (hcause.later _)
  · exact .inl ((Function.update_of_ne hk _ _).symm.trans hsweep')

theorem Retained.mark (h : Retained past s) (k : ℕ) (ok : Bool) :
    Retained (past ++ [(s, .mark k ok)]) (step ttl s (.mark k ok)) := by
  rcases hsweep : s.sweeps k with _ | ⟨t, jobs, _ | ⟨key, keys⟩⟩ <;> simp only [step, hsweep]
  · exact h.same _
  · have hsweeps : ∀ k' sweep, Function.update s.sweeps k none k' = some sweep →
        s.sweeps k' = some sweep := by
      intro k' sweep hsweep'
      by_cases hk : k' = k
      · simp [hk] at hsweep'
      · rwa [Function.update_of_ne hk] at hsweep'
    obtain ⟨hjobs, -, hleft⟩ := h.sweeps k _ hsweep
    cases ok with
    | false =>
      exact h.quiet _ rfl le_rfl (fun _ hobject => .inl hobject)
        fun k' sweep hsweep' => .inl (hsweeps k' sweep hsweep')
    | true =>
      have hmark : ∀ job : BatchJob, (job.mark ⟨t, jobs, []⟩).projectId = job.projectId ∧
          (job.mark ⟨t, jobs, []⟩).expiresAt = job.expiresAt ∧
          (job.mark ⟨t, jobs, []⟩).inputStorageKey = job.inputStorageKey ∧
          (job.mark ⟨t, jobs, []⟩).outputStorageKey = job.outputStorageKey := by
        intro job
        unfold BatchJob.mark
        split_ifs <;> exact ⟨rfl, rfl, rfl, rfl⟩
      refine h.later _ ⟨fun job hjob => ?_, le_rfl⟩ (fun job hjob => ?_)
        (fun _ hobject => .inl hobject)
        (fun k' sweep hsweep' => .inl (hsweeps k' sweep hsweep')) fun job hjob hmarked => ?_
      · exact ⟨job.mark ⟨t, jobs, []⟩, List.mem_map_of_mem hjob, mark_id _ job, (hmark job).1,
          (hmark job).2.1⟩
      · obtain ⟨job, hrow, rfl⟩ := List.mem_map.1 hjob
        obtain ⟨hinput, houtput⟩ := h.named job hrow
        obtain ⟨hproject, -, hinput', houtput'⟩ := hmark job
        refine ⟨?_, fun key hkey => ?_⟩
        · rw [hinput', hproject, mark_id, hinput]
        · rw [hproject, mark_id]
          exact houtput key (houtput' ▸ hkey)
      · obtain ⟨job, hrow, rfl⟩ := List.mem_map.1 hjob
        by_cases hid : job.id ∈ jobs
        · obtain ⟨job', hrow', hid', hexpired⟩ := hjobs job.id hid
          obtain rfl : job' = job := Table.eq_of_key_eq hrow' hrow hid'
          obtain ⟨u, hu, hle⟩ := hexpired
          refine .inr ⟨⟨u, (hmark job').2.1.trans hu, hle⟩, fun key hkey hobject => ?_⟩
          rw [mark_id] at hkey
          rcases hleft key (hkey ▸ hid) hobject with hmem | hcause
          · exact absurd hmem List.not_mem_nil
          · exact hcause.later _
        · rw [BatchJob.mark, if_neg hid] at hmarked ⊢
          exact .inl ⟨job, hrow, rfl, rfl, hmarked⟩
  · exact h.same _

theorem Retained.step (h : Retained past s) (a : Input) :
    Retained (past ++ [(s, a)]) (step ttl s a) := by
  cases a with
  | stage id project => exact h.stage id project
  | upload id =>
    rw [BatchRetention.step]
    cases hjob : s.jobs.find id with
    | none => exact h.same _
    | some job =>
      obtain ⟨-, rfl⟩ := Table.find_eq_some.1 hjob
      exact h.store hjob (.inl ⟨rfl, rfl⟩) s.attempts
  | write f id =>
    rw [BatchRetention.step]
    cases hjob : s.jobs.find id with
    | none => exact h.same _
    | some job =>
      obtain ⟨-, rfl⟩ := Table.find_eq_some.1 hjob
      exact h.store hjob (.inr ⟨f, rfl, rfl⟩) _
  | commit f ok => exact h.commit f ok
  | pass d =>
    exact h.quiet _ rfl (le_add_of_nonneg_right d.2) (fun _ hobject => .inl hobject)
      fun _ _ hsweep => .inl hsweep
  | select k => exact h.select k
  | delete k ok => exact h.delete k ok
  | mark k ok => exact h.mark k ok
  | crash k =>
    refine h.quiet _ rfl le_rfl (fun _ hobject => .inl hobject) fun k' sweep hsweep => .inl ?_
    by_cases hk : k' = k
    · simp [BatchRetention.step, hk] at hsweep
    · simpa only [BatchRetention.step, Function.update_of_ne hk] using hsweep

theorem retained_run (ttl : ℚ) (as : List Input) :
    Retained (steps (step ttl) .initial as) (final (step ttl) .initial as) := by
  have hstep : ∀ past (s : State) a, True → Retained past s →
      Retained (past ++ [(s, a)]) (step ttl s a) := fun _ _ a _ h => h.step a
  exact Machine.Runs.history hstep retained_initial fun _ _ => trivial

/-- In every run, what is left in storage of a job that is marked as purged is there because a
delete of it raised, because it was written after the job had expired, or because a sweep read the
job between the write of its output and the commit that records it. -/
theorem purged_object_has_cause (ttl : ℚ) (as : List Input) {job : BatchJob}
    (hjob : job ∈ (final (step ttl) .initial as).jobs.rows)
    (hpurged : job.objectsPurgedAt.isSome = true) {key : Key} (hkey : key.job = job.id)
    (hobject : (final (step ttl) .initial as).objects key = true) :
    ∃ p ∈ steps (step ttl) .initial as,
      DeleteFailed p key ∨ WrittenLate p key ∨ Unrecorded p key :=
  ((retained_run ttl as).purged job hjob hpurged).2 key hkey hobject

/-- In every run, a step that takes an object out of storage is a sweep's delete, and the job of the
object has expired. -/
theorem deleted_only_expired (ttl : ℚ) (as : List Input) (a : Input) {key : Key}
    (hbefore : (final (step ttl) .initial as).objects key = true)
    (hafter : (step ttl (final (step ttl) .initial as) a).objects key = false) :
    (∃ k, a = .delete k true) ∧ ∃ job ∈ (final (step ttl) .initial as).jobs.rows,
      job.id = key.job ∧ Expired job (final (step ttl) .initial as).now := by
  have h := retained_run ttl as
  generalize final (step ttl) State.initial as = s at h hbefore hafter
  have hkept : ∀ {s' : State}, s'.objects = s.objects → s'.objects key = false → False :=
    fun hobjects hgone => by simp [hobjects, hbefore] at hgone
  have hstored : ∀ {s' : State} {key' : Key}, s'.objects = Function.update s.objects key' true →
      s'.objects key = false → False := by
    intro s' key' hobjects hgone
    rw [hobjects, Function.update_apply] at hgone
    split_ifs at hgone
    simp [hbefore] at hgone
  cases a with
  | stage id project =>
    rw [step] at hafter
    cases hadd : s.jobs.add ⟨id, project, inputKey project id, none, some (s.now + ttl), none⟩ <;>
      rw [hadd] at hafter <;> exact (hkept rfl hafter).elim
  | upload id =>
    rw [step] at hafter
    cases hjob : s.jobs.find id with
    | none => rw [hjob] at hafter; exact (hkept rfl hafter).elim
    | some job => rw [hjob] at hafter; exact (hstored rfl hafter).elim
  | write f id =>
    rw [step] at hafter
    cases hjob : s.jobs.find id with
    | none => rw [hjob] at hafter; exact (hkept rfl hafter).elim
    | some job => rw [hjob] at hafter; exact (hstored rfl hafter).elim
  | commit f ok =>
    rw [step] at hafter
    cases hattempt : s.attempts f <;> rw [hattempt] at hafter <;> exact (hkept rfl hafter).elim
  | pass d => exact (hkept rfl hafter).elim
  | select k => exact (hkept rfl hafter).elim
  | delete k ok =>
    rcases hsweep : s.sweeps k with _ | ⟨t, jobs, _ | ⟨key', keys⟩⟩ <;>
      simp only [step, hsweep] at hafter
    · exact (hkept rfl hafter).elim
    · exact (hkept rfl hafter).elim
    · cases ok with
      | false => exact (hkept rfl hafter).elim
      | true =>
        by_cases hkey : key = key'
        · subst hkey
          exact ⟨⟨k, rfl⟩, (h.sweeps k _ hsweep).keys key List.mem_cons_self⟩
        · simp [Function.update_of_ne hkey, hbefore] at hafter
  | mark k ok =>
    rcases hsweep : s.sweeps k with _ | ⟨t, jobs, _ | ⟨key', keys⟩⟩ <;>
      simp only [step, hsweep] at hafter <;> exact (hkept rfl hafter).elim
  | crash k => exact (hkept rfl hafter).elim

end Runs

/-! ## A delete that raises -/

def staged : List Input := [.stage 0 0, .upload 0, .pass 86400, .select 0]

theorem failed_delete_has_cause :
    ∃ p ∈ steps (step 86400) .initial (staged ++ [.delete 0 false, .mark 0 true]),
      DeleteFailed p ⟨0, 0, false⟩ ∨ WrittenLate p ⟨0, 0, false⟩ ∨ Unrecorded p ⟨0, 0, false⟩ :=
  @purged_object_has_cause 86400 (staged ++ [.delete 0 false, .mark 0 true])
    ⟨0, 0, ⟨0, 0, false⟩, none, some 86400, some 86400⟩ (by decide +kernel) rfl ⟨0, 0, false⟩ rfl
    (by decide +kernel)

theorem swept_had_expired :
    ∃ job ∈ (final (step 86400) .initial staged).jobs.rows, job.id = 0 ∧
      Expired job (final (step 86400) .initial staged).now :=
  (@deleted_only_expired 86400 staged (.delete 0 true) ⟨0, 0, false⟩ (by decide +kernel)
    (by decide +kernel)).2

end Varsten.Proxy.BatchRetention
