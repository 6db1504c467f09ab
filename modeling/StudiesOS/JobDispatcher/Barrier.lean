import StudiesOS.JobDispatcher.Turnarounds

/-! # The barrier
A run is logged: which `run_cmd` call was made for which job. The log of a job grows command by command
while a worker has it, and is complete when the worker has processed it; so when `active_jobs` is zero
under `queue_lock`, the log has everything of the jobs submitted so far, and nothing of the others. -/

namespace StudiesOS.JobDispatcher

open Finset

variable {N : ℕ}

/-! ## The log of a run -/

/-- The commands that have been run for a job, in order, among all calls of `run_cmd`. -/
def commandsOf (ran : List (Job × List Byte)) (job : Job) : List (List Byte) :=
  (ran.filter fun call => call.1 = job).map Prod.snd

/-- **What a step adds to the log**: a worker in `process_job` calls `run_cmd`. -/
def Sys.record (s : Sys N) (a : Act N) (ran : List (Job × List Byte)) : List (Job × List Byte) :=
  match a with
  | .worker i _ =>
      match s.worker i with
      | .exec job (cmd :: _) => ran ++ [(job, cmd)]
      | _ => ran
  | .main _ _ | .spuriousWorker _ | .spuriousMain => ran

/-- **The calls of `run_cmd` in the run of `as`** on a command file, with their jobs. -/
def ranIn (N : ℕ) (prog : List Directive) (n : ℕ) (old : Fin 100 → Option (List Byte))
    (as : List (Act N)) : List (Job × List Byte) :=
  history step Sys.record (Sys.init N prog n old) [] as

/-- A call for another job. -/
theorem commandsOf_append_of_ne (ran : List (Job × List Byte)) {job job' : Job} (hne : job' ≠ job)
    (cmd : List Byte) : commandsOf (ran ++ [(job', cmd)]) job = commandsOf ran job := by
  simp [commandsOf, hne]

/-- A call for the job. -/
theorem commandsOf_append_self (ran : List (Job × List Byte)) (job : Job) (cmd : List Byte) :
    commandsOf (ran ++ [(job, cmd)]) job = commandsOf ran job ++ [cmd] := by
  simp [commandsOf]

/-- A job for which nothing has been run. -/
theorem commandsOf_eq_nil {ran : List (Job × List Byte)} {job : Job}
    (h : ∀ call ∈ ran, call.1 ≠ job) : commandsOf ran job = [] := by
  rw [commandsOf, List.filter_eq_nil_iff.mpr, List.map_nil]
  intro call hcall
  simpa using h call hcall

/-! ## The log keeps up with the workers -/

/-- The job that a worker is processing, with the `run_cmd` calls to go. -/
def WorkerPc.toRun : WorkerPc → Option (Job × List (List Byte))
  | .exec job rest => some (job, rest)
  | .counter job rest _ => some (job, rest)
  | _ => none

/-- Who has calls to go is working on the job. -/
theorem phase_of_toRun {pc : WorkerPc} {job : Job} {rest : List (List Byte)}
    (h : pc.toRun = some (job, rest)) : pc.phase = .working job := by
  cases pc with
  | exec | counter =>
      cases h
      rfl
  | _ => cases h

/-- **The log is in step with the workers.** -/
structure Logged (s : Sys N) (ran : List (Job × List Byte)) : Prop where
  /-- Commands are run for jobs that have been taken. -/
  started : ∀ call ∈ ran, ∃ i, (i, call.1) ∈ s.taken
  /-- What has been run for the job of a worker, and what is to go, are the commands of the job. -/
  running : ∀ i job rest, (s.worker i).toRun = some (job, rest) →
    commandsOf ran job ++ rest = processJob job.cmd
  /-- All commands of a processed job have been run. -/
  finished : ∀ t ∈ s.processed, commandsOf ran t.2 = processJob t.2.cmd

variable {s s' : Sys N} {ran : List (Job × List Byte)}

/-- A step that neither takes nor processes a job, and runs nothing. -/
theorem Logged.frame (h : Logged s ran) (htaken : s'.taken = s.taken)
    (hproc : s'.processed = s.processed)
    (hworker : ∀ i, (s'.worker i).toRun = (s.worker i).toRun) : Logged s' ran := by
  refine ⟨?_, fun i job rest hi => ?_, ?_⟩
  · rw [htaken]
    exact h.started
  · rw [hworker i] at hi
    exact h.running i job rest hi
  · rw [hproc]
    exact h.finished

/-- The frame rule for the move of one worker. -/
theorem Logged.frame_worker (h : Logged s ran) {i : Fin N} {pc : WorkerPc}
    (htaken : s'.taken = s.taken) (hproc : s'.processed = s.processed)
    (hworker : s'.worker = Function.update s.worker i pc) (hrun : pc.toRun = (s.worker i).toRun) :
    Logged s' ran := by
  refine h.frame htaken hproc fun j => ?_
  rw [hworker]
  exact update_view WorkerPc.toRun hrun j

/-- The calls to go of the workers after a move of one of them. -/
theorem toRun_of_update {i j : Fin N} {pc : WorkerPc} {job : Job} {rest : List (List Byte)}
    (hworker : s'.worker = Function.update s.worker i pc)
    (h : (s'.worker j).toRun = some (job, rest)) :
    j = i ∧ pc.toRun = some (job, rest) ∨ j ≠ i ∧ (s.worker j).toRun = some (job, rest) := by
  rw [hworker] at h
  by_cases hji : j = i
  · rw [hji, Function.update_self] at h
    exact Or.inl ⟨hji, h⟩
  · rw [Function.update_of_ne hji] at h
    exact Or.inr ⟨hji, h⟩

/-- **A job is taken.** -/
theorem Logged.take (h : Logged s ran) (hsound : s.pool.Sound) (hnodup : s.submitted.Nodup)
    {i : Fin N} {job : Job} (hjob : job ∈ s.queue) (htaken : s'.taken = s.taken ++ [(i, job)])
    (hproc : s'.processed = s.processed)
    (hworker : s'.worker = Function.update s.worker i (.exec job (processJob job.cmd))) :
    Logged s' ran := by
  refine ⟨fun call hcall => ?_, fun j job' rest hj => ?_, ?_⟩
  · obtain ⟨j, hj⟩ := h.started call hcall
    rw [htaken]
    exact ⟨j, List.mem_append_left _ hj⟩
  · rcases toRun_of_update hworker hj with ⟨-, hrun⟩ | ⟨-, hrun⟩
    · cases hrun
      -- nothing has been run for a job that nobody had taken
      rw [commandsOf_eq_nil, List.nil_append]
      intro call hcall heq
      obtain ⟨j, hj⟩ := h.started call hcall
      exact hsound.not_taken hnodup hjob hj heq
    · exact h.running j job' rest hrun
  · rw [hproc]
    exact h.finished

/-- **A command is run.** -/
theorem Logged.call (h : Logged s ran) (hsound : s.pool.Sound) (hnodup : s.submitted.Nodup)
    {i : Fin N} {job : Job} {cmd : List Byte} {rest : List (List Byte)} {pc : WorkerPc}
    (hi : s.worker i = .exec job (cmd :: rest)) (hpc : pc.toRun = some (job, rest))
    (htaken : s'.taken = s.taken) (hproc : s'.processed = s.processed)
    (hworker : s'.worker = Function.update s.worker i pc) : Logged s' (ran ++ [(job, cmd)]) := by
  have hphase : s.pool.phase i = .working job := by rw [pool_phase, hi]; rfl
  refine ⟨fun call hcall => ?_, fun j job' rest' hj => ?_, fun t ht => ?_⟩
  · rw [htaken]
    rcases List.mem_append.mp hcall with hcall | hcall
    · exact h.started call hcall
    · rw [List.mem_singleton.mp hcall]
      exact ⟨i, hsound.mem_taken hphase⟩
  · rcases toRun_of_update hworker hj with ⟨-, hrun⟩ | ⟨hji, hrun⟩
    · obtain ⟨rfl, rfl⟩ := Prod.mk.inj (Option.some.inj (hpc.symm.trans hrun))
      have hold := h.running i job (cmd :: rest) (by rw [hi]; rfl)
      rw [commandsOf_append_self, List.append_assoc]
      exact hold
    · -- nobody else is working on the job
      have hne : job ≠ job' := by
        rintro rfl
        exact hji (hsound.working_inj hnodup (phase_of_toRun hrun) hphase)
      rw [commandsOf_append_of_ne ran hne]
      exact h.running j job' rest' hrun
  · rw [hproc] at ht
    rw [commandsOf_append_of_ne ran (Ne.symm (hsound.not_processed hnodup hphase ht))]
    exact h.finished t ht

/-- **A job has been processed.** -/
theorem Logged.process (h : Logged s ran) {i : Fin N} {job : Job} {turnaround : ℤ}
    (hi : s.worker i = .exec job []) (htaken : s'.taken = s.taken)
    (hproc : s'.processed = s.processed ++ [(i, job)])
    (hworker : s'.worker = Function.update s.worker i (.lockStats job turnaround)) :
    Logged s' ran := by
  refine ⟨?_, fun j job' rest hj => ?_, fun t ht => ?_⟩
  · rw [htaken]
    exact h.started
  · rcases toRun_of_update hworker hj with ⟨-, hrun⟩ | ⟨-, hrun⟩
    · cases hrun
    · exact h.running j job' rest hrun
  · rw [hproc] at ht
    rcases List.mem_append.mp ht with ht | ht
    · exact h.finished t ht
    · rw [List.mem_singleton.mp ht]
      have hrun := h.running i job [] (by rw [hi]; rfl)
      rwa [List.append_nil] at hrun

/-! ## Every step -/

/-- A worker that starts a command has the rest of the job to go. -/
theorem toRun_startCmd (job : Job) (cmd : List Byte) (rest : List (List Byte)) :
    (startCmd job cmd rest).toRun = some (job, rest) := by
  obtain ⟨id, δ, heq⟩ | heq := startCmd_eq job cmd rest <;> rw [heq] <;> rfl

/-- **A step of a worker keeps the log in step.** -/
theorem workerStep_logged (h : Logged s ran) (hsound : s.pool.Sound) (hnodup : s.submitted.Nodup)
    {i : Fin N} {now : ℤ} (hstep : workerStep s i now = some s') :
    Logged s' (s.record (.worker i now) ran) := by
  cases workerStep_trans hstep with
  | top hpc _ | wait hpc _ _ | woken hpc _ | leave hpc _ _ | pass hpc _ | retry hpc _
    | lockStats hpc _ | fold hpc | lockFinish hpc _ | report hpc _ =>
      simp only [Sys.record, hpc]
      exact h.frame_worker (i := i) rfl rfl rfl (by rw [hpc]; rfl)
  | @take job queue hpc hqueue =>
      have hjob : job ∈ s.queue := by
        rw [hqueue]
        exact List.mem_cons_self
      simp only [Sys.record, hpc]
      exact h.take hsound hnodup (i := i) hjob rfl rfl rfl
  | @call job cmd rest hpc =>
      simp only [Sys.record, hpc]
      exact h.call hsound hnodup hpc (toRun_startCmd job cmd rest) rfl rfl rfl
  | @counter job rest cpc t r hpc hcounter =>
      obtain ⟨owner, files, rfl⟩ := counterStep_frame hcounter
      simp only [Sys.record, hpc]
      refine h.frame_worker (i := i) rfl rfl rfl ?_
      rw [hpc]
      cases r <;> rfl
  | process hpc =>
      simp only [Sys.record, hpc]
      exact h.process hpc rfl rfl rfl

/-- Waking workers does not concern the log. -/
theorem logged_wakeWorkers (s : Sys N) (wake : Fin N → Bool) (i : Fin N) :
    ((s.wakeWorkers wake).worker i).toRun = (s.worker i).toRun :=
  wakeWorkers_view WorkerPc.toRun rfl s wake i

/-- **A step of the main thread keeps the log in step.** -/
theorem mainStep_logged (h : Logged s ran) (hcontrol : s.Control) {now : ℤ} {wake : Fin N → Bool}
    (hstep : mainStep s now wake = some s') : Logged s' ran := by
  cases mainStep_trans hstep with
  | @create k prog hpc hk =>
      have hwas := hcontrol.not_born hpc ⟨k, hk⟩ le_rfl
      exact h.frame_worker (i := ⟨k, hk⟩) rfl rfl rfl (by rw [hwas]; rfl)
  | created | eof | readSubmit | readMsleep | readWait | lockSubmit | lockWait | wait | wokenWait
    | pass | join | joined | writeStats => exact h.frame rfl rfl fun _ => rfl
  | submit => exact h.frame rfl rfl (logged_wakeWorkers (s.unlock .queue) wake)
  | shutDown => exact h.frame rfl rfl (logged_wakeWorkers (s.unlock .queue) fun _ => true)

/-- **Every step keeps the log in step.** -/
theorem step_logged (h : Logged s ran) (hcontrol : s.Control) (hsound : s.pool.Sound)
    (hnodup : s.submitted.Nodup) {a : Act N} (hstep : step s a = some s') :
    Logged s' (s.record a ran) := by
  cases step_trans hstep with
  | worker => exact workerStep_logged h hsound hnodup hstep
  | main => exact mainStep_logged h hcontrol hstep
  | @spuriousWorker i hpc => exact h.frame_worker (i := i) rfl rfl rfl (by rw [hpc]; rfl)
  | spuriousMain => exact h.frame rfl rfl fun _ => rfl

/-- The submitted jobs are distinct. -/
theorem submitted_nodup {prog : List Directive} {n : ℕ} {old : Fin 100 → Option (List Byte)}
    {as : List (Act N)} (h : run step (Sys.init N prog n old) as = some s) : s.submitted.Nodup := by
  have hseq := (reachable_submitted h).1
  refine List.Nodup.of_map Job.seq ?_
  rw [hseq]
  exact List.nodup_range

/-- **The log of a run is in step with its last state.** -/
theorem reachable_logged {prog : List Directive} {n : ℕ} {old : Fin 100 → Option (List Byte)}
    {as : List (Act N)} (h : run step (Sys.init N prog n old) as = some s) :
    Logged s (ranIn N prog n old as) := by
  refine run_induction (motive := fun as s => Logged s (ranIn N prog n old as)) ?_ ?_ h
  · refine ⟨?_, ?_, ?_⟩
    · intro call hcall
      cases hcall
    · intro i job rest hi
      cases hi
    · intro t ht
      cases ht
  · intro as s a s' hrun ih hstep
    obtain ⟨hcontrol, hsound⟩ := reachable_control hrun
    have hlog : ranIn N prog n old (as ++ [a]) = s.record a (ranIn N prog n old as) :=
      history_snoc hrun hstep _
    rw [hlog]
    exact step_logged ih hcontrol hsound (submitted_nodup hrun) hstep

/-! ## The result -/

/-- **The jobs submitted so far are finished**, and nothing else has been done: `calls` are the calls of
`run_cmd`, and `ms` the turnarounds that the workers have measured. -/
structure Finished (s : Sys N) (calls : List (Job × List Byte)) (ms : List (Job × ℤ)) : Prop where
  /-- No worker has an unreported job. -/
  idle : ∀ i, (s.worker i).job = none
  /-- All commands of every job have been run. -/
  ran : ∀ job ∈ s.submitted, commandsOf calls job = processJob job.cmd
  /-- The turnaround of every job has been measured, once. -/
  measured : (ms.map Prod.fst).Perm s.submitted
  /-- Every one of them has been added to the statistics, and nothing else. -/
  stats : Accumulates (ms.map Prod.snd) s.stats
  /-- Commands have been run for no other job. -/
  only : ∀ call ∈ calls, call.1 ∈ s.submitted

/-- **With no active job everything is finished.** -/
theorem Logged.done (h : Logged s ran) {ms : List (Job × ℤ)} (hmeasured : Measured s ms)
    (hsound : s.pool.Sound) (hzero : s.activeJobs = 0) : Finished s ran ms := by
  obtain ⟨-, hload⟩ := hsound.drained hzero
  obtain ⟨hperm, htaken⟩ := hsound.all_processed hzero
  have htaken : s.taken.map Prod.snd = s.submitted := htaken
  obtain ⟨hjobs, hstats⟩ := hmeasured.complete hsound hzero
  refine ⟨fun i => ?_, fun job hjob => ?_, hjobs, hstats, fun call hcall => ?_⟩
  · have hi := hload i
    rw [pool_phase, load_phase] at hi
    split_ifs at hi with hjob
    simpa using hjob
  · rw [← htaken] at hjob
    obtain ⟨t, ht, rfl⟩ := List.mem_map.mp hjob
    exact h.finished t (hperm.mem_iff.mpr ht)
  · obtain ⟨i, hi⟩ := h.started call hcall
    rw [← htaken]
    exact List.mem_map.mpr ⟨_, hi, rfl⟩

/-- **`dispatcher_wait` is a barrier**, and so is the wait of `main` before it sets `done`. When the
main thread gets past one of them, the jobs of the lines before it are finished, the statistics have
count, sum, minimum and maximum of their turnarounds, each the time between the reading of the clock at
the submission and a later one of a worker, and nothing has been done for a job that is submitted
later. -/
theorem wait_is_barrier {prog : List Directive} {n : ℕ} {old : Fin 100 → Option (List Byte)}
    {as : List (Act N)} (h : run step (Sys.init N prog n old) as = some s) {site : WaitSite}
    (hmain : s.main = .testWait site) {now : ℤ} {wake : Fin N → Bool}
    (hstep : step s (.main now wake) = some s') (hpast : s'.main ≠ .blockedWait site) :
    jobsOf prog = s.submitted.map Job.cmd ++ site.toSubmit ∧
    Finished s (ranIn N prog n old as) (measuredIn N prog n old as) ∧
    (∀ m ∈ measuredIn N prog n old as, ∃ wake i ended,
      [.main m.1.submitTime wake, .worker i ended].Sublist as ∧ m.2 = ended - m.1.submitTime) ∧
    ∀ bs u, run step s' bs = some u → ∀ job ∈ u.submitted, job ∉ s.submitted →
      commandsOf (ranIn N prog n old as) job = [] := by
  obtain ⟨-, hsound⟩ := reachable_control h
  have hcmd := (reachable_submitted h).2
  rw [hmain] at hcmd
  have hzero : s.activeJobs = 0 := by
    have hstep : mainStep s now wake = some s' := hstep
    simp only [mainStep, hmain] at hstep
    split_ifs at hstep with hactive
    · cases hstep
      exact absurd rfl hpast
    · exact le_antisymm (not_lt.mp hactive) hsound.active_nonneg
  have hdone := (reachable_logged h).done (reachable_measured h) hsound hzero
  refine ⟨hcmd.symm, hdone, measured_clocked h,
    fun bs u hu job hjob hnew => commandsOf_eq_nil fun call hcall heq => ?_⟩
  exact hnew (heq ▸ hdone.only call hcall)

/-- A command file with a barrier behind two jobs. -/
def barrierFile : List Directive :=
  processCommands
    (lit "worker increment 0\nworker increment 0\ndispatcher_wait\nworker increment 1\n")

/-- The last job is not submitted yet; the others are finished, and their turnarounds counted. -/
theorem wait_is_barrier_sharedRun :
    ∃ s rest, run step (Sys.init 2 barrierFile 2 fun _ => none) (sharedRun 0 1 7 4) = some s ∧
      s.main = .testWait (.barrier rest) ∧ jobsOf rest = [lit "increment 1"] ∧
      s.stats = ⟨11, 4, 7, 2⟩ ∧ Accumulates [7, 4] s.stats ∧
      Finished s (ranIn 2 barrierFile 2 (fun _ => none) (sharedRun 0 1 7 4))
        (measuredIn 2 barrierFile 2 (fun _ => none) (sharedRun 0 1 7 4)) := by
  have heval : ((run step (Sys.init 2 barrierFile 2 fun _ => none) (sharedRun 0 1 7 4)).map fun s =>
      (s.main, (step s (.main 0 fun _ => true)).map Sys.main, s.stats))
        = some (.testWait (.barrier [.submit (lit "increment 1")]),
            some (.read [.submit (lit "increment 1")]), ⟨11, 4, 7, 2⟩) := by decide +kernel
  obtain ⟨s, hs, heq⟩ := Option.map_eq_some_iff.mp heval
  obtain ⟨hmain, heq⟩ := Prod.mk.inj heq
  obtain ⟨hnext, hstats⟩ := Prod.mk.inj heq
  obtain ⟨s', hstep, hread⟩ := Option.map_eq_some_iff.mp hnext
  have hpast : s'.main ≠ .blockedWait (.barrier [.submit (lit "increment 1")]) := by
    rw [hread]
    exact MainPc.noConfusion
  have hfinished := (wait_is_barrier hs hmain hstep hpast).2.1
  have hmeasured : (measuredIn 2 barrierFile 2 (fun _ => none) (sharedRun 0 1 7 4)).map Prod.snd
      = [7, 4] := by
    decide +kernel
  exact ⟨s, _, hs, hmain, rfl, hstats, hmeasured ▸ hfinished.stats, hfinished⟩

end StudiesOS.JobDispatcher
