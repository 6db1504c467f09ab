import StudiesOS.JobDispatcher.Transitions
import StudiesOS.Transition.WorkPool

/-! # The program is a pool of workers
Forgetting mutexes, condition variables, statistics and files, a state of the program is a
`WorkPool`, and every step of the program is a step of the pool: the three critical sections of
`queue_lock` that submit, take and report a job are the three steps of the same names, the end of
`process_job` is the fourth, and everything else does not concern the pool. -/

namespace StudiesOS.JobDispatcher

variable {N : ℕ}

/-- What a worker is doing with jobs. -/
def WorkerPc.phase : WorkerPc → Phase Job
  | .exec job _ => .working job
  | .counter job _ _ => .working job
  | .lockStats job _ => .reporting job
  | .foldStats job _ => .reporting job
  | .lockFinish job => .reporting job
  | .finish job => .reporting job
  | _ => .idle

/-- **The pool of a state.** -/
def Sys.pool (s : Sys N) : WorkPool (Fin N) Job where
  queue := s.queue
  active := s.activeJobs
  phase := fun i => (s.worker i).phase
  submitted := s.submitted
  taken := s.taken
  processed := s.processed

/-- Moving a worker changes the phase of that worker. -/
theorem phase_update (f : Fin N → WorkerPc) (i : Fin N) (pc : WorkerPc) :
    (fun j => (Function.update f i pc j).phase)
      = Function.update (fun j => (f j).phase) i pc.phase :=
  Function.comp_update WorkerPc.phase f i pc

@[simp] theorem pool_phase (s : Sys N) (i : Fin N) : s.pool.phase i = (s.worker i).phase := rfl

/-- A step that moves worker `i` to the point `pc` is a pool step if it is one up to that worker's
phase. -/
theorem pool_step_of_worker {s s' : Sys N} (i : Fin N) (pc : WorkerPc)
    (hworker : s'.worker = Function.update s.worker i pc)
    (h : WorkPool.Step s.pool
      { queue := s'.queue, active := s'.activeJobs, phase := Function.update s.pool.phase i pc.phase,
        submitted := s'.submitted, taken := s'.taken, processed := s'.processed }) :
    WorkPool.Step s.pool s'.pool := by
  have hphase : s'.pool.phase = Function.update s.pool.phase i pc.phase := by
    simp only [Sys.pool, hworker, phase_update]
  rwa [← hphase] at h

/-- A step that leaves queue, counter and history alone, and moves one worker inside its phase, does
not concern the pool. -/
theorem pool_stutter {s s' : Sys N} {i : Fin N} {pc : WorkerPc} (hqueue : s'.queue = s.queue)
    (hactive : s'.activeJobs = s.activeJobs) (hsub : s'.submitted = s.submitted)
    (htaken : s'.taken = s.taken) (hproc : s'.processed = s.processed)
    (hworker : s'.worker = Function.update s.worker i pc)
    (hphase : pc.phase = (s.worker i).phase) : WorkPool.Step s.pool s'.pool := by
  have hsame : s'.pool = s.pool := by
    rw [Sys.pool, Sys.pool, hqueue, hactive, hsub, htaken, hproc, hworker, phase_update, hphase,
      Function.update_eq_self]
  rw [hsame]
  exact .stutter _

/-- A step that changes neither queue, counter, history nor phases does not concern the pool. -/
theorem pool_same {s s' : Sys N} (hsame : s'.pool = s.pool) : WorkPool.Step s.pool s'.pool := by
  rw [hsame]
  exact .stutter _

/-- A started command is part of its job. -/
theorem phase_startCmd (job : Job) (cmd : List Byte) (rest : List (List Byte)) :
    (startCmd job cmd rest).phase = .working job := by
  obtain ⟨id, δ, heq⟩ | heq := startCmd_eq job cmd rest <;> rw [heq] <;> rfl

/-- **Every step of a worker is a step of the pool.** -/
theorem workerStep_pool {s s' : Sys N} {i : Fin N} {now : ℤ}
    (hstep : workerStep s i now = some s') : WorkPool.Step s.pool s'.pool := by
  cases workerStep_trans hstep with
  | top hpc _ | wait hpc _ _ | woken hpc _ | leave hpc _ _ | pass hpc _ | retry hpc _
    | lockStats hpc _ | fold hpc | lockFinish hpc _ =>
      exact pool_stutter rfl rfl rfl rfl rfl rfl (by rw [hpc]; rfl)
  | take hpc hqueue =>
      exact pool_step_of_worker i _ rfl
        (.take s.pool i _ _ (by rw [pool_phase, hpc]; rfl) hqueue)
  | call hpc =>
      exact pool_stutter rfl rfl rfl rfl rfl rfl (by rw [hpc, phase_startCmd]; rfl)
  | @counter job rest cpc t r hpc hcounter =>
      obtain ⟨owner, files, rfl⟩ := counterStep_frame hcounter
      refine pool_stutter rfl rfl rfl rfl rfl rfl ?_
      rw [hpc]
      cases r <;> rfl
  | @process job hpc =>
      exact pool_step_of_worker i (.lockStats job (now - job.submitTime)) rfl
        (.process s.pool i job (by rw [pool_phase, hpc]; rfl))
  | @report job pc hpc _ =>
      exact pool_step_of_worker i .top rfl (.report s.pool i job (by rw [pool_phase, hpc]; rfl))

/-- Waking workers does not change their phases. -/
theorem phase_wakeWorkers (s : Sys N) (wake : Fin N → Bool) :
    (fun i => ((s.wakeWorkers wake).worker i).phase) = fun i => (s.worker i).phase :=
  funext (wakeWorkers_view WorkerPc.phase rfl s wake)

/-- **Every step of the main thread is a step of the pool**, if it creates no thread twice. -/
theorem mainStep_pool {s s' : Sys N} {now : ℤ} {wake : Fin N → Bool}
    (hunborn : ∀ i prog, s.main = .create i prog → ∀ j : Fin N, i ≤ j → s.worker j = .unborn)
    (hstep : mainStep s now wake = some s') : WorkPool.Step s.pool s'.pool := by
  cases mainStep_trans hstep with
  | @create k prog hpc hk =>
      exact pool_stutter rfl rfl rfl rfl rfl rfl (by rw [hunborn k prog hpc ⟨k, hk⟩ le_rfl]; rfl)
  | created | eof | readSubmit | readMsleep | readWait | lockSubmit | lockWait | wait | wokenWait
    | pass | join | joined | writeStats => exact pool_same rfl
  | @submit cmd rest hpc hsignal =>
      have hsubmit := WorkPool.Step.submit s.pool ⟨cmd, now, s.submitted.length⟩
      convert hsubmit using 1
      have hphase := phase_wakeWorkers (s.unlock .queue) wake
      simp only [Sys.pool, enqueue, hphase]
      rfl
  | shutDown =>
      have hphase := phase_wakeWorkers (s.unlock .queue) fun _ => true
      refine pool_same ?_
      simp only [Sys.pool, hphase]
      rfl

end StudiesOS.JobDispatcher
