import StudiesOS.JobDispatcher.Control

/-! # Every job is executed exactly once
The accounting of the pool and the control invariant together say what becomes of the jobs of a
command file: they are dequeued in the order of submission, each by one worker, `active_jobs` counts
the unreported ones, no worker stops early, and at the end every job has been processed once. -/

namespace StudiesOS.JobDispatcher

open Finset

variable {N : ℕ}

/-- The texts of the jobs that a site will submit after its wait. -/
def WaitSite.toSubmit : WaitSite → List (List Byte)
  | .barrier rest => jobsOf rest
  | .final => []

/-- The texts of the jobs that the main thread has yet to submit. -/
def MainPc.toSubmit : MainPc → List (List Byte)
  | .create _ prog => jobsOf prog
  | .read prog => jobsOf prog
  | .lockSubmit cmd rest => cmd :: jobsOf rest
  | .submit cmd rest => cmd :: jobsOf rest
  | .lockWait site => site.toSubmit
  | .testWait site => site.toSubmit
  | .blockedWait site => site.toSubmit
  | .wokenWait site => site.toSubmit
  | .join _ => []
  | .writeStats => []
  | .finished => []

/-- A main thread past its last wait has nothing left to submit. -/
theorem MainPc.toSubmit_of_shutDown {pc : MainPc} (h : pc.shutDown = true) : pc.toSubmit = [] := by
  cases pc <;> simp_all [shutDown, toSubmit]

/-! ## The jobs of a run are those of the file -/

/-- A step of a worker submits nothing. -/
theorem workerStep_submitted {s s' : Sys N} {i : Fin N} {now : ℤ}
    (hstep : workerStep s i now = some s') :
    s'.submitted = s.submitted ∧ s'.main.toSubmit = s.main.toSubmit := by
  cases workerStep_trans hstep with
  | top | wait | woken | leave | pass | retry | take | call | process | lockStats | fold
    | lockFinish => exact ⟨rfl, rfl⟩
  | counter _ hcounter =>
      obtain ⟨owner, files, rfl⟩ := counterStep_frame hcounter
      exact ⟨rfl, rfl⟩
  | report _ hmain =>
      refine ⟨rfl, ?_⟩
      obtain ⟨rfl, -⟩ | ⟨site, hs, rfl⟩ := hmain
      · rfl
      · rw [hs]
        rfl

/-- A step of the main thread submits the next job of the file or nothing. -/
theorem mainStep_submitted {s s' : Sys N} {now : ℤ} {wake : Fin N → Bool}
    (hstep : mainStep s now wake = some s') :
    (s'.submitted = s.submitted ∧ s'.main.toSubmit = s.main.toSubmit) ∨
      ∃ cmd, s.main.toSubmit = cmd :: s'.main.toSubmit ∧
        s'.submitted = s.submitted ++ [⟨cmd, now, s.submitted.length⟩] := by
  cases mainStep_trans hstep with
  | create hpc _ | created hpc _ | eof hpc | readSubmit hpc | readMsleep hpc | readWait hpc
    | lockSubmit hpc _ | lockWait hpc _ | wait hpc _ | wokenWait hpc _ | pass hpc _
    | shutDown hpc _ | join hpc _ _ | joined hpc _ | writeStats hpc =>
      rw [hpc]
      exact Or.inl ⟨rfl, rfl⟩
  | @submit cmd rest hpc _ =>
      rw [hpc]
      exact Or.inr ⟨cmd, rfl, rfl⟩

/-- **A step submits the next job of the file or nothing.** -/
theorem step_submitted {s s' : Sys N} {a : Act N} (hstep : step s a = some s') :
    (s'.submitted = s.submitted ∧ s'.main.toSubmit = s.main.toSubmit) ∨
      ∃ cmd now, s.main.toSubmit = cmd :: s'.main.toSubmit ∧
        s'.submitted = s.submitted ++ [⟨cmd, now, s.submitted.length⟩] := by
  cases step_trans hstep with
  | worker => exact Or.inl (workerStep_submitted hstep)
  | @main now wake _ _ =>
      obtain h | ⟨cmd, h⟩ := mainStep_submitted hstep
      · exact Or.inl h
      · exact Or.inr ⟨cmd, now, h⟩
  | spuriousWorker => exact Or.inl ⟨rfl, rfl⟩
  | spuriousMain hpc =>
      rw [hpc]
      exact Or.inl ⟨rfl, rfl⟩

/-- **The submitted jobs** carry consecutive numbers, and with the jobs to come they are the jobs of
the file. -/
theorem reachable_submitted {prog : List Directive} {n : ℕ} {old : Fin 100 → Option (List Byte)}
    {as : List (Act N)} {s : Sys N} (h : run step (Sys.init N prog n old) as = some s) :
    s.submitted.map Job.seq = List.range s.submitted.length ∧
      s.submitted.map Job.cmd ++ s.main.toSubmit = jobsOf prog := by
  refine run_invariant (I := fun s : Sys N => s.submitted.map Job.seq = List.range s.submitted.length ∧
    s.submitted.map Job.cmd ++ s.main.toSubmit = jobsOf prog) ⟨rfl, rfl⟩ ?_ h
  rintro s a s' ⟨hseq, hcmd⟩ hstep
  obtain ⟨hsub, hto⟩ | ⟨cmd, now, hto, hsub⟩ := step_submitted hstep
  · rw [hsub, hto]
    exact ⟨hseq, hcmd⟩
  · refine ⟨?_, ?_⟩
    · rw [hsub, List.map_append, hseq, List.length_append, List.length_singleton, List.range_succ]
      rfl
    · rw [← hcmd, hto, hsub, List.map_append, List.append_assoc]
      rfl

/-! ## The result -/

/-- The job that a worker has dequeued and not yet reported by decrementing `active_jobs`. -/
def WorkerPc.job : WorkerPc → Option Job
  | .exec job _ => some job
  | .counter job _ _ => some job
  | .lockStats job _ => some job
  | .foldStats job _ => some job
  | .lockFinish job => some job
  | .finish job => some job
  | _ => none

/-- The load of a worker in the pool is one exactly when it has an unreported job. -/
theorem load_phase (pc : WorkerPc) : pc.phase.load = if pc.job.isSome then 1 else 0 := by
  cases pc <;> rfl

/-- **What becomes of the jobs of a command file**, at any moment of a run. -/
structure ExactlyOnce (prog : List Directive) (s : Sys N) : Prop where
  /-- The submitted jobs are the first jobs of the file, numbered in order. -/
  submitted : s.submitted.map Job.cmd <+: jobsOf prog ∧
    s.submitted.map Job.seq = List.range s.submitted.length
  /-- Jobs are dequeued in the order of submission, and each of them by one worker. -/
  dequeued : s.submitted = s.taken.map Prod.snd ++ s.queue ∧ (s.taken.map fun t => t.2.seq).Nodup
  /-- `active_jobs` is the length of the queue plus the number of workers with an unreported job. -/
  active : s.activeJobs = s.queue.length + (univ.filter fun i => (s.worker i).job.isSome).card
  /-- `active_jobs` is never negative. -/
  nonneg : 0 ≤ s.activeJobs
  /-- `dequeue` never returns `NULL` in `worker_main`. -/
  grabs : ∀ i, s.worker i = .grab → (dequeue s.queue).isSome
  /-- No job is processed twice, and only by the worker that dequeued it. -/
  once : (s.processed.map fun t => t.2.seq).Nodup ∧ ∀ t ∈ s.processed, t ∈ s.taken
  /-- A worker leaves its loop only when every job of the file has been submitted and processed. -/
  exits : ∀ i, s.worker i = .exited →
    (s.processed.map Prod.snd).Perm s.submitted ∧ s.submitted.map Job.cmd = jobsOf prog
  /-- When `join_workers` has returned, every job of the file has been processed. -/
  joined : s.main = .writeStats ∨ s.main = .finished →
    (s.processed.map Prod.snd).Perm s.submitted ∧ s.submitted.map Job.cmd = jobsOf prog

/-- **Exactly-once execution.** In every run, for every command file and any number of workers, every
job is dequeued once, in order, and processed once before the program ends. -/
theorem jobs_exactlyOnce {prog : List Directive} {n : ℕ} {old : Fin 100 → Option (List Byte)}
    {as : List (Act N)} {s : Sys N} (h : run step (Sys.init N prog n old) as = some s) :
    ExactlyOnce prog s := by
  obtain ⟨hcontrol, hsound⟩ := reachable_control h
  obtain ⟨hseq, hcmd⟩ := reachable_submitted h
  have hfifo : s.submitted = s.taken.map Prod.snd ++ s.queue := hsound.fifo
  have hnodup : (s.taken.map fun t => t.2.seq).Nodup := by
    have hrange := List.nodup_range (n := s.submitted.length)
    rw [← hseq, hfifo, List.map_append, List.map_map] at hrange
    exact (List.nodup_append.mp hrange).1
  have hsubset : s.processed.Subperm s.taken := by
    rw [← Multiset.coe_le, show (s.taken : Multiset (Fin N × Job)) = _ from hsound.flow]
    exact Multiset.le_add_right _ _
  -- `done` is set when the counter is zero, and then nobody has an unreported job
  have hdone : s.done = true →
      (s.processed.map Prod.snd).Perm s.submitted ∧ s.submitted.map Job.cmd = jobsOf prog := by
    intro hdone
    obtain ⟨hperm, htaken⟩ := hsound.all_processed (hcontrol.drained hdone)
    refine ⟨(hperm.map Prod.snd).trans (List.Perm.of_eq htaken), ?_⟩
    rw [← hcmd, MainPc.toSubmit_of_shutDown (hcontrol.shut.symm.trans hdone), List.append_nil]
  refine ⟨⟨⟨_, hcmd⟩, hseq⟩, ⟨hfifo, hnodup⟩, ?_, hsound.active_nonneg, fun i hi => ?_,
    ⟨?_, fun t ht => hsubset.subset ht⟩, fun i hi => hdone (hcontrol.exited i hi), fun hmain => ?_⟩
  · have hacc : s.activeJobs = s.queue.length + ∑ i, (s.worker i).phase.load := hsound.accounting
    rw [hacc, card_filter]
    simp only [load_phase]
  · cases hqueue : s.queue with
    | nil => exact absurd hqueue (hcontrol.grab i hi)
    | cons job queue => rfl
  · obtain ⟨l, hperm, hsub⟩ := hsubset
    exact (hperm.map _).nodup_iff.mp ((hsub.map _).nodup hnodup)
  · refine hdone (hcontrol.shut.trans ?_)
    obtain hmain | hmain := hmain <;> rw [hmain] <;> rfl

/-- `n` steps of the main thread. -/
def mainSteps (N n : ℕ) : List (Act N) := List.replicate n (.main 0 fun _ => true)

/-- `n` steps of worker `i`, with its clock at `now`. -/
def workerSteps (i : Fin N) (n : ℕ) (now : ℤ) : List (Act N) := List.replicate n (.worker i now)

/-- **Two workers, two jobs, one counter**: worker `i` has the lock of the counter, `j` waits for it,
and the main thread waits for both; the jobs end at `endI` and `endJ`, and then the main thread is back
at its test of `active_jobs`. -/
def sharedRun (i j : Fin 2) (endI endJ : ℤ) : List (Act 2) :=
  mainSteps 2 12 ++ workerSteps i 5 endI ++ workerSteps j 4 endJ ++ workerSteps i 4 endI ++
    workerSteps j 2 endJ ++ workerSteps i 2 endI ++ workerSteps j 4 endJ ++ workerSteps i 3 endI ++
    workerSteps j 4 endJ ++ mainSteps 2 1

/-- The run goes on until the workers are joined. -/
def joinedRun (i j : Fin 2) (endI endJ : ℤ) : List (Act 2) :=
  sharedRun i j endI endJ ++ mainSteps 2 1 ++ workerSteps i 2 endI ++ workerSteps j 2 endJ ++
    mainSteps 2 3

/-- Two jobs that count up. -/
def incrementFile : List Directive := processCommands (lit "worker increment 0\nworker increment 0\n")

theorem joinedRun_exactlyOnce :
    ∃ s, run step (Sys.init 2 incrementFile 1 fun _ => none) (joinedRun 0 1 7 4) = some s ∧
      s.main = .writeStats ∧ s.processed.map (fun t => (t.1, t.2.seq)) = [(0, 0), (1, 1)] ∧
      ExactlyOnce incrementFile s := by
  have heval : ((run step (Sys.init 2 incrementFile 1 fun _ => none) (joinedRun 0 1 7 4)).map
      fun s => (s.main, s.processed.map fun t => (t.1, t.2.seq)))
        = some (.writeStats, [(0, 0), (1, 1)]) := by
    decide +kernel
  obtain ⟨s, hs, heq⟩ := Option.map_eq_some_iff.mp heval
  obtain ⟨hmain, hprocessed⟩ := Prod.mk.inj heq
  exact ⟨s, hs, hmain, hprocessed, jobs_exactlyOnce hs⟩

end StudiesOS.JobDispatcher
