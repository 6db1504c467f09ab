import StudiesOS.JobDispatcher.Machine

/-! # What a step can do
The steps of the dispatcher and of a worker one by one (`MainTrans`, `WorkerTrans`), each with its
guards and its effect, so that an invariant is proved by cases on them, and the parts of the steps. -/

namespace StudiesOS.JobDispatcher

variable {N : ℕ}

/-! ## The parts of a step -/

@[simp] theorem setWorker_of_ne (s : Sys N) {i j : Fin N} (pc : WorkerPc) (h : j ≠ i) :
    (s.setWorker i pc).worker j = s.worker j := by
  simp [Sys.setWorker, h]

/-- A view of the workers is not changed by a move of one of them that it does not tell. -/
theorem update_view {α : Type*} (view : WorkerPc → α) {f : Fin N → WorkerPc} {i : Fin N}
    {pc : WorkerPc} (h : view pc = view (f i)) (j : Fin N) :
    view (Function.update f i pc j) = view (f j) := by
  by_cases hji : j = i
  · rw [hji, Function.update_self, h]
  · rw [Function.update_of_ne hji]

/-- The state in which thread `t` has taken the mutex `l`. -/
def Sys.own (s : Sys N) (l : Lock) (t : Thread N) : Sys N :=
  { s with owner := Function.update s.owner l (some t) }

/-- `pthread_mutex_lock` returns when the mutex is free, and then the caller owns it. -/
theorem lock_eq_some {s s' : Sys N} {l : Lock} {t : Thread N} :
    s.lock l t = some s' ↔ s.owner l = none ∧ s.own l t = s' := by
  rw [Sys.lock, Sys.own]
  split_ifs with h <;> simp [h]

/-- Woken workers are not blocked, and no other worker moves. -/
theorem wakeWorkers_worker (s : Sys N) (wake : Fin N → Bool) (i : Fin N) :
    (s.wakeWorkers wake).worker i = s.worker i ∨
      (s.worker i = .blocked ∧ (s.wakeWorkers wake).worker i = .woken) := by
  simp only [Sys.wakeWorkers]
  split_ifs with h
  · exact Or.inr ⟨h.1, rfl⟩
  · exact Or.inl rfl

/-- A view of the workers that does not tell a woken worker from a blocked one is not changed by
waking workers. -/
theorem wakeWorkers_view {α : Type*} (view : WorkerPc → α) (h : view .woken = view .blocked)
    (s : Sys N) (wake : Fin N → Bool) (i : Fin N) :
    view ((s.wakeWorkers wake).worker i) = view (s.worker i) := by
  rcases wakeWorkers_worker s wake i with heq | ⟨hold, hnew⟩
  · rw [heq]
  · rw [hold, hnew, h]

/-- Waking workers brings them to no other point. -/
theorem wakeWorkers_iff {s : Sys N} {wake : Fin N → Bool} {i : Fin N} {pc : WorkerPc}
    (hblocked : pc ≠ .blocked) (hwoken : pc ≠ .woken) :
    (s.wakeWorkers wake).worker i = pc ↔ s.worker i = pc :=
  iff_of_eq (wakeWorkers_view (· = pc) (by simp [hblocked.symm, hwoken.symm]) s wake i)

/-- A started command is in front of a counter mutex or is already over. -/
theorem startCmd_eq (job : Job) (cmd : List Byte) (rest : List (List Byte)) :
    (∃ id δ, startCmd job cmd rest = .counter job rest (.lock id δ)) ∨
      startCmd job cmd rest = .exec job rest := by
  unfold startCmd
  split
  · split
    · exact Or.inl ⟨_, _, rfl⟩
    · exact Or.inr rfl
  · exact Or.inr rfl
  · exact Or.inr rfl

/-- `update_counter` touches neither the queue nor the workers. -/
theorem counterStep_frame {s t : Sys N} {i : Fin N} {cpc : CounterPc} {r : Option CounterPc}
    (h : counterStep s i cpc = some (t, r)) :
    ∃ owner files, t = { s with owner := owner, files := files } := by
  cases cpc with
  | lock id δ =>
      simp only [counterStep, Option.map_eq_some_iff, lock_eq_some] at h
      obtain ⟨_, ⟨-, rfl⟩, heq⟩ := h
      obtain ⟨rfl, -⟩ := Prod.mk.inj heq
      exact ⟨_, _, rfl⟩
  | read id δ =>
      simp only [counterStep] at h
      split at h <;> cases h <;> exact ⟨_, _, rfl⟩
  | write | truncate | unlock =>
      cases h
      exact ⟨_, _, rfl⟩

/-- **What reporting a job changes**: the counter, and a main thread blocked on `done_cond` is woken
when the counter drops to zero. -/
theorem finishJob_eq (s : Sys N) :
    ∃ pc, s.finishJob = { s with activeJobs := s.activeJobs - 1, main := pc } ∧
      (pc = s.main ∧ ((∃ site, pc = .blockedWait site) → s.activeJobs - 1 ≠ 0) ∨
        ∃ site, s.main = .blockedWait site ∧ pc = .wokenWait site) := by
  rw [Sys.finishJob]
  split_ifs with h
  · rw [Sys.signalMain]
    split
    · rename_i site hmain
      exact ⟨_, rfl, Or.inr ⟨site, hmain, rfl⟩⟩
    · rename_i hmain
      exact ⟨_, rfl, Or.inl ⟨rfl, fun ⟨site, hsite⟩ => absurd hsite (hmain site)⟩⟩
  · exact ⟨_, rfl, Or.inl ⟨rfl, fun _ => h⟩⟩

/-! ## A worker -/

/-- **The steps of worker `i`** in `worker_main`. -/
inductive WorkerTrans (s : Sys N) (i : Fin N) (now : ℤ) : Sys N → Prop
  /-- At the top of the loop the worker takes `queue_lock`. -/
  | top (hpc : s.worker i = .top) (hfree : s.owner .queue = none) :
      WorkerTrans s i now ((s.own .queue (.worker i)).setWorker i .test)
  /-- There is no job, and the worker waits for one. -/
  | wait (hpc : s.worker i = .test) (hqueue : s.queue = []) (hdone : s.done = false) :
      WorkerTrans s i now ((s.unlock .queue).setWorker i .blocked)
  /-- A woken worker takes `queue_lock` again. -/
  | woken (hpc : s.worker i = .woken) (hfree : s.owner .queue = none) :
      WorkerTrans s i now ((s.own .queue (.worker i)).setWorker i .test)
  /-- There is no job and there will be none, and the worker leaves its loop. -/
  | leave (hpc : s.worker i = .test) (hqueue : s.queue = []) (hdone : s.done = true) :
      WorkerTrans s i now ((s.unlock .queue).setWorker i .exited)
  /-- There is a job. -/
  | pass (hpc : s.worker i = .test) (hqueue : s.queue ≠ []) :
      WorkerTrans s i now (s.setWorker i .grab)
  /-- `dequeue` returns `NULL`. -/
  | retry (hpc : s.worker i = .grab) (hqueue : s.queue = []) :
      WorkerTrans s i now ((s.unlock .queue).setWorker i .top)
  /-- `dequeue` returns a job. -/
  | take {job : Job} {queue : List Job} (hpc : s.worker i = .grab) (hqueue : s.queue = job :: queue) :
      WorkerTrans s i now
        ({ s.unlock .queue with queue := queue, taken := s.taken ++ [(i, job)] }.setWorker i
          (.exec job (processJob job.cmd)))
  /-- `process_job` calls `run_cmd`. -/
  | call {job : Job} {cmd : List Byte} {rest : List (List Byte)}
      (hpc : s.worker i = .exec job (cmd :: rest)) :
      WorkerTrans s i now (s.setWorker i (startCmd job cmd rest))
  /-- A step of `update_counter`. -/
  | counter {job : Job} {rest : List (List Byte)} {cpc : CounterPc} {t : Sys N}
      {r : Option CounterPc} (hpc : s.worker i = .counter job rest cpc)
      (hcounter : counterStep s i cpc = some (t, r)) :
      WorkerTrans s i now (t.setWorker i (afterCounter job rest r))
  /-- `process_job` returns. -/
  | process {job : Job} (hpc : s.worker i = .exec job []) :
      WorkerTrans s i now ({ s with processed := s.processed ++ [(i, job)] }.setWorker i
        (.lockStats job (now - job.submitTime)))
  /-- The worker takes `stats_lock`. -/
  | lockStats {job : Job} {turnaround : ℤ} (hpc : s.worker i = .lockStats job turnaround)
      (hfree : s.owner .stats = none) :
      WorkerTrans s i now ((s.own .stats (.worker i)).setWorker i (.foldStats job turnaround))
  /-- The worker adds the turnaround. -/
  | fold {job : Job} {turnaround : ℤ} (hpc : s.worker i = .foldStats job turnaround) :
      WorkerTrans s i now
        ({ s.unlock .stats with stats := s.stats.add turnaround }.setWorker i (.lockFinish job))
  /-- The worker takes `queue_lock` to report the job. -/
  | lockFinish {job : Job} (hpc : s.worker i = .lockFinish job) (hfree : s.owner .queue = none) :
      WorkerTrans s i now ((s.own .queue (.worker i)).setWorker i (.finish job))
  /-- The worker reports the job; `pc` is where the main thread stands afterwards. -/
  | report {job : Job} {pc : MainPc} (hpc : s.worker i = .finish job)
      (hmain : pc = s.main ∧ ((∃ site, pc = .blockedWait site) → s.activeJobs - 1 ≠ 0) ∨
        ∃ site, s.main = .blockedWait site ∧ pc = .wokenWait site) :
      WorkerTrans s i now (({ s with activeJobs := s.activeJobs - 1, main := pc }.unlock
        .queue).setWorker i .top)

/-- **A step of a worker** is one of them. -/
theorem workerStep_trans {s s' : Sys N} {i : Fin N} {now : ℤ}
    (h : workerStep s i now = some s') : WorkerTrans s i now s' := by
  cases hpc : s.worker i with
  | unborn | blocked | exited => simp [workerStep, hpc] at h
  | top =>
      simp only [workerStep, hpc, Option.map_eq_some_iff, lock_eq_some] at h
      obtain ⟨_, ⟨hfree, rfl⟩, rfl⟩ := h
      exact .top hpc hfree
  | woken =>
      simp only [workerStep, hpc, Option.map_eq_some_iff, lock_eq_some] at h
      obtain ⟨_, ⟨hfree, rfl⟩, rfl⟩ := h
      exact .woken hpc hfree
  | test =>
      simp only [workerStep, hpc] at h
      split_ifs at h with hwait hstop <;> cases h
      · exact .wait hpc hwait.1 hwait.2
      · exact .leave hpc hstop.1 hstop.2
      · -- the loop is left and the thread does not stop, so there is a job
        refine .pass hpc fun hqueue => ?_
        cases hdone : s.done with
        | false => exact hwait ⟨hqueue, hdone⟩
        | true => exact hstop ⟨hqueue, hdone⟩
  | grab =>
      simp only [workerStep, hpc] at h
      cases hqueue : s.queue with
      | nil =>
          rw [hqueue] at h
          cases h
          exact .retry hpc hqueue
      | cons job queue =>
          rw [hqueue] at h
          cases h
          exact .take hpc hqueue
  | exec job rest =>
      cases rest <;> simp only [workerStep, hpc] at h <;> cases h
      · exact .process hpc
      · exact .call hpc
  | counter job rest cpc =>
      simp only [workerStep, hpc, Option.map_eq_some_iff] at h
      obtain ⟨_, hcounter, rfl⟩ := h
      exact .counter hpc hcounter
  | lockStats job turnaround =>
      simp only [workerStep, hpc, Option.map_eq_some_iff, lock_eq_some] at h
      obtain ⟨_, ⟨hfree, rfl⟩, rfl⟩ := h
      exact .lockStats hpc hfree
  | foldStats job turnaround =>
      simp only [workerStep, hpc] at h
      cases h
      exact .fold hpc
  | lockFinish job =>
      simp only [workerStep, hpc, Option.map_eq_some_iff, lock_eq_some] at h
      obtain ⟨_, ⟨hfree, rfl⟩, rfl⟩ := h
      exact .lockFinish hpc hfree
  | finish job =>
      simp only [workerStep, hpc] at h
      cases h
      obtain ⟨pc, heq, hmain⟩ := finishJob_eq s
      rw [heq]
      exact .report hpc hmain

/-! ## The main thread -/

/-- **The steps of the main thread**: `init_workers`, the lines of the command file, the waits, the
shutdown and `join_workers`. -/
inductive MainTrans (s : Sys N) (now : ℤ) (wake : Fin N → Bool) : Sys N → Prop
  /-- A worker is created. -/
  | create {k : ℕ} {prog : List Directive} (hpc : s.main = .create k prog) (hk : k < N) :
      MainTrans s now wake { s.setWorker ⟨k, hk⟩ .top with main := .create (k + 1) prog }
  /-- All workers have been created. -/
  | created {k : ℕ} {prog : List Directive} (hpc : s.main = .create k prog) (hk : N ≤ k) :
      MainTrans s now wake { s with main := .read prog }
  /-- The command file is at its end. -/
  | eof (hpc : s.main = .read []) : MainTrans s now wake { s with main := .lockWait .final }
  /-- The line is a job. -/
  | readSubmit {cmd : List Byte} {rest : List Directive} (hpc : s.main = .read (.submit cmd :: rest)) :
      MainTrans s now wake { s with main := .lockSubmit cmd rest }
  /-- The line is a `dispatcher_msleep`. -/
  | readMsleep {us : ℤ} {rest : List Directive} (hpc : s.main = .read (.msleep us :: rest)) :
      MainTrans s now wake { s with main := .read rest }
  /-- The line is a `dispatcher_wait`. -/
  | readWait {rest : List Directive} (hpc : s.main = .read (.wait :: rest)) :
      MainTrans s now wake { s with main := .lockWait (.barrier rest) }
  /-- `queue_lock` is taken to enqueue a job. -/
  | lockSubmit {cmd : List Byte} {rest : List Directive} (hpc : s.main = .lockSubmit cmd rest)
      (hfree : s.owner .queue = none) :
      MainTrans s now wake { s.own .queue .main with main := .submit cmd rest }
  /-- The job is enqueued. -/
  | submit {cmd : List Byte} {rest : List Directive} (hpc : s.main = .submit cmd rest)
      (hsignal : s.SignalWakes wake) :
      MainTrans s now wake { (s.unlock .queue).wakeWorkers wake with
        queue := enqueue s.queue ⟨cmd, now, s.submitted.length⟩
        activeJobs := s.activeJobs + 1
        submitted := s.submitted ++ [⟨cmd, now, s.submitted.length⟩]
        main := .read rest }
  /-- `queue_lock` is taken to wait. -/
  | lockWait {site : WaitSite} (hpc : s.main = .lockWait site) (hfree : s.owner .queue = none) :
      MainTrans s now wake { s.own .queue .main with main := .testWait site }
  /-- There are active jobs, and the main thread waits. -/
  | wait {site : WaitSite} (hpc : s.main = .testWait site) (hactive : 0 < s.activeJobs) :
      MainTrans s now wake { s.unlock .queue with main := .blockedWait site }
  /-- The woken main thread takes `queue_lock` again. -/
  | wokenWait {site : WaitSite} (hpc : s.main = .wokenWait site) (hfree : s.owner .queue = none) :
      MainTrans s now wake { s.own .queue .main with main := .testWait site }
  /-- The barrier is passed. -/
  | pass {rest : List Directive} (hpc : s.main = .testWait (.barrier rest))
      (hactive : s.activeJobs ≤ 0) :
      MainTrans s now wake { s.unlock .queue with main := .read rest }
  /-- `done` is set and everybody is woken. -/
  | shutDown (hpc : s.main = .testWait .final) (hactive : s.activeJobs ≤ 0) :
      MainTrans s now wake { (s.unlock .queue).wakeWorkers (fun _ => true) with
        done := true
        main := .join 0 }
  /-- A worker is joined. -/
  | join {k : ℕ} (hpc : s.main = .join k) (hk : k < N) (hexited : s.worker ⟨k, hk⟩ = .exited) :
      MainTrans s now wake { s with main := .join (k + 1) }
  /-- All workers have been joined. -/
  | joined {k : ℕ} (hpc : s.main = .join k) (hk : N ≤ k) :
      MainTrans s now wake { s with main := .writeStats }
  /-- The program ends. -/
  | writeStats (hpc : s.main = .writeStats) : MainTrans s now wake { s with main := .finished }

/-- **A step of the main thread** is one of them. -/
theorem mainStep_trans {s s' : Sys N} {now : ℤ} {wake : Fin N → Bool}
    (h : mainStep s now wake = some s') : MainTrans s now wake s' := by
  cases hpc : s.main with
  | blockedWait | finished => simp [mainStep, hpc] at h
  | create k prog =>
      simp only [mainStep, hpc] at h
      split_ifs at h with hk <;> cases h
      · exact .create hpc hk
      · exact .created hpc (Nat.le_of_not_lt hk)
  | read prog =>
      cases prog with
      | nil =>
          simp only [mainStep, hpc] at h
          cases h
          exact .eof hpc
      | cons d rest =>
          cases d <;> simp only [mainStep, hpc] at h <;> cases h
          · exact .readSubmit hpc
          · exact .readMsleep hpc
          · exact .readWait hpc
  | lockSubmit cmd rest =>
      simp only [mainStep, hpc, Option.map_eq_some_iff, lock_eq_some] at h
      obtain ⟨_, ⟨hfree, rfl⟩, rfl⟩ := h
      exact .lockSubmit hpc hfree
  | submit cmd rest =>
      simp only [mainStep, hpc] at h
      split_ifs at h with hsignal
      cases h
      exact .submit hpc hsignal
  | lockWait site =>
      simp only [mainStep, hpc, Option.map_eq_some_iff, lock_eq_some] at h
      obtain ⟨_, ⟨hfree, rfl⟩, rfl⟩ := h
      exact .lockWait hpc hfree
  | testWait site =>
      simp only [mainStep, hpc] at h
      split_ifs at h with hactive
      · cases h
        exact .wait hpc hactive
      · cases site <;> cases h
        · exact .pass hpc (not_lt.mp hactive)
        · exact .shutDown hpc (not_lt.mp hactive)
  | wokenWait site =>
      simp only [mainStep, hpc, Option.map_eq_some_iff, lock_eq_some] at h
      obtain ⟨_, ⟨hfree, rfl⟩, rfl⟩ := h
      exact .wokenWait hpc hfree
  | join k =>
      simp only [mainStep, hpc] at h
      split_ifs at h with hk hexited
      · cases h
        exact .join hpc hk hexited
      · cases h
        exact .joined hpc (Nat.le_of_not_lt hk)
  | writeStats =>
      simp only [mainStep, hpc] at h
      cases h
      exact .writeStats hpc

/-! ## Any step -/

/-- **The steps of the program**, spurious wake-ups included. -/
inductive Trans (s : Sys N) : Act N → Sys N → Prop
  /-- A step of a worker. -/
  | worker {i : Fin N} {now : ℤ} {s' : Sys N} (h : WorkerTrans s i now s') :
      Trans s (.worker i now) s'
  /-- A step of the main thread. -/
  | main {now : ℤ} {wake : Fin N → Bool} {s' : Sys N} (h : MainTrans s now wake s') :
      Trans s (.main now wake) s'
  /-- A worker wakes up without a signal. -/
  | spuriousWorker {i : Fin N} (hpc : s.worker i = .blocked) :
      Trans s (.spuriousWorker i) (s.setWorker i .woken)
  /-- The main thread wakes up without a signal. -/
  | spuriousMain {site : WaitSite} (hpc : s.main = .blockedWait site) :
      Trans s .spuriousMain { s with main := .wokenWait site }

/-- **A step** is one of them. -/
theorem step_trans {s s' : Sys N} {a : Act N} (h : step s a = some s') : Trans s a s' := by
  cases a with
  | worker i now => exact .worker (workerStep_trans h)
  | main now wake => exact .main (mainStep_trans h)
  | spuriousWorker i =>
      simp only [step] at h
      split_ifs at h with hpc
      cases h
      exact .spuriousWorker hpc
  | spuriousMain =>
      simp only [step] at h
      split at h
      · rename_i site hpc
        cases h
        exact .spuriousMain hpc
      · cases h

end StudiesOS.JobDispatcher
