import StudiesOS.JobDispatcher.Commands
import StudiesOS.Transition.Run
import Mathlib.Data.Fintype.Basic

/-! # The dispatcher and its workers
The whole program: `main` of `dispatcher.c` with `init_workers`, `process_commands`, the shutdown
and `join_workers`, and `N` threads in `worker_main`. A thread is at a program point (`MainPc`,
`WorkerPc`); a step takes one thread over the next lock operation, critical section or file
operation, so that every interleaving is a list of actions (`Act`). What is not determined by the
program is in the action: which thread moves, what the clock shows, whom `pthread_cond_signal` wakes
and where a condition wait wakes up spuriously.

`Sys.submitted`, `Sys.taken` and `Sys.processed` are ghost state: the history of the jobs. -/

namespace StudiesOS.JobDispatcher

/-! ## The queue of `queue.c` -/

/-- A `Job` node; `seq` is ghost, the number of jobs submitted before it. -/
structure Job where
  /-- The command text. -/
  cmd : List Byte
  /-- When the dispatcher read the line. -/
  submitTime : ℤ
  /-- Ghost: the position in the order of submission. -/
  seq : ℕ
deriving DecidableEq, Repr

/-- `enqueue`: link the node behind the tail. -/
def enqueue (queue : List Job) (j : Job) : List Job := queue ++ [j]

/-- `dequeue`: the head and the remaining queue, or `NULL` when the queue is empty. -/
def dequeue : List Job → Option (Job × List Job)
  | [] => none
  | j :: queue => some (j, queue)

/-! ## Threads and program points -/

/-- The mutexes of the program. -/
inductive Lock
  /-- `queue_lock`. -/
  | queue
  /-- `stats_lock`. -/
  | stats
  /-- `counter_locks[id]`. -/
  | counter (id : Fin 100)
deriving DecidableEq, Repr

/-- The threads of the program. -/
inductive Thread (N : ℕ)
  /-- The dispatcher. -/
  | main
  /-- A thread in `worker_main`. -/
  | worker (i : Fin N)
deriving DecidableEq, Repr

/-- The program points of `update_counter` behind its range check. -/
inductive CounterPc
  /-- About to lock `counter_locks[id]`. -/
  | lock (id : Fin 100) (delta : ℤ)
  /-- About to open and read the file. -/
  | read (id : Fin 100) (delta : ℤ)
  /-- About to rewind and write `val`, which is the value read plus `delta`. -/
  | write (id : Fin 100) (delta val : ℤ)
  /-- About to cut the file off at `len` bytes. -/
  | truncate (id : Fin 100) (len : ℕ)
  /-- About to unlock `counter_locks[id]`. -/
  | unlock (id : Fin 100)
deriving DecidableEq, Repr

/-- The program points of `worker_main`. -/
inductive WorkerPc
  /-- Not created yet. -/
  | unborn
  /-- At the top of the loop, about to lock `queue_lock`. -/
  | top
  /-- At the `while` of the condition wait, holding `queue_lock`. -/
  | test
  /-- In `pthread_cond_wait(&queue_cond, ..)`, not signalled. -/
  | blocked
  /-- In `pthread_cond_wait`, woken, about to lock `queue_lock` again. -/
  | woken
  /-- About to call `dequeue`, holding `queue_lock`. -/
  | grab
  /-- In `process_job`, with these `run_cmd` calls to go. -/
  | exec (job : Job) (rest : List (List Byte))
  /-- In `update_counter`, called from there. -/
  | counter (job : Job) (rest : List (List Byte)) (pc : CounterPc)
  /-- About to lock `stats_lock`. -/
  | lockStats (job : Job) (turnaround : ℤ)
  /-- Updating the statistics, holding `stats_lock`. -/
  | foldStats (job : Job) (turnaround : ℤ)
  /-- About to lock `queue_lock` to report the job as done. -/
  | lockFinish (job : Job)
  /-- About to decrement `active_jobs`, holding `queue_lock`. -/
  | finish (job : Job)
  /-- Behind the loop. -/
  | exited
deriving DecidableEq, Repr

/-- The two places where `main` waits for `active_jobs` to drop to zero. -/
inductive WaitSite
  /-- At a `dispatcher_wait` line, with these lines to go. -/
  | barrier (rest : List Directive)
  /-- In `main`, before `done = 1`. -/
  | final
deriving DecidableEq, Repr

/-- The program points of the main thread. -/
inductive MainPc
  /-- In `init_workers`, about to create thread `i`. -/
  | create (i : ℕ) (prog : List Directive)
  /-- In the line loop of `process_commands`. -/
  | read (prog : List Directive)
  /-- About to lock `queue_lock` to enqueue a job. -/
  | lockSubmit (cmd : List Byte) (rest : List Directive)
  /-- About to enqueue, holding `queue_lock`. -/
  | submit (cmd : List Byte) (rest : List Directive)
  /-- About to lock `queue_lock` to wait. -/
  | lockWait (site : WaitSite)
  /-- At `while (active_jobs > 0)`, holding `queue_lock`. -/
  | testWait (site : WaitSite)
  /-- In `pthread_cond_wait(&done_cond, ..)`, not signalled. -/
  | blockedWait (site : WaitSite)
  /-- In `pthread_cond_wait`, woken, about to lock `queue_lock` again. -/
  | wokenWait (site : WaitSite)
  /-- In `join_workers`, about to join thread `i`. -/
  | join (i : ℕ)
  /-- About to call `write_stats`. -/
  | writeStats
  /-- Returned. -/
  | finished
deriving DecidableEq, Repr

/-! ## The state -/

/-- The statistics of `dispatcher.c`. -/
structure Stats where
  /-- `stats_sum`. -/
  sum : ℤ
  /-- `stats_min`. -/
  min : ℤ
  /-- `stats_max`. -/
  max : ℤ
  /-- `stats_count`. -/
  count : ℤ
deriving DecidableEq, Repr

/-- The update of the statistics in `worker_main`. -/
def Stats.add (st : Stats) (turnaround : ℤ) : Stats where
  sum := st.sum + turnaround
  min := if st.count = 0 ∨ turnaround < st.min then turnaround else st.min
  max := if st.max < turnaround then turnaround else st.max
  count := st.count + 1

/-- **The state of the program** with `N` worker threads. -/
structure Sys (N : ℕ) where
  /-- The jobs from `queue_head` to `queue_tail`. -/
  queue : List Job
  /-- `active_jobs`. -/
  activeJobs : ℤ
  /-- `done`. -/
  done : Bool
  /-- The owner of each mutex. -/
  owner : Lock → Option (Thread N)
  /-- Where the main thread stands. -/
  main : MainPc
  /-- Where each worker stands. -/
  worker : Fin N → WorkerPc
  /-- `stats_sum`, `stats_min`, `stats_max`, `stats_count`. -/
  stats : Stats
  /-- The contents of `countXX.txt`, if the file exists. -/
  files : Fin 100 → Option (List Byte)
  /-- Ghost: the jobs enqueued so far, in order. -/
  submitted : List Job
  /-- Ghost: who dequeued which job, in order. -/
  taken : List (Fin N × Job)
  /-- Ghost: who has run `process_job` to its end on which job, in order. -/
  processed : List (Fin N × Job)

variable {N : ℕ}

/-- `create_counters(n)` on the files that exist before. -/
def createCounters (n : ℕ) (old : Fin 100 → Option (List Byte)) : Fin 100 → Option (List Byte) :=
  fun id => if (id : ℕ) < n then some (lit "0") else old id

/-- **The state in which `main` calls `init_workers`**, for a command file with the directives
`prog`, with `numCounters` counters and the files `old` in the directory. -/
def Sys.init (N : ℕ) (prog : List Directive) (numCounters : ℕ)
    (old : Fin 100 → Option (List Byte)) : Sys N where
  queue := []
  activeJobs := 0
  done := false
  owner := fun _ => none
  main := .create 0 prog
  worker := fun _ => .unborn
  stats := ⟨0, 0, 0, 0⟩
  files := createCounters numCounters old
  submitted := []
  taken := []
  processed := []

namespace Sys

/-- Move worker `i` to a program point. -/
def setWorker (s : Sys N) (i : Fin N) (pc : WorkerPc) : Sys N :=
  { s with worker := Function.update s.worker i pc }

/-- `pthread_mutex_lock`: disabled while the mutex is taken. -/
def lock (s : Sys N) (l : Lock) (t : Thread N) : Option (Sys N) :=
  if s.owner l = none then some { s with owner := Function.update s.owner l (some t) } else none

/-- `pthread_mutex_unlock`. -/
def unlock (s : Sys N) (l : Lock) : Sys N :=
  { s with owner := Function.update s.owner l none }

/-- Wake the workers in `wake` that are blocked on `queue_cond`. -/
def wakeWorkers (s : Sys N) (wake : Fin N → Bool) : Sys N :=
  { s with worker := fun i => if s.worker i = .blocked ∧ wake i then .woken else s.worker i }

/-- `pthread_cond_signal(&queue_cond)` may wake exactly the blocked workers in `wake`: at least one
of them if any is blocked. -/
def SignalWakes (s : Sys N) (wake : Fin N → Bool) : Prop :=
  (∃ i, s.worker i = .blocked) → ∃ i, s.worker i = .blocked ∧ wake i = true

instance (s : Sys N) (wake : Fin N → Bool) : Decidable (s.SignalWakes wake) :=
  inferInstanceAs (Decidable (_ → _))

/-- Change the contents of a counter file, which exists. -/
def editFile (s : Sys N) (id : Fin 100) (edit : List Byte → List Byte) : Sys N :=
  { s with files := Function.update s.files id ((s.files id).map edit) }

/-- `pthread_cond_signal(&done_cond)`: the main thread is its only waiter. -/
def signalMain (s : Sys N) : Sys N :=
  match s.main with
  | .blockedWait site => { s with main := .wokenWait site }
  | _ => s

/-- `active_jobs--`, and a signal to the main thread when it was the last job. -/
def finishJob (s : Sys N) : Sys N :=
  if s.activeJobs - 1 = 0 then { s with activeJobs := s.activeJobs - 1 }.signalMain
  else { s with activeJobs := s.activeJobs - 1 }

end Sys

/-! ## Steps of a worker -/

/-- `fprintf` at the start of a file: the new bytes replace the old ones they cover. -/
def overwrite (text content : List Byte) : List Byte := text ++ content.drop text.length

/-- **The steps of `update_counter`** behind its range check; `none` for the program point means
that the call has returned. -/
def counterStep (s : Sys N) (i : Fin N) : CounterPc → Option (Sys N × Option CounterPc)
  | .lock id δ => (s.lock (.counter id) (.worker i)).map fun s' => (s', some (.read id δ))
  | .read id δ =>
      match s.files id with
      | none => some (s, some (.unlock id))    -- fopen(.., "r+") fails
      | some content =>
          some (s, some (.write id δ (wrap 64 ((strtol (cstr content)).getD 0 + δ))))
  | .write id _ val =>
      -- the rest of a longer old number is still behind the new one
      some (s.editFile id (overwrite (numeral val)), some (.truncate id (numeral val).length))
  | .truncate id len => some (s.editFile id (List.take len), some (.unlock id))
  | .unlock id => some (s.unlock (.counter id), none)

/-- Where `process_job` goes on after a step of `update_counter`. -/
def afterCounter (job : Job) (rest : List (List Byte)) : Option CounterPc → WorkerPc
  | some pc => .counter job rest pc
  | none => .exec job rest

/-- The start of `run_cmd(cmd)`: into `update_counter` if its range check passes, otherwise the
command has no effect on the shared state. -/
def startCmd (job : Job) (cmd : List Byte) (rest : List (List Byte)) : WorkerPc :=
  match runCmd cmd with
  | .update id δ =>
      if h : 0 ≤ id ∧ id < 100 then .counter job rest (.lock ⟨id.toNat, by omega⟩ δ)
      else .exec job rest
  | .nothing | .usleep _ => .exec job rest

/-- **The next step of worker `i`** in `worker_main`; `now` is what its clock shows. -/
def workerStep (s : Sys N) (i : Fin N) (now : ℤ) : Option (Sys N) :=
  match s.worker i with
  | .unborn => none
  | .top => (s.lock .queue (.worker i)).map (·.setWorker i .test)
  | .test =>
      -- while (queue_head == NULL && !done) pthread_cond_wait(&queue_cond, &queue_lock);
      if s.queue = [] ∧ s.done = false then some ((s.unlock .queue).setWorker i .blocked)
      -- if (queue_head == NULL && done) break;
      else if s.queue = [] ∧ s.done = true then some ((s.unlock .queue).setWorker i .exited)
      else some (s.setWorker i .grab)
  | .blocked => none
  | .woken => (s.lock .queue (.worker i)).map (·.setWorker i .test)
  | .grab =>
      match dequeue s.queue with
      | none => some ((s.unlock .queue).setWorker i .top)    -- if (!job) continue;
      | some (job, queue) =>
          some ({ s.unlock .queue with queue := queue, taken := s.taken ++ [(i, job)] }.setWorker i
            (.exec job (processJob job.cmd)))
  | .exec job [] =>
      -- `t_end` is read here, and the turnaround is carried to the update of the statistics
      some ({ s with processed := s.processed ++ [(i, job)] }.setWorker i
        (.lockStats job (now - job.submitTime)))
  | .exec job (cmd :: rest) => some (s.setWorker i (startCmd job cmd rest))
  | .counter job rest pc =>
      (counterStep s i pc).map fun r => r.1.setWorker i (afterCounter job rest r.2)
  | .lockStats job turnaround =>
      (s.lock .stats (.worker i)).map (·.setWorker i (.foldStats job turnaround))
  | .foldStats job turnaround =>
      some ({ s.unlock .stats with stats := s.stats.add turnaround }.setWorker i (.lockFinish job))
  | .lockFinish job => (s.lock .queue (.worker i)).map (·.setWorker i (.finish job))
  | .finish _ => some ((s.finishJob.unlock .queue).setWorker i .top)
  | .exited => none

/-! ## Steps of the main thread -/

/-- **The next step of the main thread**; `now` is what its clock shows, `wake` whom
`pthread_cond_signal(&queue_cond)` wakes. -/
def mainStep (s : Sys N) (now : ℤ) (wake : Fin N → Bool) : Option (Sys N) :=
  match s.main with
  | .create i prog =>
      -- the new thread runs at once, while the others are still to be created
      if h : i < N then some { s.setWorker ⟨i, h⟩ .top with main := .create (i + 1) prog }
      else some { s with main := .read prog }
  | .read [] => some { s with main := .lockWait .final }
  | .read (.submit cmd :: rest) => some { s with main := .lockSubmit cmd rest }
  | .read (.msleep _ :: rest) => some { s with main := .read rest }
  | .read (.wait :: rest) => some { s with main := .lockWait (.barrier rest) }
  | .lockSubmit cmd rest =>
      (s.lock .queue .main).map fun s' => { s' with main := .submit cmd rest }
  | .submit cmd rest =>
      -- enqueue(..); active_jobs++; pthread_cond_signal(&queue_cond); in one critical section
      if s.SignalWakes wake then
        let job : Job := ⟨cmd, now, s.submitted.length⟩
        some { (s.unlock .queue).wakeWorkers wake with
          queue := enqueue s.queue job
          activeJobs := s.activeJobs + 1
          submitted := s.submitted ++ [job]
          main := .read rest }
      else none
  | .lockWait site => (s.lock .queue .main).map fun s' => { s' with main := .testWait site }
  | .testWait site =>
      -- while (active_jobs > 0) pthread_cond_wait(&done_cond, &queue_lock);
      if 0 < s.activeJobs then some { s.unlock .queue with main := .blockedWait site }
      else
        match site with
        | .barrier rest => some { s.unlock .queue with main := .read rest }
        | .final =>    -- done = 1; pthread_cond_broadcast(&queue_cond);
            some { (s.unlock .queue).wakeWorkers (fun _ => true) with done := true, main := .join 0 }
  | .blockedWait _ => none
  | .wokenWait site => (s.lock .queue .main).map fun s' => { s' with main := .testWait site }
  | .join i =>
      -- pthread_join(threads[i], NULL) returns when the thread has left its loop
      if h : i < N then
        if s.worker ⟨i, h⟩ = .exited then some { s with main := .join (i + 1) } else none
      else some { s with main := .writeStats }
  | .writeStats => some { s with main := .finished }
  | .finished => none

/-! ## Actions -/

/-- **The moves of the system.** -/
inductive Act (N : ℕ)
  /-- Worker `i` takes its next step, its clock showing `now`. -/
  | worker (i : Fin N) (now : ℤ)
  /-- The main thread takes its next step. -/
  | main (now : ℤ) (wake : Fin N → Bool)
  /-- A wait of worker `i` on `queue_cond` ends without a signal. -/
  | spuriousWorker (i : Fin N)
  /-- The wait of the main thread on `done_cond` ends without a signal. -/
  | spuriousMain

/-- **One step of the program.** -/
def step (s : Sys N) : Act N → Option (Sys N)
  | .worker i now => workerStep s i now
  | .main now wake => mainStep s now wake
  | .spuriousWorker i => if s.worker i = .blocked then some (s.setWorker i .woken) else none
  | .spuriousMain =>
      match s.main with
      | .blockedWait site => some { s with main := .wokenWait site }
      | _ => none

end StudiesOS.JobDispatcher
