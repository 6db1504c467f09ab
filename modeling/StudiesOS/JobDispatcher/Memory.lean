import StudiesOS.JobDispatcher.Machine
import StudiesOS.CMemory.Ownership

/-! # The program with its memory
The dispatcher allocates a `Job` and the text of its command for every job, links the `Job` into the
queue, and a worker that has processed the job frees the text and the `Job`. Here the program runs on a
heap of such blocks: `malloc` and `strdup` return arbitrary free addresses, the queue is what the
pointers say, and what a worker knows of its job it reads through its pointer. An access to a block
that is not allocated, or of the wrong kind, is a fault, after which nothing is said of the program;
so is a `free` of a block that is not allocated. -/

namespace StudiesOS.JobDispatcher

variable {N : ℕ} {α : Type}

/-! ## Blocks -/

/-- A block that has been allocated. -/
inductive Block (α : Type)
  /-- A `Job`; `seq` is ghost, the number of jobs submitted before it. -/
  | job (cmd : α) (submitTime : ℤ) (next : Option α) (seq : ℕ)
  /-- The copy of a command text that `strdup` has made. -/
  | text (s : List Byte)
deriving DecidableEq, Repr

/-- What a worker has to do with a `Job`. -/
inductive Held (α : Type)
  /-- Nothing. -/
  | nothing
  /-- It has dequeued the `Job` at `j`. -/
  | job (j : α)
  /-- It has reported the job, and is about to call `free(job->cmd)`. -/
  | reported (j : α)
  /-- It is about to call `free(job)`. -/
  | emptied (j : α)
deriving DecidableEq, Repr

/-- **The program with its memory.** -/
structure MemSys (N : ℕ) (α : Type) where
  /-- Threads, mutexes, flags, statistics and files. The queue of jobs in it is ghost. -/
  sys : Sys N
  /-- The allocated blocks. -/
  block : α → Option (Block α)
  /-- `queue_head`. -/
  head : Option α
  /-- `queue_tail`. -/
  tail : Option α
  /-- The variable `job` of each worker. -/
  held : Fin N → Held α
  /-- Whether there has been an invalid access. -/
  fault : Bool

namespace MemSys

/-- **The state in which `main` calls `init_workers`.** -/
def init (N : ℕ) (α : Type) (prog : List Directive) (numCounters : ℕ)
    (old : Fin 100 → Option (List Byte)) : MemSys N α where
  sys := Sys.init N prog numCounters old
  block := fun _ => none
  head := none
  tail := none
  held := fun _ => .nothing
  fault := false

/-! ## Accesses -/

/-- What is read of the `Job` at `j`: `cmd`, `submit_time`, `next`. -/
def readJob (s : MemSys N α) (j : α) : Option (α × ℤ × Option α × ℕ) :=
  match s.block j with
  | some (.job cmd submitTime next seq) => some (cmd, submitTime, next, seq)
  | some (.text _) | none => none

/-- The text at `x`. -/
def readText (s : MemSys N α) (x : α) : Option (List Byte) :=
  match s.block x with
  | some (.text text) => some text
  | some (.job _ _ _ _) | none => none

/-- The job that a pointer to a `Job` stands for. -/
def load (s : MemSys N α) (j : α) : Option Job :=
  (s.readJob j).bind fun r => (s.readText r.1).map fun text => ⟨text, r.2.1, r.2.2.2⟩

/-- What comes of an access; an invalid one is a fault. -/
def orFault (s : MemSys N α) (r : Option (MemSys N α)) : MemSys N α :=
  r.getD { s with fault := true }

variable [DecidableEq α]

/-- `free(a)`. -/
def free (s : MemSys N α) (a : α) : Option (MemSys N α) :=
  (s.block a).map fun _ => { s with block := Function.update s.block a none }

/-- **`enqueue(strdup(cmd), submit_time)`**, where `strdup` returns `x` and `malloc` returns `j`. -/
def enqueue (s : MemSys N α) (x j : α) (cmd : List Byte) (submitTime : ℤ) (seq : ℕ) :
    Option (MemSys N α) :=
  let block := Function.update (Function.update s.block x (some (.text cmd))) j
    (some (.job x submitTime none seq))
  match s.tail with
  | none => some { s with block := block, head := some j, tail := some j }
  | some t =>
      -- queue_tail->next = j;
      match block t with
      | some (.job cmd' submitTime' _ seq') =>
          some { s with
            block := Function.update block t (some (.job cmd' submitTime' (some j) seq'))
            tail := some j }
      | some (.text _) | none => none

omit [DecidableEq α] in
/-- **`dequeue()`**, with the pointer it returns. -/
def dequeue (s : MemSys N α) : Option (Option α × MemSys N α) :=
  match s.head with
  | none => some (none, s)
  | some j =>
      (s.readJob j).map fun r =>
        (some j, { s with head := r.2.2.1, tail := if r.2.2.1 = none then none else s.tail })

/-! ## Steps -/

/-- The worker `i` has dequeued: behind `unlock` it goes on with the job that it reads through the
pointer, or at the top of the loop. -/
def grabbed (s : MemSys N α) (i : Fin N) : Option α → Option (MemSys N α)
  | none => some { s with sys := (s.sys.unlock .queue).setWorker i .top }
  | some j =>
      (s.load j).map fun job =>
        { s with
          sys := { s.sys.unlock .queue with
            queue := s.sys.queue.tail
            taken := s.sys.taken ++ [(i, job)] }.setWorker i (.exec job (processJob job.cmd))
          held := Function.update s.held i (.job j) }

/-- **The next step of worker `i`.** Where it does not access a `Job` or the queue it is that of the
program without the memory. -/
def workerStep (s : MemSys N α) (i : Fin N) (now : ℤ) : Option (MemSys N α) :=
  match s.sys.worker i, s.held i with
  | .top, .reported j =>    -- free(job->cmd);
      some (s.orFault ((s.readJob j).bind fun r => (s.free r.1).map fun t =>
        { t with held := Function.update s.held i (.emptied j) }))
  | .top, .emptied j =>    -- free(job);
      some (s.orFault ((s.free j).map fun t =>
        { t with held := Function.update s.held i .nothing }))
  | .test, _ =>
      -- while (queue_head == NULL && !done) ..; if (queue_head == NULL && done) ..
      if s.head = none ∧ s.sys.done = false then
        some { s with sys := (s.sys.unlock .queue).setWorker i .blocked }
      else if s.head = none ∧ s.sys.done = true then
        some { s with sys := (s.sys.unlock .queue).setWorker i .exited }
      else some { s with sys := s.sys.setWorker i .grab }
  | .grab, _ => some (s.orFault (s.dequeue.bind fun r => r.2.grabbed i r.1))
  | .exec _ [], .job j =>
      -- the log line and the turnaround are read from the job
      some (s.orFault ((s.load j).map fun job =>
        { s with
          sys := { s.sys with processed := s.sys.processed ++ [(i, job)] }.setWorker i
            (.lockStats job (now - job.submitTime)) }))
  | .finish _, .job j =>
      (JobDispatcher.workerStep s.sys i now).map fun sys =>
        { s with sys := sys, held := Function.update s.held i (.reported j) }
  | _, _ => (JobDispatcher.workerStep s.sys i now).map fun sys => { s with sys := sys }

/-- **The next step of the main thread**; `x` and `j` are what `strdup` and `malloc` return. -/
def mainStep (s : MemSys N α) (now : ℤ) (wake : Fin N → Bool) (x j : α) : Option (MemSys N α) :=
  match s.sys.main with
  | .submit cmd _ =>
      if s.block x = none ∧ s.block j = none ∧ x ≠ j then
        (JobDispatcher.mainStep s.sys now wake).map fun sys =>
          s.orFault ((s.enqueue x j cmd now s.sys.submitted.length).map fun t => { t with sys := sys })
      else none
  | _ => (JobDispatcher.mainStep s.sys now wake).map fun sys => { s with sys := sys }

/-- **One step of the program**; an action comes with what `strdup` and `malloc` return in it. -/
def step (s : MemSys N α) (a : Act N × α × α) : Option (MemSys N α) :=
  if s.fault then none
  else
    match a.1 with
    | .worker i now => s.workerStep i now
    | .main now wake => s.mainStep now wake a.2.1 a.2.2
    | .spuriousWorker _ | .spuriousMain =>
        (JobDispatcher.step s.sys a.1).map fun sys => { s with sys := sys }

end MemSys

end StudiesOS.JobDispatcher
