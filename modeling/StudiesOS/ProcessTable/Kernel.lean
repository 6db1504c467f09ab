import StudiesOS.CText.Numeral
import StudiesOS.Transition.Run
import Mathlib.Data.List.FinRange
import Mathlib.Logic.Function.Basic

/-! # The process table
The kernel of `proc.c`: the table with its lock, the loop of `scheduler` on each CPU, and the
processes in `fork`, `exit`, `wait`, `sleep`, `yield` and `kill`. A step is one critical section under
`ptable.lock`, or one store made without the lock: a child is filled in store by store while it is
visible as `EMBRYO`, and a failing fork gives its slot back by a store without the lock. Inside of
`wait`, of `scheduler` and of `getProcInfo` the lock is kept from step to step.

What comes from outside is in the action: which CPU moves, what its process calls, whether pages can
be had, and what `sbrk`, `exec` and the file calls store. The sizes of the tables are parameters. -/

namespace StudiesOS.ProcessTable

/-! ## The records -/

/-- `enum procstate`. -/
inductive ProcState
  /-- `UNUSED`. -/
  | unused
  /-- `EMBRYO`. -/
  | embryo
  /-- `SLEEPING`. -/
  | sleeping
  /-- `RUNNABLE`. -/
  | runnable
  /-- `RUNNING`. -/
  | running
  /-- `ZOMBIE`. -/
  | zombie
deriving DecidableEq, Repr

/-- The value of the enumeration constant. -/
def ProcState.code : ProcState → ℤ
  | .unused => 0
  | .embryo => 1
  | .sleeping => 2
  | .runnable => 3
  | .running => 4
  | .zombie => 5

/-- A sleep channel: the address of a slot, or another one. -/
inductive Chan (nproc : ℕ)
  /-- A `struct proc`, on which its process waits for its children. -/
  | proc (p : Fin nproc)
  /-- Any other object. -/
  | other (address : ℕ)
deriving DecidableEq, Repr

/-- `struct proc`. -/
structure Proc (nproc nofile : ℕ) where
  /-- `sz`. -/
  sz : ℕ
  /-- `state`. -/
  state : ProcState
  /-- `pid`. -/
  pid : ℤ
  /-- `parent`. -/
  parent : Option (Fin nproc)
  /-- `chan`. -/
  chan : Option (Chan nproc)
  /-- `killed`. -/
  killed : Bool
  /-- `ofile`. -/
  ofile : Fin nofile → Option ℕ
  /-- `nrswitch`. -/
  nrswitch : ℤ

/-- `struct processInfo`. -/
structure ProcessInfo where
  /-- `state`. -/
  state : ℤ
  /-- `ppid`. -/
  ppid : ℤ
  /-- `sz`. -/
  sz : ℤ
  /-- `nfd`. -/
  nfd : ℤ
  /-- `nrswitch`. -/
  nrswitch : ℤ
deriving DecidableEq, Repr

/-! ## Program points -/

/-- Where a process stands in the kernel. -/
inductive Pc (nproc : ℕ)
  /-- In user mode, or in kernel code that does not touch the table. -/
  | user
  /-- In `allocproc`, called from `fork`, about to call `kalloc` for the slot `np`. -/
  | forkKalloc (np : Fin nproc)
  /-- In `fork`, about to call `copyuvm`. -/
  | forkCopyuvm (np : Fin nproc)
  /-- About to store `np->sz`. -/
  | forkSize (np : Fin nproc)
  /-- About to store `np->parent`. -/
  | forkParent (np : Fin nproc)
  /-- About to copy the descriptor `fd`. -/
  | forkFile (np : Fin nproc) (fd : ℕ)
  /-- About to make the child runnable. -/
  | forkPublish (np : Fin nproc)
  /-- In `exit`, about to close the descriptor `fd`. -/
  | exitClose (fd : ℕ)
  /-- In `exit`, about to acquire `ptable.lock`. -/
  | exitLast
  /-- At the head of the loop of `wait`, holding `ptable.lock`. -/
  | waitScan
  /-- In `getNumProc`, at the slot `j`, holding `ptable.lock`. -/
  | numScan (j : ℕ) (count : ℤ)
  /-- In `getMaxPid`, at the slot `j`, holding `ptable.lock`. -/
  | maxScan (j : ℕ) (maxpid : ℤ)
  /-- In `getProcInfo`, at the slot found, holding `ptable.lock`. -/
  | infoFill (i : Fin nproc)
deriving DecidableEq, Repr

/-- Where a process that is not on a CPU, or has just been put on one, left `sched`. -/
inductive Susp
  /-- It has not been switched out. -/
  | awake
  /-- It is new and starts in `forkret`. -/
  | forkret
  /-- In `yield`. -/
  | yield
  /-- In `sleep`. -/
  | sleep
  /-- In `exit`. -/
  | exited
deriving DecidableEq, Repr

/-- Where a CPU stands in `scheduler`. -/
inductive Cpu (nproc : ℕ)
  /-- Between two rounds. -/
  | idle
  /-- At the slot `j` of a round, holding `ptable.lock`. -/
  | scan (j : ℕ)
  /-- Behind the switch to a process: `c->proc` is that process. -/
  | ran (p : Fin nproc)
deriving DecidableEq, Repr

/-- Where the boot CPU stands in `userinit`. -/
inductive Boot (nproc : ℕ)
  /-- At the start. -/
  | start
  /-- `allocproc` has returned this slot. -/
  | fill (i : Fin nproc)
  /-- About to make the first process runnable. -/
  | publish (i : Fin nproc)
  /-- Behind `userinit`. -/
  | done
deriving DecidableEq, Repr

/-- **The kernel**, with `nproc` slots, `nofile` descriptors a process and `ncpu` CPUs. -/
structure Kernel (nproc nofile ncpu : ℕ) where
  /-- `ptable.proc`. -/
  proc : Fin nproc → Proc nproc nofile
  /-- The CPU that holds `ptable.lock`. -/
  lock : Option (Fin ncpu)
  /-- `nextpid`. -/
  nextpid : ℤ
  /-- `initproc`. -/
  initproc : Option (Fin nproc)
  /-- Where the CPUs stand. -/
  cpu : Fin ncpu → Cpu nproc
  /-- Where the processes stand. -/
  pc : Fin nproc → Pc nproc
  /-- Where the processes that are switched out go on. -/
  susp : Fin nproc → Susp
  /-- Where `userinit` stands. -/
  boot : Boot nproc
  /-- Ghost: how many times `allocproc` has given out a slot. -/
  allocs : ℕ

variable {nproc nofile ncpu : ℕ}

/-- A slot of the zero-initialised table. -/
def Proc.zero : Proc nproc nofile where
  sz := 0
  state := .unused
  pid := 0
  parent := none
  chan := none
  killed := false
  ofile := fun _ => none
  nrswitch := 0

/-- **The kernel before `userinit`.** -/
def Kernel.init : Kernel nproc nofile ncpu where
  proc := fun _ => .zero
  lock := none
  nextpid := 1
  initproc := none
  cpu := fun _ => .idle
  pc := fun _ => .user
  susp := fun _ => .awake
  boot := .start
  allocs := 0

namespace Kernel

/-! ## Parts of steps -/

/-- Change the slot `i`. -/
def modify (k : Kernel nproc nofile ncpu) (i : Fin nproc)
    (f : Proc nproc nofile → Proc nproc nofile) : Kernel nproc nofile ncpu :=
  { k with proc := Function.update k.proc i (f (k.proc i)) }

/-- Move the process `p` to a program point. -/
def setPc (k : Kernel nproc nofile ncpu) (p : Fin nproc) (pc : Pc nproc) :
    Kernel nproc nofile ncpu :=
  { k with pc := Function.update k.pc p pc }

/-- Move the CPU `c` to a point of `scheduler`. -/
def setCpu (k : Kernel nproc nofile ncpu) (c : Fin ncpu) (point : Cpu nproc) :
    Kernel nproc nofile ncpu :=
  { k with cpu := Function.update k.cpu c point }

/-- `acquire` and `release`. -/
def setLock (k : Kernel nproc nofile ncpu) (holder : Option (Fin ncpu)) :
    Kernel nproc nofile ncpu :=
  { k with lock := holder }

/-- `sched()`: the process `p` on CPU `c` switches to `scheduler`, which holds the lock and goes on
behind the slot of `p`. Its four tests, which panic, are not made here: `ncli` and the interrupt flag are
not kept. -/
def sched (k : Kernel nproc nofile ncpu) (c : Fin ncpu) (p : Fin nproc) (where_ : Susp) :
    Kernel nproc nofile ncpu :=
  { k with
    lock := some c
    cpu := Function.update k.cpu c (.scan (p + 1))
    susp := Function.update k.susp p where_ }

/-- The slot that the loop of `allocproc` finds. -/
def firstUnused (k : Kernel nproc nofile ncpu) : Option (Fin nproc) :=
  (List.finRange nproc).find? fun i => (k.proc i).state = .unused

/-- `allocproc` at `found`, for the slot `i`. -/
def allocproc (k : Kernel nproc nofile ncpu) (i : Fin nproc) : Kernel nproc nofile ncpu :=
  { k with
    proc := Function.update k.proc i
      { k.proc i with state := .embryo, pid := k.nextpid, nrswitch := 0 }
    nextpid := wrap 32 (k.nextpid + 1)
    pc := Function.update k.pc i .user
    susp := Function.update k.susp i .forkret
    allocs := k.allocs + 1 }

/-- `wakeup1(chan)`. -/
def wakeup1 (k : Kernel nproc nofile ncpu) (chan : Option (Chan nproc)) :
    Kernel nproc nofile ncpu :=
  { k with
    proc := fun i =>
      if (k.proc i).state = .sleeping ∧ (k.proc i).chan = chan then
        { k.proc i with state := .runnable }
      else k.proc i }

/-- The slot that `kill` finds. -/
def findPid (k : Kernel nproc nofile ncpu) (pid : ℤ) : Option (Fin nproc) :=
  (List.finRange nproc).find? fun i => (k.proc i).pid = pid

/-- **`kill(pid)`**, with what it returns. -/
def kill (k : Kernel nproc nofile ncpu) (pid : ℤ) : Kernel nproc nofile ncpu × ℤ :=
  match k.findPid pid with
  | none => (k, -1)
  | some i =>
      (k.modify i fun p =>
        { p with
          killed := true
          state := if p.state = .sleeping then .runnable else p.state }, 0)

/-- One round of the loop of `exit` over the children of `p`. -/
def abandon (p : Fin nproc) (k : Kernel nproc nofile ncpu) (i : Fin nproc) :
    Kernel nproc nofile ncpu :=
  if (k.proc i).parent = some p then
    let passed := k.modify i fun q => { q with parent := k.initproc }
    if (k.proc i).state = .zombie then passed.wakeup1 (k.initproc.map .proc) else passed
  else k

/-- `exit` under the lock, for the process `p` on CPU `c`. -/
def exitLast (k : Kernel nproc nofile ncpu) (c : Fin ncpu) (p : Fin nproc) :
    Kernel nproc nofile ncpu :=
  -- the parent might be sleeping in `wait`
  let woken := k.wakeup1 ((k.proc p).parent.map .proc)
  let passed := (List.finRange nproc).foldl (abandon p) woken
  (passed.modify p fun q => { q with state := .zombie }).sched c p .exited

/-- One round of the loop of `wait`, for the process `p` on CPU `c`. -/
def waitScan (k : Kernel nproc nofile ncpu) (c : Fin ncpu) (p : Fin nproc) :
    Kernel nproc nofile ncpu :=
  match (List.finRange nproc).find? fun i =>
      (k.proc i).parent = some p ∧ (k.proc i).state = .zombie with
  | some i =>
      ((k.modify i fun q =>
        { q with pid := 0, parent := none, killed := false, state := .unused }).setPc p
          .user).setLock none
  | none =>
      -- !havekids || curproc->killed
      if (∀ i, (k.proc i).parent ≠ some p) ∨ (k.proc p).killed = true then
        (k.setPc p .user).setLock none
      else
        (k.modify p fun q => { q with chan := some (.proc p), state := .sleeping }).sched c p .sleep

/-! ## The queries -/

/-- The slot that `getProcInfo` finds. -/
def findActive (k : Kernel nproc nofile ncpu) (pid : ℤ) : Option (Fin nproc) :=
  (List.finRange nproc).find? fun i => (k.proc i).state ≠ .unused ∧ (k.proc i).pid = pid

/-- One round of the loop of `getNumProc`. -/
def countActive (k : Kernel nproc nofile ncpu) (count : ℤ) (i : Fin nproc) : ℤ :=
  if (k.proc i).state ≠ .unused then count + 1 else count

/-- **`getNumProc()`**, on a table that nothing changes meanwhile. -/
def getNumProc (k : Kernel nproc nofile ncpu) : ℤ := (List.finRange nproc).foldl k.countActive 0

/-- One round of the loop of `getMaxPid`. -/
def maxActive (k : Kernel nproc nofile ncpu) (maxpid : ℤ) (i : Fin nproc) : ℤ :=
  if (k.proc i).state ≠ .unused then
    if maxpid < (k.proc i).pid then (k.proc i).pid else maxpid
  else maxpid

/-- **`getMaxPid()`**, on a table that nothing changes meanwhile. -/
def getMaxPid (k : Kernel nproc nofile ncpu) : ℤ := (List.finRange nproc).foldl k.maxActive 0

/-- What `getProcInfo` reads off the slot `i`. -/
def procInfo (k : Kernel nproc nofile ncpu) (i : Fin nproc) : ProcessInfo where
  state := (k.proc i).state.code
  ppid :=
    match (k.proc i).parent with
    | none => 0
    | some q => (k.proc q).pid
  sz := wrap 32 (k.proc i).sz
  nfd := (List.finRange nofile).foldl
    (fun nfd fd => if (k.proc i).ofile fd ≠ none then nfd + 1 else nfd) 0
  nrswitch := (k.proc i).nrswitch

/-- **`getProcInfo(pid, pinfo)`**, on a table that nothing changes meanwhile: what it returns, and what
it leaves in `*pinfo`. -/
def getProcInfo (k : Kernel nproc nofile ncpu) (pid : ℤ) (pinfo : ProcessInfo) :
    ℤ × ProcessInfo :=
  match k.findActive pid with
  | none => (-1, pinfo)
  | some i => (0, k.procInfo i)

end Kernel

/-! ## Actions -/

/-- What a CPU, or the process on it, does next. -/
inductive Move (nofile : ℕ)
  /-- The next step of `scheduler`. -/
  | schedule
  /-- The process goes on behind its `sched`. -/
  | resume
  /-- `fork`. -/
  | fork
  /-- `kalloc` returns, with a page or without. -/
  | kalloc (page : Bool)
  /-- `copyuvm` returns, with a page table or without. -/
  | copyuvm (pgdir : Bool)
  /-- The next store or critical section of the call under way. -/
  | advance
  /-- `exit`. -/
  | exit
  /-- `wait`. -/
  | wait
  /-- `sleep` on something else than a child. -/
  | sleep (address : ℕ)
  /-- `yield`, at a timer interrupt. -/
  | yield
  /-- `kill`. -/
  | kill (pid : ℤ)
  /-- `wakeup`, also in an interrupt. -/
  | wakeup (address : ℕ)
  /-- `sbrk` or `exec` stores a size. -/
  | resize (sz : ℕ)
  /-- `open`, `dup`, `pipe` or `close` stores a descriptor. -/
  | setFile (fd : Fin nofile) (file : Option ℕ)
  /-- `getNumProc`. -/
  | getNumProc
  /-- `getMaxPid`. -/
  | getMaxPid
  /-- `getProcInfo`. -/
  | getProcInfo (pid : ℤ)
deriving DecidableEq

/-- **The moves of the system.** -/
inductive Act (nofile ncpu : ℕ)
  /-- The next step of `userinit`. -/
  | userinit
  /-- CPU `c` moves. -/
  | on (c : Fin ncpu) (m : Move nofile)
deriving DecidableEq

namespace Kernel

/-- `PGSIZE`. -/
def pgsize : ℕ := 4096

/-- The next step of `userinit`; without memory it panics. -/
def userinitStep (k : Kernel nproc nofile ncpu) : Option (Kernel nproc nofile ncpu) :=
  match k.boot with
  | .start =>
      if k.lock = none then
        k.firstUnused.map fun i => { k.allocproc i with boot := .fill i }
      else none
  | .fill i =>
      -- initproc = p; and the stores behind it, without the lock
      some { k.modify i (fun p => { p with sz := pgsize }) with
        initproc := some i
        boot := .publish i }
  | .publish i =>
      if k.lock = none then
        some { k.modify i (fun p => { p with state := .runnable }) with boot := .done }
      else none
  | .done => none

/-- The next step of `scheduler` on CPU `c`. -/
def schedulerStep (k : Kernel nproc nofile ncpu) (c : Fin ncpu) :
    Option (Kernel nproc nofile ncpu) :=
  match k.cpu c with
  | .idle => if k.lock = none then some ((k.setLock (some c)).setCpu c (.scan 0)) else none
  | .scan j =>
      if h : j < nproc then
        -- p->state = RUNNING; p->nrswitch++; swtch(..), and the lock stays with the CPU
        if (k.proc ⟨j, h⟩).state = .runnable then
          some ((k.modify ⟨j, h⟩ fun p =>
            { p with state := .running, nrswitch := wrap 32 (p.nrswitch + 1) }).setCpu c
              (.ran ⟨j, h⟩))
        else some (k.setCpu c (.scan (j + 1)))
      else if k.lock = some c then some ((k.setLock none).setCpu c .idle)
      else none
  | .ran _ => none

/-- The process `p`, just put on CPU `c`, goes on behind its `sched`: in `forkret`, in `yield`, or in
`sleep`, which keeps the lock when it was called by `wait`. -/
def resumeStep (k : Kernel nproc nofile ncpu) (c : Fin ncpu) (p : Fin nproc) :
    Option (Kernel nproc nofile ncpu) :=
  if k.lock = some c then
    match k.susp p with
    | .awake | .exited => none
    | .forkret | .yield =>
        -- release(&ptable.lock), taken by `scheduler`
        some { k with lock := none, susp := Function.update k.susp p .awake }
    | .sleep =>
        -- p->chan = 0; and in `wait` the next round begins with the lock held
        some { k.modify p (fun q => { q with chan := none }) with
          lock := if k.pc p = .waitScan then k.lock else none
          susp := Function.update k.susp p .awake }
  else none

/-- The next store or critical section of the call in which the process `p` on CPU `c` is. -/
def advanceStep (k : Kernel nproc nofile ncpu) (c : Fin ncpu) (p : Fin nproc) :
    Option (Kernel nproc nofile ncpu) :=
  match k.pc p with
  | .forkSize np =>
      some ((k.modify np fun q => { q with sz := (k.proc p).sz }).setPc p (.forkParent np))
  | .forkParent np =>
      some ((k.modify np fun q => { q with parent := some p }).setPc p (.forkFile np 0))
  | .forkFile np fd =>
      -- if(curproc->ofile[i]) np->ofile[i] = filedup(..): else the child keeps what the slot held
      if h : fd < nofile then
        some ((k.modify np fun q =>
          { q with
            ofile :=
              if (k.proc p).ofile ⟨fd, h⟩ ≠ none then
                Function.update q.ofile ⟨fd, h⟩ ((k.proc p).ofile ⟨fd, h⟩)
              else q.ofile }).setPc p (.forkFile np (fd + 1)))
      else some (k.setPc p (.forkPublish np))
  | .forkPublish np =>
      if k.lock = none then
        some ((k.modify np fun q => { q with state := .runnable }).setPc p .user)
      else none
  | .exitClose fd =>
      if h : fd < nofile then
        some ((k.modify p fun q =>
          { q with ofile := Function.update q.ofile ⟨fd, h⟩ none }).setPc p (.exitClose (fd + 1)))
      else some (k.setPc p .exitLast)
  | .exitLast => if k.lock = none then some (k.exitLast c p) else none
  | .waitScan => if k.lock = some c then some (k.waitScan c p) else none
  | .numScan j count =>
      if k.lock = some c then
        if h : j < nproc then some (k.setPc p (.numScan (j + 1) (k.countActive count ⟨j, h⟩)))
        else some ((k.setPc p .user).setLock none)
      else none
  | .maxScan j maxpid =>
      if k.lock = some c then
        if h : j < nproc then some (k.setPc p (.maxScan (j + 1) (k.maxActive maxpid ⟨j, h⟩)))
        else some ((k.setPc p .user).setLock none)
      else none
  | .infoFill _ => if k.lock = some c then some ((k.setPc p .user).setLock none) else none
  | .user | .forkKalloc _ | .forkCopyuvm _ => none

/-- A system call, an interrupt or the return of an allocator, for the process `p` on CPU `c`. -/
def callStep (k : Kernel nproc nofile ncpu) (c : Fin ncpu) (p : Fin nproc) :
    Move nofile → Option (Kernel nproc nofile ncpu)
  | .schedule | .resume => none
  | .advance => k.advanceStep c p
  | .fork =>
      if k.pc p = .user ∧ k.lock = none then
        match k.firstUnused with
        | none => some k    -- fork returns -1
        | some np => some ((k.allocproc np).setPc p (.forkKalloc np))
      else none
  | .kalloc page =>
      match k.pc p with
      | .forkKalloc np =>
          -- without a page only the state is given back, and not under the lock
          if page then some (k.setPc p (.forkCopyuvm np))
          else some ((k.modify np fun q => { q with state := .unused }).setPc p .user)
      | _ => none
  | .copyuvm pgdir =>
      match k.pc p with
      | .forkCopyuvm np =>
          -- the same when `copyuvm` fails
          if pgdir then some (k.setPc p (.forkSize np))
          else some ((k.modify np fun q => { q with state := .unused }).setPc p .user)
      | _ => none
  | .exit =>
      -- the first process panics
      if k.pc p = .user ∧ k.initproc ≠ some p then some (k.setPc p (.exitClose 0)) else none
  | .wait =>
      if k.pc p = .user ∧ k.lock = none then some ((k.setLock (some c)).setPc p .waitScan) else none
  | .sleep address =>
      if k.lock = none then
        some ((k.modify p fun q =>
          { q with chan := some (.other address), state := .sleeping }).sched c p .sleep)
      else none
  | .yield =>
      if k.lock = none then
        some ((k.modify p fun q => { q with state := .runnable }).sched c p .yield)
      else none
  | .kill pid => if k.pc p = .user ∧ k.lock = none then some (k.kill pid).1 else none
  | .wakeup address =>
      if k.lock = none then some (k.wakeup1 (some (.other address))) else none
  | .resize sz =>
      if k.pc p = .user then some (k.modify p fun q => { q with sz := sz }) else none
  | .setFile fd file =>
      if k.pc p = .user then
        some (k.modify p fun q => { q with ofile := Function.update q.ofile fd file })
      else none
  | .getNumProc =>
      if k.pc p = .user ∧ k.lock = none then
        some ((k.setLock (some c)).setPc p (.numScan 0 0))
      else none
  | .getMaxPid =>
      if k.pc p = .user ∧ k.lock = none then
        some ((k.setLock (some c)).setPc p (.maxScan 0 0))
      else none
  | .getProcInfo pid =>
      if k.pc p = .user ∧ k.lock = none then
        match k.findActive pid with
        | none => some k    -- getProcInfo returns -1
        | some i => some ((k.setLock (some c)).setPc p (.infoFill i))
      else none

end Kernel

/-- **One step of the kernel.** -/
def step (k : Kernel nproc nofile ncpu) : Act nofile ncpu → Option (Kernel nproc nofile ncpu)
  | .userinit => k.userinitStep
  | .on c m =>
      match k.cpu c with
      | .idle =>
          match m with
          | .schedule => k.schedulerStep c
          | .wakeup address =>
              if k.lock = none then some (k.wakeup1 (some (.other address))) else none
          | _ => none
      | .scan _ =>
          match m with
          | .schedule => k.schedulerStep c
          | _ => none
      | .ran p =>
          if k.susp p = .awake then k.callStep c p m
          else
            match m with
            | .resume => k.resumeStep c p
            | _ => none

end StudiesOS.ProcessTable
