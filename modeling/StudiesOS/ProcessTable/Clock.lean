import StudiesOS.ProcessTable.Kernel

/-! # Sleeping for a time
`sys_sleep` and `sys_uptime` over the kernel. `ticks` is guarded by `tickslock`, and `sleep(chan, lk)` is
called with that lock: it takes `ptable.lock` before it releases `lk`, and stores `SLEEPING` only then.
Here its lock operations are steps of their own, so that another CPU may change `ticks` and call `wakeup`
between any two of them.

The handler of the timer interrupt is in `trap.c`, which is not here. What is known of it is that it
changes `ticks` while it holds `tickslock`, and that it calls `wakeup(&ticks)` after a change and before
it releases the lock (`Handler`). -/

namespace StudiesOS.ProcessTable

variable {nproc nofile ncpu : ℕ}

/-! ## The state -/

/-- The channel `&ticks`. -/
def ticksChan : ℕ := 0

/-- Where a process stands in `sys_sleep` or `sys_uptime`. -/
inductive ClockPc
  /-- In neither. -/
  | away
  /-- In `sys_sleep`, with the argument `n`, about to acquire `tickslock`. -/
  | enter (n : Int32)
  /-- At the `while`, holding `tickslock`. -/
  | test (n : Int32) (ticks0 : UInt32)
  /-- In `sleep(&ticks, &tickslock)`, about to acquire `ptable.lock`, holding `tickslock`. -/
  | sleepEnter (n : Int32) (ticks0 : UInt32)
  /-- About to release `lk`, holding both locks. -/
  | sleepRelease (n : Int32) (ticks0 : UInt32)
  /-- About to store `SLEEPING` and to call `sched`, holding `ptable.lock`. -/
  | sleepSched (n : Int32) (ticks0 : UInt32)
  /-- Behind `sched`. -/
  | asleep (n : Int32) (ticks0 : UInt32)
  /-- About to acquire `lk` again. -/
  | sleepReturn (n : Int32) (ticks0 : UInt32)
  /-- About to release `tickslock` and to return `result`. -/
  | leave (n : Int32) (result : Int32)
  /-- In `sys_uptime`, about to acquire `tickslock`. -/
  | uptime
  /-- About to release `tickslock` and to return `xticks`. -/
  | uptimeLeave (xticks : UInt32)
deriving DecidableEq, Repr

/-- Where a CPU stands in the handler of the timer interrupt. -/
inductive Handler
  /-- Not in it. -/
  | away
  /-- Holding `tickslock`; `pending` says that `wakeup(&ticks)` has not been called since the last
  change of `ticks`. -/
  | inside (pending : Bool)
deriving DecidableEq, Repr

/-- A call that has returned, with the number of ticks since the boot. -/
inductive Returned (nproc : ℕ)
  /-- `sys_sleep`; `killed` is `p->killed` at the end. -/
  | sleep (p : Fin nproc) (n : Int32) (began ended : ℕ) (killed : Bool) (result : Int32)
  /-- `sys_uptime`. -/
  | uptime (p : Fin nproc) (now : ℕ) (result : Int32)
deriving DecidableEq, Repr

/-- **The kernel with its clock.** -/
structure ClockSys (nproc nofile ncpu : ℕ) where
  /-- The process table and its lock. -/
  kernel : Kernel nproc nofile ncpu
  /-- The CPU that holds `tickslock`. -/
  tickslock : Option (Fin ncpu)
  /-- `ticks`. -/
  ticks : UInt32
  /-- Where the processes stand. -/
  pc : Fin nproc → ClockPc
  /-- Where the CPUs stand in the handler. -/
  handler : Fin ncpu → Handler
  /-- Ghost: the ticks since the boot. -/
  clock : ℕ
  /-- Ghost: the ticks since the boot when `sys_sleep` read `ticks0`. -/
  began : Fin nproc → ℕ
  /-- Ghost: the calls that have returned. -/
  returned : List (Returned nproc)

/-- **The state before `userinit`.** -/
def ClockSys.init : ClockSys nproc nofile ncpu where
  kernel := .init
  tickslock := none
  ticks := 0
  pc := fun _ => .away
  handler := fun _ => .away
  clock := 0
  began := fun _ => 0
  returned := []

/-- What a process there, or an interrupt while it is there, may do in the kernel: everything outside of
the two calls; within them it may be interrupted where it holds no lock, and be woken. -/
def ClockPc.allows : ClockPc → Move nofile → Bool
  | .away, _ => true
  | .enter _, .yield | .enter _, .resume | .enter _, .wakeup _ => true
  | .sleepReturn _ _, .yield | .sleepReturn _ _, .resume | .sleepReturn _ _, .wakeup _ => true
  | .uptime, .yield | .uptime, .resume | .uptime, .wakeup _ => true
  | .asleep _ _, .resume => true
  | _, _ => false

/-- Where a process stands when it has gone on behind its `sched`. -/
def ClockPc.resumed : ClockPc → ClockPc
  | .asleep n ticks0 => .sleepReturn n ticks0
  | pc => pc

/-- **The moves of the system.** -/
inductive ClockAct (nofile ncpu : ℕ)
  /-- A move of the kernel. -/
  | kernel (a : Act nofile ncpu)
  /-- The process on CPU `c` calls `sys_sleep`, and its argument is `n`. -/
  | sysSleep (c : Fin ncpu) (n : Int32)
  /-- The process on CPU `c` calls `sys_uptime`. -/
  | sysUptime (c : Fin ncpu)
  /-- The next step of the call in which the process on CPU `c` is. -/
  | advance (c : Fin ncpu)
  /-- A timer interrupt: the handler acquires `tickslock` on CPU `c`. -/
  | interrupt (c : Fin ncpu)
  /-- The handler does `ticks++`. -/
  | tick (c : Fin ncpu)
  /-- The handler does `wakeup(&ticks)`. -/
  | wakeup (c : Fin ncpu)
  /-- The handler releases `tickslock` and returns. -/
  | iret (c : Fin ncpu)
deriving DecidableEq

namespace ClockSys

variable (s : ClockSys nproc nofile ncpu)

/-! ## Parts of steps -/

/-- Move the process `p` to a program point. -/
def setPc (p : Fin nproc) (pc : ClockPc) : ClockSys nproc nofile ncpu :=
  { s with pc := Function.update s.pc p pc }

/-- `acquire(&tickslock)` and `release(&tickslock)`. -/
def setTickslock (holder : Option (Fin ncpu)) : ClockSys nproc nofile ncpu :=
  { s with tickslock := holder }

/-- Move the CPU `c` to a point of the handler. -/
def setHandler (c : Fin ncpu) (point : Handler) : ClockSys nproc nofile ncpu :=
  { s with handler := Function.update s.handler c point }

/-- `c->ncli`: the spinlocks that the CPU `c` holds. While there are any, interrupts are off. -/
def ncli (c : Fin ncpu) : ℕ :=
  (if s.tickslock = some c then 1 else 0) + if s.kernel.lock = some c then 1 else 0

/-- The process on the CPU `c`, if it is one that is not behind a `sched`. -/
def self (c : Fin ncpu) : Option (Fin nproc) :=
  match s.kernel.cpu c with
  | .ran p => if s.kernel.susp p = .awake then some p else none
  | .idle | .scan _ => none

/-- `kernel` may do `a`: the handler is not running on its CPU, and the process there is not in a call
that forbids it. -/
def Allows : Act nofile ncpu → Prop
  | .userinit => True
  | .on c m => s.handler c = .away ∧ ∀ p, s.kernel.cpu c = .ran p → (s.pc p).allows m = true

instance : ∀ a : Act nofile ncpu, Decidable (s.Allows a)
  | .userinit => isTrue trivial
  | .on _ _ => inferInstanceAs (Decidable (_ ∧ _))

/-- Where the processes stand behind the move `a` of the kernel. -/
def pcAfter : Act nofile ncpu → Fin nproc → ClockPc
  | .on c .resume, p => if s.kernel.cpu c = .ran p then (s.pc p).resumed else s.pc p
  | _, p => s.pc p

/-! ## The steps -/

/-- **The next step of `sys_sleep` or `sys_uptime`**, for the process `p` on CPU `c`. The checks of
`sched` that can be seen here are part of the step: without them it panics. -/
def advanceStep (c : Fin ncpu) (p : Fin nproc) : Option (ClockSys nproc nofile ncpu) :=
  match s.pc p with
  | .away | .asleep _ _ => none
  | .enter n =>
      -- acquire(&tickslock); ticks0 = ticks;
      if s.tickslock = none then
        some { (s.setTickslock (some c)).setPc p (.test n s.ticks) with
          began := Function.update s.began p s.clock }
      else none
  | .test n ticks0 =>
      -- while(ticks - ticks0 < n), with `n` converted to `uint`
      if s.ticks - ticks0 < n.toUInt32 then
        if (s.kernel.proc p).killed = true then some (s.setPc p (.leave n (-1)))
        else some (s.setPc p (.sleepEnter n ticks0))
      else some (s.setPc p (.leave n 0))
  | .sleepEnter n ticks0 =>
      if s.kernel.lock = none then
        some { s.setPc p (.sleepRelease n ticks0) with kernel := s.kernel.setLock (some c) }
      else none
  | .sleepRelease n ticks0 =>
      if s.tickslock = some c then some ((s.setTickslock none).setPc p (.sleepSched n ticks0))
      else none
  | .sleepSched n ticks0 =>
      -- p->chan = chan; p->state = SLEEPING; sched();
      if s.kernel.lock = some c ∧ s.ncli c = 1 then
        some { s.setPc p (.asleep n ticks0) with
          kernel := (s.kernel.modify p fun q =>
            { q with chan := some (.other ticksChan), state := .sleeping }).sched c p .sleep }
      else none
  | .sleepReturn n ticks0 =>
      if s.tickslock = none then some ((s.setTickslock (some c)).setPc p (.test n ticks0)) else none
  | .leave n result =>
      if s.tickslock = some c then
        some { (s.setTickslock none).setPc p .away with
          returned := s.returned ++
            [.sleep p n (s.began p) s.clock (s.kernel.proc p).killed result] }
      else none
  | .uptime =>
      if s.tickslock = none then some ((s.setTickslock (some c)).setPc p (.uptimeLeave s.ticks))
      else none
  | .uptimeLeave xticks =>
      if s.tickslock = some c then
        some { (s.setTickslock none).setPc p .away with
          returned := s.returned ++ [.uptime p s.clock xticks.toInt32] }
      else none

/-- A call begins, for the process `p`. -/
def callStep (p : Fin nproc) (pc : ClockPc) : Option (ClockSys nproc nofile ncpu) :=
  if s.kernel.pc p = .user ∧ s.pc p = .away then some (s.setPc p pc) else none

/-- **One step of the kernel with its clock.** -/
def step (s : ClockSys nproc nofile ncpu) :
    ClockAct nofile ncpu → Option (ClockSys nproc nofile ncpu)
  | .kernel a =>
      if s.Allows a then
        (ProcessTable.step s.kernel a).map fun k => { s with kernel := k, pc := s.pcAfter a }
      else none
  | .sysSleep c n =>
      if s.handler c = .away then (s.self c).bind fun p => s.callStep p (.enter n) else none
  | .sysUptime c =>
      if s.handler c = .away then (s.self c).bind fun p => s.callStep p .uptime else none
  | .advance c =>
      if s.handler c = .away then (s.self c).bind fun p => s.advanceStep c p else none
  | .interrupt c =>
      -- interrupts are on while the CPU holds no spinlock
      if s.handler c = .away ∧ s.ncli c = 0 ∧ s.tickslock = none then
        some ((s.setTickslock (some c)).setHandler c (.inside false))
      else none
  | .tick c =>
      match s.handler c with
      | .inside _ =>
          some { s.setHandler c (.inside true) with ticks := s.ticks + 1, clock := s.clock + 1 }
      | .away => none
  | .wakeup c =>
      match s.handler c with
      | .inside _ =>
          if s.kernel.lock = none then
            some { s.setHandler c (.inside false) with
              kernel := s.kernel.wakeup1 (some (.other ticksChan)) }
          else none
      | .away => none
  | .iret c =>
      match s.handler c with
      | .inside false => some ((s.setTickslock none).setHandler c .away)
      | .inside true | .away => none

end ClockSys

end StudiesOS.ProcessTable
