import StudiesOS.ProcessTable.Clock
import StudiesOS.ProcessTable.Frames

/-! # The steps of the clock
Every step of the kernel with its clock is one of a few (`ClockSys.Trans`), and none of them, whoever
makes it, takes a process in `sys_sleep` or `sys_uptime` from where it can stand (`Placed`). -/

namespace StudiesOS.ProcessTable

open Kernel

variable {nproc nofile ncpu : ℕ} {k k' : Kernel nproc nofile ncpu} {c : Fin ncpu} {p : Fin nproc}

namespace ClockSys

variable {s s' : ClockSys nproc nofile ncpu}

/-! ## The steps -/

/-- The process `p` is on CPU `c`, not behind a `sched`, and the handler is not running there. -/
def Has (s : ClockSys nproc nofile ncpu) (c : Fin ncpu) (p : Fin nproc) : Prop :=
  s.kernel.cpu c = .ran p ∧ s.kernel.susp p = .awake ∧ s.handler c = .away

/-- **The steps, one by one.** -/
inductive Trans (s : ClockSys nproc nofile ncpu) :
    ClockAct nofile ncpu → ClockSys nproc nofile ncpu → Prop
  /-- A move of the kernel. -/
  | kernel (a : Act nofile ncpu) (k : Kernel nproc nofile ncpu) (hallows : s.Allows a)
      (hstep : ProcessTable.step s.kernel a = some k) :
      Trans s (.kernel a) { s with kernel := k, pc := s.pcAfter a }
  /-- A call begins. -/
  | call (a : ClockAct nofile ncpu) (c : Fin ncpu) (p : Fin nproc) (pc' : ClockPc) (hhas : s.Has c p)
      (hpc : s.pc p = .away) (huser : s.kernel.pc p = .user)
      (ha : (∃ n, a = .sysSleep c n ∧ pc' = .enter n) ∨ a = .sysUptime c ∧ pc' = .uptime) :
      Trans s a (s.setPc p pc')
  /-- `sys_sleep` acquires `tickslock`. -/
  | enter (c : Fin ncpu) (p : Fin nproc) (n : Int32) (hhas : s.Has c p) (hpc : s.pc p = .enter n)
      (hfree : s.tickslock = none) :
      Trans s (.advance c) { (s.setTickslock (some c)).setPc p (.test n s.ticks) with
          began := Function.update s.began p s.clock }
  /-- The `while`: the process goes to sleep, or leaves. -/
  | test (c : Fin ncpu) (p : Fin nproc) (n : Int32) (ticks0 : UInt32) (pc' : ClockPc)
      (hhas : s.Has c p) (hpc : s.pc p = .test n ticks0)
      (hpc' : s.ticks - ticks0 < n.toUInt32 ∧ (s.kernel.proc p).killed = false ∧
          pc' = .sleepEnter n ticks0 ∨
        s.ticks - ticks0 < n.toUInt32 ∧ (s.kernel.proc p).killed = true ∧ pc' = .leave n (-1) ∨
        ¬ s.ticks - ticks0 < n.toUInt32 ∧ pc' = .leave n 0) :
      Trans s (.advance c) (s.setPc p pc')
  /-- `sleep` acquires `ptable.lock`. -/
  | sleepEnter (c : Fin ncpu) (p : Fin nproc) (n : Int32) (ticks0 : UInt32) (hhas : s.Has c p)
      (hpc : s.pc p = .sleepEnter n ticks0) (hfree : s.kernel.lock = none) :
      Trans s (.advance c)
        { s.setPc p (.sleepRelease n ticks0) with kernel := s.kernel.setLock (some c) }
  /-- `sleep` releases `lk`. -/
  | sleepRelease (c : Fin ncpu) (p : Fin nproc) (n : Int32) (ticks0 : UInt32) (hhas : s.Has c p)
      (hpc : s.pc p = .sleepRelease n ticks0) (hheld : s.tickslock = some c) :
      Trans s (.advance c) ((s.setTickslock none).setPc p (.sleepSched n ticks0))
  /-- The process falls asleep. -/
  | sleepSched (c : Fin ncpu) (p : Fin nproc) (n : Int32) (ticks0 : UInt32) (hhas : s.Has c p)
      (hpc : s.pc p = .sleepSched n ticks0) (hheld : s.kernel.lock = some c) (hncli : s.ncli c = 1) :
      Trans s (.advance c) { s.setPc p (.asleep n ticks0) with
          kernel := (s.kernel.modify p fun q =>
            { q with chan := some (.other ticksChan), state := .sleeping }).sched c p .sleep }
  /-- `sleep` acquires `lk` again. -/
  | sleepReturn (c : Fin ncpu) (p : Fin nproc) (n : Int32) (ticks0 : UInt32) (hhas : s.Has c p)
      (hpc : s.pc p = .sleepReturn n ticks0) (hfree : s.tickslock = none) :
      Trans s (.advance c) ((s.setTickslock (some c)).setPc p (.test n ticks0))
  /-- `sys_uptime` acquires `tickslock`. -/
  | uptime (c : Fin ncpu) (p : Fin nproc) (hhas : s.Has c p) (hpc : s.pc p = .uptime)
      (hfree : s.tickslock = none) :
      Trans s (.advance c) ((s.setTickslock (some c)).setPc p (.uptimeLeave s.ticks))
  /-- A call returns. -/
  | leave (c : Fin ncpu) (p : Fin nproc) (r : Returned nproc) (hhas : s.Has c p)
      (hheld : s.tickslock = some c)
      (hr : (∃ n result, s.pc p = .leave n result ∧
          r = .sleep p n (s.began p) s.clock (s.kernel.proc p).killed result) ∨
        ∃ xticks, s.pc p = .uptimeLeave xticks ∧ r = .uptime p s.clock xticks.toInt32) :
      Trans s (.advance c) { (s.setTickslock none).setPc p .away with
          returned := s.returned ++ [r] }
  /-- The handler begins. -/
  | interrupt (c : Fin ncpu) (haway : s.handler c = .away) (hlock : s.kernel.lock ≠ some c)
      (hfree : s.tickslock = none) :
      Trans s (.interrupt c) ((s.setTickslock (some c)).setHandler c (.inside false))
  /-- The clock ticks. -/
  | tick (c : Fin ncpu) (pending : Bool) (hinside : s.handler c = .inside pending) :
      Trans s (.tick c)
        { s.setHandler c (.inside true) with ticks := s.ticks + 1, clock := s.clock + 1 }
  /-- The handler wakes who sleeps on `ticks`. -/
  | wakeup (c : Fin ncpu) (pending : Bool) (hinside : s.handler c = .inside pending)
      (hfree : s.kernel.lock = none) :
      Trans s (.wakeup c) { s.setHandler c (.inside false) with
              kernel := s.kernel.wakeup1 (some (.other ticksChan)) }
  /-- The handler returns. -/
  | iret (c : Fin ncpu) (hinside : s.handler c = .inside false) :
      Trans s (.iret c) ((s.setTickslock none).setHandler c .away)

/-- The process that `self` finds. -/
theorem self_eq_some {c : Fin ncpu} {p : Fin nproc} :
    s.self c = some p ↔ s.kernel.cpu c = .ran p ∧ s.kernel.susp p = .awake := by
  unfold self
  split
  · rename_i q hq
    split_ifs with hsusp
    · simp only [Option.some.injEq, hq, Cpu.ran.injEq]
      grind
    · simp only [hq, Cpu.ran.injEq, false_iff]
      grind
  · rename_i hq
    simp [hq]
  · rename_i hq
    simp [hq]

/-- The steps of a process in a call. -/
theorem advanceStep_trans {c : Fin ncpu} {p : Fin nproc} (hhas : s.Has c p)
    (h : s.advanceStep c p = some s') : Trans s (.advance c) s' := by
  cases hpc : s.pc p with
  | away | asleep => simp [advanceStep, hpc] at h
  | enter n =>
      simp only [advanceStep, hpc] at h
      split_ifs at h with hfree
      cases h
      exact .enter c p n hhas hpc hfree
  | test n ticks0 =>
      simp only [advanceStep, hpc] at h
      split_ifs at h with htime hkilled <;> cases h
      · exact .test c p n ticks0 _ hhas hpc (Or.inr (Or.inl ⟨htime, hkilled, rfl⟩))
      · exact .test c p n ticks0 _ hhas hpc (Or.inl ⟨htime, by simpa using hkilled, rfl⟩)
      · exact .test c p n ticks0 _ hhas hpc (Or.inr (Or.inr ⟨htime, rfl⟩))
  | sleepEnter n ticks0 =>
      simp only [advanceStep, hpc] at h
      split_ifs at h with hfree
      cases h
      exact .sleepEnter c p n ticks0 hhas hpc hfree
  | sleepRelease n ticks0 =>
      simp only [advanceStep, hpc] at h
      split_ifs at h with hheld
      cases h
      exact .sleepRelease c p n ticks0 hhas hpc hheld
  | sleepSched n ticks0 =>
      simp only [advanceStep, hpc] at h
      split_ifs at h with hheld
      cases h
      exact .sleepSched c p n ticks0 hhas hpc hheld.1 hheld.2
  | sleepReturn n ticks0 =>
      simp only [advanceStep, hpc] at h
      split_ifs at h with hfree
      cases h
      exact .sleepReturn c p n ticks0 hhas hpc hfree
  | leave n result =>
      simp only [advanceStep, hpc] at h
      split_ifs at h with hheld
      cases h
      exact .leave c p _ hhas hheld (Or.inl ⟨n, result, hpc, rfl⟩)
  | uptime =>
      simp only [advanceStep, hpc] at h
      split_ifs at h with hfree
      cases h
      exact .uptime c p hhas hpc hfree
  | uptimeLeave xticks =>
      simp only [advanceStep, hpc] at h
      split_ifs at h with hheld
      cases h
      exact .leave c p _ hhas hheld (Or.inr ⟨xticks, hpc, rfl⟩)

/-- **A step** is one of them. -/
theorem step_trans {a : ClockAct nofile ncpu} (h : step s a = some s') : Trans s a s' := by
  cases a with
  | kernel a =>
      simp only [step] at h
      split_ifs at h with hallows
      obtain ⟨k, hk, rfl⟩ := Option.map_eq_some_iff.mp h
      exact .kernel a k hallows hk
  | sysSleep c n | sysUptime c =>
      simp only [step] at h
      split_ifs at h with haway
      obtain ⟨p, hp, h⟩ := Option.bind_eq_some_iff.mp h
      obtain ⟨hcpu, hsusp⟩ := self_eq_some.mp hp
      simp only [callStep] at h
      split_ifs at h with hguard
      cases h
      refine .call _ c p _ ⟨hcpu, hsusp, haway⟩ hguard.2 hguard.1 ?_
      first
        | exact Or.inl ⟨n, rfl, rfl⟩
        | exact Or.inr ⟨rfl, rfl⟩
  | advance c =>
      simp only [step] at h
      split_ifs at h with haway
      obtain ⟨p, hp, h⟩ := Option.bind_eq_some_iff.mp h
      obtain ⟨hcpu, hsusp⟩ := self_eq_some.mp hp
      exact advanceStep_trans ⟨hcpu, hsusp, haway⟩ h
  | interrupt c =>
      simp only [step] at h
      split_ifs at h with hguard
      cases h
      refine .interrupt c hguard.1 (fun hlock => ?_) hguard.2.2
      have hncli := hguard.2.1
      simp [ncli, hlock] at hncli
  | tick c =>
      simp only [step] at h
      split at h <;> cases h
      rename_i pending hinside
      exact .tick c pending hinside
  | wakeup c =>
      simp only [step] at h
      split at h
      · rename_i pending hinside
        split_ifs at h with hfree
        cases h
        exact .wakeup c pending hinside hfree
      · cases h
  | iret c =>
      simp only [step] at h
      split at h <;> cases h
      rename_i hinside
      exact .iret c hinside

end ClockSys

/-! ## Where the processes stand -/

/-- There the process holds `tickslock`. -/
def ClockPc.locksTicks : ClockPc → Bool
  | .test _ _ | .sleepEnter _ _ | .sleepRelease _ _ | .leave _ _ | .uptimeLeave _ => true
  | .away | .enter _ | .sleepSched _ _ | .asleep _ _ | .sleepReturn _ _ | .uptime => false

/-- There the process holds `ptable.lock`. -/
def ClockPc.locksTable : ClockPc → Bool
  | .sleepRelease _ _ | .sleepSched _ _ => true
  | .away | .enter _ | .test _ _ | .sleepEnter _ _ | .asleep _ _ | .sleepReturn _ _ | .leave _ _
  | .uptime | .uptimeLeave _ => false

/-- There the process holds a lock. -/
def ClockPc.busy (pc : ClockPc) : Bool := pc.locksTicks || pc.locksTable

/-- **A process can stand there**: one that holds a lock is on a CPU, one behind `sched` is asleep or on
its way back, and one that waits for `tickslock` is neither. -/
def ClockPc.Fits (k : Kernel nproc nofile ncpu) (p : Fin nproc) : ClockPc → Prop
  | .away => True
  | .asleep _ _ => k.pc p = .user ∧ (k.proc p).state.status = .alive ∧ k.susp p = .sleep ∧
      (k.proc p).chan = some (.other ticksChan)
  | .enter _ | .sleepReturn _ _ | .uptime => k.pc p = .user ∧ (k.proc p).state.status = .alive ∧
      (k.proc p).state ≠ .sleeping ∧ k.susp p ≠ .sleep
  | .test _ _ | .sleepEnter _ _ | .sleepRelease _ _ | .sleepSched _ _ | .leave _ _
  | .uptimeLeave _ => k.pc p = .user ∧ ∃ c, k.cpu c = .ran p ∧ k.susp p = .awake

namespace ClockPc

variable {pc : ClockPc}

/-- Who holds `tickslock` holds a lock. -/
theorem busy_of_locksTicks (h : pc.locksTicks = true) : pc.busy = true := by
  rw [busy, h, Bool.true_or]

/-- Who holds `ptable.lock` holds a lock. -/
theorem busy_of_locksTable (h : pc.locksTable = true) : pc.busy = true := by
  rw [busy, h, Bool.or_true]

/-- Who holds a lock is in a call. -/
theorem ne_away_of_busy (h : pc.busy = true) : pc ≠ .away := by
  rintro rfl
  cases h

/-- Who holds a lock is on a CPU. -/
theorem Fits.of_busy (h : pc.Fits k p) (hbusy : pc.busy = true) :
    ∃ c, k.cpu c = .ran p ∧ k.susp p = .awake := by
  cases pc with
  | away | enter | asleep | sleepReturn | uptime => cases hbusy
  | test | sleepEnter | sleepRelease | sleepSched | leave | uptimeLeave => exact h.2

/-- A process in a call lives. -/
theorem Fits.alive (h : pc.Fits k p) (hc : Control k) (hpc : pc ≠ .away) :
    (k.proc p).state.status = .alive := by
  cases pc with
  | away => exact absurd rfl hpc
  | enter | asleep | sleepReturn | uptime => exact h.2.1
  | test | sleepEnter | sleepRelease | sleepSched | leave | uptimeLeave =>
      obtain ⟨-, c, hcpu, -⟩ := h
      rw [hc.ran c p hcpu]
      rfl

/-- It is in no other call. -/
theorem Fits.user (h : pc.Fits k p) (hpc : pc ≠ .away) : k.pc p = .user := by
  cases pc with
  | away => exact absurd rfl hpc
  | enter | asleep | sleepReturn | uptime | test | sleepEnter | sleepRelease | sleepSched | leave
  | uptimeLeave => exact h.1

/-- A process on a CPU that holds a lock, or none and is not behind a `sched`. -/
theorem Fits.of_ran (hc : Control k) (huser : k.pc p = .user) (hcpu : k.cpu c = .ran p)
    (hsusp : k.susp p = .awake) (hpc : ∀ n ticks0, pc ≠ .asleep n ticks0) : pc.Fits k p := by
  have hrun := hc.ran c p hcpu
  cases pc with
  | away => exact trivial
  | asleep n ticks0 => exact absurd rfl (hpc n ticks0)
  | enter | sleepReturn | uptime =>
      refine ⟨huser, ?_, ?_, ?_⟩
      · rw [hrun]
        rfl
      · rw [hrun]
        decide
      · rw [hsusp]
        decide
  | test | sleepEnter | sleepRelease | sleepSched | leave | uptimeLeave =>
      exact ⟨huser, c, hcpu, hsusp⟩

/-- **The moves of others** leave a process where it can stand. -/
theorem Fits.of_unmoved (h : pc.Fits k p) (hmove : Unmoved k k' p) : pc.Fits k' p := by
  cases pc with
  | away => exact trivial
  | asleep n ticks0 =>
      obtain ⟨huser, -, hsusp, hchan⟩ := h
      exact ⟨hmove.pc.trans huser, hmove.alive, hmove.susp.trans hsusp, hmove.chan.trans hchan⟩
  | enter | sleepReturn | uptime =>
      obtain ⟨huser, -, hstate, hsusp⟩ := h
      refine ⟨hmove.pc.trans huser, hmove.alive, fun hs => hstate (hmove.asleep hs), ?_⟩
      rw [hmove.susp]
      exact hsusp
  | test | sleepEnter | sleepRelease | sleepSched | leave | uptimeLeave =>
      obtain ⟨huser, c, hcpu, hsusp⟩ := h
      exact ⟨hmove.pc.trans huser, c, hmove.cpu c hcpu, hmove.susp.trans hsusp⟩

end ClockPc

namespace ClockSys

variable {s s' : ClockSys nproc nofile ncpu} {a : Act nofile ncpu}

/-- **The processes stand where they can stand.** -/
structure Placed (s : ClockSys nproc nofile ncpu) : Prop where
  /-- Slots have one owner. -/
  control : Control s.kernel
  /-- Each process. -/
  fits : ∀ p, (s.pc p).Fits s.kernel p

/-- Who holds a lock makes no move in the kernel. -/
theorem allows_eq_false {pc : ClockPc} (h : pc.busy = true) (m : Move nofile) :
    pc.allows m = false := by
  cases pc with
  | away | enter | asleep | sleepReturn | uptime => cases h
  | test | sleepEnter | sleepRelease | sleepSched | leave | uptimeLeave => cases m <;> rfl

/-- A process moves in `kernel` only on its own CPU. -/
theorem pcAfter_of_not_ran (h : ∀ c, a = .on c .resume → s.kernel.cpu c ≠ .ran p) :
    s.pcAfter a p = s.pc p := by
  unfold pcAfter
  split
  · rename_i c
    rw [if_neg (h c rfl)]
  · rfl

/-- A process in neither call stays there. -/
theorem pcAfter_of_away (a : Act nofile ncpu) (h : s.pc p = .away) : s.pcAfter a p = .away := by
  unfold pcAfter
  split <;> simp [h, ClockPc.resumed]

/-- **A move of the kernel**, for a process in one of the two calls: it is its own, or it leaves the
process where it is. -/
theorem own_or_unmoved (h : Placed s) (haway : s.pc p ≠ .away)
    (hstep : ProcessTable.step s.kernel a = some k') :
    (∃ c m, a = .on c m ∧ s.kernel.cpu c = .ran p ∧ ∀ address, m ≠ .wakeup address) ∨
      s.pcAfter a p = s.pc p ∧ Unmoved s.kernel k' p := by
  by_cases hown : ∃ c m, a = .on c m ∧ s.kernel.cpu c = .ran p ∧ ∀ address, m ≠ .wakeup address
  · exact Or.inl hown
  · refine Or.inr ⟨pcAfter_of_not_ran fun c heq hcpu => hown ⟨c, .resume, heq, hcpu, by simp⟩, ?_⟩
    exact unmoved_of_trans h.control ((h.fits p).alive h.control haway)
      (fun c m heq hcpu => by_contra fun hm => hown ⟨c, m, heq, hcpu, not_exists.mp hm⟩)
      (ProcessTable.step_trans hstep)

/-- A process gives up the CPU. -/
theorem step_yield (hcpu : k.cpu c = .ran p)
    (h : ProcessTable.step k (.on c .yield : Act nofile ncpu) = some k') :
    k' = (k.modify p fun q => { q with state := .runnable }).sched c p .yield := by
  simp only [ProcessTable.step, hcpu] at h
  split_ifs at h
  simp only [Kernel.callStep] at h
  split_ifs at h
  exact (Option.some.inj h).symm

/-- A process goes on behind its `sched`. -/
theorem step_resume (hcpu : k.cpu c = .ran p)
    (h : ProcessTable.step k (.on c .resume : Act nofile ncpu) = some k') :
    k'.pc = k.pc ∧ k'.cpu = k.cpu ∧ k'.susp p = .awake := by
  simp only [ProcessTable.step, hcpu] at h
  split_ifs at h
  · simp [Kernel.callStep] at h
  · simp only [resumeStep] at h
    by_cases hlock : k.lock = some c
    · rw [if_pos hlock] at h
      cases hs : k.susp p <;> simp only [hs, reduceCtorEq] at h <;> cases h <;>
        exact ⟨rfl, rfl, Function.update_self p _ k.susp⟩
    · rw [if_neg hlock] at h
      cases h

/-- **The process's own move in the kernel**: it gives up the CPU, or it goes on. -/
theorem fits_own {m : Move nofile} (h : Placed s) (hcpu : s.kernel.cpu c = .ran p)
    (hpc : s.pc p ≠ .away) (hallows : (s.pc p).allows m = true)
    (hwakeup : ∀ address, m ≠ .wakeup address)
    (hstep : ProcessTable.step s.kernel (.on c m) = some k') :
    (s.pcAfter (.on c m) p).Fits k' p := by
  have huser := (h.fits p).user hpc
  have hcases : m = .yield ∧ (∀ n ticks0, s.pc p ≠ .asleep n ticks0) ∨ m = .resume := by
    cases hp : s.pc p <;> cases m <;> simp_all [ClockPc.allows]
  rcases hcases with ⟨rfl, hasleep⟩ | rfl
  · have hafter : s.pcAfter (.on c .yield : Act nofile ncpu) p = s.pc p := rfl
    rw [hafter, step_yield hcpu hstep]
    cases hp : s.pc p with
    | away => exact trivial
    | asleep n ticks0 => exact absurd hp (hasleep n ticks0)
    | enter | sleepReturn | uptime =>
        refine ⟨huser, ?_, ?_, ?_⟩ <;> simp [Kernel.sched, Kernel.modify, ProcState.status]
    | test | sleepEnter | sleepRelease | sleepSched | leave | uptimeLeave =>
        rw [hp] at hallows
        cases hallows
  · have hafter : s.pcAfter (.on c .resume : Act nofile ncpu) p = (s.pc p).resumed := if_pos hcpu
    obtain ⟨hpc', hcpu', hsusp'⟩ := step_resume hcpu hstep
    rw [hafter]
    refine .of_ran (c := c) (h.control.step (ProcessTable.step_trans hstep)) ?_ ?_ hsusp' fun n ticks0 => ?_
    · rw [hpc', huser]
    · rw [hcpu', hcpu]
    · cases s.pc p <;> simp [ClockPc.resumed]

/-- **Falling asleep is a step of the kernel** from the state in which nobody has the lock. -/
theorem sleepSched_trans (hhas : s.Has c p) :
    ProcessTable.Trans (s.kernel.setLock none) (.on c (.sleep ticksChan : Move nofile))
      ((s.kernel.modify p fun q =>
        { q with chan := some (.other ticksChan), state := .sleeping }).sched c p .sleep) :=
  .sleep c p _ (.other ticksChan) hhas.1 hhas.2.1 (Or.inr ⟨rfl, _, rfl, rfl⟩)

/-- A process on a CPU moves on in its call; its new place is `pc'`. -/
theorem Placed.setPc (h : Placed s) (hhas : s.Has c p) {pc' : ClockPc}
    (huser : s.kernel.pc p = .user) (hpc' : ∀ n ticks0, pc' ≠ .asleep n ticks0)
    (hkernel : s'.kernel = s.kernel) (hpc : s'.pc = Function.update s.pc p pc') : Placed s' := by
  refine ⟨hkernel ▸ h.control, fun q => ?_⟩
  rw [hkernel, hpc]
  by_cases hqp : q = p
  · rw [hqp, Function.update_self]
    exact .of_ran h.control huser hhas.1 hhas.2.1 hpc'
  · rw [Function.update_of_ne hqp]
    exact h.fits q

/-- **Every step keeps it.** -/
theorem Placed.step {b : ClockAct nofile ncpu} (h : Placed s) (hb : Trans s b s') : Placed s' := by
  have huser : ∀ {p}, s.pc p ≠ .away → s.kernel.pc p = .user := fun hpc => (h.fits _).user hpc
  cases hb with
  | kernel a k hallows hstep =>
      refine ⟨h.control.step (ProcessTable.step_trans hstep), fun p => ?_⟩
      dsimp only
      by_cases hpc : s.pc p = .away
      · rw [pcAfter_of_away a hpc]
        exact trivial
      · rcases own_or_unmoved h hpc hstep with ⟨c, m, rfl, hcpu, hwakeup⟩ | ⟨hafter, hmove⟩
        · -- it gives up the CPU, or goes on behind its `sched`
          exact fits_own h hcpu hpc (hallows.2 p hcpu) hwakeup hstep
        · rw [hafter]
          exact (h.fits p).of_unmoved hmove
  | call b c p pc' hhas hpc huser hb =>
      refine h.setPc hhas huser ?_ rfl rfl
      rcases hb with ⟨n, -, rfl⟩ | ⟨-, rfl⟩ <;> simp
  | test c p n ticks0 pc' hhas hpc hpc' =>
      refine h.setPc hhas (huser (by rw [hpc]; simp)) ?_ rfl rfl
      rcases hpc' with ⟨-, -, rfl⟩ | ⟨-, -, rfl⟩ | ⟨-, rfl⟩ <;> simp
  | enter c p n hhas hpc | sleepRelease c p n ticks0 hhas hpc | sleepReturn c p n ticks0 hhas hpc
  | uptime c p hhas hpc =>
      exact h.setPc hhas (huser (by rw [hpc]; simp)) (by simp) rfl rfl
  | leave c p r hhas hheld hr =>
      refine h.setPc hhas (huser ?_) (by simp) rfl rfl
      rcases hr with ⟨n, result, hpc, -⟩ | ⟨xticks, hpc, -⟩ <;> rw [hpc] <;> simp
  | sleepEnter c p n ticks0 hhas hpc hfree =>
      -- where a process can stand does not depend on the lock
      have hmove : Placed (s.setPc p (.sleepRelease n ticks0)) :=
        h.setPc hhas (huser (by rw [hpc]; simp)) (by simp) rfl rfl
      exact ⟨h.control.setLock _, hmove.fits⟩
  | sleepSched c p n ticks0 hhas hpc hheld =>
      -- for the others it is the move of the kernel in which this one sleeps
      have hc := h.control.setLock none
      have ha := sleepSched_trans hhas
      refine ⟨hc.step ha, fun q => ?_⟩
      dsimp only [ClockSys.setPc]
      by_cases hqp : q = p
      · rw [hqp, Function.update_self]
        refine ⟨huser (by rw [hpc]; simp), ?_, Function.update_self p _ s.kernel.susp, ?_⟩
        · rw [sched_proc, modify_proc_self]
          rfl
        · rw [sched_proc, modify_proc_self]
      · rw [Function.update_of_ne hqp]
        by_cases haway : s.pc q = .away
        · rw [haway]
          exact trivial
        · have hfits : (s.pc q).Fits (s.kernel.setLock none) q := h.fits q
          refine hfits.of_unmoved (unmoved_of_trans hc (hfits.alive hc haway) ?_ ha)
          rintro c' m heq hcpu
          cases heq
          exact absurd (Cpu.ran.inj (hcpu.symm.trans hhas.1)) hqp
  | interrupt | iret | tick => exact ⟨h.control, h.fits⟩
  | wakeup c pending hinside hfree =>
      refine ⟨h.control.step (.wakeup c ticksChan hfree), fun p => ?_⟩
      dsimp only [ClockSys.setHandler]
      by_cases haway : s.pc p = .away
      · rw [haway]
        exact trivial
      · exact (h.fits p).of_unmoved
          (unmoved_of_woken (woken_wakeup1 s.kernel _) ((h.fits p).alive h.control haway))

end ClockSys

end StudiesOS.ProcessTable
