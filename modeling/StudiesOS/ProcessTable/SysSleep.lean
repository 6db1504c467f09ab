import StudiesOS.ProcessTable.TwoLocks

/-! # Sleeping long enough, and not too long
`ticks` counts the ticks since the boot modulo 2^32. A process in `sys_sleep` goes to sleep only while
fewer than `n` of them have passed since it came. It is the order of the locks that keeps it from missing
the tick that ends its time: from its last look at `ticks` on it holds `tickslock` or `ptable.lock`, until
it is `SLEEPING`, and the handler needs the first one to change `ticks` and the second one to wake. -/

namespace StudiesOS.ProcessTable

open Kernel

variable {nproc nofile ncpu : ℕ} {k k' : Kernel nproc nofile ncpu} {c : Fin ncpu} {p : Fin nproc}

/-- **What a call that has returned may have done.** `sys_sleep(n)` returns 0 after at least `n` ticks,
and -1 only to a process that has been killed, and before that; both numbers are unsigned.
`sys_uptime` returns the ticks since the boot. -/
def Returned.Right : Returned nproc → Prop
  | .sleep _ n began ended killed result => began ≤ ended ∧
      (result = 0 ∧ n.toUInt32.toNat ≤ (ended - began) % 2 ^ 32 ∨
        result = -1 ∧ killed = true ∧ (ended - began) % 2 ^ 32 < n.toUInt32.toNat)
  | .uptime _ now result => result = (UInt32.ofNat now).toInt32

namespace ClockSys

variable {s s' : ClockSys nproc nofile ncpu}

/-- The condition of the `while`. -/
def Early (s : ClockSys nproc nofile ncpu) (n : Int32) (ticks0 : UInt32) : Prop :=
  s.ticks - ticks0 < n.toUInt32

/-- `ticks` has changed, and `wakeup(&ticks)` is still to come. -/
def Pending (s : ClockSys nproc nofile ncpu) : Prop := ∃ c, s.handler c = .inside true

/-- `ticks0` is what `ticks` was when the process `p` called. -/
def Began (s : ClockSys nproc nofile ncpu) (p : Fin nproc) (ticks0 : UInt32) : Prop :=
  ticks0 = UInt32.ofNat (s.began p) ∧ s.began p ≤ s.clock

/-- **Where a process stands, in time**: what it knows there of the ticks. -/
def InTime (s : ClockSys nproc nofile ncpu) (p : Fin nproc) : ClockPc → Prop
  | .away | .enter _ | .uptime => True
  | .test _ ticks0 | .sleepReturn _ ticks0 => s.Began p ticks0
  | .sleepEnter n ticks0 | .sleepRelease n ticks0 => s.Began p ticks0 ∧ s.Early n ticks0
  | .sleepSched n ticks0 => s.Began p ticks0 ∧ (s.Early n ticks0 ∨ s.Pending)
  | .asleep n ticks0 => s.Began p ticks0 ∧
      ((s.kernel.proc p).state = .sleeping → s.Early n ticks0 ∨ s.Pending)
  | .leave n result => ∃ ticks0, s.Began p ticks0 ∧
      (result = 0 ∧ ¬ s.Early n ticks0 ∨
        result = -1 ∧ (s.kernel.proc p).killed = true ∧ s.Early n ticks0)
  | .uptimeLeave xticks => xticks = s.ticks

/-- **Nobody sleeps past its time.** -/
structure Timely (s : ClockSys nproc nofile ncpu) : Prop where
  /-- `ticks` counts the ticks. -/
  ticks : s.ticks = UInt32.ofNat s.clock
  /-- The processes. -/
  inTime : ∀ p, s.InTime p (s.pc p)
  /-- The calls that have returned. -/
  right : ∀ r ∈ s.returned, r.Right

/-- The ticks between two readings of the clock. -/
theorem early_iff (hticks : s.ticks = UInt32.ofNat s.clock) {n : Int32} {ticks0 : UInt32}
    (hbegan : s.Began p ticks0) :
    s.Early n ticks0 ↔ (s.clock - s.began p) % 2 ^ 32 < n.toUInt32.toNat := by
  obtain ⟨rfl, hle⟩ := hbegan
  rw [Early, hticks, UInt32.lt_iff_toNat_lt, ← UInt32.ofNat_sub hle, UInt32.toNat_ofNat']

/-- What a process knows stays true while the clock stands still and others move. -/
theorem InTime.of_same {pc : ClockPc} (h : s.InTime p pc) (hticks : s'.ticks = s.ticks)
    (hclock : s'.clock = s.clock) (hbegan : s'.began p = s.began p)
    (hpending : s.Pending → s'.Pending)
    (hkilled : (s.kernel.proc p).killed = true → (s'.kernel.proc p).killed = true)
    (hasleep : (s'.kernel.proc p).state = .sleeping → (s.kernel.proc p).state = .sleeping) :
    s'.InTime p pc := by
  cases pc with
  | away | enter | uptime => trivial
  | uptimeLeave xticks => exact h.trans hticks.symm
  | test n ticks0 | sleepReturn n ticks0 | sleepEnter n ticks0 | sleepRelease n ticks0
  | sleepSched n ticks0 | asleep n ticks0 | leave n result =>
      simp only [InTime, Began, Early, hticks, hclock, hbegan] at h ⊢
      grind

/-- At the start. -/
theorem Timely.start : Timely (.init : ClockSys nproc nofile ncpu) :=
  ⟨rfl, fun _ => trivial, fun _ hr => absurd hr List.not_mem_nil⟩

/-- **A process moves on in its call**, the clock stands still and the kernel does nothing to the
others. -/
theorem Timely.move (h : Timely s) {pc' : ClockPc} (hticks : s'.ticks = s.ticks)
    (hclock : s'.clock = s.clock) (hbegan : ∀ q, q ≠ p → s'.began q = s.began q)
    (hpending : s'.handler = s.handler) (hproc : ∀ q, q ≠ p → s'.kernel.proc q = s.kernel.proc q)
    (hpc : s'.pc = Function.update s.pc p pc') (hown : s'.InTime p pc')
    (hright : ∀ r ∈ s'.returned, r ∈ s.returned ∨ r.Right) : Timely s' := by
  refine ⟨?_, fun q => ?_, fun r hr => (hright r hr).elim (h.right r) id⟩
  · rw [hticks, hclock]
    exact h.ticks
  · rw [hpc]
    by_cases hqp : q = p
    · rw [hqp, Function.update_self]
      exact hown
    · rw [Function.update_of_ne hqp]
      refine (h.inTime q).of_same hticks hclock (hbegan q hqp) (fun hp => ?_) ?_ ?_
      · unfold Pending
        rw [hpending]
        exact hp
      · rw [hproc q hqp]
        exact id
      · rw [hproc q hqp]
        exact id

/-- **The moves of the kernel** leave the processes in time. -/
theorem Timely.kernel {a : Act nofile ncpu} (h : Timely s) (hp : Placed s) (hallows : s.Allows a)
    (hstep : ProcessTable.step s.kernel a = some k) (p : Fin nproc) :
    ClockSys.InTime { s with kernel := k, pc := s.pcAfter a } p (s.pcAfter a p) := by
  have hold := h.inTime p
  by_cases haway : s.pc p = .away
  · rw [pcAfter_of_away a haway]
    trivial
  · rcases own_or_unmoved hp haway hstep with ⟨c, m, rfl, hcpu, -⟩ | ⟨hafter, hmove⟩
    · -- it gives up the CPU, or goes on behind its `sched`: nowhere there does it look at the slot
      have hallows' := hallows.2 p hcpu
      cases hpc : s.pc p with
      | away => exact absurd hpc haway
      | enter | uptime | sleepReturn | asleep =>
          rw [hpc] at hold hallows'
          cases m <;> simp only [ClockPc.allows, Bool.false_eq_true] at hallows' <;>
            simp only [pcAfter, hcpu, if_true, hpc, ClockPc.resumed] <;>
            first | trivial | exact hold | exact hold.1
      | test | sleepEnter | sleepRelease | sleepSched | leave | uptimeLeave =>
          rw [hpc] at hallows'
          cases m <;> cases hallows'
    · rw [hafter]
      exact hold.of_same rfl rfl rfl id hmove.killed hmove.asleep

/-- **While the handler runs, nobody else holds `tickslock`.** -/
theorem Locked.alone (h : Locked s) (hp : Placed s) {pending : Bool}
    (hinside : s.handler c = .inside pending) (p : Fin nproc) : (s.pc p).locksTicks = false := by
  by_contra hlocks
  rw [Bool.not_eq_false] at hlocks
  have hbusy := ClockPc.busy_of_locksTicks hlocks
  have hne : s.handler c ≠ .away := by rw [hinside]; simp
  obtain ⟨c', hcpu, -⟩ := (hp.fits p).of_busy hbusy
  have hheld := (h.ticks c').mpr (Or.inr ⟨p, hcpu, hlocks⟩)
  obtain rfl := Option.some.inj (hheld.symm.trans ((h.ticks c).mpr (Or.inl hne)))
  exact Bool.noConfusion (hbusy.symm.trans ((h.handler c' hne).2 p hcpu))

/-- **A tick**: who does not hold `tickslock` learns of it by the wake-up that is to come. -/
theorem Timely.tick (h : Timely s) (hp : Placed s) (hl : Locked s) {pending : Bool}
    (hinside : s.handler c = .inside pending) :
    Timely { s.setHandler c (.inside true) with ticks := s.ticks + 1, clock := s.clock + 1 } := by
  have hpending : Pending { s.setHandler c (.inside true) with
      ticks := s.ticks + 1, clock := s.clock + 1 } :=
    ⟨c, Function.update_self ..⟩
  refine ⟨?_, fun p => ?_, h.right⟩
  · show s.ticks + 1 = UInt32.ofNat (s.clock + 1)
    rw [h.ticks, UInt32.ofNat_add]
    rfl
  · have hold := h.inTime p
    have hfree := hl.alone hp hinside p
    have hbegan : ∀ {ticks0}, s.Began p ticks0 → s.began p ≤ s.clock + 1 :=
      fun hb => Nat.le_succ_of_le hb.2
    show InTime _ p (s.pc p)
    cases hpc : s.pc p with
    | away | enter | uptime => trivial
    | test | sleepEnter | sleepRelease | leave | uptimeLeave =>
        rw [hpc] at hfree
        cases hfree
    | sleepReturn n ticks0 =>
        rw [hpc] at hold
        exact ⟨hold.1, hbegan hold⟩
    | sleepSched n ticks0 =>
        rw [hpc] at hold
        exact ⟨⟨hold.1.1, hbegan hold.1⟩, Or.inr hpending⟩
    | asleep n ticks0 =>
        rw [hpc] at hold
        exact ⟨⟨hold.1.1, hbegan hold.1⟩, fun _ => Or.inr hpending⟩

/-- **The wake-up**: it finds everybody who sleeps on `ticks`, and nobody is on the way to sleep. -/
theorem Timely.wakeup (h : Timely s) (hp : Placed s) (hl : Locked s) {pending : Bool}
    (hinside : s.handler c = .inside pending) (hfree : s.kernel.lock = none) :
    Timely { s.setHandler c (.inside false) with
      kernel := s.kernel.wakeup1 (some (.other ticksChan)) } := by
  refine ⟨h.ticks, fun p => ?_, h.right⟩
  have hold := h.inTime p
  have hwoken := woken_wakeup1 s.kernel (some (.other ticksChan))
  have halone := hl.alone hp hinside p
  show InTime _ p (s.pc p)
  cases hpc : s.pc p with
  | away | enter | uptime => trivial
  | test | sleepEnter | sleepRelease | leave | uptimeLeave =>
      rw [hpc] at halone
      cases halone
  | sleepReturn n ticks0 =>
      rw [hpc] at hold
      exact hold
  | sleepSched n ticks0 =>
      -- it holds `ptable.lock`
      have hlocks : (s.pc p).locksTable = true := by rw [hpc]; rfl
      exact absurd ⟨p, hlocks⟩ (hl.not_entering hp hfree)
  | asleep n ticks0 =>
      have hfits := hp.fits p
      rw [hpc] at hold hfits
      refine ⟨hold.1, fun hstate => absurd hstate ?_⟩
      show ((s.kernel.wakeup1 _).proc p).state ≠ .sleeping
      unfold Kernel.wakeup1
      dsimp only
      split_ifs with hsleeps
      · exact fun hs => by cases hs
      · exact fun hs => hsleeps ⟨hs, hfits.2.2.2⟩

/-- **Every step keeps it.** -/
theorem Timely.step {b : ClockAct nofile ncpu} (h : Timely s) (hp : Placed s) (hl : Locked s)
    (hb : Trans s b s') : Timely s' := by
  have hquiet : ∀ r ∈ s.returned, r ∈ s.returned ∨ r.Right := fun r hr => Or.inl hr
  cases hb with
  | kernel a k hallows hstep => exact ⟨h.ticks, h.kernel hp hallows hstep, h.right⟩
  | call b c p pc' hhas hpc huser hb =>
      refine h.move rfl rfl (fun _ _ => rfl) rfl (fun _ _ => rfl) rfl ?_ hquiet
      rcases hb with ⟨n, -, rfl⟩ | ⟨-, rfl⟩ <;> trivial
  | enter c p n hhas hpc hfree =>
      refine h.move rfl rfl (fun q hq => Function.update_of_ne hq ..) rfl (fun _ _ => rfl) rfl ?_ hquiet
      refine ⟨?_, ?_⟩
      · rw [h.ticks]
        exact congrArg UInt32.ofNat (Function.update_self p s.clock s.began).symm
      · exact (Function.update_self p s.clock s.began).le
  | test c p n ticks0 pc' hhas hpc hpc' =>
      have hold := h.inTime p
      rw [hpc] at hold
      refine h.move rfl rfl (fun _ _ => rfl) rfl (fun _ _ => rfl) rfl ?_ hquiet
      rcases hpc' with ⟨hearly, -, rfl⟩ | ⟨hearly, hkilled, rfl⟩ | ⟨hlate, rfl⟩
      · exact ⟨hold, hearly⟩
      · exact ⟨ticks0, hold, Or.inr ⟨rfl, hkilled, hearly⟩⟩
      · exact ⟨ticks0, hold, Or.inl ⟨rfl, hlate⟩⟩
  | sleepEnter c p n ticks0 hhas hpc hfree =>
      have hold := h.inTime p
      rw [hpc] at hold
      exact h.move rfl rfl (fun _ _ => rfl) rfl (fun _ _ => rfl) rfl hold hquiet
  | sleepRelease c p n ticks0 hhas hpc hheld =>
      have hold := h.inTime p
      rw [hpc] at hold
      exact h.move rfl rfl (fun _ _ => rfl) rfl (fun _ _ => rfl) rfl ⟨hold.1, Or.inl hold.2⟩ hquiet
  | sleepSched c p n ticks0 hhas hpc hheld hncli =>
      have hold := h.inTime p
      rw [hpc] at hold
      refine h.move rfl rfl (fun _ _ => rfl) rfl (fun q hq => ?_) rfl ⟨hold.1, fun _ => hold.2⟩ hquiet
      exact Function.update_of_ne hq ..
  | sleepReturn c p n ticks0 hhas hpc hfree =>
      have hold := h.inTime p
      rw [hpc] at hold
      exact h.move rfl rfl (fun _ _ => rfl) rfl (fun _ _ => rfl) rfl hold hquiet
  | uptime c p hhas hpc hfree =>
      exact h.move rfl rfl (fun _ _ => rfl) rfl (fun _ _ => rfl) rfl rfl hquiet
  | leave c p r hhas hheld hr =>
      have hold := h.inTime p
      refine h.move rfl rfl (fun _ _ => rfl) rfl (fun _ _ => rfl) rfl (trivial : InTime _ p .away) ?_
      intro r' hr'
      rcases List.mem_append.mp hr' with hr' | hr'
      · exact Or.inl hr'
      · obtain rfl := List.mem_singleton.mp hr'
        refine Or.inr ?_
        rcases hr with ⟨n, result, hpc, rfl⟩ | ⟨xticks, hpc, rfl⟩ <;> rw [hpc] at hold
        · obtain ⟨ticks0, hbegan, hresult⟩ := hold
          rw [early_iff h.ticks hbegan, Nat.not_lt] at hresult
          exact ⟨hbegan.2, hresult⟩
        · obtain rfl := hold
          exact congrArg UInt32.toInt32 h.ticks
  | interrupt c haway hlock hfree | iret c hinside =>
      refine ⟨h.ticks, fun p => (h.inTime p).of_same rfl rfl rfl ?_ id id, h.right⟩
      rintro ⟨c', hc'⟩
      refine ⟨c', ?_⟩
      simp only [setHandler, ClockSys.setTickslock, Function.update_apply]
      grind
  | tick c pending hinside => exact h.tick hp hl hinside
  | wakeup c pending hinside hfree => exact h.wakeup hp hl hinside hfree

/-- **It holds of every reachable state.** -/
theorem Timely.of_run {bs : List (ClockAct nofile ncpu)} (h : run ClockSys.step .init bs = some s) :
    Timely s := by
  refine (run_invariant (I := fun s : ClockSys nproc nofile ncpu => Sound s ∧ Timely s)
    ⟨.start, .start⟩ (fun t b t' ht hstep => ⟨ht.1.step hstep, ?_⟩) h).2
  exact ht.2.step ht.1.placed ht.1.locked (step_trans hstep)

/-- Moves of CPU `c` in the kernel. -/
def kernelMoves (c : Fin ncpu) (ms : List (Move nofile)) : List (ClockAct nofile ncpu) :=
  ms.map fun m => .kernel (.on c m)

/-- The first process, on CPU `c`, sleeps for two ticks; the first one comes on CPU `c'` while it falls
asleep, so that it is woken and goes to sleep again, and then the second one. -/
def twoTicks (c c' : Fin ncpu) : List (ClockAct nofile ncpu) :=
  List.flatten [(bootRun c).map .kernel, [.sysSleep c 2], List.replicate 4 (.advance c),
    [.interrupt c', .tick c', .advance c], kernelMoves c [.schedule, .schedule],
    [.wakeup c', .iret c'], kernelMoves c [.schedule, .schedule, .resume],
    List.replicate 5 (.advance c), kernelMoves c [.schedule, .schedule], [.interrupt c', .tick c']]

/-- It is woken, and returns. -/
def secondWakeup (c c' : Fin ncpu) : List (ClockAct nofile ncpu) :=
  List.flatten [[.wakeup c', .iret c'], kernelMoves c [.schedule, .schedule, .resume],
    List.replicate 3 (.advance c)]

end ClockSys

end StudiesOS.ProcessTable
