import StudiesOS.ProcessTable.Ticks

/-! # Two locks
`sleep` has two locks for a moment. Who holds them can be read off the program points (`Locked`). Up to
its `sched` a process in `sleep` has changed nothing that the others see but `ptable.lock`, so that for
the kernel with one lock (`base`) it has not called `sleep` yet, and the three steps of `sleep` are one
there. -/

namespace StudiesOS.ProcessTable

open Kernel

variable {nproc nofile ncpu : ℕ} {k k' : Kernel nproc nofile ncpu} {c : Fin ncpu} {p : Fin nproc}

namespace ClockSys

variable {s s' : ClockSys nproc nofile ncpu} {a : Act nofile ncpu}

/-! ## Who holds the locks -/

/-- **The CPU `c` holds `tickslock`**, by its handler or by the process on it. -/
def LocksTicks (s : ClockSys nproc nofile ncpu) (c : Fin ncpu) : Prop :=
  s.handler c ≠ .away ∨ ∃ p, s.kernel.cpu c = .ran p ∧ (s.pc p).locksTicks = true

/-- **The locks are with those who stand where they hold them.** -/
structure Locked (s : ClockSys nproc nofile ncpu) : Prop where
  /-- `tickslock`. -/
  ticks : ∀ c, s.tickslock = some c ↔ s.LocksTicks c
  /-- `ptable.lock`, in `sleep`. -/
  table : ∀ c p, s.kernel.cpu c = .ran p → (s.pc p).locksTable = true → s.kernel.lock = some c
  /-- The handler interrupts nobody who holds a lock. -/
  handler : ∀ c, s.handler c ≠ .away →
    s.kernel.lock ≠ some c ∧ ∀ p, s.kernel.cpu c = .ran p → (s.pc p).busy = false

/-- Going on behind `sched` takes no lock. -/
theorem busy_resumed (pc : ClockPc) : pc.resumed.locksTicks = pc.locksTicks ∧
    pc.resumed.locksTable = pc.locksTable ∧ pc.resumed.busy = pc.busy := by
  cases pc <;> exact ⟨rfl, rfl, rfl⟩

/-- A move of the kernel takes no lock for a process in a call. -/
theorem busy_pcAfter (a : Act nofile ncpu) (p : Fin nproc) :
    (s.pcAfter a p).locksTicks = (s.pc p).locksTicks ∧
    (s.pcAfter a p).locksTable = (s.pc p).locksTable ∧ (s.pcAfter a p).busy = (s.pc p).busy := by
  unfold pcAfter
  split
  · split
    · exact busy_resumed _
    · exact ⟨rfl, rfl, rfl⟩
  · exact ⟨rfl, rfl, rfl⟩

/-- **A process that holds a lock stays on its CPU** while the kernel moves, and does not move itself. -/
theorem busy_stays {a : Act nofile ncpu} (h : Placed s) (hallows : s.Allows a)
    (hstep : ProcessTable.step s.kernel a = some k') (hbusy : (s.pc p).busy = true) :
    ∃ c, s.kernel.cpu c = .ran p ∧ a.isOn c = false ∧ k'.cpu c = .ran p ∧
      ∀ c', k'.cpu c' = .ran p → c' = c := by
  obtain ⟨c, hcpu, -⟩ := (h.fits p).of_busy hbusy
  -- it may make no move
  have hown : ∀ c' m, a = .on c' m → s.kernel.cpu c' ≠ .ran p := by
    rintro c' m rfl hcpu'
    have hmay := hallows.2 p hcpu'
    rw [allows_eq_false hbusy] at hmay
    cases hmay
  obtain ⟨-, hmove⟩ := (own_or_unmoved h (ClockPc.ne_away_of_busy hbusy) hstep).resolve_left fun
    ⟨c', m, heq, hcpu', _⟩ => hown c' m heq hcpu'
  refine ⟨c, hcpu, ?_, hmove.cpu c hcpu, fun c' hc' => ?_⟩
  · cases a with
    | userinit => rfl
    | on c' m =>
        refine decide_eq_false fun heq => hown c' m rfl ?_
        rw [heq]
        exact hcpu
  · exact (h.control.step (ProcessTable.step_trans hstep)).inj c' c p hc' (hmove.cpu c hcpu)

/-- A CPU whose handler is away holds `tickslock` if the process on it does. -/
theorem locksTicks_iff (haway : s.handler c = .away) (hcpu : s.kernel.cpu c = .ran p) :
    s.LocksTicks c ↔ (s.pc p).locksTicks = true := by
  constructor
  · rintro (hne | ⟨q, hq, hlocks⟩)
    · exact absurd haway hne
    · obtain rfl := Cpu.ran.inj (hq.symm.trans hcpu)
      exact hlocks
  · exact fun hlocks => Or.inr ⟨p, hcpu, hlocks⟩

/-- **A process on a CPU moves on in its call**: it takes a free lock, or it leaves the locks, or it
releases one. -/
theorem Locked.move (h : Locked s) (hp : Placed s) (hhas : s.Has c p) {pc' : ClockPc}
    (hcpu : s'.kernel.cpu = s.kernel.cpu) (hhandler : s'.handler = s.handler)
    (hpc : s'.pc = Function.update s.pc p pc')
    (hticks : s'.tickslock = s.tickslock ∧ pc'.locksTicks = (s.pc p).locksTicks ∨
      s.tickslock = none ∧ s'.tickslock = some c ∧ pc'.locksTicks = true ∨
      (s.pc p).locksTicks = true ∧ s'.tickslock = none ∧ pc'.locksTicks = false)
    (htable : s'.kernel.lock = s.kernel.lock ∧ (pc'.locksTable = true → (s.pc p).locksTable = true) ∨
      s.kernel.lock = none ∧ s'.kernel.lock = some c) : Locked s' := by
  obtain ⟨hran, -, haway⟩ := hhas
  have hinj := hp.control.inj
  obtain ⟨hoticks, hotable, hohandler⟩ := h
  refine ⟨fun c' => ?_, fun c' q hq hlocks => ?_, fun c' hc' => ?_⟩
  · have hold := hoticks c
    rw [locksTicks_iff haway hran] at hold
    by_cases hcc : c' = c
    · rw [hcc, locksTicks_iff (p := p) (by rw [hhandler, haway]) (by rw [hcpu, hran]), hpc,
        Function.update_self]
      grind
    · -- another CPU holds what it has held
      have hother : s'.LocksTicks c' ↔ s.LocksTicks c' := by
        unfold LocksTicks
        rw [hhandler, hcpu, hpc]
        refine or_congr Iff.rfl (exists_congr fun q => and_congr_right fun hq => ?_)
        rw [Function.update_of_ne]
        rintro rfl
        exact hcc (hinj c' c q hq hran)
      rw [hother, ← hoticks c']
      have hnew := hoticks c'
      grind
  · rw [hcpu] at hq
    rw [hpc, Function.update_apply] at hlocks
    have hold := hotable c' q hq
    grind
  · rw [hhandler] at hc'
    have hold := hohandler c' hc'
    rw [hcpu, hpc]
    simp only [Function.update_apply]
    grind

/-- **The moves of the kernel** neither take the locks from who is in a call nor give them to it. -/
theorem Locked.kernel_step (h : Locked s) (hp : Placed s) (hallows : s.Allows a)
    (hstep : ProcessTable.step s.kernel a = some k) :
    Locked { s with kernel := k, pc := s.pcAfter a } := by
  have ha := ProcessTable.step_trans hstep
  -- who holds a lock behind the move was on its CPU before it
  have hback : ∀ c p, k.cpu c = .ran p → (s.pc p).busy = true →
      s.kernel.cpu c = .ran p ∧ a.isOn c = false := by
    intro c p hcpu hbusy
    obtain ⟨c', hcpu', hon, -, huniq⟩ := busy_stays hp hallows hstep hbusy
    rw [huniq c hcpu]
    exact ⟨hcpu', hon⟩
  refine ⟨fun c => (h.ticks c).trans (or_congr Iff.rfl ⟨?_, ?_⟩), fun c p hcpu hpc => ?_,
    fun c hc => ⟨fun hlock => ?_, fun p hcpu => ?_⟩⟩
  · rintro ⟨p, hcpu, hpc⟩
    obtain ⟨c', hcpu', -, hstay, -⟩ :=
      busy_stays hp hallows hstep (ClockPc.busy_of_locksTicks hpc)
    obtain rfl := hp.control.inj c c' p hcpu hcpu'
    exact ⟨p, hstay, (busy_pcAfter a p).1.trans hpc⟩
  · rintro ⟨p, hcpu, hpc⟩
    have hold := (busy_pcAfter (s := s) a p).1.symm.trans hpc
    exact ⟨p, (hback c p hcpu (ClockPc.busy_of_locksTicks hold)).1, hold⟩
  · have hold := (busy_pcAfter (s := s) a p).2.1.symm.trans hpc
    obtain ⟨hcpu', hon⟩ := hback c p hcpu (ClockPc.busy_of_locksTable hold)
    exact (lock_of_trans ha hon).mpr (h.table c p hcpu' hold)
  · -- the kernel makes no move on a CPU in the handler
    have hon : a.isOn c = false := by
      cases a with
      | userinit => rfl
      | on c' m =>
          refine decide_eq_false fun heq => hc ?_
          rw [← heq]
          exact hallows.1
    exact (h.handler c hc).1 ((lock_of_trans ha hon).mp hlock)
  · by_contra hbusy
    rw [Bool.not_eq_false, (busy_pcAfter a p).2.2] at hbusy
    have hold := (h.handler c hc).2 p (hback c p hcpu hbusy).1
    rw [hbusy] at hold
    cases hold

/-- **A process falls asleep**: its CPU goes to `scheduler`, and keeps `ptable.lock`. -/
theorem Locked.sleepSched (h : Locked s) (hp : Placed s) {n : Int32} {ticks0 : UInt32}
    (hhas : s.Has c p) (hpc : s.pc p = .sleepSched n ticks0) :
    Locked { s.setPc p (.asleep n ticks0) with
      kernel := (s.kernel.modify p fun q =>
        { q with chan := some (.other ticksChan), state := .sleeping }).sched c p .sleep } := by
  obtain ⟨hran, -, haway⟩ := hhas
  have hinj := hp.control.inj
  have hself := locksTicks_iff haway hran
  have hown := h.table c p hran (by rw [hpc]; rfl)
  rw [hpc, ← h.ticks] at hself
  refine ⟨fun c' => ?_, fun c' q hq hlocks => ?_, fun c' hc' => ?_⟩
  · have hold := h.ticks c'
    simp only [LocksTicks, ClockSys.setPc, Kernel.sched, Kernel.modify, Function.update_apply]
      at hold ⊢
    grind [ClockPc.locksTicks]
  · have hold := h.table c'
    simp only [ClockSys.setPc, Kernel.sched, Kernel.modify, Function.update_apply] at hq hlocks ⊢
    grind [ClockPc.locksTable]
  · have hold := h.handler c' hc'
    simp only [ClockSys.setPc, Kernel.sched, Kernel.modify, Function.update_apply] at hc' ⊢
    grind [ClockPc.busy, ClockPc.locksTicks, ClockPc.locksTable]

/-- **The handler begins**: `tickslock` was free, so nobody held it. -/
theorem Locked.interrupt (h : Locked s) (hlock : s.kernel.lock ≠ some c) (hfree : s.tickslock = none) :
    Locked ((s.setTickslock (some c)).setHandler c (.inside false)) := by
  have hnobody : ∀ c', ¬ s.LocksTicks c' := by
    intro c' hc'
    rw [← h.ticks, hfree] at hc'
    cases hc'
  refine ⟨fun c' => ?_, h.table, fun c' hc' => ?_⟩
  · have hold := hnobody c'
    simp only [LocksTicks, ClockSys.setTickslock, setHandler, Function.update_apply] at hold ⊢
    grind
  · by_cases hcc : c' = c
    · refine ⟨hcc ▸ hlock, fun p hcpu => ?_⟩
      rw [ClockPc.busy, Bool.or_eq_false_iff, Bool.eq_false_iff, Bool.eq_false_iff]
      exact ⟨fun hpc => hnobody c' (Or.inr ⟨p, hcpu, hpc⟩),
        fun hpc => hlock (hcc ▸ h.table c' p hcpu hpc)⟩
    · refine h.handler c' ?_
      simpa only [setHandler, ClockSys.setTickslock, Function.update_of_ne hcc] using hc'

/-- **The handler returns**: the process that it has interrupted holds no lock. -/
theorem Locked.iret (h : Locked s) (hinside : s.handler c = .inside false) :
    Locked ((s.setTickslock none).setHandler c .away) := by
  have hne : s.handler c ≠ .away := by rw [hinside]; simp
  have hheld : s.tickslock = some c := (h.ticks c).mpr (Or.inl hne)
  have hfree := (h.handler c hne).2
  refine ⟨fun c' => ?_, h.table, fun c' hc' => ?_⟩
  · have hold := h.ticks c'
    simp only [LocksTicks, ClockSys.setTickslock, setHandler, Function.update_apply] at hold ⊢
    grind [ClockPc.busy]
  · refine h.handler c' fun haway => hc' ?_
    simp only [setHandler, setTickslock, Function.update_apply]
    split_ifs
    · rfl
    · exact haway

/-- **Every step keeps it.** -/
theorem Locked.step {b : ClockAct nofile ncpu} (h : Locked s) (hp : Placed s) (hb : Trans s b s') :
    Locked s' := by
  cases hb with
  | kernel a k hallows hstep => exact h.kernel_step hp hallows hstep
  | call b c p pc' hhas hpc huser hb =>
      refine h.move hp hhas rfl rfl rfl (Or.inl ⟨rfl, ?_⟩) (Or.inl ⟨rfl, ?_⟩) <;> rw [hpc] <;>
        rcases hb with ⟨n, -, rfl⟩ | ⟨-, rfl⟩ <;> simp [ClockPc.locksTicks, ClockPc.locksTable]
  | test c p n ticks0 pc' hhas hpc hpc' =>
      refine h.move hp hhas rfl rfl rfl (Or.inl ⟨rfl, ?_⟩) (Or.inl ⟨rfl, ?_⟩) <;> rw [hpc] <;>
        rcases hpc' with ⟨-, -, rfl⟩ | ⟨-, -, rfl⟩ | ⟨-, rfl⟩ <;>
          simp [ClockPc.locksTicks, ClockPc.locksTable]
  | enter c p n hhas hpc hfree | sleepReturn c p n ticks0 hhas hpc hfree | uptime c p hhas hpc hfree =>
      exact h.move hp hhas rfl rfl rfl (Or.inr (Or.inl ⟨hfree, rfl, rfl⟩))
        (Or.inl ⟨rfl, by simp [ClockPc.locksTable]⟩)
  | sleepRelease c p n ticks0 hhas hpc hheld =>
      exact h.move hp hhas rfl rfl rfl (Or.inr (Or.inr ⟨by rw [hpc]; rfl, rfl, rfl⟩))
        (Or.inl ⟨rfl, by rw [hpc]; simp [ClockPc.locksTable]⟩)
  | leave c p r hhas hheld hr =>
      have hlocks := (locksTicks_iff hhas.2.2 hhas.1).mp ((h.ticks c).mp hheld)
      exact h.move hp hhas rfl rfl rfl (Or.inr (Or.inr ⟨hlocks, rfl, rfl⟩))
        (Or.inl ⟨rfl, by simp [ClockPc.locksTable]⟩)
  | sleepEnter c p n ticks0 hhas hpc hfree =>
      exact h.move hp hhas rfl rfl rfl (Or.inl ⟨rfl, by rw [hpc]; rfl⟩) (Or.inr ⟨hfree, rfl⟩)
  | sleepSched c p n ticks0 hhas hpc hheld => exact h.sleepSched hp hhas hpc
  | interrupt c haway hlock hfree => exact h.interrupt hlock hfree
  | iret c hinside => exact h.iret hinside
  | tick c pending hinside | wakeup c pending hinside hfree =>
      -- the handler goes on, and nothing else moves
      have hsame : ∀ c' x, Function.update s.handler c (.inside x) c' ≠ .away ↔ s.handler c' ≠ .away := by
        intro c' x
        by_cases hcc : c' = c
        · rw [hcc, Function.update_self, hinside]
          simp
        · rw [Function.update_of_ne hcc]
      exact ⟨fun c' => (h.ticks c').trans (or_congr (hsame c' _).symm Iff.rfl), h.table,
        fun c' hc' => h.handler c' ((hsame c' _).mp hc')⟩

/-! ## The kernel below -/

/-- A process is in the first part of `sleep`, and holds `ptable.lock`. -/
def Entering (s : ClockSys nproc nofile ncpu) : Prop := ∃ p, (s.pc p).locksTable = true

instance : Decidable s.Entering := inferInstanceAs (Decidable (∃ _, _))

/-- **The kernel without the locks of the clock**: a process that has not come to its `sched` yet has not
called `sleep` yet. -/
def base (s : ClockSys nproc nofile ncpu) : Kernel nproc nofile ncpu :=
  if s.Entering then s.kernel.setLock none else s.kernel

/-- One process at a time is there, and `ptable.lock` is with it. -/
theorem Locked.entering (h : Locked s) (hp : Placed s) (hlocks : (s.pc p).locksTable = true) :
    ∃ c, s.kernel.cpu c = .ran p ∧ s.kernel.lock = some c ∧
      ∀ q, (s.pc q).locksTable = true → q = p := by
  have hrun : ∀ {q}, (s.pc q).locksTable = true → ∃ c, s.kernel.cpu c = .ran q := by
    intro q hq
    obtain ⟨c, hcpu, -⟩ := (hp.fits q).of_busy (ClockPc.busy_of_locksTable hq)
    exact ⟨c, hcpu⟩
  obtain ⟨c, hcpu⟩ := hrun hlocks
  have hlock := h.table c p hcpu hlocks
  refine ⟨c, hcpu, hlock, fun q hq => ?_⟩
  obtain ⟨c', hcpu'⟩ := hrun hq
  obtain rfl : c = c' := Option.some.inj (hlock.symm.trans (h.table c' q hcpu' hq))
  exact Cpu.ran.inj (hcpu'.symm.trans hcpu)

/-- Outside of it the two are the same. -/
theorem base_of_not_entering (h : ¬ s.Entering) : s.base = s.kernel := if_neg h

/-- While the lock is free nobody is there. -/
theorem Locked.not_entering (h : Locked s) (hp : Placed s) (hfree : s.kernel.lock = none) :
    ¬ s.Entering := by
  rintro ⟨p, hlocks⟩
  obtain ⟨c, -, hlock, -⟩ := h.entering hp hlocks
  rw [hfree] at hlock
  cases hlock

/-- A process moves on in its call and does not come or go there. -/
theorem base_setPc {pc' : ClockPc} (hkernel : s'.kernel = s.kernel)
    (hpc : s'.pc = Function.update s.pc p pc') (hsame : pc'.locksTable = (s.pc p).locksTable) :
    s'.base = s.base := by
  have hiff : s'.Entering ↔ s.Entering := by
    refine exists_congr fun q => ?_
    rw [hpc]
    by_cases hqp : q = p
    · rw [hqp, Function.update_self, hsame]
    · rw [Function.update_of_ne hqp]
  simp only [base, hkernel, hiff]

/-- While the lock is free, an interrupt can wake. -/
theorem step_wakeup (hsec : Sections k) (hfree : k.lock = none) (address : ℕ) :
    ProcessTable.step k (.on c (.wakeup address) : Act nofile ncpu)
      = some (k.wakeup1 (some (.other address))) := by
  have hholds : ¬ k.Holds c := by
    rw [← hsec.holder c, hfree]
    simp
  unfold Kernel.Holds at hholds
  cases hcpu : k.cpu c with
  | idle => simp only [ProcessTable.step, hcpu, if_pos hfree]
  | scan j =>
      rw [hcpu] at hholds
      exact absurd trivial hholds
  | ran p =>
      rw [hcpu] at hholds
      have hsusp : k.susp p = .awake := by
        by_contra hne
        exact hholds (Or.inl hne)
      rw [step_of_ran hcpu hsusp]
      exact if_pos hfree

/-- **The kernel below takes the same step, or none.** -/
theorem base_step {b : ClockAct nofile ncpu} (h : Locked s) (hp : Placed s) (hsec : Sections s.base)
    (hb : Trans s b s') :
    s'.base = s.base ∨ ∃ a, ProcessTable.step s.base a = some s'.base := by
  cases hb with
  | kernel a k hallows hstep =>
      have hiff : ClockSys.Entering { s with kernel := k, pc := s.pcAfter a } ↔ s.Entering :=
        exists_congr fun p => by rw [(busy_pcAfter a p).2.1]
      refine Or.inr ⟨a, ?_⟩
      by_cases hent : s.Entering
      · obtain ⟨p, hlocks⟩ := hent
        obtain ⟨c, hcpu, hlock, -⟩ := h.entering hp hlocks
        obtain ⟨c', hcpu', hon, -⟩ :=
          busy_stays hp hallows hstep (ClockPc.busy_of_locksTable hlocks)
        obtain rfl := hp.control.inj c c' p hcpu hcpu'
        rw [base, if_pos ⟨p, hlocks⟩, base, if_pos (hiff.mpr ⟨p, hlocks⟩)]
        exact (step_setLock_none hlock hon hstep).2
      · rw [base, if_neg hent, base, if_neg fun hent' => hent (hiff.mp hent')]
        exact hstep
  | call b c p pc' hhas hpc huser hb =>
      refine Or.inl (base_setPc rfl rfl ?_)
      rw [hpc]
      rcases hb with ⟨n, -, rfl⟩ | ⟨-, rfl⟩ <;> rfl
  | test c p n ticks0 pc' hhas hpc hpc' =>
      refine Or.inl (base_setPc rfl rfl ?_)
      rw [hpc]
      rcases hpc' with ⟨-, -, rfl⟩ | ⟨-, -, rfl⟩ | ⟨-, rfl⟩ <;> rfl
  | enter c p n hhas hpc | sleepReturn c p n ticks0 hhas hpc | uptime c p hhas hpc
  | sleepRelease c p n ticks0 hhas hpc =>
      exact Or.inl (base_setPc rfl rfl (by rw [hpc]; rfl))
  | leave c p r hhas hheld hr =>
      refine Or.inl (base_setPc rfl rfl ?_)
      rcases hr with ⟨n, result, hpc, -⟩ | ⟨xticks, hpc, -⟩ <;> rw [hpc] <;> rfl
  | sleepEnter c p n ticks0 hhas hpc hfree =>
      have hent : ClockSys.Entering
          { s.setPc p (.sleepRelease n ticks0) with kernel := s.kernel.setLock (some c) } :=
        ⟨p, by simp [ClockSys.setPc, ClockPc.locksTable]⟩
      refine Or.inl ?_
      rw [base, if_pos hent, base_of_not_entering (h.not_entering hp hfree)]
      show s.kernel.setLock none = s.kernel
      rw [← hfree]
      rfl
  | sleepSched c p n ticks0 hhas hpc hheld =>
      have hlocks : (s.pc p).locksTable = true := by rw [hpc]; rfl
      obtain ⟨-, -, -, honly⟩ := h.entering hp hlocks
      have hleft : ¬ ClockSys.Entering { s.setPc p (.asleep n ticks0) with
          kernel := (s.kernel.modify p fun q =>
            { q with chan := some (.other ticksChan), state := .sleeping }).sched c p .sleep } := by
        rintro ⟨q, hq⟩
        dsimp only [ClockSys.setPc] at hq
        by_cases hqp : q = p
        · rw [hqp, Function.update_self] at hq
          cases hq
        · rw [Function.update_of_ne hqp] at hq
          exact hqp (honly q hq)
      refine Or.inr ⟨.on c (.sleep ticksChan), ?_⟩
      rw [base_of_not_entering hleft, base, if_pos ⟨p, hlocks⟩]
      exact step_of_ran (k := s.kernel.setLock none) hhas.1 hhas.2.1 _
  | interrupt | iret | tick => exact Or.inl rfl
  | wakeup c pending hinside hfree =>
      have hent := h.not_entering hp hfree
      rw [base_of_not_entering hent] at hsec ⊢
      exact Or.inr ⟨.on c (.wakeup ticksChan),
        (step_wakeup hsec hfree ticksChan).trans (congrArg some (if_neg hent).symm)⟩

/-! ## Reachable states -/

/-- **What is known of a reachable state.** -/
structure Sound (s : ClockSys nproc nofile ncpu) : Prop where
  /-- The processes stand where they can. -/
  placed : Placed s
  /-- The locks are with those who hold them. -/
  locked : Locked s
  /-- The kernel below is reachable. -/
  reach : ∃ as, run ProcessTable.step .init as = some s.base

/-- At the start. -/
theorem Sound.start : Sound (.init : ClockSys nproc nofile ncpu) where
  placed := ⟨.start, fun _ => trivial⟩
  locked := by
    refine ⟨fun c => ?_, fun c p hcpu => ?_, fun c hc => absurd rfl hc⟩
    · simp [ClockSys.init, LocksTicks, Kernel.init]
    · cases hcpu
  reach := ⟨[], by
    rw [base_of_not_entering]
    · rfl
    · rintro ⟨p, hp⟩
      cases hp⟩

/-- Every step keeps it. -/
theorem Sound.step {b : ClockAct nofile ncpu} (h : Sound s) (hstep : ClockSys.step s b = some s') :
    Sound s' := by
  have hb := step_trans hstep
  obtain ⟨as, has⟩ := h.reach
  refine ⟨h.placed.step hb, h.locked.step h.placed hb, ?_⟩
  rcases base_step h.locked h.placed (.of_run has) hb with heq | ⟨a, ha⟩
  · rw [heq]
    exact ⟨as, has⟩
  · exact ⟨as ++ [a], run_snoc.mpr ⟨s.base, has, ha⟩⟩

/-- **It holds of every reachable state.** -/
theorem Sound.of_run {bs : List (ClockAct nofile ncpu)} (h : run ClockSys.step .init bs = some s) :
    Sound s :=
  run_invariant .start (fun _ _ _ hs hstep => hs.step hstep) h

/-! ## Who holds a lock can go on -/

/-- **The next move of a CPU that holds a lock**, in the handler, in one of the two calls, or elsewhere in
the kernel. -/
def nextMove (s : ClockSys nproc nofile ncpu) (c : Fin ncpu) : ClockAct nofile ncpu :=
  match s.handler c with
  | .inside true => .wakeup c
  | .inside false => .iret c
  | .away =>
      match s.kernel.cpu c with
      | .ran p =>
          if (s.pc p).busy = true then .advance c else .kernel (.on c (s.kernel.sectionMove c))
      | .idle | .scan _ => .kernel (.on c (s.kernel.sectionMove c))

/-- A process that holds a lock in a call goes on, if it does not have to wait for `ptable.lock`: the tests
of `release` and of `sched` hold. -/
theorem Locked.busy_goes_on (h : Locked s) (hhas : s.Has c p) (hbusy : (s.pc p).busy = true) :
    (ClockSys.step s (.advance c)).isSome = true ∨
      (s.pc p).locksTable = false ∧ s.kernel.lock ≠ none := by
  have hself : s.self c = some p := self_eq_some.mpr ⟨hhas.1, hhas.2.1⟩
  have hticks := (h.ticks c).trans (locksTicks_iff hhas.2.2 hhas.1)
  have htable := h.table c p hhas.1
  simp only [ClockSys.step, hhas.2.2, hself, if_true, Option.bind_some]
  cases hpc : s.pc p with
  | away | enter | asleep | sleepReturn | uptime =>
      rw [hpc] at hbusy
      cases hbusy
  | test n ticks0 =>
      refine Or.inl ?_
      simp only [advanceStep, hpc]
      split_ifs <;> rfl
  | sleepEnter n ticks0 =>
      by_cases hfree : s.kernel.lock = none
      · simp only [advanceStep, hpc, hfree, if_true, Option.isSome_some, true_or]
      · exact Or.inr ⟨rfl, hfree⟩
  | sleepRelease n ticks0 | leave n result | uptimeLeave xticks =>
      rw [hpc] at hticks
      have hheld := hticks.mpr rfl
      simp only [advanceStep, hpc, hheld, if_true, Option.isSome_some, true_or]
  | sleepSched n ticks0 =>
      rw [hpc] at hticks htable
      have hfree : s.tickslock ≠ some c := fun hheld => Bool.noConfusion (hticks.mp hheld)
      have hheld := htable rfl
      have hncli : s.ncli c = 1 := by rw [ncli, if_neg hfree, if_pos hheld]
      simp only [advanceStep, hpc, hheld, hncli, and_self, if_true, Option.isSome_some, true_or]

/-- A process that holds only `tickslock` is in no section of the process table. -/
theorem Sound.lock_ne (h : Sound s) (hhas : s.Has c p) (hbusy : (s.pc p).busy = true)
    (htable : (s.pc p).locksTable = false) : s.kernel.lock ≠ some c := by
  intro hlock
  by_cases hent : s.Entering
  · obtain ⟨q, hq⟩ := hent
    obtain ⟨c', hcpu, hlock', -⟩ := h.locked.entering h.placed hq
    obtain rfl := Option.some.inj (hlock.symm.trans hlock')
    obtain rfl := Cpu.ran.inj (hcpu.symm.trans hhas.1)
    rw [hq] at htable
    cases htable
  · obtain ⟨as, has⟩ := h.reach
    rw [base_of_not_entering hent] at has
    have haway := ClockPc.ne_away_of_busy hbusy
    have hholds := ((Sections.of_run has).holder c).mp hlock
    rw [Kernel.Holds, hhas.1] at hholds
    rcases hholds with hsusp | hinside
    · exact hsusp hhas.2.1
    · rw [(h.placed.fits p).user haway] at hinside
      cases hinside

/-- In the kernel, the holder of `ptable.lock` makes a move that the call in which its process is allows:
behind `sched` it can only go on. -/
theorem Sound.nextMove_kernel (h : Sound s) (hent : ¬ s.Entering) (hlock : s.kernel.lock = some c)
    (haway : s.handler c = .away) (hholds : s.kernel.Holds c) :
    s.nextMove c = .kernel (.on c (s.kernel.sectionMove c)) ∧
      s.Allows (.on c (s.kernel.sectionMove c)) := by
  rw [Kernel.Holds] at hholds
  simp only [nextMove, haway, Allows, true_and]
  cases hcpu : s.kernel.cpu c with
  | idle | scan => exact ⟨rfl, fun p hp => by cases hp⟩
  | ran p =>
      rw [hcpu] at hholds
      have hfree : (s.pc p).busy = false := by
        by_contra hbusy
        rw [Bool.not_eq_false] at hbusy
        obtain ⟨c', -, hsusp⟩ := (h.placed.fits p).of_busy hbusy
        refine h.lock_ne ⟨hcpu, hsusp, haway⟩ hbusy ?_ hlock
        exact Bool.eq_false_iff.mpr fun hlocks => hent ⟨p, hlocks⟩
      simp only [hfree, Bool.false_eq_true, if_false, true_and]
      rintro q hq
      obtain rfl := Cpu.ran.inj hq
      by_cases hpc : s.pc p = .away
      · rw [hpc]
        rfl
      · -- it is behind its `sched`
        have huser := (h.placed.fits p).user hpc
        have hsusp : s.kernel.susp p ≠ .awake := by
          refine hholds.resolve_right fun hinside => ?_
          rw [huser] at hinside
          cases hinside
        have hmove : s.kernel.sectionMove c = .resume := by
          simp only [Kernel.sectionMove, hcpu, hsusp, if_false]
        rw [hmove]
        cases hp : s.pc p with
        | away | enter | asleep | sleepReturn | uptime => rfl
        | test | sleepEnter | sleepRelease | sleepSched | leave | uptimeLeave =>
            rw [hp] at hfree
            cases hfree

/-- **The holder of `ptable.lock` can go on.** -/
theorem Sound.table_goes_on (h : Sound s) (hlock : s.kernel.lock = some c) :
    (ClockSys.step s (s.nextMove c)).isSome = true := by
  have haway : s.handler c = .away := by
    by_contra hne
    exact (h.locked.handler c hne).1 hlock
  by_cases hent : s.Entering
  · -- in `sleep`
    obtain ⟨p, hp⟩ := hent
    have hbusy := ClockPc.busy_of_locksTable hp
    obtain ⟨c', hcpu, hlock', -⟩ := h.locked.entering h.placed hp
    obtain rfl := Option.some.inj (hlock.symm.trans hlock')
    obtain ⟨c', -, hsusp⟩ := (h.placed.fits p).of_busy hbusy
    have hnext : s.nextMove c = .advance c := by
      simp only [nextMove, haway, hcpu, hbusy, if_true]
    rw [hnext]
    refine (h.locked.busy_goes_on ⟨hcpu, hsusp, haway⟩ hbusy).resolve_right ?_
    rintro ⟨hnot, -⟩
    rw [hp] at hnot
    cases hnot
  · -- elsewhere in the kernel
    obtain ⟨as, has⟩ := h.reach
    rw [base_of_not_entering hent] at has
    have hsec := Sections.of_run has
    obtain ⟨hnext, hallows⟩ := h.nextMove_kernel hent hlock haway ((hsec.holder c).mp hlock)
    rw [hnext, ClockSys.step, if_pos hallows, Option.isSome_map, Option.isSome_iff_ne_none]
    exact section_enabled hsec h.placed.control hlock

/-- **The holder of `tickslock` can go on**, or waits for `ptable.lock`, which another CPU holds. -/
theorem Sound.ticks_goes_on (h : Sound s) (hheld : s.tickslock = some c) :
    (ClockSys.step s (s.nextMove c)).isSome = true ∨ ∃ c', c' ≠ c ∧ s.kernel.lock = some c' := by
  have hother : s.kernel.lock ≠ none → s.kernel.lock ≠ some c →
      ∃ c', c' ≠ c ∧ s.kernel.lock = some c' := by
    intro hne hnec
    obtain ⟨c', hc'⟩ := Option.ne_none_iff_exists'.mp hne
    exact ⟨c', fun heq => hnec (heq ▸ hc'), hc'⟩
  cases hhandler : s.handler c with
  | inside pending =>
      have hne := (h.locked.handler c (by rw [hhandler]; simp)).1
      cases pending with
      | false => exact Or.inl (by simp only [nextMove, hhandler, ClockSys.step, Option.isSome_some])
      | true =>
          by_cases hfree : s.kernel.lock = none
          · refine Or.inl ?_
            simp only [nextMove, hhandler, ClockSys.step, hfree, if_true, Option.isSome_some]
          · exact Or.inr (hother hfree hne)
  | away =>
      rcases (h.locked.ticks c).mp hheld with hne | ⟨p, hcpu, hlocks⟩
      · exact absurd hhandler hne
      · have hbusy := ClockPc.busy_of_locksTicks hlocks
        obtain ⟨c', -, hsusp⟩ := (h.placed.fits p).of_busy hbusy
        have hhas : s.Has c p := ⟨hcpu, hsusp, hhandler⟩
        have hnext : s.nextMove c = .advance c := by
          simp only [nextMove, hhandler, hcpu, hbusy, if_true]
        rw [hnext]
        rcases h.locked.busy_goes_on hhas hbusy with hgoes | ⟨htable, hne⟩
        · exact Or.inl hgoes
        · exact Or.inr (hother hne (h.lock_ne hhas hbusy htable))

/-! ## The two kernels -/

/-- Whoever is at the start of a call, or in none, is in no part of `sleep`. -/
theorem base_of_away (h : ∀ p, s.pc p = .away) : s.base = s.kernel := by
  refine base_of_not_entering ?_
  rintro ⟨p, hlocks⟩
  rw [h p] at hlocks
  cases hlocks

/-- The kernel runs as before while nobody is in one of the two calls and no interrupt comes. -/
theorem run_kernel {as : List (Act nofile ncpu)} (hpc : ∀ p, s.pc p = .away)
    (hhandler : ∀ c, s.handler c = .away) (h : run ProcessTable.step s.kernel as = some k) :
    ∃ t, run ClockSys.step s (as.map .kernel) = some t ∧ t.kernel = k ∧ ∀ p, t.pc p = .away := by
  induction as generalizing s with
  | nil => exact ⟨s, rfl, by simpa using h, hpc⟩
  | cons a as ih =>
      rw [run_cons] at h
      obtain ⟨k₁, hk₁, h⟩ := Option.bind_eq_some_iff.mp h
      have hallows : s.Allows a := by
        cases a with
        | userinit => trivial
        | on c m => exact ⟨hhandler c, fun p _ => by rw [hpc p]; rfl⟩
      have hafter : ∀ p, s.pcAfter a p = .away := fun p => pcAfter_of_away a (hpc p)
      obtain ⟨t, ht, hkernel, haway⟩ := ih (s := { s with kernel := k₁, pc := s.pcAfter a }) hafter hhandler h
      refine ⟨t, ?_, hkernel, haway⟩
      rw [List.map_cons, run_cons, ClockSys.step, if_pos hallows, hk₁]
      exact ht

/-- **The second lock adds no behaviour of the process table, and takes none away.** The states of the
kernel below are the reachable states of the kernel; it differs from the kernel with the clock by its
lock at most, and while the lock is free not at all; and every step is one of its steps, or none. -/
theorem clock_refines (k : Kernel nproc nofile ncpu) :
    ((∃ bs s, run ClockSys.step .init bs = some s ∧ s.base = k) ↔
      ∃ as, run ProcessTable.step .init as = some k) ∧
    ∀ bs (s : ClockSys nproc nofile ncpu), run ClockSys.step .init bs = some s →
      s.base = { s.kernel with lock := s.base.lock } ∧ (s.kernel.lock = none → s.base = s.kernel) ∧
      ∀ b s', ClockSys.step s b = some s' →
        s'.base = s.base ∨ ∃ a, ProcessTable.step s.base a = some s'.base := by
  refine ⟨⟨?_, ?_⟩, fun bs s h => ?_⟩
  · rintro ⟨bs, s, h, rfl⟩
    exact (Sound.of_run h).reach
  · rintro ⟨as, h⟩
    obtain ⟨s, hs, rfl, hpc⟩ := run_kernel (s := .init) (fun _ => rfl) (fun _ => rfl) h
    exact ⟨_, s, hs, base_of_away hpc⟩
  · obtain ⟨hplaced, hlocked, as, has⟩ := Sound.of_run h
    refine ⟨?_, fun hfree => base_of_not_entering (hlocked.not_entering hplaced hfree),
      fun b s' hstep => base_step hlocked hplaced (.of_run has) (step_trans hstep)⟩
    unfold base
    split <;> rfl

end ClockSys

end StudiesOS.ProcessTable
