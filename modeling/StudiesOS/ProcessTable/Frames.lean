import StudiesOS.ProcessTable.Sections
import StudiesOS.ProcessTable.Parents

/-! # What the moves of others leave
A process that makes no move of its own keeps its place, its CPU and its channel (`Unmoved`), and the CPU
that holds `ptable.lock` keeps it. What the other CPUs can do meanwhile they could do with a free lock as
well. -/

namespace StudiesOS.ProcessTable

open Kernel

variable {nproc nofile ncpu : ℕ} {k k' : Kernel nproc nofile ncpu} {c c' : Fin ncpu} {p : Fin nproc}
  {a : Act nofile ncpu}

/-! ## A process -/

/-- **What the moves of others leave** to a living process. -/
structure Unmoved (k k' : Kernel nproc nofile ncpu) (p : Fin nproc) : Prop where
  /-- It stands where it stood. -/
  pc : k'.pc p = k.pc p
  /-- It goes on where it went on. -/
  susp : k'.susp p = k.susp p
  /-- Its sleep channel is the same. -/
  chan : (k'.proc p).chan = (k.proc p).chan
  /-- `killed` is not taken back. -/
  killed : (k.proc p).killed = true → (k'.proc p).killed = true
  /-- It lives. -/
  alive : (k'.proc p).state.status = .alive
  /-- It does not fall asleep. -/
  asleep : (k'.proc p).state = .sleeping → (k.proc p).state = .sleeping
  /-- It stays on its CPU. -/
  cpu : ∀ c, k.cpu c = .ran p → k'.cpu c = .ran p

/-- Waking moves nobody. -/
theorem unmoved_of_woken (h : Woken k k') (halive : (k.proc p).state.status = .alive) :
    Unmoved k k' p := by
  obtain ⟨hpc, hsusp, hcpu⟩ : k'.pc = k.pc ∧ k'.susp = k.susp ∧ k'.cpu = k.cpu := by
    rw [h.rest]
    exact ⟨rfl, rfl, rfl⟩
  refine ⟨by rw [hpc], by rw [hsusp], ?_, ?_, ?_, ?_, fun c hc => by rw [hcpu, hc]⟩ <;>
    rcases h.proc p with heq | ⟨hs, heq⟩ <;> rw [heq]
  · exact id
  · exact id
  · exact halive
  · rfl
  · exact id
  · exact fun h => by cases h

/-- **A move that is not the process's own**, or a wake-up in an interrupt, leaves it. -/
theorem unmoved_of_trans (hc : Control k) (halive : (k.proc p).state.status = .alive)
    (hmove : ∀ c m, a = .on c m → k.cpu c = .ran p → ∃ address, m = .wakeup address)
    (ha : Trans k a k') : Unmoved k k' p := by
  have hran := hc.ran
  have hchild := hc.child
  have hboot := hc.boot
  cases ha with
  | exitLast c q t hcpu hsusp hpc hlock ht =>
      -- another process exits; its parent and `initproc` are woken
      have hqp : p ≠ q := by grind
      have hproc := ht.proc p
      have hstate := ht.state p
      obtain ⟨hpc', hsusp', hcpu'⟩ : t.pc = k.pc ∧ t.susp = k.susp ∧ t.cpu = k.cpu := by
        rw [ht.rest]
        exact ⟨rfl, rfl, rfl⟩
      constructor <;> simp only [Kernel.modify, Kernel.sched, Function.update_apply] <;>
        grind [ProcState.status]
  | wakeup c address hlock =>
      exact unmoved_of_woken (woken_wakeup1 k _) halive
  | bootAlloc i _ _ hi | forkAlloc _ _ i _ _ _ _ hi =>
      have hfree := state_of_firstUnused hi
      constructor <;> simp only [Kernel.allocproc, Kernel.setPc, Function.update_apply] <;>
        grind [ProcState.status]
  | stay => exact ⟨rfl, rfl, rfl, id, halive, id, fun _ h => h⟩
  | _ =>
      -- a slot has one owner, so that it is another one that changes
      constructor <;> simp only [Kernel.modify, Kernel.setPc, Kernel.setLock, Kernel.setCpu, Kernel.sched,
        Function.update_apply] <;> grind [ProcState.status, Pc.child, Boot.slot]

/-! ## The lock -/

/-- The moves of other CPUs neither give the lock to the CPU `c` nor take it away. -/
theorem lock_of_trans (ha : Trans k a k') (hon : a.isOn c = false) :
    k'.lock = some c ↔ k.lock = some c := by
  cases ha with
  | exitLast c' q t hcpu hsusp hpc hlock ht =>
      simp only [Act.isOn, decide_eq_false_iff_not] at hon
      simp only [Kernel.modify, Kernel.sched]
      grind
  -- the other moves that change the lock
  | acquire | release | resume | resumeSleep | wait | waitReap | leave | sleep | yield | query =>
      simp only [Act.isOn, decide_eq_false_iff_not] at hon
      simp only [Kernel.modify, Kernel.setPc, Kernel.setLock, Kernel.setCpu, Kernel.sched]
      grind
  | _ => exact Iff.rfl

/-- The stores of a call on another CPU need no lock, and do not look at it. -/
theorem advanceStep_setLock_none (hlock : k.lock = some c) (hne : c' ≠ c)
    (h : k.advanceStep c' p = some k') :
    k'.lock = some c ∧ (k.setLock none).advanceStep c' p = some (k'.setLock none) := by
  have hfree : k.lock ≠ none := by rw [hlock]; simp
  have hother : k.lock ≠ some c' := by rw [hlock]; simpa using hne.symm
  cases hpc : k.pc p with
  | user | forkKalloc | forkCopyuvm => simp [advanceStep, hpc] at h
  | forkPublish | exitLast => simp [advanceStep, hpc, hfree] at h
  | waitScan | numScan | maxScan | infoFill => simp [advanceStep, hpc, hother] at h
  | forkSize | forkParent =>
      simp only [advanceStep, hpc, Option.some.injEq] at h
      subst h
      exact ⟨hlock, by simp only [advanceStep, setLock, hpc]; rfl⟩
  | forkFile np fd | exitClose fd =>
      have hpc' : (k.setLock none).pc p = k.pc p := rfl
      by_cases hfd : fd < nofile
      · simp only [advanceStep, hpc, hpc', dif_pos hfd, Option.some.injEq] at h ⊢
        subst h
        exact ⟨hlock, rfl⟩
      · simp only [advanceStep, hpc, hpc', dif_neg hfd, Option.some.injEq] at h ⊢
        subst h
        exact ⟨hlock, rfl⟩

/-- The calls on another CPU that go on while the lock is taken. -/
theorem callStep_setLock_none {m : Move nofile} (hlock : k.lock = some c) (hne : c' ≠ c)
    (h : k.callStep c' p m = some k') :
    k'.lock = some c ∧ (k.setLock none).callStep c' p m = some (k'.setLock none) := by
  have hpc' : (k.setLock none).pc p = k.pc p := rfl
  have hfree : k.lock ≠ none := by rw [hlock]; simp
  cases m with
  | schedule | resume => simp [callStep] at h
  | advance => exact advanceStep_setLock_none hlock hne h
  | fork | wait | sleep | yield | kill | wakeup | getNumProc | getMaxPid | getProcInfo =>
      simp [callStep, hfree] at h
  | exit | resize | setFile =>
      simp only [callStep, hpc'] at h ⊢
      split_ifs at h with hguard
      cases h
      exact ⟨hlock, if_pos hguard⟩
  | kalloc page | copyuvm page =>
      simp only [callStep, hpc'] at h ⊢
      cases hpc : k.pc p <;> simp only [hpc, reduceCtorEq] at h ⊢
      cases page <;> simp only [Bool.false_eq_true, if_true, if_false] at h ⊢ <;> cases h <;>
        exact ⟨hlock, rfl⟩

/-- **A move of another CPU while the lock is taken** leaves the lock, and is possible with a free lock
as well, with the same effect. -/
theorem step_setLock_none (hlock : k.lock = some c) (ha : a.isOn c = false)
    (h : step k a = some k') :
    k'.lock = some c ∧ step (k.setLock none) a = some (k'.setLock none) := by
  have hfree : k.lock ≠ none := by rw [hlock]; simp
  cases a with
  | userinit =>
      cases hboot : k.boot with
      | start | publish => simp [step, userinitStep, hboot, hfree] at h
      | done => simp [step, userinitStep, hboot] at h
      | fill i =>
          simp only [step, userinitStep, hboot, Option.some.injEq] at h
          subst h
          exact ⟨hlock, by simp only [step, userinitStep, setLock, hboot]; rfl⟩
  | on c' m =>
      have hne : c' ≠ c := by simpa [Act.isOn] using ha
      have hother : k.lock ≠ some c' := by rw [hlock]; simpa using hne.symm
      have hcpu' : (k.setLock none).cpu c' = k.cpu c' := rfl
      simp only [step, hcpu'] at h ⊢
      cases hcpu : k.cpu c' with
      | idle => cases m <;> simp [hcpu, hfree, schedulerStep] at h
      | scan j =>
          cases m <;> simp only [hcpu, reduceCtorEq] at h ⊢
          simp only [schedulerStep, hcpu, hcpu', hother, if_false] at h ⊢
          by_cases hj : j < nproc
          · simp only [dif_pos hj] at h ⊢
            split_ifs at h with hs <;> cases h
            · exact ⟨hlock, if_pos hs⟩
            · exact ⟨hlock, if_neg hs⟩
          · simp [dif_neg hj] at h
      | ran p =>
          simp only [hcpu] at h ⊢
          by_cases hsusp : k.susp p = .awake
          · have hsusp' : (k.setLock none).susp p = .awake := hsusp
            rw [if_pos hsusp] at h
            rw [if_pos hsusp']
            exact callStep_setLock_none hlock hne h
          · rw [if_neg hsusp] at h
            cases m <;> simp [resumeStep, hother] at h

end StudiesOS.ProcessTable
