import StudiesOS.ProcessTable.LifeCycle
import StudiesOS.ProcessTable.Parents

/-! # A child is visible until it is reaped
From the moment `fork` returns a pid to the moment when `wait` returns it, or the parent exits, the
child keeps its slot, its pid and its parent. After that the pid is never given out again. -/

namespace StudiesOS.ProcessTable

open Kernel Lineage

variable {nproc nofile ncpu : ℕ} {k k' k₁ : Kernel nproc nofile ncpu} {a : Act nofile ncpu}

/-! ## From fork to wait -/

/-- Who lives or has died is active, and no embryo. -/
theorem state_of_born {i : Fin nproc}
    (h : k.lineage.status i = .alive ∨ k.lineage.status i = .zombie) :
    (k.proc i).state ≠ .unused ∧ (k.proc i).state ≠ .embryo := by
  refine ⟨fun hs => ?_, fun hs => ?_⟩ <;>
    rcases h with h | h <;> cases (congrArg ProcState.status hs).symm.trans h

/-- **`fork` returns**: the child has just become runnable. -/
theorem childOf_of_forkReturns (h : Related k) {p : Fin nproc} {pid : ℤ}
    (hfork : k.forkReturns a = some (p, pid)) (hstep : step k a = some k₁) :
    ∃ np, ChildOf k₁.lineage p np pid ∧ (k₁.proc p).pid = (k.proc p).pid := by
  obtain ⟨q, hq, hreturn⟩ := Option.bind_eq_some_iff.mp hfork
  obtain ⟨c, rfl, hcpu, hsusp⟩ := of_advancing hq
  split at hreturn
  · rename_i np hpc
    cases hreturn
    have hparent : (k.proc np).parent = some p := h.family.raising p np (congrArg Pc.stage hpc)
    rw [step_of_ran hcpu hsusp] at hstep
    simp only [callStep, advanceStep, hpc] at hstep
    split_ifs at hstep with hlock
    have hproc : k₁.proc = Function.update k.proc np { k.proc np with state := .runnable } := by
      cases hstep
      rfl
    have hnp : k₁.proc np = { k.proc np with state := .runnable } := by
      rw [hproc, Function.update_self]
    have hne : p ≠ np := h.control.ran_ne_child hcpu (by rw [hpc]; rfl)
    refine ⟨np, ⟨?_, Or.inl ?_, ?_⟩, ?_⟩
    · show (k₁.proc np).pid = _
      rw [hnp]
    · show (k₁.proc np).state.status = _
      rw [hnp]
      rfl
    · show (k₁.proc np).parent = _
      rw [hnp]
      exact hparent
    · rw [hproc, Function.update_of_ne hne]
  · cases hreturn

/-- **A child stays a child** in every step in which its parent neither exits nor reaps it. -/
theorem childOf_step (h : Related k) {p np : Fin nproc} {pid : ℤ} (hchild : ChildOf k.lineage p np pid)
    (ha : Trans k a k') (hexit : k.exits a ≠ some p) (hwait : k.waitReturns a ≠ some (p, pid)) :
    ChildOf k'.lineage p np pid ∧ (k'.proc p).pid = (k.proc p).pid := by
  have hlive := state_of_alive (h.family.kin np p hchild.parent)
  refine hchild.step h.family (h.step ha).2 (fun hzombie => ?_) (fun hfree => ?_)
  · have hp : (k'.proc p).state = .zombie := by
      cases hs : (k'.proc p).state with
      | zombie => rfl
      | unused | embryo | sleeping | runnable | running =>
          cases (congrArg ProcState.status hs).symm.trans hzombie
    exact hexit ((turn_step h.control ha p).exits_of_zombie hlive.2.2 hp)
  · have hnp : (k'.proc np).state = .unused := by
      cases hs : (k'.proc np).state with
      | unused => rfl
      | zombie | embryo | sleeping | runnable | running =>
          cases (congrArg ProcState.status hs).symm.trans hfree
    obtain ⟨hactive, hembryo⟩ := state_of_born hchild.born
    obtain ⟨q, hq, hreturn⟩ :=
      (turn_step h.control ha np).wait_of_unused hactive hembryo hnp
    have hqp : some q = some p := hq.symm.trans hchild.parent
    have hpid : (k.proc np).pid = pid := hchild.id
    rw [Option.some.inj hqp, hpid] at hreturn
    exact hwait hreturn

/-- The steps in which `p` does not exit, and no `wait` of `p` returns `pid`. -/
def Minds (p : Fin nproc) (pid : ℤ) (k : Kernel nproc nofile ncpu) (a : Act nofile ncpu) : Prop :=
  k.exits a ≠ some p ∧ k.waitReturns a ≠ some (p, pid)

instance (p : Fin nproc) (pid : ℤ) (k : Kernel nproc nofile ncpu) (a : Act nofile ncpu) :
    Decidable (Minds p pid k a) :=
  inferInstanceAs (Decidable (_ ∧ _))

/-- **A run keeps a child**, while its parent neither exits nor reaps it. -/
theorem childOf_run (h : Related k) {p np : Fin nproc} {pid : ℤ} (hchild : ChildOf k.lineage p np pid)
    {bs : List (Act nofile ncpu)} (hminds : EveryStep step (Minds p pid) k bs)
    (hrun : run step k bs = some k') :
    ChildOf k'.lineage p np pid ∧ (k'.proc p).pid = (k.proc p).pid := by
  refine (guarded_invariant (I := fun t : Kernel nproc nofile ncpu => Related t ∧
    ChildOf t.lineage p np pid ∧ (t.proc p).pid = (k.proc p).pid) ⟨h, hchild, rfl⟩ ?_ hminds hrun).2
  rintro t b t' ⟨hrel, ht, hpid⟩ ⟨hexit, hwait⟩ hstep
  have htrans := step_trans hstep
  obtain ⟨ht', hpid'⟩ := childOf_step hrel ht htrans hexit hwait
  exact ⟨(hrel.step htrans).1, ht', hpid'.trans hpid⟩

/-- What the queries say of a child. -/
theorem queries_of_childOf (hnum : Numbered k) {p np : Fin nproc} {pid : ℤ}
    (hchild : ChildOf k.lineage p np pid) (pinfo : ProcessInfo) :
    0 < pid ∧ (k.getProcInfo pid pinfo).1 = 0 ∧
      (k.getProcInfo pid pinfo).2.ppid = (k.proc p).pid ∧ pid ≤ k.getMaxPid := by
  have hactive := (state_of_born hchild.born).1
  obtain rfl : (k.proc np).pid = pid := hchild.id
  have hparent : (k.proc np).parent = some p := hchild.parent
  have hpos : 1 ≤ (k.proc np).pid := (hnum.sound.live_range (r := k.registry) hactive).1
  refine ⟨by omega, (getProcInfo_eq_zero k).mpr ⟨np, hactive, rfl⟩, ?_, pid_le_getMaxPid k hactive⟩
  rw [getProcInfo, findActive_pid hnum.sound hactive]
  show (k.procInfo np).ppid = _
  rw [procInfo, hparent]

/-! ## After wait -/

/-- **`wait` returns**: no active process bears the pid any more. -/
theorem gone_of_waitReturns (hnum : Numbered k) {p : Fin nproc} {pid : ℤ}
    (hwait : k.waitReturns a = some (p, pid)) (hstep : step k a = some k₁) :
    pid < k₁.nextpid ∧ ∀ i, (k₁.proc i).state ≠ .unused → (k₁.proc i).pid ≠ pid := by
  obtain ⟨q, hq, hreturn⟩ := Option.bind_eq_some_iff.mp hwait
  obtain ⟨c, rfl, hcpu, hsusp⟩ := of_advancing hq
  split_ifs at hreturn with hpc
  obtain ⟨i, hfind, heq⟩ := Option.map_eq_some_iff.mp hreturn
  cases heq
  obtain ⟨-, hzombie⟩ : (k.proc i).parent = some p ∧ (k.proc i).state = .zombie := by
    simpa using List.find?_some hfind
  have hactive : (k.proc i).state ≠ .unused := by rw [hzombie]; decide
  rw [step_of_ran hcpu hsusp] at hstep
  simp only [callStep, advanceStep, hpc] at hstep
  split_ifs at hstep with hlock
  rw [waitScan, hfind] at hstep
  have hproc : k₁.proc = Function.update k.proc i
      { k.proc i with pid := 0, parent := none, killed := false, state := .unused } := by
    cases hstep
    rfl
  have hnext : k₁.nextpid = k.nextpid := by
    cases hstep
    rfl
  rw [hnext]
  refine ⟨(hnum.sound.live_range (r := k.registry) hactive).2, fun j hj hpid => ?_⟩
  -- the slot given up was the only one with the pid
  by_cases hji : j = i
  · rw [hproc, hji, Function.update_self] at hj
    exact hj rfl
  · rw [hproc, Function.update_of_ne hji] at hj hpid
    exact hji (hnum.sound.live_inj (r := k.registry) hj hpid)

/-- **A pid that is gone stays gone.** -/
theorem gone_of_run (hnum : Numbered k) {pid : ℤ} (hlt : pid < k.nextpid)
    (hgone : ∀ i, (k.proc i).state ≠ .unused → (k.proc i).pid ≠ pid) {bs : List (Act nofile ncpu)}
    (hrun : run step k bs = some k') (hwrap : k'.allocs < maxAllocs) (pinfo : ProcessInfo) :
    k'.getProcInfo pid pinfo = (-1, pinfo) := by
  have hsince := (hnum.run hrun hwrap).2
  refine getProcInfo_of_ne_zero k' fun hzero => ?_
  obtain ⟨i, hi, rfl⟩ := (getProcInfo_eq_zero k').mp hzero
  obtain ⟨hlive, hid⟩ := hsince.old i hi hlt
  exact hgone i hlive hid

/-! ## The whole life of a child -/

/-- **A child stays visible exactly until it is reaped**, as long as pids do not wrap. -/
theorem child_until_reaped {as bs : List (Act nofile ncpu)} (h : run step .init as = some k)
    (hstep : step k a = some k₁) (hrun : run step k₁ bs = some k') (hwrap : k'.allocs < maxAllocs)
    (p : Fin nproc) (pid : ℤ) (pinfo : ProcessInfo) :
    (k.forkReturns a = some (p, pid) → EveryStep step (Minds p pid) k₁ bs →
      0 < pid ∧ (k'.getProcInfo pid pinfo).1 = 0 ∧
      (k'.getProcInfo pid pinfo).2.ppid = (k.proc p).pid ∧ (k'.proc p).pid = (k.proc p).pid ∧
      pid ≤ k'.getMaxPid) ∧
    (k.waitReturns a = some (p, pid) → k'.getProcInfo pid pinfo = (-1, pinfo)) := by
  have hrel := Related.of_run h
  have htrans := step_trans hstep
  have hle : k₁.allocs ≤ k'.allocs := allocs_le_run (hrel.control.step htrans) hrun
  have hlt : k.allocs < maxAllocs :=
    (allocs_le hrel.control htrans).trans_lt (hle.trans_lt hwrap)
  have hnum := Numbered.of_run h hlt
  have hnum₁ := (hnum.step htrans (hle.trans_lt hwrap)).1
  constructor
  · intro hfork hminds
    obtain ⟨np, hchild, hpid⟩ := childOf_of_forkReturns hrel hfork hstep
    obtain ⟨hchild', hpid'⟩ := childOf_run (hrel.step htrans).1 hchild hminds hrun
    obtain ⟨hpos, hzero, hppid, hmax⟩ :=
      queries_of_childOf (hnum₁.run hrun hwrap).1 hchild' pinfo
    exact ⟨hpos, hzero, hppid.trans (hpid'.trans hpid), hpid'.trans hpid, hmax⟩
  · intro hwait
    obtain ⟨hlt₁, hgone⟩ := gone_of_waitReturns hnum hwait hstep
    exact gone_of_run hnum₁ hlt₁ hgone hrun hwrap pinfo

/-- The first process is about to return from a fork. -/
def raiseRun (c : Fin ncpu) : List (Act nofile ncpu) :=
  bootRun c ++ [.on c .fork, .on c (.kalloc true), .on c (.copyuvm true)] ++
    List.replicate (nofile + 3) (.on c .advance)

/-- The child in slot `1` of `nproc` slots runs on CPU `c`, and exits. -/
def childExitRun (nproc : ℕ) (c : Fin ncpu) : List (Act nofile ncpu) :=
  List.replicate 3 (.on c .schedule) ++ [.on c .resume, .on c .exit] ++
    List.replicate (nofile + 2) (.on c .advance) ++ List.replicate (nproc - 1) (.on c .schedule)

/-- The child is still there as a zombie; it has gone for good when its parent has waited, and its slot
has another process. -/
theorem child_until_reaped_childExitRun :
    (∃ k : Kernel 4 1 2, run step .init (raiseRun 0 ++ [.on 0 .advance] ++ childExitRun 4 1) = some k ∧
      (k.proc 1).state = .zombie ∧ (k.getProcInfo 2 ⟨0, 0, 0, 0, 0⟩).1 = 0) ∧
    ∃ k : Kernel 4 1 2, run step .init (raiseRun 0 ++ [.on 0 .advance] ++ childExitRun 4 1 ++
        [.on 0 .wait] ++ [.on 0 .advance] ++ forkRun 0) = some k ∧
      (k.proc 1).pid = 3 ∧ (k.getProcInfo 2 ⟨0, 0, 0, 0, 0⟩).1 = -1 := by
  constructor
  · have hk : (run step (.init : Kernel 4 1 2) (raiseRun 0)).map
        (fun k => k.forkReturns (.on 0 .advance)) = some (some (0, 2)) := by decide +kernel
    have hk₁ : (run step (.init : Kernel 4 1 2) (raiseRun 0 ++ [.on 0 .advance])).map
        (fun k => decide (EveryStep step (Minds 0 2) k (childExitRun 4 1))) = some true := by
      decide +kernel
    have hk' : (run step (.init : Kernel 4 1 2) (raiseRun 0 ++ [.on 0 .advance] ++
        childExitRun 4 1)).map (fun k => ((k.proc 1).state, k.allocs)) = some (.zombie, 2) := by
      decide +kernel
    obtain ⟨k, hrun, hfork⟩ := Option.map_eq_some_iff.mp hk
    obtain ⟨k₁, hrun₁, hminds⟩ := Option.map_eq_some_iff.mp hk₁
    obtain ⟨k', hrun', heq⟩ := Option.map_eq_some_iff.mp hk'
    obtain ⟨hzombie, hallocs⟩ := Prod.mk.inj heq
    obtain ⟨t, ht, hstep⟩ := run_snoc.mp hrun₁
    obtain rfl : t = k := Option.some.inj (ht.symm.trans hrun)
    obtain ⟨t₁, ht₁, hbs⟩ := run_prefix hrun'
    obtain rfl : t₁ = k₁ := Option.some.inj (ht₁.symm.trans hrun₁)
    have hwrap : k'.allocs < maxAllocs := by rw [hallocs]; decide
    have hvisible := (child_until_reaped hrun hstep hbs hwrap 0 2 ⟨0, 0, 0, 0, 0⟩).1 hfork
      (of_decide_eq_true hminds)
    exact ⟨k', hrun', hzombie, hvisible.2.1⟩
  · have hk : (run step (.init : Kernel 4 1 2) (raiseRun 0 ++ [.on 0 .advance] ++ childExitRun 4 1 ++
        [.on 0 .wait])).map (fun k => k.waitReturns (.on 0 .advance)) = some (some (0, 2)) := by
      decide +kernel
    have hk' : (run step (.init : Kernel 4 1 2) (raiseRun 0 ++ [.on 0 .advance] ++ childExitRun 4 1 ++
        [.on 0 .wait] ++ [.on 0 .advance] ++ forkRun 0)).map
          (fun k => ((k.proc 1).pid, k.allocs)) = some (3, 3) := by decide +kernel
    obtain ⟨k, hrun, hwait⟩ := Option.map_eq_some_iff.mp hk
    obtain ⟨k', hrun', heq⟩ := Option.map_eq_some_iff.mp hk'
    obtain ⟨hpid, hallocs⟩ := Prod.mk.inj heq
    obtain ⟨k₁, hrun₁, hbs⟩ := run_prefix hrun'
    obtain ⟨t, ht, hstep⟩ := run_snoc.mp hrun₁
    obtain rfl : t = k := Option.some.inj (ht.symm.trans hrun)
    have hwrap : k'.allocs < maxAllocs := by rw [hallocs]; decide
    have hgone := (child_until_reaped hrun hstep hbs hwrap 0 2 ⟨0, 0, 0, 0, 0⟩).2 hwait
    exact ⟨k', hrun', hpid, by rw [hgone]⟩

end StudiesOS.ProcessTable
