import StudiesOS.ProcessTable.Queries
import Mathlib.Data.Fintype.Card

/-! # Running is being on a CPU
A process on a CPU is `RUNNING` and on no other one (`Control`). The converse is kept as well: a state
becomes `RUNNING` only where `scheduler` puts the process on its CPU, and the process leaves the CPU
only after it has changed its state. -/

namespace StudiesOS.ProcessTable

open Kernel

variable {nproc nofile ncpu : ℕ} {k k' : Kernel nproc nofile ncpu}

/-- **Who is running is on a CPU.** -/
def OnCpu (k : Kernel nproc nofile ncpu) : Prop :=
  ∀ p, (k.proc p).state = .running → ∃ c, k.cpu c = .ran p

/-- **Every step keeps it.** -/
theorem OnCpu.step {a : Act nofile ncpu} (h : OnCpu k) (ha : Trans k a k') : OnCpu k' := by
  intro q hq
  have hold := h q
  cases ha with
  | dispatch c j hcpu hj =>
      by_cases hqj : q = j
      · rw [hqj]
        exact ⟨c, Function.update_self c _ k.cpu⟩
      · -- the CPU was in `scheduler`, so it is not the one of `q`
        rw [setCpu_proc, modify_proc_of_ne k hqj] at hq
        obtain ⟨c', hc'⟩ := hold hq
        have hne : c' ≠ c := by
          rintro rfl
          rw [hcpu] at hc'
          cases hc'
        exact ⟨c', (Function.update_of_ne hne _ k.cpu).trans hc'⟩
  | exitLast c p t hcpu hsusp hpc hlock ht =>
      have hstate := ht.state q
      have hrest := ht.rest
      simp only [Kernel.modify, Kernel.sched] at hq ⊢
      by_cases hrun : (k.proc q).state = .running
      · obtain ⟨c', hc'⟩ := hold hrun
        exact ⟨c', by grind⟩
      · grind
  | wakeup c address hlock =>
      have hproc := (woken_wakeup1 k (some (.other address))).proc q
      exact hold (by grind)
  | stay | resume => exact hold hq
  | _ =>
      -- nobody begins to run, and a CPU is left in another state
      simp only [Kernel.modify, Kernel.setPc, Kernel.setLock, Kernel.setCpu, Kernel.sched,
        Kernel.allocproc] at hq ⊢
      by_cases hrun : (k.proc q).state = .running
      · obtain ⟨c', hc'⟩ := hold hrun
        exact ⟨c', by grind⟩
      · grind

/-- **It holds of every reachable kernel.** -/
theorem OnCpu.of_run {as : List (Act nofile ncpu)} (h : run ProcessTable.step .init as = some k) :
    OnCpu k := by
  refine run_invariant (fun p hp => ?_) (fun _ _ _ hk hstep => hk.step (step_trans hstep)) h
  cases hp

/-- No more processes are running than there are CPUs. -/
theorem card_running_le (h : OnCpu k) :
    (Finset.univ.filter fun p => (k.proc p).state = .running).card ≤ ncpu := by
  choose c hc using fun p : {p // (k.proc p).state = .running} => h p.1 p.2
  have hinj : Function.Injective c := by
    intro p q heq
    have hsame := (hc p).symm.trans (heq ▸ hc q)
    cases p
    cases q
    cases hsame
    rfl
  have hcard := Fintype.card_le_of_injective c hinj
  rwa [Fintype.card_subtype, Fintype.card_fin] at hcard

/-- While pids have not wrapped `getProcInfo` finds an active process by its pid. -/
theorem findActive_pid (h : k.registry.Sound) {p : Fin nproc} (hp : (k.proc p).state ≠ .unused) :
    k.findActive (k.proc p).pid = some p := by
  cases hfind : k.findActive (k.proc p).pid with
  | none => exact absurd rfl (findActive_eq_none.mp hfind p hp)
  | some q =>
      obtain ⟨hq, hpid⟩ := of_findActive hfind
      rw [h.live_inj (r := k.registry) hq hpid]

/-- **`RUNNING` means on a CPU**, on every reachable kernel, whether the lock is free or not: on exactly
one CPU, so no more processes are running than there are CPUs, and a process that asks for itself is
told that it is running, by its own entry while pids have not wrapped. -/
theorem running_iff_onCpu {as : List (Act nofile ncpu)} (h : run step .init as = some k) :
    (∀ p, (k.proc p).state = .running ↔ ∃! c, k.cpu c = .ran p) ∧
    (∀ c c' p, k.cpu c = .ran p → k.cpu c' = .ran p → c = c') ∧
    (Finset.univ.filter fun p => (k.proc p).state = .running).card ≤ ncpu ∧
    (∀ c p, k.cpu c = .ran p → ∀ pinfo,
      (k.getProcInfo (k.proc p).pid pinfo).1 = 0 ∧ (k.procInfo p).state = ProcState.running.code ∧
      (k.allocs < maxAllocs → k.getProcInfo (k.proc p).pid pinfo = (0, k.procInfo p))) := by
  have hcontrol := Control.of_run h
  have honCpu := OnCpu.of_run h
  refine ⟨fun p => ⟨fun hp => ?_, fun hp => ?_⟩, hcontrol.inj, card_running_le honCpu,
    fun c p hcpu pinfo => ?_⟩
  · obtain ⟨c, hc⟩ := honCpu p hp
    exact ⟨c, hc, fun c' hc' => hcontrol.inj c' c p hc' hc⟩
  · obtain ⟨c, hc, -⟩ := hp
    exact hcontrol.ran c p hc
  · have hrun := hcontrol.ran c p hcpu
    have hactive : (k.proc p).state ≠ .unused := by rw [hrun]; decide
    refine ⟨(getProcInfo_eq_zero k).mpr ⟨p, hactive, rfl⟩, congrArg ProcState.code hrun,
      fun hlt => ?_⟩
    rw [getProcInfo, findActive_pid (Numbered.of_run h hlt).sound hactive]

/-- The first process is on CPU `0`, and its child on CPU `1`. -/
def twoCpuRun (c c' : Fin ncpu) : List (Act nofile ncpu) :=
  bootRun c ++ forkRun c ++ [.on c' .schedule, .on c' .schedule, .on c' .schedule]

theorem running_iff_onCpu_twoCpuRun : ∃ k : Kernel 4 1 2,
    run step .init (twoCpuRun 0 1) = some k ∧ k.cpu 1 = .ran 1 ∧
      ∃! c, k.cpu c = .ran 0 := by
  have hrun : (run step (.init : Kernel 4 1 2) (twoCpuRun 0 1)).map
      (fun k => (k.cpu 1, (k.proc 0).state)) = some (.ran 1, .running) := by decide +kernel
  obtain ⟨k, hk, heq⟩ := Option.map_eq_some_iff.mp hrun
  simp only [Prod.mk.injEq] at heq
  exact ⟨k, hk, heq.1, ((running_iff_onCpu hk).1 0).mp heq.2⟩

end StudiesOS.ProcessTable
