import StudiesOS.ProcessTable.LifeCycle
import StudiesOS.ProcessTable.Queries
import StudiesOS.Transition.Variant

/-! # Nobody starves
`scheduler` goes round the table, and after a switch goes on behind the slot of the process that gave
up its CPU. So each CPU is on its way to every slot: as long as a slot is runnable, all steps of
`scheduler` on a CPU bring that CPU nearer to it, and there are at most `nproc + 1` of them. -/

namespace StudiesOS.ProcessTable

open Kernel

variable {nproc nofile ncpu : ℕ} {k k' : Kernel nproc nofile ncpu}

/-! ## The way to a slot -/

/-- The steps of `scheduler` from the slot `x` of a round to the slot `j`, of this round or of the next
one. -/
def roundTo (nproc j x : ℕ) : ℕ := if x ≤ j then j - x else nproc - x + 2 + j

/-- **The steps of `scheduler` on CPU `c` before it comes to the slot `j`**, switches aside. -/
def Kernel.wayTo (k : Kernel nproc nofile ncpu) (j : Fin nproc) (c : Fin ncpu) : ℕ :=
  match k.cpu c with
  | .idle => j + 1
  | .scan x => roundTo nproc j x
  | .ran p => roundTo nproc j (p + 1)

/-- The way is not longer than a round. -/
theorem wayTo_le (k : Kernel nproc nofile ncpu) (j : Fin nproc) (c : Fin ncpu) :
    k.wayTo j c ≤ nproc + 1 := by
  have hj := j.isLt
  simp only [Kernel.wayTo, roundTo]
  split
  · omega
  · split <;> omega
  · split <;> omega

/-- The action is a step of `scheduler` on CPU `c`. -/
def Act.schedules (c : Fin ncpu) : Act nofile ncpu → Bool
  | .on c' .schedule => c' = c
  | _ => false

/-- **A step that leaves the slot runnable** brings `scheduler` nearer to it. -/
theorem wayTo_step {a : Act nofile ncpu} {j : Fin nproc} (hj : (k.proc j).state = .runnable)
    (hj' : (k'.proc j).state = .runnable) (c : Fin ncpu) (ha : Trans k a k') :
    k'.wayTo j c + (if Act.schedules c a then 1 else 0) ≤ k.wayTo j c := by
  have hlt := j.isLt
  cases ha with
  | dispatch c' i hcpu hi =>
      -- another slot is switched to
      have hne : i ≠ j := by
        rintro rfl
        rw [setCpu_proc, modify_proc_self] at hj'
        cases hj'
      simp only [Kernel.wayTo, Kernel.setCpu, Kernel.modify, Function.update_apply, Act.schedules]
      grind [roundTo]
  | exitLast c' p t hcpu hsusp hpc hlock ht =>
      have hrest : t.cpu = k.cpu := by rw [ht.rest]
      simp only [Kernel.wayTo, Kernel.sched, Kernel.modify, Function.update_apply, Act.schedules]
      grind
  | _ =>
      simp only [Kernel.wayTo, Kernel.setCpu, Kernel.setLock, Kernel.setPc, Kernel.modify,
        Kernel.sched, Kernel.allocproc, Kernel.wakeup1, Function.update_apply, Act.schedules]
      grind [roundTo]

/-- **While a slot is runnable** a CPU takes at most `nproc + 1` steps of `scheduler`. -/
theorem schedules_le {j : Fin nproc} {bs : List (Act nofile ncpu)} (hrun : run step k bs = some k')
    (hj : EveryStep step (fun t _ => (t.proc j).state = .runnable) k bs)
    (hj' : (k'.proc j).state = .runnable) (c : Fin ncpu) :
    bs.countP (Act.schedules c) ≤ nproc + 1 := by
  -- the step that ends it is paid for, too
  have hcount := guarded_count (I := fun _ => True) (P := Act.schedules c)
    (μ := fun t => if (t.proc j).state = .runnable then t.wayTo j c + 1 else 0) trivial
    (fun t a t' _ ht hstep => ⟨trivial, ?_⟩) hj hrun
  · have hle := hcount.2
    have hbound := wayTo_le k j c
    rw [if_pos hj'] at hle
    split at hle <;> omega
  · rw [if_pos ht]
    by_cases ht' : (t'.proc j).state = .runnable
    · have hway := wayTo_step ht ht' c (step_trans hstep)
      rw [if_pos ht']
      omega
    · rw [if_neg ht']
      split <;> omega

/-- A slot that stops being runnable is switched to. -/
theorem switchesTo_of_runnable {a : Act nofile ncpu} {j : Fin nproc} (h : Turn k a k' j)
    (hj : (k.proc j).state = .runnable) (hj' : (k'.proc j).state ≠ .runnable) :
    k.switchesTo a = some j := by
  cases h with
  | dispatch _ _ _ _ _ hswitch => exact hswitch
  | keep hstate => exact absurd ((hstate.eq (by rw [hj]; decide)).trans hj) hj'
  | taken hs | publish hs | offCpu hs | exits hs => cases hj.symm.trans hs
  | givenUp _ _ hold =>
      rcases hold with hs | ⟨hs, -⟩ <;> cases hj.symm.trans hs

/-- **No runnable process starves.** On every reachable kernel, a process that is runnable is switched to
before any one CPU has taken `nproc + 2` steps of `scheduler`, whatever the processes and the other CPUs
do, and is runnable until then. -/
theorem runnable_switchedTo {as bs : List (Act nofile ncpu)} (h : run step .init as = some k)
    {j : Fin nproc} (hj : (k.proc j).state = .runnable) (hrun : run step k bs = some k')
    {c : Fin ncpu} (hcount : nproc + 2 ≤ bs.countP (Act.schedules c)) :
    ∃ cs a ds t, bs = cs ++ a :: ds ∧ run step k cs = some t ∧ t.switchesTo a = some j ∧
      cs.countP (Act.schedules c) ≤ nproc + 1 ∧
      EveryStep step (fun t _ => (t.proc j).state = .runnable) k cs := by
  obtain ⟨cs, a, ds, t, t', rfl, hcs, hkeep, ht, hstep, ht'⟩ :=
    first_leave (P := fun t => (t.proc j).state = .runnable) hrun hj fun hall => by
      have hle := schedules_le hrun hall.1 hall.2 c
      omega
  have hreach : run step .init (as ++ cs) = some t := by
    rw [run_append, h]
    exact hcs
  have hturn := turn_step (.of_run hreach) (step_trans hstep) j
  exact ⟨cs, a, ds, t, rfl, hcs, switchesTo_of_runnable hturn ht ht', schedules_le hcs hkeep ht c,
    hkeep⟩

/-- CPU `c` switches to the child, which yields, and goes on to the end of the round. -/
def childTurnRun (c : Fin ncpu) : List (Act nofile ncpu) :=
  List.replicate 3 (.on c .schedule) ++ [.on c .resume, .on c .yield] ++
    List.replicate 3 (.on c .schedule)

theorem childTurnRun_switchedTo : ∃ k k' : Kernel 4 1 2,
    run step .init (bootRun 0 ++ forkRun 0) = some k ∧ run step k (childTurnRun 1) = some k' ∧
      ∃ cs a ds t, childTurnRun 1 = cs ++ a :: ds ∧ run step k cs = some t ∧
        t.switchesTo a = some 1 := by
  have heval : (run step (.init : Kernel 4 1 2) (bootRun 0 ++ forkRun 0)).map
      (fun k => ((k.proc 1).state, (run step k (childTurnRun 1)).isSome)) = some (.runnable, true) := by
    decide +kernel
  obtain ⟨k, hk, heq⟩ := Option.map_eq_some_iff.mp heval
  simp only [Prod.mk.injEq] at heq
  obtain ⟨k', hk'⟩ := Option.isSome_iff_exists.mp heq.2
  obtain ⟨cs, a, ds, t, hcut, hcs, hswitch, -⟩ :=
    runnable_switchedTo hk (j := 1) heq.1 hk' (c := 1) (by decide)
  exact ⟨k, k', hk, hk', cs, a, ds, t, hcut, hcs, hswitch⟩

end StudiesOS.ProcessTable
