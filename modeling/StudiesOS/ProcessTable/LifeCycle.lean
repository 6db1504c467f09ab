import StudiesOS.ProcessTable.Pids

/-! # The life of a slot
A slot is taken by `allocproc`, becomes runnable, is switched to and gives up the CPU again and again,
becomes a zombie by `exit`, and is given up by `wait` (`Turn`); an embryo is also given up by a fork
that fails. Which process takes which of these turns can be read off the action, and `nrswitch` changes
by the first and by the switches only. -/

namespace StudiesOS.ProcessTable

open Kernel

variable {nproc nofile ncpu : ℕ} {k k' : Kernel nproc nofile ncpu} {a : Act nofile ncpu}

/-! ## Who does what -/

/-- The process that takes the next step of its call. -/
def Kernel.advancing (k : Kernel nproc nofile ncpu) : Act nofile ncpu → Option (Fin nproc)
  | .on c .advance =>
      match k.cpu c with
      | .ran p => if k.susp p = .awake then some p else none
      | .idle | .scan _ => none
  | _ => none

/-- The process to which `fork` returns in this step, and the pid that it returns. -/
def Kernel.forkReturns (k : Kernel nproc nofile ncpu) (a : Act nofile ncpu) :
    Option (Fin nproc × ℤ) :=
  (k.advancing a).bind fun p =>
    match k.pc p with
    | .forkPublish np => some (p, (k.proc np).pid)
    | _ => none

/-- The process to which `wait` returns in this step, and the pid that it returns. -/
def Kernel.waitReturns (k : Kernel nproc nofile ncpu) (a : Act nofile ncpu) :
    Option (Fin nproc × ℤ) :=
  (k.advancing a).bind fun p =>
    if k.pc p = .waitScan then
      ((List.finRange nproc).find? fun i =>
        (k.proc i).parent = some p ∧ (k.proc i).state = .zombie).map fun i => (p, (k.proc i).pid)
    else none

/-- The process that becomes a zombie in this step. -/
def Kernel.exits (k : Kernel nproc nofile ncpu) (a : Act nofile ncpu) : Option (Fin nproc) :=
  (k.advancing a).bind fun p => if k.pc p = .exitLast then some p else none

/-- The process to which `scheduler` switches in this step. -/
def Kernel.switchesTo (k : Kernel nproc nofile ncpu) : Act nofile ncpu → Option (Fin nproc)
  | .on c .schedule =>
      match k.cpu c with
      | .scan j =>
          if h : j < nproc then
            if (k.proc ⟨j, h⟩).state = .runnable then some ⟨j, h⟩ else none
          else none
      | .idle | .ran _ => none
  | _ => none

/-- The slot that `allocproc` gives out in this step. -/
def Kernel.allocates (k : Kernel nproc nofile ncpu) : Act nofile ncpu → Option (Fin nproc)
  | .userinit => if k.boot = .start then k.firstUnused else none
  | .on _ .fork => k.firstUnused
  | _ => none

/-- The process on a CPU takes the next step of its call. -/
theorem advancing_of_ran {c : Fin ncpu} {p : Fin nproc} (hcpu : k.cpu c = .ran p)
    (hsusp : k.susp p = .awake) : k.advancing (.on c .advance) = some p := by
  simp only [advancing, hcpu]
  rw [if_pos hsusp]

/-- Who advances is on a CPU and awake. -/
theorem of_advancing {p : Fin nproc} (h : k.advancing a = some p) :
    ∃ c, a = .on c .advance ∧ k.cpu c = .ran p ∧ k.susp p = .awake := by
  unfold advancing at h
  split at h
  · rename_i c
    split at h
    · rename_i q hcpu
      split_ifs at h with hsusp
      cases h
      exact ⟨c, rfl, hcpu, hsusp⟩
    · cases h
    · cases h
  · cases h

/-! ## The turns -/

/-- The slot `i` is neither given out nor switched to, and its count stays. -/
structure Uncounted (k : Kernel nproc nofile ncpu) (a : Act nofile ncpu)
    (k' : Kernel nproc nofile ncpu) (i : Fin nproc) : Prop where
  /-- `nrswitch` is the same. -/
  count : (k'.proc i).nrswitch = (k.proc i).nrswitch
  /-- `allocproc` does not give it out. -/
  allocates : k.allocates a ≠ some i
  /-- No `scheduler` switches to it. -/
  switchesTo : k.switchesTo a ≠ some i

/-- **What a step does to the slot `i`.** -/
inductive Turn (k : Kernel nproc nofile ncpu) (a : Act nofile ncpu) (k' : Kernel nproc nofile ncpu)
    (i : Fin nproc) : Prop
  /-- It is left alone, or wakes up. -/
  | keep (hstate : SameOrWoken (k.proc i).state (k'.proc i).state)
      (hpid : (k'.proc i).pid = (k.proc i).pid) (h : Uncounted k a k' i)
  /-- `allocproc` takes it. -/
  | taken (hfree : (k.proc i).state = .unused) (hembryo : (k'.proc i).state = .embryo)
      (hpid : (k'.proc i).pid = k.nextpid) (hcount : (k'.proc i).nrswitch = 0)
      (halloc : k.allocates a = some i)
  /-- It becomes runnable for the first time. -/
  | publish (hembryo : (k.proc i).state = .embryo) (hrunnable : (k'.proc i).state = .runnable)
      (hpid : (k'.proc i).pid = (k.proc i).pid) (h : Uncounted k a k' i)
  /-- `scheduler` switches to it. -/
  | dispatch (hrunnable : (k.proc i).state = .runnable) (hrunning : (k'.proc i).state = .running)
      (hpid : (k'.proc i).pid = (k.proc i).pid)
      (hcount : (k'.proc i).nrswitch = wrap 32 ((k.proc i).nrswitch + 1))
      (halloc : k.allocates a ≠ some i) (hswitch : k.switchesTo a = some i)
  /-- It gives up the CPU, in `yield` or in `sleep`. -/
  | offCpu (hrunning : (k.proc i).state = .running)
      (hoff : (k'.proc i).state = .runnable ∨ (k'.proc i).state = .sleeping)
      (hpid : (k'.proc i).pid = (k.proc i).pid) (h : Uncounted k a k' i)
  /-- It exits. -/
  | exits (hrunning : (k.proc i).state = .running) (hzombie : (k'.proc i).state = .zombie)
      (hpid : (k'.proc i).pid = (k.proc i).pid) (h : Uncounted k a k' i)
      (hexits : k.exits a = some i)
  /-- It is given up: by a fork that fails, or by the `wait` of its parent. -/
  | givenUp (hfree : (k'.proc i).state = .unused) (h : Uncounted k a k' i)
      (hold : (k.proc i).state = .embryo ∨ (k.proc i).state = .zombie ∧
        ∃ p, (k.proc i).parent = some p ∧ k.waitReturns a = some (p, (k.proc i).pid))

/-- An action that gives out nothing and switches to nobody. -/
theorem Uncounted.of_none {i : Fin nproc} (halloc : k.allocates a = none)
    (hswitch : k.switchesTo a = none) (hcount : (k'.proc i).nrswitch = (k.proc i).nrswitch) :
    Uncounted k a k' i := by
  refine ⟨hcount, ?_, ?_⟩
  · rw [halloc]
    exact (Option.some_ne_none i).symm
  · rw [hswitch]
    exact (Option.some_ne_none i).symm

/-- An action about one slot leaves the others alone. -/
theorem turn_of_ne {i j : Fin nproc} (halloc : ∀ i, k.allocates a = some i → i = j)
    (hswitch : ∀ i, k.switchesTo a = some i → i = j) (hij : i ≠ j)
    (hproc : k'.proc i = k.proc i) : Turn k a k' i := by
  refine .keep (Or.inl (by rw [hproc])) (by rw [hproc])
    ⟨by rw [hproc], fun h => hij (halloc i h), fun h => hij (hswitch i h)⟩

section quiet

variable (halloc : k.allocates a = none) (hswitch : k.switchesTo a = none)
include halloc hswitch

/-- A slot that does not change. -/
theorem turn_of_eq {i : Fin nproc} (hproc : k'.proc i = k.proc i) : Turn k a k' i :=
  .keep (Or.inl (by rw [hproc])) (by rw [hproc]) (.of_none halloc hswitch (by rw [hproc]))

/-- One slot changes. -/
theorem turn_of_update {i j : Fin nproc} {q : Proc nproc nofile}
    (hproc : k'.proc = Function.update k.proc j q) (hself : k'.proc j = q → Turn k a k' j) :
    Turn k a k' i := by
  by_cases hij : i = j
  · rw [hij]
    exact hself (by rw [hproc, Function.update_self])
  · exact turn_of_eq halloc hswitch (by rw [hproc, Function.update_of_ne hij])

/-- One slot changes, which keeps its state, its pid and its count. -/
theorem turn_of_update_same {i j : Fin nproc} {q : Proc nproc nofile}
    (hproc : k'.proc = Function.update k.proc j q) (hstate : q.state = (k.proc j).state)
    (hpid : q.pid = (k.proc j).pid) (hcount : q.nrswitch = (k.proc j).nrswitch) :
    Turn k a k' i := by
  refine turn_of_update halloc hswitch hproc fun hself => ?_
  refine .keep (Or.inl ?_) ?_ (.of_none halloc hswitch ?_) <;> rw [hself]
  · exact hstate
  · exact hpid
  · exact hcount

/-- Children are passed on, and sleepers wake up. -/
theorem turn_of_abandoned {t : Kernel nproc nofile ncpu} {p i : Fin nproc} (ht : Abandoned p k t)
    (hproc : k'.proc i = t.proc i) : Turn k a k' i := by
  refine .keep ?_ ?_ (.of_none halloc hswitch ?_) <;> rw [hproc]
  · exact ht.state i
  · rw [ht.proc i]
  · rw [ht.proc i]

end quiet

/-- `allocproc` takes a slot. -/
theorem turn_of_allocproc {i j : Fin nproc} (hj : k.firstUnused = some j)
    (halloc : k.allocates a = some j) (hswitch : k.switchesTo a = none)
    (hproc : k'.proc = (k.allocproc j).proc) : Turn k a k' i := by
  by_cases hij : i = j
  · have hself : k'.proc i
        = { k.proc i with state := .embryo, pid := k.nextpid, nrswitch := 0 } := by
      rw [hproc, allocproc_proc, if_pos hij]
    subst hij
    refine .taken (state_of_firstUnused hj) ?_ ?_ ?_ halloc <;> rw [hself]
  · refine turn_of_ne (j := j) (fun i h => Option.some.inj (h.symm.trans halloc)) ?_ hij ?_
    · rw [hswitch]
      intro i h
      cases h
    · rw [hproc, allocproc_proc, if_neg hij]

/-- **Every step gives every slot one of these turns.** -/
theorem turn_step (hc : Control k) (ha : Trans k a k') (i : Fin nproc) : Turn k a k' i := by
  cases ha with
  | bootAlloc j hboot hlock hj => exact turn_of_allocproc hj ((if_pos hboot).trans hj) rfl rfl
  | forkAlloc c p np hcpu hsusp hpc hlock hnp => exact turn_of_allocproc hnp hnp rfl rfl
  | bootFill j hboot =>
      have halloc : k.allocates .userinit = none := if_neg (by rw [hboot]; simp)
      exact turn_of_update_same halloc rfl rfl rfl rfl rfl
  | bootPublish j hboot =>
      have halloc : k.allocates .userinit = none := if_neg (by rw [hboot]; simp)
      refine turn_of_update halloc rfl rfl fun hself => ?_
      have hembryo := (hc.boot j (by rw [hboot]; rfl)).1
      refine .publish hembryo ?_ ?_ (.of_none halloc rfl ?_) <;> rw [hself]
  | dispatch c j hcpu hj =>
      have hswitch : k.switchesTo (.on c .schedule) = some j := by
        simp only [switchesTo, hcpu]
        rw [dif_pos j.isLt, if_pos hj]
      -- the slot chosen is switched to, and the others are not touched
      by_cases hij : i = j
      · subst hij
        refine .dispatch hj ?_ ?_ ?_ (Option.some_ne_none i).symm hswitch <;>
          rw [setCpu_proc, modify_proc_self]
      · refine turn_of_ne (j := j) (fun i h => ?_)
          (fun i h => Option.some.inj (h.symm.trans hswitch)) hij ?_
        · cases h
        · rw [setCpu_proc, modify_proc_of_ne k hij]
  | acquire c hcpu =>
      have hswitch : k.switchesTo (.on c .schedule) = none := by simp only [switchesTo, hcpu]
      exact turn_of_eq rfl hswitch rfl
  | skip c j hcpu hj =>
      have hswitch : k.switchesTo (.on c .schedule) = none := by
        simp only [switchesTo, hcpu]
        rw [dif_pos j.isLt, if_neg hj]
      exact turn_of_eq rfl hswitch rfl
  | release c j hcpu hj =>
      have hswitch : k.switchesTo (.on c .schedule) = none := by
        simp only [switchesTo, hcpu]
        rw [dif_neg (Nat.not_lt.mpr hj)]
      exact turn_of_eq rfl hswitch rfl
  | stay c p m hcpu hsusp hlock hm =>
      rcases hm with ⟨rfl, hnone⟩ | ⟨pid, rfl, -⟩ | ⟨pid, rfl, -⟩
      · have halloc : k.allocates (.on c .fork) = none := hnone
        exact turn_of_eq halloc rfl rfl
      · exact turn_of_eq rfl rfl rfl
      · exact turn_of_eq rfl rfl rfl
  | forkNext c p np m pc' hcpu hsusp hpc =>
      rcases hpc with ⟨-, rfl, -⟩ | ⟨-, rfl, -⟩ <;> exact turn_of_eq rfl rfl rfl
  | forkFail c p np m hcpu hsusp hpc =>
      have hembryo := hc.child p np (child_of_failing hpc)
      have halloc : k.allocates (.on c m) = none := by
        rcases hpc with ⟨-, rfl⟩ | ⟨-, rfl⟩ <;> rfl
      have hswitch : k.switchesTo (.on c m) = none := by
        rcases hpc with ⟨-, rfl⟩ | ⟨-, rfl⟩ <;> rfl
      refine turn_of_update halloc hswitch rfl fun hself => ?_
      exact .givenUp (by rw [hself]) (.of_none halloc hswitch (by rw [hself])) (Or.inl hembryo)
  | forkPublish c p np hcpu hsusp hpc =>
      have hembryo := hc.child p np (by rw [hpc]; rfl)
      refine turn_of_update rfl rfl rfl fun hself => ?_
      refine .publish hembryo ?_ ?_ (.of_none rfl rfl ?_) <;> rw [hself]
  | exitLast c p t hcpu hsusp hpc hlock ht =>
      have hexits : k.exits (.on c .advance) = some p := by
        rw [exits, advancing_of_ran hcpu hsusp, Option.bind_some, if_pos hpc]
      -- of the other slots only the parent changes, and the sleep
      by_cases hip : i = p
      · subst hip
        have hcount : (t.proc i).nrswitch = (k.proc i).nrswitch := by rw [ht.proc i]
        have hpid : (t.proc i).pid = (k.proc i).pid := by rw [ht.proc i]
        refine .exits (hc.ran c i hcpu) ?_ ?_ (.of_none rfl rfl ?_) hexits <;>
          rw [sched_proc, modify_proc_self]
        · exact hpid
        · exact hcount
      · exact turn_of_abandoned rfl rfl ht (by rw [sched_proc, modify_proc_of_ne t hip])
  | waitReap c p j hcpu hsusp hpc hlock hparent hj hfind =>
      have hwait : k.waitReturns (.on c .advance) = some (p, (k.proc j).pid) := by
        rw [waitReturns, advancing_of_ran hcpu hsusp, Option.bind_some, if_pos hpc, hfind,
          Option.map_some]
      refine turn_of_update rfl rfl rfl fun hself => ?_
      exact .givenUp (by rw [hself]) (.of_none rfl rfl (by rw [hself]))
        (Or.inr ⟨hj, p, hparent, hwait⟩)
  | sleep c p m chan hcpu hsusp hlock =>
      have halloc : k.allocates (.on c m) = none := by
        rcases hlock with ⟨rfl, -⟩ | ⟨-, address, rfl, -⟩ <;> rfl
      have hswitch : k.switchesTo (.on c m) = none := by
        rcases hlock with ⟨rfl, -⟩ | ⟨-, address, rfl, -⟩ <;> rfl
      refine turn_of_update halloc hswitch rfl fun hself => ?_
      refine .offCpu (hc.ran c p hcpu) (Or.inr ?_) ?_ (.of_none halloc hswitch ?_) <;> rw [hself]
  | yield c p hcpu =>
      refine turn_of_update rfl rfl rfl fun hself => ?_
      refine .offCpu (hc.ran c p hcpu) (Or.inl ?_) ?_ (.of_none rfl rfl ?_) <;> rw [hself]
  | kill c p j =>
      refine turn_of_update rfl rfl rfl fun hself => ?_
      refine .keep ?_ ?_ (.of_none rfl rfl ?_) <;> rw [hself]
      exact sameOrWoken_kill (k.proc j).state
  | wakeup c address =>
      exact turn_of_abandoned rfl rfl (p := i) (.of_woken (woken_wakeup1 k _)) rfl
  | query c p m pc' hcpu hsusp hpc hlock hm =>
      rcases hm with ⟨rfl, -⟩ | ⟨rfl, -⟩ | ⟨pid, j, rfl, -, -⟩ <;> exact turn_of_eq rfl rfl rfl
  | resumeSleep | forkSize | forkParent | forkFile | exitClose | resize | setFile =>
      exact turn_of_update_same rfl rfl rfl rfl rfl rfl
  | resume | forkFiles | exit | exitClosed | wait | leave | queryNext => exact turn_of_eq rfl rfl rfl

/-- Who becomes a zombie exits. -/
theorem Turn.exits_of_zombie {i : Fin nproc} (h : Turn k a k' i)
    (hi : (k.proc i).state ≠ .zombie) (hi' : (k'.proc i).state = .zombie) : k.exits a = some i := by
  cases h with
  | exits _ _ _ _ hexits => exact hexits
  | keep hstate =>
      rcases hstate with heq | ⟨-, heq⟩
      · exact absurd (heq ▸ hi') hi
      · cases heq.symm.trans hi'
  | taken _ hs | publish _ hs | dispatch _ hs | givenUp hs => cases hs.symm.trans hi'
  | offCpu _ hoff =>
      rcases hoff with hs | hs <;> cases hs.symm.trans hi'

/-- Who is given up, and was no embryo, is returned by the `wait` of its parent. -/
theorem Turn.wait_of_unused {i : Fin nproc} (h : Turn k a k' i) (hi : (k.proc i).state ≠ .unused)
    (hembryo : (k.proc i).state ≠ .embryo) (hi' : (k'.proc i).state = .unused) :
    ∃ p, (k.proc i).parent = some p ∧ k.waitReturns a = some (p, (k.proc i).pid) := by
  cases h with
  | givenUp _ _ hold => exact (hold.resolve_left hembryo).2
  | keep hstate => exact absurd hi' (hstate.active.mpr hi)
  | taken _ hs | publish _ hs | dispatch _ hs | exits _ hs => cases hs.symm.trans hi'
  | offCpu _ hoff =>
      rcases hoff with hs | hs <;> cases hs.symm.trans hi'

end StudiesOS.ProcessTable
