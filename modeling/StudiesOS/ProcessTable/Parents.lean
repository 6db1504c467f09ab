import StudiesOS.ProcessTable.Running
import StudiesOS.Transition.Lineage

/-! # Parents
A slot's parent is a pointer to another slot, which may be given up and reused. It is set by `fork`
without the lock, handed on to the first process when the parent exits, and cleared by `wait`. Seen so
the table is a lineage: `fork` takes a place, enters the parent and brings the child to life, `exit`
leaves the children to the first process, and `wait` gives up the place. -/

namespace StudiesOS.ProcessTable

open Kernel Lineage

variable {nproc nofile ncpu : ℕ} {k k' : Kernel nproc nofile ncpu} {a : Act nofile ncpu}

/-! ## The table as a lineage -/

/-- What a state says of a slot. -/
def ProcState.status : ProcState → Status
  | .unused => .free
  | .embryo => .embryo
  | .sleeping | .runnable | .running => .alive
  | .zombie => .zombie

/-- What a process is about. -/
def Pc.stage : Pc nproc → Stage (Fin nproc)
  | .forkKalloc np | .forkCopyuvm np | .forkSize np | .forkParent np => .bearing np
  | .forkFile np _ | .forkPublish np => .raising np
  | .exitClose _ | .exitLast => .leaving
  | .user | .waitScan | .numScan _ _ | .maxScan _ _ | .infoFill _ => .idle

/-- The first process. -/
def Boot.root (initproc : Option (Fin nproc)) : Boot nproc → Root (Fin nproc)
  | .start => .none
  | .fill i | .publish i => .coming i
  | .done =>
      match initproc with
      | none => .none
      | some i => .here i

/-- **The table as a lineage.** -/
def Kernel.lineage (k : Kernel nproc nofile ncpu) : Lineage (Fin nproc) where
  next := k.nextpid
  id i := (k.proc i).pid
  status i := (k.proc i).state.status
  parent i := (k.proc i).parent
  stage p := (k.pc p).stage
  root := k.boot.root k.initproc

@[simp] theorem lineage_setLock (holder : Option (Fin ncpu)) :
    (k.setLock holder).lineage = k.lineage := rfl

@[simp] theorem lineage_setCpu (c : Fin ncpu) (point : Cpu nproc) :
    (k.setCpu c point).lineage = k.lineage := rfl

@[simp] theorem lineage_sched (c : Fin ncpu) (p : Fin nproc) (w : Susp) :
    (k.sched c p w).lineage = k.lineage := rfl

/-- A process goes on. -/
theorem lineage_setPc (p : Fin nproc) (pc' : Pc nproc) : (k.setPc p pc').lineage
    = { k.lineage with stage := Function.update k.lineage.stage p pc'.stage } := by
  refine Lineage.ext rfl rfl rfl rfl (funext fun q => ?_) rfl
  show ((k.setPc p pc').pc q).stage = Function.update k.lineage.stage p pc'.stage q
  by_cases hqp : q = p
  · rw [hqp, Function.update_self, setPc_pc_self]
  · rw [Function.update_of_ne hqp, setPc_pc_of_ne k hqp]
    rfl

/-- A process goes on, about the same. -/
theorem lineage_setPc_same {p : Fin nproc} {pc : Pc nproc} (pc' : Pc nproc) (hpc : k.pc p = pc)
    (h : pc'.stage = pc.stage) : (k.setPc p pc').lineage = k.lineage := by
  have hstage : pc'.stage = k.lineage.stage p := h.trans (congrArg Pc.stage hpc.symm)
  rw [lineage_setPc, hstage, Function.update_eq_self]

/-- A slot changes. -/
theorem lineage_modify (i : Fin nproc) (f : Proc nproc nofile → Proc nproc nofile) :
    (k.modify i f).lineage = { k.lineage with
      id := Function.update k.lineage.id i (f (k.proc i)).pid
      status := Function.update k.lineage.status i (f (k.proc i)).state.status
      parent := Function.update k.lineage.parent i (f (k.proc i)).parent } := by
  have hproc : ∀ {β : Type} (g : Proc nproc nofile → β) (j : Fin nproc),
      g ((k.modify i f).proc j) = Function.update (fun j => g (k.proc j)) i (g (f (k.proc i))) j := by
    intro β g j
    by_cases hj : j = i
    · rw [hj, Function.update_self, modify_proc_self]
    · rw [Function.update_of_ne hj, modify_proc_of_ne k hj]
  exact Lineage.ext rfl (funext (hproc Proc.pid)) (funext (hproc fun q => q.state.status))
    (funext (hproc Proc.parent)) rfl rfl

/-- A slot changes that keeps its pid and its parent. -/
theorem lineage_modify_status (i : Fin nproc) {f : Proc nproc nofile → Proc nproc nofile}
    (hpid : (f (k.proc i)).pid = (k.proc i).pid)
    (hparent : (f (k.proc i)).parent = (k.proc i).parent) : (k.modify i f).lineage
      = { k.lineage with
        status := Function.update k.lineage.status i (f (k.proc i)).state.status } := by
  rw [lineage_modify, hpid, hparent]
  show { k.lineage with
    id := Function.update k.lineage.id i (k.lineage.id i)
    status := Function.update k.lineage.status i (f (k.proc i)).state.status
    parent := Function.update k.lineage.parent i (k.lineage.parent i) } = _
  rw [Function.update_eq_self, Function.update_eq_self]

/-- A slot changes that keeps its pid, its status and its parent. -/
theorem lineage_modify_same (i : Fin nproc) {f : Proc nproc nofile → Proc nproc nofile}
    (hpid : (f (k.proc i)).pid = (k.proc i).pid)
    (hstatus : (f (k.proc i)).state.status = (k.proc i).state.status)
    (hparent : (f (k.proc i)).parent = (k.proc i).parent) : (k.modify i f).lineage = k.lineage := by
  rw [lineage_modify_status i hpid hparent, hstatus]
  show { k.lineage with status := Function.update k.lineage.status i (k.lineage.status i) } = _
  rw [Function.update_eq_self]

/-- A slot is taken. -/
theorem lineage_allocproc (i : Fin nproc) : (k.allocproc i).lineage = { k.lineage with
      next := wrap 32 (k.nextpid + 1)
      id := Function.update k.lineage.id i k.nextpid
      status := Function.update k.lineage.status i .embryo
      stage := Function.update k.lineage.stage i .idle } := by
  let f : Proc nproc nofile → Proc nproc nofile := fun q =>
    { q with state := .embryo, pid := k.nextpid, nrswitch := 0 }
  have hparent : (f (k.proc i)).parent = k.lineage.parent i := rfl
  show { ((k.modify i f).setPc i .user).lineage with next := wrap 32 (k.nextpid + 1) } = _
  rw [lineage_setPc, lineage_modify, hparent, Function.update_eq_self]
  rfl

/-! ## The loop of `exit` -/

/-- The slot that a round goes over is no child of `p` any more. -/
theorem parent_abandon_self (p j : Fin nproc) (hinit : k.initproc ≠ some p) :
    ((abandon p k j).proc j).parent ≠ some p := by
  unfold abandon
  split_ifs with hp hzombie
  · have hparent : ((k.modify j fun q => { q with parent := k.initproc }).proc j).parent
        = k.initproc := by rw [modify_proc_self]
    have hwoken := (Abandoned.of_woken (p := p) (woken_wakeup1
      (k.modify j fun q => { q with parent := k.initproc }) (k.initproc.map .proc))).parent j
    rcases hwoken with heq | ⟨hold, -⟩
    · rwa [heq, hparent]
    · rw [hparent] at hold
      exact absurd hold hinit
  · rwa [modify_proc_self]
  · exact hp

/-- **The loop leaves no child of `p` behind.** -/
theorem parent_foldl_abandon {p i : Fin nproc} {l : List (Fin nproc)} (hmem : i ∈ l)
    (hinit : k.initproc ≠ some p) : ((l.foldl (abandon p) k).proc i).parent ≠ some p := by
  induction l generalizing k with
  | nil => cases hmem
  | cons j l ih =>
      rw [List.foldl_cons]
      have hround := abandoned_abandon k p j
      have hinit' : (abandon p k j).initproc ≠ some p := by rwa [hround.rest]
      rcases List.mem_cons.mp hmem with rfl | hmem
      · have hself := parent_abandon_self p i hinit
        rcases (abandoned_foldl (abandon p k i) p l).parent i with heq | ⟨hold, -⟩
        · rwa [heq]
        · exact absurd hold hself
      · exact ih hmem hinit'

/-- Waking does not change what has become of a slot. -/
theorem SameOrWoken.status {s s' : ProcState} (h : SameOrWoken s s') : s'.status = s.status := by
  rcases h with rfl | ⟨rfl, rfl⟩ <;> rfl

/-- **The children are left to the first process.** -/
theorem lineage_abandoned {p : Fin nproc} (ht : Abandoned p k k')
    (hleft : ∀ i, (k'.proc i).parent ≠ some p) : k'.lineage = { k.lineage with
      parent := fun i => if k.lineage.parent i = some p then k.initproc else k.lineage.parent i } := by
  have hnext : k'.nextpid = k.nextpid := by rw [ht.rest]
  have hpc : k'.pc = k.pc := by rw [ht.rest]
  have hroot : k'.boot.root k'.initproc = k.boot.root k.initproc := by rw [ht.rest]
  refine Lineage.ext hnext (funext fun i => ?_) (funext fun i => SameOrWoken.status (ht.state i))
    (funext fun i => ?_) (funext fun q => congrArg Pc.stage (congrFun hpc q)) hroot
  · show (k'.proc i).pid = (k.proc i).pid
    rw [ht.proc i]
  · show (k'.proc i).parent = if (k.proc i).parent = some p then k.initproc else (k.proc i).parent
    rcases ht.parent i with heq | ⟨hold, heq⟩
    · rw [if_neg (heq ▸ hleft i), heq]
    · rw [if_pos hold, heq]

/-! ## Every step is a step of the lineage -/

/-- `userinit` stores `initproc` before the first process becomes runnable. -/
def InitStored (k : Kernel nproc nofile ncpu) : Prop :=
  ∀ i, k.boot = .publish i → k.initproc = some i

/-- Every step keeps it. -/
theorem InitStored.step (h : InitStored k) (ha : Trans k a k') : InitStored k' := by
  intro i hi
  cases ha with
  | bootAlloc | bootPublish => cases hi
  | bootFill j => cases hi; rfl
  | exitLast c p t hcpu hsusp hpc hlock ht =>
      have hboot : t.boot = .publish i := hi
      rw [ht.rest] at hboot
      show t.initproc = some i
      rw [ht.rest]
      exact h i hboot
  | _ => exact h i hi

/-- A process on a CPU lives. -/
theorem status_of_ran (hc : Control k) {c : Fin ncpu} {p : Fin nproc} (hcpu : k.cpu c = .ran p) :
    k.lineage.status p = .alive :=
  congrArg ProcState.status (hc.ran c p hcpu)

/-- Where a process lives the first one is here. -/
theorem root_of_ran (hc : Control k) (hf : Family k.lineage) {c : Fin ncpu} {p : Fin nproc}
    (hcpu : k.cpu c = .ran p) : ∃ i, k.lineage.root = .here i ∧ k.initproc = some i := by
  have halive := status_of_ran hc hcpu
  rcases hf.alone p (by rw [halive]; decide) with hroot | ⟨i, hroot⟩
  · rw [(hf.coming p hroot).1] at halive
    cases halive
  · refine ⟨i, hroot, ?_⟩
    have hroot : k.boot.root k.initproc = .here i := hroot
    cases hboot : k.boot with
    | start | fill | publish =>
        rw [hboot] at hroot
        cases hroot
    | done =>
        cases hinit : k.initproc with
        | none =>
            rw [hboot, hinit] at hroot
            cases hroot
        | some j =>
            rw [hboot, hinit] at hroot
            cases hroot
            rfl

/-- **Every step of the kernel is one of its lineage.** -/
theorem lineage_step (hc : Control k) (hi : InitStored k) (hf : Family k.lineage)
    (ha : Trans k a k') : Lineage.Step k.lineage k'.lineage := by
  have hsame : ∀ {t : Kernel nproc nofile ncpu}, t.lineage = k.lineage →
      Lineage.Step k.lineage t.lineage := fun heq => heq ▸ .stutter
  cases ha with
  | stay | acquire | skip | release | resume => exact .stutter
  | bootAlloc i hboot hlock hi =>
      have hfree : k.lineage.status i = .free := congrArg ProcState.status (state_of_firstUnused hi)
      have hroot : k.lineage.root = .none := congrArg (Boot.root k.initproc) hboot
      have heq : ({ k.allocproc i with boot := .fill i } : Kernel nproc nofile ncpu).lineage
          = { (k.allocproc i).lineage with root := .coming i } := rfl
      rw [heq, lineage_allocproc]
      exact .found i _ hroot hfree
  | bootFill i hboot =>
      refine hsame ?_
      have heq : ({ k.modify i (fun p => { p with sz := pgsize }) with
          initproc := some i
          boot := .publish i } : Kernel nproc nofile ncpu).lineage
          = { (k.modify i fun p => { p with sz := pgsize }).lineage with root := .coming i } := rfl
      have hroot : k.lineage.root = .coming i := congrArg (Boot.root k.initproc) hboot
      rw [heq, lineage_modify_same i rfl rfl rfl, ← hroot]
  | bootPublish i hboot hlock =>
      have hroot : k.lineage.root = .coming i := congrArg (Boot.root k.initproc) hboot
      have heq : ({ k.modify i (fun p => { p with state := .runnable }) with
          boot := .done } : Kernel nproc nofile ncpu).lineage
          = { (k.modify i fun p => { p with state := .runnable }).lineage with
            root := Boot.root k.initproc .done } := rfl
      rw [heq, lineage_modify_status i rfl rfl, hi i hboot]
      exact .settle i hroot
  | dispatch c j hcpu hj =>
      rw [lineage_setCpu]
      exact hsame (lineage_modify_same j rfl (by rw [hj]; rfl) rfl)
  | resumeSleep c p =>
      exact hsame (lineage_modify_same (k := k) p (f := fun q => { q with chan := none }) rfl rfl rfl)
  | forkAlloc c p np hcpu hsusp hpc hlock hnp =>
      have hfree : k.lineage.status np = .free :=
        congrArg ProcState.status (state_of_firstUnused hnp)
      rw [lineage_setPc, lineage_allocproc]
      exact .take p np _ (status_of_ran hc hcpu) (congrArg Pc.stage hpc) hfree
  | forkNext c p np m pc' hcpu hsusp hpc =>
      rcases hpc with ⟨hpc, -, rfl⟩ | ⟨hpc, -, rfl⟩ <;> exact hsame (lineage_setPc_same _ hpc rfl)
  | forkFail c p np m hcpu hsusp hpc =>
      have hstage : k.lineage.stage p = .bearing np := by
        rcases hpc with ⟨hpc, -⟩ | ⟨hpc, -⟩ <;> exact congrArg Pc.stage hpc
      rw [lineage_setPc, lineage_modify_status np rfl rfl]
      exact .fail p np hstage
  | forkSize c p np hcpu hsusp hpc =>
      rw [lineage_setPc_same (k := k.modify _ _) (.forkParent np) hpc rfl]
      exact hsame (lineage_modify_same np rfl rfl rfl)
  | forkParent c p np hcpu hsusp hpc =>
      have hstage : k.lineage.stage p = .bearing np := congrArg Pc.stage hpc
      have hid : Function.update k.lineage.id np (k.proc np).pid = k.lineage.id :=
        Function.update_eq_self np k.lineage.id
      have hstatus : Function.update k.lineage.status np (k.proc np).state.status
          = k.lineage.status := Function.update_eq_self np k.lineage.status
      rw [lineage_setPc, lineage_modify, hid, hstatus]
      exact .attach p np hstage
  | forkFile c p np fd hcpu hsusp hpc =>
      rw [lineage_setPc_same (k := k.modify _ _) (.forkFile np (fd + 1)) hpc rfl]
      exact hsame (lineage_modify_same np rfl rfl rfl)
  | forkFiles c p np fd hcpu hsusp hpc =>
      exact hsame (lineage_setPc_same _ hpc rfl)
  | forkPublish c p np hcpu hsusp hpc hlock =>
      have hstage : k.lineage.stage p = .raising np := congrArg Pc.stage hpc
      rw [lineage_setPc, lineage_modify_status np rfl rfl]
      exact .publish p np hstage
  | exit c p hcpu hsusp hpc hinit =>
      obtain ⟨i, hroot, hi⟩ := root_of_ran hc hf hcpu
      rw [lineage_setPc]
      refine .leave p (status_of_ran hc hcpu) (congrArg Pc.stage hpc) ?_
      rw [hroot]
      intro heq
      cases heq
      exact hinit hi
  | exitClose c p fd hcpu hsusp hpc =>
      rw [lineage_setPc_same (k := k.modify _ _) (.exitClose (fd + 1)) hpc rfl]
      exact hsame (lineage_modify_same p rfl rfl rfl)
  | exitClosed c p fd hcpu hsusp hpc =>
      exact hsame (lineage_setPc_same _ hpc rfl)
  | exitLast c p t hcpu hsusp hpc hlock ht hloop =>
      obtain ⟨i, hroot, hi⟩ := root_of_ran hc hf hcpu
      have hstage : k.lineage.stage p = .leaving := congrArg Pc.stage hpc
      -- the first process does not exit, so the loop reaches every child
      have hinit : k.initproc ≠ some p := by
        rw [hi]
        intro heq
        cases heq
        exact (hf.here p hroot).2 hstage
      have hleft : ∀ j, (t.proc j).parent ≠ some p := by
        intro j
        rw [hloop]
        exact parent_foldl_abandon (List.mem_finRange j) hinit
      have hplace : k.initproc = k.lineage.root.place := by rw [hroot, hi]; rfl
      rw [lineage_sched, lineage_modify_status p rfl rfl, lineage_abandoned ht hleft, hplace]
      exact .exit p (status_of_ran hc hcpu) hstage
  | wait c p hcpu hsusp hpc =>
      exact hsame (lineage_setPc_same _ hpc rfl)
  | waitReap c p i hcpu hsusp hpc hlock hparent hi =>
      have hstage : Function.update k.lineage.stage p .idle = k.lineage.stage := by
        rw [← show k.lineage.stage p = .idle from congrArg Pc.stage hpc, Function.update_eq_self]
      rw [lineage_setLock, lineage_setPc, lineage_modify]
      show Lineage.Step k.lineage { k.lineage with
        id := Function.update k.lineage.id i 0
        status := Function.update k.lineage.status i .free
        parent := Function.update k.lineage.parent i none
        stage := Function.update k.lineage.stage p .idle }
      rw [hstage]
      exact .reap p i hparent (congrArg ProcState.status hi)
  | leave c p hcpu hsusp hpc =>
      rw [lineage_setLock]
      rcases hpc with hpc | ⟨j, n, hpc⟩ | ⟨j, n, hpc⟩ | ⟨i, hpc⟩ <;>
        exact hsame (lineage_setPc_same _ hpc rfl)
  | sleep c p m chan hcpu =>
      rw [lineage_sched]
      exact hsame (lineage_modify_same p rfl (by rw [hc.ran c p hcpu]; rfl) rfl)
  | yield c p hcpu =>
      rw [lineage_sched]
      exact hsame (lineage_modify_same p rfl (by rw [hc.ran c p hcpu]; rfl) rfl)
  | kill c p i =>
      refine hsame (lineage_modify_same i rfl ?_ rfl)
      show (if _ then _ else _ : ProcState).status = _
      split
      · rename_i hs
        rw [hs]
        rfl
      · rfl
  | wakeup c address =>
      have hwoken := woken_wakeup1 k (some (.other address))
      refine hsame (Lineage.ext rfl (funext fun i => ?_) (funext fun i => ?_) (funext fun i => ?_)
        rfl rfl)
      · show (Kernel.proc _ i).pid = (k.proc i).pid
        rcases hwoken.proc i with heq | ⟨-, heq⟩ <;> rw [heq]
      · exact (sameOrWoken_of_woken hwoken i).status
      · show (Kernel.proc _ i).parent = (k.proc i).parent
        rcases hwoken.proc i with heq | ⟨-, heq⟩ <;> rw [heq]
  | resize c p | setFile c p => exact hsame (lineage_modify_same p rfl rfl rfl)
  | query c p m pc' hcpu hsusp hpc hlock hm =>
      rcases hm with ⟨-, rfl⟩ | ⟨-, rfl⟩ | ⟨pid, i, -, -, rfl⟩ <;>
        exact hsame (lineage_setPc_same _ hpc rfl)
  | queryNext c p j pc' hcpu hsusp hlock hpc =>
      rcases hpc with ⟨n, hpc, rfl⟩ | ⟨n, hpc, rfl⟩ <;> exact hsame (lineage_setPc_same _ hpc rfl)

/-! ## Reachable kernels -/

/-- **What is known of the parents** in a reachable kernel. -/
structure Related (k : Kernel nproc nofile ncpu) : Prop where
  /-- Who owns a slot. -/
  control : Control k
  /-- `initproc` is stored in time. -/
  stored : InitStored k
  /-- Parents live. -/
  family : Family k.lineage

/-- Every step keeps it, and is one of the lineage. -/
theorem Related.step (h : Related k) (ha : Trans k a k') :
    Related k' ∧ Lineage.Step k.lineage k'.lineage := by
  have hstep := lineage_step h.control h.stored h.family ha
  exact ⟨⟨h.control.step ha, h.stored.step ha, h.family.step hstep⟩, hstep⟩

/-- At the start. -/
theorem Related.start : Related (.init : Kernel nproc nofile ncpu) where
  control := .start
  stored i hi := by cases hi
  family := by
    constructor <;> intros <;> simp_all [Kernel.lineage, Kernel.init, Proc.zero, ProcState.status,
      Pc.stage, Stage.child, Boot.root, Root.place]

/-- **It holds of every reachable kernel.** -/
theorem Related.of_run {as : List (Act nofile ncpu)} (h : run ProcessTable.step .init as = some k) :
    Related k :=
  run_invariant .start (fun _ _ _ hk hstep => (hk.step (step_trans hstep)).1) h

/-- Pids are in range. -/
theorem Numbered.inRange (h : Numbered k) : InRange k.lineage := by
  refine ⟨fun i => (h.sound.range i).2, fun i hi => (h.sound.live_range (r := k.registry) ?_).1⟩
  intro hfree
  exact hi (congrArg ProcState.status hfree)

/-- **Parents are older than their children**, while pids have not wrapped. -/
theorem elders_of_run {as : List (Act nofile ncpu)} (h : run ProcessTable.step .init as = some k)
    (hlt : k.allocs < maxAllocs) : Elders k.lineage := by
  refine (bounded_invariant (J := Related) (I := fun k => Numbered k ∧ Elders k.lineage)
    (μ := Kernel.allocs) .start ⟨.start, ?_⟩ (fun t a t' hrel hstep => ?_)
    (fun t a t' hrel ih hstep hlt' => ?_) h hlt).2
  · constructor <;> intros <;> simp_all [Kernel.lineage, Kernel.init, Proc.zero, Pc.stage,
      Stage.child, Boot.root, Root.place]
  · exact ⟨(hrel.step (step_trans hstep)).1, allocs_le hrel.control (step_trans hstep)⟩
  · have htrans := step_trans hstep
    exact ⟨(ih.1.step htrans hlt').1,
      ih.2.step hrel.family ih.1.inRange (hrel.step htrans).2⟩

/-! ## The chain of parents -/

/-- What `getProcInfo` reports as the parent of `pid`. -/
def Kernel.ppid (k : Kernel nproc nofile ncpu) (pid : ℤ) : ℤ :=
  (k.getProcInfo pid ⟨0, 0, 0, 0, 0⟩).2.ppid

/-- A process lives, or has died, when it is neither free nor an embryo. -/
theorem born_of_state {i : Fin nproc} (hi : (k.proc i).state ≠ .unused)
    (hembryo : (k.proc i).state ≠ .embryo) :
    k.lineage.status i = .alive ∨ k.lineage.status i = .zombie := by
  show (k.proc i).state.status = _ ∨ (k.proc i).state.status = _
  cases hs : (k.proc i).state with
  | unused => exact absurd hs hi
  | embryo => exact absurd hs hembryo
  | sleeping | runnable | running => exact Or.inl rfl
  | zombie => exact Or.inr rfl

/-- Who lives is active, and no zombie. -/
theorem state_of_alive {i : Fin nproc} (h : k.lineage.status i = .alive) :
    (k.proc i).state ≠ .unused ∧ (k.proc i).state ≠ .embryo ∧ (k.proc i).state ≠ .zombie := by
  refine ⟨fun hs => ?_, fun hs => ?_, fun hs => ?_⟩ <;>
    exact absurd (h.symm.trans (congrArg ProcState.status hs)) (by decide)

/-- The first process of a kernel in which somebody has been born. -/
theorem Related.root_of_born (h : Related k) {i : Fin nproc}
    (hi : k.lineage.status i = .alive ∨ k.lineage.status i = .zombie) :
    ∃ r, k.lineage.root = .here r ∧ k.initproc = some r := by
  have hactive : k.lineage.status i ≠ .free := by rcases hi with hi | hi <;> rw [hi] <;> decide
  rcases h.family.alone i hactive with hroot | ⟨r, hroot⟩
  · have hembryo := (h.family.coming i hroot).1
    rcases hi with hi | hi <;> rw [hi] at hembryo <;> cases hembryo
  · refine ⟨r, hroot, ?_⟩
    have hroot : k.boot.root k.initproc = .here r := hroot
    cases hboot : k.boot <;> cases hinit : k.initproc <;> rw [hboot, hinit] at hroot <;> cases hroot
    rfl

/-- **A parent** is active, no zombie, and older than its child. -/
theorem parent_of_born (h : Related k) (helders : Elders k.lineage) {i : Fin nproc}
    (hi : k.lineage.status i = .alive ∨ k.lineage.status i = .zombie)
    (hinit : k.initproc ≠ some i) : ∃ q, (k.proc i).parent = some q ∧
      k.lineage.status q = .alive ∧ (k.procInfo i).ppid = (k.proc q).pid ∧
      (k.proc q).pid < (k.proc i).pid := by
  obtain ⟨r, hroot, hr⟩ := h.root_of_born hi
  have hparent := h.family.adopted i hi (by rw [hroot]; intro heq; cases heq; exact hinit hr)
  obtain ⟨q, hq⟩ := Option.ne_none_iff_exists'.mp hparent
  have hq : (k.proc i).parent = some q := hq
  exact ⟨q, hq, h.family.kin i q hq, by rw [procInfo, hq], helders.elder i q hq⟩

/-- What `getProcInfo` reports as the parent of an active process. -/
theorem ppid_pid (h : k.registry.Sound) {i : Fin nproc} (hi : (k.proc i).state ≠ .unused) :
    k.ppid (k.proc i).pid = (k.procInfo i).ppid := by
  rw [ppid, getProcInfo, findActive_pid h hi]

/-- **Following the parents** of a process that has been born ends at the first one. -/
theorem chain_of_born (h : Related k) (hnum : Numbered k) (helders : Elders k.lineage)
    {i : Fin nproc} (hi : k.lineage.status i = .alive ∨ k.lineage.status i = .zombie) :
    ∃ n r, (∀ m ≤ n, (k.getProcInfo (k.ppid^[m] (k.proc i).pid) ⟨0, 0, 0, 0, 0⟩).1 = 0) ∧
      k.initproc = some r ∧ k.ppid^[n] (k.proc i).pid = (k.proc r).pid ∧ (k.proc r).pid = 1 ∧
      k.ppid (k.proc r).pid = 0 := by
  -- by induction on the pid, which goes down to the parent
  obtain ⟨b, hb⟩ : ∃ b : ℕ, (k.proc i).pid ≤ b := ⟨_, Int.self_le_toNat _⟩
  induction b using Nat.strong_induction_on generalizing i with
  | _ b ih =>
      have hactive : (k.proc i).state ≠ .unused := by
        intro hs
        have hfree : k.lineage.status i = .free := congrArg ProcState.status hs
        rw [hfree] at hi
        rcases hi with hi | hi <;> cases hi
      have hfound : (k.getProcInfo (k.proc i).pid ⟨0, 0, 0, 0, 0⟩).1 = 0 :=
        (getProcInfo_eq_zero k).mpr ⟨i, hactive, rfl⟩
      by_cases hinit : k.initproc = some i
      · obtain ⟨r, hroot, hr⟩ := h.root_of_born hi
        obtain rfl : r = i := Option.some.inj (hr.symm.trans hinit)
        have hplace : k.lineage.root.place = some r := by rw [hroot]; rfl
        have hparent : (k.proc r).parent = none := h.family.orphan r hplace
        refine ⟨0, r, fun m hm => ?_, hr, rfl, helders.first r hplace, ?_⟩
        · rw [Nat.le_zero.mp hm]
          exact hfound
        · rw [ppid_pid hnum.sound hactive, procInfo, hparent]
      · obtain ⟨q, hq, halive, hppid, hlt⟩ := parent_of_born h helders hi hinit
        have hpos : 1 ≤ (k.proc q).pid :=
          (hnum.sound.live_range (r := k.registry) (state_of_alive halive).1).1
        obtain ⟨n, r, hall, hr, hend, hone, hzero⟩ := ih (b - 1) (by omega) (Or.inl halive) (by omega)
        have hstep : k.ppid (k.proc i).pid = (k.proc q).pid :=
          (ppid_pid hnum.sound hactive).trans hppid
        refine ⟨n + 1, r, fun m hm => ?_, hr, ?_, hone, hzero⟩
        · cases m with
          | zero => exact hfound
          | succ m =>
              rw [Function.iterate_succ_apply, hstep]
              exact hall m (by omega)
        · rw [Function.iterate_succ_apply, hstep, hend]

/-- **The chain of parents is valid** in every reachable kernel whose pids have not wrapped. -/
theorem parent_chain {as : List (Act nofile ncpu)} (h : run step .init as = some k)
    (hlt : k.allocs < maxAllocs) :
    (∀ i, (k.proc i).state = .unused → (k.proc i).parent = none) ∧
    (∀ i, (k.proc i).state ≠ .unused → (k.proc i).state ≠ .embryo → k.initproc ≠ some i →
      ∃ q, (k.proc i).parent = some q ∧ (k.proc q).state ≠ .unused ∧ (k.proc q).state ≠ .zombie ∧
        (k.procInfo i).ppid = (k.proc q).pid ∧ (k.procInfo i).ppid < (k.proc i).pid) ∧
    ∀ i, (k.proc i).state ≠ .unused → (k.proc i).state ≠ .embryo →
      ∃ n r, (∀ m ≤ n, (k.getProcInfo (k.ppid^[m] (k.proc i).pid) ⟨0, 0, 0, 0, 0⟩).1 = 0) ∧
        k.initproc = some r ∧ k.ppid^[n] (k.proc i).pid = (k.proc r).pid ∧ (k.proc r).pid = 1 ∧
        k.ppid (k.proc r).pid = 0 := by
  have hrel := Related.of_run h
  have hnum := Numbered.of_run h hlt
  have helders := elders_of_run h hlt
  refine ⟨fun i hi => hrel.family.free i (congrArg ProcState.status hi),
    fun i hi hembryo hinit => ?_,
    fun i hi hembryo => chain_of_born hrel hnum helders (born_of_state hi hembryo)⟩
  obtain ⟨q, hq, halive, hppid, helder⟩ :=
    parent_of_born hrel helders (born_of_state hi hembryo) hinit
  obtain ⟨hactive, -, hzombie⟩ := state_of_alive halive
  exact ⟨q, hq, hactive, hzombie, hppid, hppid ▸ helder⟩

/-- The first process has a child and a grandchild, and the child exits. -/
def orphanRun (c c' : Fin ncpu) : List (Act nofile ncpu) :=
  twoCpuRun c c' ++ [.on c' .resume] ++ forkRun c' ++ [.on c' .exit] ++
    List.replicate (nofile + 2) (.on c' .advance)

/-- The grandchild has been handed on to the first process. -/
theorem parent_chain_orphanRun : ∃ k : Kernel 4 1 2, run step .init (orphanRun 0 1) = some k ∧
    (k.proc 1).state = .zombie ∧ (k.proc 2).parent = some 0 ∧
      ∃ n, k.ppid^[n] (k.proc 2).pid = 1 := by
  have hrun : (run step (.init : Kernel 4 1 2) (orphanRun 0 1)).map
      (fun k => (((k.proc 1).state, (k.proc 2).state), (k.proc 2).parent, k.allocs))
        = some ((.zombie, .runnable), some 0, 3) := by decide +kernel
  obtain ⟨k, hk, heq⟩ := Option.map_eq_some_iff.mp hrun
  simp only [Prod.mk.injEq] at heq
  obtain ⟨⟨hzombie, hrunnable⟩, hparent, hallocs⟩ := heq
  have hlt : k.allocs < maxAllocs := by rw [hallocs]; decide
  obtain ⟨n, r, -, -, hend, hone, -⟩ :=
    (parent_chain hk hlt).2.2 2 (by rw [hrunnable]; decide) (by rw [hrunnable]; decide)
  exact ⟨k, hk, hzombie, hparent, n, hend.trans hone⟩

end StudiesOS.ProcessTable
