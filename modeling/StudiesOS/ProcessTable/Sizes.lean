import StudiesOS.ProcessTable.LifeCycle

/-! # Steps do not read a size
The kernel branches on no size: with another size in a slot every step is enabled as before, and does
the same. Only the process in the slot reads its size, for its child, and only `fork`, `userinit` and
the process itself store it. -/

namespace StudiesOS.ProcessTable

variable {nproc nofile ncpu : ℕ}

/-- The slot whose size `fork` is about to store. -/
def Pc.sizes : Pc nproc → Option (Fin nproc)
  | .forkSize np => some np
  | _ => none

/-- It is there in its code. -/
theorem Pc.eq_of_sizes {pc : Pc nproc} {i : Fin nproc} (h : pc.sizes = some i) :
    pc = .forkSize i := by
  cases pc with
  | forkSize np => rw [Option.some.inj h]
  | _ => cases h

namespace Kernel

/-- **Another size** in the slot `i`. -/
def withSz (k : Kernel nproc nofile ncpu) (i : Fin nproc) (sz : ℕ) : Kernel nproc nofile ncpu :=
  k.modify i fun p => { p with sz := sz }

variable (k : Kernel nproc nofile ncpu) (i : Fin nproc) (z : ℕ)

/-! ## Everything else is as it was -/

/-- A slot with the other size. -/
theorem withSz_proc (j : Fin nproc) :
    (k.withSz i z).proc j = { k.proc j with sz := if j = i then z else (k.proc j).sz } := by
  rw [withSz, modify_proc]
  split <;> rfl

@[simp] theorem withSz_state (j : Fin nproc) :
    ((k.withSz i z).proc j).state = (k.proc j).state := by rw [withSz_proc]

@[simp] theorem withSz_pid (j : Fin nproc) : ((k.withSz i z).proc j).pid = (k.proc j).pid := by
  rw [withSz_proc]

@[simp] theorem withSz_parent (j : Fin nproc) :
    ((k.withSz i z).proc j).parent = (k.proc j).parent := by rw [withSz_proc]

@[simp] theorem withSz_killed (j : Fin nproc) :
    ((k.withSz i z).proc j).killed = (k.proc j).killed := by rw [withSz_proc]

@[simp] theorem withSz_ofile (j : Fin nproc) :
    ((k.withSz i z).proc j).ofile = (k.proc j).ofile := by rw [withSz_proc]

/-- The size of another slot. -/
theorem withSz_sz_of_ne {j : Fin nproc} (h : j ≠ i) : ((k.withSz i z).proc j).sz = (k.proc j).sz := by
  rw [withSz_proc]
  exact if_neg h

@[simp] theorem withSz_cpu : (k.withSz i z).cpu = k.cpu := rfl

@[simp] theorem withSz_pc : (k.withSz i z).pc = k.pc := rfl

@[simp] theorem withSz_susp : (k.withSz i z).susp = k.susp := rfl

@[simp] theorem withSz_lock : (k.withSz i z).lock = k.lock := rfl

@[simp] theorem withSz_boot : (k.withSz i z).boot = k.boot := rfl

@[simp] theorem withSz_initproc : (k.withSz i z).initproc = k.initproc := rfl

@[simp] theorem withSz_firstUnused : (k.withSz i z).firstUnused = k.firstUnused := by
  simp [firstUnused]

@[simp] theorem withSz_findPid (pid : ℤ) : (k.withSz i z).findPid pid = k.findPid pid := by
  simp [findPid]

@[simp] theorem withSz_findActive (pid : ℤ) :
    (k.withSz i z).findActive pid = k.findActive pid := by
  simp [findActive]

@[simp] theorem withSz_countActive (count : ℤ) (j : Fin nproc) :
    (k.withSz i z).countActive count j = k.countActive count j := by
  simp [countActive]

@[simp] theorem withSz_maxActive (maxpid : ℤ) (j : Fin nproc) :
    (k.withSz i z).maxActive maxpid j = k.maxActive maxpid j := by
  simp [maxActive]

/-- The size that is there. -/
theorem withSz_self : k.withSz i (k.proc i).sz = k := by
  unfold withSz modify
  rw [Function.update_eq_self]

/-! ## The parts of the steps -/

theorem withSz_sched (c : Fin ncpu) (p : Fin nproc) (w : Susp) :
    (k.withSz i z).sched c p w = (k.sched c p w).withSz i z := rfl

/-- A change of another slot. -/
theorem withSz_modify_of_ne {j : Fin nproc} (hj : j ≠ i)
    (f : Proc nproc nofile → Proc nproc nofile) :
    (k.withSz i z).modify j f = (k.modify j f).withSz i z := by
  unfold withSz modify
  simp only [Function.update_of_ne hj, Function.update_of_ne (Ne.symm hj)]
  rw [Function.update_comm (Ne.symm hj)]

/-- A change of a slot that keeps its size. -/
theorem withSz_modify (j : Fin nproc) {f : Proc nproc nofile → Proc nproc nofile}
    (hf : ∀ q : Proc nproc nofile, f { q with sz := z } = { f q with sz := z }) :
    (k.withSz i z).modify j f = (k.modify j f).withSz i z := by
  by_cases hj : j = i
  · subst hj
    unfold withSz modify
    simp only [Function.update_self, Function.update_idem, hf]
  · exact withSz_modify_of_ne k i z hj f

/-- A change of the slot that stores its size. -/
theorem withSz_modify_self {f g : Proc nproc nofile → Proc nproc nofile}
    (hf : f { k.proc i with sz := z } = g (k.proc i)) :
    (k.withSz i z).modify i f = k.modify i g := by
  unfold withSz modify
  simp only [Function.update_self, Function.update_idem, hf]

theorem withSz_allocproc (j : Fin nproc) :
    (k.withSz i z).allocproc j = (k.allocproc j).withSz i z := by
  have hmodify := withSz_modify k i z j (f := fun q =>
    { q with state := .embryo, pid := k.nextpid, nrswitch := 0 }) fun _ => rfl
  exact congrArg (fun t : Kernel nproc nofile ncpu => { k.allocproc j with proc := t.proc }) hmodify

/-- A change of the whole table that keeps the sizes. -/
theorem withSz_map (f : Proc nproc nofile → Proc nproc nofile)
    (hf : ∀ q : Proc nproc nofile, f { q with sz := z } = { f q with sz := z }) :
    ({ k.withSz i z with proc := fun j => f ((k.withSz i z).proc j) } : Kernel nproc nofile ncpu)
      = withSz { k with proc := fun j => f (k.proc j) } i z := by
  refine congrArg (fun proc => { k with proc := proc }) (funext fun j => ?_)
  by_cases hj : j = i
  · subst hj
    rw [Function.update_self]
    exact (congrArg f (modify_proc_self k j _)).trans (hf (k.proc j))
  · rw [Function.update_of_ne hj]
    exact congrArg f (modify_proc_of_ne k hj _)

theorem withSz_wakeup1 (chan : Option (Chan nproc)) :
    (k.withSz i z).wakeup1 chan = (k.wakeup1 chan).withSz i z := by
  refine withSz_map k i z (fun q =>
    if q.state = .sleeping ∧ q.chan = chan then { q with state := .runnable } else q) fun q => ?_
  show (if _ then _ else _ : Proc nproc nofile) = _
  split_ifs <;> rfl

theorem withSz_abandon (p j : Fin nproc) :
    abandon p (k.withSz i z) j = (abandon p k j).withSz i z := by
  have hpass := withSz_modify k i z j (f := fun q => { q with parent := k.initproc }) fun _ => rfl
  unfold abandon
  rw [withSz_parent, withSz_state, withSz_initproc, hpass]
  split_ifs
  · exact withSz_wakeup1 _ i z _
  · rfl
  · rfl

theorem withSz_foldl_abandon (p : Fin nproc) (l : List (Fin nproc)) :
    l.foldl (abandon p) (k.withSz i z) = (l.foldl (abandon p) k).withSz i z := by
  induction l generalizing k with
  | nil => rfl
  | cons j l ih => rw [List.foldl_cons, withSz_abandon, ih, List.foldl_cons]

theorem withSz_exitLast (c : Fin ncpu) (p : Fin nproc) :
    (k.withSz i z).exitLast c p = (k.exitLast c p).withSz i z := by
  unfold exitLast
  simp only [withSz_parent, withSz_wakeup1, withSz_foldl_abandon]
  exact congrArg (fun t : Kernel nproc nofile ncpu => t.sched c p .exited)
    (withSz_modify _ i z p fun _ => rfl)

theorem withSz_waitScan (c : Fin ncpu) (p : Fin nproc) :
    (k.withSz i z).waitScan c p = (k.waitScan c p).withSz i z := by
  unfold waitScan
  simp only [withSz_parent, withSz_state, withSz_killed]
  split
  · exact congrArg (fun t : Kernel nproc nofile ncpu => (t.setPc p .user).setLock none)
      (withSz_modify k i z _ fun _ => rfl)
  · split_ifs
    · rfl
    · have hsleep := withSz_modify k i z p (f := fun q =>
        { q with chan := some (.proc p), state := .sleeping }) fun _ => rfl
      rw [hsleep, withSz_sched]

theorem withSz_kill (pid : ℤ) : ((k.withSz i z).kill pid).1 = (k.kill pid).1.withSz i z := by
  unfold Kernel.kill
  rw [withSz_findPid]
  cases k.findPid pid with
  | none => rfl
  | some j =>
      have hkill := withSz_modify k i z j (f := fun q => { q with
        killed := true
        state := if q.state = .sleeping then .runnable else q.state }) fun _ => rfl
      exact hkill

/-! ## The steps -/

/-- The slot whose size `fork` or `userinit` stores in this step. -/
def sizes (k : Kernel nproc nofile ncpu) (a : Act nofile ncpu) : Option (Fin nproc) :=
  match a with
  | .userinit =>
      match k.boot with
      | .fill i => some i
      | .start | .publish _ | .done => none
  | .on _ _ => (k.advancing a).bind fun p => (k.pc p).sizes

variable {k i z}

theorem userinitStep_withSz (hsizes : k.boot ≠ .fill i) :
    (k.withSz i z).userinitStep = k.userinitStep.map fun k' => k'.withSz i z := by
  unfold userinitStep
  rw [withSz_boot]
  cases hboot : k.boot with
  | start =>
      simp only [withSz_lock, withSz_firstUnused, withSz_allocproc, apply_ite (Option.map _),
        Option.map_map]
      rfl
  | fill j =>
      have hj : j ≠ i := fun heq => hsizes (heq ▸ hboot)
      have hfill : (k.withSz i z).modify j (fun p => { p with sz := pgsize })
          = (k.modify j fun p => { p with sz := pgsize }).withSz i z :=
        withSz_modify_of_ne k i z hj _
      simp only [hfill]
      rfl
  | publish j =>
      have hpublish := withSz_modify k i z j (f := fun p => { p with state := .runnable }) fun _ => rfl
      simp only [withSz_lock, hpublish, apply_ite (Option.map _)]
      rfl
  | done => rfl

theorem schedulerStep_withSz (c : Fin ncpu) :
    (k.withSz i z).schedulerStep c = (k.schedulerStep c).map fun k' => k'.withSz i z := by
  unfold schedulerStep
  rw [withSz_cpu]
  cases k.cpu c with
  | idle =>
      simp only [withSz_lock, apply_ite (Option.map _)]
      rfl
  | scan j =>
      have hdispatch := fun j => withSz_modify k i z j (f := fun p =>
        { p with state := .running, nrswitch := wrap 32 (p.nrswitch + 1) }) fun _ => rfl
      simp only [withSz_lock, withSz_state, hdispatch, apply_ite (Option.map _),
        apply_dite (Option.map _)]
      rfl
  | ran p => rfl

theorem resumeStep_withSz (c : Fin ncpu) (p : Fin nproc) :
    (k.withSz i z).resumeStep c p = (k.resumeStep c p).map fun k' => k'.withSz i z := by
  have hawake := withSz_modify k i z p (f := fun q => { q with chan := none }) fun _ => rfl
  unfold resumeStep
  rw [withSz_lock, withSz_susp, withSz_pc, hawake]
  by_cases hlock : k.lock = some c
  · rw [if_pos hlock, if_pos hlock]
    cases k.susp p <;> rfl
  · rw [if_neg hlock, if_neg hlock]
    rfl

theorem advanceStep_withSz {c : Fin ncpu} {p : Fin nproc} (hp : p ≠ i)
    (hsizes : k.pc p ≠ .forkSize i) :
    (k.withSz i z).advanceStep c p = (k.advanceStep c p).map fun k' => k'.withSz i z := by
  unfold advanceStep
  rw [withSz_pc]
  cases hpc : k.pc p with
  | user | forkKalloc | forkCopyuvm => rfl
  | forkSize np =>
      have hnp : np ≠ i := fun heq => hsizes (heq ▸ hpc)
      simp only [withSz_sz_of_ne k i z hp, withSz_modify_of_ne k i z hnp]
      rfl
  | forkParent np =>
      have hstore := withSz_modify k i z np (f := fun q => { q with parent := some p }) fun _ => rfl
      simp only [hstore]
      rfl
  | forkFile np fd =>
      have hcopy := fun file : Option ℕ => fun hfd => withSz_modify k i z np (f := fun q =>
        { q with ofile := if file ≠ none then Function.update q.ofile ⟨fd, hfd⟩ file else q.ofile })
          fun _ => rfl
      simp only [withSz_ofile, hcopy, apply_dite (Option.map _)]
      rfl
  | forkPublish np =>
      have hpublish := withSz_modify k i z np (f := fun q => { q with state := .runnable }) fun _ => rfl
      simp only [withSz_lock, hpublish, apply_ite (Option.map _)]
      rfl
  | exitClose fd =>
      have hclose := fun hfd => withSz_modify k i z p (f := fun q =>
        { q with ofile := Function.update q.ofile ⟨fd, hfd⟩ none }) fun _ => rfl
      simp only [hclose, apply_dite (Option.map _)]
      rfl
  | exitLast =>
      simp only [withSz_lock, withSz_exitLast, apply_ite (Option.map _)]
      rfl
  | waitScan =>
      simp only [withSz_lock, withSz_waitScan, apply_ite (Option.map _)]
      rfl
  | numScan j count =>
      simp only [withSz_lock, withSz_countActive, apply_ite (Option.map _), apply_dite (Option.map _)]
      rfl
  | maxScan j maxpid =>
      simp only [withSz_lock, withSz_maxActive, apply_ite (Option.map _), apply_dite (Option.map _)]
      rfl
  | infoFill j =>
      simp only [withSz_lock, apply_ite (Option.map _)]
      rfl

theorem callStep_withSz {c : Fin ncpu} {p : Fin nproc} {m : Move nofile} (hp : p ≠ i)
    (hsizes : m = .advance → k.pc p ≠ .forkSize i) :
    (k.withSz i z).callStep c p m = (k.callStep c p m).map fun k' => k'.withSz i z := by
  have hother := fun f => withSz_modify_of_ne k i z hp f
  cases m with
  | schedule | resume => rfl
  | advance => exact advanceStep_withSz hp (hsizes rfl)
  | fork =>
      simp only [callStep, withSz_pc, withSz_lock, withSz_firstUnused, withSz_allocproc,
        apply_ite (Option.map _)]
      cases k.firstUnused <;> rfl
  | kalloc page =>
      simp only [callStep, withSz_pc]
      cases k.pc p with
      | forkKalloc np =>
          have hfail := withSz_modify k i z np (f := fun q => { q with state := .unused }) fun _ => rfl
          simp only [hfail, apply_ite (Option.map _)]
          rfl
      | _ => rfl
  | copyuvm pgdir =>
      simp only [callStep, withSz_pc]
      cases k.pc p with
      | forkCopyuvm np =>
          have hfail := withSz_modify k i z np (f := fun q => { q with state := .unused }) fun _ => rfl
          simp only [hfail, apply_ite (Option.map _)]
          rfl
      | _ => rfl
  | exit | wait | getNumProc | getMaxPid | sleep | yield | resize | setFile =>
      simp only [callStep, withSz_pc, withSz_lock, withSz_initproc, hother, apply_ite (Option.map _)]
      rfl
  | kill pid =>
      simp only [callStep, withSz_pc, withSz_lock, withSz_kill, apply_ite (Option.map _)]
      rfl
  | wakeup address =>
      simp only [callStep, withSz_lock, withSz_wakeup1, apply_ite (Option.map _)]
      rfl
  | getProcInfo pid =>
      simp only [callStep, withSz_pc, withSz_lock, withSz_findActive, apply_ite (Option.map _)]
      cases k.findActive pid <;> rfl

end Kernel

open Kernel

variable {k : Kernel nproc nofile ncpu} {i : Fin nproc} {z : ℕ} {a : Act nofile ncpu}

/-- **A step does not read the size** of a slot on no CPU: unless it stores it, it does the same with
another one. -/
theorem step_withSz (hoff : ∀ c, k.cpu c ≠ .ran i) (hsizes : k.sizes a ≠ some i) :
    step (k.withSz i z) a = (step k a).map fun k' => k'.withSz i z := by
  cases a with
  | userinit =>
      refine userinitStep_withSz fun hboot => hsizes ?_
      rw [sizes, hboot]
  | on c m =>
      unfold step
      simp only [withSz_cpu, withSz_lock, withSz_wakeup1, schedulerStep_withSz]
      cases hcpu : k.cpu c with
      | idle =>
          cases m with
          | wakeup address =>
              simp only [apply_ite (Option.map _)]
              rfl
          | _ => rfl
      | scan j => cases m <;> rfl
      | ran p =>
          have hp : p ≠ i := fun heq => hoff c (heq ▸ hcpu)
          simp only [withSz_susp, resumeStep_withSz]
          by_cases hsusp : k.susp p = .awake
          · rw [if_pos hsusp, if_pos hsusp]
            refine callStep_withSz hp ?_
            rintro rfl hpc
            refine hsizes ?_
            rw [sizes, advancing_of_ran hcpu hsusp, Option.bind_some, hpc]
            rfl
          · rw [if_neg hsusp, if_neg hsusp]
            cases m <;> rfl

/-- **Who stores a size**: `userinit`, or the `fork` of another process. -/
theorem of_sizes (h : k.sizes a = some i) :
    a = .userinit ∧ k.boot = .fill i ∨ ∃ c p, a = .on c .advance ∧ k.cpu c = .ran p ∧
      k.susp p = .awake ∧ k.pc p = .forkSize i := by
  cases a with
  | userinit =>
      cases hboot : k.boot with
      | fill j =>
          simp only [sizes, hboot] at h
          exact Or.inl ⟨rfl, congrArg Boot.fill (Option.some.inj h)⟩
      | start | publish | done =>
          simp only [sizes, hboot] at h
          cases h
  | on c m =>
      obtain ⟨p, hp, hpc⟩ := Option.bind_eq_some_iff.mp h
      obtain ⟨c', hact, hcpu, hsusp⟩ := of_advancing hp
      cases hact
      exact Or.inr ⟨c, p, rfl, hcpu, hsusp, Pc.eq_of_sizes hpc⟩

/-- **A step that stores a size** does the same whatever was there. -/
theorem step_withSz_of_sizes (hoff : ∀ c, k.cpu c ≠ .ran i) (hsizes : k.sizes a = some i) :
    step (k.withSz i z) a = step k a := by
  rcases of_sizes hsizes with ⟨rfl, hboot⟩ | ⟨c, p, rfl, hcpu, hsusp, hpc⟩
  · have hfill : (k.withSz i z).modify i (fun p => { p with sz := pgsize })
        = k.modify i fun p => { p with sz := pgsize } := withSz_modify_self k i z rfl
    simp only [step, userinitStep, withSz_boot, hboot, hfill]
  · have hne : p ≠ i := fun heq => hoff c (heq ▸ hcpu)
    have hstore : (k.withSz i z).modify i (fun q => { q with sz := ((k.withSz i z).proc p).sz })
        = k.modify i fun q => { q with sz := (k.proc p).sz } := by
      rw [withSz_sz_of_ne k i z hne]
      exact withSz_modify_self k i z rfl
    rw [step_of_ran hcpu hsusp, step_of_ran (k := k.withSz i z) hcpu hsusp]
    simp only [callStep, advanceStep, withSz_pc, hpc, hstore]

end StudiesOS.ProcessTable
