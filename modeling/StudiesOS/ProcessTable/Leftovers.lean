import StudiesOS.ProcessTable.Cleared
import StudiesOS.ProcessTable.Sizes
import StudiesOS.ProcessTable.Switches

/-! # What is left over in a slot
`allocproc` stores the state, the pid and `nrswitch` of a slot; its parent, its channel and its
descriptors were cleared before it was free. Nobody clears `killed` when a `kill` hits a free slot, and
nobody clears the size: until `fork` or `userinit` stores it, the queries report that of the last
process there. -/

namespace StudiesOS.ProcessTable

open Kernel

variable {nproc nofile ncpu : ℕ} {k k' : Kernel nproc nofile ncpu} {a : Act nofile ncpu}
  {i : Fin nproc}

/-! ## Before the size is stored -/

/-- The slot whose size a `fork` has not stored yet. -/
def Pc.unsized : Pc nproc → Option (Fin nproc)
  | .forkKalloc np | .forkCopyuvm np | .forkSize np => some np
  | _ => none

/-- **The size of the process in slot `i` has not been stored yet.** -/
def Kernel.Unsized (k : Kernel nproc nofile ncpu) (i : Fin nproc) : Prop :=
  (∃ p, (k.pc p).unsized = some i) ∨ k.boot = .fill i

/-- It is one that the `fork` is filling in. -/
theorem Pc.child_of_unsized {pc : Pc nproc} (h : pc.unsized = some i) : pc.child = some i := by
  cases pc with
  | forkKalloc | forkCopyuvm | forkSize => exact h
  | _ => cases h

/-- It is an embryo. -/
theorem Kernel.Unsized.embryo (h : k.Unsized i) (hc : Control k) : (k.proc i).state = .embryo := by
  rcases h with ⟨p, hp⟩ | hboot
  · exact hc.child p i (Pc.child_of_unsized hp)
  · exact (hc.boot i (by rw [hboot]; rfl)).1

/-- What says that a size has not been stored is the same. -/
theorem unsized_congr (hpc : ∀ p, (k'.pc p).unsized = some i ↔ (k.pc p).unsized = some i)
    (hboot : k'.boot = .fill i ↔ k.boot = .fill i) : k'.Unsized i ↔ k.Unsized i :=
  or_congr (exists_congr hpc) hboot

/-- A process goes on that is about the slot `i` as before. -/
theorem unsized_setPc {p : Fin nproc} {pc' : Pc nproc} (hpc : k'.pc = Function.update k.pc p pc')
    (h : pc'.unsized = some i ↔ (k.pc p).unsized = some i)
    (hboot : k'.boot = .fill i ↔ k.boot = .fill i) : k'.Unsized i ↔ k.Unsized i := by
  refine unsized_congr (fun q => ?_) hboot
  rw [hpc]
  by_cases hq : q = p
  · rw [hq, Function.update_self, h]
  · rw [Function.update_of_ne hq]

/-- A free slot fills in nothing. -/
theorem unsized_of_free (hrel : Related k) {p : Fin nproc} (hp : (k.proc p).state = .unused) :
    (k.pc p).unsized = none := by
  by_contra hsome
  obtain ⟨j, hj⟩ := Option.ne_none_iff_exists'.mp hsome
  have hchild : (k.lineage.stage p).child = some j := by
    show (k.pc p).stage.child = some j
    cases hpc : k.pc p with
    | forkKalloc | forkCopyuvm | forkSize =>
        rw [hpc] at hj
        exact hj
    | _ =>
        rw [hpc] at hj
        cases hj
  cases (congrArg ProcState.status hp).symm.trans (hrel.family.child p j hchild).1

/-- **A size not stored** stays so until it is stored, or the slot is given back; and no slot comes to
it but one that `allocproc` gives out. -/
theorem unsized_step (hrel : Related k) (ha : Trans k a k') (hkeep : k.allocates a ≠ some i) :
    (k'.Unsized i → k.Unsized i) ∧
      (k.Unsized i → k.sizes a = some i ∨ k'.Unsized i ∨ (k'.proc i).state = .unused) := by
  have hsame : (k'.Unsized i ↔ k.Unsized i) → (k'.Unsized i → k.Unsized i) ∧
      (k.Unsized i → k.sizes a = some i ∨ k'.Unsized i ∨ (k'.proc i).state = .unused) :=
    fun h => ⟨h.mp, fun hu => Or.inr (Or.inl (h.mpr hu))⟩
  cases ha with
  | bootAlloc j hboot hlock hj =>
      have hij : j ≠ i := by
        rintro rfl
        exact hkeep ((if_pos hboot).trans hj)
      refine hsame (unsized_setPc (k := k) (p := j) rfl ?_ ?_)
      · rw [unsized_of_free hrel (state_of_firstUnused hj)]
        rfl
      · rw [hboot]
        simp [hij]
  | bootFill j hboot =>
      by_cases hij : j = i
      · subst hij
        refine ⟨fun _ => Or.inr hboot, fun _ => Or.inl ?_⟩
        rw [sizes, hboot]
      · refine hsame (unsized_congr (fun _ => Iff.rfl) ?_)
        rw [hboot]
        simp [hij]
  | bootPublish j hboot =>
      refine hsame (unsized_congr (fun _ => Iff.rfl) ?_)
      rw [hboot]
      simp
  | forkAlloc c p np hcpu hsusp hpc hlock hnp =>
      have hij : np ≠ i := by
        rintro rfl
        exact hkeep hnp
      have htaken : (k.allocproc np).Unsized i ↔ k.Unsized i := by
        refine unsized_setPc (k := k) (p := np) rfl ?_ Iff.rfl
        rw [unsized_of_free hrel (state_of_firstUnused hnp)]
        rfl
      -- the caller runs, so that the slot is not its own
      have hne : p ≠ np := by
        rintro rfl
        cases (hrel.control.ran c p hcpu).symm.trans (state_of_firstUnused hnp)
      have hpc' : (k.allocproc np).pc p = .user := (Function.update_of_ne hne _ k.pc).trans hpc
      refine hsame (Iff.trans ?_ htaken)
      refine unsized_setPc (k := k.allocproc np) (p := p) rfl ?_ Iff.rfl
      rw [hpc']
      simp [hij, Pc.unsized]
  | forkNext c p np m pc' hcpu hsusp hpc =>
      refine hsame (unsized_setPc (k := k) (p := p) rfl ?_ Iff.rfl)
      rcases hpc with ⟨hpc, -, rfl⟩ | ⟨hpc, -, rfl⟩ <;> rw [hpc] <;> rfl
  | forkFail c p np m hcpu hsusp hpc =>
      have hp : (k.pc p).unsized = some np := by
        rcases hpc with ⟨hpc, -⟩ | ⟨hpc, -⟩ <;> rw [hpc] <;> rfl
      -- the slot goes back without a size
      by_cases hij : np = i
      · subst hij
        refine ⟨fun _ => Or.inl ⟨p, hp⟩, fun _ => Or.inr (Or.inr ?_)⟩
        rw [setPc_proc, modify_proc_self]
      · refine hsame (unsized_setPc (k := k) (p := p) rfl ?_ Iff.rfl)
        rw [hp]
        simp [hij, Pc.unsized]
  | forkSize c p np hcpu hsusp hpc =>
      -- the store of the size
      by_cases hij : np = i
      · subst hij
        refine ⟨fun _ => Or.inl ⟨p, by rw [hpc]; rfl⟩, fun _ => Or.inl ?_⟩
        rw [sizes, advancing_of_ran hcpu hsusp, Option.bind_some, hpc]
        rfl
      · refine hsame (unsized_setPc (k := k) (p := p) rfl ?_ Iff.rfl)
        rw [hpc]
        simp [hij, Pc.unsized]
  | forkParent c p np hcpu hsusp hpc | forkFile c p np fd hcpu hsusp hpc
    | forkFiles c p np fd hcpu hsusp hpc | forkPublish c p np hcpu hsusp hpc
    | exit c p hcpu hsusp hpc | exitClose c p fd hcpu hsusp hpc | exitClosed c p fd hcpu hsusp hpc
    | wait c p hcpu hsusp hpc | waitReap c p j hcpu hsusp hpc =>
      refine hsame (unsized_setPc (k := k) (p := p) rfl ?_ Iff.rfl)
      rw [hpc]
      rfl
  | leave c p hcpu hsusp hpc =>
      refine hsame (unsized_setPc (k := k) (p := p) rfl ?_ Iff.rfl)
      rcases hpc with hpc | ⟨j, n, hpc⟩ | ⟨j, n, hpc⟩ | ⟨j, hpc⟩ <;> rw [hpc] <;> rfl
  | query c p m pc' hcpu hsusp hpc hlock hm =>
      refine hsame (unsized_setPc (k := k) (p := p) rfl ?_ Iff.rfl)
      rcases hm with ⟨-, rfl⟩ | ⟨-, rfl⟩ | ⟨pid, j, -, -, rfl⟩ <;> rw [hpc] <;> rfl
  | queryNext c p j pc' hcpu hsusp hlock hpc =>
      refine hsame (unsized_setPc (k := k) (p := p) rfl ?_ Iff.rfl)
      rcases hpc with ⟨n, hpc, rfl⟩ | ⟨n, hpc, rfl⟩ <;> rw [hpc] <;> rfl
  | exitLast c p t hcpu hsusp hpc hlock ht =>
      have hpc' : t.pc = k.pc := by rw [ht.rest]
      have hboot : t.boot = k.boot := by rw [ht.rest]
      exact hsame (unsized_congr (fun q => by rw [← hpc']; rfl) (by rw [← hboot]; rfl))
  | stay | acquire | skip | dispatch | release | resume | resumeSleep | sleep | yield | kill | wakeup
    | resize | setFile => exact hsame (unsized_congr (fun _ => Iff.rfl) Iff.rfl)

/-- **A size that is stored** is stored. -/
theorem not_unsized_of_sizes (hc : Control k) (hstep : step k a = some k')
    (hsizes : k.sizes a = some i) : ¬ k'.Unsized i := by
  rcases of_sizes hsizes with ⟨rfl, hboot⟩ | ⟨c, p, rfl, hcpu, hsusp, hpc⟩
  · have hnobody := (hc.boot i (by rw [hboot]; rfl)).2
    simp only [step, userinitStep, hboot] at hstep
    cases hstep
    rintro (⟨q, hq⟩ | hfill)
    · exact hnobody q (Pc.child_of_unsized hq)
    · cases hfill
  · have hchild : (k.pc p).child = some i := by rw [hpc]; rfl
    rw [step_of_ran hcpu hsusp] at hstep
    simp only [callStep, advanceStep, hpc] at hstep
    cases hstep
    rintro (⟨q, hq⟩ | hfill)
    · have hupdate : (Function.update k.pc p (.forkParent i) q).unsized = some i := hq
      by_cases hqp : q = p
      · rw [hqp, Function.update_self] at hupdate
        cases hupdate
      · rw [Function.update_of_ne hqp] at hupdate
        exact hqp (hc.owner q p i (Pc.child_of_unsized hupdate) hchild)
    · exact (hc.boot i (by rw [show k.boot = .fill i from hfill]; rfl)).2 p hchild

/-! ## Two runs -/

attribute [ext] Kernel Proc

/-- **Two kernels that differ only in the slot `i`**, and in where its process stands. -/
structure SameBut (i : Fin nproc) (k₁ k₂ : Kernel nproc nofile ncpu) : Prop where
  /-- The other slots. -/
  proc : ∀ j, j ≠ i → k₂.proc j = k₁.proc j
  /-- Where their processes stand. -/
  pc : ∀ j, j ≠ i → k₂.pc j = k₁.pc j
  /-- Where they go on. -/
  susp : ∀ j, j ≠ i → k₂.susp j = k₁.susp j
  /-- The lock. -/
  lock : k₂.lock = k₁.lock
  /-- `nextpid`. -/
  nextpid : k₂.nextpid = k₁.nextpid
  /-- `initproc`. -/
  initproc : k₂.initproc = k₁.initproc
  /-- The CPUs. -/
  cpu : k₂.cpu = k₁.cpu
  /-- `userinit`. -/
  boot : k₂.boot = k₁.boot
  /-- The number of calls of `allocproc`. -/
  allocs : k₂.allocs = k₁.allocs

/-- **After `allocproc`** they differ only in the size, if the slot was cleared in both. -/
theorem SameBut.allocproc {k₁ k₂ : Kernel nproc nofile ncpu} (h : SameBut i k₁ k₂)
    (hparent : (k₂.proc i).parent = (k₁.proc i).parent) (hchan : (k₂.proc i).chan = (k₁.proc i).chan)
    (hofile : (k₂.proc i).ofile = (k₁.proc i).ofile)
    (hkilled : (k₂.proc i).killed = (k₁.proc i).killed) :
    k₂.allocproc i = (k₁.allocproc i).withSz i (k₂.proc i).sz := by
  refine Kernel.ext (funext fun j => ?_) h.lock ?_ h.initproc h.cpu (funext fun j => ?_)
    (funext fun j => ?_) h.boot ?_
  · rw [withSz_proc, allocproc_proc, allocproc_proc]
    by_cases hj : j = i
    · subst hj
      simp only [if_pos, hparent, hchan, hofile, hkilled, h.nextpid]
    · simp only [if_neg hj, h.proc j hj]
  · show wrap 32 (k₂.nextpid + 1) = wrap 32 (k₁.nextpid + 1)
    rw [h.nextpid]
  · by_cases hj : j = i
    · subst hj
      exact (Function.update_self j _ k₂.pc).trans (Function.update_self j _ k₁.pc).symm
    · exact (Function.update_of_ne hj _ k₂.pc).trans
        ((h.pc j hj).trans (Function.update_of_ne hj _ k₁.pc).symm)
  · by_cases hj : j = i
    · subst hj
      exact (Function.update_self j _ k₂.susp).trans (Function.update_self j _ k₁.susp).symm
    · exact (Function.update_of_ne hj _ k₂.susp).trans
        ((h.susp j hj).trans (Function.update_of_ne hj _ k₁.susp).symm)
  · exact congrArg (· + 1) h.allocs

/-- What `allocproc` gives out is the first free slot. -/
theorem firstUnused_of_allocates (h : k.allocates a = some i) : k.firstUnused = some i := by
  unfold allocates at h
  split at h
  · exact (Option.ite_none_right_eq_some.mp h).2
  · exact h
  · cases h

/-- Who forks is on a CPU, in user mode. -/
theorem of_fork {c : Fin ncpu} (h : step k (.on c .fork) = some k') (hi : k.firstUnused = some i) :
    ∃ p, k.cpu c = .ran p ∧ k.susp p = .awake ∧ (k.pc p = .user ∧ k.lock = none) ∧
      k' = (k.allocproc i).setPc p (.forkKalloc i) := by
  cases hcpu : k.cpu c with
  | idle | scan => simp [step, hcpu] at h
  | ran p =>
      simp only [step, hcpu] at h
      split_ifs at h with hsusp
      simp only [callStep] at h
      split_ifs at h with hguard
      rw [hi] at h
      exact ⟨p, rfl, hsusp, hguard, (Option.some.inj h).symm⟩

/-- **The step in which `allocproc` gives out the slot** leaves them differing in the size, which has
not been stored. -/
theorem SameBut.step {k₁ k₂ u₁ : Kernel nproc nofile ncpu} (h : SameBut i k₁ k₂) (hc : Control k₁)
    (halloc : k₂.allocproc i = (k₁.allocproc i).withSz i (k₂.proc i).sz)
    (ha₁ : k₁.allocates a = some i) (ha₂ : k₂.allocates a = some i)
    (hstep : ProcessTable.step k₁ a = some u₁) :
    ProcessTable.step k₂ a = some (u₁.withSz i (k₂.proc i).sz) ∧
      (u₁.proc i).sz = (k₁.proc i).sz ∧ u₁.Unsized i := by
  have hsz : ((k₁.allocproc i).proc i).sz = (k₁.proc i).sz := by rw [allocproc_proc, if_pos rfl]
  cases a with
  | userinit =>
      simp only [allocates] at ha₁ ha₂
      split_ifs at ha₁ ha₂ with hboot₁ hboot₂
      simp only [ProcessTable.step, userinitStep, hboot₁] at hstep
      split_ifs at hstep with hlock
      rw [ha₁] at hstep
      cases hstep
      refine ⟨?_, hsz, Or.inr rfl⟩
      simp only [ProcessTable.step, userinitStep, hboot₂]
      rw [if_pos (h.lock.trans hlock), ha₂, Option.map_some, halloc]
      rfl
  | on c m =>
      cases m with
      | fork =>
          obtain ⟨p, hcpu, hsusp, ⟨hpc, hlock⟩, rfl⟩ := of_fork hstep ha₁
          have hne : p ≠ i := by
            rintro rfl
            cases (hc.ran c p hcpu).symm.trans (state_of_firstUnused ha₁)
          refine ⟨?_, hsz, Or.inl ⟨p, ?_⟩⟩
          · rw [step_of_ran ((congrFun h.cpu c).trans hcpu) ((h.susp p hne).trans hsusp)]
            simp only [callStep]
            rw [if_pos ⟨(h.pc p hne).trans hpc, h.lock.trans hlock⟩,
              show k₂.firstUnused = some i from ha₂]
            exact congrArg (fun t : Kernel nproc nofile ncpu => some (t.setPc p (.forkKalloc i))) halloc
          · rw [setPc_pc_self]
            rfl
      | _ => cases ha₁

/-- **The two runs go on alike** in `t₁` and `t₂`: as long as the size of the slot `i` has not been
stored they differ in it at most. -/
def Alike (i : Fin nproc) (sz₁ sz₂ : ℕ) (t₁ t₂ : Kernel nproc nofile ncpu) : Prop :=
  t₂ = t₁ ∧ ¬ t₁.Unsized i ∨
    t₂ = t₁.withSz i sz₂ ∧ (t₁.proc i).sz = sz₁ ∧ (t₁.Unsized i ∨ (t₁.proc i).state = .unused)

/-- A slot that is not given out stays free. -/
theorem unused_step (hc : Control k) (ha : Trans k a k') (hkeep : KeepsSlot i k a)
    (hi : (k.proc i).state = .unused) : (k'.proc i).state = .unused := by
  cases turn_step hc ha i with
  | keep hstate => exact (hstate.eq (by rw [hi]; decide)).trans hi
  | taken _ _ _ _ halloc => exact absurd halloc hkeep
  | givenUp hfree => exact hfree
  | publish hs | dispatch hs | offCpu hs | exits hs => cases hs.symm.trans hi

/-- **Every step keeps them alike**, if it does not give out the slot again. -/
theorem Alike.step {sz₁ sz₂ : ℕ} {t₁ t₂ t₁' : Kernel nproc nofile ncpu} (h : Alike i sz₁ sz₂ t₁ t₂)
    (hrel : Related t₁) (hkeep : KeepsSlot i t₁ a) (hstep : ProcessTable.step t₁ a = some t₁') :
    ∃ t₂', ProcessTable.step t₂ a = some t₂' ∧ Alike i sz₁ sz₂ t₁' t₂' := by
  have htrans := step_trans hstep
  obtain ⟨hback, hforth⟩ := unsized_step hrel htrans hkeep
  rcases h with ⟨rfl, hsized⟩ | ⟨rfl, hsz, hopen⟩
  · exact ⟨t₁', hstep, Or.inl ⟨rfl, fun hu => hsized (hback hu)⟩⟩
  · have hoff : ∀ c, t₁.cpu c ≠ .ran i := by
      intro c hc
      have hrun := hrel.control.ran c i hc
      rcases hopen with hu | hfree
      · cases hrun.symm.trans (hu.embryo hrel.control)
      · cases hrun.symm.trans hfree
    by_cases hsizes : t₁.sizes a = some i
    · refine ⟨t₁', ?_, Or.inl ⟨rfl, not_unsized_of_sizes hrel.control hstep hsizes⟩⟩
      rw [step_withSz_of_sizes hoff hsizes, hstep]
    · refine ⟨t₁'.withSz i sz₂, ?_, Or.inr ⟨rfl, ?_, ?_⟩⟩
      · rw [step_withSz hoff hsizes, hstep, Option.map_some]
      · -- with the size that is there, the same lemma says that the step keeps it
        have hself := step_withSz (z := sz₁) hoff hsizes
        rw [← hsz, withSz_self, hstep, Option.map_some, hsz] at hself
        rw [Option.some.inj hself, withSz_proc]
        exact if_pos rfl
      · rcases hopen with hu | hfree
        · exact (hforth hu).resolve_left hsizes
        · exact Or.inr (unused_step hrel.control htrans hkeep hfree)

/-! ## What the queries say -/

/-- What `getProcInfo` reads with another size in the slot `i`. -/
theorem procInfo_withSz (i j : Fin nproc) (sz : ℕ) : (k.withSz i sz).procInfo j
    = { k.procInfo j with sz := if j = i then wrap 32 sz else (k.procInfo j).sz } := by
  unfold procInfo
  simp only [withSz_proc]
  split_ifs <;> rfl

/-- **The queries of `t₁` and `t₂` agree** but for the size of the process in slot `i`, as long as that
has not been stored. -/
theorem Alike.reports {sz₁ sz₂ : ℕ} {t₁ t₂ : Kernel nproc nofile ncpu} (h : Alike i sz₁ sz₂ t₁ t₂)
    (pid : ℤ) (pinfo : ProcessInfo) :
    (t₂.getProcInfo pid pinfo).1 = (t₁.getProcInfo pid pinfo).1 ∧
    (∃ sz, (t₂.getProcInfo pid pinfo).2 = { (t₁.getProcInfo pid pinfo).2 with sz := sz }) ∧
    ((t₂.getProcInfo pid pinfo).2.sz = (t₁.getProcInfo pid pinfo).2.sz ↔
      (t₁.findActive pid = some i → t₁.Unsized i → wrap 32 (sz₂ : ℤ) = wrap 32 (sz₁ : ℤ))) := by
  rcases h with ⟨rfl, hsized⟩ | ⟨rfl, hsz, hopen⟩
  · exact ⟨rfl, ⟨_, rfl⟩, fun _ _ hu => absurd hu hsized, fun _ => rfl⟩
  · unfold getProcInfo
    rw [withSz_findActive]
    cases hfind : t₁.findActive pid with
    | none => exact ⟨rfl, ⟨_, rfl⟩, fun _ => nofun, fun _ => rfl⟩
    | some j =>
        refine ⟨rfl, ⟨_, procInfo_withSz i j sz₂⟩, ?_⟩
        show ((t₁.withSz i sz₂).procInfo j).sz = (t₁.procInfo j).sz ↔ _
        have hreport : ((t₁.withSz i sz₂).procInfo j).sz
            = if j = i then wrap 32 sz₂ else (t₁.procInfo j).sz := by rw [procInfo_withSz]
        rw [hreport]
        by_cases hj : j = i
        · subst hj
          have hu : t₁.Unsized j := hopen.resolve_right (of_findActive hfind).1
          have hreport₁ : (t₁.procInfo j).sz = wrap 32 (sz₁ : ℤ) := by rw [procInfo, hsz]
          rw [if_pos rfl, hreport₁]
          exact ⟨fun heq _ _ => heq, fun heq => heq rfl hu⟩
        · rw [if_neg hj]
          exact ⟨fun _ heq => absurd (Option.some.inj heq) hj, fun _ => rfl⟩

/-- **What is left over in a slot.** Two runs lead to kernels that differ in the slot `i` only, which
`allocproc` gives out next, and go on with the same actions; `killed` was left the same. Then every
query reports the same in both, but for the size of the process in slot `i` before `fork` or
`userinit` has stored it: that is reported the same exactly if the sizes left over are. -/
theorem left_over {as₁ as₂ bs : List (Act nofile ncpu)} {k₁ k₂ u₁ t₁ : Kernel nproc nofile ncpu}
    (h₁ : run step .init as₁ = some k₁) (h₂ : run step .init as₂ = some k₂) (hsame : SameBut i k₁ k₂)
    (ha₁ : k₁.allocates a = some i) (ha₂ : k₂.allocates a = some i)
    (hstep : step k₁ a = some u₁) (hkeep : EveryStep step (KeepsSlot i) u₁ bs)
    (hrun : run step u₁ bs = some t₁) (hkilled : (k₂.proc i).killed = (k₁.proc i).killed) :
    ∃ t₂, run step k₂ (a :: bs) = some t₂ ∧ ∀ pid pinfo,
      (t₂.getProcInfo pid pinfo).1 = (t₁.getProcInfo pid pinfo).1 ∧
      (t₂.getProcInfo pid pinfo).2.state = (t₁.getProcInfo pid pinfo).2.state ∧
      (t₂.getProcInfo pid pinfo).2.ppid = (t₁.getProcInfo pid pinfo).2.ppid ∧
      (t₂.getProcInfo pid pinfo).2.nfd = (t₁.getProcInfo pid pinfo).2.nfd ∧
      (t₂.getProcInfo pid pinfo).2.nrswitch = (t₁.getProcInfo pid pinfo).2.nrswitch ∧
      ((t₂.getProcInfo pid pinfo).2.sz = (t₁.getProcInfo pid pinfo).2.sz ↔
        (t₁.findActive pid = some i → t₁.Unsized i →
          wrap 32 ((k₂.proc i).sz : ℤ) = wrap 32 ((k₁.proc i).sz : ℤ))) := by
  have hfree : ∀ {k : Kernel nproc nofile ncpu}, k.allocates a = some i →
      (k.proc i).state = .unused := fun ha => state_of_firstUnused (firstUnused_of_allocates ha)
  obtain ⟨hparent₁, hchan₁, hofile₁⟩ := cleared_of_run h₁ (hfree ha₁)
  obtain ⟨hparent₂, hchan₂, hofile₂⟩ := cleared_of_run h₂ (hfree ha₂)
  have halloc := hsame.allocproc (hparent₂.trans hparent₁.symm) (hchan₂.trans hchan₁.symm)
    (hofile₂.trans hofile₁.symm) hkilled
  obtain ⟨hstep₂, hsz, hunsized⟩ := hsame.step (.of_run h₁) halloc ha₁ ha₂ hstep
  have hrel : Related u₁ := ((Related.of_run h₁).step (step_trans hstep)).1
  have halike : Alike i (k₁.proc i).sz (k₂.proc i).sz u₁ (u₁.withSz i (k₂.proc i).sz) :=
    Or.inr ⟨rfl, hsz, Or.inl hunsized⟩
  obtain ⟨t₂, hrun₂, -, ht⟩ := guarded_simulation
    (R := fun t₁ t₂ => Related t₁ ∧ Alike i (k₁.proc i).sz (k₂.proc i).sz t₁ t₂) ⟨hrel, halike⟩
    (fun t₁ t₂ b t₁' ht hok hs => by
      obtain ⟨t₂', hs₂, ht'⟩ := ht.2.step ht.1 hok hs
      exact ⟨t₂', hs₂, (ht.1.step (step_trans hs)).1, ht'⟩) hkeep hrun
  refine ⟨t₂, ?_, fun pid pinfo => ?_⟩
  · rw [run_cons, hstep₂]
    exact hrun₂
  · obtain ⟨hret, ⟨sz, hinfo⟩, hiff⟩ := ht.reports pid pinfo
    exact ⟨hret, by rw [hinfo], by rw [hinfo], by rw [hinfo], by rw [hinfo], hiff⟩

/-! ## A slot used twice -/

deriving instance DecidableEq for Proc

/-- On concrete kernels it can be checked. -/
instance (i : Fin nproc) (k₁ k₂ : Kernel nproc nofile ncpu) : Decidable (SameBut i k₁ k₂) :=
  decidable_of_iff ((∀ j, j ≠ i → k₂.proc j = k₁.proc j) ∧ (∀ j, j ≠ i → k₂.pc j = k₁.pc j) ∧
      (∀ j, j ≠ i → k₂.susp j = k₁.susp j) ∧ k₂.lock = k₁.lock ∧ k₂.nextpid = k₁.nextpid ∧
      k₂.initproc = k₁.initproc ∧ k₂.cpu = k₁.cpu ∧ k₂.boot = k₁.boot ∧ k₂.allocs = k₁.allocs)
    ⟨fun ⟨hproc, hpc, hsusp, hlock, hnextpid, hinitproc, hcpu, hboot, hallocs⟩ =>
        ⟨hproc, hpc, hsusp, hlock, hnextpid, hinitproc, hcpu, hboot, hallocs⟩,
      fun h => ⟨h.proc, h.pc, h.susp, h.lock, h.nextpid, h.initproc, h.cpu, h.boot, h.allocs⟩⟩

instance (i : Fin nproc) (k : Kernel nproc nofile ncpu) : Decidable (k.Unsized i) :=
  inferInstanceAs (Decidable (_ ∨ _))

instance (i : Fin nproc) (k : Kernel nproc nofile ncpu) (a : Act nofile ncpu) :
    Decidable (KeepsSlot i k a) :=
  inferInstanceAs (Decidable (_ ≠ _))

/-- The first process forks on CPU `c`, and its child, in slot `1` of `nproc` slots, does `calls` on CPU
`c'` and exits; the first process waits for it. -/
def reapRun (nproc : ℕ) (c c' : Fin ncpu) (calls : List (Move nofile)) : List (Act nofile ncpu) :=
  bootRun c ++ forkRun c ++ List.replicate 3 (.on c' .schedule) ++ [.on c' .resume] ++
    calls.map (.on c') ++ [.on c' .exit] ++ List.replicate (nofile + 2) (.on c' .advance) ++
    List.replicate (nproc - 1) (.on c' .schedule) ++ [.on c .wait, .on c .advance]

/-- **Two runs that differ in the size of a child that has exited**, and go on with a fork up to the
store of the size: from there on they report the same. -/
theorem left_over_reapRun : ∃ k₁ k₂ t₁ t₂ : Kernel 4 1 2,
    run step .init (reapRun 4 0 1 [.resize 8192]) = some k₁ ∧ run step .init (reapRun 4 0 1 []) = some k₂ ∧
      (k₁.proc 1).sz ≠ (k₂.proc 1).sz ∧
      run step k₁ [.on 0 .fork, .on 0 (.kalloc true), .on 0 (.copyuvm true), .on 0 .advance] = some t₁ ∧
      run step k₂ [.on 0 .fork, .on 0 (.kalloc true), .on 0 (.copyuvm true), .on 0 .advance] = some t₂ ∧
      (t₁.getProcInfo 3 ⟨0, 0, 0, 0, 0⟩).1 = 0 ∧
      (t₂.getProcInfo 3 ⟨0, 0, 0, 0, 0⟩).2.sz = (t₁.getProcInfo 3 ⟨0, 0, 0, 0, 0⟩).2.sz := by
  have heval : ((run step (.init : Kernel 4 1 2) (reapRun 4 0 1 [.resize 8192])).bind fun k₁ =>
      (run step (.init : Kernel 4 1 2) (reapRun 4 0 1 [])).bind fun k₂ =>
      (step k₁ (.on 0 .fork)).bind fun u₁ =>
      (run step u₁ [.on 0 (.kalloc true), .on 0 (.copyuvm true), .on 0 .advance]).map fun t₁ =>
        decide (SameBut 1 k₁ k₂ ∧ k₁.allocates (.on 0 .fork) = some 1 ∧
          k₂.allocates (.on 0 .fork) = some 1 ∧ (k₂.proc 1).killed = (k₁.proc 1).killed ∧
          (k₁.proc 1).sz ≠ (k₂.proc 1).sz ∧
          EveryStep step (KeepsSlot 1) u₁ [.on 0 (.kalloc true), .on 0 (.copyuvm true), .on 0 .advance] ∧
          ¬ t₁.Unsized 1 ∧ (t₁.getProcInfo 3 ⟨0, 0, 0, 0, 0⟩).1 = 0)) = some true := by
    decide +kernel
  obtain ⟨k₁, h₁, heval⟩ := Option.bind_eq_some_iff.mp heval
  obtain ⟨k₂, h₂, heval⟩ := Option.bind_eq_some_iff.mp heval
  obtain ⟨u₁, hstep, heval⟩ := Option.bind_eq_some_iff.mp heval
  obtain ⟨t₁, hrun, heval⟩ := Option.map_eq_some_iff.mp heval
  obtain ⟨hsame, ha₁, ha₂, hkilled, hne, hkeep, hsized, hzero⟩ := of_decide_eq_true heval
  obtain ⟨t₂, hrun₂, hreports⟩ := left_over h₁ h₂ hsame ha₁ ha₂ hstep hkeep hrun hkilled
  refine ⟨k₁, k₂, t₁, t₂, h₁, h₂, hne, ?_, hrun₂, hzero, ?_⟩
  · rw [run_cons, hstep]
    exact hrun
  · obtain ⟨-, -, -, -, -, hiff⟩ := hreports 3 ⟨0, 0, 0, 0, 0⟩
    exact hiff.mpr fun _ hu => absurd hu hsized

/-- **Before the size is stored** the child just allocated is reported with the size of the one that
had the slot before: one page more if that had called `sbrk`. -/
theorem embryo_reports_old_size : ∃ k₁ k₂ t₁ t₂ : Kernel 4 1 2,
    run step .init (reapRun 4 0 1 [.resize 8192]) = some k₁ ∧ run step .init (reapRun 4 0 1 []) = some k₂ ∧
      SameBut 1 k₁ k₂ ∧ k₁.allocates (.on 0 .fork) = some 1 ∧ k₂.allocates (.on 0 .fork) = some 1 ∧
      (k₁.proc 1).killed = (k₂.proc 1).killed ∧
      step k₁ (.on 0 .fork) = some t₁ ∧ step k₂ (.on 0 .fork) = some t₂ ∧
      t₁.getProcInfo 3 ⟨0, 0, 0, 0, 0⟩ = (0, ⟨1, 0, 8192, 0, 0⟩) ∧
      t₂.getProcInfo 3 ⟨0, 0, 0, 0, 0⟩ = (0, ⟨1, 0, 4096, 0, 0⟩) := by
  have heval : ((run step (.init : Kernel 4 1 2) (reapRun 4 0 1 [.resize 8192])).bind fun k₁ =>
      (run step (.init : Kernel 4 1 2) (reapRun 4 0 1 [])).bind fun k₂ =>
      (step k₁ (.on 0 .fork)).bind fun t₁ => (step k₂ (.on 0 .fork)).map fun t₂ =>
        decide (SameBut 1 k₁ k₂ ∧ k₁.allocates (.on 0 .fork) = some 1 ∧
          k₂.allocates (.on 0 .fork) = some 1 ∧ (k₁.proc 1).killed = (k₂.proc 1).killed ∧
          t₁.getProcInfo 3 ⟨0, 0, 0, 0, 0⟩ = (0, ⟨1, 0, 8192, 0, 0⟩) ∧
          t₂.getProcInfo 3 ⟨0, 0, 0, 0, 0⟩ = (0, ⟨1, 0, 4096, 0, 0⟩))) = some true := by
    decide +kernel
  obtain ⟨k₁, h₁, heval⟩ := Option.bind_eq_some_iff.mp heval
  obtain ⟨k₂, h₂, heval⟩ := Option.bind_eq_some_iff.mp heval
  obtain ⟨t₁, ht₁, heval⟩ := Option.bind_eq_some_iff.mp heval
  obtain ⟨t₂, ht₂, heval⟩ := Option.map_eq_some_iff.mp heval
  obtain ⟨hsame, ha₁, ha₂, hkilled, hinfo₁, hinfo₂⟩ := of_decide_eq_true heval
  exact ⟨k₁, k₂, t₁, t₂, h₁, h₂, hsame, ha₁, ha₂, hkilled, ht₁, ht₂, hinfo₁, hinfo₂⟩

/-- The first process forks on CPU `c`, and its child, on CPU `c'`, forks and waits. -/
def childWaitRun (c c' : Fin ncpu) : List (Act nofile ncpu) :=
  forkRun c ++ List.replicate 3 (.on c' .schedule) ++ [.on c' .resume] ++ forkRun c' ++
    [.on c' .wait, .on c' .advance]

/-- **`killed` has to be left the same**: after `kill(0)` has hit the free slot, the child born there
does not sleep in `wait`, and its state is reported as `RUNNING`. -/
theorem killed_slot_reports : ∃ k₁ k₂ t₁ t₂ : Kernel 4 1 2,
    run step .init (bootRun 0 ++ [.on 0 (.kill 0)]) = some k₁ ∧ run step .init (bootRun 0) = some k₂ ∧
      SameBut 1 k₁ k₂ ∧ k₁.allocates (.on 0 .fork) = some 1 ∧ k₂.allocates (.on 0 .fork) = some 1 ∧
      run step k₁ (childWaitRun 0 1) = some t₁ ∧ run step k₂ (childWaitRun 0 1) = some t₂ ∧
      t₁.getProcInfo 2 ⟨0, 0, 0, 0, 0⟩ = (0, ⟨4, 1, 4096, 0, 1⟩) ∧
      t₂.getProcInfo 2 ⟨0, 0, 0, 0, 0⟩ = (0, ⟨2, 1, 4096, 0, 1⟩) := by
  have heval : ((run step (.init : Kernel 4 1 2) (bootRun 0 ++ [.on 0 (.kill 0)])).bind fun k₁ =>
      (run step (.init : Kernel 4 1 2) (bootRun 0)).bind fun k₂ =>
      (run step k₁ (childWaitRun 0 1)).bind fun t₁ => (run step k₂ (childWaitRun 0 1)).map fun t₂ =>
        decide (SameBut 1 k₁ k₂ ∧ k₁.allocates (.on 0 .fork) = some 1 ∧
          k₂.allocates (.on 0 .fork) = some 1 ∧
          t₁.getProcInfo 2 ⟨0, 0, 0, 0, 0⟩ = (0, ⟨4, 1, 4096, 0, 1⟩) ∧
          t₂.getProcInfo 2 ⟨0, 0, 0, 0, 0⟩ = (0, ⟨2, 1, 4096, 0, 1⟩))) = some true := by
    decide +kernel
  obtain ⟨k₁, h₁, heval⟩ := Option.bind_eq_some_iff.mp heval
  obtain ⟨k₂, h₂, heval⟩ := Option.bind_eq_some_iff.mp heval
  obtain ⟨t₁, ht₁, heval⟩ := Option.bind_eq_some_iff.mp heval
  obtain ⟨t₂, ht₂, heval⟩ := Option.map_eq_some_iff.mp heval
  obtain ⟨hsame, ha₁, ha₂, hinfo₁, hinfo₂⟩ := of_decide_eq_true heval
  exact ⟨k₁, k₂, t₁, t₂, h₁, h₂, hsame, ha₁, ha₂, ht₁, ht₂, hinfo₁, hinfo₂⟩

end StudiesOS.ProcessTable
