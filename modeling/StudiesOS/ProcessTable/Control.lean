import StudiesOS.ProcessTable.Transitions
import StudiesOS.Transition.Family

/-! # Who owns a slot
A slot that is on a CPU is `RUNNING`, and on one CPU only; a slot that some `fork`, or `userinit`, is
filling in is `EMBRYO`, and only one of them is at it. So a store without the lock goes to a slot that
nobody else changes. -/

namespace StudiesOS.ProcessTable

variable {nproc nofile ncpu : ℕ}

/-- The slot that a process is filling in. -/
def Pc.child : Pc nproc → Option (Fin nproc)
  | .forkKalloc np | .forkCopyuvm np | .forkSize np | .forkParent np | .forkFile np _
  | .forkPublish np => some np
  | .user | .exitClose _ | .exitLast | .waitScan | .numScan _ _ | .maxScan _ _ | .infoFill _ => none

/-- The slot that `userinit` is filling in. -/
def Boot.slot : Boot nproc → Option (Fin nproc)
  | .fill i | .publish i => some i
  | .start | .done => none

/-- **Who owns a slot.** -/
structure Control (k : Kernel nproc nofile ncpu) : Prop where
  /-- A process on a CPU is running. -/
  ran : ∀ c p, k.cpu c = .ran p → (k.proc p).state = .running
  /-- It is on one CPU only. -/
  inj : ∀ c c' p, k.cpu c = .ran p → k.cpu c' = .ran p → c = c'
  /-- A slot being filled in is an embryo. -/
  child : ∀ p np, (k.pc p).child = some np → (k.proc np).state = .embryo
  /-- One process only is filling it in. -/
  owner : ∀ p p' np, (k.pc p).child = some np → (k.pc p').child = some np → p = p'
  /-- The slot that `userinit` is filling in is an embryo, and no process is at it. -/
  boot : ∀ i, k.boot.slot = some i →
    (k.proc i).state = .embryo ∧ ∀ p, (k.pc p).child ≠ some i

/-- A state is the same, or a sleeper has become runnable. -/
def SameOrWoken (s s' : ProcState) : Prop := s' = s ∨ s = .sleeping ∧ s' = .runnable

/-- A state that is not `SLEEPING` is the same. -/
theorem SameOrWoken.eq {s s' : ProcState} (h : SameOrWoken s s') (hs : s ≠ .sleeping) : s' = s :=
  h.resolve_right fun hw => hs hw.1

/-- The state that `kill` leaves. -/
theorem sameOrWoken_kill (s : ProcState) :
    SameOrWoken s (if s = .sleeping then .runnable else s) := by
  split_ifs with hs
  · exact Or.inr ⟨hs, rfl⟩
  · exact Or.inl rfl

/-- Waking does not change who is active. -/
theorem SameOrWoken.active {s s' : ProcState} (h : SameOrWoken s s') :
    s' ≠ .unused ↔ s ≠ .unused := by
  rcases h with rfl | ⟨rfl, rfl⟩
  · exact Iff.rfl
  · exact ⟨fun _ => by decide, fun _ => by decide⟩

open Kernel

variable {k k' : Kernel nproc nofile ncpu}

/-! ## The rules -/

/-- **Nobody comes to own a slot**, and no state changes but of sleepers. -/
theorem Control.of_le (h : Control k)
    (hstate : ∀ i, SameOrWoken (k.proc i).state (k'.proc i).state)
    (hcpu : ∀ c p, k'.cpu c = .ran p → k.cpu c = .ran p)
    (hpc : ∀ p np, (k'.pc p).child = some np → (k.pc p).child = some np)
    (hboot : ∀ i, k'.boot.slot = some i → k.boot.slot = some i) : Control k' := by
  have hembryo : ∀ i, (k.proc i).state = .embryo → (k'.proc i).state = .embryo := by
    intro i hi
    rw [(hstate i).eq (by rw [hi]; decide), hi]
  constructor
  · intro c p hp
    have hrun := h.ran c p (hcpu c p hp)
    rw [(hstate p).eq (by rw [hrun]; decide), hrun]
  · intro c c' p hp hp'
    exact h.inj c c' p (hcpu c p hp) (hcpu c' p hp')
  · intro p np hnp
    exact hembryo np (h.child p np (hpc p np hnp))
  · intro p p' np hp hp'
    exact h.owner p p' np (hpc p np hp) (hpc p' np hp')
  · intro i hi
    obtain ⟨hstate, hfree⟩ := h.boot i (hboot i hi)
    exact ⟨hembryo i hstate, fun p hp => hfree p (hpc p i hp)⟩

/-- **The owner of the slot `i` leaves it**, and no state changes but of `i` and of sleepers. -/
theorem Control.leave (h : Control k) (i : Fin nproc)
    (hstate : ∀ j, j ≠ i → SameOrWoken (k.proc j).state (k'.proc j).state)
    (hcpu : ∀ c p, k'.cpu c = .ran p → k.cpu c = .ran p ∧ p ≠ i)
    (hpc : ∀ p np, (k'.pc p).child = some np → (k.pc p).child = some np ∧ np ≠ i)
    (hboot : ∀ j, k'.boot.slot = some j → k.boot.slot = some j ∧ j ≠ i) : Control k' := by
  have hembryo : ∀ j, j ≠ i → (k.proc j).state = .embryo → (k'.proc j).state = .embryo := by
    intro j hj hs
    rw [(hstate j hj).eq (by rw [hs]; decide), hs]
  constructor
  · intro c p hp
    obtain ⟨hp, hne⟩ := hcpu c p hp
    have hrun := h.ran c p hp
    rw [(hstate p hne).eq (by rw [hrun]; decide), hrun]
  · intro c c' p hp hp'
    exact h.inj c c' p (hcpu c p hp).1 (hcpu c' p hp').1
  · intro p np hnp
    obtain ⟨hnp, hne⟩ := hpc p np hnp
    exact hembryo np hne (h.child p np hnp)
  · intro p p' np hp hp'
    exact h.owner p p' np (hpc p np hp).1 (hpc p' np hp').1
  · intro j hj
    obtain ⟨hj, hne⟩ := hboot j hj
    obtain ⟨hstate, hfree⟩ := h.boot j hj
    exact ⟨hembryo j hne hstate, fun p hp => hfree p (hpc p j hp).1⟩

/-! ## What the guards of a step say -/

/-- The slot of a process on a CPU is not one that is being filled in. -/
theorem Control.ran_ne_child (h : Control k) {c : Fin ncpu} {p q np : Fin nproc}
    (hcpu : k.cpu c = .ran p) (hchild : (k.pc q).child = some np) : p ≠ np := by
  rintro rfl
  have hrun := h.ran c p hcpu
  rw [h.child q p hchild] at hrun
  cases hrun

/-- Nobody owns a slot that is not running and not an embryo. -/
theorem Control.unowned (h : Control k) {i : Fin nproc} (hrun : (k.proc i).state ≠ .running)
    (hembryo : (k.proc i).state ≠ .embryo) :
    (∀ c, k.cpu c ≠ .ran i) ∧ (∀ p, (k.pc p).child ≠ some i) ∧ k.boot.slot ≠ some i :=
  ⟨fun c hc => hrun (h.ran c i hc), fun p hp => hembryo (h.child p i hp),
    fun hi => hembryo (h.boot i hi).1⟩

/-- A CPU that goes to `scheduler` runs nothing. -/
theorem ran_of_update {cpu : Fin ncpu → Cpu nproc} {c c' : Fin ncpu} {q : Fin nproc}
    {point : Cpu nproc} (hpoint : ∀ q, point ≠ .ran q)
    (hq : Function.update cpu c point c' = .ran q) : cpu c' = .ran q ∧ c' ≠ c :=
  of_update_of_not (P := fun point : Cpu nproc => point = .ran q) hq (hpoint q)

/-- A program point that fills in no slot takes nothing into use. -/
theorem child_of_update {pc : Fin nproc → Pc nproc} {p q np : Fin nproc} {pc' : Pc nproc}
    (hpc' : pc'.child = none ∨ pc'.child = (pc p).child)
    (hq : (Function.update pc p pc' q).child = some np) : (pc q).child = some np := by
  by_cases hqp : q = p
  · rw [hqp, Function.update_self] at hq
    rcases hpc' with h | h
    · rw [h] at hq
      cases hq
    · rw [hqp, ← h, hq]
  · rwa [Function.update_of_ne hqp] at hq

/-- A `fork` that fails was filling in its slot. -/
theorem child_of_failing {p np : Fin nproc} {m : Move nofile}
    (hpc : k.pc p = .forkKalloc np ∧ m = .kalloc false ∨
      k.pc p = .forkCopyuvm np ∧ m = .copyuvm false) : (k.pc p).child = some np := by
  rcases hpc with ⟨hpc, -⟩ | ⟨hpc, -⟩ <;> rw [hpc] <;> rfl

/-- The process that was filling in `np` has left it. -/
theorem Control.child_of_left (h : Control k) {p q np i : Fin nproc}
    (hp : (k.pc p).child = some np) {pc' : Pc nproc} (hpc' : pc'.child = none)
    (hq : (Function.update k.pc p pc' q).child = some i) : (k.pc q).child = some i ∧ i ≠ np := by
  obtain ⟨hold, hqp⟩ := of_update_of_not (P := fun pc : Pc nproc => pc.child = some i) hq
    (by rw [hpc']; exact (Option.some_ne_none i).symm)
  refine ⟨hold, ?_⟩
  rintro rfl
  exact hqp (h.owner q p i hold hp)

/-- A change of one slot that keeps or wakes it. -/
theorem sameOrWoken_modify (k : Kernel nproc nofile ncpu) (i j : Fin nproc)
    {f : Proc nproc nofile → Proc nproc nofile}
    (hf : SameOrWoken (k.proc i).state (f (k.proc i)).state) :
    SameOrWoken (k.proc j).state ((k.modify i f).proc j).state := by
  rw [modify_proc]
  split
  · rename_i hj
    rwa [hj]
  · exact Or.inl rfl

/-- A change of one slot keeps the state of the others. -/
theorem sameOrWoken_modify_of_ne (k : Kernel nproc nofile ncpu) {i j : Fin nproc} (hj : j ≠ i)
    (f : Proc nproc nofile → Proc nproc nofile) :
    SameOrWoken (k.proc j).state ((k.modify i f).proc j).state := by
  rw [modify_proc_of_ne k hj]
  exact Or.inl rfl

/-- Waking up wakes. -/
theorem sameOrWoken_of_woken (h : Woken k k') (i : Fin nproc) :
    SameOrWoken (k.proc i).state (k'.proc i).state := by
  rcases h.proc i with heq | ⟨hs, heq⟩
  · exact Or.inl (by rw [heq])
  · exact Or.inr ⟨hs, by rw [heq]⟩

/-! ## Every step -/

/-- Only program points change, and fill in no other slots. -/
theorem Control.setPc (h : Control k) (p : Fin nproc) {pc' : Pc nproc}
    (hpc' : pc'.child = none ∨ pc'.child = (k.pc p).child) : Control (k.setPc p pc') :=
  h.of_le (fun _ => Or.inl rfl) (fun _ _ hp => hp) (fun _ _ hnp => child_of_update hpc' hnp)
    fun _ hi => hi

/-- The lock is of no matter here. -/
theorem Control.setLock (h : Control k) (holder : Option (Fin ncpu)) : Control (k.setLock holder) :=
  ⟨h.ran, h.inj, h.child, h.owner, h.boot⟩

/-- A CPU goes on in `scheduler`. -/
theorem Control.setCpu (h : Control k) (c : Fin ncpu) {point : Cpu nproc}
    (hpoint : ∀ q, point ≠ .ran q) : Control (k.setCpu c point) :=
  h.of_le (fun _ => Or.inl rfl) (fun _ _ hp => (ran_of_update hpoint hp).1) (fun _ _ hnp => hnp)
    fun _ hi => hi

/-- A slot changes that keeps its state, or is woken. -/
theorem Control.modify (h : Control k) (i : Fin nproc) {f : Proc nproc nofile → Proc nproc nofile}
    (hf : SameOrWoken (k.proc i).state (f (k.proc i)).state) : Control (k.modify i f) :=
  h.of_le (fun j => sameOrWoken_modify k i j hf) (fun _ _ hp => hp) (fun _ _ hnp => hnp)
    fun _ hi => hi

/-- A slot is taken into use, and nobody owns it yet. -/
theorem Control.allocproc (h : Control k) {i : Fin nproc} (hi : (k.proc i).state = .unused) :
    Control (k.allocproc i) ∧ ((k.allocproc i).proc i).state = .embryo ∧
      (∀ p, ((k.allocproc i).pc p).child ≠ some i) ∧ k.boot.slot ≠ some i := by
  obtain ⟨hcpu, hchild, hboot⟩ := h.unowned (i := i) (by rw [hi]; decide) (by rw [hi]; decide)
  have hpc : ∀ p np, ((k.allocproc i).pc p).child = some np → (k.pc p).child = some np :=
    fun p np hp => child_of_update (Or.inl rfl) hp
  refine ⟨h.leave i (fun j hj => Or.inl ?_) (fun c p hp => ⟨hp, ?_⟩)
    (fun p np hp => ⟨hpc p np hp, ?_⟩) (fun j hj => ⟨hj, ?_⟩), ?_, fun p hp => hchild p (hpc p i hp),
    hboot⟩
  · rw [allocproc_proc, if_neg hj]
  · rintro rfl
    exact hcpu c hp
  · rintro rfl
    exact hchild p (hpc p np hp)
  · rintro rfl
    exact hboot hj
  · rw [allocproc_proc, if_pos rfl]

/-- A process begins to fill in a slot that nobody owns. -/
theorem Control.fillIn (h : Control k) (p : Fin nproc) {np : Fin nproc} {pc' : Pc nproc}
    (hembryo : (k.proc np).state = .embryo) (hfree : ∀ q, (k.pc q).child ≠ some np)
    (hboot : k.boot.slot ≠ some np) (hpc' : pc'.child = some np) : Control (k.setPc p pc') := by
  have hpc : ∀ q i, ((k.setPc p pc').pc q).child = some i →
      (k.pc q).child = some i ∨ q = p ∧ i = np := by
    intro q i hq
    by_cases hqp : q = p
    · have hself : (k.setPc p pc').pc q = pc' := by
        rw [hqp]
        exact Function.update_self p pc' k.pc
      rw [hself, hpc'] at hq
      exact Or.inr ⟨hqp, (Option.some.inj hq).symm⟩
    · have hother : (k.setPc p pc').pc q = k.pc q := Function.update_of_ne hqp _ _
      rw [hother] at hq
      exact Or.inl hq
  refine ⟨h.ran, h.inj, fun q i hq => ?_, fun q q' i hq hq' => ?_, fun i hi => ?_⟩
  · rcases hpc q i hq with hq | ⟨-, rfl⟩
    · exact h.child q i hq
    · exact hembryo
  · rcases hpc q i hq with hold | ⟨hqp, hi⟩ <;> rcases hpc q' i hq' with hold' | ⟨hqp', hi'⟩
    · exact h.owner q q' i hold hold'
    · exact absurd (hi' ▸ hold) (hfree q)
    · exact absurd (hi ▸ hold') (hfree q')
    · rw [hqp, hqp']
  · obtain ⟨hstate, hchild⟩ := h.boot i hi
    refine ⟨hstate, fun q hq => ?_⟩
    rcases hpc q i hq with hq | ⟨-, rfl⟩
    · exact hchild q hq
    · exact hboot hi

/-- `scheduler` puts a process on its CPU. -/
theorem Control.dispatch (h : Control k) {c : Fin ncpu} {j : Fin nproc}
    (hj : (k.proc j).state = .runnable) {f : Proc nproc nofile → Proc nproc nofile}
    (hf : (f (k.proc j)).state = .running) : Control ((k.modify j f).setCpu c (.ran j)) := by
  obtain ⟨hfree, hchild, hboot⟩ := h.unowned (i := j) (by rw [hj]; decide) (by rw [hj]; decide)
  have hrun : ((k.modify j f).proc j).state = .running := by rw [modify_proc_self, hf]
  have hold : ∀ i, i ≠ j → ((k.modify j f).proc i).state = (k.proc i).state := by
    intro i hi
    rw [modify_proc_of_ne k hi]
  have hcpu : ∀ c' p, ((k.modify j f).setCpu c (.ran j)).cpu c' = .ran p →
      c' = c ∧ p = j ∨ c' ≠ c ∧ k.cpu c' = .ran p := by
    intro c' p hp
    by_cases hc : c' = c
    · rw [hc, show ((k.modify j f).setCpu c (.ran j)).cpu c = .ran j from
        Function.update_self c _ k.cpu] at hp
      cases hp
      exact Or.inl ⟨hc, rfl⟩
    · exact Or.inr ⟨hc, (Function.update_of_ne hc _ k.cpu).symm.trans hp⟩
  refine ⟨fun c' p hp => ?_, fun c₁ c₂ p h₁ h₂ => ?_, fun p np hnp => ?_, h.owner, fun i hi => ?_⟩
  · rcases hcpu c' p hp with ⟨-, rfl⟩ | ⟨-, hp⟩
    · exact hrun
    · have hne : p ≠ j := fun heq => hfree c' (heq ▸ hp)
      exact (hold p hne).trans (h.ran c' p hp)
  · rcases hcpu c₁ p h₁ with ⟨hc₁, hp₁⟩ | ⟨-, hold₁⟩ <;>
      rcases hcpu c₂ p h₂ with ⟨hc₂, hp₂⟩ | ⟨-, hold₂⟩
    · rw [hc₁, hc₂]
    · exact absurd (hp₁ ▸ hold₂) (hfree c₂)
    · exact absurd (hp₂ ▸ hold₁) (hfree c₁)
    · exact h.inj c₁ c₂ p hold₁ hold₂
  · have hne : np ≠ j := fun heq => hchild p (heq ▸ hnp)
    exact (hold np hne).trans (h.child p np hnp)
  · have hne : i ≠ j := fun heq => hboot (heq ▸ hi)
    obtain ⟨hstate, hfree⟩ := h.boot i hi
    exact ⟨(hold i hne).trans hstate, hfree⟩

/-- The process on a CPU leaves it for `scheduler`, in another state. -/
theorem Control.sched (h : Control k) {c : Fin ncpu} {p : Fin nproc} (hcpu : k.cpu c = .ran p)
    (f : Proc nproc nofile → Proc nproc nofile) (w : Susp) :
    Control ((k.modify p f).sched c p w) := by
  refine h.leave p (fun j hj => sameOrWoken_modify_of_ne k hj f) (fun c' q hq => ?_)
    (fun q np hq => ⟨hq, fun heq => h.ran_ne_child hcpu (heq ▸ hq) rfl⟩)
    fun j hj => ⟨hj, ?_⟩
  · obtain ⟨hold, hne⟩ : k.cpu c' = .ran q ∧ c' ≠ c := ran_of_update (by simp) hq
    refine ⟨hold, ?_⟩
    rintro rfl
    exact hne (h.inj c' c q hold hcpu)
  · rintro rfl
    exact absurd ((h.ran c j hcpu).symm.trans (h.boot j hj).1) (by decide)

/-- A `fork` lets go of the slot it was filling in. -/
theorem Control.letGo (h : Control k) {p np : Fin nproc} (hp : (k.pc p).child = some np)
    (f : Proc nproc nofile → Proc nproc nofile) :
    Control ((k.modify np f).setPc p .user) := by
  refine h.leave np (fun j hj => sameOrWoken_modify_of_ne k hj f) (fun c q hq => ⟨hq, ?_⟩)
    (fun q i hq => h.child_of_left hp rfl hq) fun j hj => ⟨hj, ?_⟩
  · rintro rfl
    exact h.ran_ne_child hq hp rfl
  · rintro rfl
    exact (h.boot j hj).2 p hp

/-- A slot that nobody owns changes its state. -/
theorem Control.modify_of_unowned (h : Control k) {i : Fin nproc}
    (hrun : (k.proc i).state ≠ .running) (hembryo : (k.proc i).state ≠ .embryo)
    (f : Proc nproc nofile → Proc nproc nofile) : Control (k.modify i f) := by
  obtain ⟨hcpu, hchild, hboot⟩ := h.unowned hrun hembryo
  refine h.leave i (fun j hj => sameOrWoken_modify_of_ne k hj f) (fun c p hp => ⟨hp, ?_⟩)
    (fun p np hp => ⟨hp, ?_⟩) fun j hj => ⟨hj, ?_⟩
  · rintro rfl
    exact hcpu c hp
  · rintro rfl
    exact hchild p hp
  · rintro rfl
    exact hboot hj

/-- The children of an exiting process are passed on. -/
theorem Control.abandoned (h : Control k) {p : Fin nproc} (ht : Abandoned p k k') : Control k' := by
  have hcpu : k'.cpu = k.cpu := by rw [ht.rest]
  have hpc : k'.pc = k.pc := by rw [ht.rest]
  have hboot : k'.boot = k.boot := by rw [ht.rest]
  exact h.of_le ht.state (fun c q hq => hcpu ▸ hq) (fun q np hq => hpc ▸ hq) fun i hi => hboot ▸ hi

/-- **Every step keeps the ownership.** -/
theorem Control.step {a : Act nofile ncpu} (h : Control k) (ha : Trans k a k') : Control k' := by
  cases ha with
  | stay => exact h
  | bootAlloc i hboot hlock hi =>
      obtain ⟨halloc, hembryo, hchild, -⟩ := h.allocproc (state_of_firstUnused hi)
      refine ⟨halloc.ran, halloc.inj, halloc.child, halloc.owner, fun j hj => ?_⟩
      cases hj
      exact ⟨hembryo, hchild⟩
  | bootFill i hboot =>
      have hfill := h.modify i (f := fun p => { p with sz := pgsize }) (Or.inl rfl)
      refine ⟨hfill.ran, hfill.inj, hfill.child, hfill.owner, fun j hj => hfill.boot j ?_⟩
      show k.boot.slot = some j
      rw [hboot]
      exact hj
  | bootPublish i hboot hlock =>
      -- until now no CPU runs the first process, and no fork fills its slot
      obtain ⟨hi, hfree⟩ := h.boot i (by rw [hboot]; rfl)
      refine h.leave i (fun j hj => ?_) (fun c p hp => ⟨hp, ?_⟩) (fun p np hp => ⟨hp, ?_⟩)
        fun j hj => ?_
      · exact sameOrWoken_modify_of_ne k hj fun p => { p with state := .runnable }
      · rintro rfl
        exact absurd ((h.ran c p hp).symm.trans hi) (by decide)
      · rintro rfl
        exact hfree p hp
      · cases hj
  | acquire c => exact (h.setLock (some c)).setCpu c (by simp)
  | skip c => exact h.setCpu c (by simp)
  | release c => exact (h.setLock none).setCpu c (by simp)
  | dispatch c j hcpu hj => exact h.dispatch hj rfl
  | resume c p => exact ⟨h.ran, h.inj, h.child, h.owner, h.boot⟩
  | resumeSleep c p =>
      have hawake := h.modify p (f := fun q => { q with chan := none }) (Or.inl rfl)
      exact ⟨hawake.ran, hawake.inj, hawake.child, hawake.owner, hawake.boot⟩
  | forkAlloc c p np hcpu hsusp hpc hlock hnp =>
      obtain ⟨halloc, hembryo, hchild, hboot⟩ := h.allocproc (state_of_firstUnused hnp)
      exact halloc.fillIn p hembryo hchild hboot rfl
  | forkNext c p np m pc' hcpu hsusp hpc =>
      refine h.setPc p (Or.inr ?_)
      rcases hpc with ⟨hpc, -, rfl⟩ | ⟨hpc, -, rfl⟩ <;> rw [hpc] <;> rfl
  | forkFail c p np m hcpu hsusp hpc =>
      exact h.letGo (child_of_failing hpc) _
  | forkSize c p np hcpu hsusp hpc =>
      have hchild : (k.pc p).child = some np := by rw [hpc]; rfl
      exact (h.modify np (Or.inl rfl)).setPc p (Or.inr hchild.symm)
  | forkParent c p np hcpu hsusp hpc =>
      have hchild : (k.pc p).child = some np := by rw [hpc]; rfl
      exact (h.modify np (Or.inl rfl)).setPc p (Or.inr hchild.symm)
  | forkFile c p np fd hcpu hsusp hpc =>
      have hchild : (k.pc p).child = some np := by rw [hpc]; rfl
      exact (h.modify np (Or.inl rfl)).setPc p (Or.inr hchild.symm)
  | forkFiles c p np fd hcpu hsusp hpc =>
      have hchild : (k.pc p).child = some np := by rw [hpc]; rfl
      exact h.setPc p (Or.inr hchild.symm)
  | forkPublish c p np hcpu hsusp hpc => exact h.letGo (congrArg Pc.child hpc) _
  | exit c p => exact h.setPc p (Or.inl rfl)
  | exitClose c p => exact (h.modify p (Or.inl rfl)).setPc p (Or.inl rfl)
  | exitClosed c p => exact h.setPc p (Or.inl rfl)
  | exitLast c p t hcpu hsusp hpc hlock ht =>
      exact (h.abandoned ht).sched (by rw [ht.rest]; exact hcpu) _ _
  | wait c p => exact (h.setLock (some c)).setPc p (Or.inl rfl)
  | waitReap c p i hcpu hsusp hpc hlock hparent hi =>
      exact ((h.modify_of_unowned (by rw [hi]; decide) (by rw [hi]; decide) _).setPc p
        (Or.inl rfl)).setLock none
  | leave c p => exact (h.setPc p (Or.inl rfl)).setLock none
  | sleep c p m chan hcpu => exact h.sched hcpu _ _
  | yield c p hcpu => exact h.sched hcpu _ _
  | kill c p i pid hcpu hsusp hpc hlock hi =>
      exact h.modify i (sameOrWoken_kill (k.proc i).state)
  | wakeup c address =>
      exact h.of_le (sameOrWoken_of_woken (woken_wakeup1 k _)) (fun _ _ hp => hp)
        (fun _ _ hp => hp) fun _ hj => hj
  | resize c p => exact h.modify p (Or.inl rfl)
  | setFile c p => exact h.modify p (Or.inl rfl)
  | query c p m pc' hcpu hsusp hpc hlock hm =>
      refine (h.setLock (some c)).setPc p (Or.inl ?_)
      rcases hm with ⟨-, rfl⟩ | ⟨-, rfl⟩ | ⟨pid, i, -, -, rfl⟩ <;> rfl
  | queryNext c p j pc' hcpu hsusp hlock hpc =>
      refine h.setPc p (Or.inl ?_)
      rcases hpc with ⟨count, -, rfl⟩ | ⟨maxpid, -, rfl⟩ <;> rfl

/-- **Nobody owns anything at the start.** -/
theorem Control.start : Control (.init : Kernel nproc nofile ncpu) := by
  constructor
  · intro c p hp
    cases hp
  · intro c c' p hp
    cases hp
  · intro p np hp
    cases hp
  · intro p p' np hp
    cases hp
  · intro i hi
    cases hi

/-- **Ownership holds of every reachable kernel.** -/
theorem Control.of_run {as : List (Act nofile ncpu)} (h : run ProcessTable.step .init as = some k) :
    Control k :=
  run_invariant .start (fun _ _ _ hk hstep => hk.step (step_trans hstep)) h

end StudiesOS.ProcessTable
