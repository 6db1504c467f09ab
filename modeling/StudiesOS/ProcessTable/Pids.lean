import StudiesOS.ProcessTable.Control
import StudiesOS.Transition.Registry

/-! # The pids
As far as pids go, a step takes a slot into use, gives one up, kills one, or changes nothing
(`Effect`). Seen so the table is a registry: `allocproc` takes a place under `nextpid`, a failing fork
and `wait` give one up. So long as `nextpid` has not wrapped, the pids of all slots that bear one are
distinct. -/

namespace StudiesOS.ProcessTable

open Kernel

variable {nproc nofile ncpu : ℕ} {k k' t : Kernel nproc nofile ncpu} {a : Act nofile ncpu}

/-! ## The effect of a step -/

/-- **The slot `i` keeps** its pid and its `killed`, and is active as before. -/
structure Kept (k k' : Kernel nproc nofile ncpu) (i : Fin nproc) : Prop where
  /-- The pid is the same. -/
  pid : (k'.proc i).pid = (k.proc i).pid
  /-- `killed` is the same. -/
  killed : (k'.proc i).killed = (k.proc i).killed
  /-- The slot is active as before. -/
  active : (k'.proc i).state ≠ .unused ↔ (k.proc i).state ≠ .unused

namespace Kept

variable {i : Fin nproc}

/-- Only the slot matters. -/
theorem of_proc (h : Kept k t i) (hproc : k'.proc i = t.proc i) : Kept k k' i := by
  refine ⟨?_, ?_, ?_⟩ <;> rw [hproc]
  · exact h.pid
  · exact h.killed
  · exact h.active

/-- A slot that does not change. -/
theorem of_eq (h : k'.proc i = k.proc i) : Kept k k' i :=
  of_proc ⟨rfl, rfl, Iff.rfl⟩ h

theorem setPc {p : Fin nproc} {pc' : Pc nproc} (h : Kept k t i) : Kept k (t.setPc p pc') i :=
  h.of_proc rfl

theorem setCpu {c : Fin ncpu} {point : Cpu nproc} (h : Kept k t i) : Kept k (t.setCpu c point) i :=
  h.of_proc rfl

theorem sched {c : Fin ncpu} {p : Fin nproc} {w : Susp} (h : Kept k t i) :
    Kept k (t.sched c p w) i :=
  h.of_proc rfl

/-- A change of one slot keeps the others. -/
theorem modify_of_ne {j : Fin nproc} (hj : i ≠ j) (f : Proc nproc nofile → Proc nproc nofile) :
    Kept k (k.modify j f) i :=
  of_eq (modify_proc_of_ne k hj f)

/-- A change of one slot that keeps its pid, its `killed` and its activity. -/
theorem modify (j : Fin nproc) {f : Proc nproc nofile → Proc nproc nofile}
    (hpid : (f (k.proc j)).pid = (k.proc j).pid) (hkilled : (f (k.proc j)).killed = (k.proc j).killed)
    (hactive : (f (k.proc j)).state ≠ .unused ↔ (k.proc j).state ≠ .unused) :
    Kept k (k.modify j f) i := by
  by_cases hij : i = j
  · rw [hij]
    refine ⟨?_, ?_, ?_⟩ <;> rw [modify_proc_self]
    · exact hpid
    · exact hkilled
    · exact hactive
  · exact modify_of_ne hij f

/-- The children of an exiting process are passed on. -/
theorem abandoned {p : Fin nproc} (h : Abandoned p k t) : Kept k t i := by
  refine ⟨?_, ?_, SameOrWoken.active (h.state i)⟩ <;> rw [h.proc i]

end Kept

/-- **What a step does to pids.** -/
inductive Effect (k : Kernel nproc nofile ncpu) (a : Act nofile ncpu)
    (k' : Kernel nproc nofile ncpu) : Prop
  /-- Nothing. -/
  | quiet (hnext : k'.nextpid = k.nextpid) (hallocs : k'.allocs = k.allocs)
      (hkept : ∀ i, Kept k k' i)
  /-- `allocproc` takes a slot into use. -/
  | taken (i : Fin nproc) (hnext : k'.nextpid = wrap 32 (k.nextpid + 1))
      (hallocs : k'.allocs = k.allocs + 1) (hfree : (k.proc i).state = .unused)
      (hactive : (k'.proc i).state ≠ .unused) (hpid : (k'.proc i).pid = k.nextpid)
      (hkilled : (k'.proc i).killed = (k.proc i).killed) (hkept : ∀ j, j ≠ i → Kept k k' j)
  /-- `wait` gives up a slot. -/
  | reaped (i : Fin nproc) (hnext : k'.nextpid = k.nextpid) (hallocs : k'.allocs = k.allocs)
      (hfree : (k'.proc i).state = .unused) (hpid : (k'.proc i).pid = 0)
      (hkilled : (k'.proc i).killed = false) (hkept : ∀ j, j ≠ i → Kept k k' j)
  /-- A failing fork gives up a slot. -/
  | failed (c : Fin ncpu) (p i : Fin nproc) (hnext : k'.nextpid = k.nextpid)
      (hallocs : k'.allocs = k.allocs) (hcpu : k.cpu c = .ran p) (hp : (k.pc p).child = some i)
      (ha : a = .on c (.kalloc false) ∨ a = .on c (.copyuvm false))
      (hfree : (k'.proc i).state = .unused) (hpid : (k'.proc i).pid = (k.proc i).pid)
      (hkilled : (k'.proc i).killed = (k.proc i).killed) (hkept : ∀ j, j ≠ i → Kept k k' j)
  /-- `kill` finds a slot. -/
  | killed (c : Fin ncpu) (pid : ℤ) (i : Fin nproc) (hnext : k'.nextpid = k.nextpid)
      (hallocs : k'.allocs = k.allocs) (ha : a = .on c (.kill pid)) (hi : k.findPid pid = some i)
      (hpid : (k'.proc i).pid = (k.proc i).pid)
      (hactive : (k'.proc i).state ≠ .unused ↔ (k.proc i).state ≠ .unused)
      (hkept : ∀ j, j ≠ i → Kept k k' j)

/-- `allocproc` takes a slot into use. -/
theorem effect_allocproc {i : Fin nproc} (hi : k.firstUnused = some i)
    (hproc : k'.proc = (k.allocproc i).proc) (hnext : k'.nextpid = wrap 32 (k.nextpid + 1))
    (hallocs : k'.allocs = k.allocs + 1) : Effect k a k' := by
  have hself : k'.proc i = { k.proc i with state := .embryo, pid := k.nextpid, nrswitch := 0 } := by
    rw [hproc, allocproc_proc, if_pos rfl]
  refine .taken i hnext hallocs (state_of_firstUnused hi) ?_ ?_ ?_ fun j hj => .of_eq ?_
  · rw [hself]
    simp
  · rw [hself]
  · rw [hself]
  · rw [hproc, allocproc_proc, if_neg hj]

/-- **Every step has one of these effects.** -/
theorem effect_step (h : Control k) (ha : Trans k a k') : Effect k a k' := by
  -- a state that is known and is not `UNUSED` stays so
  have hkept : ∀ {s s' : ProcState}, s ≠ .unused → s' ≠ .unused →
      (s' ≠ .unused ↔ s ≠ .unused) := fun hs hs' => ⟨fun _ => hs, fun _ => hs'⟩
  cases ha with
  | bootAlloc i hboot hlock hi => exact effect_allocproc hi rfl rfl rfl
  | forkAlloc c p np hcpu hsusp hpc hlock hnp => exact effect_allocproc hnp rfl rfl rfl
  | forkFail c p np m hcpu hsusp hpc =>
      refine .failed c p np rfl rfl hcpu ?_ ?_ ?_ ?_ ?_ fun j hj => .setPc (.modify_of_ne hj _)
      · exact child_of_failing hpc
      · rcases hpc with ⟨-, rfl⟩ | ⟨-, rfl⟩
        · exact Or.inl rfl
        · exact Or.inr rfl
      · rw [setPc_proc, modify_proc_self]
      · rw [setPc_proc, modify_proc_self]
      · rw [setPc_proc, modify_proc_self]
  | waitReap c p i =>
      refine .reaped i rfl rfl ?_ ?_ ?_ fun j hj => .of_eq ?_ <;> rw [setLock_proc, setPc_proc]
      · rw [modify_proc_self]
      · rw [modify_proc_self]
      · rw [modify_proc_self]
      · rw [modify_proc_of_ne k hj]
  | kill c p i pid hcpu hsusp hpc hlock hi =>
      refine .killed c pid i rfl rfl rfl hi ?_ ?_ fun j hj => .modify_of_ne hj _ <;>
        rw [modify_proc_self]
      show (if _ then _ else _) ≠ _ ↔ _
      split
      · rename_i hs
        exact hkept (by rw [hs]; decide) (by decide)
      · exact Iff.rfl
  | bootFill i =>
      have hfill : ∀ j, Kept k (k.modify i fun p => { p with sz := pgsize }) j :=
        fun _ => .modify i rfl rfl Iff.rfl
      exact .quiet rfl rfl fun j => (hfill j).of_proc rfl
  | bootPublish i hboot =>
      have hi := (h.boot i (by rw [hboot]; rfl)).1
      have hready : ∀ j, Kept k (k.modify i fun p => { p with state := .runnable }) j :=
        fun _ => .modify i rfl rfl (hkept (by rw [hi]; decide) (by simp))
      exact .quiet rfl rfl fun j => (hready j).of_proc rfl
  | forkPublish c p np hcpu hsusp hpc =>
      have hnp := h.child p np (by rw [hpc]; rfl)
      exact .quiet rfl rfl fun _ =>
        .setPc (.modify np rfl rfl (hkept (by rw [hnp]; decide) (by simp)))
  | dispatch c j hcpu hj =>
      exact .quiet rfl rfl fun _ =>
        .setCpu (.modify j rfl rfl (hkept (by rw [hj]; decide) (by simp)))
  | sleep c p m chan hcpu =>
      exact .quiet rfl rfl fun _ =>
        .sched (.modify p rfl rfl (hkept (by rw [h.ran c p hcpu]; decide) (by simp)))
  | yield c p hcpu =>
      exact .quiet rfl rfl fun _ =>
        .sched (.modify p rfl rfl (hkept (by rw [h.ran c p hcpu]; decide) (by simp)))
  | exitLast c p t hcpu hsusp hpc hlock ht =>
      refine .quiet (by rw [ht.rest]; rfl) (by rw [ht.rest]; rfl) fun i => .sched ?_
      by_cases hi : i = p
      · rw [hi]
        refine ⟨?_, ?_, ?_⟩ <;> rw [modify_proc_self]
        · rw [ht.proc p]
        · rw [ht.proc p]
        · exact hkept (by rw [h.ran c p hcpu]; decide) (by simp)
      · exact (Kept.abandoned ht).of_proc (modify_proc_of_ne t hi _)
  | wakeup c address =>
      exact .quiet rfl rfl fun i => .abandoned (.of_woken (p := i) (woken_wakeup1 k _))
  | resumeSleep c p =>
      have hawake : ∀ j, Kept k (k.modify p fun q => { q with chan := none }) j :=
        fun _ => .modify p rfl rfl Iff.rfl
      exact .quiet rfl rfl fun j => (hawake j).of_proc rfl
  | forkSize c p np | forkParent c p np | forkFile c p np | exitClose c p =>
      exact .quiet rfl rfl fun _ => .setPc (.modify _ rfl rfl Iff.rfl)
  | resize c p | setFile c p => exact .quiet rfl rfl fun _ => .modify p rfl rfl Iff.rfl
  | acquire | skip | release | resume | stay | forkNext | forkFiles | exit | exitClosed | wait
  | leave | query | queryNext => exact .quiet rfl rfl fun _ => .of_eq rfl

/-- What a step does to `nextpid`. -/
theorem nextpid_step (h : Control k) (ha : Trans k a k') :
    k'.nextpid = k.nextpid ∧ k'.allocs = k.allocs ∨
      k'.nextpid = wrap 32 (k.nextpid + 1) ∧ k'.allocs = k.allocs + 1 := by
  cases effect_step h ha with
  | taken i hnext hallocs => exact Or.inr ⟨hnext, hallocs⟩
  | quiet hnext hallocs | reaped i hnext hallocs | failed c p i hnext hallocs
  | killed c pid i hnext hallocs => exact Or.inl ⟨hnext, hallocs⟩

/-- Slots given out are not forgotten. -/
theorem allocs_le (h : Control k) (ha : Trans k a k') : k.allocs ≤ k'.allocs := by
  rcases nextpid_step h ha with ⟨-, h⟩ | ⟨-, h⟩ <;> omega

/-! ## The registry -/

/-- **The table as a registry.** -/
def Kernel.registry (k : Kernel nproc nofile ncpu) : Registry (Fin nproc) where
  next := k.nextpid
  id i := (k.proc i).pid
  live i := (k.proc i).state ≠ .unused

/-- How many slots can be given out before `nextpid` wraps. -/
def maxAllocs : ℕ := 2 ^ 31 - 1

/-- Nothing that the registry sees. -/
theorem Kept.keeps {i : Fin nproc} (h : Kept k k' i) : Registry.Keeps k.registry k'.registry i :=
  ⟨h.pid, h.active⟩

/-- **Every step of the kernel is one of its registry**, as long as pids do not wrap. -/
theorem registry_step (h : Control k)
    (hfits : k'.allocs = k.allocs + 1 → wrap 32 (k.nextpid + 1) = k.nextpid + 1)
    (ha : Trans k a k') : Registry.Step k.registry k'.registry := by
  cases effect_step h ha with
  | quiet hnext hallocs hkept => exact .stutter hnext fun i => (hkept i).keeps
  | taken i hnext hallocs hfree hactive hpid hkilled hkept =>
      exact .take i (hnext.trans (hfits hallocs)) (fun hi => hi hfree) hpid
        fun j hj => (hkept j hj).keeps
  | reaped i hnext hallocs hfree hpid hkilled hkept =>
      exact .giveUp i hnext (fun hi => hi hfree) (Or.inr hpid) fun j hj => (hkept j hj).keeps
  | failed c p i hnext hallocs hcpu hp ha hfree hpid hkilled hkept =>
      exact .giveUp i hnext (fun hi => hi hfree) (Or.inl hpid) fun j hj => (hkept j hj).keeps
  | killed c pid i hnext hallocs ha hi hpid hactive hkept =>
      refine .stutter hnext fun j => ?_
      by_cases hj : j = i
      · rw [hj]
        exact ⟨hpid, hactive⟩
      · exact (hkept j hj).keeps

/-! ## Reachable kernels -/

/-- **What is known of a reachable kernel** whose pids have not wrapped. -/
structure Numbered (k : Kernel nproc nofile ncpu) : Prop where
  /-- Who owns a slot. -/
  control : Control k
  /-- Pids are given out one by one. -/
  next : k.nextpid = k.allocs + 1
  /-- Pids are fresh. -/
  sound : k.registry.Sound

/-- At the start. -/
theorem Numbered.start : Numbered (.init : Kernel nproc nofile ncpu) where
  control := .start
  next := rfl
  sound :=
    { next_pos := le_rfl
      range := fun _ => ⟨le_rfl, Int.one_pos⟩
      pos := fun _ hi => absurd rfl hi
      inj := fun _ _ _ hne => absurd rfl hne }

/-- **Every step keeps it**, and is a step of the registry. -/
theorem Numbered.step (h : Numbered k) (ha : Trans k a k') (hlt : k'.allocs < maxAllocs) :
    Numbered k' ∧ Registry.Step k.registry k'.registry := by
  have hnext := h.next
  have hfits : k'.allocs = k.allocs + 1 → wrap 32 (k.nextpid + 1) = k.nextpid + 1 := by
    intro hallocs
    refine wrap_eq_self ⟨?_, ?_⟩ <;> unfold maxAllocs at hlt <;> omega
  have hstep := registry_step h.control hfits ha
  refine ⟨⟨h.control.step ha, ?_, h.sound.step hstep⟩, hstep⟩
  rcases nextpid_step h.control ha with ⟨hn, hallocs⟩ | ⟨hn, hallocs⟩
  · rw [hn, hallocs, hnext]
  · rw [hn, hfits hallocs, hallocs, hnext]
    push_cast
    ring

/-- Who owns a slot stays known, and slots given out are not forgotten. -/
theorem control_allocs_le (h : Control k) (ha : ProcessTable.step k a = some k') :
    Control k' ∧ k.allocs ≤ k'.allocs :=
  ⟨h.step (step_trans ha), allocs_le h (step_trans ha)⟩

/-- **It holds of every reachable kernel** whose pids have not wrapped. -/
theorem Numbered.of_run {as : List (Act nofile ncpu)} (h : run ProcessTable.step .init as = some k)
    (hlt : k.allocs < maxAllocs) : Numbered k :=
  bounded_invariant (μ := Kernel.allocs) .start .start (fun _ _ _ => control_allocs_le)
    (fun _ _ _ _ ih hstep hlt => (ih.step (step_trans hstep) hlt).1) h hlt

/-- **A run from a kernel where it holds** keeps it, and the record of who was active at the start. -/
theorem Numbered.run {as : List (Act nofile ncpu)} (h : Numbered k)
    (hrun : StudiesOS.run ProcessTable.step k as = some k') (hlt : k'.allocs < maxAllocs) :
    Numbered k' ∧ Registry.Since k.registry k'.registry := by
  refine bounded_invariant (μ := Kernel.allocs)
    (I := fun t => Numbered t ∧ Registry.Since k.registry t.registry) h.control ⟨h, .refl _⟩
    (fun _ _ _ => control_allocs_le) ?_ hrun hlt
  rintro t a t' - ⟨hnum, hsince⟩ hstep hlt'
  obtain ⟨hnum', hregistry⟩ := hnum.step (step_trans hstep) hlt'
  exact ⟨hnum', hsince.step hregistry⟩

/-- Slots given out are not forgotten in a run. -/
theorem allocs_le_run {as : List (Act nofile ncpu)} (h : Control k)
    (hrun : StudiesOS.run ProcessTable.step k as = some k') : k.allocs ≤ k'.allocs := by
  refine (run_invariant (I := fun t => Control t ∧ k.allocs ≤ t.allocs) ⟨h, le_rfl⟩ ?_ hrun).2
  rintro t a t' ⟨hcontrol, hle⟩ hstep
  exact (control_allocs_le hcontrol hstep).imp_right hle.trans

end StudiesOS.ProcessTable
