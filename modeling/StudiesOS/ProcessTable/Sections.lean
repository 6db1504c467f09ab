import StudiesOS.ProcessTable.Queries
import StudiesOS.Transition.Variant

/-! # Critical sections
`ptable.lock` is passed on: `scheduler` takes it, the process that it switches to releases it, and a
process that gives up the CPU takes it for `scheduler`. Who holds the lock can be read off the program
points (`Kernel.Holds`), nobody is switched to who does not go on from a `sched` (`Sections`), and so
the holder is never stuck and gives the lock back after a bounded number of its own steps. -/

namespace StudiesOS.ProcessTable

open Kernel

variable {nproc nofile ncpu : ℕ} {k k' : Kernel nproc nofile ncpu}

/-! ## Who is in a critical section -/

/-- The points inside of a critical section that goes over several steps. -/
def Pc.inside : Pc nproc → Bool
  | .waitScan | .numScan _ _ | .maxScan _ _ | .infoFill _ => true
  | .user | .forkKalloc _ | .forkCopyuvm _ | .forkSize _ | .forkParent _ | .forkFile _ _
  | .forkPublish _ | .exitClose _ | .exitLast => false

/-- **The CPU `c` is in a critical section**: in `scheduler`, behind a switch that has not been
completed, or in `wait` or a query. -/
def Kernel.Holds (k : Kernel nproc nofile ncpu) (c : Fin ncpu) : Prop :=
  match k.cpu c with
  | .idle => False
  | .scan _ => True
  | .ran p => k.susp p ≠ .awake ∨ (k.pc p).inside = true

/-- Where the process of a slot in this state can go on. -/
def ProcState.goesOn : ProcState → Susp → Prop
  | .embryo, w => w = .forkret
  | .runnable, w => w = .forkret ∨ w = .yield ∨ w = .sleep
  | .sleeping, w => w = .sleep
  | .running, w => w ≠ .exited
  | .zombie, _ | .unused, _ => True

/-- **The lock is with who is in a critical section**, and the processes that are switched out are where
`sched` has left them. -/
structure Sections (k : Kernel nproc nofile ncpu) : Prop where
  /-- The holder. -/
  holder : ∀ c, k.lock = some c ↔ k.Holds c
  /-- Where the processes go on. -/
  goesOn : ∀ p, (k.proc p).state.goesOn (k.susp p)
  /-- Who goes on in `forkret` or `yield` is in no section of its own. -/
  outside : ∀ p, k.susp p = .forkret ∨ k.susp p = .yield → (k.pc p).inside = false
  /-- Who goes on in `sleep` is in none but that of `wait`. -/
  asleep : ∀ p, k.susp p = .sleep → (k.pc p).inside = true → k.pc p = .waitScan

/-- At the start the lock is free, and nobody has been switched out. -/
theorem Sections.start : Sections (.init : Kernel nproc nofile ncpu) := by
  refine ⟨fun c => ?_, fun _ => trivial, fun p hp => ?_, fun p hp => ?_⟩
  · simp [Kernel.init, Kernel.Holds]
  · rcases hp with hp | hp <;> cases hp
  · cases hp

attribute [local grind] Pc.inside ProcState.goesOn SameOrWoken

/-- A slot that `allocproc` takes: its process goes on in `forkret`. -/
theorem Sections.allocproc (h : Sections k) (hc : Control k) {i : Fin nproc}
    (hi : (k.proc i).state = .unused) : Sections (k.allocproc i) := by
  have hfree := (hc.unowned (i := i) (by rw [hi]; decide) (by rw [hi]; decide)).1
  obtain ⟨hholder, hgoes, hout, hasleep⟩ := h
  constructor
  · intro c
    have hold := hholder c
    have hne := hfree c
    simp only [Kernel.Holds, Kernel.allocproc, Function.update_apply] at hold ⊢
    grind
  all_goals
    simp only [Kernel.allocproc, Function.update_apply]
    grind

/-- States change, and the processes can go on where they are. -/
theorem Sections.of_states (h : Sections k) (hgoes : ∀ p, (k'.proc p).state.goesOn (k.susp p))
    (hrest : k' = { k with proc := k'.proc }) : Sections k' := by
  rw [hrest]
  exact ⟨h.holder, hgoes, h.outside, h.asleep⟩

/-- Sleepers are woken, and go on where they were. -/
theorem Sections.of_woken (h : Sections k)
    (hstate : ∀ i, SameOrWoken (k.proc i).state (k'.proc i).state)
    (hrest : k' = { k with proc := k'.proc }) : Sections k' := by
  refine h.of_states (fun p => ?_) hrest
  have hold := h.goesOn p
  rcases hstate p with heq | ⟨hs, heq⟩
  · rwa [heq]
  · rw [hs] at hold
    rw [heq]
    exact Or.inr (Or.inr hold)

/-- One slot changes, whose process can go on where it is. -/
theorem Sections.modify (h : Sections k) (i : Fin nproc) {f : Proc nproc nofile → Proc nproc nofile}
    (hf : (f (k.proc i)).state.goesOn (k.susp i)) : Sections (k.modify i f) := by
  refine h.of_states (fun p => ?_) rfl
  rw [modify_proc]
  split
  · rename_i hp
    rwa [hp]
  · exact h.goesOn p

/-- A process goes on outside of a section. -/
theorem Sections.setPc (h : Sections k) (p : Fin nproc) {pc' : Pc nproc}
    (hold : (k.pc p).inside = false) (hnew : pc'.inside = false) : Sections (k.setPc p pc') := by
  have hin : ∀ q, ((k.setPc p pc').pc q).inside = (k.pc q).inside := by
    intro q
    by_cases hq : q = p
    · rw [hq, setPc_pc_self, hnew, hold]
    · rw [setPc_pc_of_ne k hq]
  refine ⟨fun c => ?_, h.goesOn, fun q hq => ?_, fun q hq hinside => ?_⟩
  · refine (h.holder c).trans ?_
    simp only [Kernel.Holds, hin]
    exact Iff.rfl
  · rw [hin]
    exact h.outside q hq
  · rw [hin] at hinside
    have hne : q ≠ p := by
      rintro rfl
      exact absurd hinside (by simp [hold])
    rw [setPc_pc_of_ne k hne]
    exact h.asleep q hq hinside

/-- **The process on a CPU switches to `scheduler`** with the lock, and goes on later where it says. -/
theorem Sections.sched (h : Sections k) (hc : Control k) {c : Fin ncpu} {p : Fin nproc}
    (hcpu : k.cpu c = .ran p) (hlock : k.lock = none ∨ k.lock = some c)
    {f : Proc nproc nofile → Proc nproc nofile} {w : Susp} (hf : (f (k.proc p)).state.goesOn w)
    (hout : w = .forkret ∨ w = .yield → (k.pc p).inside = false)
    (hasleep : w = .sleep → (k.pc p).inside = true → k.pc p = .waitScan) :
    Sections ((k.modify p f).sched c p w) := by
  obtain ⟨hholder, hgoes, hout', hasleep'⟩ := h
  have hinj := hc.inj
  constructor
  · intro c'
    have hold := hholder c'
    simp only [Kernel.Holds, Kernel.modify, Kernel.sched, Function.update_apply] at hold ⊢
    grind
  all_goals
    simp only [Kernel.modify, Kernel.sched, Function.update_apply]
    grind

/-- Nobody is in a section while the lock is free. -/
theorem Sections.inside_of_free (h : Sections k) {c : Fin ncpu} {p : Fin nproc}
    (hcpu : k.cpu c = .ran p) (hlock : k.lock = none) : (k.pc p).inside = false := by
  by_contra hin
  have hholds : k.Holds c := by
    rw [Kernel.Holds, hcpu]
    exact Or.inr (by simpa using hin)
  rw [(h.holder c).mpr hholds] at hlock
  cases hlock

/-- **A process takes the lock** for a section of its own, goes on in it, or releases the lock. -/
theorem Sections.enter (h : Sections k) (hc : Control k) {c : Fin ncpu} {p : Fin nproc}
    (hcpu : k.cpu c = .ran p) (hsusp : k.susp p = .awake) (hfree : k.lock = none ∨ k.lock = some c)
    {holder : Option (Fin ncpu)} {pc' : Pc nproc}
    (hpc' : holder = some c ∧ pc'.inside = true ∨ holder = none ∧ pc'.inside = false) :
    Sections ((k.setPc p pc').setLock holder) := by
  have hinj := hc.inj
  obtain ⟨hholder, hgoes, hout, hasleep⟩ := h
  constructor
  · intro c'
    have hold := hholder c'
    simp only [Kernel.Holds, Kernel.setPc, Kernel.setLock, Function.update_apply] at hholder hold ⊢
    grind
  all_goals
    simp only [Kernel.setPc, Kernel.setLock, Function.update_apply]
    grind

/-- **Every step keeps it.** -/
theorem Sections.step {a : Act nofile ncpu} (h : Sections k) (hc : Control k) (ha : Trans k a k') :
    Sections k' := by
  cases ha with
  | stay => exact h
  | acquire | skip | dispatch | release | resume | resumeSleep =>
      -- `scheduler` and who goes on behind its `sched` pass the lock on
      have hran := hc.ran
      have hinj := hc.inj
      obtain ⟨hholder, hgoes, hout, hasleep⟩ := h
      constructor
      · intro c'
        have hold := hholder c'
        simp only [Kernel.Holds, Kernel.setCpu, Kernel.setLock, Kernel.modify,
          Function.update_apply] at hholder hold ⊢
        grind
      all_goals
        simp only [Kernel.setCpu, Kernel.setLock, Kernel.modify, Function.update_apply]
        grind
  | bootAlloc i hboot hlock hi =>
      have halloc := h.allocproc hc (state_of_firstUnused hi)
      exact ⟨halloc.holder, halloc.goesOn, halloc.outside, halloc.asleep⟩
  | bootFill i =>
      have hfill := h.modify i (f := fun p => { p with sz := pgsize }) (h.goesOn i)
      exact ⟨hfill.holder, hfill.goesOn, hfill.outside, hfill.asleep⟩
  | bootPublish i hboot hlock =>
      -- a new process goes on in `forkret`
      have hgoes := h.goesOn i
      rw [(hc.boot i (by rw [hboot]; rfl)).1] at hgoes
      have hready := h.modify i (f := fun p => { p with state := .runnable }) (Or.inl hgoes)
      exact ⟨hready.holder, hready.goesOn, hready.outside, hready.asleep⟩
  | kill c p i => exact h.of_woken (fun j => sameOrWoken_modify k i j (sameOrWoken_kill _)) rfl
  | wakeup c address => exact h.of_woken (sameOrWoken_of_woken (woken_wakeup1 k _)) rfl
  | resize c p | setFile c p => exact h.modify p (h.goesOn p)
  | forkAlloc c p np hcpu hsusp hpc hlock hnp =>
      have hne : p ≠ np := by
        rintro rfl
        have hrun := hc.ran c p hcpu
        rw [state_of_firstUnused hnp] at hrun
        cases hrun
      refine (h.allocproc hc (state_of_firstUnused hnp)).setPc p ?_ rfl
      show (Function.update k.pc np .user p).inside = false
      rw [Function.update_of_ne hne, hpc]
      rfl
  | forkNext c p np m pc' hcpu hsusp hpc =>
      rcases hpc with ⟨hpc, -, rfl⟩ | ⟨hpc, -, rfl⟩ <;> exact h.setPc p (by rw [hpc]; rfl) rfl
  | forkFail c p np m hcpu hsusp hpc =>
      have hout : (k.pc p).inside = false := by
        rcases hpc with ⟨hpc, -⟩ | ⟨hpc, -⟩ <;> rw [hpc] <;> rfl
      exact (h.modify np (f := fun q => { q with state := .unused }) trivial).setPc p hout rfl
  | forkSize c p np hcpu hsusp hpc | forkParent c p np hcpu hsusp hpc
    | forkFile c p np fd hcpu hsusp hpc =>
      have hout : (k.pc p).inside = false := by rw [hpc]; rfl
      exact (h.modify np (h.goesOn np)).setPc p hout rfl
  | forkPublish c p np hcpu hsusp hpc hlock =>
      have hout : (k.pc p).inside = false := by rw [hpc]; rfl
      have hgoes := h.goesOn np
      rw [hc.child p np (by rw [hpc]; rfl)] at hgoes
      exact (h.modify np (f := fun q => { q with state := .runnable }) (Or.inl hgoes)).setPc p hout rfl
  | forkFiles c p np fd hcpu hsusp hpc | exit c p hcpu hsusp hpc | exitClosed c p fd hcpu hsusp hpc =>
      exact h.setPc p (by rw [hpc]; rfl) rfl
  | exitClose c p fd hcpu hsusp hpc =>
      have hout : (k.pc p).inside = false := by rw [hpc]; rfl
      exact (h.modify p (h.goesOn p)).setPc p hout rfl
  | exitLast c p t hcpu hsusp hpc hlock ht =>
      have hcpu' : t.cpu c = .ran p := by rw [ht.rest]; exact hcpu
      have hlock' : t.lock = none := by rw [ht.rest]; exact hlock
      exact (h.of_woken ht.state ht.rest).sched (hc.abandoned ht) hcpu' (Or.inl hlock') trivial
        (by simp) (by simp)
  | wait c p hcpu hsusp hpc hlock =>
      exact h.enter hc hcpu hsusp (Or.inl hlock) (Or.inl ⟨rfl, rfl⟩)
  | query c p m pc' hcpu hsusp hpc hlock hm =>
      refine h.enter hc hcpu hsusp (Or.inl hlock) (Or.inl ⟨rfl, ?_⟩)
      rcases hm with ⟨-, rfl⟩ | ⟨-, rfl⟩ | ⟨pid, i, -, -, rfl⟩ <;> rfl
  | queryNext c p j pc' hcpu hsusp hlock hpc =>
      have hnext : pc'.inside = true := by
        rcases hpc with ⟨count, -, rfl⟩ | ⟨maxpid, -, rfl⟩ <;> rfl
      have henter := h.enter hc hcpu hsusp (Or.inr hlock) (Or.inl ⟨rfl, hnext⟩)
      rwa [← hlock] at henter
  | leave c p hcpu hsusp hpc hlock =>
      exact h.enter hc hcpu hsusp (Or.inr hlock) (Or.inr ⟨rfl, rfl⟩)
  | waitReap c p i hcpu hsusp hpc hlock hparent hi =>
      have hreap := h.modify i (f := fun q =>
        { q with pid := 0, parent := none, killed := false, state := .unused }) trivial
      exact hreap.enter
        (hc.modify_of_unowned (by rw [hi]; decide) (by rw [hi]; decide) _) hcpu hsusp (Or.inr hlock)
        (Or.inr ⟨rfl, rfl⟩)
  | sleep c p m chan hcpu hsusp hlock =>
      refine h.sched hc hcpu ?_ rfl (by simp) fun _ hin => ?_
      · rcases hlock with ⟨-, -, hlock, -⟩ | ⟨hlock, -⟩
        · exact Or.inr hlock
        · exact Or.inl hlock
      · rcases hlock with ⟨-, hpc, -⟩ | ⟨hlock, -⟩
        · exact hpc
        · exact absurd hin (by rw [h.inside_of_free hcpu hlock]; simp)
  | yield c p hcpu hsusp hlock =>
      exact h.sched hc hcpu (Or.inl hlock) (Or.inr (Or.inl rfl))
        (fun _ => h.inside_of_free hcpu hlock) (by simp)

/-- **It holds of every reachable kernel.** -/
theorem Sections.of_run {as : List (Act nofile ncpu)}
    (h : run ProcessTable.step .init as = some k) : Sections k :=
  (run_invariant (I := fun k : Kernel nproc nofile ncpu => Control k ∧ Sections k)
    ⟨.start, .start⟩ (fun _ _ _ hk hstep =>
      ⟨hk.1.step (step_trans hstep), hk.2.step hk.1 (step_trans hstep)⟩) h).2

/-! ## A critical section ends -/

/-- The next move of a CPU in a critical section. -/
def Kernel.sectionMove (k : Kernel nproc nofile ncpu) (c : Fin ncpu) : Move nofile :=
  match k.cpu c with
  | .idle | .scan _ => .schedule
  | .ran p => if k.susp p = .awake then .advance else .resume

/-- The steps from the slot `j` of a round to its end: a slot takes up to three of them, for a process
that is switched to in `wait`, looks for a zombie and goes to sleep again. -/
def scanLeft (nproc j : ℕ) : ℕ := 3 * (nproc - j) + 1

/-- **The steps that the CPU `c` has left** until it releases the lock, if it holds it. -/
def Kernel.sectionLeft (k : Kernel nproc nofile ncpu) (c : Fin ncpu) : ℕ :=
  if k.lock = some c then
    match k.cpu c with
    | .idle => 0
    | .scan j => scanLeft nproc j
    | .ran p =>
        if k.susp p = .awake then
          match k.pc p with
          | .waitScan => scanLeft nproc (p + 1) + 1
          | .numScan j _ | .maxScan j _ => nproc - j + 1
          | .infoFill _ => 1
          | _ => 0
        else scanLeft nproc (p + 1) + 2
  else 0

/-- A section is not longer than a round. -/
theorem sectionLeft_le (k : Kernel nproc nofile ncpu) (c : Fin ncpu) :
    k.sectionLeft c ≤ 3 * nproc + 1 := by
  simp only [Kernel.sectionLeft, scanLeft]
  split
  · split
    · omega
    · omega
    · split
      · split <;> omega
      · omega
  · omega

/-- **The holder of the lock can go on.** -/
theorem section_enabled (h : Sections k) (hc : Control k) {c : Fin ncpu} (hlock : k.lock = some c) :
    step k (.on c (k.sectionMove c)) ≠ none := by
  have hholds := (h.holder c).mp hlock
  rw [Kernel.Holds] at hholds
  rw [Kernel.sectionMove]
  cases hcpu : k.cpu c with
  | idle =>
      rw [hcpu] at hholds
      exact hholds.elim
  | scan j =>
      simp only [ProcessTable.step, hcpu, schedulerStep]
      split_ifs <;> simp
  | ran p =>
      rw [hcpu] at hholds
      by_cases hsusp : k.susp p = .awake
      · simp only [ProcessTable.step, hcpu, hsusp, if_true, callStep]
        have hin := hholds.resolve_left fun hne => hne hsusp
        cases hpc : k.pc p with
        | waitScan | infoFill => simp [advanceStep, hpc, hlock]
        | numScan | maxScan =>
            simp only [advanceStep, hpc, hlock, if_true]
            split <;> simp
        | _ =>
            rw [hpc] at hin
            cases hin
      · -- it is running, so it has not exited
        have hgoes := h.goesOn p
        rw [hc.ran c p hcpu] at hgoes
        simp only [ProcessTable.step, hcpu, if_neg hsusp, resumeStep, hlock, if_true]
        cases hs : k.susp p with
        | awake => exact absurd hs hsusp
        | exited => exact absurd hs hgoes
        | forkret | yield | sleep => simp

/-- The action is one of the CPU `c`. -/
def Act.isOn (c : Fin ncpu) : Act nofile ncpu → Bool
  | .userinit => false
  | .on c' _ => c' = c

/-- **A step under the lock**: the holder comes closer to the end of its section, and nobody else takes
the lock away or sets it back. -/
theorem sectionLeft_step {a : Act nofile ncpu} (h : Sections k) (hc : Control k) {c : Fin ncpu}
    (hlock : k.lock = some c) (ha : Trans k a k') :
    (k'.lock = some c ∨ k'.lock = none) ∧
      k'.sectionLeft c + (if a.isOn c then 1 else 0) ≤ k.sectionLeft c := by
  have hholder := h.holder c
  have hother := h.holder
  have hinj := hc.inj
  cases ha with
  | bootAlloc | bootPublish | acquire | stay | forkAlloc | forkPublish | exitLast | wait | yield | kill
  | wakeup | query =>
      -- these find the lock free
      grind
  | dispatch c' j hcpu hj =>
      -- who is runnable is behind a `sched`, and is not awake when it gets the CPU
      have hgoes := h.goesOn j
      simp only [Kernel.Holds, Kernel.sectionLeft, Kernel.setCpu, Kernel.modify, Act.isOn,
        Function.update_apply] at hholder hother ⊢
      grind [scanLeft]
  | _ =>
      simp only [Kernel.Holds, Kernel.sectionLeft, Kernel.setCpu, Kernel.setLock, Kernel.setPc,
        Kernel.modify, Kernel.sched, Act.isOn, Function.update_apply] at hholder hother ⊢
      grind [scanLeft]

/-- **`ptable.lock` is always given back.** From the moment in which the CPU `c` holds the lock, and as
long as it is not released, the lock stays with `c`, which alone is in a critical section, is never
stuck, and takes no more than `3 * nproc + 1` steps, whatever the other CPUs do meanwhile. -/
theorem lock_given_back {as bs : List (Act nofile ncpu)} {c : Fin ncpu}
    (h : run step .init as = some k) (hlock : k.lock = some c) (hrun : run step k bs = some k')
    (hheld : EveryStep step (fun t _ => t.lock ≠ none) k bs) (hlock' : k'.lock ≠ none) :
    k'.lock = some c ∧ (∀ c', k'.Holds c' ↔ c' = c) ∧ step k' (.on c (k'.sectionMove c)) ≠ none ∧
      bs.countP (Act.isOn c) ≤ 3 * nproc + 1 := by
  have hcount := guarded_count
    (I := fun k : Kernel nproc nofile ncpu =>
      Control k ∧ Sections k ∧ (k.lock = some c ∨ k.lock = none))
    (μ := fun k => k.sectionLeft c) (P := Act.isOn c) ⟨.of_run h, .of_run h, Or.inl hlock⟩ ?_ hheld hrun
  · obtain ⟨⟨hc, hsec, hkeep⟩, hle⟩ := hcount
    have hown := hkeep.resolve_right hlock'
    refine ⟨hown, fun c' => ?_, section_enabled hsec hc hown, ?_⟩
    · rw [← hsec.holder c', hown, Option.some_inj]
      exact eq_comm
    · have hbound := sectionLeft_le k c
      omega
  · rintro s a s' ⟨hc, hsec, hkeep⟩ hne hstep
    have htrans := step_trans hstep
    obtain ⟨hlock, hle⟩ := sectionLeft_step hsec hc (hkeep.resolve_right hne) htrans
    exact ⟨⟨hc.step htrans, hsec.step hc htrans, hlock⟩, hle⟩

/-- CPU `c'` goes through the table while the first process, on CPU `c`, changes its size. -/
def scanRun (c c' : Fin ncpu) : List (Act nofile ncpu) :=
  [.on c' .schedule, .on c (.resize 5), .on c' .schedule]

theorem scanRun_lock_given_back : ∃ k k' : Kernel 4 1 2,
    run step .init (bootRun 0 ++ [.on 1 .schedule]) = some k ∧ run step k (scanRun 0 1) = some k' ∧
      k'.lock = some 1 ∧ step k' (.on 1 (k'.sectionMove 1)) ≠ none ∧
      (scanRun 0 1 : List (Act 1 2)).countP (Act.isOn 1) ≤ 13 := by
  have hfirst : (run step (.init : Kernel 4 1 2) (bootRun 0 ++ [.on 1 .schedule])).map
      (fun k => (k.lock, (run step k (scanRun 0 1)).map Kernel.lock,
        decide (EveryStep step (fun t _ => t.lock ≠ none) k (scanRun 0 1))))
        = some (some 1, some (some 1), true) := by
    decide +kernel
  obtain ⟨k, hk, heq⟩ := Option.map_eq_some_iff.mp hfirst
  simp only [Prod.mk.injEq, decide_eq_true_eq] at heq
  obtain ⟨hlock, hrun, hheld⟩ := heq
  obtain ⟨k', hk', hlock'⟩ := Option.map_eq_some_iff.mp hrun
  obtain ⟨hown, -, hstep, hcount⟩ := lock_given_back hk hlock hk' hheld (by rw [hlock']; simp)
  exact ⟨k, k', hk, hk', hown, hstep, hcount⟩

end StudiesOS.ProcessTable
