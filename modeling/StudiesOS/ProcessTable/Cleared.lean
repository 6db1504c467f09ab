import StudiesOS.ProcessTable.Parents

/-! # What a free slot is cleared of
`exit` closes the descriptors of a process before it becomes a zombie, `sleep` clears its channel on
the way out, and `wait` clears the parent; a fork that fails has not copied any of them yet. So a free
slot has no descriptor, no channel and no parent. -/

namespace StudiesOS.ProcessTable

open Kernel

variable {nproc nofile ncpu : ℕ} {k k' : Kernel nproc nofile ncpu} {a : Act nofile ncpu}

/-! ## Channels -/

/-- **Who bears a channel** is alive, and was switched out in `sleep`. -/
def ChanSleeps (k : Kernel nproc nofile ncpu) : Prop :=
  ∀ i, (k.proc i).chan ≠ none → k.susp i = .sleep ∧ (k.proc i).state.status = .alive

/-- Who does not live bears none. -/
theorem ChanSleeps.none_of_status (h : ChanSleeps k) {i : Fin nproc}
    (hi : (k.proc i).state.status ≠ .alive) : (k.proc i).chan = none := by
  by_contra hchan
  exact hi (h i hchan).2

/-- Who was not switched out in `sleep` bears none. -/
theorem ChanSleeps.none_of_susp (h : ChanSleeps k) {i : Fin nproc} (hi : k.susp i ≠ .sleep) :
    (k.proc i).chan = none := by
  by_contra hchan
  exact hi (h i hchan).1

/-- One slot changes. -/
theorem ChanSleeps.of_update (h : ChanSleeps k) {j : Fin nproc} {q : Proc nproc nofile}
    (hproc : k'.proc = Function.update k.proc j q) (hsusp : ∀ i, i ≠ j → k'.susp i = k.susp i)
    (hq : q.chan ≠ none → k'.susp j = .sleep ∧ q.state.status = .alive) : ChanSleeps k' := by
  intro i hi
  rw [hproc] at hi ⊢
  by_cases hij : i = j
  · subst hij
    rw [Function.update_self] at hi ⊢
    exact hq hi
  · rw [Function.update_of_ne hij] at hi ⊢
    rw [hsusp i hij]
    exact h i hi

/-- One slot changes that keeps its channel, and lives on if it lived. -/
theorem ChanSleeps.of_same (h : ChanSleeps k) {j : Fin nproc} {q : Proc nproc nofile}
    (hproc : k'.proc = Function.update k.proc j q) (hsusp : k'.susp = k.susp)
    (hchan : q.chan = (k.proc j).chan)
    (hstatus : (k.proc j).state.status = .alive → q.state.status = .alive) : ChanSleeps k' := by
  refine h.of_update hproc (fun i _ => congrFun hsusp i) fun hj => ?_
  rw [hchan] at hj
  rw [hsusp]
  exact ⟨(h j hj).1, hstatus (h j hj).2⟩

/-- One slot changes that bears no channel. -/
theorem ChanSleeps.of_none (h : ChanSleeps k) {j : Fin nproc} {q : Proc nproc nofile}
    (hproc : k'.proc = Function.update k.proc j q) (hsusp : ∀ i, i ≠ j → k'.susp i = k.susp i)
    (hchan : q.chan = none) : ChanSleeps k' :=
  h.of_update hproc hsusp fun hj => absurd hchan hj

/-- Children are passed on, and sleepers wake up. -/
theorem ChanSleeps.abandoned (h : ChanSleeps k) {p : Fin nproc} (ht : Abandoned p k k') :
    ChanSleeps k' := by
  intro i hi
  have hsusp : k'.susp = k.susp := by rw [ht.rest]
  have hchan : (k'.proc i).chan = (k.proc i).chan := by rw [ht.proc i]
  rw [hchan] at hi
  obtain ⟨hsleep, halive⟩ := h i hi
  exact ⟨(congrFun hsusp i).trans hsleep, (SameOrWoken.status (ht.state i)).trans halive⟩

/-- A free slot is taken. -/
theorem ChanSleeps.allocproc (h : ChanSleeps k) {i : Fin nproc} (hi : k.firstUnused = some i) :
    ChanSleeps (k.allocproc i) := by
  have hfree := state_of_firstUnused hi
  refine h.of_none (j := i) rfl (fun j hj => Function.update_of_ne hj _ k.susp) ?_
  exact h.none_of_status (i := i) (by rw [hfree]; decide)

/-- **Every step keeps it.** -/
theorem ChanSleeps.step (h : ChanSleeps k) (hc : Control k) (ha : Trans k a k') :
    ChanSleeps k' := by
  cases ha with
  | bootAlloc i hboot hlock hi => exact h.allocproc hi
  | forkAlloc c p np hcpu hsusp hpc hlock hnp => exact h.allocproc hnp
  | resume c p hcpu hlock hsusp =>
      refine h.of_none (j := p) (Function.update_eq_self p k.proc).symm
        (fun j hj => Function.update_of_ne hj _ k.susp) (h.none_of_susp ?_)
      rcases hsusp with hs | hs <;> rw [hs] <;> decide
  | resumeSleep c p =>
      exact h.of_none (j := p) rfl (fun j hj => Function.update_of_ne hj _ k.susp) rfl
  | forkFail c p np m hcpu hsusp hpc =>
      have hembryo := hc.child p np (child_of_failing hpc)
      exact h.of_none (j := np) rfl (fun _ _ => rfl)
        (h.none_of_status (i := np) (by rw [hembryo]; decide))
  | waitReap c p i hcpu hsusp hpc hlock hparent hi =>
      exact h.of_none (j := i) rfl (fun _ _ => rfl)
        (h.none_of_status (i := i) (by rw [hi]; decide))
  | exitLast c p t hcpu hsusp hpc hlock ht =>
      have hawake : t.susp p ≠ .sleep := by
        rw [ht.rest]
        show k.susp p ≠ .sleep
        rw [hsusp]
        decide
      exact (h.abandoned ht).of_none (j := p) rfl (fun j hj => Function.update_of_ne hj _ t.susp)
        ((h.abandoned ht).none_of_susp hawake)
  | sleep c p m chan =>
      exact h.of_update (j := p) rfl (fun j hj => Function.update_of_ne hj _ k.susp) fun _ =>
        ⟨Function.update_self p _ k.susp, rfl⟩
  | yield c p hcpu hsusp =>
      exact h.of_none (j := p) rfl (fun j hj => Function.update_of_ne hj _ k.susp)
        (h.none_of_susp (i := p) (by rw [hsusp]; decide))
  | kill c p i =>
      refine h.of_same (j := i) rfl rfl rfl fun halive => ?_
      show (if _ then _ else _ : ProcState).status = _
      split_ifs
      · rfl
      · exact halive
  | wakeup c address =>
      intro i
      exact h.abandoned (p := i) (.of_woken (woken_wakeup1 k _)) i
  | bootPublish | forkPublish | dispatch => exact h.of_same rfl rfl rfl fun _ => rfl
  | bootFill | forkSize | forkParent | forkFile | exitClose | resize | setFile =>
      exact h.of_same rfl rfl rfl id
  | stay | acquire | skip | release | forkNext | forkFiles | exit | exitClosed | wait | leave | query
    | queryNext => exact h

/-! ## Descriptors -/

/-- The slot `i` has no descriptor. -/
def Kernel.NoFiles (k : Kernel nproc nofile ncpu) (i : Fin nproc) : Prop :=
  ∀ fd, (k.proc i).ofile fd = none

/-- How many descriptors `exit` has closed in a process. -/
def Pc.closed (nofile : ℕ) : Pc nproc → ℕ
  | .exitClose fd => fd
  | .exitLast => nofile
  | _ => 0

/-- The slot that a `fork` may still give back. -/
def Pc.unsure : Pc nproc → Option (Fin nproc)
  | .forkKalloc np | .forkCopyuvm np => some np
  | _ => none

/-- It is one that the `fork` is filling in. -/
theorem Pc.child_of_unsure {pc : Pc nproc} {i : Fin nproc} (h : pc.unsure = some i) :
    pc.child = some i := by
  cases pc with
  | forkKalloc | forkCopyuvm => exact h
  | _ => cases h

/-- A process that closes its descriptors is exiting. -/
theorem Pc.leaving_of_closed {pc : Pc nproc} {n : ℕ} (h : n < pc.closed nofile) :
    pc.stage = .leaving := by
  cases pc with
  | exitClose | exitLast => rfl
  | _ => cases h

/-- **Who has no descriptors.** -/
structure FilesClosed (k : Kernel nproc nofile ncpu) : Prop where
  /-- An exiting process has closed the first ones. -/
  closed : ∀ p (fd : Fin nofile), fd < (k.pc p).closed nofile → (k.proc p).ofile fd = none
  /-- Free slots and zombies have none. -/
  gone : ∀ i, (k.proc i).state.status = .free ∨ (k.proc i).state.status = .zombie → k.NoFiles i
  /-- A slot that may still be given back has none. -/
  unsure : ∀ p i, (k.pc p).unsure = some i → k.NoFiles i

/-- **Descriptors are closed at most**, and who comes into the cases has none. -/
theorem FilesClosed.of_le (h : FilesClosed k)
    (hfiles : ∀ i fd, (k.proc i).ofile fd = none → (k'.proc i).ofile fd = none)
    (hclosed : ∀ p (fd : Fin nofile), fd < (k'.pc p).closed nofile →
      fd < (k.pc p).closed nofile ∨ (k'.proc p).ofile fd = none)
    (hgone : ∀ i, (k'.proc i).state.status = .free ∨ (k'.proc i).state.status = .zombie →
      k.NoFiles i)
    (hunsure : ∀ p i, (k'.pc p).unsure = some i → k.NoFiles i) : FilesClosed k' := by
  refine ⟨fun p fd hfd => ?_, fun i hi fd => hfiles i fd (hgone i hi fd),
    fun p i hi fd => hfiles i fd (hunsure p i hi fd)⟩
  rcases hclosed p fd hfd with hold | hnone
  · exact hfiles p fd (h.closed p fd hold)
  · exact hnone

/-- A slot changes, in which descriptors are closed at most, and a process goes on. -/
theorem FilesClosed.of_update (h : FilesClosed k) {j p : Fin nproc} {q : Proc nproc nofile}
    {pc' : Pc nproc} (hproc : k'.proc = Function.update k.proc j q)
    (hpc : k'.pc = Function.update k.pc p pc')
    (hfiles : ∀ fd, (k.proc j).ofile fd = none → q.ofile fd = none)
    (hclosed : ∀ fd : Fin nofile, fd < pc'.closed nofile →
      fd < (k.pc p).closed nofile ∨ (k'.proc p).ofile fd = none)
    (hgone : q.state.status = .free ∨ q.state.status = .zombie → k.NoFiles j)
    (hunsure : ∀ i, pc'.unsure = some i → k.NoFiles i) : FilesClosed k' := by
  refine h.of_le (fun i fd hfd => ?_) (fun r fd hfd => ?_) (fun i hi => ?_) (fun r i hi => ?_)
  · rw [hproc]
    by_cases hij : i = j
    · subst hij
      rw [Function.update_self]
      exact hfiles fd hfd
    · rw [Function.update_of_ne hij]
      exact hfd
  · rw [hpc] at hfd
    by_cases hrp : r = p
    · subst hrp
      rw [Function.update_self] at hfd
      exact hclosed fd hfd
    · rw [Function.update_of_ne hrp] at hfd
      exact Or.inl hfd
  · rw [hproc] at hi
    by_cases hij : i = j
    · subst hij
      rw [Function.update_self] at hi
      exact hgone hi
    · rw [Function.update_of_ne hij] at hi
      exact h.gone i hi
  · rw [hpc] at hi
    by_cases hrp : r = p
    · subst hrp
      rw [Function.update_self] at hi
      exact hunsure i hi
    · rw [Function.update_of_ne hrp] at hi
      exact h.unsure r i hi

/-- A slot changes that is in none of the cases. -/
theorem FilesClosed.of_change (h : FilesClosed k) {j : Fin nproc} {q : Proc nproc nofile}
    (hproc : k'.proc = Function.update k.proc j q)
    (hclosed : ∀ p n, n < (k'.pc p).closed nofile → n < (k.pc p).closed nofile ∧ p ≠ j)
    (hgone : q.state.status ≠ .free ∧ q.state.status ≠ .zombie)
    (hunsure : ∀ p i, (k'.pc p).unsure = some i → (k.pc p).unsure = some i ∧ i ≠ j) :
    FilesClosed k' := by
  have hother : ∀ i, i ≠ j → k'.proc i = k.proc i := by
    intro i hij
    rw [hproc, Function.update_of_ne hij]
  refine ⟨fun p fd hfd => ?_, fun i hi => ?_, fun p i hi fd => ?_⟩
  · obtain ⟨hold, hne⟩ := hclosed p fd hfd
    rw [hother p hne]
    exact h.closed p fd hold
  · have hne : i ≠ j := by
      rintro rfl
      rw [hproc, Function.update_self] at hi
      exact hi.elim hgone.1 hgone.2
    rw [hother i hne] at hi
    intro fd
    rw [hother i hne]
    exact h.gone i hi fd
  · obtain ⟨hold, hne⟩ := hunsure p i hi
    rw [hother i hne]
    exact h.unsure p i hold fd

/-- A process goes on. -/
theorem FilesClosed.of_pc (h : FilesClosed k) {p : Fin nproc} {pc' : Pc nproc}
    (hproc : k'.proc = k.proc) (hpc : k'.pc = Function.update k.pc p pc')
    (hclosed : ∀ fd : Fin nofile, fd < pc'.closed nofile → fd < (k.pc p).closed nofile)
    (hunsure : ∀ i, pc'.unsure = some i → k.NoFiles i) : FilesClosed k' := by
  refine h.of_update (j := p) (hproc.trans (Function.update_eq_self p k.proc).symm) hpc
    (fun _ hfd => hfd) (fun fd hfd => Or.inl (hclosed fd hfd)) (h.gone p) hunsure

/-- A slot changes, in which descriptors are closed at most. -/
theorem FilesClosed.of_proc (h : FilesClosed k) {j : Fin nproc} {q : Proc nproc nofile}
    (hproc : k'.proc = Function.update k.proc j q) (hpc : k'.pc = k.pc)
    (hfiles : ∀ fd, (k.proc j).ofile fd = none → q.ofile fd = none)
    (hgone : q.state.status = .free ∨ q.state.status = .zombie → k.NoFiles j) :
    FilesClosed k' :=
  h.of_update (p := j) hproc (hpc.trans (Function.update_eq_self j k.pc).symm) hfiles
    (fun _ hfd => Or.inl hfd) hgone (h.unsure j)

/-- Children are passed on, and sleepers wake up. -/
theorem FilesClosed.abandoned (h : FilesClosed k) {p : Fin nproc} (ht : Abandoned p k k') :
    FilesClosed k' := by
  have hpc : k'.pc = k.pc := by rw [ht.rest]
  refine h.of_le (fun i fd hfd => ?_) (fun r fd hfd => Or.inl (hpc ▸ hfd)) (fun i hi => ?_)
    (fun r i hi => h.unsure r i (hpc ▸ hi))
  · rw [ht.proc i]
    exact hfd
  · rw [SameOrWoken.status (ht.state i)] at hi
    exact h.gone i hi

/-- A free slot is taken. -/
theorem FilesClosed.allocproc (h : FilesClosed k) {i : Fin nproc} (hi : k.firstUnused = some i) :
    FilesClosed (k.allocproc i) ∧ (k.allocproc i).NoFiles i := by
  have hnone : k.NoFiles i := by
    refine h.gone i (Or.inl ?_)
    rw [state_of_firstUnused hi]
    rfl
  refine ⟨h.of_update (j := i) (p := i) rfl rfl (fun _ hfd => hfd) nofun nofun nofun,
    fun fd => ?_⟩
  rw [allocproc_proc, if_pos rfl]
  exact hnone fd

/-- **Every step keeps it.** -/
theorem FilesClosed.step (h : FilesClosed k) (hrel : Related k) (ha : Trans k a k') :
    FilesClosed k' := by
  have hc := hrel.control
  cases ha with
  | stay => exact h
  | acquire | skip | release | resume => exact ⟨h.closed, h.gone, h.unsure⟩
  | bootAlloc i hboot hlock hi =>
      obtain ⟨halloc, -⟩ := h.allocproc hi
      exact ⟨halloc.closed, halloc.gone, halloc.unsure⟩
  | forkAlloc c p np hcpu hsusp hpc hlock hnp =>
      -- a free slot holds no files, and the fork relies on it
      obtain ⟨halloc, hnone⟩ := h.allocproc hnp
      refine halloc.of_pc (p := p) rfl rfl nofun fun i hi => ?_
      obtain rfl : np = i := Option.some.inj hi
      exact hnone
  | forkNext c p np m pc' hcpu hsusp hpc =>
      rcases hpc with ⟨hpc, -, rfl⟩ | ⟨hpc, -, rfl⟩
      · exact h.of_pc (p := p) rfl rfl nofun fun i hi => h.unsure p i (hpc ▸ hi)
      · exact h.of_pc (p := p) rfl rfl nofun nofun
  | forkFail c p np m hcpu hsusp hpc =>
      have hnone : k.NoFiles np := by
        refine h.unsure p np ?_
        rcases hpc with ⟨hpc, -⟩ | ⟨hpc, -⟩ <;> rw [hpc] <;> rfl
      exact h.of_update (j := np) (p := p) rfl rfl (fun _ hfd => hfd) nofun (fun _ => hnone) nofun
  | forkSize c p np | forkParent c p np =>
      exact h.of_update (j := np) (p := p) rfl rfl (fun _ hfd => hfd) nofun (h.gone np) nofun
  | forkFile c p np fd hcpu hsusp hpc =>
      -- the child is an embryo: it neither exits nor belongs to another fork
      have hchild : (k.pc p).child = some np := by rw [hpc]; rfl
      have hembryo := hc.child p np hchild
      refine h.of_change (j := np) rfl (fun r n hn => ?_) ?_ (fun r i hi => ?_)
      · obtain ⟨hold, -⟩ := of_update_of_not (P := fun pc : Pc nproc => n < pc.closed nofile) hn nofun
        refine ⟨hold, ?_⟩
        rintro rfl
        have hidle := hrel.family.embryo r (congrArg ProcState.status hembryo)
        cases (Pc.leaving_of_closed hold).symm.trans hidle
      · show (k.proc np).state.status ≠ .free ∧ (k.proc np).state.status ≠ .zombie
        rw [hembryo]
        exact ⟨nofun, nofun⟩
      · obtain ⟨hold, hrp⟩ := of_update_of_not (P := fun pc : Pc nproc => pc.unsure = some i) hi nofun
        refine ⟨hold, ?_⟩
        rintro rfl
        exact hrp (hc.owner r p i (Pc.child_of_unsure hold) hchild)
  | forkFiles c p np fd hcpu hsusp hpc hfd => exact h.of_pc (p := p) rfl rfl nofun nofun
  | forkPublish c p np hcpu hsusp hpc =>
      exact h.of_update (j := np) (p := p) rfl rfl (fun _ hfd => hfd) nofun nofun nofun
  | exit c p => exact h.of_pc (p := p) rfl rfl nofun nofun
  | exitClose c p fd hcpu hsusp hpc =>
      refine h.of_update (j := p) (p := p) rfl rfl (fun fd' hfd' => ?_) (fun fd' hfd' => ?_)
        (h.gone p) nofun
      · show Function.update (k.proc p).ofile fd none fd' = none
        by_cases hne : fd' = fd
        · rw [hne, Function.update_self]
        · rw [Function.update_of_ne hne, hfd']
      · -- the one just closed, and those before it
        by_cases hne : fd' = fd
        · refine Or.inr ?_
          rw [setPc_proc, modify_proc_self, hne]
          exact Function.update_self fd _ (k.proc p).ofile
        · refine Or.inl ?_
          rw [hpc]
          have hlt : (fd' : ℕ) < fd + 1 := hfd'
          have hval : (fd' : ℕ) ≠ fd := fun heq => hne (Fin.ext heq)
          show (fd' : ℕ) < fd
          omega
  | exitClosed c p fd hcpu hsusp hpc hfd =>
      refine h.of_pc (p := p) rfl rfl (fun fd' _ => ?_) nofun
      rw [hpc]
      exact fd'.isLt.trans_le hfd
  | exitLast c p t hcpu hsusp hpc hlock ht =>
      -- the loop of `exit` has gone over all descriptors
      have ht' := h.abandoned ht
      have hpc' : t.pc p = .exitLast := by rw [ht.rest]; exact hpc
      refine ht'.of_proc (j := p) rfl rfl (fun _ hfd => hfd) fun _ fd => ht'.closed p fd ?_
      rw [hpc']
      exact fd.isLt
  | wait c p => exact h.of_pc (p := p) rfl rfl nofun nofun
  | waitReap c p i hcpu hsusp hpc hlock hparent hi =>
      exact h.of_update (j := i) (p := p) rfl rfl (fun _ hfd => hfd) nofun
        (fun _ => h.gone i (Or.inr (congrArg ProcState.status hi))) nofun
  | leave c p => exact h.of_pc (p := p) rfl rfl nofun nofun
  | query c p m pc' hcpu hsusp hpc hlock hm =>
      rcases hm with ⟨-, rfl⟩ | ⟨-, rfl⟩ | ⟨pid, i, -, -, rfl⟩ <;>
        exact h.of_pc (p := p) rfl rfl nofun nofun
  | queryNext c p j pc' hcpu hsusp hlock hpc =>
      rcases hpc with ⟨n, -, rfl⟩ | ⟨n, -, rfl⟩ <;> exact h.of_pc (p := p) rfl rfl nofun nofun
  | kill c p i pid hcpu hsusp hpc hlock hi =>
      refine h.of_proc (j := i) rfl rfl (fun _ hfd => hfd) fun hgone => h.gone i ?_
      rwa [← (sameOrWoken_kill (k.proc i).state).status]
  | wakeup c address =>
      have habandoned := fun p => Abandoned.of_woken (p := p)
        (woken_wakeup1 k (some (.other address)))
      refine h.of_le (fun i fd hfd => ?_) (fun r fd hfd => Or.inl hfd) (fun i hi => ?_) h.unsure
      · rw [(habandoned i).proc i]
        exact hfd
      · rw [SameOrWoken.status ((habandoned i).state i)] at hi
        exact h.gone i hi
  | setFile c p fd file hcpu hsusp hpc =>
      -- a process that runs its program is not in `exit`, and no fork is filling its slot
      refine h.of_change (j := p) rfl (fun r n hn => ⟨hn, ?_⟩) ?_ (fun r i hi => ⟨hi, ?_⟩)
      · rintro rfl
        rw [show (k.modify r fun q => { q with ofile := Function.update q.ofile fd file }).pc r
          = .user from hpc] at hn
        cases hn
      · show (k.proc p).state.status ≠ .free ∧ (k.proc p).state.status ≠ .zombie
        rw [hc.ran c p hcpu]
        exact ⟨nofun, nofun⟩
      · rintro rfl
        exact hc.ran_ne_child hcpu (Pc.child_of_unsure hi) rfl
  | bootFill i => exact (h.of_proc (j := i) rfl rfl (fun _ hfd => hfd) (h.gone i))
  | resumeSleep c p | resize c p => exact h.of_proc (j := p) rfl rfl (fun _ hfd => hfd) (h.gone p)
  | bootPublish | dispatch | sleep | yield => exact h.of_proc rfl rfl (fun _ hfd => hfd) nofun

/-! ## Free slots -/

/-- **A free slot is cleared** of its parent, its channel and its descriptors. -/
theorem cleared_of_run {as : List (Act nofile ncpu)} (h : run step .init as = some k) {i : Fin nproc}
    (hi : (k.proc i).state = .unused) :
    (k.proc i).parent = none ∧ (k.proc i).chan = none ∧ (k.proc i).ofile = fun _ => none := by
  have hinv : Related k ∧ ChanSleeps k ∧ FilesClosed k := by
    refine run_invariant (I := fun k => Related k ∧ ChanSleeps k ∧ FilesClosed k)
      ⟨.start, fun j hj => absurd rfl hj, nofun, fun _ _ _ => rfl, nofun⟩ ?_ h
    rintro t a t' ⟨hrel, hchan, hfiles⟩ hstep
    have htrans := step_trans hstep
    exact ⟨(hrel.step htrans).1, hchan.step hrel.control htrans, hfiles.step hrel htrans⟩
  obtain ⟨hrel, hchan, hfiles⟩ := hinv
  have hfree : (k.proc i).state.status = .free := congrArg ProcState.status hi
  refine ⟨hrel.family.free i hfree, hchan.none_of_status (by rw [hfree]; decide), ?_⟩
  funext fd
  exact hfiles.gone i (Or.inl hfree) fd

end StudiesOS.ProcessTable
