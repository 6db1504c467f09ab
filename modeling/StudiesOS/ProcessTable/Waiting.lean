import StudiesOS.ProcessTable.Parents

/-! # No exit is missed
A process sleeps in `wait` only while none of its children is a zombie: `wait` goes to sleep under the
lock under which it has found none, `exit` wakes the parent before the process becomes a zombie, and
the loop of `exit` wakes the first process for every zombie that is passed on to it. -/

namespace StudiesOS.ProcessTable

open Kernel Lineage

variable {nproc nofile ncpu : ℕ} {k k' t : Kernel nproc nofile ncpu} {a : Act nofile ncpu}

/-- The process `p` is asleep in `wait`. -/
def Kernel.Waits (k : Kernel nproc nofile ncpu) (p : Fin nproc) : Prop :=
  (k.proc p).state = .sleeping ∧ (k.proc p).chan = some (.proc p)

/-- **Nobody who is asleep in `wait` has a zombie child.** -/
def Attended (k : Kernel nproc nofile ncpu) : Prop :=
  ∀ p i, k.Waits p → (k.proc i).parent = some p → (k.proc i).state ≠ .zombie

/-! ## Waking up -/

/-- Waking a channel wakes who waits on it. -/
theorem not_waits_wakeup1 (p : Fin nproc) : ¬ (k.wakeup1 (some (.proc p))).Waits p := by
  rintro ⟨hs, hchan⟩
  unfold wakeup1 at hs hchan
  dsimp only at hs hchan
  split_ifs at hs hchan with h
  exact h ⟨hs, hchan⟩

/-- Nobody falls asleep while children are passed on. -/
theorem Kernel.Waits.of_abandoned {p q : Fin nproc} (h : k'.Waits q) (ht : Abandoned p k k') :
    k.Waits q := by
  obtain ⟨hs, hchan⟩ := h
  rw [ht.proc q] at hchan
  rcases ht.state q with heq | ⟨-, heq⟩
  · exact ⟨heq ▸ hs, hchan⟩
  · cases heq.symm.trans hs

/-- A round of the loop of `exit` changes the parent of one slot only. -/
theorem parent_abandon_of_ne (p : Fin nproc) {i j : Fin nproc} (hij : i ≠ j) :
    ((abandon p k j).proc i).parent = (k.proc i).parent := by
  have hpass : ((k.modify j fun q => { q with parent := k.initproc }).proc i).parent
      = (k.proc i).parent := by rw [modify_proc_of_ne k hij]
  unfold abandon
  split_ifs
  · rw [← hpass]
    rcases (woken_wakeup1 (k.modify j fun q => { q with parent := k.initproc })
      (k.initproc.map .proc)).proc i with heq | ⟨-, heq⟩ <;> rw [heq]
  · exact hpass
  · rfl

/-- **The loop of `exit` wakes the first process** for a zombie that is passed on to it. -/
theorem not_waits_foldl_abandon {p r i : Fin nproc} {l : List (Fin nproc)} (hmem : i ∈ l)
    (hinit : k.initproc = some r) (hparent : (k.proc i).parent = some p)
    (hi : (k.proc i).state = .zombie) : ¬ (l.foldl (abandon p) k).Waits r := by
  induction l generalizing k with
  | nil => cases hmem
  | cons j l ih =>
      rw [List.foldl_cons]
      have hround := abandoned_abandon k p j
      by_cases hij : i = j
      · intro hwaits
        have hwaits := hwaits.of_abandoned (abandoned_foldl (abandon p k j) p l)
        subst hij
        unfold abandon at hwaits
        rw [if_pos hparent, if_pos hi, hinit] at hwaits
        exact not_waits_wakeup1 r hwaits
      · refine ih ((List.mem_cons.mp hmem).resolve_left hij) (by rw [hround.rest]; exact hinit) ?_ ?_
        · rw [parent_abandon_of_ne p hij, hparent]
        · rcases hround.state i with heq | ⟨hs, -⟩
          · rw [heq, hi]
          · cases hs.symm.trans hi

/-! ## Steps -/

/-- Nobody falls asleep in `wait`, and no zombie comes or changes its parent. -/
theorem Attended.of_le (h : Attended k) (hwaits : ∀ p, k'.Waits p → k.Waits p)
    (hzombie : ∀ i, (k'.proc i).state = .zombie →
      (k.proc i).state = .zombie ∧ (k'.proc i).parent = (k.proc i).parent) : Attended k' := by
  intro p i hp hparent hi
  obtain ⟨hi', heq⟩ := hzombie i hi
  exact h p i (hwaits p hp) (heq ▸ hparent) hi'

/-- One slot changes, whose process neither falls asleep nor becomes a zombie nor changes its parent as
one. -/
theorem Attended.of_update (h : Attended k) {j : Fin nproc} {q : Proc nproc nofile}
    (hproc : k'.proc = Function.update k.proc j q)
    (hwaits : q.state = .sleeping → (k.proc j).state = .sleeping ∧ q.chan = (k.proc j).chan)
    (hzombie : q.state = .zombie →
      (k.proc j).state = .zombie ∧ q.parent = (k.proc j).parent) : Attended k' := by
  refine h.of_le (fun p hp => ?_) (fun i hi => ?_)
  · obtain ⟨hs, hchan⟩ := hp
    rw [hproc] at hs hchan
    by_cases hpj : p = j
    · rw [hpj, Function.update_self] at hs hchan
      obtain ⟨hold, heq⟩ := hwaits hs
      rw [hpj]
      exact ⟨hold, heq ▸ hchan⟩
    · rw [Function.update_of_ne hpj] at hs hchan
      exact ⟨hs, hchan⟩
  · rw [hproc] at hi ⊢
    by_cases hij : i = j
    · rw [hij, Function.update_self] at hi ⊢
      exact hzombie hi
    · rw [Function.update_of_ne hij] at hi ⊢
      exact ⟨hi, rfl⟩

/-- One slot changes, whose process is neither asleep nor a zombie then. -/
theorem Attended.of_awake (h : Attended k) {j : Fin nproc} {q : Proc nproc nofile}
    (hproc : k'.proc = Function.update k.proc j q) (hs : q.state ≠ .sleeping)
    (hz : q.state ≠ .zombie) : Attended k' :=
  h.of_update hproc (fun hq => absurd hq hs) (fun hq => absurd hq hz)

/-- The table does not change. -/
theorem Attended.of_eq (h : Attended k) (hproc : k'.proc = k.proc) : Attended k' := by
  intro p i hp
  unfold Kernel.Waits at hp
  rw [hproc] at hp ⊢
  exact h p i hp

/-- **`exit` keeps it.** -/
theorem Attended.exitLast (h : Attended k) (hnl : NoLoop k.lineage) {p : Fin nproc}
    (ht : Abandoned p k t)
    (hloop : t = (List.finRange nproc).foldl (abandon p) (k.wakeup1 ((k.proc p).parent.map .proc)))
    (hproc : k'.proc = Function.update t.proc p { t.proc p with state := .zombie }) :
    Attended k' := by
  intro r i hr hparent hi
  unfold Kernel.Waits at hr
  rw [hproc] at hr hparent hi
  have hrp : r ≠ p := by
    rintro rfl
    rw [Function.update_self] at hr
    cases hr.1
  rw [Function.update_of_ne hrp] at hr
  by_cases hip : i = p
  · -- the process itself: its parent has been woken
    rw [hip, Function.update_self] at hparent
    rcases ht.parent p with heq | ⟨hself, -⟩
    · have hp : (k.proc p).parent = some r := heq ▸ hparent
      rw [hp, Option.map_some] at hloop
      have hwaits : t.Waits r := hr
      rw [hloop] at hwaits
      exact not_waits_wakeup1 r (hwaits.of_abandoned (abandoned_foldl _ p _))
    · exact hnl p hself
  · rw [Function.update_of_ne hip] at hparent hi
    have hi : (k.proc i).state = .zombie := by
      rcases ht.state i with heq | ⟨-, heq⟩
      · exact heq ▸ hi
      · cases heq.symm.trans hi
    rcases ht.parent i with heq | ⟨hold, heq⟩
    · exact h r i (Kernel.Waits.of_abandoned hr ht) (heq ▸ hparent) hi
    · -- a zombie that has been passed on: the first process has been woken
      have hinit : k.initproc = some r := heq ▸ hparent
      have hwoken : (k.wakeup1 ((k.proc p).parent.map .proc)).proc i = k.proc i := by
        refine ((woken_wakeup1 k _).proc i).resolve_right fun hw => ?_
        cases hw.1.symm.trans hi
      refine not_waits_foldl_abandon (k := k.wakeup1 ((k.proc p).parent.map .proc))
        (List.mem_finRange i) hinit ?_ ?_ (hloop ▸ hr)
      · rw [hwoken, hold]
      · rw [hwoken, hi]

/-- **`sleep` keeps it.** -/
theorem Attended.sleep (h : Attended k) {p : Fin nproc} {chan : Chan nproc}
    (hnone : chan = .proc p → ∀ i, (k.proc i).parent = some p → (k.proc i).state ≠ .zombie)
    (hproc : k'.proc = Function.update k.proc p
      { k.proc p with chan := some chan, state := .sleeping }) : Attended k' := by
  intro r i hr hparent hi
  unfold Kernel.Waits at hr
  rw [hproc] at hr hparent hi
  have hip : i ≠ p := by
    rintro rfl
    rw [Function.update_self] at hi
    cases hi
  rw [Function.update_of_ne hip] at hparent hi
  by_cases hrp : r = p
  · rw [hrp, Function.update_self] at hr
    rw [hrp] at hparent
    exact hnone (Option.some.inj hr.2) i hparent hi
  · rw [Function.update_of_ne hrp] at hr
    exact h r i hr hparent hi

/-- **Every step keeps it.** -/
theorem Attended.step (h : Attended k) (hc : Control k) (hnl : NoLoop k.lineage)
    (ha : Trans k a k') : Attended k' := by
  cases ha with
  | bootAlloc i | forkAlloc c p i => exact h.of_awake (j := i) rfl (by simp) (by simp)
  | bootFill i => exact h.of_update (j := i) rfl (fun hs => ⟨hs, rfl⟩) (fun hz => ⟨hz, rfl⟩)
  | bootPublish i => exact h.of_awake (j := i) rfl (by simp) (by simp)
  | dispatch c i => exact h.of_awake (j := i) rfl (by simp) (by simp)
  | yield c i => exact h.of_awake (j := i) rfl (by simp) (by simp)
  | forkPublish c p i => exact h.of_awake (j := i) rfl (by simp) (by simp)
  | forkFail c p i => exact h.of_awake (j := i) rfl (by simp) (by simp)
  | waitReap c p i => exact h.of_awake (j := i) rfl (by simp) (by simp)
  | resumeSleep c p hcpu =>
      have hran := hc.ran c p hcpu
      exact h.of_awake (j := p) rfl (by simp [hran]) (by simp [hran])
  | forkParent c p np hcpu hsusp hpc =>
      have hembryo := hc.child p np (by rw [hpc]; rfl)
      exact h.of_awake (j := np) rfl (by simp [hembryo]) (by simp [hembryo])
  | exitLast c p t hcpu hsusp hpc hlock ht hloop => exact h.exitLast hnl ht hloop rfl
  | sleep c p m chan hcpu hsusp hlock =>
      refine h.sleep (fun hchan => ?_) rfl
      rcases hlock with ⟨-, -, -, -, hnone⟩ | ⟨-, address, -, rfl⟩
      · exact hnone
      · cases hchan
  | kill c p i =>
      refine h.of_update (j := i) rfl (fun hs => ?_) (fun hz => ?_)
      · dsimp only at hs
        split_ifs at hs with hi
        exact ⟨hs, rfl⟩
      · dsimp only at hz
        split_ifs at hz with hi
        exact ⟨hz, rfl⟩
  | wakeup c address =>
      have hwoken := woken_wakeup1 k (some (.other address))
      refine h.of_le (fun p hp => hp.of_abandoned (.of_woken (p := p) hwoken)) (fun i hi => ?_)
      rcases hwoken.proc i with heq | ⟨-, heq⟩
      · rw [heq] at hi ⊢
        exact ⟨hi, rfl⟩
      · rw [heq] at hi
        cases hi
  | forkSize | forkFile | exitClose | resize | setFile =>
      exact h.of_update rfl (fun hs => ⟨hs, rfl⟩) (fun hz => ⟨hz, rfl⟩)
  | acquire | skip | release | resume | stay | forkNext | forkFiles | exit | exitClosed | wait
  | leave | query | queryNext => exact h.of_eq rfl

/-! ## Reachable kernels -/

/-- **`wait` never misses an exit**: in no reachable kernel a process is asleep in `wait` while a child
of it is a zombie. -/
theorem wait_misses_no_exit {as : List (Act nofile ncpu)} (h : run step .init as = some k)
    {p i : Fin nproc} (hs : (k.proc p).state = .sleeping) (hchan : (k.proc p).chan = some (.proc p))
    (hparent : (k.proc i).parent = some p) : (k.proc i).state ≠ .zombie := by
  refine (run_invariant (I := fun k : Kernel nproc nofile ncpu =>
    Related k ∧ NoLoop k.lineage ∧ Attended k) ⟨.start, ?_, ?_⟩ ?_ h).2.2 p i ⟨hs, hchan⟩ hparent
  · intro i hi
    cases hi
  · rintro p i ⟨hs, -⟩
    cases hs
  · rintro t a t' ⟨hrel, hnl, hatt⟩ hstep
    have htrans := step_trans hstep
    obtain ⟨hrel', hlineage⟩ := hrel.step htrans
    exact ⟨hrel', hnl.step hrel.family hlineage, hatt.step hrel.control hnl htrans⟩

/-- The first process forks a child, and waits for it. -/
def waitRun (c : Fin ncpu) : List (Act nofile ncpu) :=
  bootRun c ++ forkRun c ++ [.on c .wait, .on c .advance]

theorem wait_misses_no_exit_waitRun : ∃ k : Kernel 4 1 2, run step .init (waitRun 0) = some k ∧
    (k.proc 0).state = .sleeping ∧ (k.proc 1).state ≠ .zombie := by
  have hrun : (run step (.init : Kernel 4 1 2) (waitRun 0)).map
      (fun k => ((k.proc 0).state, (k.proc 0).chan, (k.proc 1).parent))
        = some (.sleeping, some (.proc 0), some 0) := by decide +kernel
  obtain ⟨k, hk, heq⟩ := Option.map_eq_some_iff.mp hrun
  simp only [Prod.mk.injEq] at heq
  obtain ⟨hs, hchan, hparent⟩ := heq
  exact ⟨k, hk, hs, wait_misses_no_exit hk hs hchan hparent⟩

end StudiesOS.ProcessTable
