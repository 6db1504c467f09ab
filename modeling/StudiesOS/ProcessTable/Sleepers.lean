import StudiesOS.ProcessTable.Waiting
import StudiesOS.ProcessTable.Children

/-! # Who sleeps in wait
A process that is asleep in `wait` has not been killed, and has a child that lives: so there is
somebody who can wake it. It is woken by the exit of a child, by a zombie that is passed on to it, or
by `kill`, in the step in which that happens and by nothing else. -/

namespace StudiesOS.ProcessTable

open Kernel Lineage

variable {nproc nofile ncpu : ℕ} {k k' t : Kernel nproc nofile ncpu} {a : Act nofile ncpu}
  {p q i : Fin nproc}

/-! ## Falling asleep -/

/-- **Who falls asleep in `wait`** has a child, none of its children is a zombie, and it has not been
killed. -/
theorem waitScan_sleeps {c : Fin ncpu} (hwaits : (k.waitScan c p).Waits p)
    (hrun : (k.proc p).state = .running) :
    (k.proc p).killed = false ∧ (∃ i, (k.proc i).parent = some p) ∧
      (k.waitScan c p).proc
        = Function.update k.proc p { k.proc p with chan := some (.proc p), state := .sleeping } ∧
      ∀ i, (k.proc i).parent = some p → (k.proc i).state ≠ .zombie := by
  unfold waitScan at hwaits ⊢
  cases hfind : (List.finRange nproc).find? fun i =>
      (k.proc i).parent = some p ∧ (k.proc i).state = .zombie with
  | some i =>
      -- the process goes on
      rw [hfind] at hwaits
      obtain ⟨hs, -⟩ := hwaits
      by_cases hip : p = i
      · subst hip
        simp [Kernel.setLock, Kernel.setPc] at hs
      · rw [setLock_proc, setPc_proc, modify_proc_of_ne k hip] at hs
        cases hs.symm.trans hrun
  | none =>
      rw [hfind] at hwaits
      dsimp only at hwaits ⊢
      split_ifs at hwaits ⊢ with hreturn
      · cases hwaits.1.symm.trans hrun
      · rw [not_or, Bool.not_eq_true] at hreturn
        simp only [not_forall, not_not] at hreturn
        refine ⟨hreturn.2, hreturn.1, rfl, fun i hi hz => ?_⟩
        have hnone := List.find?_eq_none.mp hfind i (List.mem_finRange i)
        exact hnone (by simpa using ⟨hi, hz⟩)

/-- One slot changes, whose process does not fall asleep. -/
theorem waits_of_update {j : Fin nproc} {x : Proc nproc nofile}
    (hproc : k'.proc = Function.update k.proc j x)
    (hx : x.state = .sleeping → (k.proc j).state = .sleeping ∧ x.chan = (k.proc j).chan)
    (h : k'.Waits q) : k.Waits q := by
  obtain ⟨hs, hchan⟩ := h
  rw [hproc] at hs hchan
  by_cases hqj : q = j
  · rw [hqj, Function.update_self] at hs hchan
    obtain ⟨hold, heq⟩ := hx hs
    rw [hqj]
    exact ⟨hold, heq ▸ hchan⟩
  · rw [Function.update_of_ne hqj] at hs hchan
    exact ⟨hs, hchan⟩

/-- **Who is asleep in `wait` behind a step** was so before, or has just called `sleep` there. -/
theorem waits_of_trans (hc : Control k) (ha : Trans k a k') (h : k'.Waits q) :
    k.Waits q ∨ ∃ c, a = .on c .advance ∧ k.cpu c = .ran q ∧ k.susp q = .awake ∧
      k.pc q = .waitScan ∧ k.lock = some c := by
  cases ha with
  | sleep c p m chan hcpu hsusp hlock =>
      by_cases hqp : q = p
      · subst hqp
        obtain ⟨-, hchan⟩ := h
        rw [sched_proc, modify_proc_self] at hchan
        rcases hlock with ⟨hm, hpc, hlock, -, -⟩ | ⟨-, address, -, rfl⟩
        · exact Or.inr ⟨c, by rw [hm], hcpu, hsusp, hpc, hlock⟩
        · cases hchan
      · obtain ⟨hs, hchan⟩ := h
        rw [sched_proc, modify_proc_of_ne k hqp] at hs hchan
        exact Or.inl ⟨hs, hchan⟩
  | bootAlloc j | forkAlloc c p j => exact Or.inl (waits_of_update (j := j) rfl (by simp) h)
  | bootPublish j => exact Or.inl (waits_of_update (j := j) rfl (by simp) h)
  | dispatch c j | yield c j => exact Or.inl (waits_of_update (j := j) rfl (by simp) h)
  | forkPublish c p j => exact Or.inl (waits_of_update (j := j) rfl (by simp) h)
  | forkFail c p j => exact Or.inl (waits_of_update (j := j) rfl (by simp) h)
  | waitReap c p j => exact Or.inl (waits_of_update (j := j) rfl (by simp) h)
  | resumeSleep c p hcpu =>
      have hran := hc.ran c p hcpu
      exact Or.inl (waits_of_update (j := p) rfl (by simp [hran]) h)
  | kill c p j =>
      refine Or.inl (waits_of_update (j := j) rfl (fun hs => ?_) h)
      dsimp only at hs
      split_ifs at hs with hj
      exact ⟨hs, rfl⟩
  | exitLast c p t hcpu hsusp hpc hlock ht =>
      have ht' : t.Waits q := waits_of_update (j := p) rfl (by simp) h
      exact Or.inl (ht'.of_abandoned ht)
  | wakeup c address => exact Or.inl (h.of_abandoned (.of_woken (p := q) (woken_wakeup1 k _)))
  | bootFill | forkSize | forkParent | forkFile | exitClose | resize | setFile =>
      refine Or.inl (waits_of_update rfl ?_ h)
      exact fun hs => ⟨hs, rfl⟩
  | acquire | skip | release | resume | stay | forkNext | forkFiles | exit | exitClosed | wait
  | leave | query | queryNext => exact Or.inl h

/-! ## Waking up -/

/-- **What wakes a process that is asleep in `wait`**: `kill`, the exit of a child, and for the first
process an exit that leaves a zombie to it. -/
def Kernel.Rouses (k : Kernel nproc nofile ncpu) (p : Fin nproc) (a : Act nofile ncpu) : Prop :=
  (∃ c pid, a = .on c (.kill pid) ∧ k.findPid pid = some p) ∨
    ∃ q, k.exits a = some q ∧ ((k.proc q).parent = some p ∨ k.initproc = some p ∧
      ∃ z, (k.proc z).parent = some q ∧ (k.proc z).state = .zombie)

/-- Waking another channel leaves who waits on this one. -/
theorem wakeup1_of_waits {chan : Option (Chan nproc)} (h : k.Waits p)
    (hchan : chan ≠ some (.proc p)) : (k.wakeup1 chan).proc p = k.proc p := by
  unfold wakeup1
  dsimp only
  rw [if_neg]
  rintro ⟨-, heq⟩
  exact hchan (heq.symm.trans h.2)

/-- The loop of `exit` does not wake a process that gets no zombie. -/
theorem waits_foldl_abandon {l : List (Fin nproc)} (h : k.Waits p)
    (hroot : k.initproc = some p → ∀ z, (k.proc z).parent = some q → (k.proc z).state ≠ .zombie) :
    (l.foldl (abandon q) k).Waits p := by
  induction l generalizing k with
  | nil => exact h
  | cons j l ih =>
      have hround := abandoned_abandon k q j
      rw [List.foldl_cons]
      refine ih ?_ fun hinit z hz hzombie => ?_
      · have hpass : (k.modify j fun x => { x with parent := k.initproc }).Waits p := by
          unfold Kernel.Waits
          rw [modify_proc]
          split <;> exact h
        unfold abandon
        split_ifs with hj hzombie
        · have hchan : k.initproc.map Chan.proc ≠ some (.proc p) := by
            intro heq
            obtain ⟨r, hr, hrp⟩ := Option.map_eq_some_iff.mp heq
            obtain rfl : r = p := Chan.proc.inj hrp
            exact hroot hr j hj hzombie
          unfold Kernel.Waits
          rw [wakeup1_of_waits hpass hchan]
          exact hpass
        · exact hpass
        · exact h
      · -- the zombies of the process have been its zombies before
        have hinit' : k.initproc = some p := by
          rw [hround.rest] at hinit
          exact hinit
        rcases hround.parent z with hsame | ⟨hold, hnew⟩
        · rcases hround.state z with hstate | ⟨-, hstate⟩
          · exact hroot hinit' z (hsame ▸ hz) (hstate ▸ hzombie)
          · cases hstate.symm.trans hzombie
        · rcases hround.state z with hstate | ⟨-, hstate⟩
          · exact hroot hinit' z hold (hstate ▸ hzombie)
          · cases hstate.symm.trans hzombie

/-- A change of a slot whose process is not asleep. -/
theorem proc_of_update {j : Fin nproc} {x : Proc nproc nofile} (h : k.Waits p)
    (hproc : k'.proc = Function.update k.proc j x) (hj : (k.proc j).state ≠ .sleeping) :
    k'.proc p = k.proc p := by
  have hpj : p ≠ j := by
    rintro rfl
    exact hj h.1
  rw [hproc, Function.update_of_ne hpj]

/-- Who does not go on sleeping while children are passed on has been woken. -/
theorem runnable_of_not_waits (h : k.Waits p) (ht : Abandoned q k t) (hnot : ¬ t.Waits p) :
    (t.proc p).state = .runnable := by
  rcases ht.state p with heq | ⟨-, heq⟩
  · refine absurd ⟨heq.trans h.1, ?_⟩ hnot
    rw [ht.proc p]
    exact h.2
  · exact heq

/-- **`exit` wakes exactly who has a reason to wake.** -/
theorem exitLast_rouses {c : Fin ncpu} (h : k.Waits p) (hcpu : k.cpu c = .ran q)
    (hsusp : k.susp q = .awake) (hpc : k.pc q = .exitLast) (ht : Abandoned q k t)
    (hloop : t = (List.finRange nproc).foldl (abandon q) (k.wakeup1 ((k.proc q).parent.map .proc))) :
    t.Waits p ∧ ¬ k.Rouses p (.on c .advance) ∨
      (t.proc p).state = .runnable ∧ k.Rouses p (.on c .advance) := by
  have hexits : k.exits (.on c .advance) = some q := by
    rw [exits, advancing_of_ran hcpu hsusp, Option.bind_some, if_pos hpc]
  have hrouses : k.Rouses p (.on c .advance) ↔ (k.proc q).parent = some p ∨ k.initproc = some p ∧
      ∃ z, (k.proc z).parent = some q ∧ (k.proc z).state = .zombie := by
    unfold Kernel.Rouses
    rw [hexits]
    simp
  rw [hrouses]
  by_cases hparent : (k.proc q).parent = some p
  · refine Or.inr ⟨runnable_of_not_waits h ht fun hwaits => ?_, Or.inl hparent⟩
    rw [hloop, hparent] at hwaits
    exact not_waits_wakeup1 p (hwaits.of_abandoned (abandoned_foldl _ q _))
  · have hchan : (k.proc q).parent.map Chan.proc ≠ some (.proc p) := by
      intro heq
      obtain ⟨r, hr, hrp⟩ := Option.map_eq_some_iff.mp heq
      exact hparent (hr.trans (congrArg some (Chan.proc.inj hrp)))
    have hwoken : (k.wakeup1 ((k.proc q).parent.map .proc)).Waits p := by
      unfold Kernel.Waits
      rw [wakeup1_of_waits h hchan]
      exact h
    -- a zombie is a zombie before and behind the first wake-up
    have hzombies : ∀ z, ((k.wakeup1 ((k.proc q).parent.map .proc)).proc z).parent
        = (k.proc z).parent ∧ (((k.wakeup1 ((k.proc q).parent.map .proc)).proc z).state = .zombie
          ↔ (k.proc z).state = .zombie) := by
      intro z
      rcases (woken_wakeup1 k ((k.proc q).parent.map .proc)).proc z with heq | ⟨hs, heq⟩
      · rw [heq]
        exact ⟨rfl, Iff.rfl⟩
      · rw [heq, hs]
        exact ⟨rfl, by simp⟩
    by_cases hpassed : k.initproc = some p ∧
        ∃ z, (k.proc z).parent = some q ∧ (k.proc z).state = .zombie
    · obtain ⟨hinit, z, hz, hzombie⟩ := hpassed
      refine Or.inr ⟨runnable_of_not_waits h ht fun hwaits => ?_, Or.inr ⟨hinit, z, hz, hzombie⟩⟩
      rw [hloop] at hwaits
      exact not_waits_foldl_abandon (k := k.wakeup1 ((k.proc q).parent.map .proc))
        (List.mem_finRange z) hinit ((hzombies z).1.trans hz) ((hzombies z).2.mpr hzombie) hwaits
    · refine Or.inl ⟨?_, fun hr => hr.elim hparent hpassed⟩
      rw [hloop]
      refine waits_foldl_abandon hwoken fun hinit z hz hzombie => hpassed ⟨hinit, z, ?_, ?_⟩
      · exact (hzombies z).1.symm.trans hz
      · exact (hzombies z).2.mp hzombie

/-- An action that is neither a kill nor an exit wakes nobody in `wait`. -/
theorem not_rouses (hkill : ∀ c pid, a ≠ .on c (.kill pid)) (hexits : k.exits a = none) :
    ¬ k.Rouses p a := by
  rintro (⟨c, pid, ha, -⟩ | ⟨q, hq, -⟩)
  · exact hkill c pid ha
  · cases hexits.symm.trans hq

/-- The next step of a call that is no `exit` wakes nobody in `wait`. -/
theorem not_rouses_advance {c : Fin ncpu} (hcpu : k.cpu c = .ran q) (hsusp : k.susp q = .awake)
    (hpc : k.pc q ≠ .exitLast) : ¬ k.Rouses p (.on c .advance) := by
  refine not_rouses (fun c pid => by simp) ?_
  rw [exits, advancing_of_ran hcpu hsusp, Option.bind_some, if_neg hpc]

/-- `kill` wakes the process that it finds. -/
theorem waiting_kill {c : Fin ncpu} {j : Fin nproc} {pid : ℤ} (h : k.Waits p)
    (hj : k.findPid pid = some j) {x : Proc nproc nofile}
    (hx : (k.proc j).state = .sleeping → x.state = .runnable)
    (hproc : k'.proc = Function.update k.proc j x) :
    k'.proc p = k.proc p ∧ ¬ k.Rouses p (.on c (.kill pid)) ∨
      (k'.proc p).state = .runnable ∧ k.Rouses p (.on c (.kill pid)) := by
  by_cases hpj : p = j
  · subst hpj
    refine Or.inr ⟨?_, Or.inl ⟨c, pid, rfl, hj⟩⟩
    rw [hproc, Function.update_self]
    exact hx h.1
  · refine Or.inl ⟨by rw [hproc, Function.update_of_ne hpj], ?_⟩
    rintro (⟨c', pid', ha, hfind⟩ | ⟨q, hq, -⟩)
    · obtain ⟨-, rfl⟩ : c = c' ∧ pid = pid' := by simpa using ha
      exact hpj (Option.some.inj (hfind.symm.trans hj))
    · cases hq

/-- **What a step does to a process that is asleep in `wait`**: it sleeps on as it is, or it has a
reason to wake and becomes runnable. -/
theorem waiting_step (hc : Control k) (h : k.Waits p) (ha : Trans k a k') :
    (k'.Waits p ∧ (k'.proc p).killed = (k.proc p).killed) ∧ ¬ k.Rouses p a ∨
      (k'.proc p).state = .runnable ∧ k.Rouses p a := by
  have hkeep : ∀ {t : Kernel nproc nofile ncpu}, t.proc p = k.proc p →
      t.Waits p ∧ (t.proc p).killed = (k.proc p).killed := by
    intro t heq
    unfold Kernel.Waits
    rw [heq]
    exact ⟨h, rfl⟩
  -- the slot `j` changes, whose process is not asleep
  have hslot : ∀ {t : Kernel nproc nofile ncpu} {j : Fin nproc} {x : Proc nproc nofile} {s : ProcState},
      t.proc = Function.update k.proc j x → (k.proc j).state = s → s ≠ .sleeping →
      t.Waits p ∧ (t.proc p).killed = (k.proc p).killed :=
    fun hproc hj hs => hkeep (proc_of_update h hproc (hj ▸ hs))
  cases ha with
  | bootAlloc j hboot hlock hj =>
      have hfree := state_of_firstUnused hj
      exact Or.inl ⟨hslot (j := j) rfl hfree (by decide), not_rouses (fun c pid => by simp) rfl⟩
  | bootFill j hboot | bootPublish j hboot =>
      have hembryo := (hc.boot j (by rw [hboot]; rfl)).1
      exact Or.inl ⟨hslot (j := j) rfl hembryo (by decide), not_rouses (fun c pid => by simp) rfl⟩
  | acquire | skip | release | resume =>
      exact Or.inl ⟨hkeep rfl, not_rouses (fun c pid => by simp) rfl⟩
  | dispatch c j hcpu hj =>
      exact Or.inl ⟨hslot (j := j) rfl hj (by decide), not_rouses (fun c pid => by simp) rfl⟩
  | resumeSleep c q hcpu | yield c q hcpu | resize c q sz hcpu | setFile c q fd file hcpu =>
      exact Or.inl ⟨hslot (j := q) rfl (hc.ran c q hcpu) (by decide),
        not_rouses (fun c pid => by simp) rfl⟩
  | stay c q m hcpu hsusp hlock hm =>
      refine Or.inl ⟨hkeep rfl, ?_⟩
      rcases hm with ⟨rfl, -⟩ | ⟨pid, rfl, hkill⟩ | ⟨pid, rfl, -⟩
      · exact not_rouses (fun c pid => by simp) rfl
      · -- this `kill` finds nobody
        rintro (⟨c', pid', ha, hfind⟩ | ⟨r, hr, -⟩)
        · obtain ⟨-, rfl⟩ : c = c' ∧ pid = pid' := by simpa using ha
          rw [Kernel.kill, hfind] at hkill
          cases congrArg Prod.snd hkill
        · cases hr
      · exact not_rouses (fun c pid => by simp) rfl
  | forkAlloc c q np hcpu hsusp hpc hlock hnp =>
      have hfree := state_of_firstUnused hnp
      exact Or.inl ⟨hslot (j := np) rfl hfree (by decide), not_rouses (fun c pid => by simp) rfl⟩
  | forkNext c q np m pc' hcpu hsusp hpc =>
      refine Or.inl ⟨hkeep rfl, ?_⟩
      rcases hpc with ⟨-, rfl, -⟩ | ⟨-, rfl, -⟩ <;> exact not_rouses (fun c pid => by simp) rfl
  | forkFail c q np m hcpu hsusp hpc =>
      have hembryo := hc.child q np (child_of_failing hpc)
      refine Or.inl ⟨hslot (j := np) rfl hembryo (by decide), ?_⟩
      rcases hpc with ⟨-, rfl⟩ | ⟨-, rfl⟩ <;> exact not_rouses (fun c pid => by simp) rfl
  | forkSize c q np hcpu hsusp hpc | forkParent c q np hcpu hsusp hpc
  | forkFile c q np fd hcpu hsusp hpc | forkPublish c q np hcpu hsusp hpc =>
      have hembryo := hc.child q np (by rw [hpc]; rfl)
      exact Or.inl ⟨hslot (j := np) rfl hembryo (by decide),
        not_rouses_advance hcpu hsusp (by rw [hpc]; simp)⟩
  | forkFiles c q np fd hcpu hsusp hpc | exitClosed c q fd hcpu hsusp hpc =>
      exact Or.inl ⟨hkeep rfl, not_rouses_advance hcpu hsusp (by rw [hpc]; simp)⟩
  | exit c q | wait c q => exact Or.inl ⟨hkeep rfl, not_rouses (fun c pid => by simp) rfl⟩
  | exitClose c q fd hcpu hsusp hpc =>
      exact Or.inl ⟨hslot (j := q) rfl (hc.ran c q hcpu) (by decide),
        not_rouses_advance hcpu hsusp (by rw [hpc]; simp)⟩
  | exitLast c q t hcpu hsusp hpc hlock ht hloop =>
      have hpq : p ≠ q := by
        rintro rfl
        cases h.1.symm.trans (hc.ran c p hcpu)
      have hother : ((t.modify q fun x => { x with state := .zombie }).sched c q .exited).proc p
          = t.proc p := by rw [sched_proc, modify_proc_of_ne t hpq]
      unfold Kernel.Waits
      rw [hother]
      rcases exitLast_rouses h hcpu hsusp hpc ht hloop with ⟨hwaits, hnot⟩ | hwoken
      · exact Or.inl ⟨⟨hwaits, by rw [ht.proc p]⟩, hnot⟩
      · exact Or.inr hwoken
  | waitReap c q j hcpu hsusp hpc hlock hparent hj =>
      exact Or.inl ⟨hslot (j := j) rfl hj (by decide),
        not_rouses_advance hcpu hsusp (by rw [hpc]; simp)⟩
  | leave c q hcpu hsusp hpc =>
      refine Or.inl ⟨hkeep rfl, not_rouses_advance hcpu hsusp ?_⟩
      rcases hpc with hpc | ⟨j, n, hpc⟩ | ⟨j, n, hpc⟩ | ⟨i, hpc⟩ <;> rw [hpc] <;> simp
  | sleep c q m chan hcpu hsusp hlock =>
      refine Or.inl ⟨hslot (j := q) rfl (hc.ran c q hcpu) (by decide), ?_⟩
      rcases hlock with ⟨rfl, hpc, -⟩ | ⟨-, address, rfl, -⟩
      · exact not_rouses_advance hcpu hsusp (by rw [hpc]; simp)
      · exact not_rouses (fun c pid => by simp) rfl
  | kill c q j pid hcpu hsusp hpc hlock hj =>
      refine Or.imp (And.imp_left hkeep) id ?_
      exact waiting_kill h hj (fun hs => if_pos hs) rfl
  | wakeup c address =>
      exact Or.inl ⟨hkeep (wakeup1_of_waits h (by simp)), not_rouses (fun c pid => by simp) rfl⟩
  | query c q m pc' hcpu hsusp hpc hlock hm =>
      refine Or.inl ⟨hkeep rfl, ?_⟩
      rcases hm with ⟨rfl, -⟩ | ⟨rfl, -⟩ | ⟨pid, j, rfl, -, -⟩ <;>
        exact not_rouses (fun c pid => by simp) rfl
  | queryNext c q j pc' hcpu hsusp hlock hpc =>
      refine Or.inl ⟨hkeep rfl, not_rouses_advance hcpu hsusp ?_⟩
      rcases hpc with ⟨n, hpc, -⟩ | ⟨n, hpc, -⟩ <;> rw [hpc] <;> simp

/-! ## A child that lives -/

/-- **Who is asleep in `wait`** has not been killed, and has a child that lives. -/
def Hopeful (k : Kernel nproc nofile ncpu) : Prop :=
  ∀ p, k.Waits p → (k.proc p).killed = false ∧
    ∃ i, (k.proc i).parent = some p ∧ k.lineage.status i = .alive

/-- Who is asleep is not the one who advances. -/
theorem advancing_ne_of_waits (hc : Control k) (h : k.Waits p) : k.advancing a ≠ some p := by
  intro hp
  obtain ⟨c, -, hcpu, -⟩ := of_advancing hp
  cases h.1.symm.trans (hc.ran c p hcpu)

/-- The state of a zombie. -/
theorem state_of_zombie (h : k.lineage.status i = .zombie) : (k.proc i).state = .zombie := by
  cases hs : (k.proc i).state with
  | zombie => rfl
  | unused | embryo | sleeping | runnable | running =>
      cases (congrArg ProcState.status hs).symm.trans h

/-- **Who goes on sleeping keeps its child**, and the child lives on. -/
theorem child_of_sleeper (hrel : Related k) (hatt : Attended k') (ha : Trans k a k')
    (hold : k.Waits p) (hnew : k'.Waits p) (hparent : (k.proc i).parent = some p)
    (halive : k.lineage.status i = .alive) :
    (k'.proc i).parent = some p ∧ k'.lineage.status i = .alive := by
  have hadv := advancing_ne_of_waits (a := a) hrel.control hold
  have hchild : ChildOf k.lineage p i (k.proc i).pid := ⟨rfl, Or.inl halive, hparent⟩
  -- neither `exit` nor the return of `wait` is a step of a sleeper
  have hexit : k.exits a ≠ some p := by
    intro hexit
    obtain ⟨q, hq, hexit⟩ := Option.bind_eq_some_iff.mp hexit
    split_ifs at hexit
    cases hexit
    exact hadv hq
  have hwait : k.waitReturns a ≠ some (p, (k.proc i).pid) := by
    intro hwait
    obtain ⟨q, hq, hwait⟩ := Option.bind_eq_some_iff.mp hwait
    split_ifs at hwait
    obtain ⟨j, -, heq⟩ := Option.map_eq_some_iff.mp hwait
    exact hadv (hq.trans (congrArg some (Prod.mk.inj heq).1))
  have hchild' := (childOf_step hrel hchild ha hexit hwait).1
  refine ⟨hchild'.parent, hchild'.born.resolve_right fun hzombie => ?_⟩
  exact hatt p i hnew hchild'.parent (state_of_zombie hzombie)

/-- **The child of a process in `wait` lives**, where it is no zombie: an embryo is not entered as a
child by anybody in `wait`. -/
theorem alive_of_child (hrel : Related k) (hraised : Raised k.lineage) (hpc : k.pc p = .waitScan)
    (hparent : (k.proc i).parent = some p) (hzombie : (k.proc i).state ≠ .zombie) :
    k.lineage.status i = .alive := by
  cases hs : k.lineage.status i with
  | alive => rfl
  | free => cases (hrel.family.free i hs).symm.trans hparent
  | embryo =>
      have hstage : k.lineage.stage p = .idle := congrArg Pc.stage hpc
      cases hstage.symm.trans (hraised i p hs hparent)
  | zombie => exact absurd (state_of_zombie hs) hzombie

/-- **Every step keeps it.** -/
theorem Hopeful.step (h : Hopeful k) (hrel : Related k) (hnl : NoLoop k.lineage)
    (hraised : Raised k.lineage) (hatt : Attended k') (hstep : step k a = some k') :
    Hopeful k' := by
  have ha := step_trans hstep
  have hc := hrel.control
  intro p hp
  rcases waits_of_trans hc ha hp with hold | ⟨c, rfl, hcpu, hsusp, hpc, hlock⟩
  · obtain ⟨hkilled, i, hparent, halive⟩ := h p hold
    refine ⟨?_, i, child_of_sleeper hrel hatt ha hold hp hparent halive⟩
    rcases waiting_step hc hold ha with ⟨⟨-, heq⟩, -⟩ | ⟨hrunnable, -⟩
    · exact heq.trans hkilled
    · cases hp.1.symm.trans hrunnable
  · -- the process has just looked through the table
    rw [step_of_ran hcpu hsusp] at hstep
    simp only [callStep, advanceStep, hpc, if_pos hlock, Option.some.injEq] at hstep
    subst hstep
    obtain ⟨hkilled, ⟨i, hi⟩, hproc, hzombie⟩ := waitScan_sleeps hp (hc.ran c p hcpu)
    have hip : i ≠ p := by
      rintro rfl
      exact hnl i hi
    have hi' : (k.waitScan c p).proc i = k.proc i := by rw [hproc, Function.update_of_ne hip]
    refine ⟨?_, i, ?_, ?_⟩
    · rw [hproc, Function.update_self]
      exact hkilled
    · rw [hi', hi]
    · show ((k.waitScan c p).proc i).state.status = .alive
      rw [hi']
      exact alive_of_child hrel hraised hpc hi (hzombie i hi)

/-! ## Reachable kernels -/

/-- **What is known of the sleepers** in a reachable kernel. -/
structure Watched (k : Kernel nproc nofile ncpu) : Prop where
  /-- Parents. -/
  related : Related k
  /-- Nobody is its own parent. -/
  noLoop : NoLoop k.lineage
  /-- Embryos are being raised. -/
  raised : Raised k.lineage
  /-- Nobody asleep in `wait` has a zombie child. -/
  attended : Attended k
  /-- Each of them has a child that lives. -/
  hopeful : Hopeful k

/-- At the start. -/
theorem Watched.start : Watched (.init : Kernel nproc nofile ncpu) where
  related := .start
  noLoop i hi := by cases hi
  raised i q hi := by cases hi
  attended p i hp := by cases hp.1
  hopeful p hp := by cases hp.1

/-- Every step keeps it. -/
theorem Watched.step (h : Watched k) (hstep : step k a = some k') : Watched k' := by
  have htrans := step_trans hstep
  obtain ⟨hrel', hlineage⟩ := h.related.step htrans
  have hatt' := h.attended.step h.related.control h.noLoop htrans
  exact ⟨hrel', h.noLoop.step h.related.family hlineage, h.raised.step h.related.family hlineage,
    hatt', h.hopeful.step h.related h.noLoop h.raised hatt' hstep⟩

/-- **It holds of every reachable kernel.** -/
theorem Watched.of_run {as : List (Act nofile ncpu)} (h : run ProcessTable.step .init as = some k) :
    Watched k :=
  run_invariant .start (fun _ _ _ ht hstep => ht.step hstep) h

/-- **Who sleeps in `wait` sleeps rightly, and wakes in time**: it has not been killed and has a child
that lives, so that it can be woken; it is woken in the very step that gives it a reason (`Rouses`),
and in no other step. -/
theorem wait_sleeps_rightly {as : List (Act nofile ncpu)} (h : run step .init as = some k)
    (hs : (k.proc p).state = .sleeping) (hchan : (k.proc p).chan = some (.proc p)) :
    (k.proc p).killed = false ∧
    (∃ i, (k.proc i).parent = some p ∧ ((k.proc i).state = .sleeping ∨
      (k.proc i).state = .runnable ∨ (k.proc i).state = .running)) ∧
    ∀ a k', step k a = some k' → ((k'.proc p).state = .runnable ↔ k.Rouses p a) ∧
      ((k'.proc p).state = .sleeping ↔ ¬ k.Rouses p a) := by
  have hwatched := Watched.of_run h
  obtain ⟨hkilled, i, hparent, halive⟩ := hwatched.hopeful p ⟨hs, hchan⟩
  refine ⟨hkilled, ⟨i, hparent, ?_⟩, fun a k' hstep => ?_⟩
  · have halive : (k.proc i).state.status = .alive := halive
    cases hi : (k.proc i).state with
    | sleeping => exact Or.inl rfl
    | runnable => exact Or.inr (Or.inl rfl)
    | running => exact Or.inr (Or.inr rfl)
    | unused | embryo | zombie =>
        rw [hi] at halive
        cases halive
  · rcases waiting_step hwatched.related.control ⟨hs, hchan⟩ (step_trans hstep) with
      ⟨⟨⟨hasleep, -⟩, -⟩, hnot⟩ | ⟨hrunnable, hrouses⟩
    · rw [hasleep]
      simp [hnot]
    · rw [hrunnable]
      simp [hrouses]

/-- While the first process waits, its child runs and is about to finish its `exit`. -/
def childLastRun (c : Fin ncpu) : List (Act nofile ncpu) :=
  waitRun c ++ [.on c .schedule, .on c .resume, .on c .exit] ++ List.replicate (nofile + 1) (.on c .advance)

/-- The next step of the child wakes the first process. -/
theorem wait_sleeps_rightly_childLastRun : ∃ k k' : Kernel 4 1 2,
    run step .init (childLastRun 0) = some k ∧ (k.proc 0).state = .sleeping ∧
      (k.proc 0).killed = false ∧ step k (.on 0 .advance) = some k' ∧
      (k'.proc 0).state = .runnable ∧ k.Rouses 0 (.on 0 .advance) := by
  have hrun : ((run step (.init : Kernel 4 1 2) (childLastRun 0)).bind fun k =>
      (step k (.on 0 .advance)).map fun k' =>
        ((k.proc 0).state, (k.proc 0).chan, (k'.proc 0).state))
      = some (.sleeping, some (.proc 0), .runnable) := by
    decide +kernel
  obtain ⟨k, hk, hnext⟩ := Option.bind_eq_some_iff.mp hrun
  obtain ⟨k', hk', heq⟩ := Option.map_eq_some_iff.mp hnext
  simp only [Prod.mk.injEq] at heq
  obtain ⟨hs, hchan, hwoken⟩ := heq
  obtain ⟨hkilled, -, hwakes⟩ := wait_sleeps_rightly hk hs hchan
  exact ⟨k, k', hk, hs, hkilled, hk', hwoken, (hwakes _ k' hk').1.mp hwoken⟩

end StudiesOS.ProcessTable
