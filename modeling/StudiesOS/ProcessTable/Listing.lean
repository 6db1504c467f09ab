import StudiesOS.ProcessTable.Ps

/-! # The listing of `ps`
While a query holds the lock, only a failing fork can take a process off the table (`Undisturbed`).
The largest pid was an active one's, so every pid found later was given out before: its process was
active all through `getMaxPid`, and there are no more of them than slots. -/

namespace StudiesOS.ProcessTable

open Kernel

variable {nproc nofile ncpu : ℕ} {k k' : Kernel nproc nofile ncpu} {a : Act nofile ncpu}
  {self : Fin nproc} {c : Fin ncpu}

/-! ## While a query holds the lock -/

/-- **The process `p` is on CPU `c` and holds the lock.** -/
structure Holds (k : Kernel nproc nofile ncpu) (p : Fin nproc) (c : Fin ncpu) : Prop where
  /-- It is on the CPU. -/
  cpu : k.cpu c = .ran p
  /-- It has not been switched out. -/
  awake : k.susp p = .awake
  /-- The lock. -/
  lock : k.lock = some c

/-- **The slot in which a failing fork stores `UNUSED`** in this step, without the lock. -/
def Kernel.failsFork (k : Kernel nproc nofile ncpu) : Act nofile ncpu → Option (Fin nproc)
  | .on c (.kalloc false) | .on c (.copyuvm false) =>
      match k.cpu c with
      | .ran p => (k.pc p).child
      | .idle | .scan _ => none
  | _ => none

/-- **What can happen elsewhere** while the process `p` on CPU `c` holds the lock. -/
structure Undisturbed (k : Kernel nproc nofile ncpu) (a : Act nofile ncpu)
    (k' : Kernel nproc nofile ncpu) (p : Fin nproc) (c : Fin ncpu) : Prop where
  /-- It still does. -/
  holds : Holds k' p c
  /-- It stays where it is. -/
  pc : k'.pc p = k.pc p
  /-- No pid is given out. -/
  nextpid : k'.nextpid = k.nextpid
  /-- Slots are kept, but of those which a failing fork gives back. -/
  slot : ∀ i, Kept k k' i ∨ (k'.proc i).pid = (k.proc i).pid ∧ k.failsFork a = some i

/-- Nothing that matters changes. -/
theorem Undisturbed.quiet (h : Holds k self c) (hcpu : k'.cpu c = k.cpu c)
    (hsusp : k'.susp = k.susp) (hlock : k'.lock = k.lock) (hpc : k'.pc self = k.pc self)
    (hnext : k'.nextpid = k.nextpid) (hslot : ∀ i, Kept k k' i) : Undisturbed k a k' self c :=
  ⟨⟨hcpu.trans h.cpu, hsusp ▸ h.awake, hlock.trans h.lock⟩, hpc, hnext, fun i => Or.inl (hslot i)⟩

/-- **Whatever happens elsewhere** is one of these. -/
theorem undisturbed (h : Holds k self c) (he : k.Elsewhere self a)
    (ha : Trans k a k') : Undisturbed k a k' self c := by
  have hheld : k.lock ≠ none := by
    rw [h.lock]
    exact Option.some_ne_none c
  have hcpus : ∀ {c'}, k.lock = some c' → c' = c := fun hlock =>
    Option.some.inj (hlock.symm.trans h.lock)
  have hother : ∀ {c'} {p : Fin nproc} {m : Move nofile}, k.Elsewhere self (.on c' m) →
      m.incidental = false → k.cpu c' = .ran p → p ≠ self := by
    rintro c' p m he hm hcpu rfl
    exact Bool.noConfusion (hm.symm.trans (he hcpu))
  have hsetPc : ∀ {p : Fin nproc} {pc' : Pc nproc}, p ≠ self →
      Function.update k.pc p pc' self = k.pc self := fun hp => Function.update_of_ne hp.symm _ _
  cases ha with
  -- these acquire the lock, which the query holds
  | bootAlloc | bootPublish | acquire | stay | forkAlloc | forkPublish | exitLast | wait | yield | kill
  | wakeup | query => exact absurd ‹k.lock = none› hheld
  -- and these have it, so that they are steps of the CPU of the query
  | release c' j hcpu hj hlock =>
      rw [hcpus hlock, h.cpu] at hcpu
      cases hcpu
  | resume c' p hcpu hlock hsusp =>
      rw [hcpus hlock, h.cpu] at hcpu
      cases hcpu
      rcases hsusp with hsusp | hsusp <;> cases h.awake.symm.trans hsusp
  | resumeSleep c' p hcpu hlock hsusp =>
      rw [hcpus hlock, h.cpu] at hcpu
      cases hcpu
      cases h.awake.symm.trans hsusp
  | waitReap c' p i hcpu hsusp hpc hlock | leave c' p hcpu hsusp hpc hlock
  | queryNext c' p j pc' hcpu hsusp hlock =>
      have hp := hother he rfl hcpu
      rw [hcpus hlock, h.cpu] at hcpu
      cases hcpu
      exact absurd rfl hp
  | sleep c' p m chan hcpu hsusp hlock =>
      rcases hlock with ⟨rfl, -, hlock, -⟩ | ⟨hlock, -⟩
      · have hp := hother he rfl hcpu
        rw [hcpus hlock, h.cpu] at hcpu
        cases hcpu
        exact absurd rfl hp
      · exact absurd hlock hheld
  | bootFill i =>
      have hfill : ∀ j, Kept k (k.modify i fun p => { p with sz := pgsize }) j :=
        fun _ => .modify i rfl rfl Iff.rfl
      exact .quiet h rfl rfl rfl rfl rfl fun j => (hfill j).of_proc rfl
  | skip c' j hcpu =>
      have hne : c ≠ c' := by
        rintro rfl
        cases h.cpu.symm.trans hcpu
      exact .quiet h (Function.update_of_ne hne _ _) rfl rfl rfl rfl fun _ => .of_eq rfl
  | dispatch c' j hcpu hj =>
      have hne : c ≠ c' := by
        rintro rfl
        cases h.cpu.symm.trans hcpu
      refine .quiet h (Function.update_of_ne hne _ _) rfl rfl rfl rfl fun _ => .setCpu ?_
      refine .modify j rfl rfl ⟨fun _ => ?_, fun _ => ?_⟩
      · rw [hj]
        decide
      · simp
  | forkFail c' p np m hcpu hsusp hpc =>
      have hm : m = .kalloc false ∨ m = .copyuvm false := hpc.imp And.right And.right
      have hp : p ≠ self := by
        refine hother he ?_ hcpu
        rcases hm with rfl | rfl <;> rfl
      refine ⟨⟨h.cpu, h.awake, h.lock⟩, hsetPc hp, rfl, fun i => ?_⟩
      -- the one way in which a slot is freed without the lock
      by_cases hi : i = np
      · subst hi
        refine Or.inr ⟨?_, ?_⟩
        · rw [setPc_proc, modify_proc_self]
        · rcases hpc with ⟨hpc, rfl⟩ | ⟨hpc, rfl⟩ <;> simp only [failsFork, hcpu, hpc] <;> rfl
      · exact Or.inl (.setPc (.modify_of_ne hi _))
  | forkNext c' p np m pc' hcpu hsusp hpc =>
      have hp : p ≠ self := by
        refine hother he ?_ hcpu
        rcases hpc with ⟨-, rfl, -⟩ | ⟨-, rfl, -⟩ <;> rfl
      exact .quiet h rfl rfl rfl (hsetPc hp) rfl fun _ => .of_eq rfl
  | forkFiles c' p np fd hcpu | exit c' p hcpu | exitClosed c' p fd hcpu =>
      exact .quiet h rfl rfl rfl (hsetPc (hother he rfl hcpu)) rfl fun _ => .of_eq rfl
  | forkSize c' p np hcpu | forkParent c' p np hcpu | forkFile c' p np fd hcpu
  | exitClose c' p fd hcpu =>
      exact .quiet h rfl rfl rfl (hsetPc (hother he rfl hcpu)) rfl fun _ =>
        .setPc (.modify _ rfl rfl Iff.rfl)
  | resize c' p sz hcpu | setFile c' p fd file hcpu =>
      exact .quiet h rfl rfl rfl rfl rfl fun _ => .modify p rfl rfl Iff.rfl

/-! ## Where `main` stands -/

variable {s s' t u : PsSystem nproc nofile ncpu} {b : PsAct nofile ncpu}

/-- The pid for which `getProcInfo` has found a slot. -/
def Ps.asked (ps : Ps) : Option ℤ :=
  match ps.pc with
  | .inFind pid => some pid
  | .inPrint i => ps.pids[i]?
  | _ => none

/-- **Inside of a query the process holds the lock**, and the slot that `getProcInfo` has found bears
the pid. -/
structure Linked (p : Fin nproc) (s : PsSystem nproc nofile ncpu) : Prop where
  /-- In `getMaxPid`. -/
  scan : s.ps.pc = .inMaxPid → (∃ c, Holds s.kernel p c) ∧
    ∃ j maxpid, s.kernel.pc p = .maxScan j maxpid ∧ maxpid < s.kernel.nextpid
  /-- In `getProcInfo`. -/
  info : ∀ pid, s.ps.asked = some pid → (∃ c, Holds s.kernel p c) ∧
    ∃ j, s.kernel.pc p = .infoFill j ∧ (s.kernel.proc j).pid = pid

/-- **How far the listing is**: `pids` is ascending, and the rows are for pids that `main` has come
past. -/
def Listed (ps : Ps) : Prop :=
  ps.pids.Pairwise (· < ·) ∧
    match ps.pc with
    | .numProc | .inNumProc | .maxPid | .inMaxPid => ps.pids = [] ∧ ps.overrun = false ∧ ps.rows = []
    | .find pid | .inFind pid => (∀ q ∈ ps.pids, q < pid) ∧ ps.rows = []
    | .print i | .inPrint i => (ps.rows.map Row.pid).Sublist (ps.pids.take i)
    | .done => (ps.rows.map Row.pid).Sublist ps.pids

/-- A pid that is out of question. -/
theorem Linked.idle (hpc : s.ps.pc ≠ .inMaxPid) (hasked : s.ps.asked = none) : Linked self s :=
  ⟨fun h => absurd h hpc, fun pid h => by rw [hasked] at h; cases h⟩

/-- **Every step keeps the link.** -/
theorem Linked.step (h : Linked self s) (hnum : Numbered s.kernel) (hmove : PsMove self s b s') :
    Linked self s' := by
  have hsound := hnum.sound
  cases hmove with
  | other a k' he hk =>
      constructor
      · intro hpc
        obtain ⟨⟨c, hold⟩, j, maxpid, hself, hlt⟩ := h.scan hpc
        have hu := undisturbed hold he hk
        exact ⟨⟨c, hu.holds⟩, j, maxpid, hu.pc.trans hself, hu.nextpid ▸ hlt⟩
      · intro pid hasked
        obtain ⟨⟨c, hold⟩, j, hself, hpid⟩ := h.info pid hasked
        have hu := undisturbed hold he hk
        refine ⟨⟨c, hu.holds⟩, j, hu.pc.trans hself, ?_⟩
        rcases hu.slot j with hkept | ⟨hsame, -⟩
        · exact hkept.pid.trans hpid
        · exact hsame.trans hpid
  | main c s' hcpu hsusp hmove =>
      -- a query that begins holds the lock
      have hbegin : ∀ pc', Holds ((s.kernel.setLock (some c)).setPc self pc') self c :=
        fun pc' => ⟨hcpu, hsusp, rfl⟩
      cases hmove with
      | numProc | numDone | maxDone | skip | sort | store | skipRow | endRows | row =>
          exact .idle (by simp) rfl
      | numNext k' hpc => exact .idle (by simp [hpc]) (by simp [Ps.asked, hpc])
      | maxPid hpc hk =>
          refine ⟨fun _ => ⟨⟨c, hbegin _⟩, 0, 0, setPc_pc_self _ _ _, ?_⟩, fun pid hasked => ?_⟩
          · exact Int.lt_of_lt_of_le Int.zero_lt_one hsound.next_pos
          · cases hasked
      | maxNext j maxpid hpc hself hk =>
          obtain ⟨⟨c', hold⟩, j', maxpid', hself', hlt⟩ := h.scan hpc
          cases hself.symm.trans hself'
          refine ⟨fun _ => ⟨⟨c', hold.cpu, hold.awake, hold.lock⟩, _, _, setPc_pc_self _ _ _, ?_⟩,
            fun pid hasked => ?_⟩
          · have hpid : (s.kernel.proc j).pid < s.kernel.nextpid := (hsound.range j).2
            show s.kernel.maxActive maxpid j < s.kernel.nextpid
            unfold maxActive
            split_ifs
            · exact hpid
            · exact hlt
            · exact hlt
          · simp [Ps.asked, hpc] at hasked
      | ask pid i hpc hle hfind hk =>
          refine ⟨nofun, fun pid' hasked => ?_⟩
          obtain rfl : pid = pid' := Option.some.inj hasked
          exact ⟨⟨c, hbegin _⟩, i, setPc_pc_self _ _ _, (of_findActive hfind).2⟩
      | askRow i pid j hpc hpid hfind hk =>
          refine ⟨nofun, fun pid' hasked => ?_⟩
          obtain rfl : pid = pid' := Option.some.inj (hpid.symm.trans hasked)
          exact ⟨⟨c, hbegin _⟩, j, setPc_pc_self _ _ _, (of_findActive hfind).2⟩

/-- **Every step keeps the listing.** -/
theorem Listed.step (h : Listed s.ps) (hmove : PsMove self s b s') : Listed s'.ps := by
  cases hmove with
  | other => exact h
  | main c s' hcpu hsusp hmove =>
      obtain ⟨hasc, hphase⟩ := h
      cases hmove with
      | numNext k' hpc | maxNext j maxpid hpc => exact ⟨hasc, hphase⟩
      | numProc k' hpc | numDone k' count hpc | maxPid hpc =>
          rw [hpc] at hphase
          exact ⟨hasc, hphase⟩
      | maxDone k' j maxpid hpc =>
          rw [hpc] at hphase
          obtain ⟨hnil, -, hrows⟩ := hphase
          refine ⟨hasc, fun q hq => ?_, hrows⟩
          rw [hnil] at hq
          exact absurd hq List.not_mem_nil
      | ask pid i hpc =>
          rw [hpc] at hphase
          exact ⟨hasc, hphase⟩
      | skip pid hpc =>
          rw [hpc] at hphase
          exact ⟨hasc, fun q hq => (hphase.1 q hq).trans (Int.lt_succ pid), hphase.2⟩
      | sort pid pids hpc hsort =>
          rw [hpc] at hphase
          rw [sortPids_of_sorted hasc] at hsort
          cases hsort
          refine ⟨hasc, ?_⟩
          show (s.ps.rows.map Row.pid).Sublist _
          rw [hphase.2]
          exact List.nil_sublist _
      | store pid k' hpc =>
          rw [hpc] at hphase
          obtain ⟨hbelow, hrows⟩ := hphase
          refine ⟨List.pairwise_append.mpr ⟨hasc, List.pairwise_singleton _ _, fun q hq r hr => ?_⟩,
            fun q hq => ?_, hrows⟩
          · rw [List.mem_singleton.mp hr]
            exact hbelow q hq
          · rcases List.mem_append.mp hq with hq | hq
            · exact (hbelow q hq).trans (Int.lt_succ pid)
            · rw [List.mem_singleton.mp hq]
              exact Int.lt_succ pid
      | askRow i pid j hpc =>
          rw [hpc] at hphase
          exact ⟨hasc, hphase⟩
      | skipRow i hpc =>
          rw [hpc] at hphase
          exact ⟨hasc, List.Sublist.trans hphase (List.take_sublist_take_left (Nat.le_succ i))⟩
      | endRows i hpc =>
          rw [hpc] at hphase
          exact ⟨hasc, hphase.trans (List.take_sublist i _)⟩
      | row i pid j k' hpc hpid =>
          rw [hpc] at hphase
          refine ⟨hasc, ?_⟩
          show ((s.ps.rows ++ [Row.ofInfo pid (s.kernel.procInfo j)]).map Row.pid).Sublist _
          obtain ⟨hi, rfl⟩ := List.getElem?_eq_some_iff.mp hpid
          rw [List.map_append, List.take_succ_eq_append_getElem hi]
          exact hphase.append (List.Sublist.refl _)

/-- The rows are for pids in the array, in their order. -/
theorem Listed.rows (h : Listed s.ps) : (s.ps.rows.map Row.pid).Sublist s.ps.pids := by
  obtain ⟨-, hphase⟩ := h
  cases hpc : s.ps.pc with
  | numProc | inNumProc | maxPid | inMaxPid =>
      rw [hpc] at hphase
      rw [hphase.2.2]
      exact List.nil_sublist _
  | find pid | inFind pid =>
      rw [hpc] at hphase
      rw [hphase.2]
      exact List.nil_sublist _
  | print i | inPrint i =>
      rw [hpc] at hphase
      exact List.Sublist.trans hphase (List.take_sublist i _)
  | done =>
      rw [hpc] at hphase
      exact hphase

/-! ## Since `getMaxPid` -/

/-- An active process has the pid. -/
def Kernel.HasPid (k : Kernel nproc nofile ncpu) (pid : ℤ) : Prop :=
  ∃ i, (k.proc i).state ≠ .unused ∧ (k.proc i).pid = pid

/-- There are no more pids of active processes than slots. -/
theorem length_le_of_hasPid {pids : List ℤ} (hnodup : pids.Nodup)
    (hactive : ∀ pid ∈ pids, k.HasPid pid) : pids.length ≤ nproc := by
  have hsub : pids.toFinset ⊆ Finset.univ.image fun i => (k.proc i).pid := by
    intro pid hpid
    obtain ⟨i, -, hi⟩ := hactive pid (List.mem_toFinset.mp hpid)
    exact Finset.mem_image.mpr ⟨i, Finset.mem_univ i, hi⟩
  calc pids.length = pids.toFinset.card := (List.toFinset_card_of_nodup hnodup).symm
    _ ≤ (Finset.univ.image fun i => (k.proc i).pid).card := Finset.card_le_card hsub
    _ ≤ (Finset.univ : Finset (Fin nproc)).card := Finset.card_image_le
    _ = nproc := by rw [Finset.card_univ, Fintype.card_fin]

/-- **What is stored was active** in the state `t`, in which `getMaxPid` was under way. -/
structure Recorded (t u : PsSystem nproc nofile ncpu) : Prop where
  /-- Who was active then. -/
  since : Registry.Since t.kernel.registry u.kernel.registry
  /-- The largest pid has been given out by then. -/
  largest : match u.ps.pc with
    | .numProc | .inNumProc | .maxPid => False
    | .inMaxPid => u.kernel.nextpid = t.kernel.nextpid
    | .find _ | .inFind _ | .print _ | .inPrint _ | .done => u.ps.maxPid < t.kernel.nextpid
  /-- The pids stored. -/
  stored : ∀ pid ∈ u.ps.pids, t.kernel.HasPid pid
  /-- The pid about to be stored. -/
  found : ∀ pid, u.ps.pc = .inFind pid → t.kernel.HasPid pid
  /-- All of them are inside of the array. -/
  inside : nproc ≤ pidsLength → u.ps.overrun = false

/-- **Every step keeps the record.** -/
theorem Recorded.step (h : Recorded t u) (hlinked : Linked self u) (hlisted : Listed u.ps)
    (hmove : PsMove self u b s') (hsince : Registry.Since t.kernel.registry s'.kernel.registry) :
    Recorded t s' := by
  have hlargest := h.largest
  cases hmove with
  | other a k' he hk =>
      refine ⟨hsince, ?_, h.stored, h.found, h.inside⟩
      cases hpc : u.ps.pc with
      | inMaxPid =>
          -- the lock is held, so no pid is given out
          obtain ⟨⟨c, hold⟩, -⟩ := hlinked.scan hpc
          rw [hpc] at hlargest
          exact (undisturbed hold he hk).nextpid.trans hlargest
      | numProc | inNumProc | maxPid | find | inFind | print | inPrint | done =>
          rw [hpc] at hlargest
          exact hlargest
  | main c s' hcpu hsusp hmove =>
      obtain ⟨hasc, hphase⟩ := hlisted
      cases hmove with
      | numProc k' hpc | numNext k' hpc | numDone k' count hpc | maxPid hpc =>
          rw [hpc] at hlargest
          exact hlargest.elim
      | maxNext j maxpid hpc hself =>
          refine ⟨hsince, ?_, h.stored, h.found, h.inside⟩
          rw [hpc] at hlargest ⊢
          exact hlargest
      | maxDone k' j maxpid hpc hself =>
          refine ⟨hsince, ?_, h.stored, nofun, h.inside⟩
          obtain ⟨-, j', maxpid', hself', hlt⟩ := hlinked.scan hpc
          cases hself.symm.trans hself'
          rw [hpc] at hlargest
          exact hlargest ▸ hlt
      | ask pid i hpc hle hfind =>
          rw [hpc] at hlargest
          refine ⟨hsince, hlargest, h.stored, fun pid' hpc' => ?_, h.inside⟩
          obtain rfl : pid = pid' := PsPc.inFind.inj hpc'
          obtain ⟨hactive, hpid⟩ := of_findActive hfind
          have hold : (u.kernel.proc i).pid < t.kernel.nextpid := by
            rw [hpid]
            exact hle.trans_lt hlargest
          obtain ⟨hactive', hpid'⟩ := h.since.old i hactive hold
          exact ⟨i, hactive', hpid'.trans hpid⟩
      | skip pid hpc =>
          rw [hpc] at hlargest
          exact ⟨hsince, hlargest, h.stored, nofun, h.inside⟩
      | sort pid pids hpc hsort =>
          rw [hpc] at hlargest
          rw [sortPids_of_sorted hasc] at hsort
          cases hsort
          exact ⟨hsince, hlargest, h.stored, nofun, h.inside⟩
      | store pid k' hpc =>
          rw [hpc] at hlargest hphase
          have hactive : ∀ q ∈ u.ps.pids ++ [pid], t.kernel.HasPid q := by
            intro q hq
            rcases List.mem_append.mp hq with hq | hq
            · exact h.stored q hq
            · rw [List.mem_singleton.mp hq]
              exact h.found pid hpc
          refine ⟨hsince, hlargest, hactive, nofun, fun hsize => ?_⟩
          have hnew : pid ∉ u.ps.pids := fun hmem => (hphase.1 pid hmem).false
          have hnodup : (u.ps.pids ++ [pid]).Nodup :=
            List.nodup_append_comm.mp (List.nodup_cons.mpr ⟨hnew, hasc.imp ne_of_lt⟩)
          have hlen := length_le_of_hasPid hnodup hactive
          rw [List.length_append, List.length_singleton] at hlen
          show (u.ps.overrun || decide (pidsLength ≤ u.ps.pids.length)) = false
          rw [h.inside hsize, Bool.false_or, decide_eq_false_iff_not]
          omega
      | askRow i pid j hpc | skipRow i hpc | endRows i hpc | row i pid j k' hpc =>
          rw [hpc] at hlargest
          exact ⟨hsince, hlargest, h.stored, nofun, h.inside⟩

/-! ## Runs -/

/-- What holds of every state of the system whose pids have not wrapped. -/
structure PsSound (p : Fin nproc) (s : PsSystem nproc nofile ncpu) : Prop where
  /-- The kernel. -/
  numbered : Numbered s.kernel
  /-- The queries. -/
  linked : Linked p s
  /-- The listing. -/
  listed : Listed s.ps

/-- Who owns a slot stays known, and slots given out are not forgotten. -/
theorem PsMove.control_allocs_le (h : Control s.kernel) (hmove : PsMove self s b s') :
    Control s'.kernel ∧ s.kernel.allocs ≤ s'.kernel.allocs := by
  rcases hmove.kernel with heq | ⟨a, ha⟩
  · rw [heq]
    exact ⟨h, le_rfl⟩
  · exact ⟨h.step ha, allocs_le h ha⟩

/-- **Every step keeps it**, and what was active at some moment stays on record. -/
theorem PsSound.step (h : PsSound self s) (hmove : PsMove self s b s')
    (hlt : s'.kernel.allocs < maxAllocs) : PsSound self s' ∧
      ∀ r, Registry.Since r s.kernel.registry → Registry.Since r s'.kernel.registry := by
  have hlinked := h.linked.step h.numbered hmove
  have hlisted := h.listed.step hmove
  rcases hmove.kernel with heq | ⟨a, ha⟩
  · exact ⟨⟨heq ▸ h.numbered, hlinked, hlisted⟩, fun r hr => heq ▸ hr⟩
  · obtain ⟨hnum, hstep⟩ := h.numbered.step ha hlt
    exact ⟨⟨hnum, hlinked, hlisted⟩, fun r hr => hr.step hstep⟩

/-- At the start of `main`. -/
theorem PsSound.start (h : Numbered k) : PsSound self (.start k) :=
  ⟨h, .idle (by simp [PsSystem.start, Ps.start]) rfl, .nil, rfl, rfl, rfl⟩

/-- **At every state of a run of the system.** -/
theorem PsSound.run {bs : List (PsAct nofile ncpu)} (h : PsSound self s)
    (hrun : StudiesOS.run (PsSystem.step self) s bs = some s') (hlt : s'.kernel.allocs < maxAllocs) :
    PsSound self s' :=
  bounded_invariant (J := fun s => Control s.kernel) (μ := fun s => s.kernel.allocs)
    h.numbered.control h (fun _ _ _ hc hstep => (ps_move hstep).control_allocs_le hc)
    (fun _ _ _ _ hs hstep hlt => (hs.step (ps_move hstep) hlt).1) hrun hlt

/-- Slots given out are not forgotten in a run. -/
theorem ps_allocs_le {bs : List (PsAct nofile ncpu)} (h : Control s.kernel)
    (hrun : StudiesOS.run (PsSystem.step self) s bs = some s') :
    s.kernel.allocs ≤ s'.kernel.allocs := by
  refine (run_invariant (I := fun t => Control t.kernel ∧ s.kernel.allocs ≤ t.kernel.allocs)
    ⟨h, le_rfl⟩ ?_ hrun).2
  rintro t b t' ⟨hc, hle⟩ hstep
  exact ((ps_move hstep).control_allocs_le hc).imp_right hle.trans

/-- **From a state in which `getMaxPid` is under way**, its record is kept. -/
theorem recorded_run {bs : List (PsAct nofile ncpu)} (h : PsSound self t) (hpc : t.ps.pc = .inMaxPid)
    (hrun : StudiesOS.run (PsSystem.step self) t bs = some u) (hlt : u.kernel.allocs < maxAllocs) :
    Recorded t u := by
  have hphase := h.listed.2
  rw [hpc] at hphase
  have hstart : Recorded t t := by
    refine ⟨.refl _, ?_, ?_, ?_, fun _ => hphase.2.1⟩
    · rw [hpc]
    · rw [hphase.1]
      exact fun pid hpid => absurd hpid List.not_mem_nil
    · rw [hpc]
      exact nofun
  refine (bounded_invariant (J := fun s => Control s.kernel) (μ := fun s => s.kernel.allocs)
    (I := fun u => PsSound self u ∧ Recorded t u) h.numbered.control ⟨h, hstart⟩
    (fun _ _ _ hc hstep => (ps_move hstep).control_allocs_le hc) ?_ hrun hlt).2
  rintro v a w - ⟨hv, hrec⟩ hstep hlt
  have hmove := ps_move hstep
  obtain ⟨hw, hsince⟩ := hv.step hmove hlt
  exact ⟨hw, hrec.step hv.linked hv.listed hmove (hsince _ hrec.since)⟩

end StudiesOS.ProcessTable
