import StudiesOS.ProcessTable.Kernel

/-! # What a step can do
The steps of the kernel one by one (`Trans`), each with its guards and its effect, so that an
invariant is proved by cases on them, and the parts of the steps that go over the whole table. -/

namespace StudiesOS.ProcessTable

variable {nproc nofile ncpu : ℕ}

namespace Kernel

variable (k : Kernel nproc nofile ncpu)

/-! ## Reading the parts -/

@[simp] theorem modify_proc_self (i : Fin nproc) (f : Proc nproc nofile → Proc nproc nofile) :
    (k.modify i f).proc i = f (k.proc i) := Function.update_self i _ k.proc

@[simp] theorem modify_proc_of_ne {i j : Fin nproc} (h : j ≠ i)
    (f : Proc nproc nofile → Proc nproc nofile) : (k.modify i f).proc j = k.proc j :=
  Function.update_of_ne h _ _

/-- A slot after a change of one slot. -/
theorem modify_proc (i j : Fin nproc) (f : Proc nproc nofile → Proc nproc nofile) :
    (k.modify i f).proc j = if j = i then f (k.proc j) else k.proc j := by
  by_cases h : j = i
  · rw [h, modify_proc_self, if_pos rfl]
  · rw [modify_proc_of_ne k h, if_neg h]

/-- A slot after `allocproc`. -/
theorem allocproc_proc (i j : Fin nproc) :
    (k.allocproc i).proc j
      = if j = i then { k.proc j with state := .embryo, pid := k.nextpid, nrswitch := 0 }
        else k.proc j := by
  unfold allocproc
  by_cases h : j = i
  · rw [h, if_pos rfl]
    exact Function.update_self i _ k.proc
  · rw [if_neg h]
    exact Function.update_of_ne h _ k.proc

@[simp] theorem setPc_proc (p : Fin nproc) (pc : Pc nproc) : (k.setPc p pc).proc = k.proc := rfl

@[simp] theorem setLock_proc (holder : Option (Fin ncpu)) : (k.setLock holder).proc = k.proc := rfl

@[simp] theorem setCpu_proc (c : Fin ncpu) (point : Cpu nproc) :
    (k.setCpu c point).proc = k.proc := rfl

@[simp] theorem sched_proc (c : Fin ncpu) (p : Fin nproc) (w : Susp) :
    (k.sched c p w).proc = k.proc := rfl

@[simp] theorem setPc_pc_self (p : Fin nproc) (pc : Pc nproc) : (k.setPc p pc).pc p = pc :=
  Function.update_self p _ k.pc

@[simp] theorem setPc_pc_of_ne {p q : Fin nproc} (h : q ≠ p) (pc : Pc nproc) :
    (k.setPc p pc).pc q = k.pc q := Function.update_of_ne h _ _

@[simp] theorem setPc_setPc (p : Fin nproc) (pc pc' : Pc nproc) :
    (k.setPc p pc).setPc p pc' = k.setPc p pc' := by
  unfold setPc
  rw [Function.update_idem]

/-- The slot that `allocproc` finds is free. -/
theorem state_of_firstUnused {k : Kernel nproc nofile ncpu} {i : Fin nproc}
    (h : k.firstUnused = some i) : (k.proc i).state = .unused := by
  simpa using List.find?_some h

/-- The slot that `getProcInfo` finds is that of an active process with the pid. -/
theorem of_findActive {k : Kernel nproc nofile ncpu} {pid : ℤ} {i : Fin nproc}
    (h : k.findActive pid = some i) : (k.proc i).state ≠ .unused ∧ (k.proc i).pid = pid := by
  simpa using List.find?_some h

/-- `getProcInfo` finds nothing exactly when no active process has the pid. -/
theorem findActive_eq_none {k : Kernel nproc nofile ncpu} {pid : ℤ} :
    k.findActive pid = none ↔ ∀ i, (k.proc i).state ≠ .unused → (k.proc i).pid ≠ pid := by
  simp [findActive, List.find?_eq_none]

/-- The slot that `kill` finds bears the pid. -/
theorem of_findPid {k : Kernel nproc nofile ncpu} {pid : ℤ} {i : Fin nproc}
    (h : k.findPid pid = some i) : (k.proc i).pid = pid := by
  simpa using List.find?_some h

/-- `kill` finds nothing exactly when no slot bears the pid. -/
theorem findPid_eq_none {k : Kernel nproc nofile ncpu} {pid : ℤ} :
    k.findPid pid = none ↔ ∀ i, (k.proc i).pid ≠ pid := by
  simp [findPid, List.find?_eq_none]

/-! ## Waking up -/

/-- **Some sleepers have been woken** between `k` and `k'`, and nothing else has changed. -/
structure Woken (k k' : Kernel nproc nofile ncpu) : Prop where
  /-- Each slot is the same, or a sleeper that has become runnable. -/
  proc : ∀ i, k'.proc i = k.proc i ∨
    (k.proc i).state = .sleeping ∧ k'.proc i = { k.proc i with state := .runnable }
  /-- The rest of the kernel is the same. -/
  rest : k' = { k with proc := k'.proc }

/-- `wakeup1` wakes sleepers. -/
theorem woken_wakeup1 (chan : Option (Chan nproc)) : Woken k (k.wakeup1 chan) := by
  refine ⟨fun i => ?_, rfl⟩
  show (if _ then _ else _) = _ ∨ _ ∧ (if _ then _ else _) = _
  split
  · rename_i h
    exact Or.inr ⟨h.1, rfl⟩
  · exact Or.inl rfl

/-- **The children of `p` have been passed to `initproc`** between `k` and `k'`, and some sleepers
have been woken. -/
structure Abandoned (p : Fin nproc) (k k' : Kernel nproc nofile ncpu) : Prop where
  /-- Each slot keeps everything but its parent and its sleep. -/
  proc : ∀ i, k'.proc i = { k.proc i with
    state := (k'.proc i).state, parent := (k'.proc i).parent }
  /-- The state is the same, or a sleeper has become runnable. -/
  state : ∀ i, (k'.proc i).state = (k.proc i).state ∨
    (k.proc i).state = .sleeping ∧ (k'.proc i).state = .runnable
  /-- The parent is the same, or was `p` and is `initproc`. -/
  parent : ∀ i, (k'.proc i).parent = (k.proc i).parent ∨
    (k.proc i).parent = some p ∧ (k'.proc i).parent = k.initproc
  /-- The rest of the kernel is the same. -/
  rest : k' = { k with proc := k'.proc }

/-- Waking is a part of it. -/
theorem Abandoned.of_woken {k k' : Kernel nproc nofile ncpu} {p : Fin nproc} (h : Woken k k') :
    Abandoned p k k' := by
  refine ⟨fun i => ?_, fun i => ?_, fun i => ?_, h.rest⟩ <;>
    rcases h.proc i with heq | ⟨hs, heq⟩ <;> rw [heq]
  · exact Or.inl rfl
  · exact Or.inr ⟨hs, rfl⟩
  · exact Or.inl rfl
  · exact Or.inl rfl

/-- One after the other. -/
theorem Abandoned.trans {k k' k'' : Kernel nproc nofile ncpu} {p : Fin nproc}
    (h : Abandoned p k k') (h' : Abandoned p k' k'') : Abandoned p k k'' := by
  have hinit : k'.initproc = k.initproc := by rw [h.rest]
  refine ⟨fun i => ?_, fun i => ?_, fun i => ?_, ?_⟩
  · rw [h'.proc i, h.proc i]
  · rcases h'.state i with heq | ⟨hs, heq⟩ <;> rcases h.state i with heq' | ⟨hs', heq'⟩
    · exact Or.inl (heq.trans heq')
    · exact Or.inr ⟨hs', heq.trans heq'⟩
    · exact Or.inr ⟨heq' ▸ hs, heq⟩
    · exact Or.inr ⟨hs', heq⟩
  · rcases h'.parent i with heq | ⟨hp, heq⟩ <;> rcases h.parent i with heq' | ⟨hp', heq'⟩
    · exact Or.inl (heq.trans heq')
    · exact Or.inr ⟨hp', heq.trans heq'⟩
    · exact Or.inr ⟨heq' ▸ hp, heq.trans hinit⟩
    · exact Or.inr ⟨hp', heq.trans hinit⟩
  · rw [h'.rest, h.rest]

/-- One round of the loop. -/
theorem abandoned_abandon (p : Fin nproc) (i : Fin nproc) : Abandoned p k (abandon p k i) := by
  have hpass : (k.proc i).parent = some p →
      Abandoned p k (k.modify i fun q => { q with parent := k.initproc }) := by
    intro hp
    refine ⟨fun j => ?_, fun j => Or.inl ?_, fun j => ?_, rfl⟩ <;> rw [modify_proc] <;> split
    · rfl
    · rfl
    · rfl
    · rfl
    · rename_i hj
      exact Or.inr ⟨hj ▸ hp, rfl⟩
    · exact Or.inl rfl
  unfold abandon
  split
  · rename_i hp
    split
    · exact (hpass hp).trans (.of_woken (woken_wakeup1 _ _))
    · exact hpass hp
  · exact .of_woken ⟨fun _ => Or.inl rfl, rfl⟩

/-- **The loop of `exit`** over the table. -/
theorem abandoned_foldl (p : Fin nproc) (l : List (Fin nproc)) :
    Abandoned p k (l.foldl (abandon p) k) := by
  induction l generalizing k with
  | nil => exact .of_woken ⟨fun _ => Or.inl rfl, rfl⟩
  | cons i l ih => exact (abandoned_abandon k p i).trans (ih _)

end Kernel

open Kernel

/-- What a process on a CPU does is a call. -/
theorem step_of_ran {k : Kernel nproc nofile ncpu} {c : Fin ncpu} {p : Fin nproc}
    (hcpu : k.cpu c = .ran p) (hsusp : k.susp p = .awake) (m : Move nofile) :
    step k (.on c m) = k.callStep c p m := by
  simp only [step, hcpu]
  rw [if_pos hsusp]

/-! ## The steps -/

/-- **The steps of the kernel, one by one**, with the actions they belong to. -/
inductive Trans (k : Kernel nproc nofile ncpu) : Act nofile ncpu → Kernel nproc nofile ncpu → Prop
  /-- `allocproc` in `userinit`. -/
  | bootAlloc (i : Fin nproc) (hboot : k.boot = .start) (hlock : k.lock = none)
      (hi : k.firstUnused = some i) : Trans k .userinit { k.allocproc i with boot := .fill i }
  /-- The stores of `userinit`. -/
  | bootFill (i : Fin nproc) (hboot : k.boot = .fill i) :
      Trans k .userinit { k.modify i (fun p => { p with sz := pgsize }) with
        initproc := some i
        boot := .publish i }
  /-- The first process becomes runnable. -/
  | bootPublish (i : Fin nproc) (hboot : k.boot = .publish i) (hlock : k.lock = none) :
      Trans k .userinit { k.modify i (fun p => { p with state := .runnable }) with boot := .done }
  /-- `scheduler` acquires the lock. -/
  | acquire (c : Fin ncpu) (hcpu : k.cpu c = .idle) (hlock : k.lock = none) :
      Trans k (.on c .schedule) ((k.setLock (some c)).setCpu c (.scan 0))
  /-- `scheduler` goes past a slot. -/
  | skip (c : Fin ncpu) (j : Fin nproc) (hcpu : k.cpu c = .scan j)
      (hj : (k.proc j).state ≠ .runnable) :
      Trans k (.on c .schedule) (k.setCpu c (.scan (j + 1)))
  /-- `scheduler` switches to a process. -/
  | dispatch (c : Fin ncpu) (j : Fin nproc) (hcpu : k.cpu c = .scan j)
      (hj : (k.proc j).state = .runnable) :
      Trans k (.on c .schedule) ((k.modify j fun p =>
        { p with state := .running, nrswitch := wrap 32 (p.nrswitch + 1) }).setCpu c (.ran j))
  /-- `scheduler` releases the lock. -/
  | release (c : Fin ncpu) (j : ℕ) (hcpu : k.cpu c = .scan j) (hj : nproc ≤ j)
      (hlock : k.lock = some c) :
      Trans k (.on c .schedule) ((k.setLock none).setCpu c .idle)
  /-- A process goes on in `forkret` or `yield`. -/
  | resume (c : Fin ncpu) (p : Fin nproc) (hcpu : k.cpu c = .ran p) (hlock : k.lock = some c)
      (hsusp : k.susp p = .forkret ∨ k.susp p = .yield) :
      Trans k (.on c .resume) { k with lock := none, susp := Function.update k.susp p .awake }
  /-- A process goes on in `sleep`. -/
  | resumeSleep (c : Fin ncpu) (p : Fin nproc) (hcpu : k.cpu c = .ran p) (hlock : k.lock = some c)
      (hsusp : k.susp p = .sleep) :
      Trans k (.on c .resume) { k.modify p (fun q => { q with chan := none }) with
        lock := if k.pc p = .waitScan then k.lock else none
        susp := Function.update k.susp p .awake }
  /-- A call that finds nothing, and returns. -/
  | stay (c : Fin ncpu) (p : Fin nproc) (m : Move nofile) (hcpu : k.cpu c = .ran p)
      (hsusp : k.susp p = .awake) (hlock : k.lock = none)
      (hm : m = .fork ∧ k.firstUnused = none ∨ (∃ pid, m = .kill pid ∧ k.kill pid = (k, -1)) ∨
        ∃ pid, m = .getProcInfo pid ∧ k.findActive pid = none) : Trans k (.on c m) k
  /-- `allocproc` in `fork`. -/
  | forkAlloc (c : Fin ncpu) (p np : Fin nproc) (hcpu : k.cpu c = .ran p)
      (hsusp : k.susp p = .awake) (hpc : k.pc p = .user) (hlock : k.lock = none)
      (hnp : k.firstUnused = some np) :
      Trans k (.on c .fork) ((k.allocproc np).setPc p (.forkKalloc np))
  /-- `fork` gets what it asked for. -/
  | forkNext (c : Fin ncpu) (p np : Fin nproc) (m : Move nofile) (pc' : Pc nproc)
      (hcpu : k.cpu c = .ran p) (hsusp : k.susp p = .awake)
      (hpc : k.pc p = .forkKalloc np ∧ m = .kalloc true ∧ pc' = .forkCopyuvm np ∨
        k.pc p = .forkCopyuvm np ∧ m = .copyuvm true ∧ pc' = .forkSize np) :
      Trans k (.on c m) (k.setPc p pc')
  /-- `fork` fails, and gives the slot back without the lock. -/
  | forkFail (c : Fin ncpu) (p np : Fin nproc) (m : Move nofile) (hcpu : k.cpu c = .ran p)
      (hsusp : k.susp p = .awake)
      (hpc : k.pc p = .forkKalloc np ∧ m = .kalloc false ∨
        k.pc p = .forkCopyuvm np ∧ m = .copyuvm false) :
      Trans k (.on c m) ((k.modify np fun q => { q with state := .unused }).setPc p .user)
  /-- `np->sz = curproc->sz`. -/
  | forkSize (c : Fin ncpu) (p np : Fin nproc) (hcpu : k.cpu c = .ran p)
      (hsusp : k.susp p = .awake) (hpc : k.pc p = .forkSize np) :
      Trans k (.on c .advance)
        ((k.modify np fun q => { q with sz := (k.proc p).sz }).setPc p (.forkParent np))
  /-- `np->parent = curproc`. -/
  | forkParent (c : Fin ncpu) (p np : Fin nproc) (hcpu : k.cpu c = .ran p)
      (hsusp : k.susp p = .awake) (hpc : k.pc p = .forkParent np) :
      Trans k (.on c .advance)
        ((k.modify np fun q => { q with parent := some p }).setPc p (.forkFile np 0))
  /-- A descriptor is copied. -/
  | forkFile (c : Fin ncpu) (p np : Fin nproc) (fd : Fin nofile) (hcpu : k.cpu c = .ran p)
      (hsusp : k.susp p = .awake) (hpc : k.pc p = .forkFile np fd) :
      Trans k (.on c .advance) ((k.modify np fun q =>
        { q with
          ofile :=
            if (k.proc p).ofile fd ≠ none then Function.update q.ofile fd ((k.proc p).ofile fd)
            else q.ofile }).setPc p (.forkFile np (fd + 1)))
  /-- All descriptors are copied. -/
  | forkFiles (c : Fin ncpu) (p np : Fin nproc) (fd : ℕ) (hcpu : k.cpu c = .ran p)
      (hsusp : k.susp p = .awake) (hpc : k.pc p = .forkFile np fd) (hfd : nofile ≤ fd) :
      Trans k (.on c .advance) (k.setPc p (.forkPublish np))
  /-- The child becomes runnable. -/
  | forkPublish (c : Fin ncpu) (p np : Fin nproc) (hcpu : k.cpu c = .ran p)
      (hsusp : k.susp p = .awake) (hpc : k.pc p = .forkPublish np) (hlock : k.lock = none) :
      Trans k (.on c .advance)
        ((k.modify np fun q => { q with state := .runnable }).setPc p .user)
  /-- `exit` begins. -/
  | exit (c : Fin ncpu) (p : Fin nproc) (hcpu : k.cpu c = .ran p) (hsusp : k.susp p = .awake)
      (hpc : k.pc p = .user) (hinit : k.initproc ≠ some p) :
      Trans k (.on c .exit) (k.setPc p (.exitClose 0))
  /-- A descriptor is closed. -/
  | exitClose (c : Fin ncpu) (p : Fin nproc) (fd : Fin nofile) (hcpu : k.cpu c = .ran p)
      (hsusp : k.susp p = .awake) (hpc : k.pc p = .exitClose fd) :
      Trans k (.on c .advance)
        ((k.modify p fun q => { q with ofile := Function.update q.ofile fd none }).setPc p
          (.exitClose (fd + 1)))
  /-- All descriptors are closed. -/
  | exitClosed (c : Fin ncpu) (p : Fin nproc) (fd : ℕ) (hcpu : k.cpu c = .ran p)
      (hsusp : k.susp p = .awake) (hpc : k.pc p = .exitClose fd) (hfd : nofile ≤ fd) :
      Trans k (.on c .advance) (k.setPc p .exitLast)
  /-- `exit` under the lock: some kernel `t` with the children passed on is left to `scheduler`. -/
  | exitLast (c : Fin ncpu) (p : Fin nproc) (t : Kernel nproc nofile ncpu)
      (hcpu : k.cpu c = .ran p) (hsusp : k.susp p = .awake) (hpc : k.pc p = .exitLast)
      (hlock : k.lock = none) (ht : Abandoned p k t)
      (hloop : t = (List.finRange nproc).foldl (abandon p)
        (k.wakeup1 ((k.proc p).parent.map .proc))) :
      Trans k (.on c .advance)
        ((t.modify p fun q => { q with state := .zombie }).sched c p .exited)
  /-- `wait` acquires the lock. -/
  | wait (c : Fin ncpu) (p : Fin nproc) (hcpu : k.cpu c = .ran p) (hsusp : k.susp p = .awake)
      (hpc : k.pc p = .user) (hlock : k.lock = none) :
      Trans k (.on c .wait) ((k.setLock (some c)).setPc p .waitScan)
  /-- `wait` finds a zombie. -/
  | waitReap (c : Fin ncpu) (p i : Fin nproc) (hcpu : k.cpu c = .ran p)
      (hsusp : k.susp p = .awake) (hpc : k.pc p = .waitScan) (hlock : k.lock = some c)
      (hparent : (k.proc i).parent = some p) (hi : (k.proc i).state = .zombie)
      (hfind : ((List.finRange nproc).find? fun i =>
        (k.proc i).parent = some p ∧ (k.proc i).state = .zombie) = some i) :
      Trans k (.on c .advance) (((k.modify i fun q =>
        { q with pid := 0, parent := none, killed := false, state := .unused }).setPc p
          .user).setLock none)
  /-- `wait` or a query returns. -/
  | leave (c : Fin ncpu) (p : Fin nproc) (hcpu : k.cpu c = .ran p) (hsusp : k.susp p = .awake)
      (hpc : k.pc p = .waitScan ∨ (∃ j count, k.pc p = .numScan j count) ∨
        (∃ j maxpid, k.pc p = .maxScan j maxpid) ∨ ∃ i, k.pc p = .infoFill i)
      (hlock : k.lock = some c) :
      Trans k (.on c .advance) ((k.setPc p .user).setLock none)
  /-- A process goes to sleep: in `wait`, or on some other channel. -/
  | sleep (c : Fin ncpu) (p : Fin nproc) (m : Move nofile) (chan : Chan nproc)
      (hcpu : k.cpu c = .ran p) (hsusp : k.susp p = .awake)
      (hlock : (m = .advance ∧ k.pc p = .waitScan ∧ k.lock = some c ∧ chan = .proc p ∧
          ∀ i, (k.proc i).parent = some p → (k.proc i).state ≠ .zombie) ∨
        k.lock = none ∧ ∃ address, m = .sleep address ∧ chan = .other address) :
      Trans k (.on c m)
        ((k.modify p fun q => { q with chan := some chan, state := .sleeping }).sched c p .sleep)
  /-- A process gives up the CPU. -/
  | yield (c : Fin ncpu) (p : Fin nproc) (hcpu : k.cpu c = .ran p) (hsusp : k.susp p = .awake)
      (hlock : k.lock = none) :
      Trans k (.on c .yield)
        ((k.modify p fun q => { q with state := .runnable }).sched c p .yield)
  /-- `kill` finds a slot. -/
  | kill (c : Fin ncpu) (p i : Fin nproc) (pid : ℤ) (hcpu : k.cpu c = .ran p)
      (hsusp : k.susp p = .awake) (hpc : k.pc p = .user) (hlock : k.lock = none)
      (hi : k.findPid pid = some i) :
      Trans k (.on c (.kill pid)) (k.modify i fun q =>
        { q with
          killed := true
          state := if q.state = .sleeping then .runnable else q.state })
  /-- `wakeup`. -/
  | wakeup (c : Fin ncpu) (address : ℕ) (hlock : k.lock = none) :
      Trans k (.on c (.wakeup address)) (k.wakeup1 (some (.other address)))
  /-- A process changes its size. -/
  | resize (c : Fin ncpu) (p : Fin nproc) (sz : ℕ) (hcpu : k.cpu c = .ran p)
      (hsusp : k.susp p = .awake) (hpc : k.pc p = .user) :
      Trans k (.on c (.resize sz)) (k.modify p fun q => { q with sz := sz })
  /-- A process changes a descriptor. -/
  | setFile (c : Fin ncpu) (p : Fin nproc) (fd : Fin nofile) (file : Option ℕ)
      (hcpu : k.cpu c = .ran p) (hsusp : k.susp p = .awake) (hpc : k.pc p = .user) :
      Trans k (.on c (.setFile fd file))
        (k.modify p fun q => { q with ofile := Function.update q.ofile fd file })
  /-- A query acquires the lock. -/
  | query (c : Fin ncpu) (p : Fin nproc) (m : Move nofile) (pc' : Pc nproc)
      (hcpu : k.cpu c = .ran p) (hsusp : k.susp p = .awake) (hpc : k.pc p = .user)
      (hlock : k.lock = none)
      (hm : m = .getNumProc ∧ pc' = .numScan 0 0 ∨ m = .getMaxPid ∧ pc' = .maxScan 0 0 ∨
        ∃ pid i, m = .getProcInfo pid ∧ k.findActive pid = some i ∧ pc' = .infoFill i) :
      Trans k (.on c m) ((k.setLock (some c)).setPc p pc')
  /-- A query goes past a slot. -/
  | queryNext (c : Fin ncpu) (p : Fin nproc) (j : Fin nproc) (pc' : Pc nproc)
      (hcpu : k.cpu c = .ran p) (hsusp : k.susp p = .awake) (hlock : k.lock = some c)
      (hpc : (∃ count, k.pc p = .numScan j count ∧
          pc' = .numScan (j + 1) (k.countActive count j)) ∨
        ∃ maxpid, k.pc p = .maxScan j maxpid ∧ pc' = .maxScan (j + 1) (k.maxActive maxpid j)) :
      Trans k (.on c .advance) (k.setPc p pc')

/-- The steps of a process in a call. -/
theorem advanceStep_trans {k k' : Kernel nproc nofile ncpu} {c : Fin ncpu} {p : Fin nproc}
    (hcpu : k.cpu c = .ran p) (hsusp : k.susp p = .awake) (h : k.advanceStep c p = some k') :
    Trans k (.on c .advance) k' := by
  cases hpc : k.pc p with
  | user | forkKalloc | forkCopyuvm => simp [advanceStep, hpc] at h
  | forkSize np =>
      simp only [advanceStep, hpc] at h
      cases h
      exact .forkSize c p np hcpu hsusp hpc
  | forkParent np =>
      simp only [advanceStep, hpc] at h
      cases h
      exact .forkParent c p np hcpu hsusp hpc
  | forkFile np fd =>
      simp only [advanceStep, hpc] at h
      by_cases hfd : fd < nofile
      · rw [dif_pos hfd] at h
        cases h
        exact .forkFile c p np ⟨fd, hfd⟩ hcpu hsusp hpc
      · rw [dif_neg hfd] at h
        cases h
        exact .forkFiles c p np fd hcpu hsusp hpc (Nat.le_of_not_lt hfd)
  | forkPublish np =>
      simp only [advanceStep, hpc] at h
      split_ifs at h with hlock
      cases h
      exact .forkPublish c p np hcpu hsusp hpc hlock
  | exitClose fd =>
      simp only [advanceStep, hpc] at h
      split_ifs at h with hfd
      · cases h
        exact .exitClose c p ⟨fd, hfd⟩ hcpu hsusp hpc
      · cases h
        exact .exitClosed c p fd hcpu hsusp hpc (Nat.le_of_not_lt hfd)
  | exitLast =>
      simp only [advanceStep, hpc] at h
      split_ifs at h with hlock
      cases h
      exact .exitLast c p _ hcpu hsusp hpc hlock
        ((Abandoned.of_woken (woken_wakeup1 k _)).trans (abandoned_foldl _ p _)) rfl
  | waitScan =>
      simp only [advanceStep, hpc] at h
      split_ifs at h with hlock
      cases h
      unfold Kernel.waitScan
      split
      · rename_i i hfind
        obtain ⟨hparent, hi⟩ : (k.proc i).parent = some p ∧ (k.proc i).state = .zombie := by
          simpa using List.find?_some hfind
        exact .waitReap c p i hcpu hsusp hpc hlock hparent hi hfind
      · rename_i hfind
        have hzombie : ∀ i, (k.proc i).parent = some p → (k.proc i).state ≠ .zombie := by
          simpa [List.find?_eq_none] using hfind
        split
        · exact .leave c p hcpu hsusp (Or.inl hpc) hlock
        · exact .sleep c p .advance (.proc p) hcpu hsusp
            (Or.inl ⟨rfl, hpc, hlock, rfl, hzombie⟩)
  | numScan j count =>
      simp only [advanceStep, hpc] at h
      split_ifs at h with hlock hj
      · cases h
        exact .queryNext c p ⟨j, hj⟩ _ hcpu hsusp hlock (Or.inl ⟨count, hpc, rfl⟩)
      · cases h
        exact .leave c p hcpu hsusp (Or.inr (Or.inl ⟨j, count, hpc⟩)) hlock
  | maxScan j maxpid =>
      simp only [advanceStep, hpc] at h
      split_ifs at h with hlock hj
      · cases h
        exact .queryNext c p ⟨j, hj⟩ _ hcpu hsusp hlock (Or.inr ⟨maxpid, hpc, rfl⟩)
      · cases h
        exact .leave c p hcpu hsusp (Or.inr (Or.inr (Or.inl ⟨j, maxpid, hpc⟩))) hlock
  | infoFill i =>
      simp only [advanceStep, hpc] at h
      split_ifs at h with hlock
      cases h
      exact .leave c p hcpu hsusp (Or.inr (Or.inr (Or.inr ⟨i, hpc⟩))) hlock

/-- The calls of a process. -/
theorem callStep_trans {k k' : Kernel nproc nofile ncpu} {c : Fin ncpu} {p : Fin nproc}
    {m : Move nofile} (hcpu : k.cpu c = .ran p) (hsusp : k.susp p = .awake)
    (h : k.callStep c p m = some k') : Trans k (.on c m) k' := by
  cases m with
  | schedule | resume => simp [callStep] at h
  | advance => exact advanceStep_trans hcpu hsusp h
  | fork =>
      simp only [callStep] at h
      split_ifs at h with hguard
      cases hnp : k.firstUnused with
      | none =>
          rw [hnp] at h
          cases h
          exact .stay c p .fork hcpu hsusp hguard.2 (Or.inl ⟨rfl, hnp⟩)
      | some np =>
          rw [hnp] at h
          cases h
          exact .forkAlloc c p np hcpu hsusp hguard.1 hguard.2 hnp
  | kalloc page =>
      simp only [callStep] at h
      split at h
      · rename_i np hpc
        cases page with
        | true =>
            cases h
            exact .forkNext c p np _ _ hcpu hsusp (Or.inl ⟨hpc, rfl, rfl⟩)
        | false =>
            cases h
            exact .forkFail c p np _ hcpu hsusp (Or.inl ⟨hpc, rfl⟩)
      · cases h
  | copyuvm pgdir =>
      simp only [callStep] at h
      split at h
      · rename_i np hpc
        cases pgdir with
        | true =>
            cases h
            exact .forkNext c p np _ _ hcpu hsusp (Or.inr ⟨hpc, rfl, rfl⟩)
        | false =>
            cases h
            exact .forkFail c p np _ hcpu hsusp (Or.inr ⟨hpc, rfl⟩)
      · cases h
  | exit =>
      simp only [callStep] at h
      split_ifs at h with hguard
      cases h
      exact .exit c p hcpu hsusp hguard.1 hguard.2
  | wait =>
      simp only [callStep] at h
      split_ifs at h with hguard
      cases h
      exact .wait c p hcpu hsusp hguard.1 hguard.2
  | sleep address =>
      simp only [callStep] at h
      split_ifs at h with hlock
      cases h
      exact .sleep c p _ (.other address) hcpu hsusp (Or.inr ⟨hlock, address, rfl, rfl⟩)
  | yield =>
      simp only [callStep] at h
      split_ifs at h with hlock
      cases h
      exact .yield c p hcpu hsusp hlock
  | kill pid =>
      simp only [callStep] at h
      split_ifs at h with hguard
      cases h
      cases hfind : k.findPid pid with
      | none =>
          have hkill : k.kill pid = (k, -1) := by rw [Kernel.kill, hfind]
          rw [hkill]
          exact .stay c p _ hcpu hsusp hguard.2 (Or.inr (Or.inl ⟨pid, rfl, hkill⟩))
      | some i =>
          rw [Kernel.kill, hfind]
          exact .kill c p i pid hcpu hsusp hguard.1 hguard.2 hfind
  | wakeup address =>
      simp only [callStep] at h
      split_ifs at h with hlock
      cases h
      exact .wakeup c address hlock
  | resize sz =>
      simp only [callStep] at h
      split_ifs at h with hpc
      cases h
      exact .resize c p sz hcpu hsusp hpc
  | setFile fd file =>
      simp only [callStep] at h
      split_ifs at h with hpc
      cases h
      exact .setFile c p fd file hcpu hsusp hpc
  | getNumProc =>
      simp only [callStep] at h
      split_ifs at h with hguard
      cases h
      exact .query c p _ _ hcpu hsusp hguard.1 hguard.2 (Or.inl ⟨rfl, rfl⟩)
  | getMaxPid =>
      simp only [callStep] at h
      split_ifs at h with hguard
      cases h
      exact .query c p _ _ hcpu hsusp hguard.1 hguard.2 (Or.inr (Or.inl ⟨rfl, rfl⟩))
  | getProcInfo pid =>
      simp only [callStep] at h
      split_ifs at h with hguard
      cases hi : k.findActive pid with
      | none =>
          rw [hi] at h
          cases h
          exact .stay c p _ hcpu hsusp hguard.2 (Or.inr (Or.inr ⟨pid, rfl, hi⟩))
      | some i =>
          rw [hi] at h
          cases h
          exact .query c p _ _ hcpu hsusp hguard.1 hguard.2
            (Or.inr (Or.inr ⟨pid, i, rfl, hi, rfl⟩))

/-- The steps of `scheduler`. -/
theorem schedulerStep_trans {k k' : Kernel nproc nofile ncpu} {c : Fin ncpu}
    (h : k.schedulerStep c = some k') : Trans k (.on c .schedule) k' := by
  cases hcpu : k.cpu c with
  | idle =>
      simp only [schedulerStep, hcpu] at h
      split_ifs at h with hlock
      cases h
      exact .acquire c hcpu hlock
  | scan j =>
      simp only [schedulerStep, hcpu] at h
      split_ifs at h with hj hrun hlock
      · cases h
        exact .dispatch c ⟨j, hj⟩ hcpu hrun
      · cases h
        exact .skip c ⟨j, hj⟩ hcpu hrun
      · cases h
        exact .release c j hcpu (Nat.le_of_not_lt hj) hlock
  | ran p => simp [schedulerStep, hcpu] at h

/-- The steps of a process that has just been put on a CPU. -/
theorem resumeStep_trans {k k' : Kernel nproc nofile ncpu} {c : Fin ncpu} {p : Fin nproc}
    (hcpu : k.cpu c = .ran p) (h : k.resumeStep c p = some k') : Trans k (.on c .resume) k' := by
  rw [resumeStep] at h
  by_cases hlock : k.lock = some c
  · rw [if_pos hlock] at h
    cases hsusp : k.susp p with
    | awake | exited => simp [hsusp] at h
    | forkret =>
        rw [hsusp] at h
        cases h
        exact .resume c p hcpu hlock (Or.inl hsusp)
    | yield =>
        rw [hsusp] at h
        cases h
        exact .resume c p hcpu hlock (Or.inr hsusp)
    | sleep =>
        rw [hsusp] at h
        cases h
        exact .resumeSleep c p hcpu hlock hsusp
  · rw [if_neg hlock] at h
    cases h

/-- The steps of `userinit`. -/
theorem userinitStep_trans {k k' : Kernel nproc nofile ncpu} (h : k.userinitStep = some k') :
    Trans k .userinit k' := by
  cases hboot : k.boot with
  | start =>
      simp only [userinitStep, hboot] at h
      split_ifs at h with hlock
      obtain ⟨i, hi, rfl⟩ := Option.map_eq_some_iff.mp h
      exact .bootAlloc i hboot hlock hi
  | fill i =>
      simp only [userinitStep, hboot] at h
      cases h
      exact .bootFill i hboot
  | publish i =>
      simp only [userinitStep, hboot] at h
      split_ifs at h with hlock
      cases h
      exact .bootPublish i hboot hlock
  | done => simp [userinitStep, hboot] at h

/-- **Every step is one of these.** -/
theorem step_trans {k k' : Kernel nproc nofile ncpu} {a : Act nofile ncpu}
    (h : step k a = some k') : Trans k a k' := by
  cases a with
  | userinit => exact userinitStep_trans h
  | on c m =>
      cases hcpu : k.cpu c with
      | idle =>
          simp only [step, hcpu] at h
          split at h
          · exact schedulerStep_trans h
          · split_ifs at h with hlock
            cases h
            exact .wakeup c _ hlock
          · cases h
      | scan j =>
          simp only [step, hcpu] at h
          split at h
          · exact schedulerStep_trans h
          · cases h
      | ran p =>
          simp only [step, hcpu] at h
          by_cases hsusp : k.susp p = .awake
          · rw [if_pos hsusp] at h
            exact callStep_trans hcpu hsusp h
          · rw [if_neg hsusp] at h
            split at h
            · exact resumeStep_trans hcpu h
            · cases h

end StudiesOS.ProcessTable
