import StudiesOS.ProcessTable.Children
import StudiesOS.Transition.Accounts
import StudiesOS.Transition.History

/-! # Process accounts
Every pid that `allocproc` gives out is borne by one process, which either is given back by a fork that
fails, or is born, dies and is returned by a `wait`. The book of a run records these events; it
balances with the table in every reachable kernel, so that no pid is lost, and none is returned
twice. -/

namespace StudiesOS.ProcessTable

open Kernel Lineage

variable {nproc nofile ncpu : ℕ} {k k' t : Kernel nproc nofile ncpu} {a : Act nofile ncpu}

/-! ## The book -/

/-- What happens to a process. -/
inductive Entry
  /-- `allocproc` takes a slot for it. -/
  | taken
  /-- Its fork fails. -/
  | failed
  /-- It becomes runnable for the first time. -/
  | born
  /-- It becomes a zombie. -/
  | died
  /-- `wait` returns it. -/
  | reaped
deriving DecidableEq, Repr

/-- What the slot has been before. -/
def Entry.source : Entry → Status
  | .taken => .free
  | .failed | .born => .embryo
  | .died => .alive
  | .reaped => .zombie

/-- What it becomes. -/
def Entry.target : Entry → Status
  | .taken => .embryo
  | .failed | .reaped => .free
  | .born => .alive
  | .died => .zombie

/-- The pids entered in a book in some way. -/
def Entry.pids (e : Entry) (book : List (Entry × ℤ)) : List ℤ := booked (· = e) book

/-- What a step of a call of the process `p` enters in the book. -/
def Kernel.callEntry (k : Kernel nproc nofile ncpu) (p : Fin nproc) : Move nofile →
    Option (Entry × ℤ)
  | .fork => k.firstUnused.map fun _ => (.taken, k.nextpid)
  | .kalloc false | .copyuvm false => (k.pc p).child.map fun np => (.failed, (k.proc np).pid)
  | .advance =>
      match k.pc p with
      | .forkPublish np => some (.born, (k.proc np).pid)
      | .exitLast => some (.died, (k.proc p).pid)
      | .waitScan =>
          ((List.finRange nproc).find? fun i =>
            (k.proc i).parent = some p ∧ (k.proc i).state = .zombie).map
              fun i => (.reaped, (k.proc i).pid)
      | _ => none
  | _ => none

/-- **What a step enters in the book**: what happens, and to which pid. -/
def Kernel.entry (k : Kernel nproc nofile ncpu) : Act nofile ncpu → Option (Entry × ℤ)
  | .userinit =>
      match k.boot with
      | .start => k.firstUnused.map fun _ => (.taken, k.nextpid)
      | .publish i => some (.born, (k.proc i).pid)
      | .fill _ | .done => none
  | .on c m =>
      match k.cpu c with
      | .ran p => k.callEntry p m
      | .idle | .scan _ => none

/-- The book goes on with a step. -/
def Kernel.record (k : Kernel nproc nofile ncpu) (a : Act nofile ncpu) (book : List (Entry × ℤ)) :
    List (Entry × ℤ) :=
  book ++ (k.entry a).toList

/-- **The table as accounts**: what has become of each slot, and its pid. -/
def Kernel.accounts (k : Kernel nproc nofile ncpu) (i : Fin nproc) : Status × ℤ :=
  ((k.proc i).state.status, (k.proc i).pid)

/-- The pids of the slots of some status. -/
def Kernel.pids (k : Kernel nproc nofile ncpu) (s : Status) : Multiset ℤ :=
  holders k.accounts s

/-! ## What a step enters -/

/-- A step of a call. -/
theorem entry_of_ran {c : Fin ncpu} {p : Fin nproc} (hcpu : k.cpu c = .ran p) (m : Move nofile) :
    k.entry (.on c m) = k.callEntry p m := by
  simp only [entry, hcpu]

/-- Who is returned by `wait` is entered so. -/
theorem entry_of_waitReturns {p : Fin nproc} {pid : ℤ} (h : k.waitReturns a = some (p, pid)) :
    k.entry a = some (.reaped, pid) := by
  obtain ⟨q, hq, hreturn⟩ := Option.bind_eq_some_iff.mp h
  obtain ⟨c, rfl, hcpu, hsusp⟩ := of_advancing hq
  split_ifs at hreturn with hpc
  obtain ⟨i, hfind, heq⟩ := Option.map_eq_some_iff.mp hreturn
  cases heq
  rw [entry_of_ran hcpu, callEntry, hpc]
  dsimp only
  rw [hfind, Option.map_some]

/-- What a step does to the accounts. -/
inductive Booking (k : Kernel nproc nofile ncpu) (a : Act nofile ncpu)
    (k' : Kernel nproc nofile ncpu) : Prop
  /-- Nothing. -/
  | quiet (hallocs : k'.allocs = k.allocs) (hentry : k.entry a = none)
      (haccounts : k'.accounts = k.accounts)
  /-- A slot is taken, under `nextpid`. -/
  | taken (i : Fin nproc) (hallocs : k'.allocs = k.allocs + 1)
      (hentry : k.entry a = some (.taken, k.nextpid))
      (hmove : Moves Entry.source Entry.target .free k.accounts .taken k.nextpid k'.accounts i)
  /-- A slot that has been taken moves on. -/
  | moved (e : Entry) (pid : ℤ) (i : Fin nproc) (he : e ≠ .taken) (hallocs : k'.allocs = k.allocs)
      (hentry : k.entry a = some (e, pid))
      (hmove : Moves Entry.source Entry.target .free k.accounts e pid k'.accounts i)

/-- One slot changes. -/
theorem accounts_of_update {j : Fin nproc} {x : Proc nproc nofile}
    (hproc : k'.proc = Function.update k.proc j x) :
    k'.accounts = Function.update k.accounts j (x.state.status, x.pid) := by
  funext i
  unfold accounts
  rw [hproc]
  by_cases hij : i = j
  · rw [hij, Function.update_self, Function.update_self]
  · rw [Function.update_of_ne hij, Function.update_of_ne hij]

/-- One slot changes, which keeps its status and its pid. -/
theorem accounts_of_update_same {j : Fin nproc} {x : Proc nproc nofile}
    (hproc : k'.proc = Function.update k.proc j x) (hstatus : x.state.status = (k.proc j).state.status)
    (hpid : x.pid = (k.proc j).pid) : k'.accounts = k.accounts := by
  rw [accounts_of_update hproc, hstatus, hpid]
  exact Function.update_eq_self j k.accounts

/-- Children are passed on, and sleepers wake up. -/
theorem accounts_of_abandoned {p : Fin nproc} (ht : Abandoned p k t) : t.accounts = k.accounts := by
  funext i
  have hpid : (t.proc i).pid = (k.proc i).pid := by rw [ht.proc i]
  exact Prod.ext (SameOrWoken.status (ht.state i)) hpid

/-- Sleepers wake up. -/
theorem accounts_of_woken (h : Woken k t) : t.accounts = k.accounts :=
  funext fun i => congrFun (accounts_of_abandoned (p := i) (.of_woken h)) i

/-- One slot changes its status. -/
theorem moves_of_update {e : Entry} {pid : ℤ} {j : Fin nproc} {x : Proc nproc nofile}
    (hproc : k'.proc = Function.update k.proc j x)
    (hsource : (k.proc j).state.status = e.source) (htarget : x.state.status = e.target)
    (hold : e.source ≠ .free → (k.proc j).pid = pid) (hnew : e.target ≠ .free → x.pid = pid) :
    Moves Entry.source Entry.target .free k.accounts e pid k'.accounts j := by
  have haccounts := accounts_of_update hproc
  have hj : k'.accounts j = (x.state.status, x.pid) := by rw [haccounts, Function.update_self]
  refine ⟨hsource, ?_, hold, ?_, ?_⟩
  · rw [hj, htarget]
  · rw [hj]
    exact hnew
  · rw [hj]
    exact haccounts

/-- `allocproc` takes a slot. -/
theorem booking_allocproc {j : Fin nproc} (hj : k.firstUnused = some j)
    (hentry : k.entry a = k.firstUnused.map fun _ => (.taken, k.nextpid))
    (hallocs : k'.allocs = k.allocs + 1) (hproc : k'.proc = (k.allocproc j).proc) :
    Booking k a k' := by
  rw [hj, Option.map_some] at hentry
  refine .taken j hallocs hentry ?_
  refine moves_of_update hproc (congrArg ProcState.status (state_of_firstUnused hj)) rfl ?_ ?_
  · exact fun hne => absurd rfl hne
  · exact fun _ => rfl

/-- The call of `wait` in which nothing is entered finds no zombie. -/
theorem callEntry_waitScan {p : Fin nproc} (hpc : k.pc p = .waitScan)
    (hnone : ∀ i, (k.proc i).parent = some p → (k.proc i).state ≠ .zombie) :
    k.callEntry p .advance = none := by
  have hfind : ((List.finRange nproc).find? fun i =>
      (k.proc i).parent = some p ∧ (k.proc i).state = .zombie) = none := by
    rw [List.find?_eq_none]
    rintro i - hi
    obtain ⟨hparent, hzombie⟩ : (k.proc i).parent = some p ∧ (k.proc i).state = .zombie := by
      simpa using hi
    exact hnone i hparent hzombie
  rw [callEntry, hpc]
  dsimp only
  rw [hfind, Option.map_none]

/-- A `wait` that changes no slot has found no zombie. -/
theorem no_zombie_of_waitScan {c : Fin ncpu} {p : Fin nproc}
    (hproc : (k.waitScan c p).proc = k.proc) :
    ∀ i, (k.proc i).parent = some p → (k.proc i).state ≠ .zombie := by
  intro i hparent hzombie
  unfold waitScan at hproc
  cases hfind : (List.finRange nproc).find? fun i =>
      (k.proc i).parent = some p ∧ (k.proc i).state = .zombie with
  | none =>
      have hnone := List.find?_eq_none.mp hfind i (List.mem_finRange i)
      exact hnone (by simpa using ⟨hparent, hzombie⟩)
  | some j =>
      rw [hfind] at hproc
      obtain ⟨-, hj⟩ : (k.proc j).parent = some p ∧ (k.proc j).state = .zombie := by
        simpa using List.find?_some hfind
      have hself := congrFun hproc j
      rw [setLock_proc, setPc_proc, modify_proc_self] at hself
      cases (congrArg Proc.state hself).trans hj

/-- **Every step has one of these effects.** -/
theorem booking_step (hc : Control k) (hstep : step k a = some k') : Booking k a k' := by
  cases step_trans hstep with
  | bootAlloc j hboot hlock hj =>
      exact booking_allocproc hj (by simp only [entry, hboot]) rfl rfl
  | bootFill j hboot =>
      exact .quiet rfl (by simp only [entry, hboot]) (accounts_of_update_same (j := j) rfl rfl rfl)
  | bootPublish j hboot =>
      have hembryo := (hc.boot j (by rw [hboot]; rfl)).1
      refine .moved .born (k.proc j).pid j (by decide) rfl (by simp only [entry, hboot]) ?_
      exact moves_of_update rfl (congrArg ProcState.status hembryo) rfl (fun _ => rfl) fun _ => rfl
  | acquire c hcpu | skip c j hcpu | release c j hcpu =>
      exact .quiet rfl (by simp only [entry, hcpu]) rfl
  | dispatch c j hcpu hj =>
      refine .quiet rfl (by simp only [entry, hcpu]) ?_
      exact accounts_of_update_same (j := j) rfl (by rw [hj]; rfl) rfl
  | resume c p hcpu => exact .quiet rfl (entry_of_ran hcpu _) rfl
  | resumeSleep c p hcpu =>
      exact .quiet rfl (entry_of_ran hcpu _) (accounts_of_update_same (j := p) rfl rfl rfl)
  | stay c p m hcpu hsusp hlock hm =>
      refine .quiet rfl ?_ rfl
      rw [entry_of_ran hcpu]
      rcases hm with ⟨rfl, hnone⟩ | ⟨pid, rfl, -⟩ | ⟨pid, rfl, -⟩
      · rw [callEntry, hnone]
        rfl
      · rfl
      · rfl
  | forkAlloc c p np hcpu hsusp hpc hlock hnp =>
      exact booking_allocproc hnp (entry_of_ran hcpu _) rfl rfl
  | forkNext c p np m pc' hcpu hsusp hpc =>
      refine .quiet rfl ?_ rfl
      rw [entry_of_ran hcpu]
      rcases hpc with ⟨-, rfl, -⟩ | ⟨-, rfl, -⟩ <;> rfl
  | forkFail c p np m hcpu hsusp hpc =>
      have hchild := child_of_failing hpc
      have hembryo := hc.child p np hchild
      have hentry : k.entry (.on c m) = some (.failed, (k.proc np).pid) := by
        rw [entry_of_ran hcpu]
        rcases hpc with ⟨-, rfl⟩ | ⟨-, rfl⟩ <;> rw [callEntry, hchild, Option.map_some]
      refine .moved .failed (k.proc np).pid np (by decide) rfl hentry ?_
      exact moves_of_update rfl (congrArg ProcState.status hembryo) rfl (fun _ => rfl) fun _ => rfl
  | forkSize c p np hcpu hsusp hpc | forkParent c p np hcpu hsusp hpc
  | forkFile c p np fd hcpu hsusp hpc =>
      refine .quiet rfl ?_ (accounts_of_update_same (j := np) rfl rfl rfl)
      rw [entry_of_ran hcpu, callEntry, hpc]
  | forkFiles c p np fd hcpu hsusp hpc | exitClosed c p fd hcpu hsusp hpc =>
      refine .quiet rfl ?_ rfl
      rw [entry_of_ran hcpu, callEntry, hpc]
  | forkPublish c p np hcpu hsusp hpc =>
      have hembryo := hc.child p np (by rw [hpc]; rfl)
      have hentry : k.entry (.on c .advance) = some (.born, (k.proc np).pid) := by
        rw [entry_of_ran hcpu, callEntry, hpc]
      refine .moved .born (k.proc np).pid np (by decide) rfl hentry ?_
      exact moves_of_update rfl (congrArg ProcState.status hembryo) rfl (fun _ => rfl) fun _ => rfl
  | exit c p hcpu | wait c p hcpu => exact .quiet rfl (entry_of_ran hcpu _) rfl
  | exitClose c p fd hcpu hsusp hpc =>
      refine .quiet rfl ?_ (accounts_of_update_same (j := p) rfl rfl rfl)
      rw [entry_of_ran hcpu, callEntry, hpc]
  | exitLast c p t hcpu hsusp hpc hlock ht =>
      -- passing the children on changes no account
      have hpid : (t.proc p).pid = (k.proc p).pid := by rw [ht.proc p]
      have haccounts := accounts_of_abandoned ht
      have halive : (t.proc p).state.status = .alive :=
        (congrArg Prod.fst (congrFun haccounts p)).trans (congrArg ProcState.status (hc.ran c p hcpu))
      have hentry : k.entry (.on c .advance) = some (.died, (k.proc p).pid) := by
        rw [entry_of_ran hcpu, callEntry, hpc]
      refine .moved .died (k.proc p).pid p (by decide) (by rw [ht.rest]; rfl) hentry ?_
      rw [← haccounts]
      exact moves_of_update rfl halive rfl (fun _ => hpid) fun _ => hpid
  | waitReap c p j hcpu hsusp hpc hlock hparent hj hfind =>
      have hentry : k.entry (.on c .advance) = some (.reaped, (k.proc j).pid) := by
        rw [entry_of_ran hcpu, callEntry, hpc]
        dsimp only
        rw [hfind, Option.map_some]
      refine .moved .reaped (k.proc j).pid j (by decide) rfl hentry ?_
      exact moves_of_update rfl (congrArg ProcState.status hj) rfl (fun _ => rfl)
        fun hne => absurd rfl hne
  | leave c p hcpu hsusp hpc hlock =>
      refine .quiet rfl ?_ rfl
      rw [entry_of_ran hcpu]
      rcases hpc with hpc | ⟨j, n, hpc⟩ | ⟨j, n, hpc⟩ | ⟨i, hpc⟩
      · -- `wait` returns `-1`
        rw [step_of_ran hcpu hsusp] at hstep
        simp only [callStep, advanceStep, hpc, if_pos hlock, Option.some.injEq] at hstep
        refine callEntry_waitScan hpc (no_zombie_of_waitScan (c := c) ?_)
        rw [hstep, setLock_proc, setPc_proc]
      · rw [callEntry, hpc]
      · rw [callEntry, hpc]
      · rw [callEntry, hpc]
  | sleep c p m chan hcpu hsusp hlock =>
      refine .quiet rfl ?_ (accounts_of_update_same (j := p) rfl (by rw [hc.ran c p hcpu]; rfl) rfl)
      rw [entry_of_ran hcpu]
      rcases hlock with ⟨rfl, hpc, -, -, hnone⟩ | ⟨-, address, rfl, -⟩
      · exact callEntry_waitScan hpc hnone
      · rfl
  | yield c p hcpu =>
      exact .quiet rfl (entry_of_ran hcpu _)
        (accounts_of_update_same (j := p) rfl (by rw [hc.ran c p hcpu]; rfl) rfl)
  | kill c p j pid hcpu =>
      refine .quiet rfl (entry_of_ran hcpu _) (accounts_of_update_same (j := j) rfl ?_ rfl)
      exact SameOrWoken.status (sameOrWoken_kill (k.proc j).state)
  | wakeup c address =>
      refine .quiet rfl ?_ (accounts_of_woken (woken_wakeup1 k _))
      simp only [entry]
      split <;> rfl
  | resize c p sz hcpu | setFile c p fd file hcpu =>
      exact .quiet rfl (entry_of_ran hcpu _) (accounts_of_update_same (j := p) rfl rfl rfl)
  | query c p m pc' hcpu hsusp hpc hlock hm =>
      refine .quiet rfl ?_ rfl
      rw [entry_of_ran hcpu]
      rcases hm with ⟨rfl, -⟩ | ⟨rfl, -⟩ | ⟨pid, j, rfl, -, -⟩ <;> rfl
  | queryNext c p j pc' hcpu hsusp hlock hpc =>
      refine .quiet rfl ?_ rfl
      rcases hpc with ⟨n, hpc, -⟩ | ⟨n, hpc, -⟩ <;> rw [entry_of_ran hcpu, callEntry, hpc]

/-! ## The book of a run -/

/-- **The book of a run** from the start. -/
def bookOf (as : List (Act nofile ncpu)) (nproc : ℕ) : List (Entry × ℤ) :=
  history step Kernel.record (.init : Kernel nproc nofile ncpu) [] as

/-- **The book balances** in every reachable kernel. -/
theorem balanced_of_run {as : List (Act nofile ncpu)} (h : run step .init as = some k) :
    Balanced Entry.source Entry.target .free k.accounts (bookOf as nproc) := by
  refine (history_invariant (I := fun (k : Kernel nproc nofile ncpu) book => Control k ∧
    Balanced Entry.source Entry.target .free k.accounts book) ⟨.start, ?_⟩ ?_ h).2
  · exact .start fun _ => rfl
  · rintro k book a k' ⟨hc, hbook⟩ hstep
    refine ⟨hc.step (step_trans hstep), ?_⟩
    unfold record
    cases booking_step hc hstep with
    | quiet hallocs hentry haccounts =>
        rw [hentry, haccounts, Option.toList_none, List.append_nil]
        exact hbook
    | taken i hallocs hentry hmove | moved e pid i he hallocs hentry hmove =>
        rw [hentry, Option.toList_some]
        exact hbook.move hmove

/-- Another entry. -/
theorem pids_snoc (e e' : Entry) (book : List (Entry × ℤ)) (pid : ℤ) :
    e.pids (book ++ [(e', pid)]) = e.pids book ++ if e' = e then [pid] else [] :=
  booked_snoc e' pid

/-- **Pids are given out in order**, as long as they do not wrap. -/
theorem taken_of_run {as : List (Act nofile ncpu)} (h : run step .init as = some k)
    (hwrap : k.allocs < maxAllocs) : Entry.taken.pids (bookOf as nproc)
      = (List.range k.allocs).map fun n : ℕ => (n : ℤ) + 1 := by
  refine ((history_invariant (I := fun (k : Kernel nproc nofile ncpu) book => Control k ∧
    (k.allocs < maxAllocs → Numbered k ∧ Entry.taken.pids book
      = (List.range k.allocs).map fun n : ℕ => (n : ℤ) + 1)) ⟨.start, fun _ => ⟨.start, rfl⟩⟩ ?_ h).2
    hwrap).2
  rintro k book a k' ⟨hc, ih⟩ hstep
  have htrans := step_trans hstep
  refine ⟨hc.step htrans, fun hlt => ?_⟩
  obtain ⟨hnum, hbook⟩ := ih ((allocs_le hc htrans).trans_lt hlt)
  refine ⟨(hnum.step htrans hlt).1, ?_⟩
  unfold record
  cases booking_step hc hstep with
  | quiet hallocs hentry =>
      rw [hentry, hallocs, Option.toList_none, List.append_nil]
      exact hbook
  | taken i hallocs hentry =>
      rw [hentry, Option.toList_some, pids_snoc, if_pos rfl, hbook, hallocs, List.range_succ,
        List.map_append, hnum.next]
      rfl
  | moved e pid i he hallocs hentry =>
      rw [hentry, hallocs, Option.toList_some, pids_snoc, if_neg he, List.append_nil]
      exact hbook

/-! ## The accounts -/

/-- **The accounts of the processes**: who has been taken is an embryo, has failed or has been born; who
has been born lives or has died; and who has died is a zombie or has been returned. -/
structure Accounted (k : Kernel nproc nofile ncpu) (book : List (Entry × ℤ)) : Prop where
  /-- Of those taken. -/
  taken : (Entry.taken.pids book : Multiset ℤ)
    = k.pids .embryo + (Entry.failed.pids book + Entry.born.pids book)
  /-- Of those born. -/
  born : (Entry.born.pids book : Multiset ℤ) = k.pids .alive + Entry.died.pids book
  /-- Of those dead. -/
  died : (Entry.died.pids book : Multiset ℤ) = k.pids .zombie + Entry.reaped.pids book

/-- The entries that lead to a status are of one kind, and so are those that lead away from it, but for
an embryo. -/
theorem Accounted.of_balanced {book : List (Entry × ℤ)}
    (h : Balanced Entry.source Entry.target .free k.accounts book) : Accounted k book := by
  have hto : ∀ (e : Entry) (s : Status), (∀ e' : Entry, e' = e ↔ e'.target = s) →
      e.pids book = booked (fun e' : Entry => e'.target = s) book := fun e s hs => booked_congr hs
  have hfrom : ∀ (e : Entry) (s : Status), (∀ e' : Entry, e' = e ↔ e'.source = s) →
      e.pids book = booked (fun e' : Entry => e'.source = s) book := fun e s hs => booked_congr hs
  refine ⟨?_, ?_, ?_⟩
  · have hleft : (booked (fun e' : Entry => e'.source = .embryo) book : Multiset ℤ)
        = Entry.failed.pids book + Entry.born.pids book := by
      have hkinds : booked (fun e' : Entry => e'.source = .embryo) book
          = booked (fun e' => e' = Entry.failed ∨ e' = Entry.born) book :=
        booked_congr fun e' => by cases e' <;> decide
      rw [hkinds]
      exact booked_or fun e' hfailed hborn => by cases hfailed.symm.trans hborn
    rw [hto .taken .embryo fun e' => by cases e' <;> decide, h .embryo (by decide), hleft]
    rfl
  · rw [hto .born .alive fun e' => by cases e' <;> decide, h .alive (by decide),
      hfrom .died .alive fun e' => by cases e' <;> decide]
    rfl
  · rw [hto .died .zombie fun e' => by cases e' <;> decide, h .zombie (by decide),
      hfrom .reaped .zombie fun e' => by cases e' <;> decide]
    rfl

/-- Who has been returned had died, who had died had been born, and who had been born had been
taken. -/
theorem Accounted.le {book : List (Entry × ℤ)} (h : Accounted k book) :
    (Entry.reaped.pids book : Multiset ℤ) ≤ Entry.died.pids book ∧
      (Entry.died.pids book : Multiset ℤ) ≤ Entry.born.pids book ∧
      (Entry.failed.pids book + Entry.born.pids book : Multiset ℤ) ≤ Entry.taken.pids book := by
  rw [h.taken]
  refine ⟨?_, ?_, Multiset.le_add_left _ _⟩
  · rw [h.died]
    exact Multiset.le_add_left _ _
  · rw [h.born]
    exact Multiset.le_add_left _ _

/-- As long as pids do not wrap nobody is entered twice in the same way. -/
theorem nodup_of_run {as : List (Act nofile ncpu)} (h : run step .init as = some k)
    (hwrap : k.allocs < maxAllocs) :
    (Entry.failed.pids (bookOf as nproc) ++ Entry.born.pids (bookOf as nproc)).Nodup ∧
      (Entry.died.pids (bookOf as nproc)).Nodup ∧ (Entry.reaped.pids (bookOf as nproc)).Nodup := by
  obtain ⟨hreaped, hdied, hborn⟩ := (Accounted.of_balanced (balanced_of_run h)).le
  have htaken : (Entry.taken.pids (bookOf as nproc)).Nodup := by
    rw [taken_of_run h hwrap]
    refine List.nodup_range.map fun m n hmn => ?_
    omega
  have hborn : (Entry.failed.pids (bookOf as nproc) ++ Entry.born.pids (bookOf as nproc)).Nodup :=
    Multiset.coe_nodup.mp (Multiset.nodup_of_le hborn (Multiset.coe_nodup.mpr htaken))
  have hdied : (Entry.died.pids (bookOf as nproc)).Nodup :=
    Multiset.coe_nodup.mp (Multiset.nodup_of_le hdied
      (Multiset.coe_nodup.mpr (List.nodup_append.mp hborn).2.1))
  have hreaped : (Entry.reaped.pids (bookOf as nproc)).Nodup :=
    Multiset.coe_nodup.mp (Multiset.nodup_of_le hreaped (Multiset.coe_nodup.mpr hdied))
  exact ⟨hborn, hdied, hreaped⟩

/-- Whom `wait` returns has died, and has not been returned before. -/
theorem returned_once {as : List (Act nofile ncpu)} (h : run step .init as = some k)
    (hwrap : k.allocs < maxAllocs) (hstep : step k a = some k') {p : Fin nproc} {pid : ℤ}
    (hwait : k.waitReturns a = some (p, pid)) :
    pid ∈ Entry.died.pids (bookOf as nproc) ∧ pid ∉ Entry.reaped.pids (bookOf as nproc) := by
  have hentry := entry_of_waitReturns hwait
  have hrun' : run step .init (as ++ [a]) = some k' := run_snoc.mpr ⟨k, h, hstep⟩
  have hbook : bookOf (as ++ [a]) nproc = bookOf as nproc ++ [(.reaped, pid)] := by
    unfold bookOf
    rw [history_snoc h hstep, record, hentry, Option.toList_some]
  have hallocs : k'.allocs = k.allocs := by
    cases booking_step (Control.of_run h) hstep with
    | quiet hallocs | moved e pid i he hallocs => exact hallocs
    | taken i hallocs hentry' => cases hentry.symm.trans hentry'
  -- the book that has it twice is the one behind the step
  have hreaped := (nodup_of_run hrun' (hallocs ▸ hwrap)).2.2
  rw [hbook, pids_snoc, if_pos rfl] at hreaped
  refine ⟨?_, fun hmem => (List.nodup_append.mp hreaped).2.2 pid hmem pid (by simp) rfl⟩
  have hle := (Accounted.of_balanced (balanced_of_run hrun')).le.1
  rw [hbook, pids_snoc, pids_snoc, if_pos rfl, if_neg (by decide), List.append_nil] at hle
  exact Multiset.mem_of_le hle (by simp)

/-- **No process is lost, and none is returned twice.** In every reachable kernel the book of the run
and the table agree; and as long as pids do not wrap `allocproc` has given out `1`, `2`, and so on, each
of which has failed or been born at most once, has died at most once, and is returned by `wait` at most
once, behind its death. -/
theorem process_accounts {as : List (Act nofile ncpu)} (h : run step .init as = some k) :
    Accounted k (bookOf as nproc) ∧ (k.allocs < maxAllocs →
      Entry.taken.pids (bookOf as nproc) = (List.range k.allocs).map (fun n : ℕ => (n : ℤ) + 1) ∧
      (Entry.failed.pids (bookOf as nproc) ++ Entry.born.pids (bookOf as nproc)).Nodup ∧
      (Entry.died.pids (bookOf as nproc)).Nodup ∧ (Entry.reaped.pids (bookOf as nproc)).Nodup ∧
      ∀ a k' p pid, step k a = some k' → k.waitReturns a = some (p, pid) →
        pid ∈ Entry.died.pids (bookOf as nproc) ∧ pid ∉ Entry.reaped.pids (bookOf as nproc)) := by
  refine ⟨.of_balanced (balanced_of_run h), fun hwrap => ?_⟩
  obtain ⟨hborn, hdied, hreaped⟩ := nodup_of_run h hwrap
  exact ⟨taken_of_run h hwrap, hborn, hdied, hreaped,
    fun a k' p pid hstep hwait => returned_once h hwrap hstep hwait⟩

/-- The child has exited, and its parent waits for it. -/
def reportRun (c c' : Fin ncpu) : List (Act nofile ncpu) :=
  raiseRun c ++ [.on c .advance] ++ childExitRun 4 c' ++ [.on c .wait]

theorem process_accounts_reportRun : ∃ k : Kernel 4 1 2, run step .init (reportRun 0 1) = some k ∧
    k.waitReturns (.on 0 .advance) = some (0, 2) ∧
      2 ∈ Entry.died.pids (bookOf (reportRun 0 1 : List (Act 1 2)) 4) := by
  have hrun : (run step (.init : Kernel 4 1 2) (reportRun 0 1)).map
      (fun k => (k.waitReturns (.on 0 .advance), k.allocs)) = some (some (0, 2), 2) := by
    decide +kernel
  have hnext : (run step (.init : Kernel 4 1 2) (reportRun 0 1 ++ [.on 0 .advance])).isSome = true := by
    decide +kernel
  obtain ⟨k, hk, heq⟩ := Option.map_eq_some_iff.mp hrun
  obtain ⟨hwait, hallocs⟩ := Prod.mk.inj heq
  obtain ⟨k', hk'⟩ := Option.isSome_iff_exists.mp hnext
  obtain ⟨t, ht, hstep⟩ := run_snoc.mp hk'
  obtain rfl : t = k := Option.some.inj (ht.symm.trans hk)
  have hwrap : t.allocs < maxAllocs := by rw [hallocs]; decide
  obtain ⟨-, -, -, -, hreturns⟩ := (process_accounts hk).2 hwrap
  exact ⟨t, hk, hwait, (hreturns _ k' 0 2 hstep hwait).1⟩

end StudiesOS.ProcessTable
