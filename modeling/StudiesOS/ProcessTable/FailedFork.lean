import StudiesOS.ProcessTable.Kill
import StudiesOS.ProcessTable.Leftovers

/-! # A fork that fails
A `fork` fails when no slot is free, when `kalloc` in `allocproc` fails, and when `copyuvm` fails. In
the last two cases the slot is `UNUSED` again, but it keeps the pid that `allocproc` has given it. No
query, no `wait` and no later `allocproc` looks at the pid of a free slot (`unnoticed`); `kill`
does. -/

namespace StudiesOS.ProcessTable

open Kernel

variable {nproc nofile ncpu : ℕ} {k k' : Kernel nproc nofile ncpu} {c : Fin ncpu} {np : Fin nproc}

/-- **A call of `fork` on CPU `c` that returns `-1`**, without a step of anybody else. -/
inductive FailedFork (c : Fin ncpu) (k k' : Kernel nproc nofile ncpu) : Prop
  /-- No slot is free. -/
  | noSlot (hfull : k.firstUnused = none) (h : step k (.on c .fork) = some k')
  /-- `kalloc` fails. -/
  | kalloc (h : run step k [.on c .fork, .on c (.kalloc false)] = some k')
  /-- `copyuvm` fails. -/
  | copyuvm (h : run step k [.on c .fork, .on c (.kalloc true), .on c (.copyuvm false)] = some k')

/-- What `wait` returns to the process `p` after a round over the table: the pid of a child that it
reaps, or `-1`, or nothing yet. -/
def Kernel.waitResult (k : Kernel nproc nofile ncpu) (p : Fin nproc) : Option ℤ :=
  match (List.finRange nproc).find? fun i =>
      (k.proc i).parent = some p ∧ (k.proc i).state = .zombie with
  | some i => some (k.proc i).pid
  | none =>
      if (∀ i, (k.proc i).parent ≠ some p) ∨ (k.proc p).killed = true then some (-1) else none

/-- `wait` gives up the lock in the round in which it has something to return; else it sleeps, and
`scheduler` goes on with the lock. -/
theorem waitScan_lock (p : Fin nproc) : (k.waitScan c p).lock = none ↔ k.waitResult p ≠ none := by
  rw [waitScan, waitResult]
  cases (List.finRange nproc).find? fun i =>
      (k.proc i).parent = some p ∧ (k.proc i).state = .zombie with
  | some i => exact iff_of_true rfl (Option.some_ne_none _)
  | none =>
      by_cases hback : (∀ i, (k.proc i).parent ≠ some p) ∨ (k.proc p).killed = true
      · simp only [if_pos hback]
        exact iff_of_true rfl (Option.some_ne_none _)
      · simp only [if_neg hback]
        exact iff_of_false (Option.some_ne_none c) (not_not.mpr rfl)

/-- **The queries, `wait` and the next `allocproc` notice nothing** between `k` and `k'`. -/
structure Unnoticed (k k' : Kernel nproc nofile ncpu) : Prop where
  /-- `getNumProc`. -/
  numProc : k'.getNumProc = k.getNumProc
  /-- `getMaxPid`. -/
  maxPid : k'.getMaxPid = k.getMaxPid
  /-- `getProcInfo`. -/
  procInfo : ∀ pid pinfo, k'.getProcInfo pid pinfo = k.getProcInfo pid pinfo
  /-- `wait`, of any process. -/
  wait : ∀ p, k'.waitResult p = k.waitResult p
  /-- Whether it returns at once, too, on any CPU. -/
  returns : ∀ c p, (k'.waitScan c p).lock = none ↔ (k.waitScan c p).lock = none
  /-- The same slot is available. -/
  slot : k'.firstUnused = k.firstUnused
  /-- The process created in it is the same, under the number that is next. -/
  created : ∀ i, k.firstUnused = some i → ∀ j, (k'.allocproc i).proc j
    = if j = i then { (k.allocproc i).proc j with pid := k'.nextpid } else (k.allocproc i).proc j

/-- **No trace is left** between `k` and `k'`: `kill` returns the same and kills the same process
too. -/
structure NoTrace (k k' : Kernel nproc nofile ncpu) : Prop extends Unnoticed k k' where
  /-- `kill`. -/
  kill : ∀ pid, (k'.kill pid).2 = (k.kill pid).2 ∧ k'.findPid pid = k.findPid pid

/-! ## What is left in the slot -/

/-- **The slot `np` has been given back**, with the pid that it was given. -/
structure GivenBack (np : Fin nproc) (k k' : Kernel nproc nofile ncpu) : Prop where
  /-- The slot was the first one that was free. -/
  free : k.firstUnused = some np
  /-- It is free again, under another pid. -/
  self : k'.proc np = { k.proc np with pid := k.nextpid, nrswitch := 0 }
  /-- The other slots are the same. -/
  others : ∀ j, j ≠ np → k'.proc j = k.proc j

/-- The two stores of a failed fork in its slot. -/
theorem givenBack_of_proc (hfree : k.firstUnused = some np)
    (hproc : k'.proc = ((k.allocproc np).modify np fun q => { q with state := .unused }).proc) :
    GivenBack np k k' := by
  refine ⟨hfree, ?_, fun j hj => ?_⟩
  · rw [hproc, modify_proc_self, allocproc_proc, if_pos rfl]
    have hstate := state_of_firstUnused hfree
    cases hslot : k.proc np
    rw [hslot] at hstate
    cases hstate
    rfl
  · rw [hproc, modify_proc_of_ne _ hj, allocproc_proc, if_neg hj]

/-- Without a free slot `fork` changes nothing. -/
theorem fork_full (hfull : k.firstUnused = none) (h : step k (.on c .fork) = some k') :
    k' = k ∧ ∃ p, k.cpu c = .ran p ∧ k.pc p = .user := by
  cases hcpu : k.cpu c with
  | idle | scan => simp [step, hcpu] at h
  | ran p =>
      simp only [step, hcpu] at h
      split_ifs at h with hsusp
      simp only [callStep, hfull] at h
      split_ifs at h with hguard
      exact ⟨(Option.some.inj h).symm, p, rfl, hguard.1⟩

/-- The next step of a process that is on a CPU. -/
theorem callStep_of_step {p : Fin nproc} {m : Move nofile} (hcpu : k.cpu c = .ran p)
    (hm : m ≠ .resume) (h : step k (.on c m) = some k') : k.callStep c p m = some k' := by
  simp only [step, hcpu] at h
  split_ifs at h with hsusp
  exact h

/-- **The return of `kalloc`** belongs to a fork that has got a slot. -/
theorem fork_kalloc {t u : Kernel nproc nofile ncpu} {page : Bool}
    (hfork : step k (.on c .fork) = some t) (h : step t (.on c (.kalloc page)) = some u) :
    ∃ p np, k.firstUnused = some np ∧ k.cpu c = .ran p ∧
      (page = true → u = (k.allocproc np).setPc p (.forkCopyuvm np)) ∧
      (page = false → GivenBack np k u) := by
  cases hfree : k.firstUnused with
  | none =>
      obtain ⟨rfl, p, hcpu, hpc⟩ := fork_full hfree hfork
      have hcall := callStep_of_step hcpu (by simp) h
      simp [callStep, hpc] at hcall
  | some np =>
      obtain ⟨p, hcpu, -, -, rfl⟩ := of_fork hfork hfree
      have hcall := callStep_of_step (k := (k.allocproc np).setPc p (.forkKalloc np)) hcpu (by simp) h
      simp only [callStep, setPc_pc_self] at hcall
      refine ⟨p, np, rfl, hcpu, fun hpage => ?_, fun hpage => ?_⟩
      · rw [if_pos hpage, setPc_setPc] at hcall
        exact (Option.some.inj hcall).symm
      · rw [if_neg (Bool.eq_false_iff.mp hpage)] at hcall
        exact givenBack_of_proc hfree (by rw [← Option.some.inj hcall]; rfl)

/-- **A failed fork** has changed nothing, or has given its slot back. -/
theorem FailedFork.givenBack (h : FailedFork c k k') :
    k.firstUnused = none ∧ k' = k ∨ ∃ np, GivenBack np k k' := by
  cases h with
  | noSlot hfull h => exact Or.inl ⟨hfull, (fork_full hfull h).1⟩
  | kalloc h =>
      obtain ⟨t, hfork, hrest⟩ := Option.bind_eq_some_iff.mp h
      obtain ⟨u, hkalloc, hu⟩ := Option.bind_eq_some_iff.mp hrest
      obtain rfl : u = k' := Option.some.inj hu
      obtain ⟨p, np, -, -, -, hback⟩ := fork_kalloc hfork hkalloc
      exact Or.inr ⟨np, hback rfl⟩
  | copyuvm h =>
      obtain ⟨t, hfork, hrest⟩ := Option.bind_eq_some_iff.mp h
      obtain ⟨u, hkalloc, hrest⟩ := Option.bind_eq_some_iff.mp hrest
      obtain ⟨w, hcopy, hw⟩ := Option.bind_eq_some_iff.mp hrest
      obtain rfl : w = k' := Option.some.inj hw
      obtain ⟨p, np, hfree, hcpu, hpage, -⟩ := fork_kalloc hfork hkalloc
      obtain rfl := hpage rfl
      have hcall := callStep_of_step (k := (k.allocproc np).setPc p (.forkCopyuvm np)) hcpu (by simp)
        hcopy
      simp only [callStep, setPc_pc_self] at hcall
      refine Or.inr ⟨np, givenBack_of_proc hfree ?_⟩
      rw [← Option.some.inj hcall]
      rfl

/-- `kill` finds the first slot with the pid. -/
theorem findPid_eq_some {pid : ℤ} {i : Fin nproc} :
    k.findPid pid = some i ↔ (k.proc i).pid = pid ∧ ∀ j < i, (k.proc j).pid ≠ pid := by
  rw [findPid, List.find?_eq_some_iff_getElem]
  simp only [decide_eq_true_eq, List.getElem_finRange]
  constructor
  · rintro ⟨hi, n, hn, rfl, hfirst⟩
    refine ⟨hi, fun j hj => ?_⟩
    simpa using hfirst j hj
  · rintro ⟨hi, hfirst⟩
    refine ⟨hi, i, by simp, by simp, fun j hj => ?_⟩
    simpa using hfirst ⟨j, hj.trans i.isLt⟩ hj

/-- When two kernels find the same slot for a pid, and only the first one has it at `np`, the slot
found is in front of `np`. -/
theorem found_earlier {pid : ℤ} (hnp : (k.proc np).pid = pid) (hne : (k'.proc np).pid ≠ pid)
    (heq : k'.findPid pid = k.findPid pid) : ∃ i < np, (k'.proc i).pid = pid := by
  cases hi : k.findPid pid with
  | none => exact absurd hnp (findPid_eq_none.mp hi np)
  | some i =>
      rw [hi] at heq
      obtain ⟨-, hfirst⟩ := findPid_eq_some.mp hi
      have hi' := of_findPid heq
      refine ⟨i, ?_, hi'⟩
      rcases lt_trichotomy i np with hlt | rfl | hgt
      · exact hlt
      · exact absurd hi' hne
      · exact absurd hnp (hfirst np hgt)

/-- What `kill` returns depends on whether it finds a slot. -/
theorem kill_congr {pid : ℤ} (h : k'.findPid pid = k.findPid pid) :
    (k'.kill pid).2 = (k.kill pid).2 := by
  rw [Kernel.kill, Kernel.kill, h]
  cases k.findPid pid with
  | none => rfl
  | some i => rfl

/-! ## What notices it -/

namespace GivenBack

variable (h : GivenBack np k k')

include h

/-- The slot is free before and after. -/
theorem states (i : Fin nproc) : (k'.proc i).state = (k.proc i).state := by
  by_cases hi : i = np
  · rw [hi, h.self]
  · rw [h.others i hi]

/-- Everything but the pid and the count of switches is the same in every slot. -/
theorem links (i : Fin nproc) : (k'.proc i).parent = (k.proc i).parent ∧
    (k'.proc i).killed = (k.proc i).killed := by
  by_cases hi : i = np
  · rw [hi, h.self]
    exact ⟨rfl, rfl⟩
  · rw [h.others i hi]
    exact ⟨rfl, rfl⟩

/-- An active slot is the same. -/
theorem active {i : Fin nproc} (hi : (k.proc i).state ≠ .unused) : k'.proc i = k.proc i := by
  apply h.others
  rintro rfl
  exact hi (state_of_firstUnused h.free)

/-- `getNumProc` counts the same slots. -/
theorem getNumProc_eq : k'.getNumProc = k.getNumProc := by
  have hcount : k'.countActive = k.countActive := by
    funext count i
    rw [countActive, countActive, h.states i]
  rw [getNumProc, getNumProc, hcount]

/-- `getMaxPid` looks at active slots only. -/
theorem getMaxPid_eq : k'.getMaxPid = k.getMaxPid := by
  have hmax : k'.maxActive = k.maxActive := by
    funext maxpid i
    by_cases hi : (k.proc i).state = .unused
    · rw [maxActive, maxActive, h.states i, if_neg (not_not.mpr hi), if_neg (not_not.mpr hi)]
    · rw [maxActive, maxActive, h.active hi]
  rw [getMaxPid, getMaxPid, hmax]

/-- `getProcInfo` reads an active slot and its parent, and a free slot is nobody's parent. -/
theorem getProcInfo_eq (hrel : Related k) (pid : ℤ) (pinfo : ProcessInfo) :
    k'.getProcInfo pid pinfo = k.getProcInfo pid pinfo := by
  have hfind : k'.findActive pid = k.findActive pid := by
    apply congrArg (fun test => (List.finRange nproc).find? test)
    funext i
    by_cases hi : (k.proc i).state = .unused
    · simp [h.states i, hi]
    · rw [h.active hi]
  rw [Kernel.getProcInfo, Kernel.getProcInfo, hfind]
  cases hi : k.findActive pid with
  | none => rfl
  | some i =>
      refine congrArg (Prod.mk 0) ?_
      rw [Kernel.procInfo, Kernel.procInfo, h.active (of_findActive hi).1]
      cases hq : (k.proc i).parent with
      | none => rfl
      | some q => simp only [h.active (state_of_alive (hrel.family.kin i q hq)).1]

/-- `wait` looks for zombies, and at the parents of the slots. -/
theorem waitResult_eq (p : Fin nproc) : k'.waitResult p = k.waitResult p := by
  have hzombie : ((List.finRange nproc).find? fun i =>
      (k'.proc i).parent = some p ∧ (k'.proc i).state = .zombie)
      = (List.finRange nproc).find? fun i =>
        (k.proc i).parent = some p ∧ (k.proc i).state = .zombie := by
    apply congrArg (fun test => (List.finRange nproc).find? test)
    funext i
    rw [(h.links i).1, h.states i]
  rw [waitResult, waitResult, hzombie, (h.links p).2]
  cases hi : (List.finRange nproc).find? fun i =>
      (k.proc i).parent = some p ∧ (k.proc i).state = .zombie with
  | none => simp only [(h.links _).1]
  | some i =>
      have hstate : (k.proc i).parent = some p ∧ (k.proc i).state = .zombie := by
        simpa using List.find?_some hi
      have hactive : (k.proc i).state ≠ .unused := by
        rw [hstate.2]
        decide
      simp only [h.active hactive]

/-- The slot is still the first free one. -/
theorem firstUnused_eq : k'.firstUnused = k.firstUnused := by
  apply congrArg (fun test => (List.finRange nproc).find? test)
  funext i
  rw [h.states i]

/-- `allocproc` overwrites what is left in the slot. -/
theorem allocproc_eq (j : Fin nproc) : (k'.allocproc np).proc j
    = if j = np then { (k.allocproc np).proc j with pid := k'.nextpid }
      else (k.allocproc np).proc j := by
  rw [allocproc_proc, allocproc_proc]
  by_cases hj : j = np
  · subst hj
    simp only [if_pos, h.self]
  · simp only [if_neg hj, h.others j hj]

/-- **Nobody but `kill` notices it.** -/
theorem unnoticed (hrel : Related k) : Unnoticed k k' := by
  refine ⟨h.getNumProc_eq, h.getMaxPid_eq, h.getProcInfo_eq hrel, h.waitResult_eq, fun c p => ?_,
    h.firstUnused_eq, fun i hi j => ?_⟩
  · rw [waitScan_lock, waitScan_lock, h.waitResult_eq]
  obtain rfl : np = i := Option.some.inj (h.free.symm.trans hi)
  exact h.allocproc_eq j

/-- The pid of the slot is the one thing that `kill` sees differently. -/
theorem pids (i : Fin nproc) :
    (k'.proc i).pid = if i = np then k.nextpid else (k.proc i).pid := by
  by_cases hi : i = np
  · rw [hi, h.self, if_pos rfl]
  · rw [h.others i hi, if_neg hi]

/-- A pid that an earlier slot bears is not looked for in the slot. -/
theorem findPid_earlier {pid : ℤ} {e : Fin nproc} (he : e < np) (hpid : (k.proc e).pid = pid) :
    k'.findPid pid = k.findPid pid := by
  cases hm : k.findPid pid with
  | none => exact absurd hpid (findPid_eq_none.mp hm e)
  | some m =>
      obtain ⟨hpidm, hfirst⟩ := findPid_eq_some.mp hm
      have hmnp : m < np := (not_lt.mp fun hlt => hfirst e hlt hpid).trans_lt he
      refine findPid_eq_some.mpr ⟨?_, fun j hj => ?_⟩
      · rw [h.pids, if_neg hmnp.ne, hpidm]
      · rw [h.pids, if_neg (hj.trans hmnp).ne]
        exact hfirst j hj

/-- A pid that the slot bears before and after, or neither before nor after. -/
theorem findPid_same {pid : ℤ} (hiff : k.nextpid = pid ↔ (k.proc np).pid = pid) :
    k'.findPid pid = k.findPid pid := by
  apply congrArg (fun test => (List.finRange nproc).find? test)
  funext i
  by_cases hi : i = np
  · rw [h.pids, if_pos hi, decide_eq_decide, hi]
    exact hiff
  · rw [h.others i hi]

/-- **When `kill` notices nothing**: the slot bears the pid that it had, or earlier slots bear both
pids. -/
theorem kill_iff : (∀ pid, k'.findPid pid = k.findPid pid) ↔
    (k.proc np).pid = k.nextpid ∨ ∃ i j, i < np ∧ j < np ∧ (k.proc i).pid = k.nextpid ∧
      (k.proc j).pid = (k.proc np).pid := by
  have hnew : (k'.proc np).pid = k.nextpid := by rw [h.pids, if_pos rfl]
  constructor
  · intro hsame
    by_cases hpid : (k.proc np).pid = k.nextpid
    · exact Or.inl hpid
    · -- the slots found for the two pids are other ones, and stand in front of it
      obtain ⟨i, hi, hi'⟩ := found_earlier hnew hpid (hsame _).symm
      obtain ⟨j, hj, hj'⟩ := found_earlier rfl (hnew ▸ Ne.symm hpid) (hsame (k.proc np).pid)
      rw [h.pids, if_neg (ne_of_lt hj)] at hj'
      exact Or.inr ⟨i, j, hi, hj, hi', hj'⟩
  · rintro (hpid | ⟨i, j, hi, hj, hpidi, hpidj⟩) pid
    · exact h.findPid_same (by rw [hpid])
    · by_cases hpid : k.nextpid = pid
      · exact h.findPid_earlier hi (hpidi.trans hpid)
      · by_cases hold : (k.proc np).pid = pid
        · exact h.findPid_earlier hj (hpidj.trans hold)
        · exact h.findPid_same (iff_of_false hpid hold)

end GivenBack

/-- **A failed fork.** Whatever makes it fail, the queries, every `wait` and the next `allocproc`
notice nothing. `kill` does not notice it either, so that no trace is left, if and only if no slot was
free, or the slot tried already bore the pid that is next, or slots in front of it bear that pid and
the one of the slot. While pids have not wrapped: if and only if no slot was free. -/
theorem failedFork_trace {as : List (Act nofile ncpu)} (h : run step .init as = some k)
    (hfail : FailedFork c k k') :
    Unnoticed k k' ∧
    (NoTrace k k' ↔ ∀ np, k.firstUnused = some np → (k.proc np).pid = k.nextpid ∨
      ∃ i j, i < np ∧ j < np ∧ (k.proc i).pid = k.nextpid ∧ (k.proc j).pid = (k.proc np).pid) ∧
    (k.allocs < maxAllocs → (NoTrace k k' ↔ k.firstUnused = none)) := by
  rcases hfail.givenBack with ⟨hfull, rfl⟩ | ⟨np, hback⟩
  · -- no slot was free, and nothing has changed
    have hunnoticed : Unnoticed k' k' := by
      refine ⟨rfl, rfl, fun _ _ => rfl, fun _ => rfl, fun _ _ => Iff.rfl, rfl, fun i hi => ?_⟩
      rw [hfull] at hi
      cases hi
    have htrace : NoTrace k' k' := ⟨hunnoticed, fun _ => ⟨rfl, rfl⟩⟩
    refine ⟨hunnoticed, ⟨fun _ np hnp => ?_, fun _ => htrace⟩, fun _ => ⟨fun _ => hfull,
      fun _ => htrace⟩⟩
    rw [hfull] at hnp
    cases hnp
  · have hunnoticed := hback.unnoticed (Related.of_run h)
    have htrace : NoTrace k k' ↔ (k.proc np).pid = k.nextpid ∨
        ∃ i j, i < np ∧ j < np ∧ (k.proc i).pid = k.nextpid ∧
          (k.proc j).pid = (k.proc np).pid := by
      rw [← hback.kill_iff]
      constructor
      · exact fun hnone pid => (hnone.kill pid).2
      · exact fun hfind => ⟨hunnoticed, fun pid => ⟨kill_congr (hfind pid), hfind pid⟩⟩
    refine ⟨hunnoticed, htrace.trans ?_, fun hlt => ?_⟩
    · rw [hback.free]
      simp only [Option.some.injEq, forall_eq']
    · -- nobody bears the pid that is next
      have hfresh : ∀ i, (k.proc i).pid ≠ k.nextpid := fun i =>
        ne_of_lt ((Numbered.of_run h hlt).sound.range i).2
      rw [htrace, hback.free]
      constructor
      · rintro (hpid | ⟨i, j, -, -, hpid, -⟩)
        · exact absurd hpid (hfresh np)
        · exact absurd hpid (hfresh i)
      · intro hnone
        cases hnone

/-- The first process alone. -/
theorem failedFork_trace_noSlot : ∃ k : Kernel 1 1 2, run step .init (bootRun 0) = some k ∧
    k.firstUnused = none ∧ FailedFork 0 k k ∧ NoTrace k k := by
  have hrun : (run step (.init : Kernel 1 1 2) (bootRun 0)).map
      (fun k => ((k.cpu 0, k.susp 0, k.pc 0), k.lock, k.firstUnused, k.allocs))
      = some ((.ran 0, .awake, .user), none, none, 1) := by decide +kernel
  obtain ⟨k, hk, heq⟩ := Option.map_eq_some_iff.mp hrun
  simp only [Prod.mk.injEq] at heq
  obtain ⟨⟨hcpu, hsusp, hpc⟩, hlock, hfull, hallocs⟩ := heq
  have hfork : step k (.on 0 .fork) = some k := by
    rw [step_of_ran hcpu hsusp, callStep, if_pos ⟨hpc, hlock⟩, hfull]
  have hfail : FailedFork 0 k k := .noSlot hfull hfork
  have hlt : k.allocs < maxAllocs := by rw [hallocs]; decide
  exact ⟨k, hk, hfull, hfail, ((failedFork_trace hk hfail).2.2 hlt).mpr hfull⟩

/-- **After a failed `copyuvm`** `kill(2)` succeeds, though nobody has got the pid `2`. -/
theorem failedCopyuvm_leaves_pid : ∃ k k' : Kernel 4 1 2, run step .init (bootRun 0) = some k ∧
    FailedFork 0 k k' ∧ (k.kill 2).2 = -1 ∧ (k'.kill 2).2 = 0 ∧ ¬ NoTrace k k' := by
  have hrun : ((run step (.init : Kernel 4 1 2) (bootRun 0)).bind fun k =>
      (run step k [.on 0 .fork, .on 0 (.kalloc true), .on 0 (.copyuvm false)]).map fun k' =>
        ((k.kill 2).2, (k'.kill 2).2)) = some (-1, 0) := by decide +kernel
  obtain ⟨k, hk, hrest⟩ := Option.bind_eq_some_iff.mp hrun
  obtain ⟨k', hk', heq⟩ := Option.map_eq_some_iff.mp hrest
  obtain ⟨hbefore, hafter⟩ := Prod.mk.inj heq
  refine ⟨k, k', hk, .copyuvm hk', hbefore, hafter, fun hnone => ?_⟩
  have hsame := (hnone.kill 2).1
  rw [hbefore, hafter] at hsame
  cases hsame

end StudiesOS.ProcessTable
