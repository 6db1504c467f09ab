import StudiesOS.ProcessTable.Queries
import StudiesOS.CMemory.Exchange

/-! # The program `ps`
The program of `ps.c`, run by one process of the kernel. Between two of its steps, also inside of its
system calls, everything else goes on: the other processes, the schedulers, and what befalls the
process itself on the way to and from a CPU. -/

namespace StudiesOS.ProcessTable

variable {nproc nofile ncpu : ℕ}

/-! ## What `ps` computes -/

/-- `stateNames`. -/
def stateNames : List (List Byte) :=
  [lit "unused", lit "embryo", lit "sleeping", lit "runnable", lit "running", lit "zombie"]

/-- `stateName`, as a row is printed with it. -/
def stateName (state : ℤ) : List Byte :=
  if 1 ≤ state ∧ state ≤ 5 then stateNames.getD state.toNat [] else lit "unknown"

/-- One comparison of `sortPids`; `none` when it is outside of the array. -/
def compareSwap (pids : List ℤ) (j : ℕ) : Option (List ℤ) := do
  let a ← pids[j]?
  let b ← pids[j + 1]?
  if b < a then some ((pids.set j b).set (j + 1) a) else some pids

/-- **`sortPids(pids, n)`.** -/
def sortPids (pids : List ℤ) (n : ℕ) : Option (List ℤ) :=
  (List.range (n - 1)).foldlM
    (fun pids i => (List.range (n - i - 1)).foldlM compareSwap pids) pids

/-- The length of the array `pids`. -/
def pidsLength : ℕ := 64

/-- A printed row. -/
structure Row where
  /-- The pid. -/
  pid : ℤ
  /-- The name of the state. -/
  stateName : List Byte
  /-- `ppid`. -/
  ppid : ℤ
  /-- `sz`. -/
  sz : ℤ
  /-- `nfd`. -/
  nfd : ℤ
  /-- `nrswitch`. -/
  nrswitch : ℤ
deriving DecidableEq

/-- The row for what `getProcInfo` has left in `pinfo`. -/
def Row.ofInfo (pid : ℤ) (pinfo : ProcessInfo) : Row where
  pid := pid
  stateName := ProcessTable.stateName pinfo.state
  ppid := pinfo.ppid
  sz := pinfo.sz
  nfd := pinfo.nfd
  nrswitch := pinfo.nrswitch

/-! ## Where it stands -/

/-- The points of `main`. -/
inductive PsPc
  /-- About to call `getNumProc`. -/
  | numProc
  /-- In it. -/
  | inNumProc
  /-- About to call `getMaxPid`. -/
  | maxPid
  /-- In it. -/
  | inMaxPid
  /-- At the test of the loop over the pids. -/
  | find (pid : ℤ)
  /-- In `getProcInfo`, which has found the pid. -/
  | inFind (pid : ℤ)
  /-- At the test of the loop that prints the rows. -/
  | print (i : ℕ)
  /-- In `getProcInfo` for the row `i`, which has found its pid. -/
  | inPrint (i : ℕ)
  /-- At `exit`. -/
  | done
deriving DecidableEq

/-- **The variables of `main`.** -/
structure Ps where
  /-- Where it stands. -/
  pc : PsPc
  /-- `numProc`. -/
  numProc : ℤ
  /-- `maxPid`. -/
  maxPid : ℤ
  /-- The first `pidCount` entries of `pids`. -/
  pids : List ℤ
  /-- Whether something was stored behind the end of `pids`. -/
  overrun : Bool
  /-- The rows printed so far. -/
  rows : List Row

/-- At the start of `main`. -/
def Ps.start : Ps where
  pc := .numProc
  numProc := 0
  maxPid := 0
  pids := []
  overrun := false
  rows := []

/-- `pids[pidCount++] = pid`. -/
def Ps.store (ps : Ps) (pid : ℤ) : Ps :=
  { ps with pids := ps.pids ++ [pid], overrun := ps.overrun || decide (pidsLength ≤ ps.pids.length) }

/-! ## The system -/

/-- **The kernel with `ps`.** -/
structure PsSystem (nproc nofile ncpu : ℕ) where
  /-- The kernel. -/
  kernel : Kernel nproc nofile ncpu
  /-- The program. -/
  ps : Ps

/-- The moves of the system. -/
inductive PsAct (nofile ncpu : ℕ)
  /-- A step that is not one of the program. -/
  | other (a : Act nofile ncpu)
  /-- The next step of the program, on CPU `c`. -/
  | main (c : Fin ncpu)
deriving DecidableEq

/-- What may befall a process that runs `ps`, apart from the queries that it calls: it is switched out
and in again, and the calls that print may sleep and wake up others. -/
def Move.incidental : Move nofile → Bool
  | .resume | .yield | .sleep _ | .wakeup _ => true
  | _ => false

/-- A step that is not one of the program: another process, a scheduler, or what befalls `self`. -/
def Kernel.Elsewhere (k : Kernel nproc nofile ncpu) (self : Fin nproc) : Act nofile ncpu → Prop
  | .userinit => True
  | .on c m => k.cpu c = .ran self → m.incidental = true

instance (k : Kernel nproc nofile ncpu) (self : Fin nproc) (a : Act nofile ncpu) :
    Decidable (k.Elsewhere self a) :=
  match a with
  | .userinit => .isTrue trivial
  | .on c m => inferInstanceAs (Decidable (k.cpu c = .ran self → m.incidental = true))

namespace PsSystem

/-- The process does the move `m` in the kernel, and `main` goes on with `ps`. -/
def call (s : PsSystem nproc nofile ncpu) (c : Fin ncpu) (m : Move nofile) (ps : Ps) :
    Option (PsSystem nproc nofile ncpu) :=
  (step s.kernel (.on c m)).map fun k => ⟨k, ps⟩

/-- The next step of `main`. -/
def mainStep (self : Fin nproc) (s : PsSystem nproc nofile ncpu) (c : Fin ncpu) :
    Option (PsSystem nproc nofile ncpu) :=
  let ps := s.ps
  match ps.pc with
  | .numProc => s.call c .getNumProc { ps with pc := .inNumProc }
  | .inNumProc =>
      match s.kernel.pc self with
      | .numScan j count =>
          s.call c .advance
            (if j < nproc then ps else { ps with numProc := count, pc := .maxPid })
      | _ => none
  | .maxPid => s.call c .getMaxPid { ps with pc := .inMaxPid }
  | .inMaxPid =>
      match s.kernel.pc self with
      | .maxScan j maxpid =>
          s.call c .advance (if j < nproc then ps else { ps with maxPid := maxpid, pc := .find 1 })
      | _ => none
  | .find pid =>
      if pid ≤ ps.maxPid then
        s.call c (.getProcInfo pid)
          { ps with pc := if s.kernel.findActive pid = none then .find (pid + 1) else .inFind pid }
      else (sortPids ps.pids ps.pids.length).map fun pids =>
        ⟨s.kernel, { ps with pids := pids, pc := .print 0 }⟩
  | .inFind pid => s.call c .advance { ps.store pid with pc := .find (pid + 1) }
  | .print i =>
      match ps.pids[i]? with
      | some pid =>
          s.call c (.getProcInfo pid)
            { ps with pc := if s.kernel.findActive pid = none then .print (i + 1) else .inPrint i }
      | none => some ⟨s.kernel, { ps with pc := .done }⟩
  | .inPrint i =>
      match ps.pids[i]?, s.kernel.pc self with
      | some pid, .infoFill j =>
          s.call c .advance
            { ps with rows := ps.rows ++ [.ofInfo pid (s.kernel.procInfo j)], pc := .print (i + 1) }
      | _, _ => none
  | .done => none

/-- **One step of the system.** -/
def step (self : Fin nproc) (s : PsSystem nproc nofile ncpu) :
    PsAct nofile ncpu → Option (PsSystem nproc nofile ncpu)
  | .other a =>
      if s.kernel.Elsewhere self a then (ProcessTable.step s.kernel a).map fun k => ⟨k, s.ps⟩
      else none
  | .main c =>
      if s.kernel.cpu c = .ran self ∧ s.kernel.susp self = .awake then s.mainStep self c else none

/-- The system when the process begins with `ps`. -/
def start (k : Kernel nproc nofile ncpu) : PsSystem nproc nofile ncpu := ⟨k, .start⟩

end PsSystem

/-! ## What `sortPids` does -/

/-- The comparison of `sortPids` is an exchange. -/
theorem compareSwap_eq : compareSwap = exchange := rfl

/-- **`sortPids` is the sort by exchanges.** -/
theorem sortPids_eq (pids : List ℤ) (n : ℕ) : sortPids pids n = exchangeSort pids n := rfl

/-- **`sortPids` changes nothing in an ascending array.** -/
theorem sortPids_of_sorted {pids : List ℤ} (h : pids.Pairwise (· < ·)) :
    sortPids pids pids.length = some pids := by
  rw [sortPids_eq]
  exact exchangeSort_of_sorted (h.imp le_of_lt)

/-- **`sortPids` has sorted** the first `n` entries of the array. -/
structure Sorts (pids : List ℤ) (n : ℕ) (result : List ℤ) : Prop where
  /-- They are in non-decreasing order. -/
  sorted : (result.take n).Pairwise (· ≤ ·)
  /-- They are those of before. -/
  perm : (result.take n).Perm (pids.take n)
  /-- The later entries are unchanged. -/
  rest : result.drop n = pids.drop n

/-- **`sortPids(pids, n)` sorts**, for every array and every `n` up to its length: it makes its comparisons
at indices below `n`, and leaves the first `n` entries sorted and the others unchanged. -/
theorem sortPids_sorts {pids : List ℤ} {n : ℕ} (hn : n ≤ pids.length) :
    (∃ result, sortPids pids n = some result ∧ Sorts pids n result) ∧
      sortPids pids n = (exchanges n).foldlM compareSwap pids ∧
      ∀ j ∈ exchanges n, j < n ∧ j + 1 < n := by
  rw [sortPids_eq, compareSwap_eq]
  refine ⟨?_, exchangeSort_eq_foldlM pids n, fun j hj => ?_⟩
  · obtain ⟨sorted, hsort, hperm, hsorted⟩ := exchangeSort_eq hn
    have hlen : sorted.length = n := by
      rw [hperm.length_eq, List.length_take, min_eq_left hn]
    refine ⟨sorted ++ pids.drop n, hsort, ?_, ?_, ?_⟩
    · rwa [List.take_left' hlen]
    · rwa [List.take_left' hlen]
    · rw [List.drop_left' hlen]
  · have hlt := lt_of_mem_exchanges hj
    exact ⟨Nat.lt_of_succ_lt hlt, hlt⟩

theorem sortPids_sorts_three :
    sortPids [3, -1, 2, 0] 3 = some [-1, 2, 3, 0] ∧
      ∃ result, sortPids [3, -1, 2, 0] 3 = some result ∧ Sorts [3, -1, 2, 0] 3 result :=
  ⟨by decide, (sortPids_sorts (by decide)).1⟩

/-! ## What a step can do -/

open Kernel

variable {self : Fin nproc} {c : Fin ncpu}

/-- **The steps of `main`, one by one.** -/
inductive MainMove (self : Fin nproc) (s : PsSystem nproc nofile ncpu) (c : Fin ncpu) :
    PsSystem nproc nofile ncpu → Prop
  /-- `getNumProc` is called. -/
  | numProc (k' : Kernel nproc nofile ncpu) (hpc : s.ps.pc = .numProc)
      (hk : Trans s.kernel (.on c .getNumProc) k') :
      MainMove self s c ⟨k', { s.ps with pc := .inNumProc }⟩
  /-- It goes on. -/
  | numNext (k' : Kernel nproc nofile ncpu) (hpc : s.ps.pc = .inNumProc)
      (hk : Trans s.kernel (.on c .advance) k') : MainMove self s c ⟨k', s.ps⟩
  /-- It returns. -/
  | numDone (k' : Kernel nproc nofile ncpu) (count : ℤ) (hpc : s.ps.pc = .inNumProc)
      (hk : Trans s.kernel (.on c .advance) k') :
      MainMove self s c ⟨k', { s.ps with numProc := count, pc := .maxPid }⟩
  /-- `getMaxPid` is called. -/
  | maxPid (hpc : s.ps.pc = .maxPid)
      (hk : Trans s.kernel (.on c .getMaxPid) ((s.kernel.setLock (some c)).setPc self (.maxScan 0 0))) :
      MainMove self s c
        ⟨(s.kernel.setLock (some c)).setPc self (.maxScan 0 0), { s.ps with pc := .inMaxPid }⟩
  /-- It goes past a slot. -/
  | maxNext (j : Fin nproc) (maxpid : ℤ) (hpc : s.ps.pc = .inMaxPid)
      (hself : s.kernel.pc self = .maxScan j maxpid)
      (hk : Trans s.kernel (.on c .advance)
        (s.kernel.setPc self (.maxScan (j + 1) (s.kernel.maxActive maxpid j)))) :
      MainMove self s c
        ⟨s.kernel.setPc self (.maxScan (j + 1) (s.kernel.maxActive maxpid j)), s.ps⟩
  /-- It returns. -/
  | maxDone (k' : Kernel nproc nofile ncpu) (j : ℕ) (maxpid : ℤ) (hpc : s.ps.pc = .inMaxPid)
      (hself : s.kernel.pc self = .maxScan j maxpid) (hk : Trans s.kernel (.on c .advance) k') :
      MainMove self s c ⟨k', { s.ps with maxPid := maxpid, pc := .find 1 }⟩
  /-- `getProcInfo` finds a pid. -/
  | ask (pid : ℤ) (i : Fin nproc) (hpc : s.ps.pc = .find pid) (hle : pid ≤ s.ps.maxPid)
      (hfind : s.kernel.findActive pid = some i)
      (hk : Trans s.kernel (.on c (.getProcInfo pid))
        ((s.kernel.setLock (some c)).setPc self (.infoFill i))) :
      MainMove self s c
        ⟨(s.kernel.setLock (some c)).setPc self (.infoFill i), { s.ps with pc := .inFind pid }⟩
  /-- It does not find it. -/
  | skip (pid : ℤ) (hpc : s.ps.pc = .find pid) :
      MainMove self s c ⟨s.kernel, { s.ps with pc := .find (pid + 1) }⟩
  /-- The pids are sorted. -/
  | sort (pid : ℤ) (pids : List ℤ) (hpc : s.ps.pc = .find pid)
      (hsort : sortPids s.ps.pids s.ps.pids.length = some pids) :
      MainMove self s c ⟨s.kernel, { s.ps with pids := pids, pc := .print 0 }⟩
  /-- A pid is stored. -/
  | store (pid : ℤ) (k' : Kernel nproc nofile ncpu) (hpc : s.ps.pc = .inFind pid)
      (hk : Trans s.kernel (.on c .advance) k') :
      MainMove self s c ⟨k', { s.ps.store pid with pc := .find (pid + 1) }⟩
  /-- `getProcInfo` finds the pid of a row. -/
  | askRow (i : ℕ) (pid : ℤ) (j : Fin nproc) (hpc : s.ps.pc = .print i)
      (hpid : s.ps.pids[i]? = some pid) (hfind : s.kernel.findActive pid = some j)
      (hk : Trans s.kernel (.on c (.getProcInfo pid))
        ((s.kernel.setLock (some c)).setPc self (.infoFill j))) :
      MainMove self s c
        ⟨(s.kernel.setLock (some c)).setPc self (.infoFill j), { s.ps with pc := .inPrint i }⟩
  /-- It does not find it. -/
  | skipRow (i : ℕ) (hpc : s.ps.pc = .print i) :
      MainMove self s c ⟨s.kernel, { s.ps with pc := .print (i + 1) }⟩
  /-- All rows are printed. -/
  | endRows (i : ℕ) (hpc : s.ps.pc = .print i) : MainMove self s c ⟨s.kernel, { s.ps with pc := .done }⟩
  /-- A row is printed. -/
  | row (i : ℕ) (pid : ℤ) (j : Fin nproc) (k' : Kernel nproc nofile ncpu)
      (hpc : s.ps.pc = .inPrint i) (hpid : s.ps.pids[i]? = some pid)
      (hself : s.kernel.pc self = .infoFill j) (hk : Trans s.kernel (.on c .advance) k') :
      MainMove self s c ⟨k', { s.ps with
        rows := s.ps.rows ++ [.ofInfo pid (s.kernel.procInfo j)], pc := .print (i + 1) }⟩

variable {s s' t : PsSystem nproc nofile ncpu}

/-- A call in the kernel. -/
theorem call_trans {m : Move nofile} {ps : Ps} (h : s.call c m ps = some s') :
    ∃ k', Trans s.kernel (.on c m) k' ∧ step s.kernel (.on c m) = some k' ∧ s' = ⟨k', ps⟩ := by
  obtain ⟨k', hk, rfl⟩ := Option.map_eq_some_iff.mp h
  exact ⟨k', step_trans hk, hk, rfl⟩

/-- `getProcInfo` that finds the pid. -/
theorem call_getProcInfo {pid : ℤ} {i : Fin nproc} {ps : Ps} (hcpu : s.kernel.cpu c = .ran self)
    (hsusp : s.kernel.susp self = .awake) (hfind : s.kernel.findActive pid = some i)
    (h : s.call c (.getProcInfo pid) ps = some s') :
    Trans s.kernel (.on c (.getProcInfo pid))
        ((s.kernel.setLock (some c)).setPc self (.infoFill i)) ∧
      s' = ⟨(s.kernel.setLock (some c)).setPc self (.infoFill i), ps⟩ := by
  obtain ⟨k', htrans, hk, rfl⟩ := call_trans h
  rw [step_of_ran hcpu hsusp] at hk
  simp only [callStep, hfind] at hk
  split_ifs at hk
  cases hk
  exact ⟨htrans, rfl⟩

/-- `getProcInfo` that does not find the pid. -/
theorem call_getProcInfo_none {pid : ℤ} {ps : Ps} (hcpu : s.kernel.cpu c = .ran self)
    (hsusp : s.kernel.susp self = .awake) (hfind : s.kernel.findActive pid = none)
    (h : s.call c (.getProcInfo pid) ps = some s') : s' = ⟨s.kernel, ps⟩ := by
  obtain ⟨k', htrans, hk, rfl⟩ := call_trans h
  rw [step_of_ran hcpu hsusp] at hk
  simp only [callStep, hfind] at hk
  split_ifs at hk
  cases hk
  rfl

/-- **Every step of `main` is one of these.** -/
theorem mainStep_move (hcpu : s.kernel.cpu c = .ran self) (hsusp : s.kernel.susp self = .awake)
    (h : s.mainStep self c = some s') : MainMove self s c s' := by
  cases hpc : s.ps.pc with
  | numProc =>
      simp only [PsSystem.mainStep, hpc] at h
      obtain ⟨k', htrans, -, rfl⟩ := call_trans h
      exact .numProc k' hpc htrans
  | inNumProc =>
      simp only [PsSystem.mainStep, hpc] at h
      split at h
      · obtain ⟨k', htrans, -, rfl⟩ := call_trans h
        split_ifs
        · exact .numNext k' hpc htrans
        · exact .numDone k' _ hpc htrans
      · cases h
  | maxPid =>
      simp only [PsSystem.mainStep, hpc] at h
      obtain ⟨k', htrans, hk, rfl⟩ := call_trans h
      rw [step_of_ran hcpu hsusp] at hk
      simp only [callStep] at hk
      split_ifs at hk
      cases hk
      exact .maxPid hpc htrans
  | inMaxPid =>
      simp only [PsSystem.mainStep, hpc] at h
      split at h
      · rename_i j maxpid hself
        obtain ⟨k', htrans, hk, rfl⟩ := call_trans h
        split_ifs with hj
        · rw [step_of_ran hcpu hsusp] at hk
          simp only [callStep, advanceStep, hself] at hk
          split_ifs at hk
          cases hk
          exact .maxNext ⟨j, hj⟩ maxpid hpc hself htrans
        · exact .maxDone k' j maxpid hpc hself htrans
      · cases h
  | find pid =>
      simp only [PsSystem.mainStep, hpc] at h
      by_cases hle : pid ≤ s.ps.maxPid
      · rw [if_pos hle] at h
        cases hfind : s.kernel.findActive pid with
        | none =>
            rw [if_pos hfind] at h
            rw [call_getProcInfo_none hcpu hsusp hfind h]
            exact .skip pid hpc
        | some i =>
            rw [if_neg (by rw [hfind]; exact Option.some_ne_none i)] at h
            obtain ⟨htrans, rfl⟩ := call_getProcInfo hcpu hsusp hfind h
            exact .ask pid i hpc hle hfind htrans
      · rw [if_neg hle] at h
        obtain ⟨pids, hsort, rfl⟩ := Option.map_eq_some_iff.mp h
        exact .sort pid pids hpc hsort
  | inFind pid =>
      simp only [PsSystem.mainStep, hpc] at h
      obtain ⟨k', htrans, -, rfl⟩ := call_trans h
      exact .store pid k' hpc htrans
  | print i =>
      simp only [PsSystem.mainStep, hpc] at h
      split at h
      · rename_i pid hpid
        cases hfind : s.kernel.findActive pid with
        | none =>
            rw [if_pos hfind] at h
            rw [call_getProcInfo_none hcpu hsusp hfind h]
            exact .skipRow i hpc
        | some j =>
            rw [if_neg (by rw [hfind]; exact Option.some_ne_none j)] at h
            obtain ⟨htrans, rfl⟩ := call_getProcInfo hcpu hsusp hfind h
            exact .askRow i pid j hpc hpid hfind htrans
      · cases h
        exact .endRows i hpc
  | inPrint i =>
      simp only [PsSystem.mainStep, hpc] at h
      split at h
      · rename_i pid j hpid hself
        obtain ⟨k', htrans, -, rfl⟩ := call_trans h
        exact .row i pid j k' hpc hpid hself htrans
      · cases h
  | done => simp [PsSystem.mainStep, hpc] at h

/-- **What a step of the system is**: something elsewhere, or a step of `main`. -/
inductive PsMove (self : Fin nproc) (s : PsSystem nproc nofile ncpu) :
    PsAct nofile ncpu → PsSystem nproc nofile ncpu → Prop
  /-- Something elsewhere. -/
  | other (a : Act nofile ncpu) (k' : Kernel nproc nofile ncpu) (he : s.kernel.Elsewhere self a)
      (hk : Trans s.kernel a k') : PsMove self s (.other a) ⟨k', s.ps⟩
  /-- A step of `main`. -/
  | main (c : Fin ncpu) (s' : PsSystem nproc nofile ncpu) (hcpu : s.kernel.cpu c = .ran self)
      (hsusp : s.kernel.susp self = .awake) (hmove : MainMove self s c s') : PsMove self s (.main c) s'

/-- Every step is one of these. -/
theorem ps_move {a : PsAct nofile ncpu} (h : s.step self a = some s') : PsMove self s a s' := by
  cases a with
  | other a =>
      simp only [PsSystem.step] at h
      split_ifs at h with he
      obtain ⟨k', hk, rfl⟩ := Option.map_eq_some_iff.mp h
      exact .other a k' he (step_trans hk)
  | main c =>
      simp only [PsSystem.step] at h
      split_ifs at h with hguard
      exact .main c s' hguard.1 hguard.2 (mainStep_move hguard.1 hguard.2 h)

/-- The kernel takes a step, or none. -/
theorem PsMove.kernel {a : PsAct nofile ncpu} (h : PsMove self s a s') :
    s'.kernel = s.kernel ∨ ∃ b, Trans s.kernel b s'.kernel := by
  cases h with
  | other a k' he hk => exact Or.inr ⟨a, hk⟩
  | main c s' hcpu hsusp hmove =>
      cases hmove with
      | skip | sort | skipRow | endRows => exact Or.inl rfl
      | numProc k' hpc hk | numNext k' hpc hk | numDone k' count hpc hk | maxPid hpc hk
      | maxNext j maxpid hpc hself hk | maxDone k' j maxpid hpc hself hk | ask pid i hpc hle hfind hk
      | store pid k' hpc hk | askRow i pid j hpc hpid hfind hk | row i pid j k' hpc hpid hself hk =>
          exact Or.inr ⟨_, hk⟩

end StudiesOS.ProcessTable
