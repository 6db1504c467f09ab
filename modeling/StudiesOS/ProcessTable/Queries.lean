import StudiesOS.ProcessTable.Pids
import Mathlib.Data.Finset.Card
import Mathlib.Data.Fintype.Basic
import Mathlib.Order.Interval.Finset.Defs
import Mathlib.Data.Int.Interval
import Mathlib.Data.Int.ConditionallyCompleteOrder

/-! # The queries agree
`getNumProc` counts slots, `getMaxPid` compares pids and `getProcInfo` looks for one; that they agree
comes from the pids of active processes being distinct and positive. -/

namespace StudiesOS.ProcessTable

open Kernel

variable {nproc nofile ncpu : ℕ} (k : Kernel nproc nofile ncpu)

/-! ## What the loops compute -/

/-- `getNumProc` counts the active slots it goes over. -/
theorem foldl_countActive (l : List (Fin nproc)) (count : ℤ) :
    l.foldl k.countActive count
      = count + (l.filter fun i => (k.proc i).state ≠ .unused).length := by
  induction l generalizing count with
  | nil => simp
  | cons i l ih =>
      rw [List.foldl_cons, ih, countActive, List.filter_cons]
      split
      · rename_i hi
        simp [hi]
        ring
      · rename_i hi
        simp [hi]

/-- `getMaxPid` does not go down. -/
theorem le_foldl_maxActive (l : List (Fin nproc)) (maxpid : ℤ) :
    maxpid ≤ l.foldl k.maxActive maxpid := by
  induction l generalizing maxpid with
  | nil => exact le_rfl
  | cons i l ih =>
      refine le_trans ?_ (ih (k.maxActive maxpid i))
      unfold maxActive
      split_ifs with hi hlt
      · exact hlt.le
      · exact le_rfl
      · exact le_rfl

/-- `getMaxPid` is an upper bound. -/
theorem pid_le_foldl_maxActive {l : List (Fin nproc)} {i : Fin nproc} (hmem : i ∈ l)
    (hi : (k.proc i).state ≠ .unused) (maxpid : ℤ) : (k.proc i).pid ≤ l.foldl k.maxActive maxpid := by
  induction l generalizing maxpid with
  | nil => cases hmem
  | cons j l ih =>
      rcases List.mem_cons.mp hmem with rfl | hmem
      · refine le_trans ?_ (le_foldl_maxActive k l (k.maxActive maxpid i))
        rw [maxActive, if_pos hi]
        split_ifs <;> omega
      · exact ih hmem _

/-- `getMaxPid` is attained. -/
theorem foldl_maxActive_mem (l : List (Fin nproc)) (maxpid : ℤ) :
    l.foldl k.maxActive maxpid = maxpid ∨
      ∃ i ∈ l, (k.proc i).state ≠ .unused ∧ l.foldl k.maxActive maxpid = (k.proc i).pid := by
  induction l generalizing maxpid with
  | nil => exact Or.inl rfl
  | cons j l ih =>
      rw [List.foldl_cons]
      rcases ih (k.maxActive maxpid j) with heq | ⟨i, hmem, hi, heq⟩
      · rw [heq, maxActive]
        split_ifs with hj hlt
        · exact Or.inr ⟨j, List.mem_cons_self, hj, rfl⟩
        · exact Or.inl rfl
        · exact Or.inl rfl
      · exact Or.inr ⟨i, List.mem_cons_of_mem j hmem, hi, heq⟩

/-- The active slots. -/
def Kernel.actives (k : Kernel nproc nofile ncpu) : Finset (Fin nproc) :=
  Finset.univ.filter fun i => (k.proc i).state ≠ .unused

@[simp] theorem mem_actives {i : Fin nproc} : i ∈ k.actives ↔ (k.proc i).state ≠ .unused := by
  simp [actives]

/-- **`getNumProc` is the number of active slots.** -/
theorem getNumProc_eq_card : k.getNumProc = k.actives.card := by
  rw [getNumProc, foldl_countActive, zero_add]
  rfl

/-- The pid of an active process is at most `getMaxPid`. -/
theorem pid_le_getMaxPid {i : Fin nproc} (hi : (k.proc i).state ≠ .unused) :
    (k.proc i).pid ≤ k.getMaxPid :=
  pid_le_foldl_maxActive k (List.mem_finRange i) hi 0

/-- `getProcInfo` succeeds exactly on the pids of active processes. -/
theorem getProcInfo_eq_zero {pid : ℤ} {pinfo : ProcessInfo} :
    (k.getProcInfo pid pinfo).1 = 0 ↔ ∃ i, (k.proc i).state ≠ .unused ∧ (k.proc i).pid = pid := by
  rw [getProcInfo]
  cases hfind : k.findActive pid with
  | none =>
      have hnone := findActive_eq_none.mp hfind
      constructor
      · intro h
        cases h
      · rintro ⟨i, hi, hpid⟩
        exact absurd hpid (hnone i hi)
  | some i => exact ⟨fun _ => ⟨i, of_findActive hfind⟩, fun _ => rfl⟩

/-- `getProcInfo` that does not succeed returns `-1` and writes nothing. -/
theorem getProcInfo_of_ne_zero {pid : ℤ} {pinfo : ProcessInfo}
    (h : (k.getProcInfo pid pinfo).1 ≠ 0) : k.getProcInfo pid pinfo = (-1, pinfo) := by
  rw [getProcInfo] at h ⊢
  cases hfind : k.findActive pid with
  | none => rfl
  | some i =>
      rw [hfind] at h
      exact absurd rfl h

/-! ## Agreement -/

/-- Without active processes `getMaxPid` is `0`. -/
theorem getMaxPid_of_empty (h : ∀ i, (k.proc i).state = .unused) : k.getMaxPid = 0 := by
  rcases foldl_maxActive_mem k (List.finRange nproc) 0 with heq | ⟨i, -, hi, -⟩
  · exact heq
  · exact absurd (h i) hi

variable {k}

/-- With one, it is the pid of an active process. -/
theorem getMaxPid_mem (h : k.registry.Sound) {i : Fin nproc} (hi : (k.proc i).state ≠ .unused) :
    ∃ j, (k.proc j).state ≠ .unused ∧ (k.proc j).pid = k.getMaxPid := by
  rcases foldl_maxActive_mem k (List.finRange nproc) 0 with heq | ⟨j, -, hj, heq⟩
  · have hpos : 1 ≤ (k.proc i).pid := (h.live_range hi).1
    have hle := pid_le_getMaxPid k hi
    rw [getMaxPid, heq] at hle
    omega
  · exact ⟨j, hj, heq.symm⟩

/-- The pids on which `getProcInfo` succeeds are those of the active slots. -/
theorem found_eq_image (h : k.registry.Sound) (pinfo : ProcessInfo) :
    ((Finset.Icc 1 k.getMaxPid).filter fun pid => (k.getProcInfo pid pinfo).1 = 0)
      = k.actives.image fun i => (k.proc i).pid := by
  ext pid
  simp only [Finset.mem_filter, Finset.mem_Icc, Finset.mem_image, mem_actives,
    getProcInfo_eq_zero]
  constructor
  · rintro ⟨-, i, hi, hpid⟩
    exact ⟨i, hi, hpid⟩
  · rintro ⟨i, hi, rfl⟩
    exact ⟨⟨(h.live_range hi).1, pid_le_getMaxPid k hi⟩, i, hi, rfl⟩

/-- **As many pids are found as there are active slots.** -/
theorem card_found (h : k.registry.Sound) (pinfo : ProcessInfo) :
    (((Finset.Icc 1 k.getMaxPid).filter fun pid => (k.getProcInfo pid pinfo).1 = 0).card : ℤ)
      = k.getNumProc := by
  rw [found_eq_image h, getNumProc_eq_card, Finset.card_image_of_injOn]
  intro i hi j _ heq
  exact h.live_inj (r := k.registry) ((mem_actives k).mp hi) heq

/-- There are no more active processes than pids. -/
theorem getNumProc_le_getMaxPid (h : k.registry.Sound) : k.getNumProc ≤ k.getMaxPid := by
  have hle : k.actives.card ≤ (Finset.Icc 1 k.getMaxPid).card := by
    refine Finset.card_le_card_of_injOn (fun i => (k.proc i).pid) (fun i hi => ?_)
      fun i hi j _ heq => ?_
    · have hi := (mem_actives k).mp hi
      exact Finset.mem_coe.mpr
        (Finset.mem_Icc.mpr ⟨(h.live_range (r := k.registry) hi).1, pid_le_getMaxPid k hi⟩)
    · exact h.live_inj (r := k.registry) ((mem_actives k).mp hi) heq
  have hpos : 0 ≤ k.getMaxPid := le_foldl_maxActive k _ 0
  rw [Int.card_Icc] at hle
  rw [getNumProc_eq_card]
  omega

/-! ## The calls slot by slot -/

/-- A loop of a query over the table, slot by slot. -/
theorem scan_run {c : Fin ncpu} {p : Fin nproc} (point : ℕ → ℤ → Pc nproc)
    (round : ℤ → Fin nproc → ℤ)
    (hround : ∀ (j : Fin nproc) acc, step (k.setPc p (point j acc)) (.on c .advance)
      = some (k.setPc p (point (j + 1) (round acc j)))) {j : ℕ} (hj : j ≤ nproc) :
    run step (k.setPc p (point 0 0)) (List.replicate j (.on c .advance))
      = some (k.setPc p (point j (((List.finRange nproc).take j).foldl round 0))) := by
  induction j with
  | zero => rfl
  | succ j ih =>
      have hlen : j < (List.finRange nproc).length := by
        rw [List.length_finRange]
        exact hj
      rw [List.replicate_succ', run_snoc]
      refine ⟨_, ih (by omega), ?_⟩
      rw [List.take_succ_eq_append_getElem hlen, List.foldl_append, List.getElem_finRange]
      exact hround ⟨j, hj⟩ _

/-- The whole table. -/
theorem take_finRange : (List.finRange nproc).take nproc = List.finRange nproc :=
  List.take_of_length_le (by rw [List.length_finRange])

section Scan

variable {c : Fin ncpu} {p : Fin nproc} (hcpu : k.cpu c = .ran p) (hsusp : k.susp p = .awake)
  (hlock : k.lock = some c)

include hcpu hsusp hlock

/-- **`getNumProc`, called on a table that nothing changes meanwhile**, counts the active slots. -/
theorem numScan_run :
    run step (k.setPc p (.numScan 0 0)) (List.replicate nproc (.on c .advance))
      = some (k.setPc p (.numScan nproc k.getNumProc)) := by
  rw [scan_run .numScan k.countActive (fun j acc => ?_) le_rfl, take_finRange]
  · rfl
  · have hheld : (k.setPc p (.numScan j acc)).lock = some c := hlock
    rw [step_of_ran (k := k.setPc p _) hcpu hsusp]
    simp only [callStep, advanceStep, setPc_pc_self]
    rw [if_pos hheld, dif_pos j.isLt, setPc_setPc]
    rfl

/-- **`getMaxPid`, called on a table that nothing changes meanwhile**, finds the largest active pid. -/
theorem maxScan_run :
    run step (k.setPc p (.maxScan 0 0)) (List.replicate nproc (.on c .advance))
      = some (k.setPc p (.maxScan nproc k.getMaxPid)) := by
  rw [scan_run .maxScan k.maxActive (fun j acc => ?_) le_rfl, take_finRange]
  · rfl
  · have hheld : (k.setPc p (.maxScan j acc)).lock = some c := hlock
    rw [step_of_ran (k := k.setPc p _) hcpu hsusp]
    simp only [callStep, advanceStep, setPc_pc_self]
    rw [if_pos hheld, dif_pos j.isLt, setPc_setPc]
    rfl

/-- **A call that is not disturbed** goes over the table and ends with what the function returns. -/
theorem scans_run :
    (k.pc p = .numScan 0 0 → run step k (List.replicate nproc (.on c .advance))
      = some (k.setPc p (.numScan nproc k.getNumProc))) ∧
    (k.pc p = .maxScan 0 0 → run step k (List.replicate nproc (.on c .advance))
      = some (k.setPc p (.maxScan nproc k.getMaxPid))) := by
  have hself : ∀ {pc : Pc nproc}, k.pc p = pc → k.setPc p pc = k := by
    rintro _ rfl
    rw [setPc, Function.update_eq_self]
  refine ⟨fun hpc => ?_, fun hpc => ?_⟩
  · have hrun := numScan_run hcpu hsusp hlock
    rwa [hself hpc] at hrun
  · have hrun := maxScan_run hcpu hsusp hlock
    rwa [hself hpc] at hrun

end Scan

/-! ## The result -/

/-- **The queries agree**, on every reachable kernel whose pids have not wrapped; and a call of
`getNumProc` or `getMaxPid` that has the lock, and that nobody disturbs, goes over the table slot by slot
to the value that these results are about. -/
theorem queries_agree {as : List (Act nofile ncpu)} (h : run step .init as = some k)
    (hlt : k.allocs < maxAllocs) :
    (∀ i j, (k.proc i).state ≠ .unused → (k.proc j).state ≠ .unused →
      (k.proc i).pid = (k.proc j).pid → i = j) ∧
    (∀ i, (k.proc i).state ≠ .unused → 1 ≤ (k.proc i).pid ∧ (k.proc i).pid < k.nextpid) ∧
    (∀ pinfo, (∃ i, (k.proc i).state ≠ .unused) →
      IsGreatest {pid | (k.getProcInfo pid pinfo).1 = 0} k.getMaxPid) ∧
    ((∀ i, (k.proc i).state = .unused) → k.getMaxPid = 0) ∧
    (∀ pinfo, (((Finset.Icc 1 k.getMaxPid).filter fun pid =>
      (k.getProcInfo pid pinfo).1 = 0).card : ℤ) = k.getNumProc) ∧
    k.getNumProc ≤ k.getMaxPid ∧
    (∀ pid pinfo, (k.getProcInfo pid pinfo).1 ≠ 0 → k.getProcInfo pid pinfo = (-1, pinfo)) ∧
    (∀ pid pinfo, pid ≤ 0 ∨ k.getMaxPid < pid → k.getProcInfo pid pinfo = (-1, pinfo)) ∧
    ∀ c p, k.cpu c = .ran p → k.susp p = .awake → k.lock = some c →
      (k.pc p = .numScan 0 0 → run step k (List.replicate nproc (.on c .advance))
        = some (k.setPc p (.numScan nproc k.getNumProc))) ∧
      (k.pc p = .maxScan 0 0 → run step k (List.replicate nproc (.on c .advance))
        = some (k.setPc p (.maxScan nproc k.getMaxPid))) := by
  have hsound := (Numbered.of_run h hlt).sound
  refine ⟨fun i j hi _ heq => hsound.live_inj (r := k.registry) hi heq,
    fun i hi => hsound.live_range (r := k.registry) hi, fun pinfo hex => ⟨?_, ?_⟩,
    getMaxPid_of_empty k, card_found hsound, getNumProc_le_getMaxPid hsound,
    fun pid pinfo => getProcInfo_of_ne_zero k, fun pid pinfo hpid => ?_,
    fun c p hcpu hsusp hlock => scans_run hcpu hsusp hlock⟩
  · obtain ⟨i, hi⟩ := hex
    exact (getProcInfo_eq_zero k).mpr (getMaxPid_mem hsound hi)
  · intro pid hpid
    obtain ⟨i, hi, rfl⟩ := (getProcInfo_eq_zero k).mp hpid
    exact pid_le_getMaxPid k hi
  · refine getProcInfo_of_ne_zero k fun hzero => ?_
    obtain ⟨i, hi, rfl⟩ := (getProcInfo_eq_zero k).mp hzero
    have hpos : 1 ≤ (k.proc i).pid := (hsound.live_range hi).1
    have hmax := pid_le_getMaxPid k hi
    omega

/-- The kernel boots, and the first process is running on CPU `c`. -/
def bootRun (c : Fin ncpu) : List (Act nofile ncpu) :=
  [.userinit, .userinit, .userinit, .on c .schedule, .on c .schedule, .on c .resume]

/-- The process on CPU `c` forks a child, with `nofile` descriptors copied. -/
def forkRun (c : Fin ncpu) : List (Act nofile ncpu) :=
  [.on c .fork, .on c (.kalloc true), .on c (.copyuvm true)] ++
    List.replicate (nofile + 4) (.on c .advance)

/-- The first process forks, and fails to fork once more. -/
def familyRun (c : Fin ncpu) : List (Act nofile ncpu) :=
  bootRun c ++ forkRun c ++ [.on c .fork, .on c (.kalloc false)]

/-- Two processes are active, and the slot given back still bears the pid `3`. -/
theorem queries_agree_familyRun : ∃ k : Kernel 4 1 2, run step .init (familyRun 0) = some k ∧
    (k.proc 2).pid = 3 ∧ k.getMaxPid = 2 ∧ k.getNumProc ≤ k.getMaxPid := by
  have hrun : (run step (.init : Kernel 4 1 2) (familyRun 0)).map
      (fun k => ((k.proc 2).pid, k.getMaxPid, k.allocs)) = some (3, 2, 3) := by decide +kernel
  obtain ⟨k, hk, heq⟩ := Option.map_eq_some_iff.mp hrun
  simp only [Prod.mk.injEq] at heq
  obtain ⟨hpid, hmax, hallocs⟩ := heq
  have hlt : k.allocs < maxAllocs := by rw [hallocs]; decide
  exact ⟨k, hk, hpid, hmax, (queries_agree hk hlt).2.2.2.2.2.1⟩

end StudiesOS.ProcessTable
