import StudiesOS.JobDispatcher.ExactlyOnce
import StudiesOS.Transition.History

/-! # Turnarounds
A run is measured: which turnaround a worker has computed for which job, from the readings of the clock
at its submission and at its end. The updates of the statistics are made in some order; what they
compute does not depend on it, and of the turnarounds measured only those are missing that a worker is
about to add. -/

namespace StudiesOS.JobDispatcher

open Finset

variable {N : ℕ}

/-! ## Adding up turnarounds -/

/-- **What the updates compute**: the maximum is that of the turnarounds and zero. -/
structure Accumulates (ts : List ℤ) (st : Stats) : Prop where
  /-- `stats_count`. -/
  count : st.count = ts.length
  /-- `stats_sum`. -/
  sum : st.sum = ts.sum
  /-- `stats_min`. -/
  min : ts = [] ∧ st.min = 0 ∨ IsLeast {t | t ∈ ts} st.min
  /-- `stats_max`. -/
  max : IsGreatest {t | t = 0 ∨ t ∈ ts} st.max

/-- One more turnaround. -/
theorem Accumulates.add {ts : List ℤ} {st : Stats} (h : Accumulates ts st) (t : ℤ) :
    Accumulates (ts ++ [t]) (st.add t) := by
  have hmem : ∀ x, x ∈ ts ++ [t] ↔ x ∈ ts ∨ x = t := by simp
  refine ⟨?_, ?_, Or.inr ?_, ?_⟩
  · rw [Stats.add, h.count, List.length_append, List.length_singleton]
    rfl
  · rw [Stats.add, h.sum, List.sum_append, List.sum_singleton]
  · rcases h.min with ⟨rfl, -⟩ | ⟨hin, hlow⟩
    · -- the first turnaround
      have hzero : st.count = 0 := h.count
      rw [Stats.add, hzero]
      simp only [true_or, if_true, List.nil_append, List.mem_singleton]
      exact ⟨rfl, fun x hx => hx.ge⟩
    · have hpos : st.count ≠ 0 := by
        rw [h.count]
        have := List.length_pos_of_mem hin
        omega
      simp only [Stats.add, hpos, false_or]
      constructor
      · show _ ∈ ts ++ [t]
        rw [hmem]
        split
        · exact Or.inr rfl
        · exact Or.inl hin
      · intro x hx
        rcases (hmem x).mp hx with hx | rfl
        · have := hlow hx
          split <;> omega
        · split <;> omega
  · -- the maximum starts at zero, which stays a candidate
    obtain ⟨hin, hhigh⟩ := h.max
    have hnonneg : 0 ≤ st.max := hhigh (Or.inl rfl)
    simp only [Stats.add]
    constructor
    · show _ = 0 ∨ _ ∈ ts ++ [t]
      rw [hmem]
      split
      · exact Or.inr (Or.inr rfl)
      · exact hin.imp_right Or.inl
    · intro x hx
      have hx : x = 0 ∨ x ∈ ts ++ [t] := hx
      rw [hmem] at hx
      rcases hx with rfl | hx | rfl
      · split <;> omega
      · have := hhigh (Or.inr hx)
        split <;> omega
      · split <;> omega

/-- The initial zeros. -/
theorem accumulates_nil : Accumulates [] ⟨0, 0, 0, 0⟩ :=
  ⟨rfl, rfl, Or.inl ⟨rfl, rfl⟩, by simp [IsGreatest]⟩

/-- The order does not matter. -/
theorem Accumulates.perm {ts ts' : List ℤ} {st : Stats} (h : Accumulates ts st)
    (hperm : ts.Perm ts') : Accumulates ts' st := by
  have hmem : ∀ x, x ∈ ts ↔ x ∈ ts' := fun x => hperm.mem_iff
  have hnil : ts = [] ↔ ts' = [] := by
    rw [← List.length_eq_zero_iff, hperm.length_eq, List.length_eq_zero_iff]
  obtain ⟨hcount, hsum, hmin, hmax⟩ := h
  simp only [hmem, hnil] at hmin hmax
  exact ⟨by rw [hcount, hperm.length_eq], by rw [hsum, hperm.sum_eq], hmin, hmax⟩

/-! ## What a run measures -/

/-- **What a step adds to the measurements**: a worker that has processed a job computes its
turnaround, the time on its clock less that of the submission. -/
def Sys.measure (s : Sys N) (a : Act N) (ms : List (Job × ℤ)) : List (Job × ℤ) :=
  match a with
  | .worker i now =>
      match s.worker i with
      | .exec job [] => ms ++ [(job, now - job.submitTime)]
      | _ => ms
  | .main _ _ | .spuriousWorker _ | .spuriousMain => ms

/-- **The turnarounds measured in the run of `as`** on a command file, with their jobs. -/
def measuredIn (N : ℕ) (prog : List Directive) (n : ℕ) (old : Fin 100 → Option (List Byte))
    (as : List (Act N)) : List (Job × ℤ) :=
  history step Sys.measure (Sys.init N prog n old) [] as

/-- The turnaround that a worker has yet to add to the statistics. -/
def WorkerPc.inflight : WorkerPc → Multiset ℤ
  | .lockStats _ turnaround => {turnaround}
  | .foldStats _ turnaround => {turnaround}
  | _ => 0

variable {s s' : Sys N} {ms : List (Job × ℤ)}

/-- **What a step does to the statistics.** -/
inductive Tally (s s' : Sys N) (a : Act N) : Prop
  /-- Nothing. -/
  | quiet (hproc : s'.processed = s.processed) (hstats : s'.stats = s.stats)
      (hworker : ∀ j, (s'.worker j).inflight = (s.worker j).inflight)
      (hmeasure : ∀ ms, s.measure a ms = ms)
  /-- A worker measures the turnaround of its job. -/
  | measured (i : Fin N) (job : Job) (t : ℤ) (hi : (s.worker i).inflight = 0)
      (hproc : s'.processed = s.processed ++ [(i, job)]) (hstats : s'.stats = s.stats)
      (hworker : s'.worker = Function.update s.worker i (.lockStats job t))
      (hmeasure : ∀ ms, s.measure a ms = ms ++ [(job, t)])
  /-- A worker adds its turnaround. -/
  | added (i : Fin N) (job : Job) (t : ℤ) (hi : s.worker i = .foldStats job t)
      (hproc : s'.processed = s.processed) (hstats : s'.stats = s.stats.add t)
      (hworker : s'.worker = Function.update s.worker i (.lockFinish job))
      (hmeasure : ∀ ms, s.measure a ms = ms)

/-- A move of a worker that has nothing to add before and after it. -/
theorem Tally.quiet_worker {a : Act N} {i : Fin N} {pc : WorkerPc}
    (hproc : s'.processed = s.processed) (hstats : s'.stats = s.stats)
    (hworker : s'.worker = Function.update s.worker i pc)
    (hpc : pc.inflight = (s.worker i).inflight) (hmeasure : ∀ ms, s.measure a ms = ms) :
    Tally s s' a := by
  refine .quiet hproc hstats (fun j => ?_) hmeasure
  rw [hworker]
  exact update_view WorkerPc.inflight hpc j

/-- **The steps of a worker.** -/
theorem workerStep_tally {i : Fin N} {now : ℤ} (hstep : workerStep s i now = some s') :
    Tally s s' (.worker i now) := by
  cases workerStep_trans hstep with
  | top hpc _ | wait hpc _ _ | woken hpc _ | leave hpc _ _ | pass hpc _ | retry hpc _ | take hpc _
    | lockStats hpc _ | lockFinish hpc _ | report hpc _ =>
      exact .quiet_worker (i := i) rfl rfl rfl (by rw [hpc]; rfl) fun ms => by
        simp only [Sys.measure, hpc]
  | @call job cmd rest hpc =>
      refine .quiet_worker (i := i) rfl rfl rfl ?_ fun ms => by simp only [Sys.measure, hpc]
      obtain ⟨id, δ, heq⟩ | heq := startCmd_eq job cmd rest <;> rw [heq, hpc] <;> rfl
  | @counter job rest cpc t r hpc hcounter =>
      obtain ⟨owner, files, rfl⟩ := counterStep_frame hcounter
      refine .quiet_worker (i := i) rfl rfl rfl ?_ fun ms => by simp only [Sys.measure, hpc]
      cases r <;> rw [hpc] <;> rfl
  | @process job hpc =>
      exact .measured i job _ (by rw [hpc]; rfl) rfl rfl rfl fun ms => by
        simp only [Sys.measure, hpc]
  | @fold job turnaround hpc =>
      exact .added i job turnaround hpc rfl rfl rfl fun ms => by simp only [Sys.measure, hpc]

/-- **The steps of the main thread.** -/
theorem mainStep_tally (hcontrol : s.Control) {now : ℤ} {wake : Fin N → Bool}
    (hstep : mainStep s now wake = some s') : Tally s s' (.main now wake) := by
  cases mainStep_trans hstep with
  | @create k prog hpc hk =>
      have hwas := hcontrol.not_born hpc ⟨k, hk⟩ le_rfl
      exact .quiet_worker (i := ⟨k, hk⟩) rfl rfl rfl (by rw [hwas]; rfl) fun ms => rfl
  | created | eof | readSubmit | readMsleep | readWait | lockSubmit | lockWait | wait | wokenWait
    | pass | join | joined | writeStats => exact .quiet rfl rfl (fun _ => rfl) fun ms => rfl
  | submit =>
      exact .quiet rfl rfl (wakeWorkers_view WorkerPc.inflight rfl (s.unlock .queue) wake)
        fun ms => rfl
  | shutDown =>
      exact .quiet rfl rfl (wakeWorkers_view WorkerPc.inflight rfl (s.unlock .queue) fun _ => true)
        fun ms => rfl

/-- **Every step.** -/
theorem step_tally (hcontrol : s.Control) {a : Act N} (hstep : step s a = some s') :
    Tally s s' a := by
  cases step_trans hstep with
  | worker => exact workerStep_tally hstep
  | main => exact mainStep_tally hcontrol hstep
  | @spuriousWorker i hpc =>
      exact .quiet_worker (i := i) rfl rfl rfl (by rw [hpc]; rfl) fun ms => rfl
  | spuriousMain => exact .quiet rfl rfl (fun _ => rfl) fun ms => rfl

/-! ## The statistics of a run -/

/-- **The statistics keep up with the measurements.** -/
structure Measured (s : Sys N) (ms : List (Job × ℤ)) : Prop where
  /-- The processed jobs have been measured. -/
  jobs : ms.map Prod.fst = s.processed.map Prod.snd
  /-- What has been measured has been added to the statistics, or a worker is about to add it. -/
  added : ∃ ts : List ℤ, Accumulates ts s.stats ∧
    (ms.map Prod.snd : Multiset ℤ) = ts + ∑ i, (s.worker i).inflight

/-- **Every step keeps it so.** -/
theorem Measured.step (h : Measured s ms) {a : Act N} (htally : Tally s s' a) :
    Measured s' (s.measure a ms) := by
  obtain ⟨hjobs, ts, hts, hsum⟩ := h
  cases htally with
  | quiet hproc hstats hworker hmeasure =>
      rw [hmeasure]
      refine ⟨by rw [hproc, hjobs], ts, hstats ▸ hts, ?_⟩
      rw [hsum]
      congr 1
      exact sum_congr rfl fun j _ => (hworker j).symm
  | measured i job t hi hproc hstats hworker hmeasure =>
      have hnew := sum_update_add (fun _ pc => WorkerPc.inflight pc) s.worker i (.lockStats job t)
      rw [hi, add_zero] at hnew
      rw [hmeasure]
      refine ⟨by rw [hproc, List.map_append, List.map_append, hjobs]; rfl, ts, hstats ▸ hts, ?_⟩
      rw [hworker, hnew, List.map_append, ← Multiset.coe_add, hsum, add_assoc]
      rfl
  | added i job t hi hproc hstats hworker hmeasure =>
      have hnew := sum_update_add (fun _ pc => WorkerPc.inflight pc) s.worker i (.lockFinish job)
      have hold : (s.worker i).inflight = ({t} : Multiset ℤ) := by rw [hi]; rfl
      have hnone : WorkerPc.inflight (.lockFinish job) = 0 := rfl
      rw [hold, hnone, add_zero] at hnew
      rw [hmeasure]
      refine ⟨by rw [hproc, hjobs], ts ++ [t], ?_, ?_⟩
      · rw [hstats]
        exact hts.add t
      · rw [hworker, hsum, ← hnew, ← Multiset.coe_add, add_assoc, add_comm (∑ j, _)]
        rfl

/-- **The statistics of a run keep up with its measurements.** -/
theorem reachable_measured {prog : List Directive} {n : ℕ} {old : Fin 100 → Option (List Byte)}
    {as : List (Act N)} (h : run step (Sys.init N prog n old) as = some s) :
    Measured s (measuredIn N prog n old as) := by
  refine run_induction (motive := fun as s => Measured s (measuredIn N prog n old as)) ?_ ?_ h
  · refine ⟨rfl, [], accumulates_nil, ?_⟩
    have hnone : ∑ i : Fin N, ((Sys.init N prog n old).worker i).inflight = 0 :=
      sum_eq_zero fun _ _ => rfl
    rw [hnone]
    rfl
  · intro as s a s' hrun ih hstep
    have hlast : measuredIn N prog n old (as ++ [a]) = s.measure a (measuredIn N prog n old as) :=
      history_snoc hrun hstep _
    rw [hlast]
    exact ih.step (step_tally (reachable_control hrun).1 hstep)

/-- **With no active job nothing is missing**: every submitted job has been measured once, and the
statistics are those of the turnarounds measured. -/
theorem Measured.complete (h : Measured s ms) (hsound : s.pool.Sound) (hzero : s.activeJobs = 0) :
    (ms.map Prod.fst).Perm s.submitted ∧ Accumulates (ms.map Prod.snd) s.stats := by
  obtain ⟨hjobs, ts, hts, hsum⟩ := h
  obtain ⟨-, hload⟩ := hsound.drained hzero
  obtain ⟨hperm, htaken⟩ := hsound.all_processed hzero
  -- nobody has anything to add any more
  have hnone : ∑ i, (s.worker i).inflight = 0 := by
    refine sum_eq_zero fun i _ => ?_
    have hi := hload i
    rw [pool_phase] at hi
    cases hpc : s.worker i with
    | lockStats | foldStats =>
        rw [hpc] at hi
        cases hi
    | _ => rfl
  rw [hnone, add_zero] at hsum
  refine ⟨?_, hts.perm (Multiset.coe_eq_coe.mp hsum).symm⟩
  rw [hjobs]
  exact (hperm.map Prod.snd).trans (List.Perm.of_eq htaken)

/-! ## The clock -/

/-- A submitted job carries what the clock of the main thread showed. -/
theorem submitTime_shown {prog : List Directive} {n : ℕ} {old : Fin 100 → Option (List Byte)}
    {as : List (Act N)} (h : run step (Sys.init N prog n old) as = some s) :
    ∀ job ∈ s.submitted, ∃ wake, .main job.submitTime wake ∈ as := by
  refine run_induction (motive := fun as (s : Sys N) => ∀ job ∈ s.submitted,
    ∃ wake, .main job.submitTime wake ∈ as) (fun job hjob => absurd hjob List.not_mem_nil) ?_ h
  intro as s a s' _ ih hstep
  have hold : s'.submitted = s.submitted → ∀ job ∈ s'.submitted,
      ∃ wake, .main job.submitTime wake ∈ as ++ [a] := by
    intro heq job hjob
    obtain ⟨wake, hwake⟩ := ih job (heq ▸ hjob)
    exact ⟨wake, List.mem_append_left _ hwake⟩
  cases step_trans hstep with
  | worker => exact hold (workerStep_submitted hstep).1
  | @main now wake =>
      obtain ⟨heq, -⟩ | ⟨cmd, -, heq⟩ := mainStep_submitted hstep
      · exact hold heq
      · intro job hjob
        rw [heq] at hjob
        rcases List.mem_append.mp hjob with hjob | hjob
        · obtain ⟨w, hw⟩ := ih job hjob
          exact ⟨w, List.mem_append_left _ hw⟩
        · rw [List.mem_singleton.mp hjob]
          exact ⟨wake, List.mem_append_right _ (List.mem_singleton_self _)⟩
  | spuriousWorker => exact hold rfl
  | spuriousMain => exact hold rfl

/-- **A turnaround is the time between two readings of the clock**: by the main thread when it submits
the job, and later by the worker that has processed it. -/
theorem measured_clocked {prog : List Directive} {n : ℕ} {old : Fin 100 → Option (List Byte)}
    {as : List (Act N)} (h : run step (Sys.init N prog n old) as = some s) :
    ∀ m ∈ measuredIn N prog n old as, ∃ wake i ended,
      [.main m.1.submitTime wake, .worker i ended].Sublist as ∧ m.2 = ended - m.1.submitTime := by
  refine run_induction (motive := fun as _ => ∀ m ∈ measuredIn N prog n old as, ∃ wake i ended,
    [.main m.1.submitTime wake, .worker i ended].Sublist as ∧ m.2 = ended - m.1.submitTime)
    (fun m hm => absurd hm List.not_mem_nil) ?_ h
  intro as s a s' hrun ih hstep m hm
  have hlast : measuredIn N prog n old (as ++ [a]) = s.measure a (measuredIn N prog n old as) :=
    history_snoc hrun hstep _
  have hold : m ∈ measuredIn N prog n old as → ∃ wake i ended,
      [.main m.1.submitTime wake, .worker i ended].Sublist (as ++ [a]) ∧
        m.2 = ended - m.1.submitTime := by
    intro hm
    obtain ⟨wake, i, ended, hsub, hm⟩ := ih m hm
    exact ⟨wake, i, ended, hsub.trans (List.sublist_append_left as [a]), hm⟩
  rw [hlast] at hm
  unfold Sys.measure at hm
  split at hm
  · rename_i i now
    split at hm
    · rename_i job hi
      rcases List.mem_append.mp hm with hm | hm
      · exact hold hm
      · -- the job at hand has been submitted before
        obtain rfl := List.mem_singleton.mp hm
        have hsound := (reachable_control hrun).2
        have hphase : s.pool.phase i = .working job := by
          rw [pool_phase, hi]
          rfl
        have hjob : job ∈ s.submitted := by
          have hfifo : s.submitted = s.taken.map Prod.snd ++ s.queue := hsound.fifo
          rw [hfifo]
          exact List.mem_append_left _ (List.mem_map_of_mem (hsound.mem_taken hphase))
        obtain ⟨wake, hwake⟩ := submitTime_shown hrun job hjob
        exact ⟨wake, i, now, (List.singleton_sublist.mpr hwake).append (List.Sublist.refl _), rfl⟩
    · exact hold hm
  · exact hold hm
  · exact hold hm
  · exact hold hm

end StudiesOS.JobDispatcher
