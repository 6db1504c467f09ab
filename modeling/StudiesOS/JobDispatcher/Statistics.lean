import StudiesOS.JobDispatcher.Turnarounds

/-! # The statistics
When `write_stats` runs, every turnaround measured has been added to the statistics, in some order.
Count, sum and minimum are those of the jobs. The maximum is that of the turnarounds and zero, with which
it starts. -/

namespace StudiesOS.JobDispatcher

open Finset

variable {N : ℕ}

/-- **The statistics are the aggregates of the turnarounds**, and all zero when there are none. -/
structure Aggregates (ts : List ℤ) (st : Stats) : Prop where
  /-- `stats_count`. -/
  count : st.count = ts.length
  /-- `stats_sum`. -/
  sum : st.sum = ts.sum
  /-- `stats_min`. -/
  min : ts = [] ∧ st.min = 0 ∨ IsLeast {t | t ∈ ts} st.min
  /-- `stats_max`. -/
  max : ts = [] ∧ st.max = 0 ∨ IsGreatest {t | t ∈ ts} st.max

/-- **They are the aggregates** if and only if there is no turnaround or one that is not negative. -/
theorem Accumulates.aggregates_iff {ts : List ℤ} {st : Stats} (h : Accumulates ts st) :
    Aggregates ts st ↔ ts = [] ∨ ∃ t ∈ ts, 0 ≤ t := by
  have hnonneg : 0 ≤ st.max := h.max.2 (Or.inl rfl)
  constructor
  · rintro ⟨-, -, -, hmax⟩
    exact hmax.imp And.left fun hgreatest => ⟨st.max, hgreatest.1, hnonneg⟩
  · intro hts
    refine ⟨h.count, h.sum, h.min, ?_⟩
    obtain ⟨hin, hhigh⟩ := h.max
    rcases hts with rfl | ⟨t, ht, hpos⟩
    · exact Or.inl ⟨rfl, hin.elim id fun hmem => absurd hmem List.not_mem_nil⟩
    · refine Or.inr ⟨?_, fun x hx => hhigh (Or.inr hx)⟩
      rcases hin with hzero | hmem
      · -- a maximum of zero is that turnaround
        have hle := hhigh (Or.inr ht)
        obtain rfl : t = st.max := by omega
        exact ht
      · exact hmem

variable {s : Sys N}

/-- **The statistics when `write_stats` runs.** In every run, with every order of the updates and every
clock: each job of the file has been measured once; count, sum and minimum are those of the
turnarounds; and the statistics are their aggregates if and only if there was no job or some turnaround
is not negative. -/
theorem statistics {prog : List Directive} {n : ℕ} {old : Fin 100 → Option (List Byte)}
    {as : List (Act N)} (h : run step (Sys.init N prog n old) as = some s)
    (hmain : s.main = .writeStats) :
    ((measuredIn N prog n old as).map Prod.fst).Perm s.submitted ∧
    s.stats.count = s.submitted.length ∧
    s.stats.sum = ((measuredIn N prog n old as).map Prod.snd).sum ∧
    (s.submitted = [] ∧ s.stats.min = 0 ∨
      IsLeast {t | t ∈ (measuredIn N prog n old as).map Prod.snd} s.stats.min) ∧
    (Aggregates ((measuredIn N prog n old as).map Prod.snd) s.stats ↔
      s.submitted = [] ∨ ∃ t ∈ (measuredIn N prog n old as).map Prod.snd, 0 ≤ t) := by
  obtain ⟨hcontrol, hsound⟩ := reachable_control h
  have hdone : s.done = true := by
    rw [hcontrol.shut, hmain]
    rfl
  obtain ⟨hperm, hacc⟩ := (reachable_measured h).complete hsound (hcontrol.drained hdone)
  have hlength : ((measuredIn N prog n old as).map Prod.snd).length = s.submitted.length := by
    rw [List.length_map, ← hperm.length_eq, List.length_map]
  have hnil : (measuredIn N prog n old as).map Prod.snd = [] ↔ s.submitted = [] := by
    rw [← List.length_eq_zero_iff, hlength, List.length_eq_zero_iff]
  refine ⟨hperm, by rw [hacc.count, hlength], hacc.sum, ?_, ?_⟩
  · rw [← hnil]
    exact hacc.min
  · rw [hacc.aggregates_iff, hnil]

theorem statistics_joinedRun :
    ∃ s, run step (Sys.init 2 incrementFile 1 fun _ => none) (joinedRun 0 1 7 4) = some s ∧
      s.stats = ⟨11, 4, 7, 2⟩ ∧ Aggregates [7, 4] s.stats := by
  have heval : ((run step (Sys.init 2 incrementFile 1 fun _ => none) (joinedRun 0 1 7 4)).map
      fun s => (s.main, s.stats)) = some (.writeStats, ⟨11, 4, 7, 2⟩) := by
    decide +kernel
  obtain ⟨s, hs, heq⟩ := Option.map_eq_some_iff.mp heval
  obtain ⟨hmain, hstats⟩ := Prod.mk.inj heq
  have hmeasured : (measuredIn 2 incrementFile 1 (fun _ => none) (joinedRun 0 1 7 4)).map Prod.snd
      = [7, 4] := by
    decide +kernel
  obtain ⟨-, -, -, -, hiff⟩ := statistics hs hmain
  rw [hmeasured] at hiff
  exact ⟨s, hs, hstats, hiff.mpr (Or.inr ⟨7, List.mem_cons_self, by decide⟩)⟩

/-- The run of one worker whose clock shows `now` when the job is processed, and afterwards. -/
def clockedRun (now : ℤ) : List (Act 1) :=
  mainSteps 1 5 ++ workerSteps ⟨0, Nat.one_pos⟩ 16 now ++ mainSteps 1 3 ++
    workerSteps ⟨0, Nat.one_pos⟩ 2 now ++ mainSteps 1 2

/-- **With a clock that steps backwards** the maximum is wrong: the only turnaround is `-5`. -/
theorem clockedRun_max :
    ∃ s, run step (Sys.init 1 (processCommands (lit "worker increment 0")) 1 fun _ => none)
        (clockedRun (-5)) = some s ∧ s.main = .writeStats ∧
      (measuredIn 1 (processCommands (lit "worker increment 0")) 1 (fun _ => none)
        (clockedRun (-5))).map Prod.snd = [-5] ∧
      s.stats = ⟨-5, -5, 0, 1⟩ ∧ ¬ Aggregates [-5] s.stats := by
  have heval : ((run step (Sys.init 1 (processCommands (lit "worker increment 0")) 1 fun _ => none)
      (clockedRun (-5))).map fun s => (s.main, s.stats)) = some (.writeStats, ⟨-5, -5, 0, 1⟩) := by
    decide +kernel
  obtain ⟨s, hs, heq⟩ := Option.map_eq_some_iff.mp heval
  obtain ⟨hmain, hstats⟩ := Prod.mk.inj heq
  refine ⟨s, hs, hmain, by decide +kernel, hstats, fun haggregates => ?_⟩
  rw [hstats] at haggregates
  rcases haggregates.max with ⟨hnil, -⟩ | ⟨hmem, -⟩
  · cases hnil
  · exact absurd (List.mem_singleton.mp hmem) (by decide)

end StudiesOS.JobDispatcher
