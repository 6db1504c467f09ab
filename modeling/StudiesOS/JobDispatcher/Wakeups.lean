import StudiesOS.JobDispatcher.Control

/-! # No lost wake-up and no deadlock
A thread that is not blocked on a condition variable, not waiting for a mutex and not joining a
running thread can always take its next step. With the control invariant this means that the program
only stops when it is finished: a blocked main thread has an active job, an active job has a worker
that is awake, and after the shutdown every worker is awake. -/

namespace StudiesOS.JobDispatcher

open Finset

variable {N : ℕ}

/-- Whether an action is a spurious wake-up. -/
def Act.spurious : Act N → Bool
  | .spuriousWorker _ => true
  | .spuriousMain => true
  | _ => false

/-- No thread can take a step of its own. -/
def Sys.Stuck (s : Sys N) : Prop := ∀ a, a.spurious = false → step s a = none

/-! ## Which threads can move -/

/-- A worker between its creation and its exit that is not blocked and whose next mutex, if any, is
free can take its next step. -/
theorem workerStep_enabled {s : Sys N} {i : Fin N} (hborn : s.worker i ≠ .unborn)
    (hblocked : s.worker i ≠ .blocked) (hin : s.worker i ≠ .exited)
    (hfree : ∀ l, (s.worker i).wants = some l → s.owner l = none) :
    workerStep s i 0 ≠ none := by
  cases hpc : s.worker i with
  | unborn => exact absurd hpc hborn
  | blocked => exact absurd hpc hblocked
  | exited => exact absurd hpc hin
  | top | woken | lockStats | lockFinish =>
      simp [workerStep, hpc, Sys.lock, hfree _ (by rw [hpc]; rfl)]
  | test =>
      simp only [workerStep, hpc]
      split_ifs <;> simp
  | grab =>
      simp only [workerStep, hpc]
      split <;> simp
  | exec job rest => cases rest <;> simp [workerStep, hpc]
  | counter job rest cpc =>
      cases cpc with
      | lock id δ => simp [workerStep, hpc, counterStep, Sys.lock, hfree _ (by rw [hpc]; rfl)]
      | read id δ => cases hfile : s.files id <;> simp [workerStep, hpc, counterStep, hfile]
      | write | truncate | unlock => simp [workerStep, hpc, counterStep]
  | foldStats | finish => simp [workerStep, hpc]

/-- The main thread, unless blocked, joining or finished, can take its next step when its next mutex,
if any, is free. -/
theorem mainStep_enabled {s : Sys N} (hblocked : ∀ site, s.main ≠ .blockedWait site)
    (hjoin : ∀ k, s.main = .join k → ∀ i : Fin N, (i : ℕ) = k → s.worker i = .exited)
    (hrun : s.main ≠ .finished) (hfree : ∀ l, s.main.wants = some l → s.owner l = none) :
    mainStep s 0 (fun _ => true) ≠ none := by
  cases hpc : s.main with
  | create k prog =>
      simp only [mainStep, hpc]
      split_ifs <;> simp
  | read prog =>
      cases prog with
      | nil => simp [mainStep, hpc]
      | cons d rest => cases d <;> simp [mainStep, hpc]
  | lockSubmit | lockWait | wokenWait =>
      simp [mainStep, hpc, Sys.lock, hfree _ (by rw [hpc]; rfl)]
  | submit cmd rest =>
      -- waking everybody is a signal
      have hsignal : s.SignalWakes fun _ => true := by
        rintro ⟨i, hi⟩
        exact ⟨i, hi, rfl⟩
      simp [mainStep, hpc, hsignal]
  | testWait site =>
      simp only [mainStep, hpc]
      split_ifs
      · simp
      · cases site <;> simp
  | blockedWait site => exact absurd hpc (hblocked site)
  | join k =>
      simp only [mainStep, hpc]
      split_ifs with hk hexited
      · simp
      · exact absurd (hjoin k hpc ⟨k, hk⟩ rfl) hexited
      · simp
  | writeStats => simp [mainStep, hpc]
  | finished => exact absurd hpc hrun

/-! ## A stuck state is finished -/

/-- In a stuck state every mutex is free: whoever held one could go on. -/
theorem Sys.Stuck.free {s : Sys N} (hstuck : s.Stuck) (h : s.Control) (l : Lock) :
    s.owner l = none := by
  by_contra hne
  obtain ⟨t, ht⟩ := Option.ne_none_iff_exists'.mp hne
  have hheld := (h.locked l t).mp ht
  cases t with
  | main =>
      have hpc : s.main.held = some l := hheld
      refine mainStep_enabled ?_ ?_ ?_ ?_ (hstuck (.main 0 fun _ => true) rfl)
      · intro site hs
        simp [hs, MainPc.held] at hpc
      · intro k hs
        simp [hs, MainPc.held] at hpc
      · intro hs
        simp [hs, MainPc.held] at hpc
      · intro l' hwants
        rw [MainPc.held_of_wants hwants] at hpc
        cases hpc
  | worker i =>
      have hpc : (s.worker i).held = some l := hheld
      refine workerStep_enabled ?_ ?_ ?_ ?_ (hstuck (.worker i 0) rfl)
      · intro hs
        simp [hs, WorkerPc.held] at hpc
      · intro hs
        simp [hs, WorkerPc.held] at hpc
      · intro hs
        simp [hs, WorkerPc.held] at hpc
      · intro l' hwants
        rw [WorkerPc.held_of_wants hwants] at hpc
        cases hpc

/-- In a stuck state every worker is unborn, blocked or out of its loop. -/
theorem Sys.Stuck.worker {s : Sys N} (hstuck : s.Stuck) (h : s.Control) (i : Fin N) :
    s.worker i = .unborn ∨ s.worker i = .blocked ∨ s.worker i = .exited := by
  by_contra hne
  push Not at hne
  obtain ⟨hborn, hblocked, hin⟩ := hne
  exact workerStep_enabled hborn hblocked hin (fun l _ => hstuck.free h l)
    (hstuck (.worker i 0) rfl)

/-- In a stuck state the main thread is not blocked: it would wait for a job, and a worker would be
awake for it. -/
theorem Sys.Stuck.not_blocked {s : Sys N} (hstuck : s.Stuck) (h : s.Control) (hsound : s.pool.Sound)
    (hN : 0 < N) (site : WaitSite) : s.main ≠ .blockedWait site := by
  intro hmain
  have hidle : ∀ i, (s.worker i).phase.load = 0 := by
    intro i
    obtain hi | hi | hi := hstuck.worker h i <;> rw [hi] <;> rfl
  have hqueue : 0 < s.queue.length := by
    have hacc : s.activeJobs = s.queue.length + ∑ i, (s.worker i).phase.load := hsound.accounting
    rw [sum_eq_zero fun i _ => hidle i] at hacc
    have hactive := h.mainBlocked site hmain
    omega
  have hawake : 0 < s.unblocked := lt_of_lt_of_le (lt_min hN hqueue) h.awake
  obtain ⟨i, hi⟩ := card_pos.mp hawake
  have hi := (mem_filter.mp hi).2
  obtain hu | hb | he := hstuck.worker h i
  · have hnot := (h.unborn i).mp hu
    rw [hmain] at hnot
    cases hnot
  · exact hi hb
  · have hdone := h.shut.symm.trans (h.exited i he)
    rw [hmain] at hdone
    cases hdone

/-- **A stuck state is finished**, and all workers have been joined. -/
theorem Sys.Stuck.finished {s : Sys N} (hstuck : s.Stuck) (h : s.Control) (hsound : s.pool.Sound)
    (hN : 0 < N) : s.main = .finished := by
  by_contra hrun
  refine mainStep_enabled (hstuck.not_blocked h hsound hN) (fun k hmain i hik => ?_) hrun
    (fun l _ => hstuck.free h l) (hstuck (.main 0 fun _ => true) rfl)
  have hdone : s.done = true := by
    rw [h.shut, hmain]
    rfl
  obtain hu | hb | he := hstuck.worker h i
  · have hnot := (h.unborn i).mp hu
    rw [hmain] at hnot
    cases hnot
  · exact absurd hb (h.doneAwake hdone i)
  · exact he

/-- A finished program is stuck, and not even a spurious wake-up is left. -/
theorem finished_step {s : Sys N} (h : s.Control) (hmain : s.main = .finished) :
    (∀ i, s.worker i = .exited) ∧ ∀ a, step s a = none := by
  have hexited : ∀ i, s.worker i = .exited := by
    intro i
    refine h.joined i ?_
    rw [hmain]
    exact i.isLt
  refine ⟨hexited, fun a => ?_⟩
  cases a with
  | worker i now => simp [step, workerStep, hexited i]
  | main now wake => simp [step, mainStep, hmain]
  | spuriousWorker i => simp [step, hexited i]
  | spuriousMain => simp [step, hmain]

/-! ## The result -/

/-- **No wake-up is lost and no thread waits forever**, in one state. -/
structure NoLostWakeup (s : Sys N) : Prop where
  /-- At least `min(N, queue length)` workers are not blocked, unsignalled, on `queue_cond`. -/
  queueCond : min N s.queue.length ≤ (univ.filter fun i => s.worker i ≠ .blocked).card
  /-- If the main thread is blocked, unsignalled, on `done_cond`, a job is active. -/
  doneCond : ∀ site, s.main = .blockedWait site → 0 < s.activeJobs
  /-- Once `done` is set no worker is blocked, unsignalled, on `queue_cond`. -/
  shutdown : s.done = true → ∀ i, s.worker i ≠ .blocked
  /-- No thread tries to take a mutex while it owns one. -/
  oneLock : ∀ t l, s.wants t = some l → ∀ l', s.owner l' ≠ some t
  /-- The program is stuck exactly when the main thread is finished. -/
  stuck : s.Stuck ↔ s.main = .finished
  /-- And then all workers have left their loops, and nothing can happen any more. -/
  finished : s.main = .finished → (∀ i, s.worker i = .exited) ∧ ∀ a, step s a = none

/-- **No lost wake-up and no deadlock.** In every run, with at least one worker and whatever command
file, wake-ups and schedule. -/
theorem wakeups_noLostWakeup (hN : 0 < N) {prog : List Directive} {n : ℕ}
    {old : Fin 100 → Option (List Byte)} {as : List (Act N)} {s : Sys N}
    (h : run step (Sys.init N prog n old) as = some s) : NoLostWakeup s := by
  obtain ⟨hcontrol, hsound⟩ := reachable_control h
  refine ⟨hcontrol.awake, hcontrol.mainBlocked, hcontrol.doneAwake, fun t l hwants l' hown => ?_,
    ⟨fun hstuck => hstuck.finished hcontrol hsound hN, fun hmain a _ => ?_⟩,
    finished_step hcontrol⟩
  · have hheld := (hcontrol.locked l' t).mp hown
    have hnone : s.held t = none := by
      cases t with
      | main => exact MainPc.held_of_wants hwants
      | worker i => exact WorkerPc.held_of_wants hwants
    rw [hnone] at hheld
    cases hheld
  · exact (finished_step hcontrol hmain).2 a

/-- Two workers block, the main thread submits a job and wakes one of them. -/
def signalRun : List (Act 2) :=
  List.replicate 4 (.main 0 fun _ => true) ++ List.replicate 2 (.worker 0 0) ++
    List.replicate 2 (.worker 1 0) ++ List.replicate 2 (.main 0 fun i => i = 1)

theorem signalRun_noLostWakeup :
    ∃ s, run step (Sys.init 2 [.submit (lit "msleep 1"), .wait] 1 fun _ => none) signalRun = some s ∧
      s.worker 0 = .blocked ∧ s.worker 1 = .woken ∧ s.queue.length = 1 ∧ NoLostWakeup s := by
  have heval : ((run step (Sys.init 2 [.submit (lit "msleep 1"), .wait] 1 fun _ => none)
      signalRun).map fun s => (s.worker 0, s.worker 1, s.queue.length))
        = some (.blocked, .woken, 1) := by
    decide +kernel
  obtain ⟨s, hs, heq⟩ := Option.map_eq_some_iff.mp heval
  simp only [Prod.mk.injEq] at heq
  exact ⟨s, hs, heq.1, heq.2.1, heq.2.2, wakeups_noLostWakeup (by decide) hs⟩

end StudiesOS.JobDispatcher
