import StudiesOS.JobDispatcher.Wakeups
import StudiesOS.Transition.Variant

/-! # The program terminates
Deadlock freedom leaves open whether the program ever comes to its end. The work that is left
(`Sys.work`) counts the steps the threads may still take: what the main thread has to read, what is
in the queue and what the workers are at, with a reserve for the wake-ups the signals will cause.
Every step does a unit of it, and only a spurious wake-up gives some back, so that a run is bounded
by the command file and the spurious wake-ups in it, and the end is reached from everywhere. -/

namespace StudiesOS.JobDispatcher

open Finset

variable {N : ℕ}

/-! ## The work that is left -/

/-- The steps left of a call of `update_counter`. -/
def CounterPc.work : CounterPc → ℕ
  | .lock _ _ => 5
  | .read _ _ => 4
  | .write _ _ _ => 3
  | .truncate _ _ => 2
  | .unlock _ => 1

/-- The work of `process_job` with these commands to go, with the statistics, the report and the
return to the top of the loop behind it. -/
def cmdsWork (cmds : List (List Byte)) : ℕ := 10 + 6 * cmds.length

/-- The work of a worker before it blocks or takes a job, and for the job it is at. -/
def WorkerPc.work : WorkerPc → ℕ
  | .unborn => 0
  | .top => 3
  | .test => 2
  | .blocked => 0
  | .woken => 3
  | .grab => 1
  | .exec _ rest => cmdsWork rest
  | .counter _ rest pc => cmdsWork rest + pc.work
  | .lockStats _ _ => 9
  | .foldStats _ _ => 8
  | .lockFinish _ => 7
  | .finish _ => 6
  | .exited => 0

/-- The work of a line, with the job it brings into the queue and the workers it wakes. -/
def Directive.work (N : ℕ) : Directive → ℕ
  | .submit cmd => cmdsWork (processJob cmd) + 3 * N + 3
  | .msleep _ => 1
  | .wait => 3

/-- The work of the lines to go, with the shutdown behind them. -/
def linesWork (N : ℕ) (prog : List Directive) : ℕ := (prog.map (Directive.work N)).sum + (4 * N + 5)

/-- The work behind a wait. -/
def WaitSite.work (N : ℕ) : WaitSite → ℕ
  | .barrier rest => linesWork N rest
  | .final => 4 * N + 2

/-- The work of the main thread. -/
def MainPc.work (N : ℕ) : MainPc → ℕ
  | .create i prog => linesWork N prog + 4 * (N - i) + 1
  | .read prog => linesWork N prog
  | .lockSubmit cmd rest => linesWork N rest + cmdsWork (processJob cmd) + 3 * N + 2
  | .submit cmd rest => linesWork N rest + cmdsWork (processJob cmd) + 3 * N + 1
  | .lockWait site => site.work N + 2
  | .testWait site => site.work N + 1
  | .blockedWait site => site.work N
  | .wokenWait site => site.work N + 2
  | .join i => N - i + 2
  | .writeStats => 1
  | .finished => 0

/-- The work of the queued jobs. -/
def queueWork (queue : List Job) : ℕ := (queue.map fun j => cmdsWork (processJob j.cmd)).sum

/-- **The work that is left.** -/
def Sys.work (s : Sys N) : ℕ := s.main.work N + queueWork s.queue + ∑ i, (s.worker i).work

/-- A step that moves one worker does a unit of work if the parts it touches lose one. -/
theorem work_move {s s' : Sys N} {i : Fin N} {p : WorkerPc}
    (hworker : s'.worker = Function.update s.worker i p)
    (h : s'.main.work N + queueWork s'.queue + p.work + 1
      ≤ s.main.work N + queueWork s.queue + (s.worker i).work) : s'.work + 1 ≤ s.work := by
  have hsum := sum_update_add (fun _ q => WorkerPc.work q) s.worker i p
  rw [Sys.work, Sys.work, hworker]
  omega

/-- Waking workers costs at most three steps for each of them. -/
theorem sum_work_wake (s : Sys N) (wake : Fin N → Bool) :
    ∑ i, ((s.wakeWorkers wake).worker i).work ≤ ∑ i, (s.worker i).work + 3 * N := by
  calc ∑ i, ((s.wakeWorkers wake).worker i).work
      ≤ ∑ i, ((s.worker i).work + 3) := by
        refine sum_le_sum fun i _ => ?_
        obtain heq | ⟨hold, hnew⟩ := wakeWorkers_worker s wake i
        · rw [heq]
          omega
        · rw [hold, hnew]
          simp [WorkerPc.work]
    _ = ∑ i, (s.worker i).work + 3 * N := by
        rw [sum_add_distrib, sum_const, card_univ, Fintype.card_fin, nsmul_eq_mul, Nat.cast_id,
          Nat.mul_comm]

/-- Starting a command does a unit of work. -/
theorem work_startCmd (job : Job) (cmd : List Byte) (rest : List (List Byte)) :
    (startCmd job cmd rest).work + 1 ≤ cmdsWork (cmd :: rest) := by
  obtain ⟨id, δ, heq⟩ | heq := startCmd_eq job cmd rest <;> rw [heq] <;>
    simp only [WorkerPc.work, CounterPc.work, cmdsWork, List.length_cons] <;> omega

/-- A step of `update_counter` does a unit of work. -/
theorem work_afterCounter {s t : Sys N} {i : Fin N} {cpc : CounterPc} {r : Option CounterPc}
    (h : counterStep s i cpc = some (t, r)) (job : Job) (rest : List (List Byte)) :
    (afterCounter job rest r).work + 1 ≤ cmdsWork rest + cpc.work := by
  cases cpc with
  | lock id δ =>
      simp only [counterStep, Option.map_eq_some_iff] at h
      obtain ⟨_, -, heq⟩ := h
      obtain ⟨-, rfl⟩ := Prod.mk.inj heq
      simp [afterCounter, WorkerPc.work, CounterPc.work, Nat.add_assoc]
  | read id δ =>
      simp only [counterStep] at h
      split at h <;> cases h <;> simp [afterCounter, WorkerPc.work, CounterPc.work, Nat.add_assoc]
  | write | truncate | unlock =>
      cases h
      simp [afterCounter, WorkerPc.work, CounterPc.work, Nat.add_assoc]

/-! ## Every step does some of it -/

/-- **A step of a worker does a unit of work.** -/
theorem workerTrans_work {s s' : Sys N} {i : Fin N} {now : ℤ}
    (hgrab : s.worker i = .grab → s.queue ≠ []) (h : WorkerTrans s i now s') :
    s'.work + 1 ≤ s.work := by
  cases h with
  | top hpc | wait hpc | woken hpc | leave hpc | pass hpc | process hpc | lockStats hpc | fold hpc
    | lockFinish hpc =>
      refine work_move rfl ?_
      rw [hpc]
      simp [WorkerPc.work, cmdsWork, Sys.setWorker, Sys.own, Sys.unlock]
  | retry hpc hqueue => exact absurd hqueue (hgrab hpc)
  | take hpc hqueue =>
      refine work_move rfl ?_
      rw [hpc, hqueue]
      simp only [Sys.setWorker, Sys.unlock, WorkerPc.work, queueWork, List.map_cons, List.sum_cons]
      omega
  | @call job cmd rest hpc =>
      refine work_move rfl ?_
      have hold : (s.worker i).work = cmdsWork (cmd :: rest) := by rw [hpc]; rfl
      have hnew := work_startCmd job cmd rest
      simp only [Sys.setWorker]
      omega
  | @counter job rest cpc t r hpc hcounter =>
      have hold : (s.worker i).work = cmdsWork rest + cpc.work := by rw [hpc]; rfl
      have hnew := work_afterCounter hcounter job rest
      obtain ⟨owner, files, rfl⟩ := counterStep_frame hcounter
      refine work_move rfl ?_
      simp only [Sys.setWorker]
      omega
  | report hpc hmain =>
      refine work_move rfl ?_
      rw [hpc]
      simp only [Sys.setWorker, Sys.unlock, WorkerPc.work]
      obtain ⟨rfl, -⟩ | ⟨site, hsite, rfl⟩ := hmain
      · omega
      · -- the main thread is woken, out of the reserve of the report
        rw [hsite]
        simp only [MainPc.work]
        omega

/-- **A step of the main thread does a unit of work.** -/
theorem mainTrans_work {s s' : Sys N} {now : ℤ} {wake : Fin N → Bool}
    (hborn : ∀ k prog, s.main = .create k prog → ∀ i : Fin N, k ≤ i → s.worker i = .unborn)
    (h : MainTrans s now wake s') : s'.work + 1 ≤ s.work := by
  cases h with
  | @create k prog hpc hk =>
      refine work_move rfl ?_
      rw [hpc, hborn k prog hpc _ le_rfl]
      simp only [WorkerPc.work, MainPc.work, Sys.setWorker]
      omega
  | created hpc | eof hpc | readSubmit hpc | readMsleep hpc | readWait hpc | lockSubmit hpc
    | lockWait hpc | wait hpc | wokenWait hpc | pass hpc | join hpc | joined hpc | writeStats hpc =>
      simp only [Sys.work, hpc, MainPc.work, linesWork, WaitSite.work, Directive.work, Sys.own,
        Sys.unlock, List.map_cons, List.map_nil, List.sum_cons, List.sum_nil]
      omega
  | @submit cmd rest hpc hsignal =>
      have hwake : ∑ i, ((s.wakeWorkers wake).worker i).work ≤ ∑ i, (s.worker i).work + 3 * N :=
        sum_work_wake s wake
      have hold : s.main.work N = linesWork N rest + cmdsWork (processJob cmd) + 3 * N + 1 := by
        rw [hpc]
        rfl
      have hqueue : queueWork (enqueue s.queue ⟨cmd, now, s.submitted.length⟩)
          = queueWork s.queue + cmdsWork (processJob cmd) := by
        simp [queueWork, enqueue]
      show linesWork N rest + queueWork (enqueue s.queue ⟨cmd, now, s.submitted.length⟩)
        + ∑ i, ((s.wakeWorkers wake).worker i).work + 1 ≤ s.work
      rw [hqueue, Sys.work, hold]
      omega
  | shutDown hpc =>
      have hwake : ∑ i, ((s.wakeWorkers fun _ => true).worker i).work
          ≤ ∑ i, (s.worker i).work + 3 * N := sum_work_wake s fun _ => true
      have hold : s.main.work N = 4 * N + 3 := by rw [hpc]; rfl
      show N - 0 + 2 + queueWork s.queue + ∑ i, ((s.wakeWorkers fun _ => true).worker i).work + 1
        ≤ s.work
      rw [Sys.work, hold]
      omega

/-- What a spurious wake-up gives back, the step itself included. -/
def Act.credit (a : Act N) : ℕ := if a.spurious then 4 else 0

/-- **Every step does a unit of work**, and a spurious wake-up gives three back. -/
theorem step_work {s s' : Sys N} {a : Act N} (h : s.Control) (hstep : step s a = some s') :
    s'.work + 1 ≤ s.work + a.credit := by
  cases step_trans hstep with
  | @worker i now _ htrans => exact workerTrans_work (h.grab i) htrans
  | main htrans => exact mainTrans_work (fun k prog => h.not_born) htrans
  | @spuriousWorker i hpc =>
      have hsum : ∑ j, (Function.update s.worker i .woken j).work + (s.worker i).work
          = ∑ j, (s.worker j).work + 3 :=
        sum_update_add (fun _ q => WorkerPc.work q) s.worker i .woken
      show s.main.work N + queueWork s.queue + ∑ j, (Function.update s.worker i .woken j).work + 1
        ≤ s.work + 4
      rw [Sys.work]
      omega
  | spuriousMain hpc =>
      simp only [Sys.work, hpc, MainPc.work, Act.credit, Act.spurious, if_true]
      omega

/-! ## Termination -/

/-- **The steps that the program needs** for the lines of its command file: eight for every worker,
and for every job those of its commands and of the workers it may wake. -/
def stepBound (N : ℕ) (prog : List Directive) : ℕ := 8 * N + 6 + (prog.map (Directive.work N)).sum

/-- At the start all of the work is left. -/
theorem init_work (prog : List Directive) (n : ℕ) (old : Fin 100 → Option (List Byte)) :
    (Sys.init N prog n old).work = stepBound N prog := by
  simp only [Sys.work, Sys.init, MainPc.work, linesWork, queueWork, stepBound, WorkerPc.work,
    List.map_nil, List.sum_nil, sum_const_zero]
  omega

/-- The credits of a run are four for every spurious wake-up. -/
theorem sum_credit (as : List (Act N)) :
    (as.map Act.credit).sum = 4 * as.countP Act.spurious := by
  induction as with
  | nil => rfl
  | cons a as ih =>
      rw [List.map_cons, List.sum_cons, ih, List.countP_cons, Act.credit]
      split_ifs <;> omega

/-- What holds in every reachable state is kept by a step, which does a unit of work. -/
theorem paid_step {s s' : Sys N} {a : Act N} (h : s.Control ∧ s.pool.Sound)
    (hstep : step s a = some s') :
    (s'.Control ∧ s'.pool.Sound) ∧ s'.work + 1 ≤ s.work + a.credit :=
  ⟨⟨step_control h.1 h.2 hstep, h.2.step (step_pool h.1 hstep)⟩, step_work h.1 hstep⟩

/-- A program that is not finished can do a unit of work without a spurious wake-up. -/
theorem finished_or_works (hN : 0 < N) {s : Sys N} (h : s.Control ∧ s.pool.Sound) :
    s.main = .finished ∨ ∃ a s', a.spurious = false ∧ step s a = some s' ∧
      (s'.Control ∧ s'.pool.Sound) ∧ s'.work < s.work := by
  by_cases hstuck : s.Stuck
  · exact Or.inl (hstuck.finished h.1 h.2 hN)
  · simp only [Sys.Stuck, not_forall] at hstuck
    obtain ⟨a, ha, hstep⟩ := hstuck
    obtain ⟨s', hs'⟩ := Option.ne_none_iff_exists'.mp hstep
    obtain ⟨hI, hpay⟩ := paid_step h hs'
    rw [Act.credit, ha] at hpay
    exact Or.inr ⟨a, s', ha, hs', hI, hpay⟩

/-- **The program terminates.** A run has at most `stepBound N prog` steps and four more for every
spurious wake-up in it, whatever the schedule, the signals and the clocks do; and with at least one
worker the program can go on to its end without one, from every state it reaches. -/
theorem run_terminates {prog : List Directive} {n : ℕ}
    {old : Fin 100 → Option (List Byte)} {as : List (Act N)} {s : Sys N}
    (h : run step (Sys.init N prog n old) as = some s) :
    as.length ≤ stepBound N prog + 4 * as.countP Act.spurious ∧
      (0 < N →
        ∃ bs t, run step s bs = some t ∧ t.main = .finished ∧ ∀ a ∈ bs, a.spurious = false) := by
  constructor
  · have hpaid : as.length + s.work ≤ (Sys.init N prog n old).work + (as.map Act.credit).sum :=
      credited_length (I := fun s : Sys N => s.Control ∧ s.pool.Sound)
        ⟨init_control prog n old, init_sound prog n old⟩ (fun _ _ _ hI => paid_step hI) h
    rw [init_work, sum_credit] at hpaid
    omega
  · intro hN
    exact run_to_final (μ := Sys.work) (fun _ => finished_or_works hN) (reachable_control h)

/-- A run with a spurious wake-up in it: the only worker blocks, wakes up and blocks again. -/
def restlessRun : List (Act 1) :=
  List.replicate 2 (.main 0 fun _ => true) ++ List.replicate 2 (.worker (.last 0) 0) ++
    [.spuriousWorker (.last 0)] ++ List.replicate 2 (.worker (.last 0) 0)

theorem restlessRun_terminates :
    ∃ s, run step (Sys.init 1 [.submit (lit "increment 0")] 1 fun _ => none) restlessRun = some s ∧
      restlessRun.length ≤ stepBound 1 [.submit (lit "increment 0")] + 4 ∧
      ∃ bs t, run step s bs = some t ∧ t.main = .finished ∧ ∀ a ∈ bs, a.spurious = false := by
  have heval : (run step (Sys.init 1 [.submit (lit "increment 0")] 1 fun _ => none)
      restlessRun).isSome := by
    decide +kernel
  obtain ⟨s, hs⟩ := Option.isSome_iff_exists.mp heval
  obtain ⟨hbound, hend⟩ := run_terminates hs
  exact ⟨s, hs, hbound, hend (by decide)⟩

end StudiesOS.JobDispatcher
