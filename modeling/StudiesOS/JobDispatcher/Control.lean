import StudiesOS.JobDispatcher.Locks
import StudiesOS.JobDispatcher.Pool

/-! # The control invariant of the dispatcher
`Sys.Control` collects what every reachable state satisfies beside the accounting of the pool: the
lock discipline, which threads exist, how `done` and the exits hang together, and that no wake-up is
lost. The last point is three clauses: enough workers are awake for the queued jobs, a blocked main
thread has jobs to wait for, and after the shutdown broadcast nobody is blocked on `queue_cond`. -/

namespace StudiesOS.JobDispatcher

open Finset

variable {N : ℕ}

/-- Whether the main thread has set `done`. -/
def MainPc.shutDown : MainPc → Bool
  | .join _ => true
  | .writeStats => true
  | .finished => true
  | _ => false

/-- Whether the main thread has yet to create thread `i`. -/
def MainPc.notBorn (pc : MainPc) (i : ℕ) : Bool :=
  match pc with
  | .create k _ => k ≤ i
  | _ => false

/-- How many threads the main thread has joined. -/
def MainPc.joined (N : ℕ) : MainPc → ℕ
  | .join i => i
  | .writeStats => N
  | .finished => N
  | _ => 0

/-- The number of workers that are not blocked, unsignalled, on `queue_cond`. -/
def Sys.unblocked (s : Sys N) : ℕ := (univ.filter fun i => s.worker i ≠ .blocked).card

/-- **The control invariant.** -/
structure Sys.Control (s : Sys N) : Prop where
  /-- The mutex owners agree with the program points. -/
  locked : s.Locked
  /-- The workers that do not run yet are those that the main thread has yet to create. -/
  unborn : ∀ i, s.worker i = .unborn ↔ s.main.notBorn i = true
  /-- `dequeue` is called on a queue that is not empty. -/
  grab : ∀ i, s.worker i = .grab → s.queue ≠ []
  /-- `done` is set when the main thread is past its last wait. -/
  shut : s.done = s.main.shutDown
  /-- `done` is only set when no job is active. -/
  drained : s.done = true → s.activeJobs = 0
  /-- A worker leaves its loop only after `done` is set. -/
  exited : ∀ i, s.worker i = .exited → s.done = true
  /-- The joined workers have left their loops. -/
  joined : ∀ i : Fin N, (i : ℕ) < s.main.joined N → s.worker i = .exited
  /-- Enough workers are awake for the queued jobs. -/
  awake : min N s.queue.length ≤ s.unblocked
  /-- A main thread blocked on `done_cond` waits for an active job. -/
  mainBlocked : ∀ site, s.main = .blockedWait site → 0 < s.activeJobs
  /-- After the broadcast nobody is blocked on `queue_cond`. -/
  doneAwake : s.done = true → ∀ i, s.worker i ≠ .blocked

/-! ## Counting awake workers -/

/-- Moving a worker to a point that is not the blocked one keeps the others awake. -/
theorem unblocked_le_of_update {s s' : Sys N} {i : Fin N} {p : WorkerPc} (hpc : p ≠ .blocked)
    (hworker : s'.worker = Function.update s.worker i p) : s.unblocked ≤ s'.unblocked := by
  refine card_le_card fun j hj => ?_
  rw [mem_filter] at hj ⊢
  refine ⟨mem_univ j, ?_⟩
  rw [hworker]
  by_cases hji : j = i
  · rw [hji, Function.update_self]
    exact hpc
  · rw [Function.update_of_ne hji]
    exact hj.2

/-- Waking workers only adds awake ones. -/
theorem unblocked_le_wake {s s' : Sys N} {wake : Fin N → Bool}
    (hworker : s'.worker = (s.wakeWorkers wake).worker) : s.unblocked ≤ s'.unblocked := by
  refine card_le_card fun j hj => ?_
  rw [mem_filter] at hj ⊢
  refine ⟨mem_univ j, ?_⟩
  rw [hworker]
  simp only [Sys.wakeWorkers]
  rw [if_neg fun hb => hj.2 hb.1]
  exact hj.2

/-- **A signal keeps pace with a submission**: after it either one more worker is awake, or all. -/
theorem signal_awake {s s' : Sys N} {wake : Fin N → Bool} (hsignal : s.SignalWakes wake)
    (hworker : s'.worker = (s.wakeWorkers wake).worker) :
    s.unblocked + 1 ≤ s'.unblocked ∨ N ≤ s'.unblocked := by
  by_cases hblocked : ∃ i, s.worker i = .blocked
  · obtain ⟨i, hi, hwake⟩ := hsignal hblocked
    left
    refine card_lt_card ?_
    rw [ssubset_iff_of_subset]
    · refine ⟨i, ?_, ?_⟩
      · rw [mem_filter, hworker]
        refine ⟨mem_univ i, ?_⟩
        simp only [Sys.wakeWorkers]
        rw [if_pos ⟨hi, hwake⟩]
        exact WorkerPc.noConfusion
      · rw [mem_filter]
        exact fun hmem => hmem.2 hi
    · intro j hj
      rw [mem_filter] at hj ⊢
      refine ⟨mem_univ j, ?_⟩
      rw [hworker]
      simp only [Sys.wakeWorkers]
      rw [if_neg fun hb => hj.2 hb.1]
      exact hj.2
  · right
    have hawake : ∀ i ∈ (univ : Finset (Fin N)), s.worker i ≠ .blocked :=
      fun i _ hi => hblocked ⟨i, hi⟩
    have hall : s.unblocked = N := by
      rw [Sys.unblocked, filter_true_of_mem hawake, card_univ, Fintype.card_fin]
    exact hall.ge.trans (unblocked_le_wake hworker)

/-! ## Moves that change little -/

/-- **A worker moves** and the queue, the counter, the flag and the main thread stay. -/
theorem Sys.Control.worker_move {s s' : Sys N} {i : Fin N} {pc : WorkerPc} (h : s.Control)
    (hlocked : s'.Locked) (hqueue : s'.queue = s.queue) (hactive : s'.activeJobs = s.activeJobs)
    (hdone : s'.done = s.done) (hmain : s'.main = s.main)
    (hworker : s'.worker = Function.update s.worker i pc) (hborn : s.worker i ≠ .unborn)
    (hin : s.worker i ≠ .exited) (hpc : pc ≠ .unborn) (hgrab : pc = .grab → s.queue ≠ [])
    (hexit : pc = .exited → s.done = true)
    (hblock : pc = .blocked → s.queue = [] ∧ s.done = false) : s'.Control := by
  have look : ∀ j, s'.worker j = pc ∧ j = i ∨ s'.worker j = s.worker j ∧ j ≠ i := by
    intro j
    by_cases hj : j = i
    · subst hj
      exact Or.inl ⟨by rw [hworker, Function.update_self], rfl⟩
    · exact Or.inr ⟨by rw [hworker, Function.update_of_ne hj], hj⟩
  refine ⟨hlocked, fun j => ?_, fun j hj => ?_, by rw [hdone, hmain, h.shut], ?_, fun j hj => ?_,
    fun j hj => ?_, ?_, ?_, ?_⟩
  · rw [hmain, ← h.unborn j]
    obtain ⟨hj, rfl⟩ | ⟨hj, -⟩ := look j
    · rw [hj]
      exact ⟨fun hu => absurd hu hpc, fun hu => absurd hu hborn⟩
    · rw [hj]
  · rw [hqueue]
    obtain ⟨hj', rfl⟩ | ⟨hj', -⟩ := look j
    · exact hgrab (hj'.symm.trans hj)
    · exact h.grab j (hj'.symm.trans hj)
  · rw [hdone, hactive]
    exact h.drained
  · rw [hdone]
    obtain ⟨hj', rfl⟩ | ⟨hj', -⟩ := look j
    · exact hexit (hj'.symm.trans hj)
    · exact h.exited j (hj'.symm.trans hj)
  · rw [hmain] at hj
    obtain ⟨-, rfl⟩ | ⟨hj', -⟩ := look j
    · exact absurd (h.joined j hj) hin
    · rw [hj']
      exact h.joined j hj
  · rw [hqueue]
    by_cases hb : pc = .blocked
    · rw [(hblock hb).1]
      simp
    · exact h.awake.trans (unblocked_le_of_update hb hworker)
  · rw [hmain, hactive]
    exact h.mainBlocked
  · rw [hdone]
    intro hd j hj
    obtain ⟨hj', rfl⟩ | ⟨hj', -⟩ := look j
    · exact absurd hd (by rw [(hblock (hj'.symm.trans hj)).2]; exact Bool.false_ne_true)
    · exact h.doneAwake hd j (hj'.symm.trans hj)

/-- **The main thread moves** and everything else in the control stays. -/
theorem Sys.Control.main_move {s s' : Sys N} (h : s.Control) (hlocked : s'.Locked)
    (hqueue : s'.queue = s.queue) (hactive : s'.activeJobs = s.activeJobs)
    (hdone : s'.done = s.done) (hworker : s'.worker = s.worker)
    (hborn : ∀ i : Fin N, s'.main.notBorn i = s.main.notBorn i)
    (hshut : s'.main.shutDown = s.main.shutDown)
    (hjoined : ∀ i : Fin N, (i : ℕ) < s'.main.joined N → s.worker i = .exited)
    (hblocked : ∀ site, s'.main = .blockedWait site → 0 < s.activeJobs) : s'.Control := by
  refine ⟨hlocked, fun j => ?_, ?_, by rw [hdone, h.shut, hshut], ?_, ?_, ?_, ?_, ?_, ?_⟩
  · rw [hworker, hborn, h.unborn]
  · rw [hworker, hqueue]
    exact h.grab
  · rw [hdone, hactive]
    exact h.drained
  · rw [hworker, hdone]
    exact h.exited
  · rw [hworker]
    exact hjoined
  · rw [hqueue, Sys.unblocked, hworker]
    exact h.awake
  · rw [hactive]
    exact hblocked
  · rw [hdone, hworker]
    exact h.doneAwake

/-! ## Every step keeps the invariant -/

/-- A started command is neither at `dequeue` nor blocked nor out of the loop. -/
theorem startCmd_inside (job : Job) (cmd : List Byte) (rest : List (List Byte)) :
    startCmd job cmd rest ≠ .unborn ∧ startCmd job cmd rest ≠ .grab ∧
      startCmd job cmd rest ≠ .exited ∧ startCmd job cmd rest ≠ .blocked := by
  obtain ⟨id, δ, heq⟩ | heq := startCmd_eq job cmd rest <;> simp [heq]

/-- Where `update_counter` returns to is inside `process_job`. -/
theorem afterCounter_inside (job : Job) (rest : List (List Byte)) (r : Option CounterPc) :
    afterCounter job rest r ≠ .unborn ∧ afterCounter job rest r ≠ .grab ∧
      afterCounter job rest r ≠ .exited ∧ afterCounter job rest r ≠ .blocked := by
  cases r <;> simp [afterCounter]

/-- **A step of a worker keeps the control invariant.** -/
theorem workerStep_control {s s' : Sys N} {i : Fin N} {now : ℤ} (h : s.Control)
    (hsound : s.pool.Sound) (hstep : workerStep s i now = some s') : s'.Control := by
  have hlocked := workerStep_locked h.locked hstep
  cases workerStep_trans hstep with
  | top hpc _ | woken hpc _ | retry hpc _ | process hpc | lockStats hpc _ | fold hpc
    | lockFinish hpc _ =>
      exact h.worker_move hlocked rfl rfl rfl rfl rfl (by simp [hpc]) (by simp [hpc]) (by simp)
        (by simp) (by simp) (by simp)
  | wait hpc hqueue hdone =>
      exact h.worker_move hlocked rfl rfl rfl rfl rfl (by simp [hpc]) (by simp [hpc]) (by simp)
        (by simp) (by simp) fun _ => ⟨hqueue, hdone⟩
  | leave hpc _ hdone =>
      exact h.worker_move hlocked rfl rfl rfl rfl rfl (by simp [hpc]) (by simp [hpc]) (by simp)
        (by simp) (fun _ => hdone) (by simp)
  | pass hpc hqueue =>
      exact h.worker_move hlocked rfl rfl rfl rfl rfl (by simp [hpc]) (by simp [hpc]) (by simp)
        (fun _ => hqueue) (by simp) (by simp)
  | @take job queue hpc hqueue =>
      -- the queue gets shorter; no other worker is at `dequeue`, for it would hold the mutex
      have hother : ∀ j, s.worker j = .grab → j = i := by
        intro j hj
        have heq := h.locked.excludes (t := Thread.worker j) (u := Thread.worker i)
          (l := Lock.queue) (by simp [Sys.held, hj, WorkerPc.held])
          (by simp [Sys.held, hpc, WorkerPc.held])
        exact Thread.worker.inj heq
      have hmove : ((s.unlock .queue).setWorker i (.exec job (processJob job.cmd))).Control :=
        h.worker_move hlocked rfl rfl rfl rfl rfl (by simp [hpc]) (by simp [hpc]) (by simp)
          (by simp) (by simp) (by simp)
      refine { hmove with locked := hlocked, grab := ?_, awake := ?_ }
      · intro j hj
        by_cases hji : j = i
        · subst hji
          simp [Sys.setWorker] at hj
        · simp only [Sys.setWorker, Function.update_of_ne hji] at hj
          exact absurd (hother j hj) hji
      · refine le_trans ?_ hmove.awake
        show min N queue.length ≤ min N s.queue.length
        rw [hqueue, List.length_cons]
        exact min_le_min_left N (Nat.le_succ _)
  | @call job cmd rest hpc =>
      obtain ⟨h₁, h₂, h₃, h₄⟩ := startCmd_inside job cmd rest
      exact h.worker_move hlocked rfl rfl rfl rfl rfl (by simp [hpc]) (by simp [hpc]) h₁
        (fun hg => absurd hg h₂) (fun he => absurd he h₃) fun hb => absurd hb h₄
  | @counter job rest cpc t r hpc hcounter =>
      obtain ⟨owner, files, rfl⟩ := counterStep_frame hcounter
      obtain ⟨h₁, h₂, h₃, h₄⟩ := afterCounter_inside job rest r
      exact h.worker_move hlocked rfl rfl rfl rfl rfl (by simp [hpc]) (by simp [hpc]) h₁
        (fun hg => absurd hg h₂) (fun he => absurd he h₃) fun hb => absurd hb h₄
  | @report job pc hpc hmain =>
      have hnonneg : 0 ≤ s.activeJobs - 1 := (hsound.step (workerStep_pool hstep)).active_nonneg
      -- a job is being reported, so `done` is not set
      have hrunning : s.done = false := by
        by_contra hdone
        rw [Bool.not_eq_false] at hdone
        have hload := (hsound.drained (h.drained hdone)).2 i
        rw [pool_phase, hpc] at hload
        cases hload
      have hsame : (∀ j, pc.notBorn j = s.main.notBorn j) ∧ pc.shutDown = s.main.shutDown ∧
          pc.joined N = s.main.joined N := by
        obtain ⟨rfl, -⟩ | ⟨site, hs, rfl⟩ := hmain
        · exact ⟨fun _ => rfl, rfl, rfl⟩
        · rw [hs]
          exact ⟨fun _ => rfl, rfl, rfl⟩
      -- the invariant first without the report, then with it
      have hmove : ((s.unlock .queue).setWorker i .top).Control :=
        h.worker_move (h.locked.worker_release (l := .queue) (by rw [hpc]; rfl) rfl rfl rfl rfl)
          rfl rfl rfl rfl rfl (by simp [hpc]) (by simp [hpc]) (by simp) (by simp) (by simp) (by simp)
      refine ⟨hlocked, fun j => ?_, hmove.grab, ?_, fun hdone => ?_, hmove.exited, fun j hj => ?_,
        hmove.awake, fun site hsite => ?_, hmove.doneAwake⟩
      · exact (hmove.unborn j).trans (Iff.of_eq (congrArg (· = true) (hsame.1 j).symm))
      · exact h.shut.trans hsame.2.1.symm
      · exact absurd (hrunning.symm.trans hdone) Bool.false_ne_true
      · exact hmove.joined j (lt_of_lt_of_eq hj hsame.2.2)
      · obtain ⟨-, hzero⟩ | ⟨_, -, rfl⟩ := hmain
        · have hne : s.activeJobs - 1 ≠ 0 := hzero ⟨site, hsite⟩
          show 0 < s.activeJobs - 1
          omega
        · cases hsite

/-- The workers that the main thread has yet to create do not run. -/
theorem Sys.Control.not_born {s : Sys N} (h : s.Control) {k : ℕ} {prog : List Directive}
    (hmain : s.main = .create k prog) (i : Fin N) (hki : k ≤ i) : s.worker i = .unborn := by
  rw [h.unborn, hmain]
  simpa [MainPc.notBorn] using hki

/-- **A step of the main thread keeps the control invariant.** -/
theorem mainStep_control {s s' : Sys N} {now : ℤ} {wake : Fin N → Bool} (h : s.Control)
    (hsound : s.pool.Sound) (hstep : mainStep s now wake = some s') : s'.Control := by
  have hlocked := mainStep_locked h.locked (fun _ _ => h.not_born) hstep
  have hzero : ∀ k : Fin N, (k : ℕ) < 0 → s.worker k = .exited := fun k hk => absurd hk (by omega)
  cases mainStep_trans hstep with
  | @create k prog hpc hk =>
      have hrunning : s.done = false := by rw [h.shut, hpc]; rfl
      refine ⟨hlocked, fun j => ?_, fun j hj => ?_, hrunning, h.drained, fun j hj => ?_,
        fun j hj => absurd hj (by simp [MainPc.joined]), ?_, by simp,
        fun hdone => absurd (hrunning.symm.trans hdone) Bool.false_ne_true⟩
      · by_cases hj : j = ⟨k, hk⟩
        · subst hj
          simp [Sys.setWorker, MainPc.notBorn]
        · have hne : (j : ℕ) ≠ k := fun heq => hj (Fin.ext heq)
          have hiff : k + 1 ≤ (j : ℕ) ↔ k ≤ j := by omega
          simp only [setWorker_of_ne s _ hj, h.unborn j, hpc, MainPc.notBorn, hiff]
      · by_cases hji : j = ⟨k, hk⟩
        · subst hji
          simp [Sys.setWorker] at hj
        · simp only [setWorker_of_ne s _ hji] at hj
          exact h.grab j hj
      · by_cases hji : j = ⟨k, hk⟩
        · subst hji
          simp [Sys.setWorker] at hj
        · simp only [setWorker_of_ne s _ hji] at hj
          exact h.exited j hj
      · exact h.awake.trans (unblocked_le_of_update (i := ⟨k, hk⟩) (p := .top) (by simp) rfl)
  | @created k prog hpc hk =>
      refine h.main_move hlocked rfl rfl rfl rfl (fun j => ?_) (by rw [hpc]; rfl)
        (fun j hj => absurd hj (by simp [MainPc.joined])) (by simp)
      have hlt : ¬ k ≤ (j : ℕ) := by omega
      rw [hpc]
      simp [MainPc.notBorn, hlt]
  | eof hpc | readSubmit hpc | readMsleep hpc | readWait hpc | lockSubmit hpc _ | lockWait hpc _
    | wokenWait hpc _ | pass hpc _ =>
      exact h.main_move hlocked rfl rfl rfl rfl (fun j => by rw [hpc]; rfl) (by rw [hpc]; rfl)
        hzero (by simp)
  | submit hpc hsignal =>
      have hrunning : s.done = false := by rw [h.shut, hpc]; rfl
      have look := @wakeWorkers_iff N (s.unlock .queue) wake
      refine ⟨hlocked, fun j => (look (by simp) (by simp)).trans ?_, fun j _ hempty => ?_, hrunning,
        fun hdone => absurd (hrunning.symm.trans hdone) Bool.false_ne_true,
        fun j hj => h.exited j ((look (by simp) (by simp)).mp hj),
        fun j hj => absurd hj (by simp [MainPc.joined]), ?_, by simp,
        fun hdone => absurd (hrunning.symm.trans hdone) Bool.false_ne_true⟩
      · have hold := h.unborn j
        rw [hpc] at hold
        exact hold
      · simp [enqueue] at hempty
      · -- the signal wakes a worker for the job, or all are awake already
        have hawake := h.awake
        simp only [enqueue, List.length_append, List.length_singleton]
        obtain hone | hall := signal_awake (s := s) hsignal (rfl :
            ((s.unlock .queue).wakeWorkers wake).worker = (s.wakeWorkers wake).worker)
        · refine le_trans ?_ hone
          omega
        · exact le_trans (min_le_left _ _) hall
  | wait hpc hactive =>
      exact h.main_move hlocked rfl rfl rfl rfl (fun j => by rw [hpc]; rfl) (by rw [hpc]; rfl)
        hzero fun _ _ => hactive
  | shutDown hpc hactive =>
      have hnone : s.activeJobs = 0 := le_antisymm hactive hsound.active_nonneg
      have hqueue : s.queue = [] := (hsound.drained hnone).1
      have look := @wakeWorkers_iff N (s.unlock .queue) fun _ => true
      refine ⟨hlocked, fun j => (look (by simp) (by simp)).trans ?_,
        fun j hj => h.grab j ((look (by simp) (by simp)).mp hj), rfl, fun _ => hnone, fun _ _ => rfl,
        fun j hj => absurd hj (by simp [MainPc.joined]), ?_, by simp, fun _ j hj => ?_⟩
      · have hold := h.unborn j
        rw [hpc] at hold
        exact hold
      · show min N s.queue.length ≤ _
        rw [hqueue]
        simp
      · simp only [Sys.wakeWorkers] at hj
        split_ifs at hj with hb
        exact hb ⟨hj, trivial⟩
  | @join k hpc hk hexited =>
      refine h.main_move hlocked rfl rfl rfl rfl (fun j => by rw [hpc]; rfl) (by rw [hpc]; rfl)
        (fun j hj => ?_) (by simp)
      obtain hlt | heq := Nat.lt_succ_iff_lt_or_eq.mp hj
      · exact h.joined j (by rw [hpc]; exact hlt)
      · rw [← hexited]
        exact congrArg s.worker (Fin.ext heq)
  | @joined k hpc hk =>
      exact h.main_move hlocked rfl rfl rfl rfl (fun j => by rw [hpc]; rfl) (by rw [hpc]; rfl)
        (fun j _ => h.joined j (by rw [hpc]; exact lt_of_lt_of_le j.isLt hk)) (by simp)
  | writeStats hpc =>
      refine h.main_move hlocked rfl rfl rfl rfl (fun j => by rw [hpc]; rfl) (by rw [hpc]; rfl)
        (fun j hj => h.joined j ?_) (by simp)
      rw [hpc]
      exact hj

/-- **Every step keeps the control invariant**, spurious wake-ups included. -/
theorem step_control {s s' : Sys N} {a : Act N} (h : s.Control) (hsound : s.pool.Sound)
    (hstep : step s a = some s') : s'.Control := by
  cases step_trans hstep with
  | worker => exact workerStep_control h hsound hstep
  | main => exact mainStep_control h hsound hstep
  | spuriousWorker hpc =>
      exact h.worker_move (h.locked.worker_keep rfl rfl rfl (by rw [hpc]; rfl)) rfl rfl rfl rfl rfl
        (by simp [hpc]) (by simp [hpc]) (by simp) (by simp) (by simp) (by simp)
  | spuriousMain hpc =>
      exact h.main_move (h.locked.main_keep rfl (fun _ => rfl) (by rw [hpc]; rfl)) rfl rfl rfl rfl
        (fun j => by rw [hpc]; rfl) (by rw [hpc]; rfl) (fun j hj => absurd hj (by simp [MainPc.joined]))
        (by simp)

/-- **Every step is a step of the pool**, spurious wake-ups included. -/
theorem step_pool {s s' : Sys N} {a : Act N} (h : s.Control) (hstep : step s a = some s') :
    WorkPool.Step s.pool s'.pool := by
  cases step_trans hstep with
  | worker => exact workerStep_pool hstep
  | main => exact mainStep_pool (fun _ _ => h.not_born) hstep
  | spuriousWorker hpc => exact pool_stutter rfl rfl rfl rfl rfl rfl (by rw [hpc]; rfl)
  | spuriousMain => exact pool_same rfl

/-! ## Reachable states -/

/-- At the start the accounting is balanced. -/
theorem init_sound (prog : List Directive) (n : ℕ) (old : Fin 100 → Option (List Byte)) :
    (Sys.init N prog n old).pool.Sound := by
  refine ⟨rfl, ?_, ?_⟩ <;> simp [Sys.init, Sys.pool, WorkerPc.phase]

/-- At the start the control invariant holds. -/
theorem init_control (prog : List Directive) (n : ℕ) (old : Fin 100 → Option (List Byte)) :
    (Sys.init N prog n old).Control := by
  have hheld : (Sys.init N prog n old).held = fun _ => none := by
    funext t
    cases t <;> rfl
  refine ⟨?_, ?_, ?_, rfl, ?_, ?_, ?_, ?_, ?_, ?_⟩
  · rw [Sys.Locked, hheld]
    exact heldBy_none
  all_goals simp [Sys.init, MainPc.notBorn, MainPc.joined]

/-- **In every reachable state** the control invariant and the accounting hold. -/
theorem reachable_control {prog : List Directive} {n : ℕ} {old : Fin 100 → Option (List Byte)}
    {as : List (Act N)} {s : Sys N} (h : run step (Sys.init N prog n old) as = some s) :
    s.Control ∧ s.pool.Sound :=
  run_invariant (I := fun s : Sys N => s.Control ∧ s.pool.Sound)
    ⟨init_control prog n old, init_sound prog n old⟩
    (fun _ _ _ hI hstep => ⟨step_control hI.1 hI.2 hstep, hI.2.step (step_pool hI.1 hstep)⟩) h

end StudiesOS.JobDispatcher
