import StudiesOS.JobDispatcher.Transitions
import StudiesOS.Transition.Mutex

/-! # The lock discipline
Each program point holds at most one mutex (`held`) and may be about to take one (`wants`). The
mutex owners agree with the program points in every reachable state, and no program point that wants
a mutex holds another one: no thread ever tries to take `queue_lock`, `stats_lock` or one of
`counter_locks` while holding one of them. -/

namespace StudiesOS.JobDispatcher

/-! ## What a program point holds and wants -/

/-- The mutex held at a point of `update_counter`. -/
def CounterPc.held : CounterPc → Option Lock
  | .lock _ _ => none
  | .read id _ => some (.counter id)
  | .write id _ _ => some (.counter id)
  | .truncate id _ => some (.counter id)
  | .unlock id => some (.counter id)

/-- The mutex held at a point of `worker_main`. -/
def WorkerPc.held : WorkerPc → Option Lock
  | .test => some .queue
  | .grab => some .queue
  | .finish _ => some .queue
  | .foldStats _ _ => some .stats
  | .counter _ _ pc => pc.held
  | _ => none

/-- The mutex held at a point of the main thread. -/
def MainPc.held : MainPc → Option Lock
  | .submit _ _ => some .queue
  | .testWait _ => some .queue
  | _ => none

/-- The mutex that the next step of a worker takes. -/
def WorkerPc.wants : WorkerPc → Option Lock
  | .top => some .queue
  | .woken => some .queue
  | .lockFinish _ => some .queue
  | .lockStats _ _ => some .stats
  | .counter _ _ (.lock id _) => some (.counter id)
  | _ => none

/-- The mutex that the next step of the main thread takes. -/
def MainPc.wants : MainPc → Option Lock
  | .lockSubmit _ _ => some .queue
  | .lockWait _ => some .queue
  | .wokenWait _ => some .queue
  | _ => none

/-- A worker that is about to take a mutex holds none. -/
theorem WorkerPc.held_of_wants {pc : WorkerPc} {l : Lock} (h : pc.wants = some l) :
    pc.held = none := by
  cases pc with
  | counter job rest cpc => cases cpc <;> simp_all [wants, held, CounterPc.held]
  | _ => simp_all [wants, held]

/-- A main thread that is about to take a mutex holds none. -/
theorem MainPc.held_of_wants {pc : MainPc} {l : Lock} (h : pc.wants = some l) :
    pc.held = none := by
  cases pc <;> simp_all [wants, held]

variable {N : ℕ}

/-- The mutex each thread holds. -/
def Sys.held (s : Sys N) : Thread N → Option Lock
  | .main => s.main.held
  | .worker i => (s.worker i).held

/-- The mutex each thread is about to take. -/
def Sys.wants (s : Sys N) : Thread N → Option Lock
  | .main => s.main.wants
  | .worker i => (s.worker i).wants

/-! ## Moving a thread -/

/-- Moving a worker changes what that worker holds. -/
theorem held_of_worker {s s' : Sys N} {i : Fin N} {pc : WorkerPc}
    (hmain : s'.main.held = s.main.held) (hworker : s'.worker = Function.update s.worker i pc) :
    s'.held = Function.update s.held (.worker i) pc.held := by
  funext t
  cases t with
  | main => simp [Sys.held, hmain]
  | worker j =>
      by_cases hj : j = i
      · subst hj
        simp [Sys.held, hworker]
      · simp [Sys.held, hworker, hj]

/-- Moving the main thread changes what the main thread holds. -/
theorem held_of_main {s s' : Sys N} (hworker : ∀ i, (s'.worker i).held = (s.worker i).held) :
    s'.held = Function.update s.held .main s'.main.held := by
  funext t
  cases t with
  | main => simp [Sys.held]
  | worker j => simp [Sys.held, hworker]

/-! ## The discipline is kept -/

/-- The mutex owners agree with the program points. -/
def Sys.Locked (s : Sys N) : Prop := HeldBy s.owner s.held

section Moves

variable {s s' : Sys N} {i : Fin N} {pc : WorkerPc} {l : Lock}

/-- A worker takes a free mutex. -/
theorem Sys.Locked.worker_acquire (h : s.Locked) (hheld : (s.worker i).held = none)
    (hfree : s.owner l = none) (howner : s'.owner = Function.update s.owner l (some (.worker i)))
    (hworker : s'.worker = Function.update s.worker i pc) (hmain : s'.main = s.main)
    (hpc : pc.held = some l) : s'.Locked := by
  rw [Sys.Locked, howner, held_of_worker (by rw [hmain]) hworker, hpc]
  exact h.acquire hfree hheld

/-- A worker gives its mutex back. -/
theorem Sys.Locked.worker_release (h : s.Locked) (hheld : (s.worker i).held = some l)
    (howner : s'.owner = Function.update s.owner l none)
    (hworker : s'.worker = Function.update s.worker i pc)
    (hmain : s'.main.held = s.main.held) (hpc : pc.held = none) : s'.Locked := by
  rw [Sys.Locked, howner, held_of_worker hmain hworker, hpc]
  exact HeldBy.release h (t := Thread.worker i) hheld

/-- A worker moves and keeps what it holds. -/
theorem Sys.Locked.worker_keep (h : s.Locked) (howner : s'.owner = s.owner)
    (hworker : s'.worker = Function.update s.worker i pc) (hmain : s'.main = s.main)
    (hpc : pc.held = (s.worker i).held) : s'.Locked := by
  rw [Sys.Locked, howner, held_of_worker (by rw [hmain]) hworker, hpc]
  rwa [show (s.worker i).held = s.held (.worker i) from rfl, Function.update_eq_self]

/-- The main thread takes a free mutex. -/
theorem Sys.Locked.main_acquire (h : s.Locked) (hheld : s.main.held = none) (hfree : s.owner l = none)
    (howner : s'.owner = Function.update s.owner l (some .main)) (hworker : s'.worker = s.worker)
    (hmain : s'.main.held = some l) : s'.Locked := by
  rw [Sys.Locked, howner, held_of_main (s := s) fun i => by rw [hworker], hmain]
  exact HeldBy.acquire h (t := Thread.main) hfree hheld

/-- The main thread gives its mutex back; the workers may be woken meanwhile. -/
theorem Sys.Locked.main_release (h : s.Locked) (hheld : s.main.held = some l)
    (howner : s'.owner = Function.update s.owner l none)
    (hworker : ∀ i, (s'.worker i).held = (s.worker i).held) (hmain : s'.main.held = none) :
    s'.Locked := by
  rw [Sys.Locked, howner, held_of_main hworker, hmain]
  exact HeldBy.release h (t := Thread.main) hheld

/-- The main thread moves and keeps what it holds. -/
theorem Sys.Locked.main_keep (h : s.Locked) (howner : s'.owner = s.owner)
    (hworker : ∀ i, (s'.worker i).held = (s.worker i).held) (hmain : s'.main.held = s.main.held) :
    s'.Locked := by
  rw [Sys.Locked, howner, held_of_main hworker, hmain]
  rwa [show s.main.held = s.held .main from rfl, Function.update_eq_self]

end Moves

/-- A started command holds no mutex yet. -/
theorem held_startCmd (job : Job) (cmd : List Byte) (rest : List (List Byte)) :
    (startCmd job cmd rest).held = none := by
  obtain ⟨id, δ, heq⟩ | heq := startCmd_eq job cmd rest <;> rw [heq] <;> rfl

/-- A step of `update_counter` keeps the discipline. -/
theorem counterStep_locked {s t : Sys N} {i : Fin N} {job : Job} {rest : List (List Byte)}
    {cpc : CounterPc} {r : Option CounterPc} (h : s.Locked)
    (hpc : s.worker i = .counter job rest cpc) (hstep : counterStep s i cpc = some (t, r)) :
    (t.setWorker i (afterCounter job rest r)).Locked := by
  cases cpc with
  | lock id δ =>
      simp only [counterStep, Option.map_eq_some_iff, lock_eq_some] at hstep
      obtain ⟨_, ⟨hfree, rfl⟩, heq⟩ := hstep
      obtain ⟨rfl, rfl⟩ := Prod.mk.inj heq
      exact h.worker_acquire (by rw [hpc]; rfl) hfree rfl rfl rfl rfl
  | read id δ =>
      simp only [counterStep] at hstep
      split at hstep
      · obtain ⟨rfl, rfl⟩ := Prod.mk.inj (Option.some.inj hstep)
        exact h.worker_keep rfl rfl rfl (by rw [hpc]; rfl)
      · obtain ⟨rfl, rfl⟩ := Prod.mk.inj (Option.some.inj hstep)
        exact h.worker_keep rfl rfl rfl (by rw [hpc]; rfl)
  | write id δ val =>
      obtain ⟨rfl, rfl⟩ := Prod.mk.inj (Option.some.inj hstep)
      exact h.worker_keep rfl rfl rfl (by rw [hpc]; rfl)
  | truncate id len =>
      obtain ⟨rfl, rfl⟩ := Prod.mk.inj (Option.some.inj hstep)
      exact h.worker_keep rfl rfl rfl (by rw [hpc]; rfl)
  | unlock id =>
      obtain ⟨rfl, rfl⟩ := Prod.mk.inj (Option.some.inj hstep)
      exact h.worker_release (l := .counter id) (by rw [hpc]; rfl) rfl rfl rfl rfl

/-- A step of a worker keeps the discipline. -/
theorem workerStep_locked {s s' : Sys N} {i : Fin N} {now : ℤ} (h : s.Locked)
    (hstep : workerStep s i now = some s') : s'.Locked := by
  cases workerStep_trans hstep with
  | top hpc hfree | woken hpc hfree | lockStats hpc hfree | lockFinish hpc hfree =>
      exact h.worker_acquire (by rw [hpc]; rfl) hfree rfl rfl rfl rfl
  | wait hpc _ _ | leave hpc _ _ | retry hpc _ | take hpc _ =>
      exact h.worker_release (l := .queue) (by rw [hpc]; rfl) rfl rfl rfl rfl
  | pass hpc _ | process hpc => exact h.worker_keep rfl rfl rfl (by rw [hpc]; rfl)
  | call hpc => exact h.worker_keep rfl rfl rfl (by rw [hpc, held_startCmd]; rfl)
  | counter hpc hcounter => exact counterStep_locked h hpc hcounter
  | fold hpc => exact h.worker_release (l := .stats) (by rw [hpc]; rfl) rfl rfl rfl rfl
  | report hpc hmain =>
      refine h.worker_release (l := .queue) (by rw [hpc]; rfl) rfl rfl ?_ rfl
      obtain ⟨rfl, -⟩ | ⟨site, hs, rfl⟩ := hmain
      · rfl
      · rw [hs]
        rfl

/-- A step of the main thread keeps the discipline. -/
theorem mainStep_locked {s s' : Sys N} {now : ℤ} {wake : Fin N → Bool} (h : s.Locked)
    (hunborn : ∀ i prog, s.main = .create i prog → ∀ j : Fin N, i ≤ j → s.worker j = .unborn)
    (hstep : mainStep s now wake = some s') : s'.Locked := by
  cases mainStep_trans hstep with
  | @create k prog hpc hk =>
      refine h.main_keep rfl (update_view WorkerPc.held ?_) (by rw [hpc]; rfl)
      rw [hunborn k prog hpc ⟨k, hk⟩ le_rfl]
      rfl
  | created hpc _ | eof hpc | readSubmit hpc | readMsleep hpc | readWait hpc | join hpc _ _
    | joined hpc _ | writeStats hpc => exact h.main_keep rfl (fun _ => rfl) (by rw [hpc]; rfl)
  | lockSubmit hpc hfree | lockWait hpc hfree | wokenWait hpc hfree =>
      exact h.main_acquire (by rw [hpc]; rfl) hfree rfl rfl rfl
  | wait hpc _ | pass hpc _ =>
      exact h.main_release (l := .queue) (by rw [hpc]; rfl) rfl (fun _ => rfl) rfl
  | submit hpc _ =>
      exact h.main_release (l := .queue) (by rw [hpc]; rfl) rfl
        (wakeWorkers_view WorkerPc.held rfl s wake) rfl
  | shutDown hpc _ =>
      exact h.main_release (l := .queue) (by rw [hpc]; rfl) rfl
        (wakeWorkers_view WorkerPc.held rfl s fun _ => true) rfl

end StudiesOS.JobDispatcher
