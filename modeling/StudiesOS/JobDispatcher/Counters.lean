import StudiesOS.JobDispatcher.ExactlyOnce

/-! # The counter files
A counter file follows a conservation law: the number it stands for, plus what the workers, the
queue and the rest of the command file still owe it, is the net effect of all jobs of the file. The
mutex of the counter makes the read, the addition, the rewriting and the truncation one update
(`CounterAt`), and at the end nothing is owed. -/

namespace StudiesOS.JobDispatcher

open Finset

variable {N : ℕ}

/-! ## What is still owed to a counter -/

/-- What a call of `update_counter` has yet to add to counter `id`. -/
def CounterPc.owes (id : Fin 100) : CounterPc → ℤ
  | .lock i δ => if i = id then δ else 0
  | .read i δ => if i = id then δ else 0
  | .write i δ _ => if i = id then δ else 0
  | .truncate _ _ => 0
  | .unlock _ => 0

/-- What a worker has yet to add to counter `id` for the job it is processing. -/
def WorkerPc.owes (id : Fin 100) : WorkerPc → ℤ
  | .exec _ rest => netDelta id rest
  | .counter _ rest pc => pc.owes id + netDelta id rest
  | _ => 0

/-- What a job adds to counter `id`. -/
def jobDelta (id : Fin 100) (cmd : List Byte) : ℤ := netDelta id (processJob cmd)

/-- **What is still owed to counter `id`**: by the workers, the queue and the rest of the file. -/
def Sys.debt (s : Sys N) (id : Fin 100) : ℤ :=
  ∑ i, (s.worker i).owes id + (s.queue.map fun j => jobDelta id j.cmd).sum
    + (s.main.toSubmit.map (jobDelta id)).sum

/-- Moving a worker changes the debt by what that worker owes less or more. -/
theorem debt_of_worker {s s' : Sys N} {i : Fin N} {p : WorkerPc} (id : Fin 100)
    (hworker : s'.worker = Function.update s.worker i p) (hqueue : s'.queue = s.queue)
    (hmain : s'.main.toSubmit = s.main.toSubmit) :
    s'.debt id + (s.worker i).owes id = s.debt id + p.owes id := by
  have hsum := sum_update_add (fun _ q => WorkerPc.owes id q) s.worker i p
  rw [Sys.debt, Sys.debt, hworker, hqueue, hmain]
  linarith

/-- Starting a command turns what the command adds into what the call owes. -/
theorem owes_startCmd (id : Fin 100) (job : Job) (cmd : List Byte) (rest : List (List Byte)) :
    (startCmd job cmd rest).owes id = cmdDelta id cmd + netDelta id rest := by
  cases hcmd : runCmd cmd with
  | update i δ =>
      simp only [startCmd, cmdDelta, hcmd]
      split
      · rename_i hi
        have hid : (⟨i.toNat, by omega⟩ : Fin 100) = id ↔ i = ((id : ℕ) : ℤ) := by
          rw [Fin.ext_iff]
          show i.toNat = (id : ℕ) ↔ _
          omega
        simp only [WorkerPc.owes, CounterPc.owes, hid]
      · rename_i hi
        have hne : i ≠ ((id : ℕ) : ℤ) := by
          have := id.isLt
          omega
        simp [WorkerPc.owes, hne]
  | nothing | usleep => simp [startCmd, cmdDelta, hcmd, WorkerPc.owes]

/-! ## What a counter file stands for -/

/-- Whether a point is between the reading of counter `id` and the end of its rewriting. -/
def WorkerPc.edits (id : Fin 100) : WorkerPc → Prop
  | .counter _ _ (.write i _ _) => i = id
  | .counter _ _ (.truncate i _) => i = id
  | _ => False

/-- A worker that edits a counter file holds its mutex. -/
theorem WorkerPc.held_of_edits {id : Fin 100} {pc : WorkerPc} (h : pc.edits id) :
    pc.held = some (.counter id) := by
  cases pc with
  | counter job rest cpc =>
      cases cpc with
      | write i δ val | truncate i len =>
          obtain rfl : i = id := h
          rfl
      | lock | read | unlock => exact h.elim
  | _ => exact h.elim

/-- **Counter `id` stands at `v`**: outside of an update the file is the numeral of `v`; while it is
being truncated it starts with that numeral; and who is about to rewrite it has added to `v`. -/
structure CounterAt (s : Sys N) (id : Fin 100) (v : ℤ) : Prop where
  /-- The value is a `long long`. -/
  fits : Fits 63 v
  /-- The file, unless somebody is about to truncate it. -/
  clean : (∀ i job rest len, s.worker i ≠ .counter job rest (.truncate id len)) →
    s.files id = some (numeral v)
  /-- The file before the truncation. -/
  dirty : ∀ i job rest len, s.worker i = .counter job rest (.truncate id len) →
    len = (numeral v).length ∧ ∃ junk, s.files id = some (numeral v ++ junk)
  /-- The number about to be written. -/
  ready : ∀ i job rest δ val, s.worker i = .counter job rest (.write id δ val) →
    val = v + δ ∧ Fits 63 val

/-- Steps that neither touch the file nor move a worker that edits it leave the counter alone. -/
theorem CounterAt.frame {s s' : Sys N} {id : Fin 100} {v : ℤ} (h : CounterAt s id v)
    (hfile : s'.files id = s.files id)
    (hworker : ∀ i, s'.worker i = s.worker i ∨
      ¬ (s.worker i).edits id ∧ ¬ (s'.worker i).edits id) : CounterAt s' id v := by
  refine ⟨h.fits, fun hnone => ?_, fun i job rest len hi => ?_, fun i job rest δ val hi => ?_⟩
  · rw [hfile]
    refine h.clean fun i job rest len hi => ?_
    obtain hsame | ⟨hno, -⟩ := hworker i
    · exact hnone i job rest len (hsame.trans hi)
    · rw [hi] at hno
      exact hno rfl
  · obtain hsame | ⟨-, hno⟩ := hworker i
    · rw [hfile]
      exact h.dirty i job rest len (hsame.symm.trans hi)
    · rw [hi] at hno
      exact absurd rfl hno
  · obtain hsame | ⟨-, hno⟩ := hworker i
    · exact h.ready i job rest δ val (hsame.symm.trans hi)
    · rw [hi] at hno
      exact absurd rfl hno

/-- The frame rule for the move of one worker. -/
theorem CounterAt.frame_worker {s s' : Sys N} {id : Fin 100} {v : ℤ} {i : Fin N} {p : WorkerPc}
    (h : CounterAt s id v) (hfile : s'.files id = s.files id)
    (hworker : s'.worker = Function.update s.worker i p) (hold : ¬ (s.worker i).edits id)
    (hnew : ¬ p.edits id) : CounterAt s' id v := by
  refine h.frame hfile fun j => ?_
  by_cases hj : j = i
  · subst hj
    rw [hworker, Function.update_self]
    exact Or.inr ⟨hold, hnew⟩
  · rw [hworker, Function.update_of_ne hj]
    exact Or.inl rfl

/-- **The step does not overflow**: if it is the addition in `update_counter`, the sum is a
`long long`. -/
def NoOverflow (s : Sys N) : Act N → Prop
  | .worker i _ =>
      match s.worker i with
      | .counter _ _ (.read id δ) =>
          ∀ content ∈ s.files id, Fits 63 ((strtol (cstr content)).getD 0 + δ)
      | _ => True
  | _ => True

instance (s : Sys N) : DecidablePred (NoOverflow s) := fun a => by
  unfold NoOverflow
  split
  · split <;> infer_instance
  · infer_instance

/-! ## The steps of `update_counter` -/

/-- Reading a counter file gives the number it stands for. -/
theorem read_numeral {v : ℤ} (h : Fits 63 v) : (strtol (cstr (numeral v))).getD 0 = v := by
  have hNUL : NUL ∉ numeral v := fun hmem => (of_mem_numeral hmem).2 rfl
  rw [cstr_eq_self hNUL, strtol_numeral h, Option.getD_some]

/-- Whoever edits a counter file is the only one. -/
theorem Sys.Locked.edits_unique {s : Sys N} (h : s.Locked) {id : Fin 100} {i j : Fin N}
    (hi : (s.worker i).held = some (.counter id)) (hj : (s.worker j).edits id) : j = i :=
  Thread.worker.inj (HeldBy.excludes h (t := Thread.worker j) (u := Thread.worker i)
    (WorkerPc.held_of_edits hj) hi)

/-- A step of `update_counter` on another counter, in which neither the file of `c` nor who edits it
changes. -/
theorem CounterAt.other {s t : Sys N} {i : Fin N} {job : Job} {rest : List (List Byte)}
    {cpc : CounterPc} {r : Option CounterPc} {c : Fin 100} {v : ℤ} (h : CounterAt s c v)
    (hpc : s.worker i = .counter job rest cpc) (hfile : t.files c = s.files c)
    (hworker : t.worker = s.worker) (hold : ¬ (WorkerPc.counter job rest cpc).edits c)
    (hnew : ¬ (afterCounter job rest r).edits c)
    (howes : (afterCounter job rest r).owes c = (WorkerPc.counter job rest cpc).owes c) :
    ∃ v', CounterAt (t.setWorker i (afterCounter job rest r)) c v' ∧
      v' + (afterCounter job rest r).owes c = v + (s.worker i).owes c := by
  refine ⟨v, h.frame_worker (i := i) (p := afterCounter job rest r) hfile ?_ ?_ hnew, ?_⟩
  · rw [← hworker]
    rfl
  · rw [hpc]
    exact hold
  · rw [hpc, howes]

/-- The file of a counter while the mutex is held outside of the rewriting. -/
theorem CounterAt.file_eq {s : Sys N} {i : Fin N} {c : Fin 100} {v : ℤ} (h : CounterAt s c v)
    (hlocked : s.Locked) (hheld : (s.worker i).held = some (.counter c))
    (hi : ∀ job rest len, s.worker i ≠ .counter job rest (.truncate c len)) :
    s.files c = some (numeral v) := by
  refine h.clean fun j job rest len hj => ?_
  obtain rfl := hlocked.edits_unique hheld (j := j) (by rw [hj]; rfl)
  exact hi job rest len hj

/-- **Only who holds the mutex of a counter matters**: where a counter stands after a move of that
worker follows from the file and from where the worker is then. -/
theorem CounterAt.of_holder {s t : Sys N} {i : Fin N} {pc : WorkerPc} {c : Fin 100} {v : ℤ}
    (hlocked : s.Locked) (hheld : (s.worker i).held = some (.counter c))
    (hworker : t.worker = Function.update s.worker i pc) (hfits : Fits 63 v)
    (hclean : (∀ job rest len, pc ≠ .counter job rest (.truncate c len)) →
      t.files c = some (numeral v))
    (hdirty : ∀ job rest len, pc = .counter job rest (.truncate c len) →
      len = (numeral v).length ∧ ∃ junk, t.files c = some (numeral v ++ junk))
    (hready : ∀ job rest δ val, pc = .counter job rest (.write c δ val) →
      val = v + δ ∧ Fits 63 val) : CounterAt t c v := by
  have hself : t.worker i = pc := by rw [hworker, Function.update_self]
  have halone : ∀ j, (t.worker j).edits c → j = i := by
    intro j hj
    by_contra hji
    rw [hworker, Function.update_of_ne hji] at hj
    exact hji (hlocked.edits_unique hheld hj)
  refine ⟨hfits, fun hnone => hclean fun job rest len hpc => ?_, fun j job rest len hj => ?_,
    fun j job rest δ val hj => ?_⟩
  · exact hnone i job rest len (hself.trans hpc)
  · obtain rfl := halone j (by rw [hj]; rfl)
    exact hdirty job rest len (hself.symm.trans hj)
  · obtain rfl := halone j (by rw [hj]; rfl)
    exact hready job rest δ val (hself.symm.trans hj)

/-- **A step of `update_counter` keeps the conservation law** of every counter. -/
theorem counterStep_counterAt {s t : Sys N} {i : Fin N} {job : Job} {rest : List (List Byte)}
    {cpc : CounterPc} {r : Option CounterPc} {c : Fin 100} {v : ℤ} (hlocked : s.Locked)
    (h : CounterAt s c v) (hpc : s.worker i = .counter job rest cpc)
    (hok : ∀ id δ, cpc = .read id δ → ∀ content ∈ s.files id,
      Fits 63 ((strtol (cstr content)).getD 0 + δ))
    (hstep : counterStep s i cpc = some (t, r)) :
    ∃ v', CounterAt (t.setWorker i (afterCounter job rest r)) c v' ∧
      v' + (afterCounter job rest r).owes c = v + (s.worker i).owes c := by
  cases cpc with
  | lock id δ =>
      simp only [counterStep, Option.map_eq_some_iff, lock_eq_some] at hstep
      obtain ⟨_, ⟨-, rfl⟩, heq⟩ := hstep
      obtain ⟨rfl, rfl⟩ := Prod.mk.inj heq
      exact h.other hpc rfl rfl not_false not_false rfl
  | read id δ =>
      have hheld : (s.worker i).held = some (.counter id) := by rw [hpc]; rfl
      simp only [counterStep] at hstep
      by_cases hid : id = c
      · -- nobody else can change the number between the read and the write
        subst hid
        have hfile := h.file_eq hlocked hheld fun _ _ _ hi => by rw [hpc] at hi; cases hi
        have hfits := hok id δ rfl _ hfile
        rw [read_numeral h.fits] at hfits
        rw [hfile] at hstep
        simp only [read_numeral h.fits, wrap_eq_self hfits] at hstep
        obtain ⟨rfl, rfl⟩ := Prod.mk.inj (Option.some.inj hstep)
        refine ⟨v, .of_holder hlocked hheld rfl h.fits (fun _ => hfile)
          (fun job' rest' len hpc' => ?_) fun job' rest' δ' val hpc' => ?_, by rw [hpc]; rfl⟩
        · cases hpc'
        · cases hpc'
          exact ⟨rfl, hfits⟩
      · cases hfile : s.files id with
        | none =>
            rw [hfile] at hstep
            obtain ⟨rfl, rfl⟩ := Prod.mk.inj (Option.some.inj hstep)
            refine h.other hpc rfl rfl not_false not_false ?_
            simp [afterCounter, WorkerPc.owes, CounterPc.owes, hid]
        | some content =>
            rw [hfile] at hstep
            obtain ⟨rfl, rfl⟩ := Prod.mk.inj (Option.some.inj hstep)
            exact h.other hpc rfl rfl not_false hid rfl
  | write id δ val =>
      have hheld : (s.worker i).held = some (.counter id) := by rw [hpc]; rfl
      obtain ⟨rfl, rfl⟩ := Prod.mk.inj (Option.some.inj hstep)
      by_cases hid : id = c
      · subst hid
        obtain ⟨rfl, hfits⟩ := h.ready i job rest δ val hpc
        have hfile := h.file_eq hlocked hheld fun _ _ _ hi => by rw [hpc] at hi; cases hi
        -- the new numeral stands in front of what is left of a longer old one
        refine ⟨v + δ, .of_holder hlocked hheld rfl hfits (fun hnone => ?_)
          (fun job' rest' len hpc' => ?_) fun job' rest' δ' val hpc' => ?_, ?_⟩
        · exact absurd rfl (hnone job rest (numeral (v + δ)).length)
        · cases hpc'
          refine ⟨rfl, (numeral v).drop (numeral (v + δ)).length, ?_⟩
          simp [Sys.setWorker, Sys.editFile, hfile, overwrite]
        · cases hpc'
        · rw [hpc]
          simp only [afterCounter, WorkerPc.owes, CounterPc.owes, if_pos]
          ring
      · refine h.other hpc (Function.update_of_ne (Ne.symm hid) _ _) rfl hid hid ?_
        simp [afterCounter, WorkerPc.owes, CounterPc.owes, hid]
  | truncate id len =>
      have hheld : (s.worker i).held = some (.counter id) := by rw [hpc]; rfl
      obtain ⟨rfl, rfl⟩ := Prod.mk.inj (Option.some.inj hstep)
      by_cases hid : id = c
      · subst hid
        -- what is left of the old number is cut off
        obtain ⟨rfl, junk, hfile⟩ := h.dirty i job rest len hpc
        refine ⟨v, .of_holder hlocked hheld rfl h.fits (fun _ => ?_)
          (fun job' rest' len hpc' => ?_) fun job' rest' δ' val hpc' => ?_, by rw [hpc]; rfl⟩
        · simp [Sys.setWorker, Sys.editFile, hfile]
        · cases hpc'
        · cases hpc'
      · exact h.other hpc (Function.update_of_ne (Ne.symm hid) _ _) rfl hid not_false rfl
  | unlock id =>
      obtain ⟨rfl, rfl⟩ := Prod.mk.inj (Option.some.inj hstep)
      refine h.other hpc rfl rfl not_false not_false ?_
      simp [afterCounter, WorkerPc.owes, CounterPc.owes]

/-! ## Every step keeps the conservation law -/

/-- **The conservation law of counter `c`**: the number it stands at and the debt to it make up the
net effect of all jobs of the file. -/
def Conserved (prog : List Directive) (c : Fin 100) (s : Sys N) : Prop :=
  ∃ v, CounterAt s c v ∧ v + s.debt c = ((jobsOf prog).map (jobDelta c)).sum

/-- The law is kept by a step of a worker that touches no counter file: what the worker owes stays
the same. -/
theorem Conserved.quiet {prog : List Directive} {c : Fin 100} {s s' : Sys N} {i : Fin N}
    {pc : WorkerPc} (h : Conserved prog c s) (hfile : s'.files c = s.files c)
    (hworker : s'.worker = Function.update s.worker i pc) (hqueue : s'.queue = s.queue)
    (hmain : s'.main.toSubmit = s.main.toSubmit) (hold : ¬ (s.worker i).edits c)
    (hnew : ¬ pc.edits c) (howes : pc.owes c = (s.worker i).owes c) : Conserved prog c s' := by
  obtain ⟨v, hat, hsum⟩ := h
  refine ⟨v, hat.frame_worker hfile hworker hold hnew, ?_⟩
  have hdebt := debt_of_worker c hworker hqueue hmain
  rw [howes] at hdebt
  rw [← hsum, add_right_cancel hdebt]

/-- **A step of a worker keeps the law.** -/
theorem workerStep_conserved {prog : List Directive} {c : Fin 100} {s s' : Sys N} {i : Fin N}
    {now : ℤ} (hlocked : s.Locked) (h : Conserved prog c s) (hok : NoOverflow s (.worker i now))
    (hstep : workerStep s i now = some s') : Conserved prog c s' := by
  have hto := (workerStep_submitted hstep).2
  cases workerStep_trans hstep with
  | top hpc _ | wait hpc _ _ | woken hpc _ | leave hpc _ _ | pass hpc _ | retry hpc _ | process hpc
    | lockStats hpc _ | fold hpc | lockFinish hpc _ | report hpc _ =>
      exact h.quiet rfl rfl rfl hto (by rw [hpc]; exact not_false) not_false (by rw [hpc]; rfl)
  | @take job queue hpc hqueue =>
      -- the worker takes over what the queue owed for the job
      obtain ⟨v, hat, hsum⟩ := h
      have hsums := sum_update_add (fun _ pc => WorkerPc.owes c pc) s.worker i
        (.exec job (processJob job.cmd))
      simp only [hpc, WorkerPc.owes, add_zero] at hsums
      refine ⟨v, hat.frame_worker rfl rfl (by rw [hpc]; exact not_false) not_false, ?_⟩
      rw [← hsum, Sys.debt, Sys.debt, hqueue, List.map_cons, List.sum_cons]
      simp only [Sys.setWorker, Sys.unlock, WorkerPc.owes, hsums, jobDelta]
      ring
  | call hpc =>
      refine h.quiet rfl rfl rfl rfl (by rw [hpc]; exact not_false) (fun hedit => ?_) ?_
      · have hheld := WorkerPc.held_of_edits hedit
        rw [held_startCmd] at hheld
        cases hheld
      · rw [hpc, owes_startCmd]
        simp [WorkerPc.owes]
  | @counter job rest cpc t r hpc hcounter =>
      obtain ⟨v, hat, hsum⟩ := h
      obtain ⟨v', hat', hv'⟩ := counterStep_counterAt hlocked hat hpc
        (fun id δ hread => by subst hread; simpa only [NoOverflow, hpc] using hok) hcounter
      obtain ⟨owner, files, rfl⟩ := counterStep_frame hcounter
      refine ⟨v', hat', ?_⟩
      have hdebt := debt_of_worker (s := s) (i := i) (p := afterCounter job rest r) c
        (rfl : (Sys.setWorker { s with owner := owner, files := files } i
          (afterCounter job rest r)).worker = _) rfl rfl
      rw [← hsum]
      linarith

/-- The law is kept by a step of the main thread that neither submits nor moves a worker out of an
update. -/
theorem Conserved.main_quiet {prog : List Directive} {c : Fin 100} {s s' : Sys N}
    (h : Conserved prog c s) (hfile : s'.files = s.files) (hqueue : s'.queue = s.queue)
    (hmain : s'.main.toSubmit = s.main.toSubmit)
    (hworker : ∀ i, s'.worker i = s.worker i ∨ ¬ (s.worker i).edits c ∧ ¬ (s'.worker i).edits c)
    (howes : ∀ i, (s'.worker i).owes c = (s.worker i).owes c) : Conserved prog c s' := by
  obtain ⟨v, hat, hsum⟩ := h
  refine ⟨v, hat.frame (by rw [hfile]) hworker, ?_⟩
  rw [← hsum, Sys.debt, Sys.debt, hqueue, hmain]
  simp only [howes]

/-- A woken worker was not in an update, and owes nothing before and after. -/
theorem wakeWorkers_owes (s : Sys N) (wake : Fin N → Bool) (c : Fin 100) (i : Fin N) :
    ((s.wakeWorkers wake).worker i = s.worker i ∨
      ¬ (s.worker i).edits c ∧ ¬ ((s.wakeWorkers wake).worker i).edits c) ∧
      ((s.wakeWorkers wake).worker i).owes c = (s.worker i).owes c := by
  refine ⟨?_, wakeWorkers_view (WorkerPc.owes c) rfl s wake i⟩
  obtain hi | ⟨hb, hi⟩ := wakeWorkers_worker s wake i
  · exact Or.inl hi
  · rw [hb, hi]
    exact Or.inr ⟨not_false, not_false⟩

/-- **A step of the main thread keeps the law.** -/
theorem mainStep_conserved {prog : List Directive} {c : Fin 100} {s s' : Sys N} {now : ℤ}
    {wake : Fin N → Bool} (hcontrol : s.Control) (h : Conserved prog c s)
    (hstep : mainStep s now wake = some s') : Conserved prog c s' := by
  cases mainStep_trans hstep with
  | @create k prog' hpc hk =>
      have hwas := hcontrol.not_born hpc ⟨k, hk⟩ le_rfl
      exact h.quiet (i := ⟨k, hk⟩) rfl rfl rfl (by rw [hpc]; rfl)
        (by rw [hwas]; exact not_false) not_false (by rw [hwas]; rfl)
  | created hpc _ | eof hpc | readSubmit hpc | readMsleep hpc | readWait hpc | lockSubmit hpc _
    | lockWait hpc _ | wait hpc _ | wokenWait hpc _ | pass hpc _ | join hpc _ _ | joined hpc _
    | writeStats hpc =>
      exact h.main_quiet rfl rfl (by rw [hpc]; rfl) (fun _ => Or.inl rfl) fun _ => rfl
  | @submit cmd rest hpc _ =>
      -- the queue takes over what the file owed for the job
      obtain ⟨v, hat, hsum⟩ := h
      have hwake := wakeWorkers_owes (s.unlock .queue) wake c
      have hsums : ∑ i, (((s.unlock .queue).wakeWorkers wake).worker i).owes c
          = ∑ i, (s.worker i).owes c := sum_congr rfl fun i _ => (hwake i).2
      refine ⟨v, hat.frame rfl fun i => (hwake i).1, ?_⟩
      rw [← hsum, Sys.debt, Sys.debt, hpc]
      simp only [hsums, enqueue, List.map_append, List.sum_append, List.map_nil, List.sum_nil,
        MainPc.toSubmit, List.map_cons, List.sum_cons]
      ring
  | shutDown hpc _ =>
      have hwake := wakeWorkers_owes (s.unlock .queue) (fun _ => true) c
      exact h.main_quiet rfl rfl (by rw [hpc]; rfl) (fun i => (hwake i).1) fun i => (hwake i).2

/-- **Every step keeps the law**, unless the addition overflows. -/
theorem step_conserved {prog : List Directive} {c : Fin 100} {s s' : Sys N} {a : Act N}
    (hcontrol : s.Control) (h : Conserved prog c s) (hok : NoOverflow s a)
    (hstep : step s a = some s') : Conserved prog c s' := by
  cases step_trans hstep with
  | worker => exact workerStep_conserved hcontrol.locked h hok hstep
  | main => exact mainStep_conserved hcontrol h hstep
  | spuriousWorker hpc =>
      exact h.quiet rfl rfl rfl rfl (by rw [hpc]; exact not_false) not_false (by rw [hpc]; rfl)
  | spuriousMain hpc =>
      exact h.main_quiet rfl rfl (by rw [hpc]; rfl) (fun _ => Or.inl rfl) fun _ => rfl

/-! ## The result -/

/-- The commands that `process_job` runs over all jobs of a command file. -/
def allCommands (prog : List Directive) : List (List Byte) :=
  ((jobsOf prog).map processJob).flatten

/-- The net effect of all jobs is that of all commands. -/
theorem sum_jobDelta (prog : List Directive) (c : Fin 100) :
    ((jobsOf prog).map (jobDelta c)).sum = netDelta c (allCommands prog) := by
  rw [allCommands]
  induction jobsOf prog with
  | nil => rfl
  | cons cmd jobs ih =>
      rw [List.map_cons, List.sum_cons, ih, List.map_cons, List.flatten_cons, netDelta_append]
      rfl

/-- At the start every created counter stands at zero, and everything is owed. -/
theorem init_conserved (prog : List Directive) {n : ℕ} (old : Fin 100 → Option (List Byte))
    {c : Fin 100} (hc : (c : ℕ) < n) : Conserved prog c (Sys.init N prog n old) := by
  refine ⟨0, ⟨by decide, fun _ => ?_, ?_, ?_⟩, ?_⟩
  · simp only [Sys.init, createCounters, if_pos hc]
    decide
  · simp [Sys.init]
  · simp [Sys.init]
  · simp [Sys.debt, Sys.init, WorkerPc.owes, MainPc.toSubmit]

/-- When the main thread is past its last wait, nothing is owed and the counter file is the numeral of
the net effect. -/
theorem Conserved.settled {prog : List Directive} {c : Fin 100} {s : Sys N}
    (h : Conserved prog c s) (hcontrol : s.Control) (hsound : s.pool.Sound)
    (hdone : s.done = true) :
    s.files c = some (numeral (netDelta c (allCommands prog))) := by
  obtain ⟨v, hat, hsum⟩ := h
  obtain ⟨hqueue, hload⟩ := hsound.drained (hcontrol.drained hdone)
  have hidle : ∀ i, (s.worker i).owes c = 0 ∧ ¬ (s.worker i).edits c := by
    intro i
    have hi := hload i
    rw [pool_phase] at hi
    cases hpc : s.worker i with
    | exec | counter =>
        rw [hpc] at hi
        cases hi
    | _ => exact ⟨rfl, not_false⟩
  have hdebt : s.debt c = 0 := by
    rw [Sys.debt, sum_eq_zero fun i _ => (hidle i).1, show s.queue = [] from hqueue,
      MainPc.toSubmit_of_shutDown (hcontrol.shut.symm.trans hdone)]
    rfl
  rw [hdebt, add_zero, sum_jobDelta] at hsum
  rw [← hsum]
  refine hat.clean fun i job rest len hi => (hidle i).2 ?_
  rw [hi]
  rfl

/-- **Counters lose no update and do not depend on the schedule.** In every run without overflow, for
any number of workers, when the main thread reaches `write_stats` each created counter file is the
numeral of the increments minus the decrements that name the counter; so two runs of one command file
end with the same counter files. -/
theorem counters_final {prog : List Directive} {n : ℕ} {old : Fin 100 → Option (List Byte)}
    {as : List (Act N)} {s : Sys N} {c : Fin 100} (hc : (c : ℕ) < n)
    (h : run step (Sys.init N prog n old) as = some s)
    (hok : EveryStep step NoOverflow (Sys.init N prog n old) as) (hmain : s.main = .writeStats) :
    s.files c = some (numeral ((allCommands prog).countP (isIncrement c)
        - (allCommands prog).countP (isDecrement c))) ∧
      ∀ (M : ℕ) (old' : Fin 100 → Option (List Byte)) (bs : List (Act M)) (s' : Sys M),
        run step (Sys.init M prog n old') bs = some s' →
        EveryStep step NoOverflow (Sys.init M prog n old') bs → s'.main = .writeStats →
        s'.files c = s.files c := by
  have hfinal : ∀ (M : ℕ) (old : Fin 100 → Option (List Byte)) (bs : List (Act M)) (s : Sys M),
      run step (Sys.init M prog n old) bs = some s →
      EveryStep step NoOverflow (Sys.init M prog n old) bs → s.main = .writeStats →
      s.files c = some (numeral ((allCommands prog).countP (isIncrement c)
        - (allCommands prog).countP (isDecrement c))) := by
    intro M old bs s h hok hmain
    obtain ⟨hcontrol, hsound⟩ := reachable_control h
    have hinv := guarded_invariant
      (I := fun s : Sys M => (s.Control ∧ s.pool.Sound) ∧ Conserved prog c s)
      ⟨⟨init_control prog n old, init_sound prog n old⟩, init_conserved prog old hc⟩
      (fun _ _ _ hI hok hstep => ⟨⟨step_control hI.1.1 hI.1.2 hstep,
        hI.1.2.step (step_pool hI.1.1 hstep)⟩, step_conserved hI.1.1 hI.2 hok hstep⟩) hok h
    have hdone : s.done = true := by
      rw [hcontrol.shut, hmain]
      rfl
    rw [hinv.2.settled hcontrol hsound hdone, netDelta_eq_count]
  refine ⟨hfinal N old as s h hok hmain, fun M old' bs s' h' hok' hmain' => ?_⟩
  rw [hfinal M old' bs s' h' hok' hmain', hfinal N old as s h hok hmain]

/-- Two jobs that count down. -/
def decrementFile : List Directive := processCommands (lit "worker decrement 0\nworker decrement 0\n")

theorem counters_final_joinedRun :
    ∃ s, run step (Sys.init 2 decrementFile 1 fun _ => none) (joinedRun 0 1 7 4) = some s ∧
      s.files 0 = some (numeral (-2)) := by
  have heval : ((run step (Sys.init 2 decrementFile 1 fun _ => none) (joinedRun 0 1 7 4)).map
      Sys.main) = some .writeStats := by
    decide +kernel
  obtain ⟨s, hs, hmain⟩ := Option.map_eq_some_iff.mp heval
  have hfinal := (counters_final (c := 0) (by decide) hs (by decide +kernel) hmain).1
  have hcount : ((allCommands decrementFile).countP (isIncrement 0)
      - (allCommands decrementFile).countP (isDecrement 0) : ℤ) = -2 := by
    decide +kernel
  rw [hcount] at hfinal
  exact ⟨s, hs, hfinal⟩

end StudiesOS.JobDispatcher
