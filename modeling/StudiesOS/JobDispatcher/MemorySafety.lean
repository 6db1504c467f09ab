import StudiesOS.JobDispatcher.Blocks

/-! # Memory safety of the program
No run of the program, whatever the schedule and whatever addresses `malloc` returns, has an invalid
access or a double `free`; its runs are those of the program on the list of jobs, so that all that is
known of these holds of the pointers; and when it ends everything has been freed. -/

namespace StudiesOS.JobDispatcher

open Finset

variable {N : ℕ} {α : Type}

/-- **The invariant**: the queue is the list `l` of `Job`s, worker `i` owns the blocks `own i`, and
everything allocated belongs to the queue or to a worker. -/
structure MemSys.Tidy (s : MemSys N α) (l : List (Node α)) (own : Fin N → Multiset α) : Prop where
  /-- There has been no invalid access. -/
  sound : s.fault = false
  /-- The pointers of the queue. -/
  queued : Queued s.block s.head s.tail l
  /-- The jobs of the queue. -/
  queue : l.map Node.job = s.sys.queue
  /-- What the workers hold. -/
  holds : ∀ i, Holds s.block (s.sys.worker i) (s.held i) (own i)
  /-- Every block has one owner. -/
  owned : Owned s.block ((l.map Node.blocks).sum + ∑ i, own i)

variable {s s' : MemSys N α} {l : List (Node α)} {own own' : Fin N → Multiset α} {i : Fin N}

/-! ## The owners -/

/-- The blocks of the queue. -/
theorem mem_blocks {a : α} : a ∈ (l.map Node.blocks).sum ↔ ∃ n ∈ l, a = n.text ∨ a = n.addr := by
  induction l with
  | nil => simp
  | cons n l ih =>
      rw [List.map_cons, List.sum_cons, Multiset.mem_add, ih]
      simp [Node.blocks]

/-- The blocks of a worker are among those of the workers. -/
theorem mem_own {a : α} (ha : a ∈ own i) : a ∈ ∑ i, own i :=
  Multiset.mem_sum.mpr ⟨i, mem_univ i, ha⟩

/-- **A worker gives away** some of its blocks. -/
theorem sum_own_add {o : Multiset α} (m : Multiset α) (h : own i = m + o) :
    m + ∑ k, Function.update own i o k = ∑ k, own k := by
  have hsum := sum_update_add (fun (_ : Fin N) (o : Multiset α) => o) own i o
  rw [h, ← add_assoc] at hsum
  rw [add_comm]
  exact add_right_cancel hsum

/-- **A worker without blocks takes** some. -/
theorem sum_own_of_zero (o : Multiset α) (h : own i = 0) :
    ∑ k, Function.update own i o k = ∑ k, own k + o := by
  have hsum := sum_update_add (fun (_ : Fin N) (o : Multiset α) => o) own i o
  rwa [h, add_zero] at hsum

/-- A step of a worker that neither takes nor reports a job. -/
theorem workerStep_job {s s' : Sys N} {now : ℤ} (hstep : workerStep s i now = some s')
    (hgrab : s.worker i ≠ .grab) (hfinish : ∀ job, s.worker i ≠ .finish job) : s'.queue = s.queue ∧
      ∃ pc, s'.worker = Function.update s.worker i pc ∧ pc.job = (s.worker i).job := by
  cases workerStep_trans hstep with
  | take hpc => exact absurd hpc hgrab
  | retry hpc => exact absurd hpc hgrab
  | report hpc => exact absurd hpc (hfinish _)
  | top hpc | wait hpc | woken hpc | leave hpc | pass hpc | process hpc | lockStats hpc | fold hpc
  | lockFinish hpc => exact ⟨rfl, _, rfl, by rw [hpc]; rfl⟩
  | @call job cmd rest hpc =>
      refine ⟨rfl, _, rfl, ?_⟩
      obtain ⟨id, δ, heq⟩ | heq := startCmd_eq job cmd rest <;> rw [heq, hpc] <;> rfl
  | @counter job rest cpc t r hpc hcounter =>
      obtain ⟨owner, files, rfl⟩ := counterStep_frame hcounter
      refine ⟨rfl, _, rfl, ?_⟩
      rw [hpc]
      cases r <;> rfl

namespace MemSys

/-! ## Steps that leave the memory alone -/

/-- **The threads go on** with the jobs that they have, and the queue stays. -/
theorem Tidy.move (h : s.Tidy l own) {sys : Sys N} (hqueue : sys.queue = s.sys.queue)
    (hjob : ∀ k, (sys.worker k).job = (s.sys.worker k).job)
    (htop : ∀ k, s.sys.worker k = .top → sys.worker k = .top ∨ s.held k = .nothing) :
    Tidy { s with sys := sys } l own :=
  ⟨h.sound, h.queued, h.queue.trans hqueue.symm, fun k => (h.holds k).move (hjob k) (htop k), h.owned⟩

/-- Worker `i` goes on with the job that it has. -/
theorem Tidy.worker_move (h : s.Tidy l own) {sys : Sys N} {pc : WorkerPc}
    (hqueue : sys.queue = s.sys.queue) (hworker : sys.worker = Function.update s.sys.worker i pc)
    (hjob : pc.job = (s.sys.worker i).job) (htop : s.sys.worker i = .top → s.held i = .nothing) :
    Tidy { s with sys := sys } l own := by
  refine h.move hqueue (fun k => ?_) (fun k hk => ?_) <;> rw [hworker]
  · exact update_view WorkerPc.job hjob k
  · by_cases hki : k = i
    · rw [hki] at hk ⊢
      exact Or.inr (htop hk)
    · rw [Function.update_of_ne hki]
      exact Or.inl hk

/-- The main thread goes on, and wakes workers. -/
theorem Tidy.main_move (h : s.Tidy l own) {sys : Sys N} (hqueue : sys.queue = s.sys.queue)
    (hworker : sys.worker = s.sys.worker ∨ ∃ wake, sys.worker = (s.sys.wakeWorkers wake).worker) :
    Tidy { s with sys := sys } l own := by
  rcases hworker with hworker | ⟨wake, hworker⟩
  · refine h.move hqueue (fun k => ?_) (fun k hk => ?_) <;> rw [hworker]
    exact Or.inl hk
  · refine h.move hqueue (fun k => ?_) (fun k hk => Or.inl ?_) <;> rw [hworker]
    · exact wakeWorkers_view WorkerPc.job rfl s.sys wake k
    · exact (wakeWorkers_iff (by simp) (by simp)).mpr hk

/-- `queue_head` is `NULL` when there is no job. -/
theorem Tidy.head_eq_none_iff (h : s.Tidy l own) : s.head = none ↔ s.sys.queue = [] := by
  rw [h.queued.head_eq_none_iff, ← h.queue, List.map_eq_nil_iff]

/-! ## Steps of a worker -/

variable [DecidableEq α] {now : ℤ}

/-- **A worker frees** a block of its own. -/
theorem Tidy.free (h : s.Tidy l own) {a : α} {o : Multiset α} (hown : own i = a ::ₘ o) {held : Held α}
    (hholds : Holds (Function.update s.block a none) (s.sys.worker i) held o) :
    Tidy { s with block := Function.update s.block a none, held := Function.update s.held i held } l
      (Function.update own i o) := by
  have howned : Owned s.block
      (a ::ₘ ((l.map Node.blocks).sum + ∑ k, Function.update own i o k)) := by
    have hsum := sum_own_add {a} (hown.trans (Multiset.singleton_add a o).symm)
    rw [← Multiset.singleton_add, add_left_comm, hsum]
    exact h.owned
  -- what others own is another block
  have hframe : ∀ b, b ∈ (l.map Node.blocks).sum + ∑ k, Function.update own i o k →
      Function.update s.block a none b = s.block b := by
    intro b hb
    refine Function.update_of_ne ?_ _ _
    rintro rfl
    exact (Multiset.nodup_cons.mp howned.nodup).1 hb
  refine ⟨h.sound, h.queued.congr fun n hn => ⟨?_, ?_⟩, h.queue, fun k => ?_, howned.free⟩
  · exact hframe n.addr (Multiset.mem_add.mpr (Or.inl (mem_blocks.mpr ⟨n, hn, Or.inr rfl⟩)))
  · exact hframe n.text (Multiset.mem_add.mpr (Or.inl (mem_blocks.mpr ⟨n, hn, Or.inl rfl⟩)))
  · show Holds (Function.update s.block a none) (s.sys.worker k) (Function.update s.held i held k) _
    by_cases hki : k = i
    · rw [hki, Function.update_self, Function.update_self]
      exact hholds
    · rw [Function.update_of_ne hki, Function.update_of_ne hki]
      refine (h.holds k).congr fun b hb => hframe b (Multiset.mem_add.mpr (Or.inr ?_))
      refine mem_own (i := k) ?_
      rwa [Function.update_of_ne hki]

/-- **`free(job->cmd)`** frees the text of the worker's job. -/
theorem Tidy.freeText (h : s.Tidy l own) (now : ℤ) {j : α} (hpc : s.sys.worker i = .top)
    (hheld : s.held i = .reported j) : ∃ s' own', s.workerStep i now = some s' ∧ s'.sys = s.sys ∧
      s'.held i = .emptied j ∧ s'.Tidy l own' := by
  have hholds := h.holds i
  rw [hpc, hheld] at hholds
  generalize hown : own i = o at hholds
  cases hholds with
  | @reported j x submitTime next seq text hj hx =>
      have hjx : j ≠ x := by
        rintro rfl
        cases hj.symm.trans hx
      have hread : s.readJob j = some (x, submitTime, next, seq) := by rw [readJob, hj]
      have hfree : s.free x = some { s with block := Function.update s.block x none } := by
        rw [MemSys.free, hx]
        rfl
      have hemptied : Holds (Function.update s.block x none) (s.sys.worker i) (.emptied j) {j} := by
        rw [hpc]
        refine .emptied ?_
        rw [Function.update_of_ne hjx, hj]
        exact Option.some_ne_none _
      refine ⟨_, _, ?_, ?_, ?_, h.free hown hemptied⟩
      · simp only [MemSys.workerStep, hpc, hheld, hread, hfree, Option.bind_some, Option.map_some,
          orFault, Option.getD_some]
      · rfl
      · exact Function.update_self _ _ _

/-- **`free(job)`** frees the `Job`. -/
theorem Tidy.freeJob (h : s.Tidy l own) (now : ℤ) {j : α} (hpc : s.sys.worker i = .top)
    (hheld : s.held i = .emptied j) : ∃ s' own', s.workerStep i now = some s' ∧ s'.sys = s.sys ∧
      s'.held i = .nothing ∧ s'.Tidy l own' := by
  have hholds := h.holds i
  rw [hpc, hheld] at hholds
  generalize hown : own i = o at hholds
  cases hholds with
  | emptied hj =>
      obtain ⟨b, hb⟩ := Option.ne_none_iff_exists'.mp hj
      have hfree : s.free j = some { s with block := Function.update s.block j none } := by
        rw [MemSys.free, hb]
        rfl
      have hnothing : Holds (Function.update s.block j none) (s.sys.worker i) .nothing 0 := by
        rw [hpc]
        exact .nothing rfl
      refine ⟨_, _, ?_, ?_, ?_, h.free (o := 0) (hown.trans (Multiset.cons_zero j).symm) hnothing⟩
      · simp only [MemSys.workerStep, hpc, hheld, hfree, Option.map_some, orFault, Option.getD_some]
      · rfl
      · exact Function.update_self _ _ _

/-- **What a step of worker `i` comes to** when it has nothing to free: it is the step of the program on
the list of jobs, and the invariant is kept. -/
structure Follows (s : MemSys N α) (r : Option (MemSys N α)) (q : Option (Sys N))
    (f : Sys N → MemSys N α) : Prop where
  /-- The step is enabled when that one is. -/
  eq : r = q.map f
  /-- It leads to the same state of the threads. -/
  sys : ∀ sys, q = some sys → (f sys).sys = sys
  /-- The invariant is kept. -/
  tidy : ∀ sys, q = some sys → ∃ l own, (f sys).Tidy l own

/-- **The memory is not touched.** -/
theorem Tidy.follows_quiet (h : s.Tidy l own)
    (heq : s.workerStep i now = (JobDispatcher.workerStep s.sys i now).map fun sys => { s with sys := sys })
    (hgrab : s.sys.worker i ≠ .grab) (hfinish : ∀ job, s.sys.worker i ≠ .finish job)
    (htop : s.sys.worker i = .top → s.held i = .nothing) :
    ∃ f, Follows s (s.workerStep i now) (JobDispatcher.workerStep s.sys i now) f := by
  refine ⟨_, heq, fun sys _ => rfl, fun sys hsys => ⟨l, own, ?_⟩⟩
  obtain ⟨hqueue, pc, hworker, hjob⟩ := workerStep_job hsys hgrab hfinish
  exact h.worker_move hqueue hworker hjob htop

/-- **A worker at the `while` of the condition wait** sees whether there is a job. -/
theorem Tidy.follows_test (h : s.Tidy l own) (hpc : s.sys.worker i = .test) :
    ∃ f, Follows s (s.workerStep i now) (JobDispatcher.workerStep s.sys i now) f := by
  have hhead := h.head_eq_none_iff
  refine h.follows_quiet ?_ (by simp [hpc]) (by simp [hpc]) (by simp [hpc])
  simp only [MemSys.workerStep, JobDispatcher.workerStep, hpc, hhead]
  split_ifs <;> rfl

omit [DecidableEq α] in
/-- What the worker reads through the pointer is its job. -/
theorem load_of_held {j x : α} {job : Job} {next : Option α}
    (hj : s.block j = some (.job x job.submitTime next job.seq)) (hx : s.block x = some (.text job.cmd)) :
    s.load j = some job := by
  rw [load, readJob, hj, Option.bind_some, readText, hx]
  rfl

/-- **A worker that has processed its job** reads the job that it has taken. -/
theorem Tidy.follows_process (h : s.Tidy l own) {job : Job} (hpc : s.sys.worker i = .exec job []) :
    ∃ f, Follows s (s.workerStep i now) (JobDispatcher.workerStep s.sys i now) f := by
  obtain ⟨j, x, next, hheld, -, hj, hx⟩ := (h.holds i).of_job (by rw [hpc]; rfl)
  refine h.follows_quiet ?_ (by simp [hpc]) (by simp [hpc]) (by simp [hpc])
  simp only [MemSys.workerStep, JobDispatcher.workerStep, hpc, hheld, load_of_held hj hx,
    Option.map_some, orFault, Option.getD_some]

/-- **A worker that reports its job** keeps the pointer for the two calls of `free`. -/
theorem Tidy.follows_report (h : s.Tidy l own) {job : Job} (hpc : s.sys.worker i = .finish job) :
    ∃ f, Follows s (s.workerStep i now) (JobDispatcher.workerStep s.sys i now) f := by
  obtain ⟨j, x, next, hheld, hown, hj, hx⟩ := (h.holds i).of_job (by rw [hpc]; rfl)
  refine ⟨fun sys => { s with sys := sys, held := Function.update s.held i (.reported j) }, ?_,
    fun sys _ => rfl, fun sys hsys => ⟨l, own, ?_⟩⟩
  · simp only [MemSys.workerStep, hpc, hheld]
  · have htop : sys.queue = s.sys.queue ∧ sys.worker = Function.update s.sys.worker i .top := by
      cases workerStep_trans hsys with
      | report => exact ⟨rfl, rfl⟩
      | top hpc' | wait hpc' | woken hpc' | leave hpc' | pass hpc' | retry hpc' | take hpc' | call hpc'
      | counter hpc' | process hpc' | lockStats hpc' | fold hpc' | lockFinish hpc' =>
          cases hpc.symm.trans hpc'
    refine ⟨h.sound, h.queued, h.queue.trans htop.1.symm, fun k => ?_, h.owned⟩
    show Holds s.block (sys.worker k) (Function.update s.held i (.reported j) k) (own k)
    rw [htop.2]
    by_cases hki : k = i
    · rw [hki, Function.update_self, Function.update_self, hown]
      exact .reported hj hx
    · rw [Function.update_of_ne hki, Function.update_of_ne hki]
      exact h.holds k

/-- **`dequeue`** gives the worker the first job of the queue. -/
theorem Tidy.follows_take (h : s.Tidy l own) (hpc : s.sys.worker i = .grab)
    (hqueue : s.sys.queue ≠ []) :
    ∃ f, Follows s (s.workerStep i now) (JobDispatcher.workerStep s.sys i now) f := by
  obtain ⟨hheld, hown⟩ := (h.holds i).eq_nothing (by rw [hpc]; rfl) (by simp [hpc])
  cases l with
  | nil => exact absurd h.queue.symm hqueue
  | cons n l =>
      have hjobs : s.sys.queue = n.job :: l.map Node.job := h.queue.symm
      obtain ⟨head, tail, hdequeue, hqueued⟩ := h.queued.dequeue
      obtain ⟨next, hj⟩ := h.queued.job List.mem_cons_self
      have hx := h.queued.texts n List.mem_cons_self
      have hload : load { s with head := head, tail := tail } n.addr = some n.job := load_of_held hj hx
      refine ⟨fun sys => { s with
        sys := sys, head := head, tail := tail, held := Function.update s.held i (.job n.addr) }, ?_,
        fun sys _ => rfl, fun sys hsys => ⟨l, Function.update own i n.blocks, ?_⟩⟩
      · simp only [MemSys.workerStep, JobDispatcher.workerStep, hpc, hjobs, JobDispatcher.dequeue,
          hdequeue, Option.bind_some, grabbed, hload, Option.map_some, orFault, Option.getD_some,
          List.tail_cons]
      · simp only [JobDispatcher.workerStep, hpc, hjobs, JobDispatcher.dequeue, Option.some.injEq] at hsys
        subst hsys
        refine ⟨h.sound, hqueued, rfl, fun k => ?_, ?_⟩
        · show Holds s.block (Function.update s.sys.worker i _ k)
            (Function.update s.held i (.job n.addr) k) (Function.update own i n.blocks k)
          by_cases hki : k = i
          · rw [hki, Function.update_self, Function.update_self, Function.update_self]
            exact .job rfl hj hx
          · rw [Function.update_of_ne hki, Function.update_of_ne hki, Function.update_of_ne hki]
            exact h.holds k
        · -- the blocks of the job change hands
          have howned := h.owned
          rw [List.map_cons, List.sum_cons] at howned
          rw [sum_own_of_zero n.blocks hown, add_comm (∑ k, own k), ← add_assoc,
            add_comm (List.sum _)]
          exact howned

/-- **Every step of a worker** that has nothing to free. -/
theorem Tidy.follows_worker (h : s.Tidy l own) (hc : s.sys.Control)
    (htop : s.sys.worker i = .top → s.held i = .nothing) :
    ∃ f, Follows s (s.workerStep i now) (JobDispatcher.workerStep s.sys i now) f := by
  cases hpc : s.sys.worker i with
  | test => exact h.follows_test hpc
  | grab => exact h.follows_take hpc (hc.grab i hpc)
  | finish job => exact h.follows_report hpc
  | exec job rest =>
      cases rest with
      | nil => exact h.follows_process hpc
      | cons cmd rest =>
          refine h.follows_quiet ?_ (by simp [hpc]) (by simp [hpc]) (by simp [hpc])
          simp only [MemSys.workerStep, hpc]
  | top =>
      refine h.follows_quiet ?_ (by simp [hpc]) (by simp [hpc]) htop
      simp only [MemSys.workerStep, hpc, htop hpc]
  | unborn | blocked | woken | counter | lockStats | foldStats | lockFinish | exited =>
      refine h.follows_quiet ?_ (by simp [hpc]) (by simp [hpc]) (by simp [hpc])
      simp only [MemSys.workerStep, hpc]

/-! ## Steps of the main thread -/

variable {wake : Fin N → Bool} {x j : α}

/-- **The main thread does not touch the memory**, but to enqueue. -/
theorem Tidy.follows_quiet_main (h : s.Tidy l own) (hc : s.sys.Control)
    (hsubmit : ∀ cmd rest, s.sys.main ≠ .submit cmd rest) :
    ∃ f, Follows s (s.mainStep now wake x j) (JobDispatcher.mainStep s.sys now wake) f := by
  have heq : s.mainStep now wake x j
      = (JobDispatcher.mainStep s.sys now wake).map fun sys => { s with sys := sys } := by
    cases hpc : s.sys.main with
    | submit cmd rest => exact absurd hpc (hsubmit cmd rest)
    | create | read | lockSubmit | lockWait | testWait | blockedWait | wokenWait | join | writeStats
    | finished => simp only [MemSys.mainStep, hpc]
  refine ⟨_, heq, fun sys _ => rfl, fun sys hsys => ⟨l, own, ?_⟩⟩
  cases mainStep_trans hsys with
  | submit hpc => exact absurd hpc (hsubmit _ _)
  | @create k prog hpc hk =>
      -- the new worker holds nothing yet
      have hunborn := hc.not_born hpc ⟨k, hk⟩ le_rfl
      exact h.worker_move rfl rfl (by rw [hunborn]; rfl) fun htop => by cases hunborn.symm.trans htop
  | shutDown hpc => exact h.main_move rfl (Or.inr ⟨fun _ => true, rfl⟩)
  | created | eof | readSubmit | readMsleep | readWait | lockSubmit | lockWait | wait | wokenWait
  | pass | join | joined | writeStats => exact h.main_move rfl (Or.inl rfl)

/-- **The main thread enqueues a job.** -/
theorem Tidy.follows_submit (h : s.Tidy l own) {cmd : List Byte} {rest : List Directive}
    (hpc : s.sys.main = .submit cmd rest) (hx : s.block x = none) (hj : s.block j = none)
    (hxj : x ≠ j) :
    ∃ f, Follows s (s.mainStep now wake x j) (JobDispatcher.mainStep s.sys now wake) f := by
  obtain ⟨block, head, henqueue, hqueued, hframe, howned⟩ :=
    h.queued.enqueue hx hj hxj ⟨cmd, now, s.sys.submitted.length⟩
  refine ⟨fun sys => { s with sys := sys, block := block, head := head, tail := some j }, ?_,
    fun sys _ => rfl, fun sys hsys => ?_⟩
  · simp only [MemSys.mainStep, hpc]
    rw [if_pos ⟨hx, hj, hxj⟩]
    simp only [henqueue, Option.map_some, orFault, Option.getD_some]
  · refine ⟨l ++ [⟨j, x, ⟨cmd, now, s.sys.submitted.length⟩⟩], own, ?_⟩
    cases mainStep_trans hsys with
    | submit hpc' =>
        cases hpc.symm.trans hpc'
        refine ⟨h.sound, hqueued, ?_, fun k => ?_, ?_⟩
        · show List.map Node.job _ = JobDispatcher.enqueue s.sys.queue _
          rw [List.map_append, h.queue]
          rfl
        · have hsame : ∀ a ∈ own k, block a = s.block a := by
            intro a ha
            have hallocated := h.owned.ne_none (Multiset.mem_add.mpr (Or.inr (mem_own ha)))
            refine hframe a (ne_of_allocated hallocated hx) (ne_of_allocated hallocated hj) ?_
            rintro n hn rfl
            exact h.owned.ne_of_mem (mem_blocks.mpr ⟨n, hn, Or.inr rfl⟩) (mem_own ha) rfl
          refine ((h.holds k).congr hsame).move ?_ fun htop => Or.inl ?_
          · exact wakeWorkers_view WorkerPc.job rfl (s.sys.unlock .queue) wake k
          · exact (wakeWorkers_iff (by simp) (by simp)).mpr htop
        · have hall := howned _ h.owned fun n hn =>
            Multiset.mem_add.mpr (Or.inl (mem_blocks.mpr ⟨n, hn, Or.inr rfl⟩))
          have hsum : j ::ₘ x ::ₘ ((l.map Node.blocks).sum + ∑ k, own k)
              = (l.map Node.blocks).sum + (x ::ₘ {j}) + ∑ k, own k := by
            simp only [← Multiset.singleton_add]
            ac_rfl
          rw [List.map_append, List.sum_append, List.map_singleton, List.sum_singleton]
          exact hsum ▸ hall
    | create hpc' | created hpc' | eof hpc' | readSubmit hpc' | readMsleep hpc' | readWait hpc'
    | lockSubmit hpc' | lockWait hpc' | wait hpc' | wokenWait hpc' | pass hpc' | shutDown hpc'
    | join hpc' | joined hpc' | writeStats hpc' => cases hpc.symm.trans hpc'

/-! ## Steps -/

variable {a : Act N}

/-- **Every step is one of the program on the list of jobs**, or a call of `free`, and keeps the
invariant. -/
theorem Tidy.step (h : s.Tidy l own) (hc : s.sys.Control) (hstep : s.step (a, x, j) = some s') :
    (s'.sys = s.sys ∨ JobDispatcher.step s.sys a = some s'.sys) ∧ ∃ l own, s'.Tidy l own := by
  have hfollows : ∀ {q : Option (Sys N)} {f : Sys N → MemSys N α}, Follows s (some s') q f →
      q = some s'.sys ∧ ∃ l own, s'.Tidy l own := by
    intro q f hf
    obtain ⟨sys, hsys, rfl⟩ := Option.map_eq_some_iff.mp hf.eq.symm
    rw [hf.sys sys hsys]
    exact ⟨hsys, hf.tidy sys hsys⟩
  unfold MemSys.step at hstep
  rw [if_neg (by simp [h.sound])] at hstep
  cases a with
  | worker i now =>
      have hstep : s.workerStep i now = some s' := hstep
      have hgo : (s.sys.worker i = .top → s.held i = .nothing) →
          (s'.sys = s.sys ∨ JobDispatcher.step s.sys (.worker i now) = some s'.sys) ∧
            ∃ l own, s'.Tidy l own := by
        intro htop
        obtain ⟨f, hf⟩ : ∃ f, Follows s (s.workerStep i now)
            (JobDispatcher.workerStep s.sys i now) f := h.follows_worker hc htop
        rw [hstep] at hf
        exact ⟨Or.inr (hfollows hf).1, (hfollows hf).2⟩
      -- at the top of the loop there may be something to free
      by_cases htop : s.sys.worker i = .top
      · cases hheld : s.held i with
        | nothing => exact hgo fun _ => hheld
        | job k =>
            have hholds := h.holds i
            rw [htop, hheld] at hholds
            exact absurd rfl hholds.job_ne_none
        | reported k =>
            obtain ⟨t, own', ht, hsys, -, htidy⟩ := h.freeText now htop hheld
            obtain rfl := Option.some.inj (ht.symm.trans hstep)
            exact ⟨Or.inl hsys, l, own', htidy⟩
        | emptied k =>
            obtain ⟨t, own', ht, hsys, -, htidy⟩ := h.freeJob now htop hheld
            obtain rfl := Option.some.inj (ht.symm.trans hstep)
            exact ⟨Or.inl hsys, l, own', htidy⟩
      · exact hgo fun htop' => absurd htop' htop
  | main now wake =>
      have hstep : s.mainStep now wake x j = some s' := hstep
      by_cases hsubmit : ∃ cmd rest, s.sys.main = .submit cmd rest
      · obtain ⟨cmd, rest, hpc⟩ := hsubmit
        have hfresh : s.block x = none ∧ s.block j = none ∧ x ≠ j := by
          simp only [MemSys.mainStep, hpc] at hstep
          split_ifs at hstep with hfresh
          exact hfresh
        obtain ⟨f, hf⟩ : ∃ f, Follows s (s.mainStep now wake x j)
            (JobDispatcher.mainStep s.sys now wake) f :=
          h.follows_submit hpc hfresh.1 hfresh.2.1 hfresh.2.2
        rw [hstep] at hf
        exact ⟨Or.inr (hfollows hf).1, (hfollows hf).2⟩
      · obtain ⟨f, hf⟩ : ∃ f, Follows s (s.mainStep now wake x j)
            (JobDispatcher.mainStep s.sys now wake) f :=
          h.follows_quiet_main hc fun cmd rest hpc => hsubmit ⟨cmd, rest, hpc⟩
        rw [hstep] at hf
        exact ⟨Or.inr (hfollows hf).1, (hfollows hf).2⟩
  | spuriousWorker i =>
      obtain ⟨sys, hsys, rfl⟩ := Option.map_eq_some_iff.mp hstep
      refine ⟨Or.inr hsys, l, own, ?_⟩
      cases step_trans hsys with
      | spuriousWorker hpc =>
          exact h.worker_move rfl rfl (by rw [hpc]; rfl) fun htop => by cases hpc.symm.trans htop
  | spuriousMain =>
      obtain ⟨sys, hsys, rfl⟩ := Option.map_eq_some_iff.mp hstep
      refine ⟨Or.inr hsys, l, own, ?_⟩
      cases step_trans hsys with
      | spuriousMain hpc => exact h.main_move rfl (Or.inl rfl)

/-! ## Runs -/

section Runs

variable {prog : List Directive} {n : ℕ} {old : Fin 100 → Option (List Byte)}

omit [DecidableEq α] in
/-- At the start nothing is allocated. -/
theorem tidy_init : (init N α prog n old).Tidy [] fun _ => 0 := by
  refine ⟨rfl, ⟨rfl, rfl, fun m hm => absurd hm List.not_mem_nil⟩, rfl, fun i => .nothing rfl, ?_⟩
  rw [List.map_nil, List.sum_nil, sum_const_zero, add_zero]
  exact .empty

/-- **Every run is one of the program on the list of jobs**, with calls of `free` in between. -/
theorem tidy_of_run {as : List (Act N × α × α)}
    (h : run MemSys.step (init N α prog n old) as = some s) :
    (∃ bs, bs.Sublist (as.map Prod.fst) ∧
      run JobDispatcher.step (Sys.init N prog n old) bs = some s.sys) ∧ ∃ l own, s.Tidy l own := by
  refine run_induction (motive := fun as s => (∃ bs, bs.Sublist (as.map Prod.fst) ∧
    run JobDispatcher.step (Sys.init N prog n old) bs = some s.sys) ∧ ∃ l own, Tidy s l own) ?_ ?_ h
  · exact ⟨⟨[], List.Sublist.refl _, rfl⟩, [], _, tidy_init⟩
  · rintro as s ⟨a, x, j⟩ s' - ⟨⟨bs, hbs, hrun⟩, l, own, htidy⟩ hstep
    obtain ⟨hsys, htidy'⟩ := htidy.step (reachable_control hrun).1 hstep
    refine ⟨?_, htidy'⟩
    rw [List.map_append]
    rcases hsys with hsame | hnext
    · rw [hsame]
      exact ⟨bs, hbs.trans (List.sublist_append_left _ _), hrun⟩
    · exact ⟨bs ++ [a], hbs.append (List.Sublist.refl _), run_snoc.mpr ⟨s.sys, hrun, hnext⟩⟩

omit [DecidableEq α] in
/-- The number of blocks of the queue. -/
theorem card_blocks (l : List (Node α)) : (l.map Node.blocks).sum.card = 2 * l.length := by
  induction l with
  | nil => rfl
  | cons n l ih =>
      rw [List.map_cons, List.sum_cons, Multiset.card_add, ih, List.length_cons, Node.blocks]
      simp
      omega

omit [DecidableEq α] in
/-- **There are few blocks.** -/
theorem Tidy.card_le (h : s.Tidy l own) (t : Finset α) (ht : ∀ a ∈ t, s.block a ≠ none) :
    t.card ≤ 2 * (s.sys.queue.length + N) := by
  have hle : t.val ≤ (l.map Node.blocks).sum + ∑ i, own i :=
    (Multiset.le_iff_subset t.nodup).mpr fun a ha => (h.owned.allocated a).mp (ht a ha)
  have hown : ∑ i, (own i).card ≤ 2 * N := by
    calc ∑ i, (own i).card ≤ ∑ _i : Fin N, 2 := sum_le_sum fun i _ => (h.holds i).card_le
      _ = 2 * N := by simp [mul_comm]
  have hcard := Multiset.card_le_card hle
  rw [Multiset.card_add, card_blocks, Multiset.card_sum] at hcard
  have hlength : s.sys.queue.length = l.length := by rw [← h.queue, List.length_map]
  rw [hlength]
  calc t.card ≤ 2 * l.length + ∑ i, (own i).card := hcard
    _ ≤ 2 * (l.length + N) := by omega

omit [DecidableEq α] in
/-- **At the end everything has been freed**: the queue is empty, and who has left its loop holds
nothing. -/
theorem Tidy.block_eq_none (h : s.Tidy l own) (hc : s.sys.Control) (hsound : s.sys.pool.Sound)
    (hmain : s.sys.main = .writeStats ∨ s.sys.main = .finished) (a : α) : s.block a = none := by
  have hdone : s.sys.done = true := by
    rw [hc.shut]
    rcases hmain with hmain | hmain <;> rw [hmain] <;> rfl
  have hempty : s.sys.queue = [] := (hsound.drained (hc.drained hdone)).1
  have hl : l = [] := List.map_eq_nil_iff.mp (h.queue.trans hempty)
  have hown : ∀ i, own i = 0 := by
    intro i
    have hexited : s.sys.worker i = .exited := by
      refine hc.joined i ?_
      rcases hmain with hmain | hmain <;> rw [hmain] <;> exact i.isLt
    exact ((h.holds i).eq_nothing (by rw [hexited]; rfl) (by simp [hexited])).2
  have howned := h.owned
  rw [hl, sum_eq_zero fun i _ => hown i, List.map_nil, List.sum_nil, add_zero] at howned
  exact howned.eq_none a

/-- **Memory safety.** In no run of the program, for every command file, any number of workers, every
schedule and all addresses that `malloc` returns, there is an invalid access or a double `free`; the
queue in memory is the list of jobs; there are never more than two blocks for each queued job and each
worker; and all of them have been freed when the workers have been joined. -/
theorem memory_safe {as : List (Act N × α × α)}
    (h : run MemSys.step (init N α prog n old) as = some s) :
    s.fault = false ∧
    (∃ l : List (Node α), Queued s.block s.head s.tail l ∧ l.map Node.job = s.sys.queue) ∧
    (∀ t : Finset α, (∀ a ∈ t, s.block a ≠ none) → t.card ≤ 2 * (s.sys.queue.length + N)) ∧
    (s.sys.main = .writeStats ∨ s.sys.main = .finished → ∀ a, s.block a = none) := by
  obtain ⟨⟨bs, -, hrun⟩, l, own, htidy⟩ := tidy_of_run h
  refine ⟨htidy.sound, ⟨l, htidy.queued, htidy.queue⟩, fun t ht => ?_, fun hmain => ?_⟩
  · exact htidy.card_le t ht
  · exact htidy.block_eq_none (reachable_control hrun).1 (reachable_control hrun).2 hmain

/-- A run of one worker on a file with one job, up to `write_stats`; the worker frees the two blocks of
the job behind its report. -/
def freeingRun (i : Fin N) : List (Act N × ℕ × ℕ) :=
  (List.replicate 5 (.main 0 fun _ => true) ++ List.replicate 18 (.worker i 0) ++
    List.replicate 3 (.main 0 fun _ => true) ++ List.replicate 2 (.worker i 0) ++
    List.replicate 2 (.main 0 fun _ => true) : List (Act N)).map fun a => (a, 7, 3)

theorem freeingRun_memory_safe :
    ∃ s, run MemSys.step (init 1 ℕ (processCommands (lit "worker increment 0")) 1 fun _ => none)
        (freeingRun 0) = some s ∧
      s.sys.main = .writeStats ∧ s.sys.processed.length = 1 ∧ s.block 7 = none ∧ s.block 3 = none := by
  have heval : (run MemSys.step (init 1 ℕ (processCommands (lit "worker increment 0")) 1 fun _ => none)
      (freeingRun 0)).map (fun s => (s.sys.main, s.sys.processed.length)) = some (.writeStats, 1) := by
    decide +kernel
  obtain ⟨s, hs, heq⟩ := Option.map_eq_some_iff.mp heval
  obtain ⟨hmain, hlen⟩ := Prod.mk.inj heq
  have hfree := (memory_safe hs).2.2.2 (Or.inl hmain)
  exact ⟨s, hs, hmain, hlen, hfree 7, hfree 3⟩

/-! ## The other way round -/

omit [DecidableEq α] in
/-- There are always two free addresses. -/
theorem Tidy.exists_fresh [Infinite α] (h : s.Tidy l own) :
    ∃ x j, s.block x = none ∧ s.block j = none ∧ x ≠ j := by
  classical
  let used : Finset α := ((l.map Node.blocks).sum + ∑ i, own i).toFinset
  have hfree : ∀ a, a ∉ used → s.block a = none := by
    intro a ha
    by_contra hne
    exact ha (Multiset.mem_toFinset.mpr ((h.owned.allocated a).mp hne))
  obtain ⟨x, hx⟩ := Infinite.exists_notMem_finset used
  obtain ⟨j, hj⟩ := Infinite.exists_notMem_finset (insert x used)
  obtain ⟨hjx, hj⟩ := not_or.mp (fun hmem => hj (mem_insert.mpr hmem))
  exact ⟨x, j, hfree x hx, hfree j hj, fun heq => hjx heq.symm⟩

/-- The step of a worker is a step. -/
theorem Tidy.step_worker (h : s.Tidy l own) (i : Fin N) (now : ℤ) :
    MemSys.step s (.worker i now, x, j) = s.workerStep i now :=
  if_neg (by simp [h.sound])

/-- **A worker first frees** what it has to free. -/
theorem Tidy.clear (h : s.Tidy l own) (i : Fin N) (now : ℤ) :
    ∃ as s', run MemSys.step s as = some s' ∧ s'.sys = s.sys ∧
      (s'.sys.worker i = .top → s'.held i = .nothing) ∧ ∃ l own, s'.Tidy l own := by
  have hemptied : ∀ {t : MemSys N α} {l : List (Node α)} {own : Fin N → Multiset α} {j : α},
      t.Tidy l own → t.sys.worker i = .top → t.held i = .emptied j →
        ∃ as s', run MemSys.step t as = some s' ∧ s'.sys = t.sys ∧
          (s'.sys.worker i = .top → s'.held i = .nothing) ∧ ∃ l own, s'.Tidy l own := by
    intro t l own j ht hpc hheld
    obtain ⟨s', own', hstep, hsys, hnothing, htidy⟩ := ht.freeJob now hpc hheld
    refine ⟨[(.worker i now, j, j)], s', ?_, hsys, fun _ => hnothing, l, own', htidy⟩
    rw [run_cons, ht.step_worker, hstep]
    rfl
  by_cases hpc : s.sys.worker i = .top
  · cases hheld : s.held i with
    | nothing => exact ⟨[], s, rfl, rfl, fun _ => hheld, l, own, h⟩
    | job j =>
        have hholds := h.holds i
        rw [hpc, hheld] at hholds
        exact absurd rfl hholds.job_ne_none
    | emptied j => exact hemptied h hpc hheld
    | reported j =>
        obtain ⟨t, own', hstep, hsys, hj, htidy⟩ := h.freeText now hpc hheld
        obtain ⟨as, s', hrun, hsys', hrest⟩ := hemptied htidy (hsys ▸ hpc) hj
        refine ⟨(.worker i now, j, j) :: as, s', ?_, hsys'.trans hsys, hrest⟩
        rw [run_cons, h.step_worker, hstep]
        exact hrun
  · exact ⟨[], s, rfl, rfl, fun htop => absurd htop hpc, l, own, h⟩

/-- **A step on the list of jobs** can be taken with the memory. -/
theorem Tidy.lift [Infinite α] (h : s.Tidy l own) (hc : s.sys.Control) {sys : Sys N}
    (hstep : JobDispatcher.step s.sys a = some sys) :
    ∃ as s', run MemSys.step s as = some s' ∧ s'.sys = sys ∧ ∃ l own, s'.Tidy l own := by
  obtain ⟨x, j, hx, hj, hxj⟩ := h.exists_fresh
  have hsound : s.fault = false := h.sound
  cases a with
  | worker i now =>
      obtain ⟨as, t, hrun, hsys, htop, l, own, ht⟩ := h.clear i now
      rw [← hsys] at hstep hc
      obtain ⟨f, hf⟩ : ∃ f, Follows t (t.workerStep i now)
          (JobDispatcher.workerStep t.sys i now) f := ht.follows_worker hc htop
      have hstep : JobDispatcher.workerStep t.sys i now = some sys := hstep
      refine ⟨as ++ [(.worker i now, x, j)], f sys, run_snoc.mpr ⟨t, hrun, ?_⟩, hf.sys sys hstep,
        hf.tidy sys hstep⟩
      rw [ht.step_worker, hf.eq, hstep, Option.map_some]
  | main now wake =>
      have hfollows : ∃ f, Follows s (s.mainStep now wake x j)
          (JobDispatcher.mainStep s.sys now wake) f := by
        by_cases hsubmit : ∃ cmd rest, s.sys.main = .submit cmd rest
        · obtain ⟨cmd, rest, hpc⟩ := hsubmit
          exact h.follows_submit hpc hx hj hxj
        · exact h.follows_quiet_main hc fun cmd rest hpc => hsubmit ⟨cmd, rest, hpc⟩
      obtain ⟨f, hf⟩ := hfollows
      have hstep : JobDispatcher.mainStep s.sys now wake = some sys := hstep
      refine ⟨[(.main now wake, x, j)], f sys, ?_, hf.sys sys hstep, hf.tidy sys hstep⟩
      have hthis : MemSys.step s (.main now wake, x, j) = some (f sys) := by
        rw [MemSys.step, hsound]
        show s.mainStep now wake x j = _
        rw [hf.eq, hstep, Option.map_some]
      rw [run_cons, hthis]
      rfl
  | spuriousWorker i =>
      have hthis : MemSys.step s (.spuriousWorker i, x, j) = some { s with sys := sys } := by
        rw [MemSys.step, hsound]
        exact congrArg (Option.map _) hstep
      refine ⟨[(.spuriousWorker i, x, j)], _, ?_, rfl, (h.step hc hthis).2⟩
      rw [run_cons, hthis]
      rfl
  | spuriousMain =>
      have hthis : MemSys.step s (.spuriousMain, x, j) = some { s with sys := sys } := by
        rw [MemSys.step, hsound]
        exact congrArg (Option.map _) hstep
      refine ⟨[(.spuriousMain, x, j)], _, ?_, rfl, (h.step hc hthis).2⟩
      rw [run_cons, hthis]
      rfl

/-- **The memory adds no behaviour, and takes none away**: the program with its memory and that on the
list of jobs reach the same states of threads, mutexes, statistics and files. -/
theorem memory_refines [Infinite α] (sys : Sys N) :
    (∃ as s, run MemSys.step (init N α prog n old) as = some s ∧ s.sys = sys) ↔
      ∃ as, run JobDispatcher.step (Sys.init N prog n old) as = some sys := by
  constructor
  · rintro ⟨as, s, hrun, rfl⟩
    obtain ⟨⟨bs, -, hbs⟩, -⟩ := tidy_of_run hrun
    exact ⟨bs, hbs⟩
  · rintro ⟨as, hrun⟩
    have hlift : ∃ bs s, run MemSys.step (init N α prog n old) bs = some s ∧ s.sys = sys ∧
        ∃ l own, Tidy s l own := by
      refine run_induction (motive := fun _ sys => ∃ bs s,
        run MemSys.step (init N α prog n old) bs = some s ∧ s.sys = sys ∧ ∃ l own, Tidy s l own)
        ⟨[], _, rfl, rfl, [], _, tidy_init⟩ ?_ hrun
      rintro as t a sys' hreach ⟨bs, s, hbs, rfl, l, own, htidy⟩ hstep
      obtain ⟨cs, s', hcs, hsys, htidy'⟩ := htidy.lift (reachable_control hreach).1 hstep
      refine ⟨bs ++ cs, s', ?_, hsys, htidy'⟩
      rw [run_append, hbs]
      exact hcs
    obtain ⟨bs, s, hbs, hsys, -⟩ := hlift
    exact ⟨bs, s, hbs, hsys⟩

/-- What the two workers do with their jobs is done in memory too. -/
theorem joinedRun_memory_refines : ∃ sys : Sys 2,
    run JobDispatcher.step (Sys.init 2 incrementFile 1 fun _ => none) (joinedRun 0 1 7 4)
      = some sys ∧
    ∃ as s, run MemSys.step (init 2 ℕ incrementFile 1 fun _ => none) as = some s ∧ s.sys = sys := by
  have heval : (run JobDispatcher.step (Sys.init 2 incrementFile 1 fun _ => none)
      (joinedRun 0 1 7 4)).isSome = true := by decide +kernel
  obtain ⟨sys, hsys⟩ := Option.isSome_iff_exists.mp heval
  exact ⟨sys, hsys, (memory_refines sys).mpr ⟨joinedRun 0 1 7 4, hsys⟩⟩

end Runs

end MemSys

end StudiesOS.JobDispatcher
