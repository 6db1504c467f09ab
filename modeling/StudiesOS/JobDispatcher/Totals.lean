import StudiesOS.JobDispatcher.Counters
import StudiesOS.JobDispatcher.Programs

/-! # From the command file to the counter files
The conservation law of the counters has the condition that no addition overflows. It can be met
once and for all: a counter is never further from zero than there are commands in the jobs, and a
job makes less than 2^38 calls of `run_cmd`. Together with the meaning of the command language this
gives the whole way from the program that a command file is to what stands in the counter files at the
end, for every schedule. -/

namespace StudiesOS.JobDispatcher

open Finset

variable {N : ℕ}

/-! ## How many commands there are -/

/-- The number that `sscanf` reads is an `int`. -/
theorem atoi_lt (s : List Byte) : (atoi s).toNat < 2 ^ 31 := by
  have h : atoi s < (2 ^ 32 + 1) / 2 := Int.bmod_lt (by decide)
  omega

/-- A `repeat` makes fewer than 2^31 copies of the commands behind it. -/
theorem length_runOrder_le (cmds : List (List Byte)) :
    (runOrder cmds).length ≤ cmds.length * 2 ^ 31 := by
  induction cmds with
  | nil => simp [runOrder]
  | cons cmd cmds ih =>
      rw [runOrder, List.length_cons]
      split
      · have htimes := (atoi_lt (cmd.drop 6)).le
        rw [List.length_flatten, List.map_replicate, List.sum_replicate, nsmul_eq_mul,
          Nat.cast_id]
        calc (atoi (cmd.drop 6)).toNat * cmds.length
            ≤ 2 ^ 31 * cmds.length := Nat.mul_le_mul_right _ htimes
          _ ≤ (cmds.length + 1) * 2 ^ 31 := by omega
      · rw [List.length_cons]
        omega

/-- The split fills `cmds[100]` at most. -/
theorem length_splitCmds_le (room : ℕ) (s : List Byte) : (splitCmds room s).length ≤ room := by
  rw [splitCmds_eq, List.length_map, List.length_take]
  exact min_le_left _ _

/-- **A job makes fewer than 2^38 calls of `run_cmd`.** -/
theorem length_processJob_le (job : List Byte) : (processJob job).length ≤ 100 * 2 ^ 31 :=
  (length_runOrder_le _).trans (Nat.mul_le_mul_right _ (length_splitCmds_le 100 _))

/-- The commands of a file are bounded by its jobs. -/
theorem length_allCommands_le (prog : List Directive) :
    (allCommands prog).length ≤ (jobsOf prog).length * (100 * 2 ^ 31) := by
  rw [allCommands]
  induction jobsOf prog with
  | nil => simp
  | cons cmd jobs ih =>
      have hcmd := length_processJob_le cmd
      rw [List.map_cons, List.flatten_cons, List.length_append, List.length_cons]
      omega

/-! ## How many are left -/

/-- The commands that a worker has yet to run for its job, a counter update under way included. -/
def WorkerPc.left (c : Fin 100) : WorkerPc → ℕ
  | .exec _ rest => rest.length
  | .counter _ rest pc => (pc.owes c).natAbs + rest.length
  | _ => 0

/-- The commands of a list of job texts. -/
def jobsLeft (cmds : List (List Byte)) : ℕ := (cmds.map fun cmd => (processJob cmd).length).sum

/-- **The commands that are left**: for the workers, in the queue and in the rest of the file. -/
def Sys.left (s : Sys N) (c : Fin 100) : ℕ :=
  ∑ i, (s.worker i).left c + jobsLeft (s.queue.map Job.cmd) + jobsLeft s.main.toSubmit

/-- A command adds at most one. -/
theorem natAbs_cmdDelta_le (c : Fin 100) (cmd : List Byte) : (cmdDelta c cmd).natAbs ≤ 1 := by
  rw [cmdDelta]
  split
  · rename_i i δ hcmd
    split
    · obtain rfl | rfl := runCmd_delta hcmd <;> decide
    · decide
  · decide

/-- Commands add at most as much as they are many. -/
theorem natAbs_netDelta_le (c : Fin 100) (cmds : List (List Byte)) :
    (netDelta c cmds).natAbs ≤ cmds.length := by
  induction cmds with
  | nil => simp [netDelta]
  | cons cmd cmds ih =>
      have hcmd := natAbs_cmdDelta_le c cmd
      rw [netDelta_cons, List.length_cons]
      omega

/-- A worker owes at most as much as it has left. -/
theorem natAbs_owes_le (c : Fin 100) (pc : WorkerPc) : (pc.owes c).natAbs ≤ pc.left c := by
  cases pc with
  | exec job rest => exact natAbs_netDelta_le c rest
  | counter job rest cpc =>
      have hrest := natAbs_netDelta_le c rest
      simp only [WorkerPc.owes, WorkerPc.left]
      omega
  | _ => simp [WorkerPc.owes, WorkerPc.left]

/-- **The debt to a counter is at most what is left.** -/
theorem natAbs_debt_le (s : Sys N) (c : Fin 100) : (s.debt c).natAbs ≤ s.left c := by
  have hworkers : (∑ i, (s.worker i).owes c).natAbs ≤ ∑ i, (s.worker i).left c :=
    (Int.natAbs_sum_le _ _).trans (sum_le_sum fun i _ => natAbs_owes_le c (s.worker i))
  have hjobs : ∀ cmds : List (List Byte), ((cmds.map (jobDelta c)).sum).natAbs ≤ jobsLeft cmds := by
    intro cmds
    induction cmds with
    | nil => simp [jobsLeft]
    | cons cmd cmds ih =>
        have hcmd : (jobDelta c cmd).natAbs ≤ (processJob cmd).length := natAbs_netDelta_le c _
        rw [jobsLeft] at ih ⊢
        rw [List.map_cons, List.sum_cons, List.map_cons, List.sum_cons]
        omega
  have hqueue := hjobs (s.queue.map Job.cmd)
  have hfile := hjobs s.main.toSubmit
  rw [List.map_map] at hqueue
  rw [Sys.debt, Sys.left]
  exact (Int.natAbs_add_le _ _).trans
    (Nat.add_le_add ((Int.natAbs_add_le _ _).trans (Nat.add_le_add hworkers hqueue)) hfile)

/-! ## No step adds commands -/

/-- A step that moves one worker leaves no more commands if the parts it touches have no more. -/
theorem left_move {s s' : Sys N} {c : Fin 100} {i : Fin N} {p : WorkerPc}
    (hworker : s'.worker = Function.update s.worker i p) (hmain : s'.main.toSubmit = s.main.toSubmit)
    (h : p.left c + jobsLeft (s'.queue.map Job.cmd)
      ≤ (s.worker i).left c + jobsLeft (s.queue.map Job.cmd)) : s'.left c ≤ s.left c := by
  have hsum := sum_update_add (fun _ q => WorkerPc.left c q) s.worker i p
  rw [Sys.left, Sys.left, hworker, hmain]
  omega

/-- Starting a command leaves no more than there was. -/
theorem left_startCmd (c : Fin 100) (job : Job) (cmd : List Byte) (rest : List (List Byte)) :
    (startCmd job cmd rest).left c ≤ rest.length + 1 := by
  cases hcmd : runCmd cmd with
  | update id δ =>
      have hδ : δ.natAbs ≤ 1 := by obtain rfl | rfl := runCmd_delta hcmd <;> decide
      simp only [startCmd, hcmd]
      split
      · simp only [WorkerPc.left, CounterPc.owes]
        split
        · omega
        · simp
      · simp [WorkerPc.left]
  | nothing | usleep => simp [startCmd, hcmd, WorkerPc.left]

/-- A step of `update_counter` leaves no more than there was. -/
theorem left_afterCounter {s t : Sys N} {i : Fin N} {cpc : CounterPc} {r : Option CounterPc}
    (h : counterStep s i cpc = some (t, r)) (c : Fin 100) (job : Job) (rest : List (List Byte)) :
    (afterCounter job rest r).left c ≤ (cpc.owes c).natAbs + rest.length := by
  cases cpc with
  | lock id δ =>
      simp only [counterStep, Option.map_eq_some_iff] at h
      obtain ⟨_, -, heq⟩ := h
      obtain ⟨-, rfl⟩ := Prod.mk.inj heq
      exact le_rfl
  | read id δ =>
      simp only [counterStep] at h
      split at h <;> cases h <;> simp [afterCounter, WorkerPc.left, CounterPc.owes]
  | write | truncate | unlock =>
      cases h
      simp [afterCounter, WorkerPc.left, CounterPc.owes]

/-- **No step adds commands** to those that are left. -/
theorem step_left {s s' : Sys N} {a : Act N} (hstep : step s a = some s') (c : Fin 100) :
    s'.left c ≤ s.left c := by
  cases step_trans hstep with
  | worker htrans =>
      have hto := (workerStep_submitted hstep).2
      cases htrans with
      | top hpc | wait hpc | woken hpc | leave hpc | pass hpc | retry hpc | process hpc
        | lockStats hpc | fold hpc | lockFinish hpc | report hpc =>
          exact left_move rfl hto (Nat.add_le_add (Nat.zero_le _) le_rfl)
      | @take job queue hpc hqueue =>
          refine left_move rfl hto ?_
          rw [hqueue, hpc]
          simp [Sys.setWorker, WorkerPc.left, jobsLeft]
      | @call job cmd rest hpc =>
          refine left_move rfl hto (Nat.add_le_add ?_ le_rfl)
          rw [hpc]
          exact left_startCmd c job cmd rest
      | @counter job rest cpc t r hpc hcounter =>
          have hle := left_afterCounter hcounter c job rest
          obtain ⟨owner, files, rfl⟩ := counterStep_frame hcounter
          refine left_move rfl hto (Nat.add_le_add ?_ le_rfl)
          rw [hpc]
          exact hle
  | @main now wake _ htrans =>
      cases htrans with
      | create hpc =>
          exact left_move rfl (by rw [hpc]; rfl) (Nat.add_le_add (Nat.zero_le _) le_rfl)
      | created hpc | eof hpc | readSubmit hpc | readMsleep hpc | readWait hpc | lockSubmit hpc
        | lockWait hpc | wait hpc | wokenWait hpc | pass hpc | join hpc | joined hpc
        | writeStats hpc =>
          simp only [Sys.left, hpc]
          exact le_rfl
      | @submit cmd rest hpc =>
          have hworkers : ∑ i, (((s.unlock .queue).wakeWorkers wake).worker i).left c
              = ∑ i, (s.worker i).left c :=
            sum_congr rfl fun i _ => wakeWorkers_view (WorkerPc.left c) rfl (s.unlock .queue) wake i
          rw [Sys.left, Sys.left, hworkers, hpc]
          simp only [enqueue, jobsLeft, MainPc.toSubmit, List.map_append, List.sum_append,
            List.map_cons, List.map_nil, List.sum_cons, List.sum_nil]
          omega
      | shutDown hpc =>
          have hworkers : ∑ i, (((s.unlock .queue).wakeWorkers fun _ => true).worker i).left c
              = ∑ i, (s.worker i).left c :=
            sum_congr rfl fun i _ => wakeWorkers_view (WorkerPc.left c) rfl (s.unlock .queue) _ i
          rw [Sys.left, Sys.left, hworkers, hpc]
          exact le_rfl
  | spuriousWorker hpc =>
      exact left_move rfl rfl (Nat.add_le_add (Nat.zero_le _) le_rfl)
  | spuriousMain hpc =>
      simp only [Sys.left, hpc]
      exact le_rfl

/-- At the start all commands are left. -/
theorem init_left (prog : List Directive) (n : ℕ) (old : Fin 100 → Option (List Byte))
    (c : Fin 100) : (Sys.init N prog n old).left c = (allCommands prog).length := by
  simp only [Sys.left, Sys.init, WorkerPc.left, jobsLeft, MainPc.toSubmit, List.map_nil,
    List.sum_nil, sum_const_zero, Nat.zero_add, allCommands, List.length_flatten, List.map_map]
  rfl

/-! ## No addition overflows -/

/-- **A counter that is conserved does not overflow**, as long as there are fewer than 2^61 commands:
neither what has been added to it nor what is about to be can exceed them. -/
theorem Conserved.fits {prog : List Directive} {c : Fin 100} {s : Sys N} (h : Conserved prog c s)
    (hlocked : s.Locked) (hleft : s.left c ≤ (allCommands prog).length)
    (hfew : (allCommands prog).length < 2 ^ 61) {i : Fin N} {job : Job} {rest : List (List Byte)}
    {δ : ℤ} (hpc : s.worker i = .counter job rest (.read c δ)) {content : List Byte}
    (hfile : s.files c = some content) : Fits 63 ((strtol (cstr content)).getD 0 + δ) := by
  obtain ⟨v, hat, hsum⟩ := h
  have hcontent := hat.file_eq hlocked (i := i) (by rw [hpc]; rfl) fun _ _ _ hi => by
    rw [hpc] at hi
    cases hi
  rw [hfile] at hcontent
  obtain rfl := Option.some.inj hcontent
  rw [read_numeral hat.fits]
  have hdelta : δ.natAbs ≤ s.left c := by
    have hi : (s.worker i).left c ≤ ∑ j, (s.worker j).left c :=
      single_le_sum (f := fun j => (s.worker j).left c) (fun _ _ => Nat.zero_le _) (mem_univ i)
    have howes : (s.worker i).left c = δ.natAbs + rest.length := by
      rw [hpc]
      simp [WorkerPc.left, CounterPc.owes]
    rw [Sys.left]
    omega
  have htotal := natAbs_netDelta_le c (allCommands prog)
  have hdebt := natAbs_debt_le s c
  rw [sum_jobDelta] at hsum
  constructor <;> omega

/-- **The law is kept by every step**, with no condition on the additions. -/
theorem step_conserved_left {prog : List Directive} {c : Fin 100} {s s' : Sys N} {a : Act N}
    (hcontrol : s.Control) (h : Conserved prog c s)
    (hleft : s.left c ≤ (allCommands prog).length) (hfew : (allCommands prog).length < 2 ^ 61)
    (hstep : step s a = some s') : Conserved prog c s' := by
  by_cases hok : NoOverflow s a
  · exact step_conserved hcontrol h hok hstep
  · -- an addition that overflows is not one to this counter
    cases a with
    | worker i now =>
        simp only [NoOverflow] at hok
        split at hok
        · rename_i job rest id δ hpc
          push Not at hok
          obtain ⟨content, hfile, hover⟩ := hok
          have hne : id ≠ c := by
            rintro rfl
            exact hover (h.fits hcontrol.locked hleft hfew hpc hfile)
          have hnew : s' = s.setWorker i (.counter job rest (.write id δ
              (wrap 64 ((strtol (cstr content)).getD 0 + δ)))) := by
            simp only [step, workerStep, hpc, counterStep, Option.mem_def.mp hfile, Option.map_some,
              afterCounter, Option.some.injEq] at hstep
            exact hstep.symm
          rw [hnew]
          exact h.quiet rfl rfl rfl rfl (by rw [hpc]; exact not_false) hne
            (by rw [hpc]; simp [WorkerPc.owes, CounterPc.owes, hne])
        · exact absurd trivial hok
    | _ => exact absurd trivial hok

/-- A file of fewer than 2^23 jobs has fewer than 2^61 commands. -/
theorem length_allCommands_lt {prog : List Directive} (hfew : (jobsOf prog).length < 2 ^ 23) :
    (allCommands prog).length < 2 ^ 61 := by
  have hle := length_allCommands_le prog
  omega

/-- **The law holds in every reachable state**, for every command file of fewer than 2^23 jobs. -/
theorem reachable_conserved {prog : List Directive} (hfew : (jobsOf prog).length < 2 ^ 23) {n : ℕ}
    {old : Fin 100 → Option (List Byte)} {as : List (Act N)} {s : Sys N} {c : Fin 100}
    (hc : (c : ℕ) < n) (h : run step (Sys.init N prog n old) as = some s) :
    (s.Control ∧ s.pool.Sound) ∧ Conserved prog c s ∧ s.left c ≤ (allCommands prog).length :=
  run_invariant
    (I := fun s : Sys N => (s.Control ∧ s.pool.Sound) ∧ Conserved prog c s ∧
      s.left c ≤ (allCommands prog).length)
    ⟨⟨init_control prog n old, init_sound prog n old⟩, init_conserved prog old hc,
      (init_left prog n old c).le⟩
    (fun _ _ _ ⟨hI, hcons, hleft⟩ hstep => ⟨⟨step_control hI.1 hI.2 hstep,
      hI.2.step (step_pool hI.1 hstep)⟩,
      step_conserved_left hI.1 hcons hleft (length_allCommands_lt hfew) hstep,
      (step_left hstep c).trans hleft⟩) h

/-! ## What a program adds -/

/-- What a basic command adds to a counter. -/
def Basic.adds (c : Fin 100) : Basic → ℤ
  | .msleep _ => 0
  | .increment id => if id = c then 1 else 0
  | .decrement id => if id = c then -1 else 0

/-- What basic commands add to a counter. -/
def addsAll (c : Fin 100) (cmds : List Basic) : ℤ := (cmds.map (Basic.adds c)).sum

/-- What a job adds to a counter. -/
def JobSyntax.adds (c : Fin 100) (job : JobSyntax) : ℤ :=
  addsAll c job.before + (job.loop.map fun l => max l.times 0 * addsAll c l.body).getD 0

/-- What a line adds to a counter. -/
def Line.adds (c : Fin 100) : Line → ℤ
  | .worker job => job.adds c
  | .dispatcherMsleep _ => 0
  | .dispatcherWait => 0

/-- **What a program adds to a counter.** -/
def Program.adds (p : Program) (c : Fin 100) : ℤ := (p.lines.map (Line.adds c)).sum

/-- What an effect adds to a counter. -/
def Effect.adds (c : Fin 100) : Effect → ℤ
  | .update i δ => if i = c then δ else 0
  | _ => 0

/-- The net effect is that of the effects. -/
theorem netDelta_eq_effects (c : Fin 100) (cmds : List (List Byte)) :
    netDelta c cmds = ((cmds.map runCmd).map (Effect.adds c)).sum := by
  rw [netDelta, List.map_map]
  refine congrArg List.sum (List.map_congr_left fun cmd _ => ?_)
  rw [cmdDelta, Function.comp_apply]
  cases runCmd cmd <;> rfl

/-- The effects of basic commands add what the commands add. -/
theorem sum_effects (c : Fin 100) (cmds : List Basic) :
    ((cmds.map Basic.effect).map (Effect.adds c)).sum = addsAll c cmds := by
  rw [addsAll, List.map_map]
  refine congrArg List.sum (List.map_congr_left fun cmd _ => ?_)
  cases cmd with
  | msleep ms =>
      simp only [Function.comp_apply, Basic.effect, Basic.adds]
      split <;> rfl
  | increment | decrement => rfl

/-- **The effects of a job add what the job adds.** -/
theorem sum_job_effects (c : Fin 100) (job : JobSyntax) :
    (job.effects.map (Effect.adds c)).sum = job.adds c := by
  rw [JobSyntax.effects, JobSyntax.adds, List.map_append, List.sum_append, sum_effects]
  cases job.loop with
  | none => rfl
  | some l =>
      simp only [Option.map_some, Option.getD_some, Loop.effects, List.map_flatten, List.sum_flatten,
        List.map_replicate, sum_effects, List.sum_replicate, nsmul_eq_mul]
      rw [Int.ofNat_toNat]

/-- **The commands of a written program add what the program adds.** -/
theorem netDelta_lines (c : Fin 100) (lines : List Line) (h : ∀ job, Line.worker job ∈ lines →
    (processJob job.text).map runCmd = job.effects) :
    netDelta c (allCommands (lines.map Line.directive)) = (lines.map (Line.adds c)).sum := by
  induction lines with
  | nil => rfl
  | cons line lines ih =>
      have hrest := ih fun job hjob => h job (List.mem_cons_of_mem line hjob)
      rw [List.map_cons, List.map_cons, List.sum_cons, ← hrest]
      cases line with
      | worker job =>
          have hjob : netDelta c (processJob job.text) = job.adds c := by
            rw [netDelta_eq_effects, h job List.mem_cons_self, sum_job_effects]
          exact (netDelta_append c _ _).trans (congrArg (· + _) hjob)
      | dispatcherMsleep | dispatcherWait => exact (zero_add _).symm

/-- **From the program to the counter files.** For every program within the limits and of fewer than
2^23 lines, every number of workers and every schedule: no addition to a created counter overflows on the
way, and each created counter file of the finished program is the numeral of what the program adds to
the counter. -/
theorem program_counters (p : Program) (hfew : p.lines.length < 2 ^ 23) {n : ℕ}
    {old : Fin 100 → Option (List Byte)} {as : List (Act N)} {s : Sys N} {c : Fin 100}
    (hc : (c : ℕ) < n) (h : run step (Sys.init N (processCommands p.text) n old) as = some s) :
    (∀ i job rest δ content, s.worker i = .counter job rest (.read c δ) → s.files c = some content →
      Fits 63 ((strtol (cstr content)).getD 0 + δ)) ∧
    (s.main = .finished → s.files c = some (numeral (p.adds c))) := by
  rw [processCommands_text] at h
  have hjobs : (jobsOf (p.lines.map Line.directive)).length < 2 ^ 23 := by
    refine Nat.lt_of_le_of_lt (List.length_filterMap_le _ _) ?_
    rwa [List.length_map]
  obtain ⟨⟨hcontrol, hsound⟩, hcons, hleft⟩ := reachable_conserved hjobs hc h
  refine ⟨fun i job rest δ content hpc hfile =>
    hcons.fits hcontrol.locked hleft (length_allCommands_lt hjobs) hpc hfile, fun hmain => ?_⟩
  have hdone : s.done = true := by
    rw [hcontrol.shut, hmain]
    rfl
  rw [hcons.settled hcontrol hsound hdone, netDelta_lines c p.lines fun _ => processJob_of_mem]
  rfl

/-- A program of two jobs. -/
def decrementProgram : Program where
  lines := [.worker ⟨[.decrement 0], none⟩, .worker ⟨[.decrement 0], none⟩]
  valid := by decide +kernel

theorem decrementProgram_counters :
    ∃ s, run step (Sys.init 2 (processCommands decrementProgram.text) 1 fun _ => none)
        (joinedRun 0 1 7 4 ++ mainSteps 2 1) = some s ∧ s.files 0 = some (lit "-2") := by
  have heval : ((run step (Sys.init 2 (processCommands decrementProgram.text) 1 fun _ => none)
      (joinedRun 0 1 7 4 ++ mainSteps 2 1)).map Sys.main) = some .finished := by
    decide +kernel
  obtain ⟨s, hs, hmain⟩ := Option.map_eq_some_iff.mp heval
  have hfinal := (program_counters decrementProgram (by decide) (c := 0) (by decide) hs).2 hmain
  refine ⟨s, hs, hfinal.trans ?_⟩
  decide +kernel

end StudiesOS.JobDispatcher
