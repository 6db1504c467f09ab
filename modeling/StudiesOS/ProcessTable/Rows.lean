import StudiesOS.ProcessTable.Listing

/-! # The rows of `ps`
A row is printed for the slot that `getProcInfo` has found, with the state that it reads off the slot
afterwards. The slot is still in use then, unless a fork of another process fails meanwhile and gives
it back, which it does without the lock. -/

namespace StudiesOS.ProcessTable

open Kernel

variable {nproc nofile ncpu : ℕ} {self : Fin nproc} {s s' t : PsSystem nproc nofile ncpu}
  {b : PsAct nofile ncpu}

/-! ## What `main` has come past -/

/-- **Nothing is stored before `getMaxPid`**, which every run that stores something has come past. -/
theorem scanned_of_run {k : Kernel nproc nofile ncpu} {bs : List (PsAct nofile ncpu)}
    (h : run (PsSystem.step self) (.start k) bs = some s) :
    ((s.ps.pc = .numProc ∨ s.ps.pc = .inNumProc ∨ s.ps.pc = .maxPid) ∧ s.ps.pids = [] ∧
        s.ps.overrun = false) ∨
      ∃ cs ds t, bs = cs ++ ds ∧ run (PsSystem.step self) (.start k) cs = some t ∧
        run (PsSystem.step self) t ds = some s ∧ t.ps.pc = .inMaxPid := by
  refine run_induction (motive := fun bs s =>
    ((s.ps.pc = .numProc ∨ s.ps.pc = .inNumProc ∨ s.ps.pc = .maxPid) ∧ s.ps.pids = [] ∧
        s.ps.overrun = false) ∨
      ∃ cs ds t, bs = cs ++ ds ∧ run (PsSystem.step self) (.start k) cs = some t ∧
        run (PsSystem.step self) t ds = some s ∧ t.ps.pc = .inMaxPid) ?_ ?_ h
  · exact Or.inl ⟨Or.inl rfl, rfl, rfl⟩
  · rintro bs s a s' hrun (⟨hearly, hpids, hinside⟩ | ⟨cs, ds, t, rfl, hcs, hds, hpc⟩) hstep
    · have hrun' : run (PsSystem.step self) (.start k) (bs ++ [a]) = some s' :=
        run_snoc.mpr ⟨s, hrun, hstep⟩
      cases ps_move hstep with
      | other => exact Or.inl ⟨hearly, hpids, hinside⟩
      | main c s' hcpu hsusp hmove =>
          cases hmove with
          | numProc => exact Or.inl ⟨Or.inr (Or.inl rfl), hpids, hinside⟩
          | numNext => exact Or.inl ⟨hearly, hpids, hinside⟩
          | numDone => exact Or.inl ⟨Or.inr (Or.inr rfl), hpids, hinside⟩
          | maxPid => exact Or.inr ⟨_, [], _, (List.append_nil _).symm, hrun', rfl, rfl⟩
          | maxNext j maxpid hpc | maxDone k' j maxpid hpc | ask pid i hpc | skip pid hpc
          | sort pid pids hpc | store pid k' hpc | askRow i pid j hpc | skipRow i hpc | endRows i hpc
          | row i pid j k' hpc => simp [hpc] at hearly
    · exact Or.inr ⟨cs, ds ++ [a], t, List.append_assoc cs ds [a], hcs,
        run_snoc.mpr ⟨s, hds, hstep⟩, hpc⟩

/-- Whether `main` is in the `getProcInfo` for a row, which has found its pid. -/
def PsPc.inRow : PsPc → Bool
  | .inPrint _ => true
  | .numProc | .inNumProc | .maxPid | .inMaxPid | .find _ | .inFind _ | .print _ | .done => false

/-- **The row `r` is printed in the state `t`**, read off the slot that `getProcInfo` has found. -/
def Prints (self : Fin nproc) (t : PsSystem nproc nofile ncpu) (r : Row) : Prop :=
  ∃ j, t.ps.pc.inRow = true ∧ t.ps.asked = some r.pid ∧ t.kernel.pc self = .infoFill j ∧
    r = .ofInfo r.pid (t.kernel.procInfo j)

/-- The rows are printed one by one. -/
theorem PsMove.rows (h : PsMove self s b s') : s'.ps.rows = s.ps.rows ∨
    ∃ c r, b = .main c ∧ s'.ps.rows = s.ps.rows ++ [r] ∧ Prints self s r := by
  cases h with
  | other => exact Or.inl rfl
  | main c s' hcpu hsusp hmove =>
      cases hmove with
      | row i pid j k' hpc hpid hself =>
          refine Or.inr ⟨c, _, rfl, rfl, j, by rw [hpc]; rfl, ?_, hself, rfl⟩
          rw [Ps.asked, hpc]
          exact hpid
      | numProc | numNext | numDone | maxPid | maxNext | maxDone | ask | skip | sort | store | askRow
      | skipRow | endRows => exact Or.inl rfl

/-- **Every row has been printed** in some state of the run. -/
theorem printed_of_run {k : Kernel nproc nofile ncpu} {bs : List (PsAct nofile ncpu)}
    (h : run (PsSystem.step self) (.start k) bs = some s) :
    ∀ r ∈ s.ps.rows, ∃ cs c ds t, bs = cs ++ .main c :: ds ∧
      run (PsSystem.step self) (.start k) cs = some t ∧ Prints self t r := by
  refine run_induction (motive := fun bs s => ∀ r ∈ s.ps.rows, ∃ cs c ds t,
    bs = cs ++ .main c :: ds ∧ run (PsSystem.step self) (.start k) cs = some t ∧
      Prints self t r) ?_ ?_ h
  · exact fun r hr => absurd hr List.not_mem_nil
  · intro bs s a s' hrun ih hstep r hr
    have hold : r ∈ s.ps.rows → ∃ cs c ds t, bs ++ [a] = cs ++ .main c :: ds ∧
        run (PsSystem.step self) (.start k) cs = some t ∧ Prints self t r := by
      intro hr
      obtain ⟨cs, c, ds, t, rfl, ht, hprints⟩ := ih r hr
      exact ⟨cs, c, ds ++ [a], t, by rw [List.append_assoc, List.cons_append], ht, hprints⟩
    rcases (ps_move hstep).rows with heq | ⟨c, r', rfl, heq, hprints⟩
    · exact hold (heq ▸ hr)
    · rw [heq] at hr
      rcases List.mem_append.mp hr with hr | hr
      · exact hold hr
      · rw [List.mem_singleton.mp hr]
        exact ⟨bs, c, [], s, rfl, hrun, hprints⟩

/-! ## The slot that has been found -/

/-- **No fork that fails gives back the slot** that the `getProcInfo` for a row has found and not yet
read. The fields are copied in one step here; in the code the slot has to be kept until the last one. -/
def NoRace (p : Fin nproc) (s : PsSystem nproc nofile ncpu) : PsAct nofile ncpu → Prop
  | .other a => s.ps.pc.inRow = true → ∀ j, s.kernel.pc p = .infoFill j → s.kernel.failsFork a ≠ some j
  | .main _ => True

instance (p : Fin nproc) (s : PsSystem nproc nofile ncpu) (b : PsAct nofile ncpu) :
    Decidable (NoRace p s b) :=
  match b with
  | .other a => inferInstanceAs
      (Decidable (_ → ∀ j, s.kernel.pc p = .infoFill j → s.kernel.failsFork a ≠ some j))
  | .main _ => .isTrue trivial

/-- The slot that the `getProcInfo` for a row has found is in use. -/
def FoundActive (p : Fin nproc) (s : PsSystem nproc nofile ncpu) : Prop :=
  s.ps.pc.inRow = true → ∀ pid j, s.ps.asked = some pid → s.kernel.pc p = .infoFill j →
    (s.kernel.proc j).state ≠ .unused

/-- **Every step without the race keeps it in use.** -/
theorem FoundActive.step (h : FoundActive self s) (hlinked : Linked self s) (hok : NoRace self s b)
    (hmove : PsMove self s b s') : FoundActive self s' := by
  cases hmove with
  | other a k' he hk =>
      intro hrow pid j hasked hself
      obtain ⟨⟨c, hold⟩, -⟩ := hlinked.info pid hasked
      have hu := undisturbed hold he hk
      have hself' : s.kernel.pc self = .infoFill j := hu.pc.symm.trans hself
      rcases hu.slot j with hkept | ⟨-, hfails⟩
      · exact hkept.active.mpr (h hrow pid j hasked hself')
      · exact absurd hfails (hok hrow j hself')
  | main c s' hcpu hsusp hmove =>
      cases hmove with
      | numProc | numDone | maxDone | ask | skip | sort | store | skipRow | endRows | row | maxPid =>
          exact fun hrow => by cases hrow
      | numNext k' hpc | maxNext j maxpid hpc => exact fun hrow => by simp [PsPc.inRow, hpc] at hrow
      | askRow i pid j hpc hpid hfind =>
          intro hrow pid' j' hasked hself
          obtain rfl : j = j' := Pc.infoFill.inj ((setPc_pc_self _ _ _).symm.trans hself)
          exact (of_findActive hfind).1

/-- The state of an active process has a name. -/
theorem stateName_code {st : ProcState} (h : st ≠ .unused) :
    1 ≤ st.code ∧ st.code ≤ 5 ∧ stateName st.code ≠ lit "unknown" := by
  cases st with
  | unused => exact absurd rfl h
  | embryo | sleeping | runnable | running | zombie => exact ⟨by decide, by decide, by decide⟩

/-- **`ps` under concurrency.** In every run of the system, with `ps` begun in a reachable kernel and as
long as pids have not wrapped: every pid in `pids` is that of a process that was active all through
`getMaxPid`; so there are at most `NPROC` of them and none is stored outside of the array; they are
ascending, and so are the rows, which are for some of them. And without the race, every row has been
read off the slot of an active process with its pid, and no row says `unknown`. -/
theorem ps_safe {as : List (Act nofile ncpu)} {k : Kernel nproc nofile ncpu}
    {bs : List (PsAct nofile ncpu)} (hk : run step .init as = some k)
    (h : run (PsSystem.step self) (.start k) bs = some s) (hlt : s.kernel.allocs < maxAllocs) :
    (∀ cs ds t, bs = cs ++ ds → run (PsSystem.step self) (.start k) cs = some t →
      t.ps.pc = .inMaxPid → ∀ pid ∈ s.ps.pids, t.kernel.HasPid pid) ∧
    s.ps.pids.length ≤ nproc ∧ (nproc ≤ pidsLength → s.ps.overrun = false) ∧
    s.ps.pids.Pairwise (· < ·) ∧ (s.ps.rows.map Row.pid).Pairwise (· < ·) ∧
    (∀ r ∈ s.ps.rows, r.pid ∈ s.ps.pids) ∧
    (EveryStep (PsSystem.step self) (NoRace self) (.start k) bs → ∀ r ∈ s.ps.rows,
      r.stateName ≠ lit "unknown" ∧ ∃ cs c ds t j, bs = cs ++ .main c :: ds ∧
        run (PsSystem.step self) (.start k) cs = some t ∧ t.kernel.pc self = .infoFill j ∧
        (t.kernel.proc j).state ≠ .unused ∧ (t.kernel.proc j).pid = r.pid ∧
        r = .ofInfo r.pid (t.kernel.procInfo j)) := by
  have hcontrol : Control k := .of_run hk
  -- pids have not wrapped at any state of the run
  have hstart : PsSound self (.start k) :=
    .start (.of_run hk ((ps_allocs_le (s := .start k) hcontrol h).trans_lt hlt))
  have hpast : ∀ {cs ds t}, bs = cs ++ ds → run (PsSystem.step self) (.start k) cs = some t →
      run (PsSystem.step self) t ds = some s ∧ t.kernel.allocs < maxAllocs ∧ PsSound self t := by
    rintro cs ds t rfl ht
    have hds : run (PsSystem.step self) t ds = some s := by
      rw [run_append, ht] at h
      exact h
    have hc : Control t.kernel := run_invariant (I := fun t => Control t.kernel) hcontrol
      (fun _ _ _ hc hstep => ((ps_move hstep).control_allocs_le hc).1) ht
    have hlt' := (ps_allocs_le hc hds).trans_lt hlt
    exact ⟨hds, hlt', hstart.run ht hlt'⟩
  have hrecorded : ∀ {cs ds t}, bs = cs ++ ds → run (PsSystem.step self) (.start k) cs = some t →
      t.ps.pc = .inMaxPid → Recorded t s := by
    intro cs ds t hbs ht hpc
    obtain ⟨hds, -, hsound⟩ := hpast hbs ht
    exact recorded_run hsound hpc hds hlt
  have hsound := hstart.run h hlt
  have hasc := hsound.listed.1
  have hsub := hsound.listed.rows
  have hstored : s.ps.pids.length ≤ nproc ∧ (nproc ≤ pidsLength → s.ps.overrun = false) := by
    rcases scanned_of_run h with ⟨-, hpids, hinside⟩ | ⟨cs, ds, t, hbs, hcs, -, hpc⟩
    · rw [hpids]
      exact ⟨Nat.zero_le nproc, fun _ => hinside⟩
    · have hrec := hrecorded hbs hcs hpc
      exact ⟨length_le_of_hasPid (hasc.imp ne_of_lt) hrec.stored, hrec.inside⟩
  refine ⟨fun cs ds t hbs ht hpc => (hrecorded hbs ht hpc).stored, hstored.1, hstored.2, hasc,
    hasc.sublist hsub, fun r hr => hsub.subset (List.mem_map_of_mem hr), fun hok r hr => ?_⟩
  obtain ⟨cs, c, ds, t, rfl, ht, j, hin, hasked, hself, hrow⟩ := printed_of_run h r hr
  obtain ⟨-, hlt', hsound'⟩ := hpast rfl ht
  obtain ⟨-, j', hself', hpid⟩ := hsound'.linked.info r.pid hasked
  cases hself.symm.trans hself'
  have hactive : (t.kernel.proc j).state ≠ .unused := by
    have hfound := guarded_invariant (I := fun t => Control t.kernel ∧
      (t.kernel.allocs < maxAllocs → PsSound self t ∧ FoundActive self t))
      ⟨hcontrol, fun _ => ⟨hstart, fun hrow => by cases hrow⟩⟩ ?_ (hok.split ht).1 ht
    · exact (hfound.2 hlt').2 hin r.pid j hasked hself
    · rintro v a w ⟨hc, hv⟩ hva hstep
      have hmove := ps_move hstep
      obtain ⟨hc', hle⟩ := hmove.control_allocs_le hc
      refine ⟨hc', fun hlt => ?_⟩
      obtain ⟨hvsound, hvfound⟩ := hv (hle.trans_lt hlt)
      exact ⟨(hvsound.step hmove hlt).1, hvfound.step hvsound.linked hva hmove⟩
  refine ⟨?_, cs, c, ds, t, j, rfl, ht, hself, hactive, hpid, hrow⟩
  rw [hrow]
  exact (stateName_code hactive).2.2

/-- `ps` from beginning to end, with two active processes and nobody else moving. -/
def listRun (nproc : ℕ) (c : Fin ncpu) : List (PsAct nofile ncpu) :=
  List.replicate (2 * nproc + 14) (.main c)

theorem ps_safe_listRun :
    ∃ (k : Kernel 64 16 2) (s : PsSystem 64 16 2), run step .init (familyRun 0) = some k ∧
      run (PsSystem.step 0) (.start k) (listRun 64 0) = some s ∧
      s.ps.rows.map (fun r => (r.pid, r.stateName)) = [(1, lit "running"), (2, lit "runnable")] ∧
      s.ps.overrun = false ∧ ∀ r ∈ s.ps.rows, r.stateName ≠ lit "unknown" := by
  have heval : ((run step (.init : Kernel 64 16 2) (familyRun 0)).bind fun k =>
      (run (PsSystem.step 0) (.start k) (listRun 64 0)).map fun s =>
        (s.kernel.allocs, s.ps.rows.map fun r => (r.pid, r.stateName),
          decide (EveryStep (PsSystem.step 0) (NoRace 0) (.start k) (listRun 64 0))))
      = some (3, [(1, lit "running"), (2, lit "runnable")], true) := by
    decide +kernel
  obtain ⟨k, hk, h⟩ := Option.bind_eq_some_iff.mp heval
  obtain ⟨s, hs, h⟩ := Option.map_eq_some_iff.mp h
  obtain ⟨hallocs, hrows, hok⟩ : s.kernel.allocs = _ ∧ s.ps.rows.map _ = _ ∧ decide _ = _ := by
    simpa only [Prod.mk.injEq] using h
  have hsafe := ps_safe hk hs (by rw [hallocs]; decide)
  obtain ⟨-, -, hinside, -, -, -, hnamed⟩ := hsafe
  exact ⟨k, s, hk, hs, hrows, hinside (by decide),
    fun r hr => (hnamed (of_decide_eq_true hok) r hr).1⟩

/-! ## The race -/

/-- The first process forks, and its child, on another CPU, is about to fork as well. -/
def nestedForkRun (c c' : Fin ncpu) : List (Act nofile ncpu) :=
  bootRun c ++ forkRun c ++
    [.on c' .schedule, .on c' .schedule, .on c' .schedule, .on c' .resume, .on c' .fork]

/-- The first process runs `ps`, and the fork of its child fails between the test and the copy that
`getProcInfo` makes for the third row. -/
def raceRun (nproc : ℕ) (c c' : Fin ncpu) : List (PsAct nofile ncpu) :=
  List.replicate (2 * nproc + 16) (.main c) ++ [.other (.on c' (.kalloc false)), .main c]

/-- **A row says `unknown`**, for a process that is not active when it is read; here with
64 slots, as many as there are places in `pids`. -/
theorem raceRun_unknown :
    ∃ (k : Kernel 64 16 2) (s : PsSystem 64 16 2), run step .init (nestedForkRun 0 1) = some k ∧
      run (PsSystem.step 0) (.start k) (raceRun 64 0 1) = some s ∧ s.kernel.allocs < maxAllocs ∧
      s.ps.rows.map (fun r => (r.pid, r.stateName))
        = [(1, lit "running"), (2, lit "running"), (3, lit "unknown")] ∧
      ¬ ∀ r ∈ s.ps.rows, r.stateName ≠ lit "unknown" := by
  have heval : ((run step (.init : Kernel 64 16 2) (nestedForkRun 0 1)).bind fun k =>
      (run (PsSystem.step 0) (.start k) (raceRun 64 0 1)).map fun s =>
        (s.kernel.allocs, s.ps.rows.map fun r => (r.pid, r.stateName)))
      = some (3, [(1, lit "running"), (2, lit "running"), (3, lit "unknown")]) := by
    decide +kernel
  obtain ⟨k, hk, h⟩ := Option.bind_eq_some_iff.mp heval
  obtain ⟨s, hs, h⟩ := Option.map_eq_some_iff.mp h
  obtain ⟨hallocs, hrows⟩ := Prod.mk.inj h
  refine ⟨k, s, hk, hs, by rw [hallocs]; decide, hrows, fun hnamed => ?_⟩
  have hlast : (3, lit "unknown") ∈ s.ps.rows.map fun r => (r.pid, r.stateName) := by
    rw [hrows]
    exact List.mem_cons_of_mem _ (List.mem_cons_of_mem _ List.mem_cons_self)
  obtain ⟨r, hr, heq⟩ := List.mem_map.mp hlast
  exact hnamed r hr (Prod.mk.inj heq).2

end StudiesOS.ProcessTable
