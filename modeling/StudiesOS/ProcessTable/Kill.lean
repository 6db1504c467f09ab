import StudiesOS.ProcessTable.Queries

/-! # Killing
`kill` looks for a slot by its pid alone, the queries look at the state as well. They agree as long as
no free slot bears a pid that no process bears. A `kill` that hits a free slot, and a failing fork
that gives back a killed slot, leave `killed` set for the next process there. -/

namespace StudiesOS.ProcessTable

open Kernel

variable {nproc nofile ncpu : ℕ} {k k' : Kernel nproc nofile ncpu}

/-! ## Agreement on a state -/

/-- **`kill` agrees with `getProcInfo`** on `pid`: it succeeds on the same pids, and without an active
process of that pid it changes nothing. -/
def KillAgrees (k : Kernel nproc nofile ncpu) (pid : ℤ) : Prop :=
  (∀ pinfo, (k.kill pid).2 = 0 ↔ (k.getProcInfo pid pinfo).1 = 0) ∧
    ((∀ i, (k.proc i).state ≠ .unused → (k.proc i).pid ≠ pid) → (k.kill pid).1 = k)

/-- `kill` succeeds exactly on the pids of slots. -/
theorem kill_eq_zero {pid : ℤ} : (k.kill pid).2 = 0 ↔ ∃ i, (k.proc i).pid = pid := by
  rw [Kernel.kill]
  cases hfind : k.findPid pid with
  | none =>
      have hnone := findPid_eq_none.mp hfind
      constructor
      · intro h
        cases h
      · rintro ⟨i, hi⟩
        exact absurd hi (hnone i)
  | some i => exact ⟨fun _ => ⟨i, of_findPid hfind⟩, fun _ => rfl⟩

/-- `kill` of a pid that no slot bears changes nothing. -/
theorem kill_of_none {pid : ℤ} (h : ∀ i, (k.proc i).pid ≠ pid) : k.kill pid = (k, -1) := by
  rw [Kernel.kill, findPid_eq_none.mpr h]

/-- **They agree exactly when** a free slot bears the pid only if an active one does. -/
theorem killAgrees_iff {pid : ℤ} : KillAgrees k pid ↔
    ∀ i, (k.proc i).state = .unused → (k.proc i).pid = pid →
      ∃ j, (k.proc j).state ≠ .unused ∧ (k.proc j).pid = pid := by
  constructor
  · rintro ⟨hret, -⟩ i hi hpid
    have hzero := (hret (k.procInfo i)).mp (kill_eq_zero.mpr ⟨i, hpid⟩)
    exact (getProcInfo_eq_zero k).mp hzero
  · intro h
    have hactive : (∃ i, (k.proc i).pid = pid) →
        ∃ j, (k.proc j).state ≠ .unused ∧ (k.proc j).pid = pid := by
      rintro ⟨i, hpid⟩
      by_cases hi : (k.proc i).state = .unused
      · exact h i hi hpid
      · exact ⟨i, hi, hpid⟩
    refine ⟨fun pinfo => ?_, fun hnone => ?_⟩
    · rw [kill_eq_zero, getProcInfo_eq_zero]
      exact ⟨hactive, fun ⟨j, _, hpid⟩ => ⟨j, hpid⟩⟩
    · have hfree : ∀ i, (k.proc i).pid ≠ pid := by
        intro i hpid
        obtain ⟨j, hj, hpid⟩ := hactive ⟨i, hpid⟩
        exact hnone j hj hpid
      rw [kill_of_none hfree]

/-- While pids have not wrapped: when no free slot bears it. -/
theorem killAgrees_iff_of_sound (h : k.registry.Sound) {pid : ℤ} : KillAgrees k pid ↔
    ∀ i, (k.proc i).state = .unused → (k.proc i).pid ≠ pid := by
  rw [killAgrees_iff]
  constructor
  · intro hactive i hi hpid
    obtain ⟨j, hj, hpid'⟩ := hactive i hi hpid
    have hij : j = i := h.live_inj (r := k.registry) hj (hpid'.trans hpid.symm)
    exact hj (hij ▸ hi)
  · intro hfree i hi hpid
    exact absurd hpid (hfree i hi)

/-! ## Who is killed -/

/-- The slot that the process on CPU `c` is filling in. -/
def Kernel.filling (k : Kernel nproc nofile ncpu) (c : Fin ncpu) : Option (Fin nproc) :=
  match k.cpu c with
  | .ran p => (k.pc p).child
  | .idle | .scan _ => none

/-- **The step leaves no `killed` behind**: a `kill` does not hit a free slot, and a failing fork does
not give back a killed one. -/
def Kernel.killSafe (k : Kernel nproc nofile ncpu) : Act nofile ncpu → Bool
  | .on _ (.kill pid) => (k.findPid pid).all fun i => (k.proc i).state ≠ .unused
  | .on c (.kalloc false) | .on c (.copyuvm false) =>
      (k.filling c).all fun np => !(k.proc np).killed
  | _ => true

/-- **Whoever is killed has been named**: in the run of `as` up to `k`, every active slot with
`killed` set has been active since some `kill` of its pid. -/
def KilledByName (as : List (Act nofile ncpu)) (k : Kernel nproc nofile ncpu) : Prop :=
  ∀ i, (k.proc i).state ≠ .unused → (k.proc i).killed = true →
    ∃ bs c cs t, as = bs ++ .on c (.kill (k.proc i).pid) :: cs ∧ run step .init bs = some t ∧
      (t.proc i).pid = (k.proc i).pid ∧
      EveryStep step (fun u _ => (u.proc i).state ≠ .unused) t
        (.on c (.kill (k.proc i).pid) :: cs)

/-- The slot that a safe `kill` finds is active. -/
theorem active_of_killSafe {c : Fin ncpu} {pid : ℤ} {i : Fin nproc}
    (hsafe : k.killSafe (.on c (.kill pid)) = true) (hi : k.findPid pid = some i) :
    (k.proc i).state ≠ .unused := by
  simpa [killSafe, hi] using hsafe

/-- The slot that a safe failing fork gives back is not killed. -/
theorem unkilled_of_killSafe {a : Act nofile ncpu} {c : Fin ncpu} {p np : Fin nproc}
    (hsafe : k.killSafe a = true) (ha : a = .on c (.kalloc false) ∨ a = .on c (.copyuvm false))
    (hcpu : k.cpu c = .ran p) (hp : (k.pc p).child = some np) : (k.proc np).killed = false := by
  have hfilling : k.filling c = some np := by rw [filling, hcpu, ← hp]
  rcases ha with rfl | rfl <;> simpa [killSafe, hfilling] using hsafe

section Step

variable {a : Act nofile ncpu} (h : Control k) (ha : Trans k a k') (hsafe : k.killSafe a = true)
  (hfree : ∀ i, (k.proc i).state = .unused → (k.proc i).killed = false)

include h ha hsafe hfree

/-- Free slots are not killed, and stay so. -/
theorem unkilled_step : ∀ i, (k'.proc i).state = .unused → (k'.proc i).killed = false := by
  have hkeep : ∀ i, Kept k k' i → (k'.proc i).state = .unused → (k'.proc i).killed = false := by
    intro i hkept hi
    rw [hkept.killed]
    exact hfree i (not_not.mp fun hactive => hkept.active.mpr hactive hi)
  intro i hi
  cases effect_step h ha with
  | quiet hnext hallocs hkept => exact hkeep i (hkept i) hi
  | taken j hnext hallocs hunused hactive hpid hkilled hkept =>
      by_cases hij : i = j
      · exact absurd (hij ▸ hi) hactive
      · exact hkeep i (hkept i hij) hi
  | reaped j hnext hallocs hunused hpid hkilled hkept =>
      by_cases hij : i = j
      · rw [hij, hkilled]
      · exact hkeep i (hkept i hij) hi
  | failed c p j hnext hallocs hcpu hp hact hunused hpid hkilled hkept =>
      by_cases hij : i = j
      · rw [hij, hkilled]
        exact unkilled_of_killSafe hsafe hact hcpu hp
      · exact hkeep i (hkept i hij) hi
  | killed c pid j hnext hallocs hact hj hpid hactive hkept =>
      by_cases hij : i = j
      · subst hact
        rw [hij] at hi
        exact absurd hi (hactive.mpr (active_of_killSafe hsafe hj))
      · exact hkeep i (hkept i hij) hi

/-- **Who is killed** was active under its pid before the step, and was killed already or is named by
it. -/
theorem killed_step {i : Fin nproc} (hi : (k'.proc i).state ≠ .unused)
    (hkill : (k'.proc i).killed = true) :
    (k.proc i).state ≠ .unused ∧ (k'.proc i).pid = (k.proc i).pid ∧
      ((k.proc i).killed = true ∨ ∃ c, a = .on c (.kill (k.proc i).pid)) := by
  have hkeep : Kept k k' i → (k.proc i).state ≠ .unused ∧ (k'.proc i).pid = (k.proc i).pid ∧
      ((k.proc i).killed = true ∨ ∃ c, a = .on c (.kill (k.proc i).pid)) :=
    fun hkept => ⟨hkept.active.mp hi, hkept.pid, Or.inl (hkept.killed ▸ hkill)⟩
  cases effect_step h ha with
  | quiet hnext hallocs hkept => exact hkeep (hkept i)
  | taken j hnext hallocs hunused hactive hpid hkilled hkept =>
      by_cases hij : i = j
      · rw [hij, hkilled, hfree j hunused] at hkill
        cases hkill
      · exact hkeep (hkept i hij)
  | reaped j hnext hallocs hunused hpid hkilled hkept =>
      by_cases hij : i = j
      · exact absurd (hij ▸ hunused) hi
      · exact hkeep (hkept i hij)
  | failed c p j hnext hallocs hcpu hp hact hunused hpid hkilled hkept =>
      by_cases hij : i = j
      · exact absurd (hij ▸ hunused) hi
      · exact hkeep (hkept i hij)
  | killed c pid j hnext hallocs hact hj hpid hactive hkept =>
      by_cases hij : i = j
      · subst hact
        rw [hij]
        exact ⟨active_of_killSafe hsafe hj, hpid, Or.inr ⟨c, by rw [of_findPid hj]⟩⟩
      · exact hkeep (hkept i hij)

end Step

/-- No step of the run of `as` leaves a `killed` behind. -/
def KillSafe (nproc : ℕ) (as : List (Act nofile ncpu)) : Prop :=
  EveryStep step (fun (k : Kernel nproc nofile ncpu) a => k.killSafe a = true) .init as

/-- **In a run whose steps leave no `killed` behind**, free slots are not killed, and whoever is
killed has been named. -/
theorem killedByName_of_run {as : List (Act nofile ncpu)} (h : run step .init as = some k)
    (hsafe : KillSafe nproc as) :
    (∀ i, (k.proc i).state = .unused → (k.proc i).killed = false) ∧ KilledByName as k := by
  refine run_induction (motive := fun as k => KillSafe nproc as →
      (∀ i, (k.proc i).state = .unused → (k.proc i).killed = false) ∧ KilledByName as k)
    (fun _ => ⟨fun _ _ => rfl, fun _ hi => absurd rfl hi⟩) ?_ h hsafe
  intro as k a k' hrun ih hstep hsafe
  obtain ⟨hbefore, hlast⟩ := everyStep_snoc hsafe
  obtain ⟨hfree, hnamed⟩ := ih hbefore
  have hcontrol := Control.of_run hrun
  have htrans := step_trans hstep
  refine ⟨unkilled_step hcontrol htrans (hlast k hrun) hfree, fun i hi hkill => ?_⟩
  obtain ⟨hactive, hpid, hcase⟩ := killed_step hcontrol htrans (hlast k hrun) hfree hi hkill
  rw [hpid]
  rcases hcase with hkill | ⟨c, rfl⟩
  · obtain ⟨bs, c, cs, t, rfl, ht, hpid', hevery⟩ := hnamed i hactive hkill
    refine ⟨bs, c, cs ++ [a], t, by simp, ht, hpid', ?_⟩
    rw [← List.cons_append]
    refine hevery.snoc fun u hu => ?_
    obtain ⟨t', ht', hrest⟩ := run_prefix hrun
    obtain rfl : t = t' := Option.some.inj (ht.symm.trans ht')
    obtain rfl : k = u := Option.some.inj (hrest.symm.trans hu)
    exact hactive
  · refine ⟨as, c, [], k, rfl, hrun, rfl, ?_⟩
    exact everyStep_cons.mpr ⟨hactive, fun _ _ => everyStep_nil⟩

/-- **When `kill` agrees with the queries.** On a reachable kernel it does on `pid` exactly if a free
slot bears `pid` only where an active one does, which is to say, while pids have not wrapped, if no
free slot bears it. In a run whose steps leave no `killed` behind, whoever is killed has been named. -/
theorem kill_agreement {as : List (Act nofile ncpu)} (h : run step .init as = some k) :
    (∀ pid, KillAgrees k pid ↔
      ∀ i, (k.proc i).state = .unused → (k.proc i).pid = pid →
        ∃ j, (k.proc j).state ≠ .unused ∧ (k.proc j).pid = pid) ∧
    (k.allocs < maxAllocs → ∀ pid, KillAgrees k pid ↔
      ∀ i, (k.proc i).state = .unused → (k.proc i).pid ≠ pid) ∧
    (KillSafe nproc as → KilledByName as k) :=
  ⟨fun _ => killAgrees_iff, fun hlt _ => killAgrees_iff_of_sound (Numbered.of_run h hlt).sound,
    fun hsafe => (killedByName_of_run h hsafe).2⟩

/-- The first process forks, and kills its child. -/
def killChildRun (c : Fin ncpu) : List (Act nofile ncpu) :=
  bootRun c ++ forkRun c ++ [.on c (.kill 2)]

/-- The child has been named. -/
theorem kill_agreement_killChildRun : ∃ k : Kernel 4 1 2,
    run step .init (killChildRun 0) = some k ∧ (k.proc 1).killed = true ∧
      KilledByName (killChildRun 0) k := by
  have hrun : (run step (.init : Kernel 4 1 2) (killChildRun 0)).map
      (fun k => (k.proc 1).killed) = some true := by decide +kernel
  obtain ⟨k, hk, hkilled⟩ := Option.map_eq_some_iff.mp hrun
  have hsafe : KillSafe 4 (killChildRun 0 : List (Act 1 2)) := by
    unfold KillSafe
    decide +kernel
  exact ⟨k, hk, hkilled, (kill_agreement hk).2.2 hsafe⟩

/-- The first process calls `kill(0)`, and forks. -/
def killZeroRun (c : Fin ncpu) : List (Act nofile ncpu) :=
  bootRun c ++ [.on c (.kill 0)] ++ forkRun c

/-- **`kill(0)` succeeds** though no process has pid `0`, and the next child is born killed. -/
theorem killZeroRun_disagrees : ∃ k : Kernel 4 1 2,
    run step .init (killZeroRun 0) = some k ∧ ¬ KillAgrees k 0 ∧
      ¬ KilledByName (killZeroRun 0) k := by
  have hrun : (run step (.init : Kernel 4 1 2) (killZeroRun 0)).map (fun k =>
      (((k.proc 1).state, (k.proc 1).pid, (k.proc 1).killed), (k.kill 0).2,
        (k.getProcInfo 0 ⟨0, 0, 0, 0, 0⟩).1)) = some ((.runnable, 2, true), 0, -1) := by
    decide +kernel
  obtain ⟨k, hk, heq⟩ := Option.map_eq_some_iff.mp hrun
  simp only [Prod.mk.injEq] at heq
  obtain ⟨⟨hstate, hpid, hkilled⟩, hret, hinfo⟩ := heq
  refine ⟨k, hk, fun hagrees => ?_, fun hnamed => ?_⟩
  · have hzero := (hagrees.1 ⟨0, 0, 0, 0, 0⟩).mp hret
    rw [hinfo] at hzero
    cases hzero
  · obtain ⟨bs, c, cs, -, has, -⟩ := hnamed 1 (by rw [hstate]; decide) hkilled
    -- nobody calls `kill(2)`
    have hnobody : ∀ c : Fin 2, .on c (.kill 2) ∉ (killZeroRun 0 : List (Act 1 2)) := by
      decide +kernel
    refine hnobody c ?_
    rw [hpid] at has
    rw [has]
    simp

end StudiesOS.ProcessTable
