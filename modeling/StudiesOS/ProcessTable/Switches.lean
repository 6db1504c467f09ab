import StudiesOS.ProcessTable.LifeCycle
import StudiesOS.ProcessTable.Running
import StudiesOS.Transition.History

/-! # Counting the switches
`nrswitch` of a slot is the number of times that some `scheduler` has switched to it since `allocproc`
gave it out: the count is a history variable of the run, and every step keeps the field in step with
it. -/

namespace StudiesOS.ProcessTable

open Kernel

variable {nproc nofile ncpu : ℕ} {k k' : Kernel nproc nofile ncpu} {a : Act nofile ncpu}

/-- What a step adds to the number of switches to the process in slot `i`. -/
def Kernel.tally (i : Fin nproc) (k : Kernel nproc nofile ncpu) (a : Act nofile ncpu) (n : ℕ) : ℕ :=
  if k.allocates a = some i then 0
  else if k.switchesTo a = some i then n + 1
  else n

/-- **How many times some `scheduler` has switched to the process in slot `i`** since its `allocproc`,
in the run of `as`. -/
def switches (i : Fin nproc) (as : List (Act nofile ncpu)) : ℕ :=
  history step (tally i) (.init : Kernel nproc nofile ncpu) 0 as

/-- A step that does not concern the count. -/
theorem Uncounted.tally {i : Fin nproc} (h : Uncounted k a k' i) (n : ℕ) : k.tally i a n = n := by
  rw [Kernel.tally, if_neg h.allocates, if_neg h.switchesTo]

/-! ## The count -/

/-- **The count of the slot `i` is `n`.** -/
structure Counted (i : Fin nproc) (k : Kernel nproc nofile ncpu) (n : ℕ) : Prop where
  /-- The field. -/
  count : (k.proc i).nrswitch = wrap 32 n
  /-- An embryo has not run. -/
  embryo : (k.proc i).state = .embryo → n = 0
  /-- Who runs, sleeps or has exited has run. -/
  ran : (k.proc i).state = .running ∨ (k.proc i).state = .sleeping ∨ (k.proc i).state = .zombie →
    1 ≤ n

/-- **Every step keeps the count.** -/
theorem Counted.step {i : Fin nproc} {n : ℕ} (h : Counted i k n) (hc : Control k)
    (ha : Trans k a k') : Counted i k' (k.tally i a n) := by
  cases turn_step hc ha i with
  | keep hstate hpid hu =>
      rw [hu.tally]
      rcases hstate with heq | ⟨hs, heq⟩
      · exact ⟨hu.count.trans h.count, heq ▸ h.embryo, heq ▸ h.ran⟩
      · refine ⟨hu.count.trans h.count, fun he => ?_, fun hr => ?_⟩ <;> rw [heq] at *
        · cases he
        · exact h.ran (Or.inr (Or.inl hs))
  | taken hfree hembryo hpid hcount halloc =>
      rw [Kernel.tally, if_pos halloc]
      refine ⟨hcount, fun _ => rfl, fun hr => ?_⟩
      rw [hembryo] at hr
      simp at hr
  | publish hembryo hrunnable hpid hu =>
      rw [hu.tally]
      refine ⟨hu.count.trans h.count, fun he => h.embryo hembryo, fun hr => ?_⟩
      rw [hrunnable] at hr
      simp at hr
  | dispatch hrunnable hrunning hpid hcount halloc hswitch =>
      rw [Kernel.tally, if_neg halloc, if_pos hswitch]
      refine ⟨?_, fun he => ?_, fun _ => Nat.succ_pos n⟩
      · -- the counter is an `int`, and counts modulo `2^32`
        rw [hcount, h.count]
        push_cast
        exact Int.bmod_add_bmod
      · cases hrunning.symm.trans he
  | offCpu hrunning hoff hpid hu =>
      rw [hu.tally]
      refine ⟨hu.count.trans h.count, fun he => ?_, fun _ => h.ran (Or.inl hrunning)⟩
      rcases hoff with hs | hs <;> cases hs.symm.trans he
  | exits hrunning hzombie hpid hu =>
      rw [hu.tally]
      refine ⟨hu.count.trans h.count, fun he => ?_, fun _ => h.ran (Or.inl hrunning)⟩
      cases hzombie.symm.trans he
  | givenUp hfree hu =>
      rw [hu.tally]
      refine ⟨hu.count.trans h.count, fun he => ?_, fun hr => ?_⟩
      · cases hfree.symm.trans he
      · rw [hfree] at hr
        simp at hr

/-- **The count is exact** in every reachable kernel. -/
theorem counted_of_run {as : List (Act nofile ncpu)} (h : run step .init as = some k)
    (i : Fin nproc) : Counted i k (switches i as) := by
  refine (history_invariant (I := fun (k : Kernel nproc nofile ncpu) n => Control k ∧ Counted i k n)
    ⟨.start, ?_⟩ ?_ h).2
  · refine ⟨rfl, fun _ => rfl, fun hr => ?_⟩
    rcases hr with hr | hr | hr <;> cases hr
  · rintro t n a t' ⟨hc, hn⟩ hstep
    have htrans := step_trans hstep
    exact ⟨hc.step htrans, hn.step hc htrans⟩

/-! ## Two moments of a run -/

/-- The steps in which `allocproc` does not give out the slot `i`. -/
def KeepsSlot (i : Fin nproc) (k : Kernel nproc nofile ncpu) (a : Act nofile ncpu) : Prop :=
  k.allocates a ≠ some i

/-- **The process in slot `i` has given up the CPU, and has run again**, in the run of `bs`. -/
def RanAgain (i : Fin nproc) (k : Kernel nproc nofile ncpu) (bs : List (Act nofile ncpu)) : Prop :=
  ∃ as cs ds t u, bs = as ++ cs ++ ds ∧ run step k as = some t ∧ run step t cs = some u ∧
    (t.proc i).state ≠ .running ∧ (u.proc i).state = .running

/-- The count of a longer run. -/
theorem switches_append {as : List (Act nofile ncpu)} (h : run step .init as = some k)
    (i : Fin nproc) (bs : List (Act nofile ncpu)) :
    switches i (as ++ bs) = history step (tally i) k (switches i as) bs :=
  history_append h 0 bs

/-- The count of a process does not go down. -/
theorem le_tally {i : Fin nproc} (halloc : KeepsSlot i k a) (n : ℕ) : n ≤ k.tally i a n := by
  unfold Kernel.tally
  rw [if_neg halloc]
  split_ifs
  · exact Nat.le_succ n
  · exact le_rfl

/-- **The count of a process does not go down** in a run. -/
theorem le_history {i : Fin nproc} {bs : List (Act nofile ncpu)}
    (hkeep : EveryStep step (KeepsSlot i) k bs) (hrun : run step k bs = some k') (n : ℕ) :
    n ≤ history step (tally i) k n bs :=
  guarded_history (I := fun _ m => n ≤ m) le_rfl
    (fun _ m _ _ hm hok _ => hm.trans (le_tally hok m)) hkeep hrun

/-- **Who runs again has been switched to**. -/
theorem lt_history {i : Fin nproc} (hc : Control k) {bs : List (Act nofile ncpu)}
    (hkeep : EveryStep step (KeepsSlot i) k bs) (hrun : run step k bs = some k')
    (hoff : (k.proc i).state ≠ .running) (hon : (k'.proc i).state = .running) (n : ℕ) :
    n < history step (tally i) k n bs := by
  refine (guarded_history (I := fun (t : Kernel nproc nofile ncpu) m => Control t ∧ n ≤ m ∧
    ((t.proc i).state = .running → n < m)) ⟨hc, le_rfl, fun hs => absurd hs hoff⟩ ?_ hkeep hrun).2.2
      hon
  rintro t m a t' ⟨hc, hle, hlt⟩ hok hstep
  have htrans := step_trans hstep
  refine ⟨hc.step htrans, hle.trans (le_tally hok m), fun hs => ?_⟩
  cases turn_step hc htrans i with
  | keep hstate hpid hu =>
      rw [hu.tally]
      rcases hstate with heq | ⟨-, heq⟩
      · exact hlt (heq ▸ hs)
      · cases heq.symm.trans hs
  | dispatch _ _ _ _ halloc hswitch =>
      rw [Kernel.tally, if_neg halloc, if_pos hswitch]
      exact Nat.lt_succ_of_le hle
  | taken _ heq | publish _ heq | exits _ heq | givenUp heq => cases heq.symm.trans hs
  | offCpu _ hoff => rcases hoff with heq | heq <;> cases heq.symm.trans hs

/-- **The count of a process between two moments of a run.** -/
theorem switches_mono {as bs : List (Act nofile ncpu)} (h : run step .init as = some k)
    (hrun : run step k bs = some k') {i : Fin nproc} (hkeep : EveryStep step (KeepsSlot i) k bs) :
    switches i as ≤ switches i (as ++ bs) ∧ (RanAgain i k bs → switches i as < switches i (as ++ bs)) := by
  rw [switches_append h]
  refine ⟨le_history hkeep hrun _, ?_⟩
  rintro ⟨cs, ds, es, t, u, rfl, ht, hu, hoff, hon⟩
  have hrun₁ : run step k (cs ++ ds) = some u := by rw [run_append, ht]; exact hu
  obtain ⟨hkeep₁, hkeep₃⟩ := hkeep.split hrun₁
  obtain ⟨hkeep₀, hkeep₂⟩ := hkeep₁.split ht
  have hrun₃ : run step u es = some k' := by
    rw [run_append, hrun₁] at hrun
    exact hrun
  have hct : Control t := run_invariant (Control.of_run h) (fun _ _ _ hc hs => hc.step (step_trans hs)) ht
  rw [history_append hrun₁, history_append ht]
  calc switches i as ≤ history step (tally i) k (switches i as) cs := le_history hkeep₀ ht _
    _ < history step (tally i) t (history step (tally i) k (switches i as) cs) ds :=
        lt_history hct hkeep₂ hu hoff hon _
    _ ≤ _ := le_history hkeep₃ hrun₃ _

/-- **A slot that bears the same pid again has not been given out**, as long as pids do not wrap. -/
theorem keepsSlot_of_pid (hnum : Numbered k) {bs : List (Act nofile ncpu)}
    (hrun : run step k bs = some k') (hwrap : k'.allocs < maxAllocs) {i : Fin nproc}
    (hi : (k.proc i).state ≠ .unused) (hi' : (k'.proc i).state ≠ .unused)
    (hpid : (k'.proc i).pid = (k.proc i).pid) : EveryStep step (KeepsSlot i) k bs := by
  rintro cs a ds t rfl ht halloc
  obtain ⟨t₁, ht₁, hrun₁⟩ := run_prefix hrun
  obtain rfl : t₁ = t := Option.some.inj (ht₁.symm.trans ht)
  rw [run_cons] at hrun₁
  obtain ⟨u, hu, hrun₂⟩ := Option.bind_eq_some_iff.mp hrun₁
  have hct : Control t₁ := run_invariant hnum.control (fun _ _ _ hc hs => hc.step (step_trans hs)) ht
  have htrans := step_trans hu
  have hle : u.allocs ≤ k'.allocs := allocs_le_run (hct.step htrans) hrun₂
  have hlt : t₁.allocs < maxAllocs := (allocs_le hct htrans).trans_lt (hle.trans_lt hwrap)
  obtain ⟨hnumt, hsince⟩ := hnum.run ht hlt
  obtain ⟨hnumu, -⟩ := hnumt.step htrans (hle.trans_lt hwrap)
  have hsinceu := (hnumu.run hrun₂ hwrap).2
  have hold : (k.proc i).pid < k.nextpid := (hnum.sound.live_range (r := k.registry) hi).2
  have hnext : k.nextpid ≤ t₁.nextpid := hsince.next_le
  -- the slot has got a new pid, and the old one does not come back
  have hnew : (u.proc i).pid = t₁.nextpid := by
    cases turn_step hct htrans i with
    | taken _ _ hpid => exact hpid
    | keep _ _ hu | publish _ _ _ hu | offCpu _ _ _ hu | exits _ _ _ hu | givenUp _ hu =>
        exact absurd halloc hu.allocates
    | dispatch _ _ _ _ hne => exact absurd halloc hne
  have hu' : t₁.nextpid ≤ u.nextpid := by
    rcases nextpid_step hct htrans with ⟨heq, -⟩ | ⟨heq, -⟩
    · exact heq.ge
    · have hnextt := hnumt.next
      have hnextu := hnumu.next
      have := allocs_le hct htrans
      omega
  have hid : (u.proc i).pid = (k'.proc i).pid :=
    (hsinceu.old i hi' (show (k'.proc i).pid < u.nextpid by omega)).2
  omega

/-! ## What is reported -/

/-- **A pid that is found before and after a run** is found in the same slot, as long as pids do not
wrap. -/
theorem findActive_same (hnum : Numbered k) {bs : List (Act nofile ncpu)}
    (hrun : run step k bs = some k') (hwrap : k'.allocs < maxAllocs) {pid : ℤ} {pinfo : ProcessInfo}
    {i : Fin nproc} (hfind : k.findActive pid = some i)
    (hzero : (k'.getProcInfo pid pinfo).1 = 0) : k'.findActive pid = some i := by
  obtain ⟨hnum', hsince⟩ := hnum.run hrun hwrap
  obtain ⟨hi, rfl⟩ := of_findActive hfind
  obtain ⟨j, hj, hpid⟩ := (getProcInfo_eq_zero k').mp hzero
  -- the process that bears the pid now was there before
  have hold : (k.proc i).pid < k.nextpid := (hnum.sound.live_range (r := k.registry) hi).2
  obtain ⟨hlive, hid⟩ := hsince.old j hj (show (k'.proc j).pid < k.nextpid by omega)
  obtain rfl : j = i := hnum.sound.live_inj (r := k.registry) hlive (hid.trans hpid)
  rw [← hpid]
  exact findActive_pid hnum'.sound hj

/-- **`nrswitch` is an exact count** of the switches to a process since its `allocproc`. -/
theorem nrswitch_exact {as bs : List (Act nofile ncpu)} (h : run step .init as = some k)
    (hrun : run step k bs = some k') (i : Fin nproc) (hcount : switches i as < 2 ^ 31)
    (hcount' : switches i (as ++ bs) < 2 ^ 31) :
    (k.proc i).nrswitch = switches i as ∧
    (∀ pid pinfo, k.findActive pid = some i →
      (k.getProcInfo pid pinfo).2.nrswitch = switches i as) ∧
    ((k.proc i).state = .embryo → (k.proc i).nrswitch = 0) ∧
    ((k.proc i).state = .running ∨ (k.proc i).state = .sleeping ∨ (k.proc i).state = .zombie →
      1 ≤ (k.proc i).nrswitch) ∧
    (∀ a k₁, step k a = some k₁ → k.allocates a ≠ some i → k.switchesTo a ≠ some i →
      (k₁.proc i).nrswitch = (k.proc i).nrswitch) ∧
    (EveryStep step (KeepsSlot i) k bs → (k.proc i).nrswitch ≤ (k'.proc i).nrswitch ∧
      (RanAgain i k bs → (k.proc i).nrswitch < (k'.proc i).nrswitch)) ∧
    (k'.allocs < maxAllocs → ∀ pid pinfo, k.findActive pid = some i →
      (k'.getProcInfo pid pinfo).1 = 0 →
      (k.getProcInfo pid pinfo).2.nrswitch ≤ (k'.getProcInfo pid pinfo).2.nrswitch ∧
      (RanAgain i k bs →
        (k.getProcInfo pid pinfo).2.nrswitch < (k'.getProcInfo pid pinfo).2.nrswitch)) := by
  have hrun' : run step .init (as ++ bs) = some k' := by rw [run_append, h]; exact hrun
  have hwrap : ∀ {n : ℕ}, n < 2 ^ 31 → wrap 32 (n : ℤ) = n := by
    intro n hn
    refine wrap_eq_self ⟨?_, ?_⟩ <;> omega
  have hcounted := counted_of_run h i
  have heq : (k.proc i).nrswitch = switches i as := hcounted.count.trans (hwrap hcount)
  have heq' : (k'.proc i).nrswitch = switches i (as ++ bs) :=
    (counted_of_run hrun' i).count.trans (hwrap hcount')
  have hreport : ∀ {t : Kernel nproc nofile ncpu} {pid pinfo}, t.findActive pid = some i →
      (t.getProcInfo pid pinfo).2.nrswitch = (t.proc i).nrswitch := by
    intro t pid pinfo hfind
    rw [getProcInfo, hfind]
    rfl
  have hmono : EveryStep step (KeepsSlot i) k bs → (k.proc i).nrswitch ≤ (k'.proc i).nrswitch ∧
      (RanAgain i k bs → (k.proc i).nrswitch < (k'.proc i).nrswitch) := by
    intro hkeep
    obtain ⟨hle, hlt⟩ := switches_mono h hrun hkeep
    rw [heq, heq']
    exact ⟨by exact_mod_cast hle, fun hran => by exact_mod_cast hlt hran⟩
  refine ⟨heq, fun pid pinfo hfind => (hreport hfind).trans heq, fun hembryo => ?_, fun hran => ?_,
    fun a k₁ hstep halloc hswitch => ?_, hmono, fun hlt pid pinfo hfind hzero => ?_⟩
  · rw [heq, hcounted.embryo hembryo]
    rfl
  · rw [heq]
    exact_mod_cast hcounted.ran hran
  · cases turn_step (Control.of_run h) (step_trans hstep) i with
    | keep _ _ hu | publish _ _ _ hu | offCpu _ _ _ hu | exits _ _ _ hu | givenUp _ hu =>
        exact hu.count
    | taken _ _ _ _ hi => exact absurd hi halloc
    | dispatch _ _ _ _ _ hi => exact absurd hi hswitch
  · have hc : Control k := .of_run h
    have hallocs := allocs_le_run hc hrun
    have hnum := Numbered.of_run h (hallocs.trans_lt hlt)
    have hfind' := findActive_same hnum hrun hlt hfind hzero
    obtain ⟨hi, hpid⟩ := of_findActive hfind
    obtain ⟨hi', hpid'⟩ := of_findActive hfind'
    rw [hreport hfind, hreport hfind']
    exact hmono (keepsSlot_of_pid hnum hrun hlt hi hi' (hpid'.trans hpid.symm))

/-- The first process yields on CPU `c` of a kernel with `nproc` slots, and runs again. -/
def yieldRun (nproc : ℕ) (c : Fin ncpu) : List (Act nofile ncpu) :=
  .on c .yield :: List.replicate (nproc + 2) (.on c .schedule)

theorem nrswitch_exact_yieldRun : ∃ k k' : Kernel 4 1 2, run step .init (bootRun 0) = some k ∧
    run step k (yieldRun 4 0) = some k' ∧
      (k.getProcInfo 1 ⟨0, 0, 0, 0, 0⟩).2.nrswitch < (k'.getProcInfo 1 ⟨0, 0, 0, 0, 0⟩).2.nrswitch := by
  have hk : (run step (.init : Kernel 4 1 2) (bootRun 0)).map (fun k => k.findActive 1)
      = some (some 0) := by decide +kernel
  have ht : (run step (.init : Kernel 4 1 2) (bootRun 0 ++ [.on 0 .yield])).map
      (fun t => (t.proc 0).state) = some .runnable := by decide +kernel
  have hk' : (run step (.init : Kernel 4 1 2) (bootRun 0 ++ [.on 0 .yield] ++
      List.replicate 6 (.on 0 .schedule))).map
        (fun k' => (k'.allocs, (k'.getProcInfo 1 ⟨0, 0, 0, 0, 0⟩).1, (k'.proc 0).state))
          = some (1, 0, .running) := by decide +kernel
  obtain ⟨k, hrun, hfind⟩ := Option.map_eq_some_iff.mp hk
  obtain ⟨t, hrunt, hoff⟩ := Option.map_eq_some_iff.mp ht
  obtain ⟨k', hrun', heq⟩ := Option.map_eq_some_iff.mp hk'
  simp only [Prod.mk.injEq] at heq
  obtain ⟨hallocs, hzero, hon⟩ := heq
  have hyield : run step k [.on 0 .yield] = some t := by
    rw [run_append, hrun] at hrunt
    exact hrunt
  have hagain : run step t (List.replicate 6 (.on 0 .schedule)) = some k' := by
    rw [run_append, hrunt] at hrun'
    exact hrun'
  have hbs : run step k (yieldRun 4 0) = some k' := by
    show run step k ([.on 0 .yield] ++ List.replicate 6 (.on 0 .schedule)) = some k'
    rw [run_append, hyield]
    exact hagain
  have hran : RanAgain 0 k (yieldRun 4 0) :=
    ⟨[.on 0 .yield], List.replicate 6 (.on 0 .schedule), [], t, k', rfl, hyield, hagain,
      by rw [hoff]; decide, hon⟩
  have hcount : switches (0 : Fin 4) (bootRun 0 : List (Act 1 2)) < 2 ^ 31 := by decide +kernel
  have hcount' : switches (0 : Fin 4) (bootRun 0 ++ yieldRun 4 0 : List (Act 1 2)) < 2 ^ 31 := by
    decide +kernel
  obtain ⟨-, -, -, -, -, -, hreport⟩ := nrswitch_exact hrun hbs 0 hcount hcount'
  have hwrap : k'.allocs < maxAllocs := by rw [hallocs]; decide
  exact ⟨k, k', hrun, hbs, (hreport hwrap 1 ⟨0, 0, 0, 0, 0⟩ hfind hzero).2 hran⟩

end StudiesOS.ProcessTable
