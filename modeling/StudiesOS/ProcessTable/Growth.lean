import StudiesOS.ProcessTable.SystemCalls
import StudiesOS.ProcessTable.Sizes
import StudiesOS.ProcessTable.Queries

/-! # Growing and shrinking a process
`growproc` of `proc.c` and `sys_sbrk` over it. The functions of `vm.c` are not part of the repository: they
are a parameter (`Vm`), and what is known of them is a hypothesis (`Vm.AsInXv6`). Both take sizes as
unsigned words and return the new size, or `0` for a failure, although `0` is also a size. -/

namespace StudiesOS.ProcessTable

variable {nproc nofile ncpu : ℕ} {π : Type}

open Kernel (pgsize)

/-! ## The functions of `vm.c` -/

/-- **`vm.c`** on page tables of the type `π`. -/
structure Vm (π : Type) where
  /-- Whether the page `q` of user memory, the one from `q * pgsize` on, is mapped. -/
  mapped : π → ℕ → Prop
  /-- `allocuvm(pgdir, oldsz, newsz)`. -/
  allocuvm : π → UInt32 → UInt32 → UInt32 × π
  /-- `deallocuvm(pgdir, oldsz, newsz)`. -/
  deallocuvm : π → UInt32 → UInt32 → UInt32 × π

/-- **What xv6 promises of them.** -/
structure Vm.AsInXv6 (vm : Vm π) : Prop where
  /-- There is no user memory from `KERNBASE` on. -/
  alloc_high : ∀ pgdir oldsz newsz, KERNBASE ≤ newsz.toNat →
    (vm.allocuvm pgdir oldsz newsz).1 = 0 ∧
      ∀ q, vm.mapped (vm.allocuvm pgdir oldsz newsz).2 q ↔ vm.mapped pgdir q
  /-- Below it, either memory is short, or the pages up to the new size are mapped. -/
  alloc_low : ∀ pgdir oldsz newsz, oldsz ≤ newsz → newsz.toNat < KERNBASE →
    ((vm.allocuvm pgdir oldsz newsz).1 = 0 ∧
      ∀ q, vm.mapped (vm.allocuvm pgdir oldsz newsz).2 q ↔ vm.mapped pgdir q) ∨
    ((vm.allocuvm pgdir oldsz newsz).1 = newsz ∧
      ∀ q, vm.mapped (vm.allocuvm pgdir oldsz newsz).2 q ↔
        vm.mapped pgdir q ∨ oldsz.toNat ≤ q * pgsize ∧ q * pgsize < newsz.toNat)
  /-- Nothing is done for a size that is not smaller. -/
  dealloc_up : ∀ pgdir oldsz newsz, oldsz ≤ newsz →
    (vm.deallocuvm pgdir oldsz newsz).1 = oldsz ∧
      ∀ q, vm.mapped (vm.deallocuvm pgdir oldsz newsz).2 q ↔ vm.mapped pgdir q
  /-- Otherwise the pages between the new size and the old one are unmapped. -/
  dealloc_down : ∀ pgdir oldsz newsz, newsz < oldsz →
    (vm.deallocuvm pgdir oldsz newsz).1 = newsz ∧
      ∀ q, vm.mapped (vm.deallocuvm pgdir oldsz newsz).2 q ↔
        vm.mapped pgdir q ∧ (q * pgsize < newsz.toNat ∨ oldsz.toNat ≤ q * pgsize)

/-! ## The code -/

/-- **`growproc(n)`** of the process `self`: what it returns, and what it leaves. -/
def growproc (vm : Vm π) (k : Kernel nproc nofile ncpu) (self : Fin nproc) (pgdir : π) (n : Int32) :
    Int32 × Kernel nproc nofile ncpu × π :=
  let sz := UInt32.ofNat (k.proc self).sz
  -- curproc->sz = sz; return 0;
  let store (sz : UInt32) := k.modify self fun p => { p with sz := sz.toNat }
  if n > 0 then
    let (sz, pgdir) := vm.allocuvm pgdir sz (sz + n.toUInt32)
    if sz = 0 then (-1, k, pgdir) else (0, store sz, pgdir)
  else if n < 0 then
    let (sz, pgdir) := vm.deallocuvm pgdir sz (sz + n.toUInt32)
    if sz = 0 then (-1, k, pgdir) else (0, store sz, pgdir)
  else (0, store sz, pgdir)

/-- **`sys_sbrk()`.** -/
def Trap.sysSbrk (vm : Vm π) (t : Trap nproc nofile ncpu) (pgdir : π) :
    Int32 × Trap nproc nofile ncpu × π :=
  match t.argint 0 with
  | (none, t) => (-1, t, pgdir)
  | (some n, t) =>
      let addr := t.sz.toInt32
      let (r, kernel, pgdir) := growproc vm t.kernel t.self pgdir n
      (if r < 0 then -1 else addr, { t with kernel := kernel }, pgdir)

/-! ## All or nothing -/

/-- **The request for `n` bytes is granted**: the old size is returned, the size that `getProcInfo`
reports is larger by `n` as an integer, and the pages below it are mapped. -/
structure Granted (vm : Vm π) (t : Trap nproc nofile ncpu) (n : Int32)
    (r : Int32 × Trap nproc nofile ncpu × π) : Prop where
  /-- What is returned. -/
  returned : r.1.toInt = (t.kernel.proc t.self).sz
  /-- What `getProcInfo` reports. -/
  reported : (r.2.1.kernel.procInfo t.self).sz = (t.kernel.proc t.self).sz + n.toInt
  /-- What is mapped. -/
  mapped : ∀ q : ℕ, (q * pgsize : ℤ) < (t.kernel.proc t.self).sz + n.toInt → vm.mapped r.2.2 q

/-- **The request is refused**: `-1` is returned, and the size and the pages are as before. -/
structure Refused (vm : Vm π) (t : Trap nproc nofile ncpu) (pgdir : π)
    (r : Int32 × Trap nproc nofile ncpu × π) : Prop where
  /-- What is returned. -/
  returned : r.1 = -1
  /-- The size. -/
  size : (r.2.1.kernel.proc t.self).sz = (t.kernel.proc t.self).sz
  /-- The pages. -/
  mapped : ∀ q, vm.mapped r.2.2 q ↔ vm.mapped pgdir q

/-- **All or nothing.** -/
def AllOrNothing (vm : Vm π) (t : Trap nproc nofile ncpu) (pgdir : π) (n : Int32)
    (r : Int32 × Trap nproc nofile ncpu × π) : Prop :=
  Granted vm t n r ∨ Refused vm t pgdir r

/-! ## What `growproc` does -/

/-- **What `growproc(n)` does** to a process of the size `sz`. -/
inductive Growth (vm : Vm π) (k : Kernel nproc nofile ncpu) (self : Fin nproc) (pgdir : π) (n : Int32) :
    Int32 × Kernel nproc nofile ncpu × π → Prop
  /-- The size is changed by `n`, and the pages follow. -/
  | granted (sz : ℕ) (pgdir' : π) (hn : n.toInt = 0 ∨ 0 < ((k.proc self).sz : ℤ) + n.toInt)
      (hsz : (sz : ℤ) = (k.proc self).sz + n.toInt) (hlt : sz < KERNBASE)
      (hmapped : ∀ q, q * pgsize < sz → vm.mapped pgdir q ∨ (k.proc self).sz ≤ q * pgsize →
        vm.mapped pgdir' q) :
      Growth vm k self pgdir n (0, k.modify self fun p => { p with sz := sz }, pgdir')
  /-- There is no memory, or the process has no size that could shrink. -/
  | refused (pgdir' : π) (hn : 0 < n.toInt ∨ (k.proc self).sz = 0)
      (hmapped : ∀ q, vm.mapped pgdir' q ↔ vm.mapped pgdir q) :
      Growth vm k self pgdir n (-1, k, pgdir')
  /-- The process shrinks to zero: the pages are gone, and the `0` is taken for a failure. -/
  | emptied (pgdir' : π) (hpos : 0 < (k.proc self).sz)
      (hn : ((k.proc self).sz : ℤ) + n.toInt = 0)
      (hmapped : ∀ q, q * pgsize < (k.proc self).sz → ¬ vm.mapped pgdir' q) :
      Growth vm k self pgdir n (-1, k, pgdir')
  /-- The process shrinks below zero: the new size has wrapped, and nothing is done. -/
  | ignored (pgdir' : π) (hpos : 0 < (k.proc self).sz)
      (hn : ((k.proc self).sz : ℤ) + n.toInt < 0)
      (hmapped : ∀ q, vm.mapped pgdir' q ↔ vm.mapped pgdir q) :
      Growth vm k self pgdir n
        (0, k.modify self fun p => { p with sz := (k.proc self).sz }, pgdir')

variable {vm : Vm π} {k : Kernel nproc nofile ncpu} {self : Fin nproc} {pgdir : π} {n : Int32}

/-- The result of a function of `vm.c`, as `growproc` takes it. -/
def takeSize (k : Kernel nproc nofile ncpu) (self : Fin nproc) (r : UInt32 × π) :
    Int32 × Kernel nproc nofile ncpu × π :=
  if r.1 = 0 then (-1, k, r.2) else (0, k.modify self fun p => { p with sz := r.1.toNat }, r.2)

/-- The three cases of `growproc`. -/
theorem growproc_eq (vm : Vm π) (k : Kernel nproc nofile ncpu) (self : Fin nproc) (pgdir : π)
    (n : Int32) :
    growproc vm k self pgdir n =
      if 0 < n.toInt then
        takeSize k self (vm.allocuvm pgdir (UInt32.ofNat (k.proc self).sz)
          (UInt32.ofNat (k.proc self).sz + n.toUInt32))
      else if n.toInt < 0 then
        takeSize k self (vm.deallocuvm pgdir (UInt32.ofNat (k.proc self).sz)
          (UInt32.ofNat (k.proc self).sz + n.toUInt32))
      else (0, k.modify self fun p =>
        { p with sz := (UInt32.ofNat (k.proc self).sz).toNat }, pgdir) := by
  rw [growproc]
  simp only [gt_iff_lt, Int32.lt_iff_toInt_lt, Int32.toInt_zero, takeSize]

/-- A size that is not zero is stored. -/
theorem takeSize_stored {r : UInt32 × π} {sz : ℕ} (hr : r.1.toNat = sz) (hpos : 0 < sz) :
    takeSize k self r = (0, k.modify self fun p => { p with sz := sz }, r.2) := by
  subst hr
  have hne : r.1 ≠ 0 := by
    intro h
    rw [h] at hpos
    exact absurd hpos (by decide)
  rw [takeSize, if_neg hne]

/-- Zero is taken for a failure. -/
theorem takeSize_zero {r : UInt32 × π} (hr : r.1.toNat = 0) : takeSize k self r = (-1, k, r.2) := by
  have hzero : r.1 = 0 := UInt32.toNat_inj.mp hr
  rw [takeSize, if_pos hzero]

/-- **Growing**: the sum does not wrap. -/
theorem Growth.of_allocuvm (hvm : vm.AsInXv6) (hsz : (k.proc self).sz < 2 ^ 31) {old new : UInt32}
    (hold : old.toNat = (k.proc self).sz) (hnew : (new.toNat : ℤ) = (k.proc self).sz + n.toInt)
    (hpos : 0 < n.toInt) : Growth vm k self pgdir n (takeSize k self (vm.allocuvm pgdir old new)) := by
  have hle : old ≤ new := UInt32.le_iff_toNat_le.mpr (by omega)
  by_cases hhigh : KERNBASE ≤ new.toNat
  · obtain ⟨hret, hsame⟩ := hvm.alloc_high pgdir old new hhigh
    rw [takeSize_zero (congrArg UInt32.toNat hret)]
    exact .refused _ (Or.inl hpos) hsame
  · rcases hvm.alloc_low pgdir old new hle (by omega) with ⟨hret, hsame⟩ | ⟨hret, hpages⟩
    · rw [takeSize_zero (congrArg UInt32.toNat hret)]
      exact .refused _ (Or.inl hpos) hsame
    · rw [takeSize_stored (congrArg UInt32.toNat hret) (by omega)]
      refine .granted _ _ (Or.inr (by omega)) hnew (by omega) fun q hq hor => (hpages q).mpr ?_
      exact hor.imp_right fun hge => ⟨by omega, hq⟩

/-- **Shrinking**, not below zero. -/
theorem Growth.of_deallocuvm (hvm : vm.AsInXv6) (hsz : (k.proc self).sz < 2 ^ 31) {old new : UInt32}
    (hold : old.toNat = (k.proc self).sz) (hnew : (new.toNat : ℤ) = (k.proc self).sz + n.toInt)
    (hneg : n.toInt < 0) : Growth vm k self pgdir n (takeSize k self (vm.deallocuvm pgdir old new)) := by
  have hless : new < old := UInt32.lt_iff_toNat_lt.mpr (by omega)
  obtain ⟨hret, hpages⟩ := hvm.dealloc_down pgdir old new hless
  have hnat := congrArg UInt32.toNat hret
  by_cases hzero : ((k.proc self).sz : ℤ) + n.toInt = 0
  · rw [takeSize_zero (by omega)]
    refine .emptied _ (by omega) hzero fun q hq hmapped => ?_
    rcases ((hpages q).mp hmapped).2 with hq' | hq' <;> omega
  · rw [takeSize_stored hnat (by omega)]
    have hlow : new.toNat < KERNBASE := by rw [KERNBASE]; omega
    refine .granted _ _ (Or.inr (by omega)) hnew hlow fun q hq hor => (hpages q).mpr ?_
    exact ⟨hor.resolve_right (by omega), Or.inl hq⟩

/-- **Shrinking below zero**: the new size wraps, and is not smaller than the old one. -/
theorem Growth.of_deallocuvm_wrapped (hvm : vm.AsInXv6) {old new : UInt32}
    (hold : old.toNat = (k.proc self).sz) (hle : old ≤ new)
    (hbelow : ((k.proc self).sz : ℤ) + n.toInt < 0) :
    Growth vm k self pgdir n (takeSize k self (vm.deallocuvm pgdir old new)) := by
  obtain ⟨hret, hsame⟩ := hvm.dealloc_up pgdir old new hle
  have hnat := (congrArg UInt32.toNat hret).trans hold
  by_cases hzero : (k.proc self).sz = 0
  · rw [takeSize_zero (hnat.trans hzero)]
    exact .refused _ (Or.inr hzero) hsame
  · rw [takeSize_stored hnat (by omega)]
    exact .ignored _ (by omega) hbelow hsame

/-- **`growproc` does one of these.** -/
theorem growproc_growth (hvm : vm.AsInXv6) (hsz : (k.proc self).sz < 2 ^ 31) :
    Growth vm k self pgdir n (growproc vm k self pgdir n) := by
  have hold : (UInt32.ofNat (k.proc self).sz).toNat = (k.proc self).sz := by
    rw [UInt32.toNat_ofNat', Nat.mod_eq_of_lt (by omega)]
  have hnew : (UInt32.ofNat (k.proc self).sz + n.toUInt32).toNat
      = ((k.proc self).sz + n.toUInt32.toNat) % 2 ^ 32 := by
    rw [UInt32.toNat_add, hold]
  -- `n` as a word and as an integer: from here on everything is linear arithmetic
  have hword := toInt_cases n
  have hlt := n.toUInt32.toNat_lt
  rw [growproc_eq]
  split_ifs with hpos hneg
  · exact .of_allocuvm hvm hsz hold (by omega) hpos
  · by_cases hbelow : ((k.proc self).sz : ℤ) + n.toInt < 0
    · exact .of_deallocuvm_wrapped hvm hold (UInt32.le_iff_toNat_le.mpr (by omega)) hbelow
    · exact .of_deallocuvm hvm hsz hold (by omega) hneg
  · rw [hold]
    exact .granted _ _ (Or.inl (by omega)) (by omega) hsz fun q hq hor => hor.resolve_right (by omega)

/-! ## What `sbrk` does -/

variable {t : Trap nproc nofile ncpu}

/-- A size below `KERNBASE`, as an `int`. -/
theorem toInt_size (hsz : (t.kernel.proc t.self).sz < 2 ^ 31) :
    t.sz.toInt32.toInt = (t.kernel.proc t.self).sz := by
  have hcases := toInt_cases t.sz.toInt32
  rw [UInt32.toUInt32_toInt32, Trap.sz_toNat (by rw [KERNBASE]; omega)] at hcases
  omega

/-- `sbrk` returns the old size, or `-1` when `growproc` does. -/
theorem sysSbrk_eq (hsz : (t.kernel.proc t.self).sz < 2 ^ 31) (hn : (t.argint 0).1 = some n) :
    t.sysSbrk vm pgdir =
      (if (growproc vm t.kernel t.self pgdir n).1 < 0 then -1 else t.sz.toInt32,
        { t.record (t.argLoads 0) with kernel := (growproc vm t.kernel t.self pgdir n).2.1 },
        (growproc vm t.kernel t.self pgdir n).2.2) := by
  have harg := Trap.argint_eq (t := t) (by rw [KERNBASE]; omega) 0
  split_ifs at harg with hin
  · rw [harg] at hn
    rw [Trap.sysSbrk, harg, Option.some.inj hn]
    rfl
  · rw [harg] at hn
    cases hn

/-- Without a readable argument nothing is done. -/
theorem sysSbrk_refused (hsz : (t.kernel.proc t.self).sz < 2 ^ 31) (hn : (t.argint 0).1 = none) :
    Refused vm t pgdir (t.sysSbrk vm pgdir) := by
  have harg := Trap.argint_eq (t := t) (by rw [KERNBASE]; omega) 0
  split_ifs at harg with hin
  · rw [harg] at hn
    cases hn
  · rw [Trap.sysSbrk, harg]
    exact ⟨rfl, rfl, fun q => Iff.rfl⟩

/-- What `getProcInfo` reports about a process whose size has been stored. -/
theorem procInfo_stored {sz : ℕ} (hsz : sz < 2 ^ 31) :
    ((k.modify self fun p => { p with sz := sz }).procInfo self).sz = sz := by
  have hfits : Fits 31 (sz : ℤ) := ⟨by omega, by omega⟩
  simp only [Kernel.procInfo, Kernel.modify_proc_self]
  exact wrap_eq_self hfits

/-- **`sbrk(n)` is all or nothing if and only if it does not take a process that has memory to zero or
below**, for every size below `KERNBASE`, every `n` and whatever `vm.c` does with the memory there is.
When the argument can not be read, it is refused. -/
theorem sysSbrk_allOrNothing_iff (hvm : vm.AsInXv6) (hsz : (t.kernel.proc t.self).sz < 2 ^ 31)
    (hmapped : ∀ q, q * pgsize < (t.kernel.proc t.self).sz → vm.mapped pgdir q) :
    ((t.argint 0).1 = none → Refused vm t pgdir (t.sysSbrk vm pgdir)) ∧
      ∀ n, (t.argint 0).1 = some n →
        (AllOrNothing vm t pgdir n (t.sysSbrk vm pgdir) ↔
          (t.kernel.proc t.self).sz = 0 ∨ 0 < ((t.kernel.proc t.self).sz : ℤ) + n.toInt) := by
  refine ⟨sysSbrk_refused hsz, fun n hn => ?_⟩
  have haddr := toInt_size hsz
  have hgrowth : Growth vm t.kernel t.self pgdir n (growproc vm t.kernel t.self pgdir n) :=
    growproc_growth hvm hsz
  rw [sysSbrk_eq hsz hn]
  generalize growproc vm t.kernel t.self pgdir n = r at hgrowth ⊢
  have hminus : (-1 : Int32).toInt = -1 := by decide
  cases hgrowth with
  | granted sz pgdir' hcond hsum hlt hpages =>
      refine iff_of_true (Or.inl ⟨haddr, ?_, fun q hq => ?_⟩) (by omega)
      · exact (procInfo_stored hlt).trans hsum
      · have hbelow : vm.mapped pgdir q ∨ (t.kernel.proc t.self).sz ≤ q * pgsize :=
          (Nat.lt_or_ge _ _).imp_left (hmapped q)
        exact hpages q (by omega) hbelow
  | refused pgdir' hcond hsame => exact iff_of_true (Or.inr ⟨rfl, rfl, hsame⟩) (by omega)
  | emptied pgdir' hpos hzero hgone =>
      -- the page of address 0 was mapped and is not any more
      refine iff_of_false ?_ (by omega)
      rintro (hgranted | hrefused)
      · have hret : (-1 : Int32).toInt = _ := hgranted.returned
        omega
      · exact hgone 0 (by omega) ((hrefused.mapped 0).mpr (hmapped 0 (by omega)))
  | ignored pgdir' hpos hneg hsame =>
      -- a negative size would have to be reported
      refine iff_of_false ?_ (by omega)
      rintro (hgranted | hrefused)
      · have hsize := hgranted.reported
        rw [procInfo_stored hsz] at hsize
        omega
      · have hret : t.sz.toInt32 = -1 := hrefused.returned
        rw [hret] at haddr
        omega

/-! ## A case of each kind -/

/-- The page tables as sets of pages, in a machine that has memory for every request. -/
def Vm.pageSets : Vm (ℕ → Bool) where
  mapped pgdir q := pgdir q = true
  allocuvm pgdir oldsz newsz :=
    if newsz.toNat ≥ KERNBASE then (0, pgdir)
    else if newsz < oldsz then (oldsz, pgdir)
    else (newsz, fun q =>
      pgdir q || decide (oldsz.toNat ≤ q * pgsize ∧ q * pgsize < newsz.toNat))
  deallocuvm pgdir oldsz newsz :=
    if newsz ≥ oldsz then (oldsz, pgdir)
    else (newsz, fun q =>
      pgdir q && decide (q * pgsize < newsz.toNat ∨ oldsz.toNat ≤ q * pgsize))

/-- They behave as promised. -/
theorem pageSets_asInXv6 : Vm.pageSets.AsInXv6 where
  alloc_high pgdir oldsz newsz hhigh := by simp [Vm.pageSets, hhigh]
  alloc_low pgdir oldsz newsz hle hlow := by
    have hup : ¬ newsz < oldsz := UInt32.not_lt.mpr hle
    simp [Vm.pageSets, Nat.not_le.mpr hlow, hup]
  dealloc_up pgdir oldsz newsz hle := by simp [Vm.pageSets, hle]
  dealloc_down pgdir oldsz newsz hlt := by
    have hdown : ¬ newsz ≥ oldsz := UInt32.not_le.mpr hlt
    simp [Vm.pageSets, hdown]

/-- A process with one page calls `sbrk(n)`. -/
def sbrkCall (n : Int32) : Trap 1 1 1 :=
  .enter Trap.onePage (.last 0) 4000 (storeWord (fun _ => 0) 4004 n.toUInt32)

/-- Its page. -/
def pageZero : ℕ → Bool := fun q => q = 0

theorem sysSbrk_oneMorePage :
    AllOrNothing Vm.pageSets (sbrkCall 4096) pageZero 4096
      ((sbrkCall 4096).sysSbrk Vm.pageSets pageZero) := by
  have hmapped : ∀ q, q * pgsize < ((sbrkCall 4096).kernel.proc (sbrkCall 4096).self).sz →
      Vm.pageSets.mapped pageZero q := by
    intro q hq
    have hsz : ((sbrkCall 4096).kernel.proc (sbrkCall 4096).self).sz = pgsize := by decide
    have hq : q = 0 := by
      rw [hsz, pgsize] at hq
      omega
    rw [hq]
    rfl
  exact ((sysSbrk_allOrNothing_iff pageSets_asInXv6 (by decide) hmapped).2 4096
    (by decide +kernel)).mpr (by decide)

/-- **Shrinking to zero loses the pages and reports a failure, and shrinking below zero reports a success
and does nothing.** -/
theorem shrinking_not_allOrNothing :
    ((sbrkCall (-4096)).argint 0).1 = some (-4096) ∧
      ((sbrkCall (-4096)).sysSbrk Vm.pageSets pageZero).1 = -1 ∧
      ¬ AllOrNothing Vm.pageSets (sbrkCall (-4096)) pageZero (-4096)
        ((sbrkCall (-4096)).sysSbrk Vm.pageSets pageZero) ∧
      ((sbrkCall (-8192)).argint 0).1 = some (-8192) ∧
      ((sbrkCall (-8192)).sysSbrk Vm.pageSets pageZero).1 = 4096 ∧
      ¬ AllOrNothing Vm.pageSets (sbrkCall (-8192)) pageZero (-8192)
        ((sbrkCall (-8192)).sysSbrk Vm.pageSets pageZero) := by
  have hret : ((sbrkCall (-4096)).sysSbrk Vm.pageSets pageZero).1 = -1 := by decide +kernel
  have hret' : ((sbrkCall (-8192)).sysSbrk Vm.pageSets pageZero).1 = 4096 := by decide +kernel
  refine ⟨by decide +kernel, hret, ?_, by decide +kernel, hret', ?_⟩
  · rintro (hgranted | hrefused)
    · have hsize := hgranted.returned
      rw [hret] at hsize
      exact absurd hsize (by decide)
    · have hgone : ((sbrkCall (-4096)).sysSbrk Vm.pageSets pageZero).2.2 0 = false := by
        decide +kernel
      have hpage : ((sbrkCall (-4096)).sysSbrk Vm.pageSets pageZero).2.2 0 = true :=
        (hrefused.mapped 0).mpr rfl
      rw [hgone] at hpage
      cases hpage
  · rintro (hgranted | hrefused)
    · exact absurd hgranted.reported (by decide +kernel)
    · have hminus := hrefused.returned
      rw [hret'] at hminus
      exact absurd hminus (by decide)

/-! ## Sizes in the kernel -/

/-- The store of a size by the running process. -/
theorem step_resize {c : Fin ncpu} (hcpu : k.cpu c = .ran self) (hsusp : k.susp self = .awake)
    (hpc : k.pc self = .user) (sz : ℕ) :
    step k (.on c (.resize sz)) = some (k.modify self fun p => { p with sz := sz }) := by
  rw [step_of_ran hcpu hsusp]
  exact if_pos hpc

/-- **Sizes are changed by `growproc` only**: what a step stores is what some call of it stores. -/
def GrowsBy (vm : Vm π) (k : Kernel nproc nofile ncpu) : Act nofile ncpu → Prop
  | .on c (.resize sz) => ∃ self pgdir n, k.cpu c = .ran self ∧
      (growproc vm k self pgdir n).2.1 = k.modify self fun p => { p with sz := sz }
  | _ => True

/-- **In the kernel a call of `growproc`** is such a step, or nothing. -/
theorem growproc_step (hvm : vm.AsInXv6) (hsz : (k.proc self).sz < KERNBASE) {c : Fin ncpu}
    (hcpu : k.cpu c = .ran self) (hsusp : k.susp self = .awake) (hpc : k.pc self = .user) :
    (growproc vm k self pgdir n).2.1 = k ∨ ∃ sz, GrowsBy vm k (.on c (.resize sz)) ∧
      step k (.on c (.resize sz)) = some (growproc vm k self pgdir n).2.1 := by
  have hgrowth : Growth vm k self pgdir n (growproc vm k self pgdir n) := growproc_growth hvm hsz
  have hstored : ∀ sz, (growproc vm k self pgdir n).2.1 = (k.modify self fun p => { p with sz := sz }) →
      GrowsBy vm k (.on c (.resize sz)) ∧
        step k (.on c (.resize sz)) = some (growproc vm k self pgdir n).2.1 := fun sz heq =>
    ⟨⟨self, pgdir, n, hcpu, heq⟩, (step_resize hcpu hsusp hpc sz).trans (congrArg some heq.symm)⟩
  generalize growproc vm k self pgdir n = r at hgrowth hstored ⊢
  cases hgrowth with
  | granted sz => exact Or.inr ⟨sz, hstored sz rfl⟩
  | refused | emptied => exact Or.inl rfl
  | ignored => exact Or.inr ⟨_, hstored _ rfl⟩

/-- A size that `growproc` stores is below `KERNBASE`. -/
theorem growproc_stores_lt (hvm : vm.AsInXv6) (hsz : (k.proc self).sz < KERNBASE) {sz : ℕ}
    (h : (growproc vm k self pgdir n).2.1 = k.modify self fun p => { p with sz := sz }) :
    sz < KERNBASE := by
  have hgrowth : Growth vm k self pgdir n (growproc vm k self pgdir n) := growproc_growth hvm hsz
  generalize growproc vm k self pgdir n = r at hgrowth h
  have hself : (r.2.1.proc self).sz = sz := by rw [h, Kernel.modify_proc_self]
  cases hgrowth with
  | granted sz' pgdir' hcond hsum hlt =>
      rw [Kernel.modify_proc_self] at hself
      exact hself ▸ hlt
  | refused | emptied => exact hself ▸ hsz
  | ignored =>
      rw [Kernel.modify_proc_self] at hself
      exact hself ▸ hsz

variable {k' : Kernel nproc nofile ncpu} {a : Act nofile ncpu}

/-- One slot changes, and its size is below `KERNBASE` then. -/
theorem sz_update_lt (h : ∀ i, (k.proc i).sz < KERNBASE) {j : Fin nproc} {q : Proc nproc nofile}
    (hproc : k'.proc = Function.update k.proc j q) (hq : q.sz < KERNBASE) (i : Fin nproc) :
    (k'.proc i).sz < KERNBASE := by
  rw [hproc, Function.update_apply]
  split_ifs
  · exact hq
  · exact h i

/-- Every step keeps the sizes below `KERNBASE`. -/
theorem sz_lt_step (hvm : vm.AsInXv6) (h : ∀ i, (k.proc i).sz < KERNBASE) (hok : GrowsBy vm k a)
    (ha : Trans k a k') : ∀ i, (k'.proc i).sz < KERNBASE := by
  cases ha with
  | bootFill i => exact sz_update_lt h (j := i) rfl (show pgsize < KERNBASE by decide)
  | forkSize c p np => exact sz_update_lt h (j := np) rfl (h p)
  | resize c p sz hcpu =>
      obtain ⟨self, pgdir, n, hself, hgrown⟩ := hok
      obtain rfl := Cpu.ran.inj (hcpu.symm.trans hself)
      exact sz_update_lt h (j := p) rfl (growproc_stores_lt hvm (h p) hgrown)
  | exitLast c p t hcpu hsusp hpc hlock ht =>
      have hpassed : ∀ i, (t.proc i).sz < KERNBASE := by
        intro i
        rw [ht.proc i]
        exact h i
      exact sz_update_lt hpassed (j := p) rfl (hpassed p)
  | wakeup c address =>
      intro i
      rcases (Kernel.woken_wakeup1 k (some (.other address))).proc i with heq | ⟨-, heq⟩ <;>
        rw [heq] <;> exact h i
  | bootAlloc i | bootPublish i | dispatch c i | resumeSleep c i | forkAlloc c p i | forkFail c p i
    | forkParent c p i | forkFile c p i | forkPublish c p i | exitClose c i | waitReap c p i | sleep c i
    | yield c i | kill c p i | setFile c i => exact sz_update_lt h (j := i) rfl (h i)
  | stay | acquire | skip | release | resume | forkNext | forkFiles | exit | exitClosed | wait | leave
    | query | queryNext => exact h

/-- **The size of a process stays below `KERNBASE`**, in every run in which sizes are changed by
`growproc` only. So no call of `sys_getProcInfo` reads or writes outside of the memory of its caller,
whatever its stack pointer and its memory are; and what the next `growproc` does is again nothing or such
a step. -/
theorem sizes_below_kernbase (hvm : vm.AsInXv6) {as : List (Act nofile ncpu)}
    (h : run step .init as = some k)
    (hok : EveryStep step (GrowsBy vm) (.init : Kernel nproc nofile ncpu) as) :
    (∀ i, (k.proc i).sz < KERNBASE) ∧
    (∀ self esp mem, (Trap.enter k self esp mem).KeepsInside
      (Trap.enter k self esp mem).sysGetProcInfo) ∧
    ∀ c self pgdir n, k.cpu c = .ran self → k.susp self = .awake → k.pc self = .user →
      (growproc vm k self pgdir n).2.1 = k ∨ ∃ sz, GrowsBy vm k (.on c (.resize sz)) ∧
        step k (.on c (.resize sz)) = some (growproc vm k self pgdir n).2.1 := by
  have hbelow : ∀ i, (k.proc i).sz < KERNBASE := by
    refine guarded_invariant (I := fun k : Kernel nproc nofile ncpu => ∀ i, (k.proc i).sz < KERNBASE)
      (fun i => ?_) ?_ hok h
    · show 0 < KERNBASE
      decide
    · intro k a k' hk ha hstep
      exact sz_lt_step hvm hk ha (step_trans hstep)
  exact ⟨hbelow, fun self esp mem => Trap.keepsInside_of_le rfl (hbelow self).le,
    fun c self pgdir n hcpu hsusp hpc => growproc_step hvm (hbelow self) hcpu hsusp hpc⟩

/-- The first process asks for one page more. -/
theorem sizes_below_kernbase_onePage : ∃ k k' : Kernel 4 1 2, run step .init (bootRun 0) = some k ∧
    step k (.on 0 (.resize 8192)) = some k' ∧ GrowsBy Vm.pageSets k (.on 0 (.resize 8192)) ∧
    (k'.proc 0).sz = 8192 ∧ ∀ i, (k'.proc i).sz < KERNBASE := by
  have hrun : (run step (.init : Kernel 4 1 2) (bootRun 0)).map
      (fun k => ((k.cpu 0, k.susp 0, k.pc 0), (k.proc 0).sz)) = some ((.ran 0, .awake, .user), 4096) := by
    decide +kernel
  obtain ⟨k, hk, heq⟩ := Option.map_eq_some_iff.mp hrun
  simp only [Prod.mk.injEq] at heq
  obtain ⟨⟨hcpu, hsusp, hpc⟩, hsz⟩ := heq
  have hgrows : GrowsBy Vm.pageSets k (.on 0 (.resize 8192)) := by
    refine ⟨0, pageZero, 4096, hcpu, ?_⟩
    rw [growproc, hsz]
    rfl
  have hstep := step_resize hcpu hsusp hpc 8192
  have hboot : EveryStep step (GrowsBy Vm.pageSets) (.init : Kernel 4 1 2) (bootRun 0) := by
    rintro bs a cs t has -
    have hmem : a ∈ (bootRun 0 : List (Act 1 2)) := has ▸ List.mem_append_right bs List.mem_cons_self
    simp only [bootRun, List.mem_cons, List.not_mem_nil, or_false] at hmem
    rcases hmem with rfl | rfl | rfl | rfl | rfl | rfl <;> trivial
  have hlast := run_snoc.mpr ⟨k, hk, hstep⟩
  refine ⟨k, _, hk, hstep, hgrows, by rw [Kernel.modify_proc_self],
    (sizes_below_kernbase pageSets_asInXv6 hlast (hboot.snoc fun t ht => ?_)).1⟩
  obtain rfl := Option.some.inj (hk.symm.trans ht)
  exact hgrows

end StudiesOS.ProcessTable
