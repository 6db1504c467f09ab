import StudiesOS.ProcessTable.Kernel
import StudiesOS.CMemory.Words

/-! # System calls and the memory of the caller
The arguments of a system call are words on the stack of the caller, and `getProcInfo` fills a structure
in its memory. The functions of `syscall.c` that fetch an argument compare addresses with the size of the
process. Addresses are 32-bit words, and all sums of them wrap. -/

namespace StudiesOS.ProcessTable

variable {nproc nofile ncpu : ℕ}

/-- `KERNBASE`, the end of user memory. -/
def KERNBASE : ℕ := 2 ^ 31

/-- What a system call does that can be seen in the memory of the caller, and the call of
`getProcInfo`. -/
inductive Event
  /-- A byte of the caller is read. -/
  | load (a : UInt32)
  /-- A byte of the caller is written. -/
  | store (a : UInt32)
  /-- `getProcInfo(pid, pinfo)` is called. -/
  | getProcInfo (pid : Int32) (pinfo : UInt32)
deriving DecidableEq

/-- **A system call under way.** -/
structure Trap (nproc nofile ncpu : ℕ) where
  /-- The kernel. -/
  kernel : Kernel nproc nofile ncpu
  /-- `myproc()`. -/
  self : Fin nproc
  /-- `myproc()->tf->esp`. -/
  esp : UInt32
  /-- The memory of the caller. -/
  mem : Memory
  /-- Ghost: what has been done so far. -/
  trace : List Event

/-- `struct processInfo`, as the words of its fields. -/
def ProcessInfo.words (info : ProcessInfo) : List UInt32 :=
  [info.state, info.ppid, info.sz, info.nfd, info.nrswitch].map fun v => (Int32.ofInt v).toUInt32

/-- `sizeof(struct processInfo)`. -/
def sizeofProcessInfo : Int32 := 20

namespace Trap

/-- The start of a system call. -/
def enter (k : Kernel nproc nofile ncpu) (self : Fin nproc) (esp : UInt32) (mem : Memory) :
    Trap nproc nofile ncpu :=
  ⟨k, self, esp, mem, []⟩

/-- `myproc()->sz`. -/
def sz (t : Trap nproc nofile ncpu) : UInt32 := UInt32.ofNat (t.kernel.proc t.self).sz

/-- Something is done. -/
def record (t : Trap nproc nofile ncpu) (es : List Event) : Trap nproc nofile ncpu :=
  { t with trace := t.trace ++ es }

/-- `*(int*)(addr)`. -/
def load (t : Trap nproc nofile ncpu) (addr : UInt32) : Int32 × Trap nproc nofile ncpu :=
  ((loadWord t.mem addr).toInt32, t.record ((span addr 4).map .load))

/-- Stores of consecutive words. -/
def store (t : Trap nproc nofile ncpu) (addr : UInt32) (vs : List UInt32) :
    Trap nproc nofile ncpu :=
  { t.record ((span addr (4 * vs.length)).map .store) with mem := storeWords t.mem addr vs }

/-- **`fetchint(addr, &i)`**; without a value it returns `-1`. -/
def fetchint (t : Trap nproc nofile ncpu) (addr : UInt32) :
    Option Int32 × Trap nproc nofile ncpu :=
  if addr ≥ t.sz ∨ addr + 4 > t.sz then (none, t)
  else (some (t.load addr).1, (t.load addr).2)

/-- **`argint(n, &i)`**. -/
def argint (t : Trap nproc nofile ncpu) (n : Int32) : Option Int32 × Trap nproc nofile ncpu :=
  t.fetchint (t.esp + 4 + (4 * n).toUInt32)

/-- **`argptr(n, &p, size)`**. -/
def argptr (t : Trap nproc nofile ncpu) (n size : Int32) :
    Option UInt32 × Trap nproc nofile ncpu :=
  match t.argint n with
  | (none, t) => (none, t)
  | (some i, t) =>
      if size < 0 ∨ i.toUInt32 ≥ t.sz ∨ i.toUInt32 + size.toUInt32 > t.sz then (none, t)
      else (some i.toUInt32, t)

/-- **`getProcInfo(pid, pinfo)`**, which fills `*pinfo` field by field. -/
def getProcInfo (t : Trap nproc nofile ncpu) (pid : Int32) (pinfo : UInt32) :
    Int32 × Trap nproc nofile ncpu :=
  match t.kernel.findActive pid.toInt with
  | none => (-1, t.record [.getProcInfo pid pinfo])
  | some i => (0, (t.record [.getProcInfo pid pinfo]).store pinfo (t.kernel.procInfo i).words)

/-- **`sys_getProcInfo()`**. -/
def sysGetProcInfo (t : Trap nproc nofile ncpu) : Int32 × Trap nproc nofile ncpu :=
  match t.argint 0 with
  | (none, t) => (-1, t)
  | (some pid, t) =>
      match t.argptr 1 sizeofProcessInfo with
      | (none, t) => (-1, t)
      | (some pinfo, t) => t.getProcInfo pid pinfo

/-! ## What the checks accept -/

/-- **The `n` bytes from `a` on are memory of the caller**, as integers. -/
def Inside (t : Trap nproc nofile ncpu) (a : UInt32) (n : ℕ) : Prop :=
  a.toNat + n ≤ (t.kernel.proc t.self).sz

instance (t : Trap nproc nofile ncpu) (a : UInt32) (n : ℕ) : Decidable (t.Inside a n) :=
  inferInstanceAs (Decidable (_ ≤ _))

/-- Where the argument `n` lies. -/
def argAddr (t : Trap nproc nofile ncpu) (n : Int32) : UInt32 := t.esp + 4 + (4 * n).toUInt32

/-- The word there. -/
def arg (t : Trap nproc nofile ncpu) (n : Int32) : Int32 := (loadWord t.mem (t.argAddr n)).toInt32

variable {t : Trap nproc nofile ncpu}

@[simp] theorem record_nil : t.record [] = t := by rw [record, List.append_nil]

@[simp] theorem record_sz (es : List Event) : (t.record es).sz = t.sz := rfl

@[simp] theorem record_argAddr (es : List Event) (n : Int32) : (t.record es).argAddr n = t.argAddr n :=
  rfl

@[simp] theorem record_arg (es : List Event) (n : Int32) : (t.record es).arg n = t.arg n := rfl

@[simp] theorem record_inside (es : List Event) (a : UInt32) (n : ℕ) :
    (t.record es).Inside a n ↔ t.Inside a n := Iff.rfl

@[simp] theorem record_trace (es : List Event) : (t.record es).trace = t.trace ++ es := rfl

/-- The size of a process is an unsigned word. -/
theorem sz_toNat (hsz : (t.kernel.proc t.self).sz ≤ KERNBASE) :
    t.sz.toNat = (t.kernel.proc t.self).sz := by
  rw [sz, UInt32.toNat_ofNat', Nat.mod_eq_of_lt]
  rw [KERNBASE] at hsz
  omega

/-- **The check of a span against the size** is right as long as the span is at most `2^31` long. -/
theorem check_iff (hsz : (t.kernel.proc t.self).sz ≤ KERNBASE) {a size : UInt32}
    (hpos : 0 < size.toNat) (hsize : size.toNat ≤ 2 ^ 31) :
    ¬ (a ≥ t.sz ∨ a + size > t.sz) ↔ t.Inside a size.toNat := by
  have hlt := a.toNat_lt
  rw [Inside, ← sz_toNat hsz]
  rw [← sz_toNat hsz, KERNBASE] at hsz
  rw [ge_iff_le, gt_iff_lt, UInt32.le_iff_toNat_le, UInt32.lt_iff_toNat_lt, UInt32.toNat_add]
  -- `a` below `2^31` and a span of at most `2^31`: the sum does not wrap when `a` passes
  omega

/-- The reads of the argument `n`. -/
def argLoads (t : Trap nproc nofile ncpu) (n : Int32) : List Event :=
  (span (t.argAddr n) 4).map .load

@[simp] theorem record_argLoads (es : List Event) (n : Int32) :
    (t.record es).argLoads n = t.argLoads n := rfl

@[simp] theorem record_record (es es' : List Event) :
    (t.record es).record es' = t.record (es ++ es') := by
  simp only [record, List.append_assoc]

/-- **`argint` reads its word if and only if all of it is memory of the caller.** -/
theorem argint_eq (hsz : (t.kernel.proc t.self).sz ≤ KERNBASE) (n : Int32) :
    t.argint n =
      if t.Inside (t.argAddr n) 4 then (some (t.arg n), t.record (t.argLoads n)) else (none, t) := by
  have hcheck : ¬ (t.argAddr n ≥ t.sz ∨ t.argAddr n + 4 > t.sz) ↔ t.Inside (t.argAddr n) 4 :=
    check_iff hsz (by decide) (by decide)
  rw [argint, ← argAddr, fetchint]
  by_cases hin : t.Inside (t.argAddr n) 4
  · rw [if_neg (hcheck.mpr hin), if_pos hin]
    rfl
  · rw [if_pos (not_not.mp fun h => hin (hcheck.mp h)), if_neg hin]

/-- **`argptr` accepts a pointer if and only if what it points to is memory of the caller.** -/
theorem argptr_eq (hsz : (t.kernel.proc t.self).sz ≤ KERNBASE) (n : Int32) {size : Int32}
    (hneg : ¬ size < 0) (hpos : 0 < size.toUInt32.toNat) (hsize : size.toUInt32.toNat ≤ 2 ^ 31) :
    t.argptr n size =
      if t.Inside (t.argAddr n) 4 then
        (if t.Inside (t.arg n).toUInt32 size.toUInt32.toNat then some (t.arg n).toUInt32 else none,
          t.record (t.argLoads n))
      else (none, t) := by
  have hcheck := check_iff (a := (t.arg n).toUInt32) hsz hpos hsize
  rw [argptr, argint_eq hsz]
  by_cases hin : t.Inside (t.argAddr n) 4
  · simp only [if_pos hin, record_sz, hneg, false_or]
    by_cases hptr : t.Inside (t.arg n).toUInt32 size.toUInt32.toNat
    · rw [if_neg (hcheck.mpr hptr), if_pos hptr]
    · rw [if_pos (not_not.mp fun h => hptr (hcheck.mp h)), if_neg hptr]
  · simp only [if_neg hin]

/-- **`sys_getProcInfo` in integers**: three checks, of the two argument words and of the structure. -/
theorem sysGetProcInfo_eq (hsz : (t.kernel.proc t.self).sz ≤ KERNBASE) :
    t.sysGetProcInfo =
      if t.Inside (t.argAddr 0) 4 then
        if t.Inside (t.argAddr 1) 4 then
          if t.Inside (t.arg 1).toUInt32 20 then
            (t.record (t.argLoads 0 ++ t.argLoads 1)).getProcInfo (t.arg 0) (t.arg 1).toUInt32
          else (-1, t.record (t.argLoads 0 ++ t.argLoads 1))
        else (-1, t.record (t.argLoads 0))
      else (-1, t) := by
  rw [sysGetProcInfo, argint_eq hsz]
  by_cases h0 : t.Inside (t.argAddr 0) 4
  · have hneg : ¬ sizeofProcessInfo < 0 := by decide
    have hptr := argptr_eq (t := t.record (t.argLoads 0)) hsz 1 hneg (by decide) (by decide)
    have hsize : sizeofProcessInfo.toUInt32.toNat = 20 := by decide
    simp only [record_inside, record_argAddr, record_arg, record_argLoads, record_record, hsize] at hptr
    simp only [if_pos h0, hptr]
    by_cases h1 : t.Inside (t.argAddr 1) 4
    · by_cases h2 : t.Inside (t.arg 1).toUInt32 20
      · simp only [if_pos h1, if_pos h2]
      · simp only [if_pos h1, if_neg h2]
    · simp only [if_neg h1]
  · simp only [if_neg h0]

/-! ## What `getProcInfo` does to the memory -/

/-- **`getProcInfo` writes to `*pinfo` only**, and records what it writes. -/
theorem getProcInfo_writes (t : Trap nproc nofile ncpu) (pid : Int32) (pinfo : UInt32) :
    ∃ as : List UInt32,
      (t.getProcInfo pid pinfo).2.trace = t.trace ++ .getProcInfo pid pinfo :: as.map .store ∧
        (∀ a ∈ as, a ∈ span pinfo 20) ∧ ∀ a ∉ as, (t.getProcInfo pid pinfo).2.mem a = t.mem a := by
  cases hfind : t.kernel.findActive pid.toInt with
  | none =>
      simp only [getProcInfo, hfind]
      exact ⟨[], rfl, fun a ha => absurd ha List.not_mem_nil, fun a _ => rfl⟩
  | some i =>
      simp only [getProcInfo, hfind]
      refine ⟨span pinfo 20, ?_, fun a ha => ha, fun a ha => storeWords_of_not_mem ha⟩
      show (t.trace ++ [.getProcInfo pid pinfo]) ++ (span pinfo 20).map .store = _
      rw [List.append_assoc, List.singleton_append]

/-- **It leaves there what the kernel has found**, and returns what `getProcInfo` returns. -/
theorem getProcInfo_result (t : Trap nproc nofile ncpu) (pid : Int32) (pinfo : UInt32)
    (info : ProcessInfo) :
    (t.getProcInfo pid pinfo).1.toInt = (t.kernel.getProcInfo pid.toInt info).1 ∧
      ((t.getProcInfo pid pinfo).1 = 0 →
        loadWords (t.getProcInfo pid pinfo).2.mem pinfo 5
          = (t.kernel.getProcInfo pid.toInt info).2.words) := by
  cases hfind : t.kernel.findActive pid.toInt with
  | none =>
      simp only [getProcInfo, Kernel.getProcInfo, hfind]
      exact ⟨by decide, fun h => absurd h (by decide)⟩
  | some i =>
      simp only [getProcInfo, Kernel.getProcInfo, hfind]
      have hlen : 4 * (t.kernel.procInfo i).words.length ≤ 2 ^ 32 :=
        show 20 ≤ 2 ^ 32 by decide
      exact ⟨by decide, fun _ => loadWords_storeWords hlen⟩

/-! ## The whole call -/

/-- **The call keeps to the memory of the caller**: what the call that began in `t` has read, done and
written when it returns `r`. -/
structure KeepsInside (t : Trap nproc nofile ncpu) (r : Int32 × Trap nproc nofile ncpu) : Prop where
  /-- It reads bytes of its two argument words only, and only inside. -/
  reads : ∀ a, .load a ∈ r.2.trace →
    (a ∈ span (t.argAddr 0) 4 ∨ a ∈ span (t.argAddr 1) 4) ∧ a.toNat < (t.kernel.proc t.self).sz
  /-- It calls `getProcInfo` if and only if both words and the whole structure are inside. -/
  calls : (∃ pid pinfo, .getProcInfo pid pinfo ∈ r.2.trace) ↔
    t.Inside (t.argAddr 0) 4 ∧ t.Inside (t.argAddr 1) 4 ∧ t.Inside (t.arg 1).toUInt32 20
  /-- It passes on its arguments. -/
  passes : ∀ pid pinfo, .getProcInfo pid pinfo ∈ r.2.trace →
    pid = t.arg 0 ∧ pinfo = (t.arg 1).toUInt32
  /-- What is written is inside. -/
  writes : ∀ a, .store a ∈ r.2.trace → a.toNat < (t.kernel.proc t.self).sz
  /-- Nothing is changed that was not written. -/
  keeps : ∀ a, r.2.mem a ≠ t.mem a → .store a ∈ r.2.trace
  /-- With the call it returns what the kernel has found out, and leaves it in the structure. -/
  fills : t.Inside (t.argAddr 0) 4 ∧ t.Inside (t.argAddr 1) 4 ∧ t.Inside (t.arg 1).toUInt32 20 →
    ∀ info, r.1.toInt = (t.kernel.getProcInfo (t.arg 0).toInt info).1 ∧
      (r.1 = 0 → loadWords r.2.mem (t.arg 1).toUInt32 5
        = (t.kernel.getProcInfo (t.arg 0).toInt info).2.words)
  /-- Without the call it returns `-1` and writes nothing. -/
  refuses : (∀ pid pinfo, .getProcInfo pid pinfo ∉ r.2.trace) →
    r.1 = -1 ∧ r.2.mem = t.mem ∧ ∀ a, .store a ∉ r.2.trace

/-- An event that is a read of an argument word, inside of the memory of the caller. -/
def ArgRead (t : Trap nproc nofile ncpu) (e : Event) : Prop :=
  ∃ a, e = .load a ∧ (a ∈ span (t.argAddr 0) 4 ∨ a ∈ span (t.argAddr 1) 4) ∧
    a.toNat < (t.kernel.proc t.self).sz

/-- The reads of the first argument. -/
theorem argRead_of_mem_zero (h0 : t.Inside (t.argAddr 0) 4) {e : Event} (he : e ∈ t.argLoads 0) :
    t.ArgRead e := by
  obtain ⟨a, ha, rfl⟩ := List.mem_map.mp he
  exact ⟨a, rfl, Or.inl ha, toNat_lt_of_mem_span ha h0⟩

/-- The reads of both arguments. -/
theorem argRead_of_mem (h0 : t.Inside (t.argAddr 0) 4) (h1 : t.Inside (t.argAddr 1) 4) {e : Event}
    (he : e ∈ t.argLoads 0 ++ t.argLoads 1) : t.ArgRead e := by
  rcases List.mem_append.mp he with he | he
  · exact argRead_of_mem_zero h0 he
  · obtain ⟨a, ha, rfl⟩ := List.mem_map.mp he
    exact ⟨a, rfl, Or.inr ha, toNat_lt_of_mem_span ha h1⟩

/-- A call that is refused behind some reads. -/
theorem keepsInside_refused {es : List Event} (htrace : t.trace = []) (hes : ∀ e ∈ es, t.ArgRead e)
    (hnot : ¬ (t.Inside (t.argAddr 0) 4 ∧ t.Inside (t.argAddr 1) 4 ∧
      t.Inside (t.arg 1).toUInt32 20)) : t.KeepsInside (-1, t.record es) := by
  have hdone : ∀ e ∈ (t.record es).trace, t.ArgRead e := by
    rw [record_trace, htrace, List.nil_append]
    exact hes
  have hcall : ∀ pid pinfo, .getProcInfo pid pinfo ∉ (t.record es).trace := by
    intro pid pinfo hmem
    obtain ⟨b, hb, -⟩ := hdone _ hmem
    cases hb
  have hstore : ∀ a, .store a ∉ (t.record es).trace := by
    intro a hmem
    obtain ⟨b, hb, -⟩ := hdone _ hmem
    cases hb
  refine ⟨fun a ha => ?_, iff_of_false ?_ hnot, fun pid pinfo hmem => absurd hmem (hcall pid pinfo),
    fun a ha => absurd ha (hstore a), fun a ha => absurd rfl ha, fun hin => absurd hin hnot,
    fun _ => ⟨rfl, rfl, hstore⟩⟩
  · obtain ⟨b, hb, hin⟩ := hdone _ ha
    rw [Event.load.inj hb]
    exact hin
  · rintro ⟨pid, pinfo, hmem⟩
    exact hcall pid pinfo hmem

/-- A call that is let through. -/
theorem keepsInside_called (htrace : t.trace = []) (h0 : t.Inside (t.argAddr 0) 4)
    (h1 : t.Inside (t.argAddr 1) 4) (h2 : t.Inside (t.arg 1).toUInt32 20) :
    t.KeepsInside ((t.record (t.argLoads 0 ++ t.argLoads 1)).getProcInfo (t.arg 0)
      (t.arg 1).toUInt32) := by
  obtain ⟨as, hdone, hspan, hkeep⟩ := getProcInfo_writes
    (t.record (t.argLoads 0 ++ t.argLoads 1)) (t.arg 0) (t.arg 1).toUInt32
  have hresult := getProcInfo_result (t.record (t.argLoads 0 ++ t.argLoads 1)) (t.arg 0)
    (t.arg 1).toUInt32
  rw [record_trace, htrace, List.nil_append] at hdone
  -- the trace is the reads, the call and its stores
  generalize (t.record (t.argLoads 0 ++ t.argLoads 1)).getProcInfo (t.arg 0) (t.arg 1).toUInt32 = r
    at hdone hkeep hresult
  have hmem : ∀ e, e ∈ r.2.trace ↔ e ∈ t.argLoads 0 ++ t.argLoads 1 ∨
      e = .getProcInfo (t.arg 0) (t.arg 1).toUInt32 ∨ ∃ a ∈ as, .store a = e := by
    intro e
    rw [hdone, List.mem_append, List.mem_cons, List.mem_map]
  refine ⟨fun a ha => ?_, iff_of_true ⟨_, _, (hmem _).mpr (Or.inr (Or.inl rfl))⟩ ⟨h0, h1, h2⟩,
    fun pid pinfo hcall => ?_, fun a ha => ?_, fun a ha => ?_, fun _ => hresult, fun hno => ?_⟩
  · rcases (hmem _).mp ha with hread | hcall | ⟨b, -, hb⟩
    · obtain ⟨b, hb, hin⟩ := argRead_of_mem h0 h1 hread
      rw [Event.load.inj hb]
      exact hin
    · cases hcall
    · cases hb
  · rcases (hmem _).mp hcall with hread | hcall | ⟨b, -, hb⟩
    · obtain ⟨b, hb, -⟩ := argRead_of_mem h0 h1 hread
      cases hb
    · exact Event.getProcInfo.inj hcall
    · cases hb
  · rcases (hmem _).mp ha with hread | hcall | ⟨b, hb, hba⟩
    · obtain ⟨b, hb, -⟩ := argRead_of_mem h0 h1 hread
      cases hb
    · cases hcall
    · rw [← Event.store.inj hba]
      exact toNat_lt_of_mem_span (hspan b hb) h2
  · refine (hmem _).mpr (Or.inr (Or.inr ⟨a, ?_, rfl⟩))
    by_contra hnot
    exact ha (hkeep a hnot)
  · exact absurd ((hmem _).mpr (Or.inr (Or.inl rfl))) (hno _ _)

/-- **A call that begins with nothing done**, in any of its cases. -/
theorem keepsInside_of_le (htrace : t.trace = []) (hsz : (t.kernel.proc t.self).sz ≤ KERNBASE) :
    t.KeepsInside t.sysGetProcInfo := by
  rw [sysGetProcInfo_eq hsz]
  split_ifs with h0 h1 h2
  · exact keepsInside_called htrace h0 h1 h2
  · exact keepsInside_refused htrace (fun e he => argRead_of_mem h0 h1 he) fun h => h2 h.2.2
  · exact keepsInside_refused htrace (fun e he => argRead_of_mem_zero h0 he) fun h => h1 h.2.1
  · nth_rewrite 2 [← record_nil (t := t)]
    exact keepsInside_refused htrace (fun e he => absurd he List.not_mem_nil) fun h => h0 h.1

/-- **`sys_getProcInfo` writes only into the memory of the caller**, for every saved `esp`, every content
of the memory and every size up to `KERNBASE`. -/
theorem sysGetProcInfo_keepsInside (k : Kernel nproc nofile ncpu) (self : Fin nproc) (esp : UInt32)
    (mem : Memory) (hsz : (k.proc self).sz ≤ KERNBASE) :
    (enter k self esp mem).KeepsInside (enter k self esp mem).sysGetProcInfo :=
  keepsInside_of_le rfl hsz

/-- A kernel with one process, which has one page. -/
def onePage : Kernel 1 1 1 :=
  Kernel.init.modify (.last 0) fun p => { p with sz := 4096, state := .running, pid := 1 }

/-- The arguments `1` and `pinfo` behind the stack pointer `4000`. -/
def callWith (pinfo : UInt32) : Trap 1 1 1 :=
  enter onePage (.last 0) 4000 (storeWords (fun _ => 0) 4004 [1, pinfo])

theorem sysGetProcInfo_lastBytes :
    (callWith 4076).KeepsInside (callWith 4076).sysGetProcInfo ∧
      (callWith 4076).sysGetProcInfo.1 = 0 ∧
      Event.getProcInfo 1 4076 ∈ (callWith 4076).sysGetProcInfo.2.trace := by
  have hargs : (callWith 4076).sysGetProcInfo.1 = 0 ∧
      Event.getProcInfo 1 4076 ∈ (callWith 4076).sysGetProcInfo.2.trace := by
    decide +kernel
  exact ⟨sysGetProcInfo_keepsInside onePage (.last 0) 4000 _ (by decide), hargs⟩

-- one byte further, and at an address that wraps
example : (callWith 4077).sysGetProcInfo.1 = -1 ∧ (callWith 4294967290).sysGetProcInfo.1 = -1 := by
  decide +kernel

end Trap

end StudiesOS.ProcessTable
