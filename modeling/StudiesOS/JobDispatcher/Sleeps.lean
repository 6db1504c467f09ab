import StudiesOS.JobDispatcher.Arguments
import StudiesOS.JobDispatcher.Lines

/-! # The sleep commands
A worker sleeps for `msleep N` and the dispatcher for `dispatcher_msleep N`. Both pass the `int` product
`N * 1000` on to `usleep`, whose parameter is unsigned; only the worker looks at the sign of `N`, and
neither at its size. -/

namespace StudiesOS.JobDispatcher

/-! ## What is asked for -/

/-- The delay that a command of a worker requests, in microseconds. -/
def Effect.delay : Effect → ℤ
  | .usleep us => us
  | .nothing | .update _ _ => 0

/-- The delay that a line requests of the dispatcher. -/
def Directive.delay : Directive → ℤ
  | .msleep us => us
  | .submit _ | .wait => 0

/-- The `val` for which `run_cmd` calls `usleep(val * 1000)`, if it does. -/
def sleepVal (cmd : List Byte) : Option ℤ :=
  match strtokR isBlank (lineCopy cmd) with
  | none => none
  | some (op, save) =>
      let val := match (strtokR isBlank save).map Prod.fst with
        | some a => atoi a
        | none => 0
      if op = lit "msleep" ∧ 0 < val then some val else none

/-- The `ms` for which `process_commands` calls `usleep(ms * 1000)` for a line, if it does. -/
def sleepMs (chunk : List Byte) : Option ℤ :=
  let p := (chomp (cstr chunk)).dropWhile isspace
  if strncmpEq (lit "worker") p then none
  else if strncmpEq (lit "dispatcher_msleep") p then some (atoi (p.drop 17))
  else none

/-- **A worker requests the delay `useconds val`**, or none. -/
theorem delay_runCmd (cmd : List Byte) : (runCmd cmd).delay = (sleepVal cmd).elim 0 useconds := by
  rw [runCmd, sleepVal]
  cases strtokR isBlank (lineCopy cmd) with
  | none => rfl
  | some first =>
      simp only
      cases strtokR isBlank first.2 with
      | none => simp only [Option.map_none]; split_ifs <;> rfl
      | some second => simp only [Option.map_some]; split_ifs <;> rfl

/-- **The dispatcher requests the delay `useconds ms`**, or none. -/
theorem delay_processLine (chunk : List Byte) :
    (processLine chunk).elim 0 Directive.delay = (sleepMs chunk).elim 0 useconds := by
  rw [processLine, ← chomp, sleepMs]
  by_cases hnil : chomp (cstr chunk) = []
  · rw [if_pos hnil, hnil]
    rfl
  · rw [if_neg hnil]
    simp only
    split_ifs <;> rfl

/-- **When a worker sleeps**: the first word is `msleep`, and the second is read as a positive number. -/
theorem sleepVal_eq_some {cmd : List Byte} {val : ℤ} : sleepVal cmd = some val ↔
    ∃ arg more, words (lineCopy cmd) = lit "msleep" :: arg :: more ∧ atoi arg = val ∧ 0 < val := by
  rw [sleepVal, words]
  cases hop : strtokR isBlank (lineCopy cmd) with
  | none => simp [fields_of_strtokR_none hop]
  | some first =>
      obtain ⟨op, save⟩ := first
      rw [fields_of_strtokR_some hop]
      simp only
      cases harg : strtokR isBlank save with
      | none => simp [fields_of_strtokR_none harg]
      | some second =>
          obtain ⟨arg, more⟩ := second
          rw [fields_of_strtokR_some harg]
          simp only [Option.map_some]
          constructor
          · intro h
            split_ifs at h with hsleep
            obtain rfl := Option.some.inj h
            exact ⟨arg, _, by rw [hsleep.1], rfl, hsleep.2⟩
          · rintro ⟨arg', more', hwords, rfl, hpos⟩
            obtain ⟨rfl, hrest⟩ := List.cons.inj hwords
            obtain ⟨rfl, -⟩ := List.cons.inj hrest
            rw [if_pos ⟨rfl, hpos⟩]

/-! ## What the text says -/

/-- **The command is `msleep N`.** -/
def SaysMsleep (cmd : List Byte) (N : ℤ) : Prop :=
  NUL ∉ cmd ∧ cmd.length < MAX_LINE ∧
    ∃ arg more rest, words cmd = lit "msleep" :: arg :: more ∧ IntegerAt arg N rest

/-- **The line is `dispatcher_msleep N`**, behind blanks. -/
def SaysDispatcherMsleep (chunk : List Byte) (N : ℤ) : Prop :=
  ∃ text rest, (chomp (cstr chunk)).dropWhile isspace = lit "dispatcher_msleep" ++ text ∧
    IntegerAt text N rest

/-- What is no white space is no blank. -/
theorem isBlank_of_isspace {b : Byte} (h : isspace b = false) : isBlank b = false := by
  by_contra hblank
  rw [Bool.not_eq_false, isBlank, decide_eq_true_eq] at hblank
  rcases hblank with rfl | rfl <;> exact absurd h (by decide)

/-- **Every `int` can be named so** to a worker. -/
theorem saysMsleep_numeral {N : ℤ} (hN : Fits 31 N) : SaysMsleep (lit "msleep " ++ numeral N) N := by
  refine ⟨fun hmem => ?_, ?_, numeral N, [], [], ?_, integerAt_numeral N⟩
  · rcases List.mem_append.mp hmem with hmem | hmem
    · exact absurd hmem (by decide)
    · exact (of_mem_numeral hmem).2 rfl
  · have hlen := length_numeral_le hN
    have hword : (lit "msleep ").length = 7 := by decide
    rw [List.length_append, hword, MAX_LINE]
    omega
  · have hword : ∀ b ∈ lit "msleep", isBlank b = false := by simp [lit, isBlank]
    show fields isBlank (lit "msleep" ++ 32 :: numeral N) = _
    rw [fields_append_cons (by decide) hword (by decide),
      fields_singleton (numeral_ne_nil N) fun b hb => isBlank_of_isspace (of_mem_numeral hb).1]

/-- **And to the dispatcher.** -/
theorem saysDispatcherMsleep_numeral (N : ℤ) :
    SaysDispatcherMsleep (lit "dispatcher_msleep " ++ numeral N ++ [LF]) N := by
  have hNUL : NUL ∉ lit "dispatcher_msleep " ++ numeral N ++ [LF] := by
    rw [List.mem_append, List.mem_append]
    rintro ((hmem | hmem) | hmem)
    · exact absurd hmem (by decide)
    · exact (of_mem_numeral hmem).2 rfl
    · exact absurd hmem (by decide)
  refine ⟨32 :: numeral N, [], ?_, ?_⟩
  · rw [cstr_eq_self hNUL, chomp_line]
    rfl
  · obtain ⟨blanks, sign, digits, hcut, hblanks, hrest⟩ := integerAt_numeral N
    refine ⟨32 :: blanks, sign, digits, ?_, ?_, hrest⟩
    · rw [hcut, List.cons_append]
    · rw [List.forall_mem_cons]
      exact ⟨by decide, hblanks⟩

/-- An `int` at the start of a text is read as it is written. -/
theorem atoi_int {s rest : List Byte} {N : ℤ} (hN : Fits 31 N) (h : IntegerAt s N rest) :
    atoi s = N := by
  have hlong : Fits 63 N := by
    obtain ⟨h₁, h₂⟩ := hN
    constructor <;> omega
  rw [atoi_of_integerAt h, clampLong_eq_self hlong, wrap_eq_self hN]

/-- A worker multiplies `N` if it is positive. -/
theorem sleepVal_of_says {cmd : List Byte} {N : ℤ} (hN : Fits 31 N) (h : SaysMsleep cmd N) :
    sleepVal cmd = if 0 < N then some N else none := by
  obtain ⟨hNUL, hlen, arg, more, rest, hwords, harg⟩ := h
  rw [← lineCopy_eq_self hNUL hlen] at hwords
  have hread := atoi_int hN harg
  split_ifs with hpos
  · exact sleepVal_eq_some.mpr ⟨arg, more, hwords, hread, hpos⟩
  · rw [Option.eq_none_iff_forall_ne_some]
    intro val hval
    obtain ⟨arg', more', hwords', rfl, hpos'⟩ := sleepVal_eq_some.mp hval
    rw [hwords] at hwords'
    obtain ⟨-, hrest⟩ := List.cons.inj hwords'
    obtain ⟨rfl, -⟩ := List.cons.inj hrest
    exact hpos (hread ▸ hpos')

/-- The dispatcher multiplies every `N`. -/
theorem sleepMs_of_says {chunk : List Byte} {N : ℤ} (hN : Fits 31 N)
    (h : SaysDispatcherMsleep chunk N) : sleepMs chunk = some N := by
  obtain ⟨text, rest, hline, htext⟩ := h
  have hworker : strncmpEq (lit "worker") (lit "dispatcher_msleep" ++ text) = false := rfl
  have hmsleep : strncmpEq (lit "dispatcher_msleep") (lit "dispatcher_msleep" ++ text) = true := by
    rw [strncmpEq, List.isPrefixOf_iff_prefix]
    exact List.prefix_append _ _
  have hdrop : (lit "dispatcher_msleep" ++ text).drop 17 = text := List.drop_left' rfl
  rw [sleepMs, hline, hworker, hmsleep, hdrop, atoi_int hN htext]
  rfl

/-! ## The delay that was asked for -/

/-- **A product that is passed on is right**: it is an `int`, and not negative. -/
def ProductFits (ms : ℤ) : Prop := Fits 31 (ms * 1000) ∧ 0 ≤ ms * 1000

/-- **A sleep request does what its `N` says**: the delay is `1000 * N` microseconds, or none for `N` up
to zero, and no product overflows or is negative. -/
structure Delays (N : ℤ) (product : Option ℤ) (delay : ℤ) : Prop where
  /-- The delay. -/
  delay : delay = if 0 < N then 1000 * N else 0
  /-- The product. -/
  product : ∀ ms ∈ product, ProductFits ms

/-- The products that fit. -/
theorem productFits_iff {ms : ℤ} : ProductFits ms ↔ 0 ≤ ms ∧ ms ≤ 2147483 := by
  constructor
  · rintro ⟨⟨-, hlt⟩, hpos⟩
    omega
  · rintro ⟨hpos, hle⟩
    exact ⟨⟨by omega, by omega⟩, by omega⟩

/-- The argument of `usleep`, for a product that fits. -/
theorem useconds_eq {ms : ℤ} (h : ProductFits ms) : useconds ms = 1000 * ms := by
  obtain ⟨hfits, hpos⟩ := h
  have hlt := hfits.2
  rw [useconds, wrap_eq_self hfits, Int.emod_eq_of_lt hpos (by omega), mul_comm]

/-- **Passing on `N * 1000` is right exactly from `0` to `2147483` milliseconds.** -/
theorem delays_useconds_iff {N : ℤ} :
    Delays N (some N) (useconds N) ↔ 0 ≤ N ∧ N ≤ 2147483 := by
  rw [← productFits_iff]
  constructor
  · intro h
    exact h.product N rfl
  · intro hfits
    have hpos := (productFits_iff.mp hfits).1
    refine ⟨?_, fun ms hms => ?_⟩
    · rw [useconds_eq hfits]
      split_ifs <;> omega
    · rw [← Option.some.inj hms]
      exact hfits

/-- **A worker sleeps as it is told exactly up to `2147483` milliseconds.** -/
theorem worker_delays_iff {cmd : List Byte} {N : ℤ} (hN : Fits 31 N) (h : SaysMsleep cmd N) :
    Delays N (sleepVal cmd) (runCmd cmd).delay ↔ N ≤ 2147483 := by
  rw [delay_runCmd, sleepVal_of_says hN h]
  split_ifs with hpos
  · exact delays_useconds_iff.trans (by omega)
  · refine iff_of_true ⟨?_, fun ms hms => by cases hms⟩ (by omega)
    rw [if_neg hpos]
    rfl

/-- **The dispatcher sleeps as it is told exactly from `0` to `2147483` milliseconds.** -/
theorem dispatcher_delays_iff {chunk : List Byte} {N : ℤ} (hN : Fits 31 N)
    (h : SaysDispatcherMsleep chunk N) :
    Delays N (sleepMs chunk) ((processLine chunk).elim 0 Directive.delay) ↔
      0 ≤ N ∧ N ≤ 2147483 := by
  rw [delay_processLine, sleepMs_of_says hN h]
  exact delays_useconds_iff

/-- **The sleep commands ask for the delay they name**, and agree. -/
structure SleepAsNamed (N : ℤ) (cmd chunk : List Byte) : Prop where
  /-- `msleep N` of a worker. -/
  worker : Delays N (sleepVal cmd) (runCmd cmd).delay
  /-- `dispatcher_msleep N`. -/
  dispatcher : Delays N (sleepMs chunk) ((processLine chunk).elim 0 Directive.delay)
  /-- Both request the same delay. -/
  agree : (runCmd cmd).delay = (processLine chunk).elim 0 Directive.delay

/-- **The sleep commands ask for the delay they name if and only if it is between `0` and `2147483`
milliseconds**, for every `int` and all texts that name it. -/
theorem sleepAsNamed_iff {cmd chunk : List Byte} {N : ℤ} (hN : Fits 31 N) (hcmd : SaysMsleep cmd N)
    (hline : SaysDispatcherMsleep chunk N) :
    SleepAsNamed N cmd chunk ↔ 0 ≤ N ∧ N ≤ 2147483 := by
  constructor
  · intro h
    exact (dispatcher_delays_iff hN hline).mp h.dispatcher
  · intro hrange
    have hworker := (worker_delays_iff hN hcmd).mpr hrange.2
    have hdispatcher := (dispatcher_delays_iff hN hline).mpr hrange
    exact ⟨hworker, hdispatcher, hworker.delay.trans hdispatcher.delay.symm⟩

theorem sleepAsNamed_five :
    SleepAsNamed 5 (lit "msleep 5") (lit "dispatcher_msleep 5\n") := by
  have hcmd : lit "msleep " ++ numeral 5 = lit "msleep 5" := by decide
  have hline : lit "dispatcher_msleep " ++ numeral 5 ++ [LF] = lit "dispatcher_msleep 5\n" := by decide
  rw [← hcmd, ← hline]
  have hfive : Fits 31 (5 : ℤ) := by decide
  exact (sleepAsNamed_iff hfive (saysMsleep_numeral hfive) (saysDispatcherMsleep_numeral 5)).mpr
    (by decide)

/-- **A negative number keeps the dispatcher asleep for more than an hour**, and the worker not at all. -/
theorem negativeSleep_not_asNamed :
    (runCmd (lit "msleep -1")).delay = 0 ∧
      processLine (lit "dispatcher_msleep -1\n") = some (.msleep 4294966296) ∧
      ¬ SleepAsNamed (-1) (lit "msleep -1") (lit "dispatcher_msleep -1\n") := by
  have hworker : (runCmd (lit "msleep -1")).delay = 0 := by decide +kernel
  have hline : processLine (lit "dispatcher_msleep -1\n") = some (.msleep 4294966296) := by
    decide +kernel
  refine ⟨hworker, hline, fun h => ?_⟩
  have hagree := h.agree
  rw [hworker, hline] at hagree
  exact absurd hagree (by decide)

end StudiesOS.JobDispatcher
