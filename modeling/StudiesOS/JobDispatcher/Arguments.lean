import StudiesOS.JobDispatcher.Jobs
import StudiesOS.JobDispatcher.Machine

/-! # Which counter a command changes
`run_cmd` hands the second word of the command to `atoi`, and what that returns to `update_counter`,
which checks its range. `Names` says which counter the text of a command names; `Touches` which one
the code changes. They agree unless the second word is no numeral and is read as one, or is a numeral
which the conversion to `int` carries into the range. -/

namespace StudiesOS.JobDispatcher

/-! ## What the code does -/

/-- The range check of `update_counter(id, delta)`: the counter to be changed, and by how much. -/
def updateCounter (id delta : ℤ) : Option (Fin 100 × ℤ) :=
  if h : id < 0 ∨ 100 ≤ id then none else some (⟨id.toNat, by omega⟩, delta)

/-- **The counter that `run_cmd` changes**, and by how much. -/
def touched (cmd : List Byte) : Option (Fin 100 × ℤ) :=
  match runCmd cmd with
  | .update id delta => updateCounter id delta
  | .nothing | .usleep _ => none

/-- What a range check lets through. -/
theorem updateCounter_eq_some {i delta δ : ℤ} {id : Fin 100} :
    updateCounter i delta = some (id, δ) ↔ i = ((id : ℕ) : ℤ) ∧ delta = δ := by
  rw [updateCounter]
  have hid := id.isLt
  split
  · simp only [reduceCtorEq, false_iff]
    omega
  · simp only [Option.some.injEq, Prod.mk.injEq, Fin.ext_iff]
    omega

/-- **In the program** a command makes the worker go for the counter it touches. -/
theorem startCmd_touched {job : Job} {cmd : List Byte} {rest : List (List Byte)} {id : Fin 100}
    {δ : ℤ} : startCmd job cmd rest = .counter job rest (.lock id δ) ↔ touched cmd = some (id, δ) := by
  rw [startCmd, touched]
  cases runCmd cmd with
  | nothing | usleep => simp
  | update i delta =>
      have hid := id.isLt
      simp only [updateCounter_eq_some]
      by_cases hin : 0 ≤ i ∧ i < 100
      · rw [dif_pos hin]
        simp only [WorkerPc.counter.injEq, CounterPc.lock.injEq, true_and, Fin.ext_iff]
        omega
      · rw [dif_neg hin]
        simp only [reduceCtorEq, false_iff]
        omega

/-! ## The words of a command -/

/-- The words of a command, between blanks. -/
def words (cmd : List Byte) : List (List Byte) := fields isBlank cmd

/-- The operations on counters, and what they add. -/
inductive CounterOp : List Byte → ℤ → Prop
  /-- `increment`. -/
  | increment : CounterOp (lit "increment") 1
  /-- `decrement`. -/
  | decrement : CounterOp (lit "decrement") (-1)

/-- **`run_cmd` in words**: it updates a counter when the first word is an operation on counters and
there is a second one. -/
theorem runCmd_update {cmd : List Byte} {i δ : ℤ} : runCmd cmd = .update i δ ↔
    ∃ op arg more, words (lineCopy cmd) = op :: arg :: more ∧ CounterOp op δ ∧ atoi arg = i := by
  rw [runCmd, words]
  cases hop : strtokR isBlank (lineCopy cmd) with
  | none => simp [fields_of_strtokR_none hop]
  | some first =>
      obtain ⟨op, save⟩ := first
      rw [fields_of_strtokR_some hop]
      simp only
      cases harg : strtokR isBlank save with
      | none => simp [fields_of_strtokR_none harg]
      | some second =>
          obtain ⟨arg, more⟩ := second
          rw [fields_of_strtokR_some harg]
          simp only [Option.map_some, Option.isSome_some, and_true]
          constructor
          · intro h
            refine ⟨op, arg, _, rfl, ?_⟩
            split_ifs at h with hsleep hinc hdec
            · obtain ⟨rfl, rfl⟩ := Effect.update.inj h
              exact ⟨hinc ▸ .increment, rfl⟩
            · obtain ⟨rfl, rfl⟩ := Effect.update.inj h
              exact ⟨hdec ▸ .decrement, rfl⟩
          · rintro ⟨op', arg', more', hwords, hδ, rfl⟩
            obtain ⟨rfl, hrest⟩ := List.cons.inj hwords
            obtain ⟨rfl, -⟩ := List.cons.inj hrest
            cases hδ with
            | increment =>
                rw [if_neg fun h => absurd h.1 (by decide), if_pos rfl]
            | decrement =>
                rw [if_neg fun h => absurd h.1 (by decide), if_neg (by decide), if_pos rfl]

/-! ## What the text says -/

/-- **The text is the decimal numeral of `v`**, with or without a sign. -/
def IsNumeral (s : List Byte) (v : ℤ) : Prop :=
  ∃ sign digits, s = sign ++ digits ∧ digits ≠ [] ∧ (∀ b ∈ digits, isdigit b = true) ∧
    Signed sign (digitsValue digits) v

/-- **The command names counter `id`** in order to add `δ` to it. -/
def Names (cmd : List Byte) (id : Fin 100) (δ : ℤ) : Prop :=
  ∃ op arg more, words cmd = op :: arg :: more ∧ CounterOp op δ ∧ IsNumeral arg (id : ℕ)

/-- **The command changes the counter it names**, by what it says, and no other. -/
def TouchesNamed (cmd : List Byte) : Prop := ∀ id δ, touched cmd = some (id, δ) ↔ Names cmd id δ

/-- **The argument is read as it is written**: it is the numeral of a counter, or it begins with an
integer that stays out of the range when it is clamped to `long` and converted to `int`. -/
def ReadRight (arg : List Byte) : Prop :=
  (∃ id : Fin 100, IsNumeral arg (id : ℕ)) ∨
    ∃ v rest, IntegerAt arg v rest ∧ ¬ (0 ≤ wrap 32 (clampLong v) ∧ wrap 32 (clampLong v) < 100)

/-- A numeral begins with its integer. -/
theorem IsNumeral.integerAt {s : List Byte} {v : ℤ} (h : IsNumeral s v) : IntegerAt s v [] := by
  obtain ⟨sign, digits, rfl, hne, hdigits, hsign⟩ := h
  refine ⟨[], sign, digits, ?_, nofun, hne, hdigits, nofun, hsign⟩
  rw [List.nil_append, List.append_nil]

/-- The numeral of a counter is read as such. -/
theorem IsNumeral.atoi_eq {s : List Byte} {id : Fin 100} (h : IsNumeral s (id : ℕ)) :
    atoi s = (id : ℕ) := by
  have hid := id.isLt
  have hint : Fits 31 ((id : ℕ) : ℤ) := by
    constructor <;> omega
  have hlong : Fits 63 ((id : ℕ) : ℤ) := by
    constructor <;> omega
  rw [atoi_of_integerAt h.integerAt, clampLong_eq_self hlong, wrap_eq_self hint]

/-- **An argument is taken for the counters it is the numeral of** if and only if it is read as it is
written. -/
theorem readRight_iff (arg : List Byte) :
    (∀ id : Fin 100, atoi arg = (id : ℕ) ↔ IsNumeral arg (id : ℕ)) ↔ ReadRight arg := by
  constructor
  · intro h
    by_cases hrange : 0 ≤ atoi arg ∧ atoi arg < 100
    · refine Or.inl ⟨⟨(atoi arg).toNat, by omega⟩, (h _).mp ?_⟩
      exact (Int.toNat_of_nonneg hrange.1).symm
    · -- what is not `0` has been read from an integer
      by_cases hint : ∃ v rest, IntegerAt arg v rest
      · obtain ⟨v, rest, hv⟩ := hint
        rw [atoi_of_integerAt hv] at hrange
        exact Or.inr ⟨v, rest, hv, hrange⟩
      · rw [atoi_of_not_integerAt fun v rest hv => hint ⟨v, rest, hv⟩] at hrange
        exact absurd hrange (by decide)
  · intro h id
    refine ⟨fun hread => ?_, IsNumeral.atoi_eq⟩
    rcases h with ⟨id', hnum⟩ | ⟨v, rest, hv, hout⟩
    · rw [← hread, hnum.atoi_eq]
      exact hnum
    · rw [← atoi_of_integerAt hv, hread] at hout
      have hid := id.isLt
      omega

/-! ## Which commands are run -/

/-- A command is a part of the job. -/
theorem infix_of_mem_splitCmds {room : ℕ} {s cmd : List Byte} (h : cmd ∈ splitCmds room s) :
    cmd <:+: s := by
  induction room generalizing s with
  | zero => exact absurd h List.not_mem_nil
  | succ room ih =>
      rw [splitCmds] at h
      cases hnext : strtokR (· = 59) s with
      | none =>
          rw [hnext] at h
          exact absurd h List.not_mem_nil
      | some next =>
          obtain ⟨tok, save⟩ := next
          rw [hnext] at h
          obtain ⟨-, -, hcut⟩ := strtokR_eq_some hnext
          -- the token and what is left are parts of what follows the delimiters
          have hdrop := (List.dropWhile_suffix (l := s) fun b => decide (b = 59)).isInfix
          have hboth : tok <:+: s ∧ save <:+: s := by
            rcases hcut with ⟨heq, rfl⟩ | ⟨b, -, heq⟩
            · exact ⟨heq ▸ hdrop, List.nil_infix⟩
            · rw [heq] at hdrop
              exact ⟨(List.prefix_append _ _).isInfix.trans hdrop,
                List.IsInfix.trans ⟨tok ++ [b], [], by simp⟩ hdrop⟩
          rcases List.mem_cons.mp h with rfl | hmem
          · exact (List.dropWhile_suffix _).isInfix.trans hboth.1
          · exact (ih hmem).trans hboth.2

/-- Every command that runs is an entry of the array. -/
theorem mem_of_mem_runOrder {cmds : List (List Byte)} {cmd : List Byte} (h : cmd ∈ runOrder cmds) :
    cmd ∈ cmds := by
  induction cmds with
  | nil => exact h
  | cons c cmds ih =>
      rw [runOrder] at h
      split at h
      · obtain ⟨copy, hcopy, hmem⟩ := List.mem_flatten.mp h
        rw [List.eq_of_mem_replicate hcopy] at hmem
        exact List.mem_cons_of_mem c hmem
      · rcases List.mem_cons.mp h with rfl | hmem
        · exact List.mem_cons_self
        · exact List.mem_cons_of_mem c (ih hmem)

/-- **Every command that `process_job` runs is a string that fits into the line buffer.** -/
theorem fits_of_mem_processJob {job cmd : List Byte} (h : cmd ∈ processJob job) :
    NUL ∉ cmd ∧ cmd.length < MAX_LINE := by
  have hpart := infix_of_mem_splitCmds (mem_of_mem_runOrder h)
  have hcopy : lineCopy job <+: cstr job := List.take_prefix _ _
  constructor
  · exact fun hmem => not_mem_cstr job (hcopy.subset (hpart.subset hmem))
  · have hle := hpart.length_le
    rw [lineCopy, List.length_take] at hle
    have hpos : 0 < MAX_LINE := by decide
    omega

/-! ## The counter that is changed -/

/-- **A command changes just the counter it names**, if and only if the argument of an `increment` or
`decrement` is read as it is written. The command is one that `process_job` runs, or any string that fits
into the line buffer; the counter it changes is the one that a worker goes for. -/
theorem touchesNamed_iff {cmd : List Byte}
    (h : (∃ job, cmd ∈ processJob job) ∨ NUL ∉ cmd ∧ cmd.length < MAX_LINE) :
    (TouchesNamed cmd ↔
      ∀ op δ arg more, words cmd = op :: arg :: more → CounterOp op δ → ReadRight arg) ∧
    ∀ job rest id δ, startCmd job cmd rest = .counter job rest (.lock id δ) ↔
      touched cmd = some (id, δ) := by
  obtain ⟨hNUL, hlen⟩ : NUL ∉ cmd ∧ cmd.length < MAX_LINE := by
    rcases h with ⟨job, hmem⟩ | hfits
    · exact fits_of_mem_processJob hmem
    · exact hfits
  refine ⟨?_, fun job rest id δ => startCmd_touched⟩
  -- the code differs from what the text says in how it reads the argument only
  have htouched : ∀ id δ, touched cmd = some (id, δ) ↔
      ∃ op arg more, words cmd = op :: arg :: more ∧ CounterOp op δ ∧ atoi arg = (id : ℕ) := by
    intro id δ
    rw [← lineCopy_eq_self hNUL hlen, ← runCmd_update, lineCopy_eq_self hNUL hlen, touched]
    cases runCmd cmd with
    | nothing | usleep => simp
    | update i delta => rw [updateCounter_eq_some, Effect.update.injEq]
  constructor
  · intro h op δ arg more hwords hop
    refine (readRight_iff arg).mp fun id => ?_
    constructor
    · intro hread
      obtain ⟨op', arg', more', hwords', -, hnum⟩ :=
        (h id δ).mp ((htouched id δ).mpr ⟨op, arg, more, hwords, hop, hread⟩)
      rw [hwords] at hwords'
      rw [(List.cons.inj (List.cons.inj hwords').2).1]
      exact hnum
    · exact IsNumeral.atoi_eq
  · intro h id δ
    rw [htouched]
    constructor
    · rintro ⟨op, arg, more, hwords, hop, hread⟩
      have hright := (readRight_iff arg).mpr (h op δ arg more hwords hop)
      exact ⟨op, arg, more, hwords, hop, (hright id).mp hread⟩
    · rintro ⟨op, arg, more, hwords, hop, hnum⟩
      exact ⟨op, arg, more, hwords, hop, hnum.atoi_eq⟩

theorem touchesNamed_decrement :
    TouchesNamed (lit " decrement\t+07 now") ∧ touched (lit " decrement\t+07 now") = some (7, -1) := by
  have hwords : words (lit " decrement\t+07 now") = [lit "decrement", lit "+07", lit "now"] := by
    decide +kernel
  have hnum : IsNumeral (lit "+07") ((7 : Fin 100) : ℕ) :=
    ⟨lit "+", lit "07", by decide, by decide, by decide +kernel, Signed.plus 7⟩
  refine ⟨(touchesNamed_iff (Or.inr ⟨by decide, by decide⟩)).1.mpr ?_, by decide +kernel⟩
  intro op δ arg more heq hop
  rw [hwords] at heq
  obtain rfl := (List.cons.inj (List.cons.inj heq).2).1
  exact Or.inl ⟨7, hnum⟩

/-- **An argument that is no numeral changes counter 0.** -/
theorem increment_abc_touches :
    touched (lit "increment abc") = some (0, 1) ∧ ¬ Names (lit "increment abc") 0 1 ∧
      ¬ TouchesNamed (lit "increment abc") ∧
      touched (lit "increment 4294967301") = some (5, 1) := by
  have hwords : words (lit "increment abc") = [lit "increment", lit "abc"] := by decide +kernel
  have htouched : touched (lit "increment abc") = some (0, 1) := by decide +kernel
  have hnames : ¬ Names (lit "increment abc") 0 1 := by
    rintro ⟨op, arg, more, heq, -, hnum⟩
    rw [hwords] at heq
    obtain rfl := (List.cons.inj (List.cons.inj heq).2).1
    have hread := strtol_of_integerAt hnum.integerAt
    exact absurd hread (by decide)
  exact ⟨htouched, hnames, fun h => hnames ((h 0 1).mp htouched), by decide +kernel⟩

end StudiesOS.JobDispatcher
