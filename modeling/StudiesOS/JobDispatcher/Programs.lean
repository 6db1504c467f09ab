import StudiesOS.JobDispatcher.Jobs
import StudiesOS.JobDispatcher.Lines

/-! # Command files as programs
The command files that the dispatcher is meant for are programs of a small language: lines that
submit jobs, sleep or wait, and jobs of basic commands with at most one `repeat`. `Program.text`
prints a program with the words of the language, as `test.txt` is written; what `process_commands`,
`process_job` and `run_cmd` make of that text is what the program says. -/

namespace StudiesOS.JobDispatcher

/-! ## The language -/

/-- A basic command. -/
inductive Basic
  /-- `msleep ms`. -/
  | msleep (ms : ℤ)
  /-- `increment id`. -/
  | increment (id : ℤ)
  /-- `decrement id`. -/
  | decrement (id : ℤ)
deriving DecidableEq, Repr

/-- The `repeat` of a job: how often, and what. -/
structure Loop where
  /-- The number behind `repeat`. -/
  times : ℤ
  /-- The commands behind it, up to the end of the job. -/
  body : List Basic
deriving DecidableEq, Repr

/-- A job. -/
structure JobSyntax where
  /-- The commands in front of the `repeat`, or all of them. -/
  before : List Basic
  /-- The `repeat`, if there is one. -/
  loop : Option Loop
deriving DecidableEq, Repr

/-- A line of a command file. -/
inductive Line
  /-- `worker job`. -/
  | worker (job : JobSyntax)
  /-- `dispatcher_msleep ms`. -/
  | dispatcherMsleep (ms : ℤ)
  /-- `dispatcher_wait`. -/
  | dispatcherWait
deriving DecidableEq, Repr

/-! ## What a program means -/

/-- What a basic command asks for. -/
def Basic.effect : Basic → Effect
  | .msleep ms => if 0 < ms then .usleep (useconds ms) else .nothing
  | .increment id => .update id 1
  | .decrement id => .update id (-1)

/-- What a `repeat` asks for; a number that is not positive repeats nothing. -/
def Loop.effects (loop : Loop) : List Effect :=
  (List.replicate loop.times.toNat (loop.body.map Basic.effect)).flatten

/-- **What a job asks for**, in order. -/
def JobSyntax.effects (job : JobSyntax) : List Effect :=
  job.before.map Basic.effect ++ (job.loop.map Loop.effects).getD []

/-! ## How a program is written -/

/-- A word with a number behind it. -/
def phrase (word : List Byte) (v : ℤ) : List Byte := word ++ SP :: numeral v

/-- The number in a basic command. -/
def Basic.arg : Basic → ℤ
  | .msleep ms => ms
  | .increment id => id
  | .decrement id => id

/-- The word of a basic command. -/
def Basic.word : Basic → List Byte
  | .msleep _ => lit "msleep"
  | .increment _ => lit "increment"
  | .decrement _ => lit "decrement"

/-- A basic command as it is written. -/
def Basic.text (cmd : Basic) : List Byte := phrase cmd.word cmd.arg

/-- A `repeat` as it is written, command by command. -/
def Loop.texts (loop : Loop) : List (List Byte) :=
  phrase (lit "repeat") loop.times :: loop.body.map Basic.text

/-- The commands of a job as they are written. -/
def JobSyntax.texts (job : JobSyntax) : List (List Byte) :=
  job.before.map Basic.text ++ (job.loop.map Loop.texts).getD []

/-- Commands with semicolons between them. -/
def joinCmds : List (List Byte) → List Byte
  | [] => []
  | [cmd] => cmd
  | cmd :: cmds => cmd ++ 59 :: SP :: joinCmds cmds

/-- A job as it is written. -/
def JobSyntax.text (job : JobSyntax) : List Byte := joinCmds job.texts

/-- A line as it is written. -/
def Line.text : Line → List Byte
  | .worker job => lit "worker" ++ SP :: job.text
  | .dispatcherMsleep ms => phrase (lit "dispatcher_msleep") ms
  | .dispatcherWait => lit "dispatcher_wait"

/-- What a line makes the dispatcher do. -/
def Line.directive : Line → Directive
  | .worker job => .submit job.text
  | .dispatcherMsleep ms => .msleep (useconds ms)
  | .dispatcherWait => .wait

/-- **The limits of a job**: the numbers are `int`s and the commands fit into `cmds[100]`. -/
structure JobSyntax.Valid (job : JobSyntax) : Prop where
  /-- The numbers in front of the `repeat`. -/
  before : ∀ cmd ∈ job.before, Fits 31 cmd.arg
  /-- The numbers in the `repeat`. -/
  loop : ∀ loop ∈ job.loop, Fits 31 loop.times ∧ ∀ cmd ∈ loop.body, Fits 31 cmd.arg
  /-- The number of commands. -/
  count : job.texts.length ≤ 100

instance (job : JobSyntax) : Decidable job.Valid :=
  decidable_of_iff ((∀ cmd ∈ job.before, Fits 31 cmd.arg) ∧
      (∀ loop ∈ job.loop, Fits 31 loop.times ∧ ∀ cmd ∈ loop.body, Fits 31 cmd.arg) ∧
      job.texts.length ≤ 100)
    ⟨fun h => ⟨h.1, h.2.1, h.2.2⟩, fun h => ⟨h.before, h.loop, h.count⟩⟩

/-- The limits of a line. -/
def Line.Valid : Line → Prop
  | .worker job => job.Valid ∧ (Line.worker job).text.length ≤ MAX_LINE - 1
  | .dispatcherMsleep ms => Fits 31 ms
  | .dispatcherWait => True

instance : DecidablePred Line.Valid := fun line => by
  cases line <;> unfold Line.Valid <;> infer_instance

/-- **A program within the limits** of the dispatcher. -/
structure Program where
  /-- Its lines. -/
  lines : List Line
  /-- All of them are within the limits. -/
  valid : ∀ line ∈ lines, line.Valid

/-- The command file of a program. -/
def Program.text (p : Program) : List Byte := p.lines.flatMap fun line => line.text ++ [LF]

/-! ## The bytes of the language -/

/-- A byte that neither ends a string, a line nor a command. -/
def isInner (b : Byte) : Bool := b ≠ NUL ∧ b ≠ LF ∧ b ≠ 59

/-- The bytes of a numeral. -/
theorem mem_numeral {v : ℤ} {b : Byte} (hb : b ∈ numeral v) : b = 45 ∨ isdigit b = true := by
  rw [numeral] at hb
  split_ifs at hb
  · exact (List.mem_cons.mp hb).imp id isdigit_of_mem_decimal
  · exact Or.inr (isdigit_of_mem_decimal hb)

/-- A numeral ends nothing. -/
theorem isInner_numeral {v : ℤ} {b : Byte} (hb : b ∈ numeral v) : isInner b = true := by
  obtain ⟨hspace, hNUL⟩ := of_mem_numeral hb
  have hLF : b ≠ LF := by
    rintro rfl
    exact absurd hspace (by decide)
  have hsemicolon : b ≠ 59 := by
    rintro rfl
    obtain h | h := mem_numeral hb <;> exact absurd h (by decide)
  simp [isInner, hNUL, hLF, hsemicolon]

/-- A phrase ends nothing, if its word does not. -/
theorem isInner_phrase {word : List Byte} (hword : ∀ b ∈ word, isInner b = true) {v : ℤ} {b : Byte}
    (hb : b ∈ phrase word v) : isInner b = true := by
  rcases List.mem_append.mp hb with hb | hb
  · exact hword b hb
  · rcases List.mem_cons.mp hb with rfl | hb
    · decide
    · exact isInner_numeral hb

/-- The words of the language end nothing and have no blanks in them. -/
theorem word_spec (cmd : Basic) : cmd.word ≠ [] ∧
    (∀ b ∈ cmd.word, isInner b = true ∧ isBlank b = false) ∧ cmd.word.length ≤ 9 := by
  cases cmd <;> refine ⟨by simp [Basic.word, lit], ?_, by simp [Basic.word, lit]⟩ <;>
    simp [Basic.word, lit, isInner, isBlank, NUL, LF]

/-- A written command ends nothing. -/
theorem isInner_text {cmd : Basic} {b : Byte} (hb : b ∈ cmd.text) : isInner b = true :=
  isInner_phrase (fun b hb => ((word_spec cmd).2.1 b hb).1) hb

/-- Text that ends nothing has no NUL in it. -/
theorem not_mem_of_isInner {s : List Byte} (h : ∀ b ∈ s, isInner b = true) :
    NUL ∉ s ∧ LF ∉ s ∧ (59 : Byte) ∉ s := by
  refine ⟨fun hmem => ?_, fun hmem => ?_, fun hmem => ?_⟩ <;> exact absurd (h _ hmem) (by decide)

/-- A blank is white space. -/
theorem isspace_of_isBlank {b : Byte} (h : isBlank b = true) : isspace b = true := by
  simp only [isBlank, decide_eq_true_eq] at h
  rcases h with rfl | rfl <;> decide

/-! ## Basic commands -/

/-- The number behind a word is read back. -/
theorem atoi_numeral {v : ℤ} (h : Fits 31 v) : atoi (numeral v) = v ∧ atoi (SP :: numeral v) = v := by
  have hread : wrap 32 (clampLong v) = v := by
    obtain ⟨hlow, hhigh⟩ := h
    have hlong : Fits 63 v := by
      constructor <;> omega
    rw [clampLong_eq_self hlong, wrap_eq_self ⟨hlow, hhigh⟩]
  have hat := integerAt_numeral v
  refine ⟨by rw [atoi_of_integerAt hat, hread], ?_⟩
  -- the blank in between belongs to the blanks in front of the number
  obtain ⟨blanks, sign, digits, hcut, hblanks, hrest⟩ := hat
  rw [atoi_of_integerAt ⟨SP :: blanks, sign, digits, by rw [hcut, List.cons_append],
    List.forall_mem_cons.mpr ⟨by decide, hblanks⟩, hrest⟩, hread]

/-- The words of a basic command are the word and the numeral. -/
theorem strtokR_text (cmd : Basic) : strtokR isBlank cmd.text = some (cmd.word, numeral cmd.arg) ∧
    strtokR isBlank (numeral cmd.arg) = some (numeral cmd.arg, []) := by
  obtain ⟨hne, hword, -⟩ := word_spec cmd
  refine ⟨strtokR_append_cons hne (fun b hb => (hword b hb).2) (by decide) _,
    strtokR_singleton (numeral_ne_nil _) fun b hb => ?_⟩
  by_contra hblank
  exact absurd (isspace_of_isBlank (by simpa using hblank)) (by simp [(of_mem_numeral hb).1])

/-- **`run_cmd` does what a basic command says.** -/
theorem runCmd_text {cmd : Basic} (h : Fits 31 cmd.arg) : runCmd cmd.text = cmd.effect := by
  have hlen : cmd.text.length < MAX_LINE := by
    have hword := (word_spec cmd).2.2
    have hnum := length_numeral_le h
    rw [Basic.text, phrase, List.length_append, List.length_cons, MAX_LINE]
    omega
  rw [runCmd, lineCopy_eq_self (not_mem_of_isInner fun _ => isInner_text).1 hlen, (strtokR_text cmd).1]
  simp only [(strtokR_text cmd).2, Option.map_some, Option.isSome_some, and_true,
    (atoi_numeral h).1]
  cases cmd <;> simp [Basic.word, Basic.arg, Basic.effect, lit]

/-! ## Jobs -/

/-- A command that the split of a job gives back: it does not begin with white space and has no
semicolon in it. -/
def Clean (cmd : List Byte) : Prop :=
  (∃ b ∈ cmd.head?, isspace b = false) ∧ ∀ b ∈ cmd, isInner b = true

/-- A written command is clean. -/
theorem clean_text (cmd : Basic) : Clean cmd.text := by
  refine ⟨?_, fun _ => isInner_text⟩
  cases cmd <;> exact ⟨_, rfl, by decide⟩

/-- **Split and join**: the commands of a written job, whatever blanks stand in front. -/
theorem segments_joinCmds {blanks : List Byte} (hblanks : ∀ b ∈ blanks, isBlank b = true)
    {cmds : List (List Byte)} (hcmds : ∀ cmd ∈ cmds, Clean cmd) (hne : cmds = [] → blanks = []) :
    (segments (blanks ++ joinCmds cmds)).map trim = cmds := by
  induction cmds generalizing blanks with
  | nil =>
      rw [hne rfl]
      rfl
  | cons cmd cmds ih =>
      obtain ⟨⟨b, hb, hspace⟩, hinner⟩ := hcmds cmd List.mem_cons_self
      have hblank : isBlank b = false := by
        by_contra hblank
        rw [isspace_of_isBlank (by simpa using hblank)] at hspace
        cases hspace
      obtain ⟨t, rfl⟩ : ∃ t, cmd = b :: t := by
        cases cmd with
        | nil => cases hb
        | cons c t => exact ⟨t, by rw [Option.mem_some_iff.mp hb]⟩
      have hfirst : blanks ++ b :: t ≠ [] := by simp
      have hdelim : ∀ a ∈ blanks ++ b :: t, decide (a = 59) = false := by
        intro a ha
        rcases List.mem_append.mp ha with ha | ha
        · have := hblanks a ha
          simp only [isBlank, decide_eq_true_eq] at this
          rcases this with rfl | rfl <;> decide
        · have := hinner a ha
          simp only [isInner, decide_eq_true_eq] at this
          simpa using this.2.2
      have htrim : trim (blanks ++ b :: t) = b :: t := by
        rw [trim, List.dropWhile_append_of_pos hblanks, List.dropWhile_cons_of_neg (by simp [hblank])]
      cases cmds with
      | nil =>
          rw [joinCmds, segments, fields_singleton hfirst hdelim, List.map_singleton, htrim]
      | cons next cmds =>
          have hrest : (segments ([SP] ++ joinCmds (next :: cmds))).map trim = next :: cmds :=
            ih (by simp [SP, isBlank]) (fun c hc => hcmds c (List.mem_cons_of_mem _ hc)) (by simp)
          rw [joinCmds, ← List.append_assoc, segments, fields_append_cons hfirst hdelim (by decide),
            List.map_cons, htrim]
          · exact congrArg (_ :: ·) hrest
          · simp

/-- A written job is a string without newlines. -/
theorem mem_joinCmds {cmds : List (List Byte)} (hcmds : ∀ cmd ∈ cmds, ∀ b ∈ cmd, isInner b = true)
    {b : Byte} (hb : b ∈ joinCmds cmds) : b ≠ NUL ∧ b ≠ LF := by
  have hinner : isInner b = true ∨ b = 59 := by
    induction cmds with
    | nil => cases hb
    | cons cmd cmds ih =>
        have hcmd := hcmds cmd List.mem_cons_self
        cases cmds with
        | nil => exact Or.inl (hcmd b hb)
        | cons next cmds =>
            rw [joinCmds] at hb
            · rcases List.mem_append.mp hb with hb | hb
              · exact Or.inl (hcmd b hb)
              · rcases List.mem_cons.mp hb with rfl | hb
                · exact Or.inr rfl
                · rcases List.mem_cons.mp hb with rfl | hb
                  · exact Or.inl (by decide)
                  · exact ih (fun c hc => hcmds c (List.mem_cons_of_mem _ hc)) hb
            · simp
  obtain hinner | rfl := hinner
  · simp only [isInner, decide_eq_true_eq] at hinner
    exact ⟨hinner.1, hinner.2.1⟩
  · decide

/-- The commands of a written job are clean. -/
theorem JobSyntax.clean_texts (job : JobSyntax) {cmd : List Byte} (hcmd : cmd ∈ job.texts) :
    Clean cmd := by
  rcases List.mem_append.mp hcmd with hcmd | hcmd
  · obtain ⟨basic, -, rfl⟩ := List.mem_map.mp hcmd
    exact clean_text basic
  · cases hloop : job.loop with
    | none =>
        rw [hloop] at hcmd
        cases hcmd
    | some loop =>
        rw [hloop, Option.map_some, Option.getD_some, Loop.texts] at hcmd
        rcases List.mem_cons.mp hcmd with rfl | hcmd
        · refine ⟨⟨114, rfl, by decide⟩, fun b hb => isInner_phrase ?_ hb⟩
          simp [lit, isInner, NUL, LF]
        · obtain ⟨basic, -, rfl⟩ := List.mem_map.mp hcmd
          exact clean_text basic

/-- No basic command is taken for a `repeat`. -/
theorem isRepeat_text (cmd : Basic) : isRepeat cmd.text = false := by
  cases cmd <;> simp [isRepeat, strncmpEq, Basic.text, Basic.word, phrase, lit, List.isPrefixOf]

/-- A written `repeat` is one, and its number is read back. -/
theorem isRepeat_phrase {n : ℤ} (h : Fits 31 n) : isRepeat (phrase (lit "repeat") n) = true ∧
    atoi ((phrase (lit "repeat") n).drop 6) = n :=
  ⟨List.isPrefixOf_iff_prefix.mpr (List.prefix_append _ _), (atoi_numeral h).2⟩

/-- What basic commands do. -/
theorem map_runCmd_text {cmds : List Basic} (h : ∀ cmd ∈ cmds, Fits 31 cmd.arg) :
    (cmds.map Basic.text).map runCmd = cmds.map Basic.effect := by
  rw [List.map_map]
  exact List.map_congr_left fun cmd hcmd => runCmd_text (h cmd hcmd)

/-- **`process_job` does what a job says.** -/
theorem processJob_text {job : JobSyntax} (h : job.Valid) (hlen : job.text.length < MAX_LINE) :
    (processJob job.text).map runCmd = job.effects := by
  have hNUL : NUL ∉ job.text := fun hmem =>
    (mem_joinCmds (fun cmd hcmd => (job.clean_texts hcmd).2) hmem).1 rfl
  have hsplit : splitCmds 100 job.text = job.texts := by
    have hsegments : (segments ([] ++ joinCmds job.texts)).map trim = job.texts :=
      segments_joinCmds (by simp) (fun _ => job.clean_texts) (by simp)
    rw [List.nil_append] at hsegments
    rw [splitCmds_eq, List.map_take, JobSyntax.text, hsegments, List.take_of_length_le h.count]
  have hplain : ∀ cmd ∈ job.before.map Basic.text, isRepeat cmd = false := by
    intro cmd hcmd
    obtain ⟨basic, -, rfl⟩ := List.mem_map.mp hcmd
    exact isRepeat_text basic
  rw [processJob, lineCopy_eq_self hNUL hlen, hsplit, JobSyntax.texts, JobSyntax.effects]
  cases hloop : job.loop with
  | none =>
      simp only [Option.map_none, Option.getD_none, List.append_nil]
      rw [runOrder_plain hplain, map_runCmd_text h.before]
  | some loop =>
      obtain ⟨htimes, hbody⟩ := h.loop loop hloop
      obtain ⟨hrepeat, hnum⟩ := isRepeat_phrase htimes
      simp only [Option.map_some, Option.getD_some, Loop.texts]
      rw [runOrder_repeat hplain hrepeat, hnum, List.map_append, map_runCmd_text h.before,
        List.map_flatten, List.map_replicate, map_runCmd_text hbody, Loop.effects]

/-! ## Lines and files -/

/-- The bytes of a written line. -/
theorem Line.mem_text {line : Line} {b : Byte} (hb : b ∈ line.text) : b ≠ NUL ∧ b ≠ LF := by
  have hinner : ∀ {b : Byte}, isInner b = true → b ≠ NUL ∧ b ≠ LF := by
    intro b h
    simp only [isInner, decide_eq_true_eq] at h
    exact ⟨h.1, h.2.1⟩
  have hword : ∀ word ∈ [lit "worker", lit "dispatcher_msleep", lit "dispatcher_wait"],
      ∀ b ∈ word, isInner b = true := by
    simp [lit, isInner, NUL, LF]
  cases line with
  | worker job =>
      rcases List.mem_append.mp hb with hb | hb
      · exact hinner (hword _ (by simp) b hb)
      · rcases List.mem_cons.mp hb with rfl | hb
        · decide
        · exact mem_joinCmds (fun cmd hcmd => (job.clean_texts hcmd).2) hb
  | dispatcherMsleep ms => exact hinner (isInner_phrase (hword _ (by simp)) hb)
  | dispatcherWait => exact hinner (hword (lit "dispatcher_wait") (by simp) b hb)

/-- A written line is not empty. -/
theorem Line.text_ne_nil (line : Line) : line.text ≠ [] := by
  cases line <;> simp [Line.text, phrase, lit]

/-- A line within the limits fits into the line buffer. -/
theorem Line.Valid.length_le {line : Line} (h : line.Valid) : line.text.length ≤ MAX_LINE - 1 := by
  cases line with
  | worker job => exact h.2
  | dispatcherMsleep ms =>
      have hnum := length_numeral_le h
      simp only [Line.text, phrase, List.length_append, List.length_cons, lit, MAX_LINE]
      simp
      omega
  | dispatcherWait => decide

/-- A written job begins with a command. -/
theorem JobSyntax.dropWhile_text (job : JobSyntax) : job.text.dropWhile isspace = job.text := by
  cases hcmds : job.texts with
  | nil => simp [JobSyntax.text, hcmds, joinCmds]
  | cons cmd cmds =>
      have hclean : Clean cmd := job.clean_texts (by rw [hcmds]; exact List.mem_cons_self)
      obtain ⟨⟨b, hb, hspace⟩, -⟩ := hclean
      obtain ⟨t, ht⟩ : ∃ t, job.text = b :: t := by
        cases cmd with
        | nil => cases hb
        | cons c t =>
            obtain rfl := Option.mem_some_iff.mp hb
            rw [JobSyntax.text, hcmds]
            cases cmds with
            | nil => exact ⟨t, rfl⟩
            | cons next cmds => exact ⟨_, rfl⟩
      rw [ht, List.dropWhile_cons_of_neg (by simp [hspace])]

/-- **A written line means what it says.** -/
theorem meaning_text {line : Line} (h : line.Valid) : meaning line.text = some line.directive := by
  cases line with
  | worker job =>
      have hkeep : (lit "worker" ++ SP :: job.text).dropWhile isspace = lit "worker" ++ SP :: job.text :=
        rfl
      have hdrop : (lit "worker" ++ SP :: job.text).drop 6 = SP :: job.text := rfl
      rw [meaning, Line.text, hkeep]
      simp only [List.prefix_append, if_true, hdrop]
      rw [List.dropWhile_cons_of_pos (by decide), job.dropWhile_text]
      rfl
  | dispatcherMsleep ms =>
      have hkeep : (phrase (lit "dispatcher_msleep") ms).dropWhile isspace
        = phrase (lit "dispatcher_msleep") ms := rfl
      have hdrop : (phrase (lit "dispatcher_msleep") ms).drop 17 = SP :: numeral ms := rfl
      have hother : ¬ lit "worker" <+: phrase (lit "dispatcher_msleep") ms := by
        simp [phrase, lit]
      have hkeyword : lit "dispatcher_msleep" <+: phrase (lit "dispatcher_msleep") ms :=
        List.prefix_append _ _
      rw [meaning, Line.text, hkeep]
      simp only [hother, if_false, hdrop, (atoi_numeral h).2]
      rw [if_pos hkeyword]
      rfl
  | dispatcherWait => decide

/-- The lines of a written program. -/
theorem linesOf_text (lines : List Line) :
    linesOf (lines.flatMap fun line => line.text ++ [LF]) = lines.map Line.text := by
  induction lines with
  | nil => rfl
  | cons line lines ih =>
      rw [List.flatMap_cons, List.append_assoc, List.singleton_append, linesOf,
        fields_append_cons line.text_ne_nil (fun b hb => by simpa using (Line.mem_text hb).2)
          (by decide)]
      exact congrArg (_ :: ·) ih

/-- **The dispatcher does what the lines say.** -/
theorem processCommands_text (p : Program) :
    processCommands p.text = p.lines.map Line.directive := by
  have hNUL : NUL ∉ p.text := by
    intro hmem
    obtain ⟨line, -, hb⟩ := List.mem_flatMap.mp hmem
    rcases List.mem_append.mp hb with hb | hb
    · exact (Line.mem_text hb).1 rfl
    · exact absurd (List.mem_singleton.mp hb) (by decide)
  have hparts : ∀ text ∈ p.lines.map Line.text, parts text = [text] := by
    intro text htext
    obtain ⟨line, hline, rfl⟩ := List.mem_map.mp htext
    exact parts_short line.text_ne_nil (fun hb => (Line.mem_text hb).2 rfl)
      (p.valid line hline).length_le
  rw [processCommands_eq, handled_eq hNUL, Program.text, linesOf_text, List.flatMap_congr hparts,
    List.flatMap_singleton', List.filterMap_map]
  exact List.filterMap_eq_map_iff_forall_eq_some.mpr fun line hline => meaning_text (p.valid line hline)

/-- **A worker does what a job of the program says.** -/
theorem processJob_of_mem {p : Program} {job : JobSyntax} (hjob : Line.worker job ∈ p.lines) :
    (processJob job.text).map runCmd = job.effects := by
  obtain ⟨hvalid, hlen⟩ := p.valid _ hjob
  refine processJob_text hvalid ?_
  rw [Line.text, List.length_append, List.length_cons] at hlen
  omega

/-- **What is written is what is done.** For every program within the limits, the dispatcher does what
the lines of its command file say, in order and nothing else, and a worker runs for each job the basic
commands that the job says. -/
theorem program_roundTrip (p : Program) : processCommands p.text = p.lines.map Line.directive ∧
    ∀ job, Line.worker job ∈ p.lines → (processJob job.text).map runCmd = job.effects :=
  ⟨processCommands_text p, fun _ => processJob_of_mem⟩

/-- The program in `test.txt`. -/
def testProgram : Program where
  lines := [
    .worker ⟨[.increment 0], none⟩,
    .worker ⟨[.increment 1], none⟩,
    .worker ⟨[.decrement 0], none⟩,
    .worker ⟨[], some ⟨5, [.increment 2]⟩⟩,
    .dispatcherMsleep 50,
    .worker ⟨[.msleep 100, .increment 3], none⟩,
    .dispatcherWait,
    .worker ⟨[.increment 0, .increment 1, .decrement 2], none⟩,
    .worker ⟨[], some ⟨3, [.increment 4, .msleep 10]⟩⟩]
  valid := by decide +kernel

example : testProgram.text = lit "worker increment 0
worker increment 1
worker decrement 0
worker repeat 5; increment 2
dispatcher_msleep 50
worker msleep 100; increment 3
dispatcher_wait
worker increment 0; increment 1; decrement 2
worker repeat 3; increment 4; msleep 10
" := by
  decide +kernel

theorem testProgram_roundTrip :
    processCommands testProgram.text = testProgram.lines.map Line.directive ∧
      (processJob (lit "repeat 3; increment 4; msleep 10")).map runCmd
        = [.update 4 1, .usleep 10000, .update 4 1, .usleep 10000, .update 4 1, .usleep 10000] := by
  obtain ⟨hlines, hjobs⟩ := program_roundTrip testProgram
  refine ⟨hlines, ?_⟩
  have hrun := hjobs ⟨[], some ⟨3, [.increment 4, .msleep 10]⟩⟩ (by decide)
  have htext : JobSyntax.text ⟨[], some ⟨3, [.increment 4, .msleep 10]⟩⟩
      = lit "repeat 3; increment 4; msleep 10" := by
    decide +kernel
  rw [← htext, hrun]
  decide +kernel

end StudiesOS.JobDispatcher
