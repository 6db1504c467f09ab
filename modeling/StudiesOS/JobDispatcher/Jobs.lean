import StudiesOS.JobDispatcher.Commands

/-! # What a job runs
The `strtok_r` loop of `process_job` finds the segments of the job between its semicolons, and the
loop behind it runs them up to the first `repeat`, and what follows that as often as it says. The
array `cmds[100]` is too short for the segments that fit into a line: those behind the hundredth are
dropped. -/

namespace StudiesOS.JobDispatcher

/-! ## The segments of a job -/

/-- **The segments of a job** that are not empty, between the semicolons. -/
def segments (job : List Byte) : List (List Byte) := fields (· = 59) job

/-- A segment without the blanks in front of it. -/
def trim (segment : List Byte) : List Byte := segment.dropWhile isBlank

/-- A command that `process_job` takes for `repeat`. -/
def isRepeat (cmd : List Byte) : Bool := strncmpEq (lit "repeat") cmd

/-- **The split** finds the segments, as many as there is room for. -/
theorem splitCmds_eq (room : ℕ) (s : List Byte) :
    splitCmds room s = ((segments s).take room).map trim := by
  induction room generalizing s with
  | zero => rfl
  | succ room ih =>
      rw [splitCmds]
      cases hnext : strtokR (· = 59) s with
      | none => rw [segments, fields_of_strtokR_none hnext, List.take_nil, List.map_nil]
      | some next =>
          obtain ⟨tok, save⟩ := next
          rw [segments, fields_of_strtokR_some hnext, List.take_succ_cons, List.map_cons]
          exact congrArg (trim tok :: ·) (ih save)

/-- A string that fits into the line buffer is copied as it is. -/
theorem lineCopy_eq_self {s : List Byte} (hNUL : NUL ∉ s) (hlen : s.length < MAX_LINE) :
    lineCopy s = s := by
  rw [lineCopy, cstr_eq_self hNUL, List.take_of_length_le (Nat.le_sub_one_of_lt hlen)]

/-- **The job of a line** is a string no longer than the line. -/
theorem processLine_submit {line job : List Byte} (h : processLine line = some (.submit job)) :
    NUL ∉ job ∧ job.length ≤ line.length := by
  rw [processLine] at h
  generalize htext : (if (cstr line).getLast? = some LF then (cstr line).dropLast else cstr line)
    = text at h
  have hfront : text <+: cstr line := by
    rw [← htext]
    split
    · exact List.dropLast_prefix _
    · exact List.prefix_rfl
  simp only at h
  split_ifs at h
  · obtain rfl := Directive.submit.inj (Option.some.inj h)
    have hsuffix : ((text.dropWhile isspace).drop 6).dropWhile isspace <:+ text :=
      ((List.dropWhile_suffix _).trans (List.drop_suffix _ _)).trans (List.dropWhile_suffix _)
    constructor
    · intro hmem
      exact not_mem_cstr line (hfront.subset (hsuffix.subset hmem))
    · exact (hsuffix.length_le.trans hfront.length_le).trans (cstr_isPrefix line).length_le
  · cases h
  · cases h

/-! ## The order of the commands -/

variable {id : Fin 100} {cmd : List Byte} {cmds before after : List (List Byte)}

/-- Commands without a `repeat` run one after another. -/
theorem runOrder_plain (h : ∀ c ∈ cmds, isRepeat c = false) : runOrder cmds = cmds := by
  induction cmds with
  | nil => rfl
  | cons cmd cmds ih =>
      have hcmd : strncmpEq (lit "repeat") cmd = false := h cmd List.mem_cons_self
      rw [runOrder, hcmd, if_neg Bool.false_ne_true,
        ih fun c hc => h c (List.mem_cons_of_mem cmd hc)]

/-- **The first `repeat`** ends the job with copies of what follows it. -/
theorem runOrder_repeat (hbefore : ∀ c ∈ before, isRepeat c = false) (hcmd : isRepeat cmd = true) :
    runOrder (before ++ cmd :: after)
      = before ++ (List.replicate (atoi (cmd.drop 6)).toNat after).flatten := by
  induction before with
  | nil =>
      have hcmd : strncmpEq (lit "repeat") cmd = true := hcmd
      rw [List.nil_append, runOrder, hcmd, if_pos rfl, List.nil_append]
  | cons c before ih =>
      have hc : strncmpEq (lit "repeat") c = false := hbefore c List.mem_cons_self
      rw [List.cons_append, runOrder, hc, if_neg Bool.false_ne_true,
        ih fun b hb => hbefore b (List.mem_cons_of_mem c hb), List.cons_append]

/-- What repeated commands add. -/
theorem netDelta_replicate (n : ℕ) :
    netDelta id (List.replicate n cmds).flatten = n * netDelta id cmds := by
  induction n with
  | zero => simp [netDelta]
  | succ n ih =>
      rw [List.replicate_succ, List.flatten_cons, netDelta_append, ih]
      push_cast
      ring

/-- **A `repeat` that is run as a command** does nothing: its first word is another one. -/
theorem runCmd_repeat (h : isRepeat cmd = true) : runCmd cmd = .nothing := by
  obtain ⟨more, rfl⟩ := List.isPrefixOf_iff_prefix.mp h
  obtain ⟨tail, htail⟩ : ∃ tail, lineCopy (lit "repeat" ++ more) = 114 :: tail := by
    rw [lineCopy, cstr_append (by decide)]
    exact ⟨_, rfl⟩
  rw [runCmd, htail]
  cases hword : strtokR isBlank (114 :: tail) with
  | none => rfl
  | some word =>
      obtain ⟨op, save⟩ := word
      obtain ⟨hne, -, hcut⟩ := strtokR_eq_some hword
      rw [List.dropWhile_cons_of_neg (by decide)] at hcut
      -- the word begins with an `r`
      have hhead : op.head? = some 114 := by
        obtain ⟨b, r, rfl⟩ := List.exists_cons_of_ne_nil hne
        rcases hcut with ⟨heq, -⟩ | ⟨d, -, heq⟩
        · rw [← (List.cons.inj heq).1]
          rfl
        · rw [← (List.cons.inj heq).1]
          rfl
      have hother : ∀ w : List Byte, w.head? ≠ some 114 → op ≠ w := by
        rintro w hw rfl
        exact hw hhead
      simp only
      rw [if_neg fun h => hother _ (by decide) h.1, if_neg fun h => hother _ (by decide) h.1,
        if_neg fun h => hother _ (by decide) h.1]

/-! ## Segments are not lost -/

/-- **A job without `repeat` runs its segments if and only if there are at most 100.** The job is that
of a line which fits into the line buffer. -/
theorem processJob_segments {line job : List Byte} (hlen : line.length < MAX_LINE)
    (hjob : processLine line = some (.submit job))
    (hplain : ∀ segment ∈ segments job, isRepeat (trim segment) = false) :
    processJob job = (segments job).map trim ↔ (segments job).length ≤ 100 := by
  obtain ⟨hNUL, hle⟩ := processLine_submit hjob
  have hcmds : processJob job = ((segments job).take 100).map trim := by
    rw [processJob, lineCopy_eq_self hNUL (Nat.lt_of_le_of_lt hle hlen), splitCmds_eq,
      runOrder_plain]
    intro c hc
    obtain ⟨segment, hmem, rfl⟩ := List.mem_map.mp hc
    exact hplain segment (List.mem_of_mem_take hmem)
  rw [hcmds]
  constructor
  · intro heq
    have hlength := congrArg List.length heq
    rw [List.length_map, List.length_map, List.length_take] at hlength
    -- the first 100 are all of them
    omega
  · intro hfew
    rw [List.take_of_length_le hfew]

theorem processJob_segments_three :
    processLine (lit "worker increment 1;; ;  decrement 2\n")
      = some (.submit (lit "increment 1;; ;  decrement 2")) ∧
    processJob (lit "increment 1;; ;  decrement 2") = [lit "increment 1", [], lit "decrement 2"] := by
  have hsegments : segments (lit "increment 1;; ;  decrement 2")
      = [lit "increment 1", lit " ", lit "  decrement 2"] := by
    decide +kernel
  have hline : processLine (lit "worker increment 1;; ;  decrement 2\n")
      = some (.submit (lit "increment 1;; ;  decrement 2")) := by
    decide +kernel
  have hrun := (processJob_segments (by decide) hline (by rw [hsegments]; decide)).mpr
    (by rw [hsegments]; decide)
  refine ⟨hline, hrun.trans ?_⟩
  rw [hsegments]
  decide

/-- A job with 100 other commands in front of its `increment`. -/
def crowdedJob : List Byte := (List.replicate 100 (lit "x;")).flatten ++ lit "increment 0"

/-- **The last command of a crowded job is dropped.** -/
theorem crowdedJob_drops :
    (lit "worker " ++ crowdedJob).length < MAX_LINE ∧
      processLine (lit "worker " ++ crowdedJob) = some (.submit crowdedJob) ∧
      (∀ segment ∈ segments crowdedJob, isRepeat (trim segment) = false) ∧
      lit "increment 0" ∈ segments crowdedJob ∧ lit "increment 0" ∉ processJob crowdedJob ∧
      processJob crowdedJob ≠ (segments crowdedJob).map trim := by
  have hsegments : segments crowdedJob = List.replicate 100 (lit "x") ++ [lit "increment 0"] := by
    decide +kernel
  have hrun : processJob crowdedJob = List.replicate 100 (lit "x") := by decide +kernel
  rw [hsegments, hrun]
  refine ⟨by decide +kernel, by decide +kernel, by decide +kernel, ?_, ?_, fun heq => ?_⟩
  · exact List.mem_append_right _ (List.mem_singleton_self _)
  · intro hmem
    exact absurd (List.eq_of_mem_replicate hmem) (by decide)
  · have hlength := congrArg List.length heq
    rw [List.length_map, List.length_append, List.length_replicate] at hlength
    exact absurd hlength (by decide)

/-! ## Repeating -/

/-- **How often a `repeat` repeats**: the number that `sscanf` reads behind it, which is the integer
there if that is an `int`, and `0` if there is none. -/
structure Counts (cmd : List Byte) (t : ℤ) : Prop where
  /-- What `sscanf` reads. -/
  read : t = atoi (cmd.drop 6)
  /-- The integer behind `repeat`. -/
  value : ∀ v rest, IntegerAt (cmd.drop 6) v rest → Fits 31 v → t = v
  /-- No integer. -/
  absent : (∀ v rest, ¬ IntegerAt (cmd.drop 6) v rest) → t = 0

/-- What is read counts. -/
theorem counts_atoi (cmd : List Byte) : Counts cmd (atoi (cmd.drop 6)) := by
  refine ⟨rfl, fun v rest hv hfits => ?_, atoi_of_not_integerAt⟩
  obtain ⟨hlow, hhigh⟩ := hfits
  have hlong : Fits 63 v := by
    constructor <;> omega
  rw [atoi_of_integerAt hv, clampLong_eq_self hlong, wrap_eq_self ⟨hlow, hhigh⟩]

/-- **The meaning of `repeat`.** Without a `repeat` the commands of a job run in order. With one, those
in front of the first `repeat` run in order, and then those behind it as often as it says; the net
effect on every counter is the sum of theirs, in which every further `repeat` counts for nothing. -/
theorem repeat_semantics (job : List Byte) {cmds : List (List Byte)}
    (hcmds : splitCmds 100 (lineCopy job) = cmds) :
    ((∀ c ∈ cmds, isRepeat c = false) →
      processJob job = cmds ∧ ∀ id, netDelta id (processJob job) = (cmds.map (cmdDelta id)).sum) ∧
    ∀ before cmd after, cmds = before ++ cmd :: after → (∀ c ∈ before, isRepeat c = false) →
      isRepeat cmd = true → ∃ t, Counts cmd t ∧
        processJob job = before ++ (List.replicate (max t 0).toNat after).flatten ∧
        (∀ id, netDelta id (processJob job)
          = (before.map (cmdDelta id)).sum + max t 0 * (after.map (cmdDelta id)).sum) ∧
        ∀ c ∈ after, isRepeat c = true → ∀ id, cmdDelta id c = 0 := by
  subst hcmds
  refine ⟨fun hplain => ?_, fun before cmd after hcut hbefore hcmd => ?_⟩
  · have hrun : processJob job = splitCmds 100 (lineCopy job) := runOrder_plain hplain
    rw [hrun]
    exact ⟨rfl, fun id => rfl⟩
  · have htimes : (max (atoi (cmd.drop 6)) 0).toNat = (atoi (cmd.drop 6)).toNat := by omega
    have hrun : processJob job
        = before ++ (List.replicate (max (atoi (cmd.drop 6)) 0).toNat after).flatten := by
      rw [processJob, hcut, runOrder_repeat hbefore hcmd, htimes]
    refine ⟨_, counts_atoi cmd, hrun, fun id => ?_, fun c _ hc id => ?_⟩
    · rw [hrun, netDelta_append, netDelta_replicate, Int.toNat_of_nonneg (le_max_right _ _)]
      rfl
    · rw [cmdDelta, runCmd_repeat hc]

theorem repeat_semantics_twice :
    processJob (lit "increment 1; repeat 2; decrement 3; repeat 5; decrement 3")
      = lit "increment 1" :: (List.replicate 2
        [lit "decrement 3", lit "repeat 5", lit "decrement 3"]).flatten ∧
    netDelta 3 (processJob (lit "increment 1; repeat 2; decrement 3; repeat 5; decrement 3")) = -4 := by
  have hcmds : splitCmds 100 (lineCopy (lit "increment 1; repeat 2; decrement 3; repeat 5; decrement 3"))
      = [lit "increment 1"] ++ lit "repeat 2"
        :: [lit "decrement 3", lit "repeat 5", lit "decrement 3"] := by
    decide +kernel
  obtain ⟨t, ht, hrun, hnet, -⟩ := (repeat_semantics _ hcmds).2 _ _ _ rfl (by decide) (by decide)
  obtain rfl : t = 2 := ht.read.trans (by decide +kernel)
  refine ⟨hrun, (hnet 3).trans ?_⟩
  decide +kernel

end StudiesOS.JobDispatcher
