import StudiesOS.JobDispatcher.Commands
import StudiesOS.CText.Framing
import StudiesOS.CText.Memory

/-! # The lines of a command file
`process_commands` reads a line with `fgets` into a buffer of `MAX_LINE` bytes, and takes what is in
the buffer for the line. A longer line comes in chunks, and each of them is handled as a line of its
own. -/

namespace StudiesOS.JobDispatcher

/-! ## What a file means -/

/-- **What a line means**: its first keyword, behind the blanks in front of it, decides. -/
def meaning (line : List Byte) : Option Directive :=
  let p := line.dropWhile isspace
  if lit "worker" <+: p then some (.submit ((p.drop 6).dropWhile isspace))
  else if lit "dispatcher_msleep" <+: p then some (.msleep (useconds (atoi (p.drop 17))))
  else if lit "dispatcher_wait" <+: p then some .wait
  else none

/-- **The lines of a file** that are not empty, with or without a newline at the end of the last. -/
def linesOf (file : List Byte) : List (List Byte) := fields (· = LF) file

/-- **What the loop handles**: the strings it looks for keywords in, in order. -/
def handled (file : List Byte) : List (List Byte) :=
  ((fgetsChunks file).map fun chunk => chomp (cstr chunk)).filter (· ≠ [])

/-- **One line, one command**: the actions are those of the lines, and every line is handled once and
as a whole. -/
structure OneLineOneCommand (file : List Byte) : Prop where
  /-- The actions. -/
  actions : processCommands file = (linesOf file).filterMap meaning
  /-- What is handled. -/
  whole : handled file = linesOf file

/-! ## What the code does -/

/-- A chunk is handled as the string in it without its newline. -/
theorem processLine_eq (chunk : List Byte) :
    processLine chunk = if chomp (cstr chunk) = [] then none else meaning (chomp (cstr chunk)) := by
  rw [processLine, ← chomp, meaning]
  simp only [strncmpEq, List.isPrefixOf_iff_prefix]

/-- **The actions are those of what is handled.** -/
theorem processCommands_eq (file : List Byte) :
    processCommands file = (handled file).filterMap meaning := by
  rw [processCommands, handled]
  induction fgetsChunks file with
  | nil => rfl
  | cons chunk chunks ih =>
      rw [List.filterMap_cons, List.map_cons, processLine_eq]
      by_cases hempty : chomp (cstr chunk) = []
      · rw [if_pos hempty, List.filter_cons_of_neg (by simpa using hempty)]
        exact ih
      · rw [if_neg hempty, List.filter_cons_of_pos (by simpa using hempty), List.filterMap_cons, ih]

/-- **The parts in which one line is handled.** -/
def parts (line : List Byte) : List (List Byte) :=
  (pieces (MAX_LINE - 1) endsLine [] line ++ [pending (MAX_LINE - 1) endsLine [] line]).filter (· ≠ [])

/-- Chunks of a line are handled as they are. -/
theorem map_chomp_cstr {u : List Byte} (hNUL : NUL ∉ u) (hLF : LF ∉ u) {chunks : List (List Byte)}
    (hsub : ∀ p ∈ chunks, p ⊆ u) : (chunks.map fun chunk => chomp (cstr chunk)) = chunks := by
  rw [List.map_congr_left fun p hp => ?_, List.map_id']
  have hnul : NUL ∉ p := fun hmem => hNUL (hsub p hp hmem)
  have hlf : LF ∉ p := fun hmem => hLF (hsub p hp hmem)
  rw [cstr_eq_self hnul, chomp_eq_self hlf]

/-- The last line, without a newline. -/
theorem handled_last {u : List Byte} (hNUL : NUL ∉ u) (hLF : LF ∉ u) : handled u = parts u := by
  have hsub : ∀ p ∈ pieces (MAX_LINE - 1) endsLine [] u ++ [pending (MAX_LINE - 1) endsLine [] u],
      p ⊆ u := fun p hp => subset_of_mem_pieces hp
  have hchunks : fgetsChunks u = pieces (MAX_LINE - 1) endsLine [] u
      ++ if pending (MAX_LINE - 1) endsLine [] u = [] then []
        else [pending (MAX_LINE - 1) endsLine [] u] := rfl
  rw [handled, parts, hchunks]
  split
  · rename_i hnil
    rw [List.append_nil, hnil, List.filter_append,
      map_chomp_cstr hNUL hLF fun p hp => hsub p (List.mem_append_left _ hp)]
    simp
  · rw [map_chomp_cstr hNUL hLF hsub]

/-- A line and what follows it. -/
theorem handled_append {u : List Byte} (hNUL : NUL ∉ u) (hLF : LF ∉ u) (rest : List Byte) :
    handled (u ++ LF :: rest) = parts u ++ handled rest := by
  have hsub : ∀ p ∈ pieces (MAX_LINE - 1) endsLine [] u ++ [pending (MAX_LINE - 1) endsLine [] u],
      p ⊆ u := fun p hp => subset_of_mem_pieces hp
  have hnul : NUL ∉ pending (MAX_LINE - 1) endsLine [] u ++ [LF] := by
    rw [List.mem_append, List.mem_singleton, not_or]
    exact ⟨fun hmem => hNUL (hsub _ (List.mem_append_right _ (List.mem_singleton_self _)) hmem),
      by decide⟩
  obtain ⟨hpieces, hpending⟩ : _ ∧ pending (MAX_LINE - 1) endsLine [] (u ++ LF :: rest) = _ :=
    pieces_endsLine_append u rest
  have hchunks : fgetsChunks (u ++ LF :: rest) = pieces (MAX_LINE - 1) endsLine [] u
      ++ (pending (MAX_LINE - 1) endsLine [] u ++ [LF]) :: fgetsChunks rest := by
    show pieces _ endsLine [] _
      ++ (if pending _ endsLine [] _ = [] then [] else [pending _ endsLine [] _]) = _
    rw [hpieces, hpending, List.append_assoc, List.cons_append]
    rfl
  rw [handled, hchunks, List.map_append, List.map_cons, cstr_eq_self hnul, chomp_line,
    map_chomp_cstr hNUL hLF fun p hp => hsub p (List.mem_append_left _ hp), List.append_cons,
    List.filter_append]
  rfl

/-- **What is handled are the parts of the lines**, in every file without NULs. -/
theorem handled_eq {file : List Byte} (hNUL : NUL ∉ file) :
    handled file = (linesOf file).flatMap parts := by
  induction hn : file.length using Nat.strong_induction_on generalizing file with
  | _ n ih =>
      have hempty : parts [] = [] := by decide
      by_cases hLF : LF ∈ file
      · obtain ⟨u, rest, rfl, hu⟩ := List.eq_append_cons_of_mem hLF
        rw [List.mem_append, not_or, List.mem_cons, not_or] at hNUL
        have hrest := ih rest.length (by rw [← hn, List.length_append, List.length_cons]; omega)
          hNUL.2.2 rfl
        rw [handled_append hNUL.1 hu, hrest, linesOf, linesOf]
        by_cases hnil : u = []
        · rw [hnil, List.nil_append, fields_cons_delim (by decide), hempty, List.nil_append]
        · rw [fields_append_cons hnil (fun b hb => ?_) (by decide), List.flatMap_cons]
          simpa using ne_of_mem_of_not_mem hb hu
      · rw [handled_last hNUL hLF, linesOf]
        by_cases hnil : file = []
        · rw [hnil, fields_nil, hempty, List.flatMap_nil]
        · rw [fields_singleton hnil fun b hb => ?_, List.flatMap_singleton]
          simpa using ne_of_mem_of_not_mem hb hLF

/-- A line that fits into the buffer is handled as a whole. -/
theorem parts_short {line : List Byte} (hne : line ≠ []) (hLF : LF ∉ line)
    (hlen : line.length ≤ MAX_LINE - 1) : parts line = [line] := by
  rw [parts]
  rcases Nat.lt_or_eq_of_le hlen with hlt | heq
  · have hnil := pieces_endsLine_nil hLF hlt
    rw [hnil, pending_of_pieces_nil hnil]
    simp [hne]
  · obtain ⟨hone, hnil⟩ := pieces_endsLine_full hLF (by decide) heq
    rw [hone, hnil]
    simp [hne]

/-- No part is longer than the buffer. -/
theorem length_of_mem_parts {line p : List Byte} (hp : p ∈ parts line) :
    p.length ≤ MAX_LINE - 1 := by
  rcases List.mem_append.mp (List.mem_filter.mp hp).1 with hmem | hmem
  · exact length_le_of_mem_pieces (by decide) hmem
  · rw [List.mem_singleton.mp hmem]
    have hnil : ([] : List Byte).length < MAX_LINE - 1 := by decide
    exact (pending_length_lt (MAX_LINE - 1) endsLine (by decide) hnil line).le

/-- **One line is one command, if and only if no line is longer than 1023 bytes**, for every file
without NULs. -/
theorem oneLineOneCommand_iff {file : List Byte} (hNUL : NUL ∉ file) :
    OneLineOneCommand file ↔ ∀ line ∈ linesOf file, line.length ≤ MAX_LINE - 1 := by
  constructor
  · rintro ⟨-, hwhole⟩ line hline
    rw [← hwhole, handled_eq hNUL] at hline
    obtain ⟨whole, -, hmem⟩ := List.mem_flatMap.mp hline
    exact length_of_mem_parts hmem
  · intro hshort
    have hwhole : handled file = linesOf file := by
      rw [handled_eq hNUL]
      have hparts : ∀ line ∈ linesOf file, parts line = [line] := by
        intro line hline
        obtain ⟨hne, hLF⟩ := of_mem_fields hline
        exact parts_short hne (fun h => by simpa using hLF LF h) (hshort line hline)
      rw [List.flatMap_congr hparts]
      exact List.flatMap_singleton' _
    exact ⟨by rw [processCommands_eq, hwhole], hwhole⟩

theorem oneLineOneCommand_short :
    OneLineOneCommand (lit "worker increment 0\n\n dispatcher_wait") ∧
      processCommands (lit "worker increment 0\n\n dispatcher_wait")
        = [.submit (lit "increment 0"), .wait] := by
  have hlines : linesOf (lit "worker increment 0\n\n dispatcher_wait")
      = [lit "worker increment 0", lit " dispatcher_wait"] := by
    decide +kernel
  have hNUL : NUL ∉ lit "worker increment 0\n\n dispatcher_wait" := by decide
  have hone := (oneLineOneCommand_iff hNUL).mpr (by rw [hlines]; decide)
  refine ⟨hone, hone.actions.trans ?_⟩
  rw [hlines]
  decide +kernel

/-- A job text of 1016 bytes, which fills the line buffer behind its keyword. -/
def filler : List Byte := List.replicate 1016 120

/-- **The end of a long line is handled as a command**, and the job text is cut. -/
theorem longLine_splits :
    processCommands (lit "worker " ++ filler ++ lit "dispatcher_wait\n") = [.submit filler, .wait] ∧
      (linesOf (lit "worker " ++ filler ++ lit "dispatcher_wait\n")).filterMap meaning
        = [.submit (filler ++ lit "dispatcher_wait")] ∧
      ¬ OneLineOneCommand (lit "worker " ++ filler ++ lit "dispatcher_wait\n") := by
  have hcode : processCommands (lit "worker " ++ filler ++ lit "dispatcher_wait\n")
      = [.submit filler, .wait] := by
    decide +kernel
  have hlines : (linesOf (lit "worker " ++ filler ++ lit "dispatcher_wait\n")).filterMap meaning
      = [.submit (filler ++ lit "dispatcher_wait")] := by
    decide +kernel
  refine ⟨hcode, hlines, fun hone => ?_⟩
  have hactions := hone.actions
  rw [hcode, hlines] at hactions
  exact absurd (congrArg List.length hactions) (by decide)

end StudiesOS.JobDispatcher
