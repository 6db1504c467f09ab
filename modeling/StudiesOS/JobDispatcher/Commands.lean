import StudiesOS.CText.Numeral
import StudiesOS.CText.Split

/-! # The command language of the dispatcher
What the text of a job and the lines of a command file mean: `run_cmd` and `process_job` of
`worker.c`, and the line loop of `process_commands` in `dispatcher.c`. All of it is pure text
processing; what the commands do to the shared state is in `Machine`. -/

namespace StudiesOS.JobDispatcher

/-- `#define MAX_LINE 1024`. -/
def MAX_LINE : ℕ := 1024

/-- The delimiters `" \t"` of `run_cmd`, which `process_job` also trims. -/
def isBlank (b : Byte) : Bool := b = 32 ∨ b = 9

/-- `strncpy(buf, s, MAX_LINE)` and `buf[MAX_LINE-1] = '\0'`: the string left in `buf`. -/
def lineCopy (s : List Byte) : List Byte := (cstr s).take (MAX_LINE - 1)

/-- The conversion of an `int` number of milliseconds to the argument of `usleep`: the product is an
`int`, the parameter an unsigned one. -/
def useconds (ms : ℤ) : ℤ := (wrap 32 (ms * 1000)) % 2 ^ 32

/-! ## Jobs -/

/-- What one basic command asks for. -/
inductive Effect
  /-- An empty or unknown command, or an argument that is missing. -/
  | nothing
  /-- `usleep(us)`. -/
  | usleep (us : ℤ)
  /-- `update_counter(id, delta)`. -/
  | update (id delta : ℤ)
deriving DecidableEq, Repr

/-- **`run_cmd`**: the first two words of the command decide. -/
def runCmd (cmd : List Byte) : Effect :=
  match strtokR isBlank (lineCopy cmd) with
  | none => .nothing
  | some (op, save) =>
      -- `op` is the first word and `arg` the second, if there is one
      let arg := (strtokR isBlank save).map Prod.fst
      let val := match arg with
        | some a => atoi a
        | none => 0
      if op = lit "msleep" ∧ 0 < val then .usleep (useconds val)
      else if op = lit "increment" ∧ arg.isSome then .update val 1
      else if op = lit "decrement" ∧ arg.isSome then .update val (-1)
      else .nothing    -- unknown commands are ignored

/-- The `strtok_r` loop of `process_job`, with `room` entries of `cmds[100]` left. -/
def splitCmds : ℕ → List Byte → List (List Byte)
  | 0, _ => []    -- `n < 100` fails: the rest of the job is dropped
  | room + 1, s =>
      match strtokR (· = 59) s with
      | none => []
      | some (tok, save) => tok.dropWhile isBlank :: splitCmds room save

/-- The loop of `process_job` over `cmds[0..n)`: the commands it hands to `run_cmd`, in order. -/
def runOrder : List (List Byte) → List (List Byte)
  | [] => []
  | cmd :: rest =>
      if strncmpEq (lit "repeat") cmd then
        -- everything behind the `repeat`, that many times, and then `break`
        (List.replicate (atoi (cmd.drop 6)).toNat rest).flatten
      else cmd :: runOrder rest

/-- **`process_job`**: the sequence of `run_cmd` calls it makes. -/
def processJob (job : List Byte) : List (List Byte) := runOrder (splitCmds 100 (lineCopy job))

example : processJob (lit "increment 1;  repeat 2; decrement 3;msleep 5")
    = [lit "increment 1", lit "decrement 3", lit "msleep 5", lit "decrement 3", lit "msleep 5"] := by
  decide +kernel

/-! ## Command files -/

/-- What one line of a command file makes the dispatcher do. -/
inductive Directive
  /-- `worker`: enqueue a job with this text. -/
  | submit (cmd : List Byte)
  /-- `dispatcher_msleep`: `usleep(us)`. -/
  | msleep (us : ℤ)
  /-- `dispatcher_wait`: wait until no job is pending. -/
  | wait
deriving DecidableEq, Repr

/-- The chunks `fgets(line, MAX_LINE, f)` returns: up to a newline, at most `MAX_LINE - 1` bytes,
and what is left at the end of the file. -/
def fgetsChunks (file : List Byte) : List (List Byte) :=
  let rest := pending (MAX_LINE - 1) (fun _ b => b = LF) [] file
  pieces (MAX_LINE - 1) (fun _ b => b = LF) [] file ++ if rest = [] then [] else [rest]

/-- The body of the loop of `process_commands` on one chunk. -/
def processLine (chunk : List Byte) : Option Directive :=
  -- `strlen` ends at the first NUL of the chunk; the newline is cut off only if it stands there
  let line := cstr chunk
  let line := if line.getLast? = some LF then line.dropLast else line
  if line = [] then none
  else
    -- the keyword is compared as a prefix, so that nothing has to separate it from what follows
    let p := line.dropWhile isspace
    if strncmpEq (lit "worker") p then some (.submit ((p.drop 6).dropWhile isspace))
    else if strncmpEq (lit "dispatcher_msleep") p then some (.msleep (useconds (atoi (p.drop 17))))
    else if strncmpEq (lit "dispatcher_wait") p then some .wait
    else none

/-- **`process_commands`**: what the dispatcher does for a command file, in order. -/
def processCommands (file : List Byte) : List Directive := (fgetsChunks file).filterMap processLine

example : processCommands (lit "worker increment 0\n\n  dispatcher_wait\nworker repeat 2;msleep 1")
    = [.submit (lit "increment 0"), .wait, .submit (lit "repeat 2;msleep 1")] := by
  decide +kernel

/-- The texts of the jobs a list of directives submits. -/
def jobsOf (prog : List Directive) : List (List Byte) :=
  prog.filterMap fun d =>
    match d with
    | .submit cmd => some cmd
    | _ => none

/-! ## Net effects -/

/-- What `run_cmd` adds to counter `id`. -/
def cmdDelta (id : Fin 100) (cmd : List Byte) : ℤ :=
  match runCmd cmd with
  | .update i δ => if i = id then δ else 0
  | _ => 0

/-- What a list of commands adds to counter `id`. -/
def netDelta (id : Fin 100) (cmds : List (List Byte)) : ℤ := (cmds.map (cmdDelta id)).sum

@[simp] theorem netDelta_cons (id : Fin 100) (cmd : List Byte) (cmds : List (List Byte)) :
    netDelta id (cmd :: cmds) = cmdDelta id cmd + netDelta id cmds := by
  simp [netDelta]

@[simp] theorem netDelta_append (id : Fin 100) (cmds cmds' : List (List Byte)) :
    netDelta id (cmds ++ cmds') = netDelta id cmds + netDelta id cmds' := by
  simp [netDelta]

/-- `cmd` is an `increment` naming counter `id`. -/
def isIncrement (id : Fin 100) (cmd : List Byte) : Bool := runCmd cmd = .update id 1

/-- `cmd` is a `decrement` naming counter `id`. -/
def isDecrement (id : Fin 100) (cmd : List Byte) : Bool := runCmd cmd = .update id (-1)

/-- `run_cmd` only ever asks for `+1` or `-1`. -/
theorem runCmd_delta {cmd : List Byte} {i δ : ℤ} (h : runCmd cmd = .update i δ) :
    δ = 1 ∨ δ = -1 := by
  rw [runCmd] at h
  split at h
  · cases h
  · simp only at h
    split_ifs at h <;> cases h <;> simp

/-- **The net effect of a command list** is the number of its `increment`s naming the counter minus
the number of its `decrement`s naming it. -/
theorem netDelta_eq_count (id : Fin 100) (cmds : List (List Byte)) :
    netDelta id cmds = cmds.countP (isIncrement id) - cmds.countP (isDecrement id) := by
  induction cmds with
  | nil => rfl
  | cons cmd cmds ih =>
      rw [netDelta_cons, ih, List.countP_cons, List.countP_cons]
      have hcmd : cmdDelta id cmd
          = (if isIncrement id cmd then 1 else 0) - (if isDecrement id cmd then 1 else 0) := by
        rw [cmdDelta, isIncrement, isDecrement]
        cases hrun : runCmd cmd with
        | nothing => simp
        | usleep us => simp
        | update i δ =>
            by_cases hi : i = id
            · obtain rfl | rfl := runCmd_delta hrun <;> simp [hi]
            · simp [hi]
      rw [hcmd]
      push_cast
      ring

end StudiesOS.JobDispatcher
