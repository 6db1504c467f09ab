import StudiesOS.CText.Memory
import StudiesOS.Transition.Run

/-! # The chat client
The program of `hw3client.c`, from the line with its name on: the loop of `main` around `select`. A
step of the client (`Act`) is one round of `select` with what the read from the server returns, a read
from standard input, or one test of the loop that relays lines.

`Client.input`, `Client.writes` and `Client.printed` belong to the outside world: what has been read
from standard input so far, and what has been written to the socket and to standard output. A `write`
to the socket is taken to write all of its bytes. -/

namespace StudiesOS.ChatClient

/-- `MAX_MSG_LEN`. -/
def maxMsgLen : ℕ := 256

/-- How the client comes to its end. -/
inductive Ending
  /-- The server has closed the connection. -/
  | disconnected
  /-- The read from standard input returns no bytes. -/
  | inputEnded
  /-- The branch of `!exit`. -/
  | exit
deriving DecidableEq, Repr

/-- The points of the loop in `main`. -/
inductive Pc
  /-- About to call `select`. -/
  | select
  /-- About to read standard input. -/
  | input
  /-- In the `while` loop that relays lines. -/
  | extract
  /-- `main` has returned. -/
  | ended (how : Ending)
deriving DecidableEq, Repr

/-- **The client.** -/
structure Client where
  /-- `input_buffer`. -/
  inputBuffer : CharArray maxMsgLen
  /-- `input_len`. -/
  inputLen : ℕ
  /-- Where `main` stands. -/
  pc : Pc
  /-- What has been read from standard input. -/
  input : List Byte
  /-- What the calls of `write` have written to the socket. -/
  writes : List (List Byte)
  /-- What the calls of `printf` have printed. -/
  printed : List (List Byte)

/-- The line with the name: `sprintf(buffer, "%s\n", my_name)`, which is taken to fit. -/
def nameLine (name : List Byte) : List Byte := cstr name ++ [LF]

/-- **The client at the start of the loop**, with whatever is in `input_buffer`. -/
def Client.init (inputBuffer : CharArray maxMsgLen) (name : List Byte) : Client where
  inputBuffer := inputBuffer
  inputLen := 0
  pc := .select
  input := []
  writes := [nameLine name]
  printed := []

namespace Client

/-- **The bytes held back in the buffer.** -/
def content (c : Client) : List Byte := c.inputBuffer.mem.take c.inputLen

/-- The client goes to another point. -/
def goto (c : Client) (pc : Pc) : Client := { c with pc := pc }

/-- `printf`. -/
def print (c : Client) (text : List Byte) : Client := { c with printed := c.printed ++ [text] }

/-- `write(sock_fd, input_buffer, n)`. -/
def send (c : Client) (n : ℕ) : Client :=
  { c with writes := c.writes ++ [c.inputBuffer.mem.take n] }

/-- The size passed to the read from standard input. -/
def space (c : Client) : ℕ := maxMsgLen - c.inputLen - 1

/-- A read from standard input that returns bytes: they go behind those in the buffer, and a
terminator behind them. -/
def receive (c : Client) (data : List Byte) : Client :=
  let inputLen := c.inputLen + data.length
  { c with
    inputBuffer := (c.inputBuffer.write c.inputLen data).write inputLen [NUL]
    inputLen := inputLen
    input := c.input ++ data }

/-- What follows the `write` of a line of `msgLen` bytes. -/
def shift (c : Client) (msgLen : ℕ) : Client :=
  let remaining := c.inputLen - msgLen
  let moved := c.inputBuffer.write 0 ((c.inputBuffer.mem.drop msgLen).take remaining)
  { c with inputBuffer := moved.write remaining [NUL], inputLen := remaining }

/-- The flush of a full buffer, behind the loop. -/
def flush (c : Client) : Client :=
  if maxMsgLen - 1 ≤ c.inputLen then { c.send c.inputLen with inputLen := 0 } else c

end Client

/-- **The moves of the client**, with what the system calls return. -/
inductive Act
  /-- `select` returns: what the read from the server returns if the socket is ready, no bytes
  standing for the end of the connection and for an error; and whether standard input is ready. -/
  | select (server : Option (List Byte)) (stdin : Bool)
  /-- The read from standard input returns; no bytes stand for its end and for an error. -/
  | read (data : List Byte)
  /-- The next test of the `while` loop. -/
  | advance
deriving DecidableEq, Repr

/-- **One step of the client.** -/
def step (c : Client) : Act → Option Client
  | .select server stdin =>
      match c.pc with
      | .select =>
          match server with
          | none => some (c.goto (if stdin then .input else .select))
          | some data =>
              if data.length ≤ maxMsgLen - 1 then
                if data = [] then    -- n <= 0
                  some ((c.print (lit "Server disconnected.\n")).goto (.ended .disconnected))
                else
                  some ((c.print ((CharArray.zero maxMsgLen).write 0 data).str).goto
                    (if stdin then .input else .select))
              else none
      | _ => none
  | .read data =>
      match c.pc with
      | .input =>
          if data.length ≤ c.space then
            -- the end of the input leaves the loop at once: the bytes held back are never sent
            if data = [] then some (c.goto (.ended .inputEnded))
            else some ((c.receive data).goto .extract)
          else none
      | _ => none
  | .advance =>
      match c.pc with
      | .extract =>
          match strchr c.inputBuffer.str LF with
          | none => some (c.flush.goto .select)
          | some newline =>
              -- the test looks at the first five bytes of the buffer, whatever follows them
              if strncmpEq (lit "!exit") c.inputBuffer.str then
                some (((c.send (newline + 1)).print (lit "client exiting\n")).goto (.ended .exit))
              else some ((c.send (newline + 1)).shift (newline + 1))
      | _ => none

/-! ## What a step can do -/

/-- **The steps of the client, one by one.** -/
inductive Move (c : Client) : Client → Prop
  /-- The server is heard, or has gone, or is not ready; standard input has not been touched. -/
  | round (texts : List (List Byte)) (pc : Pc) (hpc : c.pc = .select) (hextract : pc ≠ .extract)
      (hexit : pc ≠ .ended .exit) : Move c ({ c with printed := c.printed ++ texts }.goto pc)
  /-- Standard input has ended. -/
  | close (hpc : c.pc = .input) : Move c (c.goto (.ended .inputEnded))
  /-- Standard input is read. -/
  | read (data : List Byte) (hpc : c.pc = .input) (hdata : data.length ≤ c.space) :
      Move c ((c.receive data).goto .extract)
  /-- The buffer has no more lines. -/
  | noLine (hpc : c.pc = .extract) (hline : LF ∉ c.inputBuffer.str) :
      Move c (c.flush.goto .select)
  /-- A line is relayed. -/
  | line (u v : List Byte) (hpc : c.pc = .extract) (hline : c.inputBuffer.str = u ++ LF :: v)
      (hu : LF ∉ u) (hexit : ¬ lit "!exit" <+: c.inputBuffer.str) :
      Move c ((c.send (u.length + 1)).shift (u.length + 1))
  /-- The exit branch. -/
  | exit (u v : List Byte) (hpc : c.pc = .extract) (hline : c.inputBuffer.str = u ++ LF :: v)
      (hu : LF ∉ u) (hexit : lit "!exit" <+: c.inputBuffer.str) :
      Move c (((c.send (u.length + 1)).print (lit "client exiting\n")).goto (.ended .exit))

/-- Every step is one of these moves. -/
theorem step_move {c c' : Client} {a : Act} (h : step c a = some c') : Move c c' := by
  cases a with
  | select server stdin =>
      cases hpc : c.pc with
      | input | extract | ended => simp [step, hpc] at h
      | select =>
          cases server with
          | none =>
              have hround : ∀ pc : Pc, pc ≠ .extract → pc ≠ .ended .exit → Move c (c.goto pc) := by
                intro pc hextract hexit
                have hmove := Move.round [] pc hpc hextract hexit
                rwa [List.append_nil] at hmove
              simp only [step, hpc, Option.some.injEq] at h
              subst h
              cases stdin with
              | true => exact hround .input (by simp) (by simp)
              | false => exact hround .select (by simp) (by simp)
          | some data =>
              simp only [step, hpc] at h
              -- the connection has ended, or standard input is ready or not
              split_ifs at h
              all_goals
                cases h
                exact .round [_] _ hpc (by simp) (by simp)
  | read data =>
      cases hpc : c.pc with
      | select | extract | ended => simp [step, hpc] at h
      | input =>
          simp only [step, hpc] at h
          split_ifs at h with hdata
          · cases h
            exact .close hpc
          · cases h
            exact .read data hpc hdata
  | advance =>
      cases hpc : c.pc with
      | select | input | ended => simp [step, hpc] at h
      | extract =>
          simp only [step, hpc] at h
          cases hfind : strchr c.inputBuffer.str LF with
          | none =>
              rw [hfind] at h
              cases h
              exact .noLine hpc (strchr_eq_none.mp hfind)
          | some newline =>
              rw [hfind] at h
              obtain ⟨u, v, hline, hu, rfl⟩ := strchr_eq_some hfind
              simp only [strncmpEq, List.isPrefixOf_iff_prefix] at h
              split_ifs at h with hexit
              · cases h
                exact .exit u v hpc hline hu hexit
              · cases h
                exact .line u v hpc hline hu hexit

end StudiesOS.ChatClient
