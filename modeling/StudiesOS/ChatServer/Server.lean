import StudiesOS.CText.Memory
import StudiesOS.Transition.Run
import Mathlib.Logic.Function.Basic

/-! # The chat server
The program of `hw3server.c`: the client table with `remove_client` and `find_client_by_name`,
`process_message`, and the loop of `main` around `select`. A step of the server (`Act`) is one round
of `select` with what `accept` and the first read return, the service of one client with what `read`
returns, or one iteration of the loop that extracts lines. The calls of `write` in a step return; what
happens when one does not is the subject of `ChatServer.Process`, whose runs are runs of these steps.

Descriptors are used again after they are closed, so the model keeps which connection a descriptor
stands for (`Server.sock`), and logs by connection what was read, which calls of `process_message`
were made, and what was written to whom. `Server.sock`, `Server.accepted` and `Server.log` belong to
the outside world: the program does not see them. -/

namespace StudiesOS.ChatServer

/-- `MAX_CLIENTS`. -/
def maxClients : ℕ := 16

/-- `MAX_MSG_LEN`. -/
def maxMsgLen : ℕ := 256

/-- `INET_ADDRSTRLEN`. -/
def inetAddrStrLen : ℕ := 16

/-- The character `'@'`. -/
def AT : Byte := 64

/-! ## The state -/

/-- `ClientInfo`. -/
structure ClientInfo where
  /-- `socket_fd`. -/
  socketFd : ℕ
  /-- `name`. -/
  name : CharArray maxMsgLen
  /-- `ip`. -/
  ip : CharArray inetAddrStrLen
  /-- `buffer`, the bytes read and not yet handed to `process_message`. -/
  buffer : CharArray maxMsgLen
  /-- `buf_len`, how many they are. -/
  bufLen : ℕ

/-- **The bytes waiting in the buffer.** -/
def ClientInfo.content (c : ClientInfo) : List Byte := c.buffer.mem.take c.bufLen

/-- The points of the loop in `main`; `readSet` is `read_set` as `select` left it. -/
inductive Pc
  /-- About to call `select`. -/
  | select
  /-- At client `i` in the loop over the clients. -/
  | service (i : ℕ) (readSet : ℕ → Bool)
  /-- In the `while` loop that extracts the lines of client `i`. -/
  | extract (i : ℕ) (readSet : ℕ → Bool)

/-- A call of `write`, seen from outside. -/
structure Write where
  /-- The connection written to. -/
  conn : ℕ
  /-- The name under which that client is registered. -/
  name : List Byte
  /-- The bytes. -/
  data : List Byte
deriving DecidableEq, Repr

/-- A call of `process_message`, seen from outside. -/
structure Call where
  /-- The bytes of the buffer that the call consumes. -/
  raw : List Byte
  /-- The string passed as `message`. -/
  text : List Byte
  /-- What it writes, in order. -/
  writes : List Write
deriving DecidableEq, Repr

/-- What happens to a connection. -/
inductive Event
  /-- The client enters the table after this first read. -/
  | admitted (conn : ℕ) (first : List Byte)
  /-- A later read returns these bytes. -/
  | received (conn : ℕ) (data : List Byte)
  /-- `process_message` is called for the client. -/
  | called (conn : ℕ) (call : Call)
  /-- A read finds the connection ended, and the client leaves the table. -/
  | closed (conn : ℕ)
deriving DecidableEq, Repr

/-- **The server.** -/
structure Server where
  /-- `clients`; there are `MAX_CLIENTS` entries, and the first `num_clients` are in use. -/
  clients : ℕ → ClientInfo
  /-- `num_clients`. -/
  numClients : ℕ
  /-- Where `main` stands. -/
  pc : Pc
  /-- The connection of each descriptor. -/
  sock : ℕ → ℕ
  /-- How many connections have been accepted. -/
  accepted : ℕ
  /-- What has happened to the connections, in order. -/
  log : List Event

/-- An entry of the table as it is before the first client, all zeros. -/
def ClientInfo.zero : ClientInfo where
  socketFd := 0
  name := .zero maxMsgLen
  ip := .zero inetAddrStrLen
  buffer := .zero maxMsgLen
  bufLen := 0

/-- **The server at the start of the loop**, with whatever is in the table. -/
def Server.init (clients : ℕ → ClientInfo) : Server where
  clients := clients
  numClients := 0
  pc := .select
  sock := fun _ => 0
  accepted := 0
  log := []

namespace Server

/-- The connection of client `i`. -/
def conn (s : Server) (i : ℕ) : ℕ := s.sock (s.clients i).socketFd

/-- Replace the entry of client `i`. -/
def setClient (s : Server) (i : ℕ) (c : ClientInfo) : Server :=
  { s with clients := Function.update s.clients i c }

/-- Add events to the log. -/
def record (s : Server) (events : List Event) : Server := { s with log := s.log ++ events }

/-! ## Messages -/

/-- `send_message(clients[i].socket_fd, msg)`. -/
def sendMessage (s : Server) (i : ℕ) (msg : List Byte) : Write :=
  ⟨s.conn i, (s.clients i).name.str, msg⟩

/-- `broadcast_message`. -/
def broadcastMessage (s : Server) (msg : List Byte) : List Write :=
  (List.range s.numClients).map fun i => s.sendMessage i msg

/-- `find_client_by_name`. -/
def findClientByName (s : Server) (name : List Byte) : Option ℕ :=
  (List.range s.numClients).find? fun i => (s.clients i).name.str = name

/-- **`process_message(sender_index, message)`**: what it writes. The formatted text is taken to fit
into `formatted_msg`. -/
def processMessage (s : Server) (sender : ℕ) (message : List Byte) : List Write :=
  -- the newline of `message` is overwritten before it is formatted, and `text` goes into both
  let text := chomp message
  let formatted := (s.clients sender).name.str ++ lit ": " ++ text ++ [LF]
  if text.head? = some AT then
    -- a private message: the name ends at the first blank, and without one nothing is sent
    match strchr text.tail SP with
    | none => []
    | some nameLen =>
        match s.findClientByName (text.tail.take nameLen) with
        | none => []    -- target_index < 0: the sender is not told
        | some target => [s.sendMessage target formatted]
  else s.broadcastMessage formatted

/-- The call of `process_message` for client `i`, in the log. -/
def call (s : Server) (i : ℕ) (raw text : List Byte) : Event :=
  .called (s.conn i) ⟨raw, text, s.processMessage i text⟩

/-! ## Entering and leaving the table -/

/-- `remove_client(fd)`: the last entry takes the place of the one removed. -/
def removeClient (s : Server) (fd : ℕ) : Server :=
  match (List.range s.numClients).find? fun i => (s.clients i).socketFd = fd with
  | none => s
  | some i =>
      { s with
        -- `clients[i]` is only overwritten; the entry past the end stays as it is
        clients :=
          if i < s.numClients - 1 then Function.update s.clients i (s.clients (s.numClients - 1))
          else s.clients
        numClients := s.numClients - 1
        log := s.log ++ [.closed (s.sock fd)] }

/-- What `accept` and the first read on the new descriptor return. -/
structure Incoming where
  /-- `new_fd`. -/
  fd : ℕ
  /-- The address as `inet_ntop` prints it. -/
  ip : List Byte
  /-- The bytes of the first read; empty when it returns at most `0`. -/
  first : List Byte

/-- What `accept` and `read` promise: the descriptor is not open, and the first read returns at most
`MAX_MSG_LEN - 1` bytes. -/
def Possible (s : Server) (a : Incoming) : Prop :=
  (∀ i < s.numClients, (s.clients i).socketFd ≠ a.fd) ∧ a.first.length ≤ maxMsgLen - 1

instance (s : Server) (a : Incoming) : Decidable (s.Possible a) :=
  inferInstanceAs (Decidable (_ ∧ _))

/-- The entry of a new client, written over what was in its slot. -/
def newClient (old : ClientInfo) (a : Incoming) : ClientInfo :=
  let buffer := ((CharArray.zero maxMsgLen).write 0 a.first).chomp
  { old with
    socketFd := a.fd
    name := old.name.strcpy buffer.str
    ip := old.ip.strcpy a.ip
    bufLen := 0 }

/-- **`accept` and what follows it.** -/
def acceptClient (s : Server) (a : Incoming) : Server :=
  -- `accept` has returned a connection, whether or not there is room for the client
  let opened :=
    { s with sock := Function.update s.sock a.fd s.accepted, accepted := s.accepted + 1 }
  if a.first ≠ [] ∧ s.numClients < maxClients then
    { opened with
      clients := Function.update s.clients s.numClients (newClient (s.clients s.numClients) a)
      numClients := s.numClients + 1
      log := s.log ++ [.admitted s.accepted a.first] }
  else opened    -- close(new_fd)

/-! ## Serving a client -/

/-- `space_left`. -/
def spaceLeft (s : Server) (i : ℕ) : ℕ := maxMsgLen - (s.clients i).bufLen - 1

/-- **The flush of a full buffer**, which makes room for the read. -/
def flush (s : Server) (i : ℕ) : Server :=
  if s.spaceLeft i = 0 then
    -- the buffer is full and no line could be extracted: all of it is passed as one message
    let c := s.clients i
    let buffer := c.buffer.write c.bufLen [NUL]
    (s.setClient i { c with buffer := buffer.chomp, bufLen := 0 }).record
      [s.call i c.content buffer.str]
  else s

/-- A read that returns bytes: they go behind those in the buffer, and a terminator behind them. -/
def receive (s : Server) (i : ℕ) (data : List Byte) : Server :=
  let c := s.clients i
  let bufLen := c.bufLen + data.length
  let buffer := (c.buffer.write c.bufLen data).write bufLen [NUL]
  (s.setClient i { c with buffer := buffer, bufLen := bufLen }).record [.received (s.conn i) data]

/-- One iteration of the loop that extracts lines: the first `msgLen` bytes of the buffer are a
line. -/
def extractLine (s : Server) (i : ℕ) (msgLen : ℕ) : Server :=
  let c := s.clients i
  let message := cstr (c.buffer.mem.take msgLen)
  let remaining := c.bufLen - msgLen
  let moved := c.buffer.write 0 ((c.buffer.mem.drop msgLen).take remaining)
  (s.setClient i { c with buffer := moved.write remaining [NUL], bufLen := remaining }).record
    [s.call i (c.buffer.mem.take msgLen) message]

/-! ## The loop -/

/-- `read_set` after `select`: of the registered descriptors those that are ready. -/
def readSet (s : Server) (ready : ℕ → Bool) (fd : ℕ) : Bool :=
  ready fd && (List.range s.numClients).any fun i => (s.clients i).socketFd = fd

/-- The server goes to another point of the loop. -/
def goto (s : Server) (pc : Pc) : Server := { s with pc := pc }

end Server

/-- **The moves of the server**, with what the system calls return. -/
inductive Act
  /-- `select` returns; when the listening socket is ready, a connection may be accepted. -/
  | select (ready : ℕ → Bool) (incoming : Option Server.Incoming)
  /-- The `read` for the client at hand returns; no bytes stand for end of file and for an error. -/
  | read (data : List Byte)
  /-- The next test of a loop. -/
  | advance

/-- **One step of the server.** -/
def step (s : Server) : Act → Option Server
  | .select ready incoming =>
      match s.pc with
      | .select =>
          match incoming with
          | none => some (s.goto (.service 0 (s.readSet ready)))
          | some a =>
              if s.Possible a then
                some ((s.acceptClient a).goto (.service 0 (s.readSet ready)))
              else none
      | _ => none
  | .read data =>
      match s.pc with
      | .service i readSet =>
          -- the read is offered the room that is left after the flush, if there was one
          if i < s.numClients ∧ readSet (s.clients i).socketFd = true ∧
              data.length ≤ (s.flush i).spaceLeft i then
            if data = [] then
              -- remove_client(client_fd); i--;
              some (((s.flush i).removeClient (s.clients i).socketFd).goto (.service i readSet))
            else some (((s.flush i).receive i data).goto (.extract i readSet))
          else none
      | _ => none
  | .advance =>
      match s.pc with
      | .select => none
      | .service i readSet =>
          if i < s.numClients then
            if readSet (s.clients i).socketFd then none
            else some (s.goto (.service (i + 1) readSet))
          else some (s.goto .select)
      | .extract i readSet =>
          match strchr (s.clients i).buffer.str LF with
          | none => some (s.goto (.service (i + 1) readSet))
          -- the `while` loop stays at the same client
          | some newline => some (s.extractLine i (newline + 1))

/-! ## What a step can do -/

/-- **The steps of the server, one by one.** -/
inductive Move (s : Server) : Server → Prop
  /-- A round without a new connection begins. -/
  | round (ready : ℕ → Bool) (hpc : s.pc = .select) :
      Move s (s.goto (.service 0 (s.readSet ready)))
  /-- A round with a new connection begins. -/
  | accept (ready : ℕ → Bool) (a : Server.Incoming) (hpc : s.pc = .select) (ha : s.Possible a) :
      Move s ((s.acceptClient a).goto (.service 0 (s.readSet ready)))
  /-- The connection of the client at hand has ended. -/
  | leave (i : ℕ) (readSet : ℕ → Bool) (hpc : s.pc = .service i readSet) (hi : i < s.numClients) :
      Move s (((s.flush i).removeClient (s.clients i).socketFd).goto (.service i readSet))
  /-- The client at hand is read. -/
  | read (i : ℕ) (readSet : ℕ → Bool) (data : List Byte) (hpc : s.pc = .service i readSet)
      (hi : i < s.numClients) (hdata : data.length ≤ (s.flush i).spaceLeft i) :
      Move s (((s.flush i).receive i data).goto (.extract i readSet))
  /-- The client at hand is not ready. -/
  | next (i : ℕ) (readSet : ℕ → Bool) (hpc : s.pc = .service i readSet) :
      Move s (s.goto (.service (i + 1) readSet))
  /-- The round ends. -/
  | done (i : ℕ) (readSet : ℕ → Bool) (hpc : s.pc = .service i readSet) : Move s (s.goto .select)
  /-- The buffer of the client at hand has no more lines. -/
  | noLine (i : ℕ) (readSet : ℕ → Bool) (hpc : s.pc = .extract i readSet)
      (hline : LF ∉ (s.clients i).buffer.str) : Move s (s.goto (.service (i + 1) readSet))
  /-- A line is extracted. -/
  | line (i : ℕ) (readSet : ℕ → Bool) (u v : List Byte) (hpc : s.pc = .extract i readSet)
      (hline : (s.clients i).buffer.str = u ++ LF :: v) (hu : LF ∉ u) :
      Move s (s.extractLine i (u.length + 1))

/-- Every step is one of these moves. -/
theorem step_move {s s' : Server} {a : Act} (h : step s a = some s') : Move s s' := by
  cases a with
  | select ready incoming =>
      cases hpc : s.pc with
      | service | extract => simp [step, hpc] at h
      | select =>
          cases incoming with
          | none =>
              simp only [step, hpc] at h
              cases h
              exact .round ready hpc
          | some a =>
              simp only [step, hpc] at h
              split_ifs at h with ha
              cases h
              exact .accept ready a hpc ha
  | read data =>
      cases hpc : s.pc with
      | select | extract => simp [step, hpc] at h
      | service i readSet =>
          simp only [step, hpc] at h
          split_ifs at h with hguard
          · cases h
            exact .leave i readSet hpc hguard.1
          · cases h
            exact .read i readSet data hpc hguard.1 hguard.2.2
  | advance =>
      cases hpc : s.pc with
      | select => simp [step, hpc] at h
      | service i readSet =>
          simp only [step, hpc] at h
          split_ifs at h
          · cases h
            exact .next i readSet hpc
          · cases h
            exact .done i readSet hpc
      | extract i readSet =>
          simp only [step, hpc] at h
          cases hfind : strchr (s.clients i).buffer.str LF with
          | none =>
              rw [hfind] at h
              cases h
              exact .noLine i readSet hpc (strchr_eq_none.mp hfind)
          | some newline =>
              rw [hfind] at h
              cases h
              obtain ⟨u, v, hline, hu, rfl⟩ := strchr_eq_some hfind
              exact .line i readSet u v hpc hline hu

end StudiesOS.ChatServer
