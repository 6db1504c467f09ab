import StudiesOS.ChatServer.Rounds

/-! # The process of the server
`send_message` makes a `write` and does not look at its result. Here every `write` is a step of its own,
made before the step of the loop that it belongs to: it returns at once, or it waits for a client that
does not read, or it raises `SIGPIPE`, when the client has reset the connection. The program has no
handler for the signal, which ends it, in the middle of a round. As long as no `write` goes to such a
connection, the runs of the process are those of the loop. -/

namespace StudiesOS.ChatServer

open Server

/-! ## The writes of the next step -/

/-- **The writes that the next step of the loop makes**, before anything else: those of
`process_message` for a full buffer, or for the first line of the buffer. -/
def Server.upcoming (s : Server) : List Write :=
  match s.pc with
  | .select => []
  | .service i readSet =>
      if i < s.numClients ∧ readSet (s.clients i).socketFd = true ∧ s.spaceLeft i = 0 then
        s.processMessage i (s.flushText i)
      else []
  | .extract i _ =>
      match strchr (s.clients i).buffer.str LF with
      | none => []
      | some newline => s.processMessage i (cstr ((s.clients i).buffer.mem.take (newline + 1)))

/-- The writes among some events. -/
def eventWrites (events : List Event) : List Write := (events.flatMap Event.calls).flatMap Call.writes

/-- One after the other. -/
theorem eventWrites_append (events more : List Event) :
    eventWrites (events ++ more) = eventWrites events ++ eventWrites more := by
  unfold eventWrites
  rw [List.flatMap_append, List.flatMap_append]

/-- The writes of the flush. -/
theorem flush_writes (s : Server) (i : ℕ) : ∃ events, (s.flush i).log = s.log ++ events ∧
    eventWrites events = if s.spaceLeft i = 0 then s.processMessage i (s.flushText i) else [] := by
  unfold flush
  split
  · exact ⟨_, rfl, List.append_nil _⟩
  · exact ⟨[], (List.append_nil _).symm, rfl⟩

/-- A client that leaves is told nothing. -/
theorem removeClient_writes (s : Server) (fd : ℕ) :
    ∃ events, (s.removeClient fd).log = s.log ++ events ∧ eventWrites events = [] := by
  unfold removeClient
  split
  · exact ⟨[], (List.append_nil _).symm, rfl⟩
  · exact ⟨_, rfl, rfl⟩

/-- A client that enters is told nothing. -/
theorem acceptClient_writes (s : Server) (a : Incoming) :
    ∃ events, (s.acceptClient a).log = s.log ++ events ∧ eventWrites events = [] := by
  unfold acceptClient
  split
  · exact ⟨_, rfl, rfl⟩
  · exact ⟨[], (List.append_nil _).symm, rfl⟩

/-- Before a step that logs nothing no write is made. -/
theorem quiet_writes {s s' : Server} (hlog : s'.log = s.log) (hnone : s.upcoming = []) :
    ∃ events, s'.log = s.log ++ events ∧ eventWrites events = s.upcoming :=
  ⟨[], hlog.trans (List.append_nil _).symm, hnone.symm⟩

/-- Before a read only the writes of the flush are made. -/
theorem service_writes {s s' : Server} {i : ℕ} {readSet : ℕ → Bool} {more : List Event}
    (hpc : s.pc = .service i readSet) (hi : i < s.numClients)
    (hready : readSet (s.clients i).socketFd = true) (hlog : s'.log = (s.flush i).log ++ more)
    (hquiet : eventWrites more = []) :
    ∃ events, s'.log = s.log ++ events ∧ eventWrites events = s.upcoming := by
  obtain ⟨events, hflush, hwrites⟩ := flush_writes s i
  refine ⟨events ++ more, ?_, ?_⟩
  · rw [hlog, hflush, List.append_assoc]
  · rw [eventWrites_append, hquiet, List.append_nil, hwrites]
    simp only [upcoming, hpc, hi, hready, true_and]

/-- **They are the writes that the step logs.** -/
theorem step_writes {s s' : Server} {a : Act} (h : step s a = some s') :
    ∃ events, s'.log = s.log ++ events ∧ eventWrites events = s.upcoming := by
  cases a with
  | select ready incoming =>
      cases hpc : s.pc with
      | service | extract => simp [step, hpc] at h
      | select =>
          have hnone : s.upcoming = [] := by rw [upcoming, hpc]
          cases incoming with
          | none =>
              simp only [step, hpc] at h
              cases h
              exact quiet_writes rfl hnone
          | some a =>
              simp only [step, hpc] at h
              split_ifs at h
              cases h
              rw [hnone]
              exact acceptClient_writes s a
  | read data =>
      cases hpc : s.pc with
      | select | extract => simp [step, hpc] at h
      | service i readSet =>
          simp only [step, hpc] at h
          split_ifs at h with hguard hdata
          · -- the client has left
            obtain ⟨more, hmore, hquiet⟩ := removeClient_writes (s.flush i) (s.clients i).socketFd
            cases h
            exact service_writes hpc hguard.1 hguard.2.1 hmore hquiet
          · have hmore : ((s.flush i).receive i data).log
                = (s.flush i).log ++ [.received ((s.flush i).conn i) data] := rfl
            cases h
            exact service_writes hpc hguard.1 hguard.2.1 hmore rfl
  | advance =>
      cases hpc : s.pc with
      | select => simp [step, hpc] at h
      | service i readSet =>
          simp only [step, hpc] at h
          split_ifs at h with hi hready
          · cases h
            exact quiet_writes rfl (by simp [upcoming, hpc, hready])
          · cases h
            exact quiet_writes rfl (by simp [upcoming, hpc, hi])
      | extract i readSet =>
          simp only [step, hpc] at h
          cases hfind : strchr (s.clients i).buffer.str LF with
          | none =>
              rw [hfind] at h
              cases h
              exact quiet_writes rfl (by simp [upcoming, hpc, hfind])
          | some newline =>
              -- the message of the line
              rw [hfind] at h
              cases h
              refine ⟨_, rfl, ?_⟩
              simp only [upcoming, hpc, hfind]
              exact List.append_nil _

/-- A call makes at most `MAX_CLIENTS` writes. -/
theorem upcoming_length {s : Server} (hcount : s.numClients ≤ maxClients) :
    s.upcoming.length ≤ maxClients := by
  have hmessage : ∀ i text, (s.processMessage i text).length ≤ maxClients := by
    intro i text
    simp only [processMessage]
    split
    · split
      · exact Nat.zero_le _
      · split
        · exact Nat.zero_le _
        · exact Nat.le_of_ble_eq_true rfl
    · rw [broadcastMessage, List.length_map, List.length_range]
      exact hcount
  unfold upcoming
  split
  · exact Nat.zero_le _
  · split
    · exact hmessage _ _
    · exact Nat.zero_le _
  · split
    · exact Nat.zero_le _
    · exact hmessage _ _

/-! ## The process -/

/-- The client's end of a connection, as far as a `write` notices it. -/
inductive Link
  /-- The client reads: a write returns. -/
  | up
  /-- The client does not read, and the connection holds as much as it can: a write waits. -/
  | full
  /-- The client has closed its end: a write returns, and may bring on a reset. -/
  | closed
  /-- The client has reset the connection: a write raises `SIGPIPE`. -/
  | reset
deriving DecidableEq, Repr

/-- A connection that has been reset stays so, and one that has been closed is not opened again. -/
def Link.canBecome : Link → Link → Bool
  | .up, _ => true
  | .full, _ => true
  | .closed, l => l = .closed ∨ l = .reset
  | .reset, l => l = .reset

/-- **The process**: the server and what is around it. -/
structure Process where
  /-- The program, as it is between two steps of the loop. -/
  server : Server
  /-- The client's end of each connection. -/
  link : ℕ → Link
  /-- How many of the writes of the next step have been made. -/
  written : ℕ
  /-- Whether `SIGPIPE` has ended the process. -/
  killed : Bool

/-- The process at the start of the loop. -/
def Process.init (clients : ℕ → ClientInfo) : Process where
  server := Server.init clients
  link := fun _ => .up
  written := 0
  killed := false

/-- **The moves of the process and of the clients.** -/
inductive ProcessAct
  /-- The loop takes its next step; its writes have been made. -/
  | loop (a : Act)
  /-- The next `write` of `send_message`. -/
  | write
  /-- A client does something with its end of connection `c`. -/
  | client (c : ℕ) (l : Link)

namespace Process

/-- **One step of the process.** -/
def step (w : Process) : ProcessAct → Option Process
  | .loop a =>
      if w.killed = false ∧ w.written = w.server.upcoming.length then
        (ChatServer.step w.server a).map fun s => { w with server := s, written := 0 }
      else none
  | .write =>
      if w.killed = false then
        match w.server.upcoming[w.written]? with
        | none => none
        | some wr =>
            match w.link wr.conn with
            | .up | .closed => some { w with written := w.written + 1 }
            | .full => none
            -- the signal is not handled: the process ends here
            | .reset => some { w with killed := true }
      else none
  | .client c l =>
      if (w.link c).canBecome l then some { w with link := Function.update w.link c l } else none

/-- **The step writes to no connection that its client has reset.** -/
def Unbroken (w : Process) : ProcessAct → Prop
  | .write => ∀ wr ∈ w.server.upcoming[w.written]?, w.link wr.conn ≠ .reset
  | .loop _ | .client _ _ => True

instance (w : Process) : DecidablePred w.Unbroken := fun a => by
  unfold Unbroken
  split <;> infer_instance

/-- **The process waits in a `write`** for a client that does not read. -/
def Waits (w : Process) : Prop := ∃ wr ∈ w.server.upcoming[w.written]?, w.link wr.conn = .full

/-- The steps of the loop among the moves. -/
def served (as : List ProcessAct) : List Act :=
  as.filterMap fun
    | .loop a => some a
    | .write | .client _ _ => none

/-- Whether a move begins a round. -/
def beginsRound : ProcessAct → Bool
  | .loop a => a.isSelect
  | .write | .client _ _ => false

/-- Whether a move is one of the process. -/
def isOwn : ProcessAct → Bool
  | .loop _ | .write => true
  | .client _ _ => false

variable {w w' : Process}

/-! ## What a step can do -/

/-- **The steps of the process, one by one.** -/
inductive Trans (w : Process) : ProcessAct → Process → Prop
  /-- A step of the loop. -/
  | loop (a : Act) (s : Server) (halive : w.killed = false) (hdone : w.written = w.server.upcoming.length)
      (hstep : ChatServer.step w.server a = some s) :
      Trans w (.loop a) { w with server := s, written := 0 }
  /-- A write returns. -/
  | write (wr : Write) (halive : w.killed = false) (hwr : w.server.upcoming[w.written]? = some wr)
      (hlink : w.link wr.conn ≠ .reset) : Trans w .write { w with written := w.written + 1 }
  /-- A write raises `SIGPIPE`. -/
  | kill (wr : Write) (halive : w.killed = false) (hwr : w.server.upcoming[w.written]? = some wr)
      (hlink : w.link wr.conn = .reset) : Trans w .write { w with killed := true }
  /-- A client does something. -/
  | client (c : ℕ) (l : Link) :
      Trans w (.client c l) { w with link := Function.update w.link c l }

/-- Every step is one of these. -/
theorem step_trans {a : ProcessAct} (h : step w a = some w') : Trans w a w' := by
  cases a with
  | loop a =>
      simp only [step] at h
      split_ifs at h with hguard
      obtain ⟨s, hs, rfl⟩ := Option.map_eq_some_iff.mp h
      exact .loop a s hguard.1 hguard.2 hs
  | write =>
      simp only [step] at h
      split_ifs at h with halive
      cases hwr : w.server.upcoming[w.written]? with
      | none => simp [hwr] at h
      | some wr =>
          simp only [hwr] at h
          cases hlink : w.link wr.conn <;> simp only [hlink] at h <;> cases h
          · exact .write wr halive hwr (by rw [hlink]; exact Link.noConfusion)
          · exact .write wr halive hwr (by rw [hlink]; exact Link.noConfusion)
          · exact .kill wr halive hwr hlink
  | client c l =>
      simp only [step] at h
      split_ifs at h
      cases h
      exact .client c l

/-- A step of the loop, after its writes. -/
theorem loop_step {a : Act} (h : step w (.loop a) = some w') :
    w'.killed = false ∧ w.written = w.server.upcoming.length ∧
      ChatServer.step w.server a = some w'.server := by
  cases step_trans h with
  | loop _ s halive hdone hstep => exact ⟨halive, hdone, hstep⟩

/-- **A run of the process is a run of the loop.** -/
theorem run_served {as : List ProcessAct} (h : run step w as = some w') :
    run ChatServer.step w.server (served as) = some w'.server := by
  induction as generalizing w with
  | nil =>
      obtain rfl : w = w' := by simpa using h
      rfl
  | cons a as ih =>
      rw [run_cons] at h
      obtain ⟨v, hv, h⟩ := Option.bind_eq_some_iff.mp h
      have hrest := ih h
      cases step_trans hv with
      | loop a s _ _ hstep =>
          show run ChatServer.step w.server (a :: served as) = _
          rw [run_cons, hstep]
          exact hrest
      | write | kill | client => exact hrest

/-- **Only a write to a reset connection ends the process**, and it does. -/
theorem killed_iff {a : ProcessAct} (h : step w a = some w') (halive : w.killed = false) :
    w'.killed = false ↔ w.Unbroken a := by
  cases step_trans h with
  | loop | client => exact ⟨fun _ => trivial, fun _ => halive⟩
  | write wr _ hwr hlink =>
      refine ⟨fun _ wr' hwr' => ?_, fun _ => halive⟩
      obtain rfl := Option.some.inj (hwr.symm.trans hwr')
      exact hlink
  | kill wr _ hwr hlink =>
      exact ⟨fun h => Bool.noConfusion h, fun hok => absurd hlink (hok wr hwr)⟩

/-- A process that has ended does nothing any more. -/
theorem killed_stays {as : List ProcessAct} (hkilled : w.killed = true)
    (h : run step w as = some w') : w'.killed = true ∧ w'.server = w.server ∧ served as = [] := by
  induction as generalizing w with
  | nil =>
      obtain rfl : w = w' := by simpa using h
      exact ⟨hkilled, rfl, rfl⟩
  | cons a as ih =>
      rw [run_cons] at h
      obtain ⟨v, hv, h⟩ := Option.bind_eq_some_iff.mp h
      cases step_trans hv with
      | loop _ _ halive | write _ halive | kill _ halive =>
          rw [hkilled] at halive
          cases halive
      | client c l => exact ih (w := { w with link := Function.update w.link c l }) hkilled h

/-- **The process lives as long as no write goes to a reset connection.** -/
theorem alive_iff {as : List ProcessAct} (halive : w.killed = false) (h : run step w as = some w') :
    w'.killed = false ↔ EveryStep step Unbroken w as := by
  induction as generalizing w with
  | nil =>
      obtain rfl : w = w' := by simpa using h
      exact ⟨fun _ => everyStep_nil, fun _ => halive⟩
  | cons a as ih =>
      rw [run_cons] at h
      obtain ⟨v, hv, h⟩ := Option.bind_eq_some_iff.mp h
      have hkilled := killed_iff hv halive
      rw [everyStep_cons, ← hkilled]
      cases hvk : v.killed with
      | true =>
          refine ⟨fun hw' => ?_, fun ⟨hfalse, _⟩ => Bool.noConfusion hfalse⟩
          rw [(killed_stays hvk h).1] at hw'
          cases hw'
      | false =>
          rw [ih hvk h]
          refine ⟨fun hall => ⟨rfl, fun u hu => ?_⟩, fun hall => hall.2 v hv⟩
          obtain rfl := Option.some.inj (hv.symm.trans hu)
          exact hall

/-- The writes of a step are made one by one. -/
theorem reachable_written {old : ℕ → ClientInfo} {as : List ProcessAct}
    (h : run step (Process.init old) as = some w) : w.written ≤ w.server.upcoming.length := by
  refine run_invariant (I := fun w : Process => w.written ≤ w.server.upcoming.length)
    (Nat.zero_le _) (fun w a w' ih hstep => ?_) h
  cases step_trans hstep with
  | loop => exact Nat.zero_le _
  | write wr _ hwr => exact (List.getElem?_eq_some_iff.mp hwr).1
  | kill | client => exact ih

/-- **A round does not get stuck**: a process that lives, and does not wait in a write, can go on. -/
theorem goes_on (halive : w.killed = false) (hwritten : w.written ≤ w.server.upcoming.length)
    (hpc : w.server.pc ≠ .select) :
    w.Waits ∨ ∃ a, isOwn a = true ∧ beginsRound a = false ∧ (step w a).isSome = true := by
  rcases hwritten.eq_or_lt with hdone | hlt
  · -- the writes of the step have been made
    obtain ⟨a, ha, hstep⟩ := round_goes_on hpc
    refine Or.inr ⟨.loop a, rfl, ha, ?_⟩
    simp only [step, halive, hdone, and_self, if_true, Option.isSome_map]
    exact hstep
  · have hwr : w.server.upcoming[w.written]? = some w.server.upcoming[w.written] :=
      List.getElem?_eq_getElem hlt
    cases hlink : w.link w.server.upcoming[w.written].conn with
    | full => exact Or.inl ⟨_, hwr, hlink⟩
    | up | closed | reset =>
        refine Or.inr ⟨.write, rfl, rfl, ?_⟩
        simp only [step, halive, hwr, hlink, if_true, Option.isSome_some]

end Process

open Process

/-- All three clients are ready and a fourth one enters; `ann` has left, and the others send a line
each. -/
def departure : List ProcessAct :=
  [.client 0 .closed, .loop (.read []), .loop .advance, .loop (.read (lit "hi\n")), .write, .write,
    .write, .loop .advance, .loop .advance, .loop (.read (lit "yo\n")), .write, .write, .write,
    .loop .advance, .loop .advance, .loop .advance]

/-- All three clients are ready, `bob` because he has closed his end. `ann` has sent two lines: the
first one is written to `bob` too, who answers with a reset, and so is the second one. -/
def brokenRound : List ProcessAct :=
  [.loop (.read (lit "one\ntwo\n")), .write, .write, .write, .loop .advance, .client 1 .reset, .write,
    .write]

end StudiesOS.ChatServer
