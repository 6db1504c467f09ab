import StudiesOS.ChatServer.Server
import StudiesOS.CText.Framing

/-! # The client table
What holds of the table in every state (`Server.Sound`): descriptors and connections are distinct,
every entry is the one of its connection (`Server.Served`: its name comes from the first read, and
its buffer holds what the framing of its stream demands), and a connection that has left the table
got all of its calls. `Server.AtRest` says where lines may be waiting in a buffer. -/

namespace StudiesOS.ChatServer

/-! ## The history of a connection -/

/-- The connection an event is about. -/
def Event.conn : Event → ℕ
  | .admitted c _ => c
  | .received c _ => c
  | .called c _ => c
  | .closed c => c

/-- The bytes an event adds to the stream. -/
def Event.bytes : Event → List Byte
  | .received _ data => data
  | .admitted _ _ | .called _ _ | .closed _ => []

/-- The calls of an event. -/
def Event.calls : Event → List Call
  | .called _ call => [call]
  | .admitted _ _ | .received _ _ | .closed _ => []

/-- The first read, if it is the event. -/
def Event.firsts : Event → List (List Byte)
  | .admitted _ first => [first]
  | .received _ _ | .called _ _ | .closed _ => []

/-- The room for text in a buffer, in front of the terminator. -/
def limit : ℕ := maxMsgLen - 1

namespace Server

/-- The events of connection `c`. -/
def eventsOf (s : Server) (c : ℕ) : List Event := s.log.filter fun e => e.conn = c

/-- **The stream of connection `c`**: what was read from it after its registration. -/
def streamOf (s : Server) (c : ℕ) : List Byte := (s.eventsOf c).flatMap Event.bytes

/-- **The calls of `process_message` for connection `c`.** -/
def callsOf (s : Server) (c : ℕ) : List Call := (s.eventsOf c).flatMap Event.calls

/-- The bytes these calls consume. -/
def rawsOf (s : Server) (c : ℕ) : List (List Byte) := (s.callsOf c).map Call.raw

/-- The first read of connection `c`. -/
def firstsOf (s : Server) (c : ℕ) : List (List Byte) := (s.eventsOf c).flatMap Event.firsts

variable {s s' : Server} {c : ℕ} {events : List Event}

/-- Events of other connections do not matter. -/
theorem eventsOf_other (hlog : s'.log = s.log ++ events) (hne : ∀ e ∈ events, e.conn ≠ c) :
    s'.eventsOf c = s.eventsOf c := by
  have hnone : events.filter (fun e => e.conn = c) = [] :=
    List.filter_eq_nil_iff.mpr fun e he => by simpa using hne e he
  rw [eventsOf, hlog, List.filter_append, hnone, List.append_nil, eventsOf]

/-- Events of the connection itself are added. -/
theorem eventsOf_own (hlog : s'.log = s.log ++ events) (heq : ∀ e ∈ events, e.conn = c) :
    s'.eventsOf c = s.eventsOf c ++ events := by
  have hall : events.filter (fun e => e.conn = c) = events :=
    List.filter_eq_self.mpr fun e he => by simpa using heq e he
  rw [eventsOf, hlog, List.filter_append, hall, eventsOf]

/-- The same events make the same stream, calls and first read. -/
theorem history_congr (h : s'.eventsOf c = s.eventsOf c) :
    s'.streamOf c = s.streamOf c ∧ s'.rawsOf c = s.rawsOf c ∧ s'.firstsOf c = s.firstsOf c := by
  simp only [streamOf, rawsOf, callsOf, firstsOf, h, and_self]

/-! ## The invariant -/

/-- **Client `i` is served**: its entry is what the history of its connection demands. -/
structure Served (s : Server) (i : ℕ) : Prop where
  /-- There is room for a terminator. -/
  room : (s.clients i).bufLen ≤ limit
  /-- The calls made and the buffer are what the framing of the stream demands. -/
  framed : Framed limit endsString (s.streamOf (s.conn i)) (s.rawsOf (s.conn i))
    (s.clients i).content
  /-- The name is the first read, up to a NUL and without a newline at the end. -/
  named : ∃ first, s.firstsOf (s.conn i) = [first] ∧ (s.clients i).name.str = chomp (cstr first)
  /-- The connection has not ended. -/
  alive : .closed (s.conn i) ∉ s.eventsOf (s.conn i)

/-- **The client table in every state.** -/
structure Sound (s : Server) : Prop where
  /-- The table has `MAX_CLIENTS` entries. -/
  count : s.numClients ≤ maxClients
  /-- The descriptors are distinct. -/
  fds : ∀ i < s.numClients, ∀ j < s.numClients,
    (s.clients i).socketFd = (s.clients j).socketFd → i = j
  /-- The connections are distinct. -/
  conns : ∀ i < s.numClients, ∀ j < s.numClients, s.conn i = s.conn j → i = j
  /-- They have been accepted. -/
  known : ∀ i < s.numClients, s.conn i < s.accepted
  /-- The entries are those of their connections. -/
  served : ∀ i < s.numClients, s.Served i
  /-- A connection that is not in the table has had all its calls. -/
  gone : ∀ c, (∀ i < s.numClients, s.conn i ≠ c) →
    s.rawsOf c = pieces limit endsString [] (s.streamOf c)
  /-- Nothing has happened to connections that have not been accepted. -/
  future : ∀ c, s.accepted ≤ c → s.eventsOf c = []

/-- **Where lines may wait in a buffer**: only during the extraction, at the client at hand. -/
structure AtRest (s : Server) : Prop where
  /-- Elsewhere `strchr` would find no newline. -/
  quiet : ∀ i < s.numClients, (∀ readSet, s.pc ≠ .extract i readSet) →
    LF ∉ cstr (s.clients i).content
  /-- At the client at hand the buffer is terminated. -/
  inside : ∀ i readSet, s.pc = .extract i readSet →
    i < s.numClients ∧ (s.clients i).buffer.str = cstr (s.clients i).content

/-- The content has `buf_len` bytes. -/
theorem length_content {c : ClientInfo} (h : c.bufLen ≤ limit) : c.content.length = c.bufLen :=
  c.buffer.length_take (h.trans (Nat.sub_le _ _))

/-- Entries that move to another place keep what holds of them. -/
theorem Served.move {i j : ℕ} (h : s.Served i) (hclient : s'.clients j = s.clients i)
    (hconn : s'.conn j = s.conn i) (hevents : s'.eventsOf (s.conn i) = s.eventsOf (s.conn i)) :
    s'.Served j := by
  obtain ⟨hstream, hraws, hfirsts⟩ := history_congr hevents
  constructor
  · rw [hclient]
    exact h.room
  · rw [hconn, hclient, hstream, hraws]
    exact h.framed
  · rw [hconn, hclient, hfirsts]
    exact h.named
  · rw [hconn, hevents]
    exact h.alive

/-- Going to another point changes nothing of the table. -/
theorem Sound.goto (h : s.Sound) (pc : Pc) : (s.goto pc).Sound :=
  ⟨h.count, h.fds, h.conns, h.known, fun i hi => (h.served i hi).move rfl rfl rfl, h.gone, h.future⟩

/-- **Serving client `i`** changes its entry and adds an event to its history. -/
theorem Sound.serve {i : ℕ} {c' : ClientInfo} {e : Event} (h : s.Sound) (hi : i < s.numClients)
    (hs' : s' = (s.setClient i c').record [e]) (hfd : c'.socketFd = (s.clients i).socketFd)
    (hname : c'.name = (s.clients i).name) (he : e.conn = s.conn i) (hfirst : e.firsts = [])
    (halive : e ≠ .closed (s.conn i)) (hroom : c'.bufLen ≤ limit)
    (hframed : Framed limit endsString (s.streamOf (s.conn i) ++ e.bytes)
      (s.rawsOf (s.conn i) ++ e.calls.map Call.raw) c'.content) : s'.Sound := by
  subst hs'
  have hself : ((s.setClient i c').record [e]).clients i = c' := by
    show Function.update s.clients i c' i = c'
    rw [Function.update_self]
  have hclient : ∀ j, j ≠ i → ((s.setClient i c').record [e]).clients j = s.clients j := fun j hj =>
    Function.update_of_ne hj _ _
  have hfds : ∀ j, (((s.setClient i c').record [e]).clients j).socketFd
      = (s.clients j).socketFd := by
    intro j
    by_cases hj : j = i
    · rw [hj, hself, hfd]
    · rw [hclient j hj]
  have hconn : ∀ j, ((s.setClient i c').record [e]).conn j = s.conn j := fun j =>
    congrArg s.sock (hfds j)
  have hown : ((s.setClient i c').record [e]).eventsOf (s.conn i)
      = s.eventsOf (s.conn i) ++ [e] := by
    refine eventsOf_own rfl fun e' he' => ?_
    rw [List.mem_singleton.mp he', he]
  have hother : ∀ c, c ≠ s.conn i →
      ((s.setClient i c').record [e]).eventsOf c = s.eventsOf c := by
    intro c hc
    refine eventsOf_other rfl fun e' he' => ?_
    rw [List.mem_singleton.mp he', he]
    exact Ne.symm hc
  refine ⟨h.count, fun j hj k hk heq => ?_, fun j hj k hk heq => ?_, fun j hj => ?_,
    fun j hj => ?_, fun c hc => ?_, fun c hc => ?_⟩
  · exact h.fds j hj k hk ((hfds j).symm.trans (heq.trans (hfds k)))
  · rw [hconn, hconn] at heq
    exact h.conns j hj k hk heq
  · rw [hconn]
    exact h.known j hj
  · by_cases hji : j = i
    · subst hji
      have hserved := h.served j hj
      constructor
      · rwa [hself]
      · rw [hconn, hself, streamOf, rawsOf, callsOf, hown, List.flatMap_append, List.flatMap_append,
          List.map_append, List.flatMap_singleton, List.flatMap_singleton]
        exact hframed
      · rw [hconn, hself, hname, firstsOf, hown, List.flatMap_append, List.flatMap_singleton, hfirst,
          List.append_nil]
        exact hserved.named
      · rw [hconn, hown, List.mem_append, List.mem_singleton, not_or]
        exact ⟨hserved.alive, halive.symm⟩
    · exact (h.served j hj).move (hclient j hji) (hconn j)
        (hother _ fun heq => hji (h.conns j hj i hi heq))
  · have hne : c ≠ s.conn i := fun heq => hc i hi (by rw [hconn, heq])
    obtain ⟨hstream, hraws, -⟩ := history_congr (hother c hne)
    rw [hraws, hstream]
    exact h.gone c fun j hj => hconn j ▸ hc j hj
  · rw [hother c (Nat.ne_of_gt ((h.known i hi).trans_le hc))]
    exact h.future c hc

/-! ## The steps of the service -/

/-- **What the flush leaves**: the invariant, a buffer with room and without a line, and everything
else as it was. -/
structure Flushed (s t : Server) (i : ℕ) : Prop where
  /-- The invariant. -/
  sound : t.Sound
  /-- There is room in the buffer. -/
  room : (t.clients i).bufLen < limit
  /-- No line is in the buffer. -/
  quiet : LF ∉ cstr (t.clients i).content
  /-- The client keeps its descriptor. -/
  fd : (t.clients i).socketFd = (s.clients i).socketFd
  /-- The other entries are the same. -/
  others : ∀ j, j ≠ i → t.clients j = s.clients j
  /-- So is the number of entries. -/
  count : t.numClients = s.numClients

/-- **The flush** hands a full buffer on as one piece. -/
theorem flush_flushed {i : ℕ} (h : s.Sound) (hi : i < s.numClients)
    (hquiet : LF ∉ cstr (s.clients i).content) : Flushed s (s.flush i) i := by
  have hserved := h.served i hi
  have hroom := hserved.room
  have hlimit : limit + 1 = maxMsgLen := rfl
  have hpos : 0 < limit := by decide
  rw [flush]
  split
  · rename_i hfull
    rw [spaceLeft] at hfull
    have hlen : (s.clients i).content.length = limit := by
      rw [length_content hroom]
      omega
    obtain ⟨hpiece, hrest⟩ := pieces_endsString_full hquiet hpos hlen
    refine ⟨h.serve hi rfl rfl rfl rfl rfl (by simp [call]) hpos.le ?_, ?_, ?_, ?_, fun j hj =>
      Function.update_of_ne hj _ _, rfl⟩
    · rw [call, Event.bytes, List.append_nil]
      refine Framed.hand ?_ hpiece hrest
      show Framed _ _ _ _ ((s.clients i).content ++ List.take 0 _)
      rw [List.take_zero, List.append_nil]
      exact hserved.framed
    · show (Function.update s.clients i _ i).bufLen < limit
      rw [Function.update_self]
      exact hpos
    · show LF ∉ cstr (Function.update s.clients i _ i).content
      rw [Function.update_self, ClientInfo.content, List.take_zero]
      exact List.not_mem_nil
    · show (Function.update s.clients i _ i).socketFd = _
      rw [Function.update_self]
  · rename_i hspace
    rw [spaceLeft] at hspace
    exact ⟨h, by omega, hquiet, rfl, fun _ _ => rfl, rfl⟩

/-- **A read** puts the bytes behind those in the buffer, and terminates it. -/
theorem receive_sound {i : ℕ} {data : List Byte} (h : s.Sound) (hi : i < s.numClients)
    (hdata : data.length ≤ s.spaceLeft i) :
    (s.receive i data).Sound ∧ ((s.receive i data).clients i).buffer.str
      = cstr ((s.receive i data).clients i).content := by
  have hserved := h.served i hi
  have hroom := hserved.room
  have hlimit : limit + 1 = maxMsgLen := rfl
  rw [spaceLeft] at hdata
  have hend : (s.clients i).bufLen + data.length ≤ limit := by omega
  have hcontent : (((s.clients i).buffer.write (s.clients i).bufLen data).write
      ((s.clients i).bufLen + data.length) [NUL]).mem.take ((s.clients i).bufLen + data.length)
      = (s.clients i).content ++ data := by
    rw [CharArray.take_write _ (by rw [List.length_singleton]; omega),
      CharArray.take_write_end _ (by omega), ClientInfo.content]
  constructor
  · refine h.serve hi rfl rfl rfl rfl rfl (by simp) hend ?_
    rw [Event.calls, List.map_nil, List.append_nil, ClientInfo.content, hcontent]
    exact hserved.framed.feed data
  · show (Function.update s.clients i _ i).buffer.str
      = cstr (Function.update s.clients i _ i).content
    rw [Function.update_self]
    exact CharArray.str_terminated _ (by omega)

/-- **The extraction of a line** hands it on as one piece. -/
theorem extractLine_sound {i : ℕ} {u v : List Byte} (h : s.Sound) (hi : i < s.numClients)
    (hstr : (s.clients i).buffer.str = cstr (s.clients i).content)
    (hline : (s.clients i).buffer.str = u ++ LF :: v) (hu : LF ∉ u) :
    (s.extractLine i (u.length + 1)).Sound ∧
      ((s.extractLine i (u.length + 1)).clients i).buffer.str
        = cstr ((s.extractLine i (u.length + 1)).clients i).content := by
  have hserved := h.served i hi
  have hroom := hserved.room
  have hlimit : limit + 1 = maxMsgLen := rfl
  obtain ⟨rest, hrest, hremaining, hle, hdrop, hNUL⟩ :=
    (s.clients i).buffer.line_content (hroom.trans (Nat.sub_le _ _)) hstr hline
  have htake := (s.clients i).buffer.take_line hline
  have hcontent : (((s.clients i).buffer.write 0 rest).write
      ((s.clients i).bufLen - (u.length + 1)) [NUL]).mem.take
        ((s.clients i).bufLen - (u.length + 1)) = rest := by
    rw [hremaining]
    exact (s.clients i).buffer.take_moved (by omega)
  have hlt : u.length < limit := by omega
  obtain ⟨hpiece, hpend⟩ := pieces_endsString_line hu hNUL hlt
  constructor
  · refine h.serve hi rfl rfl rfl rfl rfl (by simp [call]) ((Nat.sub_le _ _).trans hroom) ?_
    rw [call, Event.bytes, List.append_nil]
    simp only [Event.calls, List.map_cons, List.map_nil, htake, hdrop]
    rw [ClientInfo.content, hcontent]
    refine Framed.hand ?_ hpiece hpend
    rw [← hrest]
    exact hserved.framed
  · show (Function.update s.clients i _ i).buffer.str
      = cstr (Function.update s.clients i _ i).content
    rw [Function.update_self]
    exact CharArray.str_terminated _ (by omega)

/-! ## Leaving and entering the table -/

/-- The place from which entry `j` comes when entry `i` of `n` is removed. -/
def cameFrom (n i j : ℕ) : ℕ := if j = i then n - 1 else j

/-- **`remove_client`** keeps the other entries, each at some place. -/
theorem removeClient_entries {i : ℕ} (h : s.Sound) (hi : i < s.numClients) :
    (s.removeClient (s.clients i).socketFd = { s with
        clients := (s.removeClient (s.clients i).socketFd).clients
        numClients := s.numClients - 1
        log := s.log ++ [.closed (s.conn i)] }) ∧
      ∀ j < s.numClients - 1, (s.removeClient (s.clients i).socketFd).clients j
        = s.clients (cameFrom s.numClients i j) := by
  have hfind : (List.range s.numClients).find?
      (fun j => (s.clients j).socketFd = (s.clients i).socketFd) = some i := by
    rw [List.find?_range_eq_some]
    refine ⟨by simp, List.mem_range.mpr hi, fun j hj => ?_⟩
    have hne : (s.clients j).socketFd ≠ (s.clients i).socketFd := fun heq =>
      hj.ne (h.fds j (hj.trans hi) i hi heq)
    simpa using hne
  rw [removeClient, hfind]
  refine ⟨rfl, fun j hj => ?_⟩
  show (if i < s.numClients - 1 then _ else _ : ℕ → ClientInfo) j = _
  unfold cameFrom
  by_cases hji : j = i
  · subst hji
    rw [if_pos hj, if_pos rfl, Function.update_self]
  · rw [if_neg hji]
    split
    · rw [Function.update_of_ne hji]
    · rfl

/-- Every place but the one removed is a place from which an entry comes, and only once. -/
theorem cameFrom_spec {n i : ℕ} (hi : i < n) :
    (∀ j < n - 1, cameFrom n i j < n ∧ cameFrom n i j ≠ i) ∧
      (∀ j < n - 1, ∀ k < n - 1, cameFrom n i j = cameFrom n i k → j = k) ∧
      ∀ k < n, k ≠ i → ∃ j < n - 1, cameFrom n i j = k := by
  unfold cameFrom
  refine ⟨fun j hj => ?_, fun j hj k hk heq => ?_, fun k hk hki => ?_⟩
  · split <;> omega
  · split_ifs at heq <;> omega
  · by_cases hlast : k = n - 1
    · exact ⟨i, by omega, by rw [if_pos rfl, hlast]⟩
    · exact ⟨k, by omega, if_neg hki⟩

/-- **Removing a client** whose buffer holds no piece. -/
theorem removeClient_sound {i : ℕ} (h : s.Sound) (hi : i < s.numClients)
    (hquiet : pieces limit endsString [] (s.clients i).content = []) :
    (s.removeClient (s.clients i).socketFd).Sound := by
  obtain ⟨heq, hentry⟩ := removeClient_entries h hi
  obtain ⟨hfrom, hinj, hsurj⟩ := cameFrom_spec hi
  generalize s.removeClient (s.clients i).socketFd = t at heq hentry ⊢
  have hnum : t.numClients = s.numClients - 1 := by rw [heq]
  have hconn : ∀ j < t.numClients, t.conn j = s.conn (cameFrom s.numClients i j) := by
    intro j hj
    show t.sock (t.clients j).socketFd = _
    rw [hentry j (hnum ▸ hj), heq]
    rfl
  have hother : ∀ c, c ≠ s.conn i → t.eventsOf c = s.eventsOf c := by
    intro c hc
    rw [heq]
    refine eventsOf_other rfl fun e he => ?_
    rw [List.mem_singleton.mp he]
    exact Ne.symm hc
  have hown : t.eventsOf (s.conn i) = s.eventsOf (s.conn i) ++ [.closed (s.conn i)] := by
    rw [heq]
    refine eventsOf_own rfl fun e he => ?_
    rw [List.mem_singleton.mp he]
    rfl
  rw [hnum] at hconn
  constructor
  · exact hnum.trans_le ((Nat.sub_le _ _).trans h.count)
  · rw [hnum]
    intro j hj k hk hfd
    rw [hentry j hj, hentry k hk] at hfd
    exact hinj j hj k hk (h.fds _ (hfrom j hj).1 _ (hfrom k hk).1 hfd)
  · rw [hnum]
    intro j hj k hk hc
    rw [hconn j hj, hconn k hk] at hc
    exact hinj j hj k hk (h.conns _ (hfrom j hj).1 _ (hfrom k hk).1 hc)
  · rw [hnum]
    intro j hj
    rw [hconn j hj, heq]
    exact h.known _ (hfrom j hj).1
  · rw [hnum]
    intro j hj
    obtain ⟨hlt, hne⟩ := hfrom j hj
    exact (h.served _ hlt).move (hentry j hj) (hconn j hj)
      (hother _ fun hc => hne (h.conns _ hlt i hi hc))
  · rw [hnum]
    intro c hc
    by_cases hci : c = s.conn i
    · -- the connection that ends: the flush has handed on what there was
      subst hci
      have hserved := h.served i hi
      rw [rawsOf, callsOf, streamOf, hown, List.flatMap_append, List.flatMap_append,
        List.flatMap_singleton, List.flatMap_singleton, Event.calls, Event.bytes, List.append_nil,
        List.append_nil]
      exact hserved.framed.complete hquiet
    · obtain ⟨hstream, hraws, -⟩ := history_congr (hother c hci)
      rw [hstream, hraws]
      refine h.gone c fun k hk hkc => ?_
      obtain ⟨j, hj, rfl⟩ := hsurj k hk fun hki => hci (by rw [← hkc, hki])
      exact hc j hj ((hconn j hj).trans hkc)
  · intro c hc
    rw [heq] at hc
    rw [hother c (Nat.ne_of_gt ((h.known i hi).trans_le hc))]
    exact h.future c hc

/-- The entry of a new client: its name is the first read, up to a NUL and without a newline. -/
theorem newClient_name (old : ClientInfo) (a : Incoming) (ha : a.first.length ≤ maxMsgLen - 1) :
    (newClient old a).name.str = chomp (cstr a.first) := by
  have hmax : maxMsgLen = 256 := rfl
  have hbuffer : (((CharArray.zero maxMsgLen).write 0 a.first).chomp).str
      = chomp (cstr a.first) := by
    rw [CharArray.str_chomp, CharArray.str_zero_write (by omega)]
  have hprefix : chomp (cstr a.first) <+: a.first := (chomp_isPrefix _).trans (cstr_isPrefix _)
  show (old.name.strcpy (((CharArray.zero maxMsgLen).write 0 a.first).chomp).str).str = _
  rw [hbuffer, CharArray.str_strcpy]
  · exact fun hmem => not_mem_cstr _ ((chomp_isPrefix _).subset hmem)
  · have := hprefix.length_le
    omega

/-- **What `accept` leaves**: the entries as they were, and perhaps one more. -/
structure Entered (s s' : Server) (a : Incoming) : Prop where
  /-- The entries before. -/
  entry : ∀ i < s.numClients, s'.clients i = s.clients i
  /-- Their connections. -/
  conn : ∀ i < s.numClients, s'.conn i = s.conn i
  /-- The new entry, if there is one. -/
  new : s'.numClients = s.numClients ∧ s'.log = s.log ∨
    s'.numClients = s.numClients + 1 ∧ (s'.clients s.numClients).socketFd = a.fd ∧
      s'.conn s.numClients = s.accepted ∧ s'.log = s.log ++ [.admitted s.accepted a.first]

/-- **`accept`.** -/
theorem entered_acceptClient {a : Incoming} (ha : s.Possible a) : Entered s (s.acceptClient a) a := by
  have hconn : ∀ i < s.numClients,
      Function.update s.sock a.fd s.accepted (s.clients i).socketFd = s.conn i :=
    fun i hi => Function.update_of_ne (ha.1 i hi) _ _
  rw [acceptClient]
  split
  · have hold : ∀ i < s.numClients, Function.update s.clients s.numClients
        (newClient (s.clients s.numClients) a) i = s.clients i :=
      fun i hi => Function.update_of_ne hi.ne _ _
    have hnew : Function.update s.clients s.numClients (newClient (s.clients s.numClients) a)
        s.numClients = newClient (s.clients s.numClients) a := Function.update_self _ _ _
    refine ⟨hold, fun i hi => ?_, Or.inr ⟨rfl, ?_, ?_, rfl⟩⟩
    · show Function.update s.sock a.fd s.accepted (Function.update s.clients _ _ i).socketFd = _
      rw [hold i hi]
      exact hconn i hi
    · show (Function.update s.clients _ _ s.numClients).socketFd = a.fd
      rw [hnew]
      rfl
    · show Function.update s.sock a.fd s.accepted
        (Function.update s.clients _ _ s.numClients).socketFd = s.accepted
      rw [hnew]
      exact Function.update_self a.fd s.accepted s.sock
  · exact ⟨fun _ _ => rfl, hconn, Or.inl ⟨rfl, rfl⟩⟩

/-- The entry of the client that has entered, when there was room for it. -/
theorem acceptClient_entry {a : Incoming} (hnum : (s.acceptClient a).numClients = s.numClients + 1) :
    s.numClients < maxClients ∧
      (s.acceptClient a).clients s.numClients = newClient (s.clients s.numClients) a := by
  rw [acceptClient] at hnum ⊢
  split at hnum
  · rename_i hguard
    rw [if_pos hguard]
    exact ⟨hguard.2, Function.update_self s.numClients _ s.clients⟩
  · exact absurd hnum (Nat.succ_ne_self _).symm

/-- One more value that none of the others has: the values stay apart. -/
theorem apart_succ {α : Type*} {f : ℕ → α} {n : ℕ} (h : ∀ i < n, ∀ j < n, f i = f j → i = j)
    (hnew : ∀ i < n, f i ≠ f n) : ∀ i < n + 1, ∀ j < n + 1, f i = f j → i = j := by
  intro i hi j hj heq
  rcases Nat.lt_succ_iff_lt_or_eq.mp hi with hi | rfl <;>
    rcases Nat.lt_succ_iff_lt_or_eq.mp hj with hj | rfl
  · exact h i hi j hj heq
  · exact absurd heq (hnew i hi)
  · exact absurd heq.symm (hnew j hj)
  · rfl

/-- **A new client is served**: nothing has come from it but its name. -/
theorem Served.enter {a : Incoming} {j : ℕ} (ha : a.first.length ≤ maxMsgLen - 1)
    {old : ClientInfo} (hclient : s.clients j = newClient old a)
    (hevents : s.eventsOf (s.conn j) = [.admitted (s.conn j) a.first]) : s.Served j := by
  constructor
  · rw [hclient]
    exact Nat.zero_le _
  · rw [hclient, streamOf, rawsOf, callsOf, hevents]
    show Framed limit endsString [] [] (List.take 0 _)
    rw [List.take_zero]
    exact Framed.start
  · rw [hclient, firstsOf, hevents, newClient_name _ _ ha]
    exact ⟨a.first, rfl, rfl⟩
  · rw [hevents]
    simp

/-- **Accepting a connection** adds an entry for it, or changes nothing of the table. -/
theorem acceptClient_sound {a : Incoming} (h : s.Sound) (ha : s.Possible a) :
    (s.acceptClient a).Sound := by
  have haccepted : (s.acceptClient a).accepted = s.accepted + 1 := by
    rw [acceptClient]
    split <;> rfl
  have hentry := acceptClient_entry (s := s) (a := a)
  obtain ⟨hold, hconn, hnew⟩ := entered_acceptClient ha
  generalize s.acceptClient a = t at haccepted hentry hold hconn hnew ⊢
  rcases hnew with ⟨hnum, hlog⟩ | ⟨hnum, hfd, hself, hlog⟩
  · -- the descriptor is closed again
    have hevents : ∀ c, t.eventsOf c = s.eventsOf c := fun c => by rw [eventsOf, hlog, eventsOf]
    rw [← hnum] at hold hconn
    refine ⟨hnum.trans_le h.count, fun i hi j hj heq => ?_, fun i hi j hj heq => ?_, fun i hi => ?_,
      fun i hi => ?_, fun c hc => ?_, fun c hc => ?_⟩
    · rw [hold i hi, hold j hj] at heq
      exact h.fds i (hnum ▸ hi) j (hnum ▸ hj) heq
    · rw [hconn i hi, hconn j hj] at heq
      exact h.conns i (hnum ▸ hi) j (hnum ▸ hj) heq
    · rw [hconn i hi, haccepted]
      exact (h.known i (hnum ▸ hi)).trans (Nat.lt_succ_self _)
    · exact (h.served i (hnum ▸ hi)).move (hold i hi) (hconn i hi) (hevents _)
    · obtain ⟨hstream, hraws, -⟩ := history_congr (hevents c)
      rw [hstream, hraws]
      exact h.gone c fun j hj => hconn j (hnum.symm ▸ hj) ▸ hc j (hnum.symm ▸ hj)
    · rw [haccepted] at hc
      rw [hevents]
      exact h.future c (Nat.le_of_succ_le hc)
  · obtain ⟨hroom, hclient⟩ := hentry hnum
    have hother : ∀ c, c ≠ s.accepted → t.eventsOf c = s.eventsOf c := by
      intro c hc
      refine eventsOf_other hlog fun e he => ?_
      rw [List.mem_singleton.mp he]
      exact Ne.symm hc
    have hown : t.eventsOf s.accepted = [.admitted s.accepted a.first] := by
      rw [eventsOf_own hlog fun e he => by rw [List.mem_singleton.mp he]; rfl,
        h.future s.accepted le_rfl, List.nil_append]
    have hcases : ∀ j < t.numClients, j < s.numClients ∨ j = s.numClients := by
      rw [hnum]
      exact fun j hj => Nat.lt_succ_iff_lt_or_eq.mp hj
    refine ⟨hnum.trans_le hroom, ?_, ?_, fun j hj => ?_, fun j hj => ?_, fun c hc => ?_,
      fun c hc => ?_⟩
    · rw [hnum]
      refine apart_succ (fun i hi j hj heq => ?_) fun i hi => ?_
      · rw [hold i hi, hold j hj] at heq
        exact h.fds i hi j hj heq
      · rw [hold i hi, hfd]
        exact ha.1 i hi
    · rw [hnum]
      refine apart_succ (fun i hi j hj heq => ?_) fun i hi => ?_
      · rw [hconn i hi, hconn j hj] at heq
        exact h.conns i hi j hj heq
      · rw [hconn i hi, hself]
        exact (h.known i hi).ne
    · rw [haccepted]
      rcases hcases j hj with hj' | rfl
      · rw [hconn j hj']
        exact (h.known j hj').trans (Nat.lt_succ_self _)
      · rw [hself]
        exact Nat.lt_succ_self _
    · rcases hcases j hj with hj' | rfl
      · exact (h.served j hj').move (hold j hj') (hconn j hj') (hother _ (h.known j hj').ne)
      · exact .enter ha.2 hclient (by rw [hself, hown])
    · have hne : c ≠ s.accepted := fun heq =>
        hc s.numClients (hnum ▸ Nat.lt_succ_self _) (hself.trans heq.symm)
      obtain ⟨hstream, hraws, -⟩ := history_congr (hother c hne)
      rw [hstream, hraws]
      exact h.gone c fun j hj => hconn j hj ▸ hc j (hnum ▸ hj.trans (Nat.lt_succ_self _))
    · rw [haccepted] at hc
      rw [hother c (Nat.ne_of_gt hc)]
      exact h.future c (Nat.le_of_succ_le hc)

/-! ## Every step -/

/-- In a loop over the clients no buffer holds a line. -/
theorem AtRest.of_quiet (h : ∀ i < s.numClients, LF ∉ cstr (s.clients i).content)
    (hpc : ∀ i readSet, s.pc ≠ .extract i readSet) : s.AtRest :=
  ⟨fun i hi _ => h i hi, fun i readSet heq => absurd heq (hpc i readSet)⟩

/-- An accepted client has an empty buffer. -/
theorem acceptClient_content {a : Incoming} {i : ℕ} (ha : s.Possible a)
    (hi : i < (s.acceptClient a).numClients) :
    i < s.numClients ∧ (s.acceptClient a).clients i = s.clients i ∨
      ((s.acceptClient a).clients i).content = [] := by
  have hentered := entered_acceptClient ha
  rcases hentered.new with ⟨hnum, -⟩ | ⟨hnum, -⟩ <;> rw [hnum] at hi
  · exact Or.inl ⟨hi, hentered.entry i hi⟩
  · rcases Nat.lt_succ_iff_lt_or_eq.mp hi with hlt | rfl
    · exact Or.inl ⟨hlt, hentered.entry i hlt⟩
    · rw [(acceptClient_entry hnum).2]
      exact Or.inr List.take_zero

/-- **Every move keeps the invariant.** -/
theorem move_sound (h : s.Sound) (hrest : s.AtRest) (hmove : Move s s') :
    s'.Sound ∧ s'.AtRest := by
  cases hmove with
  | round ready hpc =>
      refine ⟨h.goto _, .of_quiet (fun i hi => ?_) (by simp [goto])⟩
      exact hrest.quiet i hi (by simp [hpc])
  | accept ready a hpc ha =>
      refine ⟨(acceptClient_sound h ha).goto _, .of_quiet (fun i hi => ?_) (by simp [goto])⟩
      show LF ∉ cstr ((s.acceptClient a).clients i).content
      rcases acceptClient_content ha hi with ⟨hlt, heq⟩ | hnil
      · rw [heq]
        exact hrest.quiet i hlt (by simp [hpc])
      · rw [hnil]
        exact List.not_mem_nil
  | leave i readSet hpc hi =>
      have hquiet : ∀ j < s.numClients, LF ∉ cstr (s.clients j).content := fun j hj =>
        hrest.quiet j hj (by simp [hpc])
      have hflush := flush_flushed h hi (hquiet i hi)
      have hi' : i < (s.flush i).numClients := hflush.count.symm ▸ hi
      rw [← hflush.fd]
      have hempty := pieces_endsString_nil hflush.quiet
        ((length_content hflush.room.le).trans_lt hflush.room)
      obtain ⟨heq, hentry⟩ := removeClient_entries hflush.sound hi'
      refine ⟨(removeClient_sound hflush.sound hi' hempty).goto _, .of_quiet (fun j hj => ?_)
        (by simp [goto])⟩
      have hj' : j < (s.flush i).numClients - 1 := by
        have hnum := congrArg Server.numClients heq
        exact lt_of_lt_of_eq hj hnum
      show LF ∉ cstr (((s.flush i).removeClient _).clients j).content
      rw [hentry j hj']
      obtain ⟨hlt, hne⟩ := (cameFrom_spec hi').1 j hj'
      rw [hflush.others _ hne]
      exact hquiet _ (hflush.count ▸ hlt)
  | read i readSet data hpc hi hdata =>
      have hquiet : ∀ j < s.numClients, LF ∉ cstr (s.clients j).content := fun j hj =>
        hrest.quiet j hj (by simp [hpc])
      have hflush := flush_flushed h hi (hquiet i hi)
      have hi' : i < (s.flush i).numClients := hflush.count.symm ▸ hi
      obtain ⟨hsound, hstr⟩ := receive_sound hflush.sound hi' hdata
      refine ⟨hsound.goto _, fun j hj hne => ?_, fun j readSet' heq => ?_⟩
      · have hji : j ≠ i := by
          rintro rfl
          exact hne readSet rfl
        show LF ∉ cstr (Function.update (s.flush i).clients i _ j).content
        rw [Function.update_of_ne hji, hflush.others j hji]
        exact hquiet j (hflush.count ▸ hj)
      · obtain ⟨rfl, rfl⟩ := Pc.extract.inj heq
        exact ⟨hi', hstr⟩
  | next i readSet hpc | done i readSet hpc =>
      refine ⟨h.goto _, .of_quiet (fun j hj => ?_) (by simp [goto])⟩
      exact hrest.quiet j hj (by simp [hpc])
  | noLine i readSet hpc hline =>
      refine ⟨h.goto _, .of_quiet (fun j hj => ?_) (by simp [goto])⟩
      by_cases hji : j = i
      · rw [hji]
        show LF ∉ cstr (s.clients i).content
        rw [← (hrest.inside i readSet hpc).2]
        exact hline
      · exact hrest.quiet j hj fun readSet' heq => hji (Pc.extract.inj (heq.symm.trans hpc)).1
  | line i readSet u v hpc hline hu =>
      obtain ⟨hi, hstr⟩ := hrest.inside i readSet hpc
      obtain ⟨hsound, hstr'⟩ := extractLine_sound h hi hstr hline hu
      refine ⟨hsound, fun j hj hne => ?_, fun j readSet' heq => ?_⟩
      · have hji : j ≠ i := by
          rintro rfl
          exact hne readSet hpc
        show LF ∉ cstr (Function.update s.clients i _ j).content
        rw [Function.update_of_ne hji]
        exact hrest.quiet j hj fun readSet' heq => hji (Pc.extract.inj (heq.symm.trans hpc)).1
      · obtain ⟨rfl, rfl⟩ := Pc.extract.inj (hpc.symm.trans heq)
        exact ⟨hi, hstr'⟩

/-- **Every reachable state is sound**, whatever the table held at the start. -/
theorem reachable_sound {old : ℕ → ClientInfo} {as : List Act}
    (h : run step (init old) as = some s) : s.Sound ∧ s.AtRest := by
  refine run_invariant (I := fun s => s.Sound ∧ s.AtRest) ⟨?_, ?_⟩
    (fun _ _ _ hI hstep => move_sound hI.1 hI.2 (step_move hstep)) h
  · refine ⟨Nat.zero_le _, fun i hi => ?_, fun i hi => ?_, fun i hi => ?_, fun i hi => ?_,
      fun c _ => rfl, fun c _ => rfl⟩ <;> exact absurd hi (Nat.not_lt_zero i)
  · exact .of_quiet (fun i hi => absurd hi (Nat.not_lt_zero i)) (by simp [init])

end Server

end StudiesOS.ChatServer
