import StudiesOS.ChatServer.Framing
import StudiesOS.Transition.History

/-! # The rounds of the server
Between two calls of `select` the loop over the clients reads every client that was ready, once,
although it removes clients by moving the last entry into the hole while it goes on. What is still to
be read (`Server.Pending`) loses one connection with each read, and a removal only moves it about. -/

namespace StudiesOS.ChatServer

/-- Whether an action begins a round. -/
def Act.isSelect : Act → Bool
  | .select _ _ => true
  | .read _ | .advance => false

namespace Server

variable {s t : Server} {c : ℕ}

/-- Connection `c` has an entry in the table. -/
def Registered (s : Server) (c : ℕ) : Prop := ∃ i < s.numClients, s.conn i = c

/-! ## What the parts of a step do to the table -/

/-- **The same clients**, with the same descriptors, names and addresses, at the same places. -/
structure SameClients (s t : Server) : Prop where
  /-- As many entries. -/
  count : t.numClients = s.numClients
  /-- Their descriptors. -/
  fd : ∀ i, (t.clients i).socketFd = (s.clients i).socketFd
  /-- Their names. -/
  name : ∀ i, (t.clients i).name = (s.clients i).name
  /-- Their addresses. -/
  ip : ∀ i, (t.clients i).ip = (s.clients i).ip
  /-- What the descriptors stand for. -/
  sock : t.sock = s.sock

/-- The entries are for the same connections. -/
theorem SameClients.conn (h : SameClients s t) (i : ℕ) : t.conn i = s.conn i := by
  rw [Server.conn, h.sock, h.fd]
  rfl

/-- The same connections are registered. -/
theorem SameClients.registered (h : SameClients s t) : t.Registered c ↔ s.Registered c := by
  unfold Registered
  rw [h.count]
  simp only [h.conn]

/-- A change of one entry that keeps its descriptor, its name and its address. -/
theorem sameClients_setClient {i : ℕ} {c' : ClientInfo} {events : List Event}
    (hfd : c'.socketFd = (s.clients i).socketFd) (hname : c'.name = (s.clients i).name)
    (hip : c'.ip = (s.clients i).ip) : SameClients s ((s.setClient i c').record events) := by
  have hclient : ∀ {β : Type} (f : ClientInfo → β), f c' = f (s.clients i) →
      ∀ j, f (((s.setClient i c').record events).clients j) = f (s.clients j) := by
    intro β f hf j
    show f (Function.update s.clients i c' j) = f (s.clients j)
    by_cases hj : j = i
    · rw [hj, Function.update_self, hf]
    · rw [Function.update_of_ne hj]
  exact ⟨rfl, hclient ClientInfo.socketFd hfd, hclient ClientInfo.name hname,
    hclient ClientInfo.ip hip, rfl⟩

/-- The flush keeps the clients. -/
theorem sameClients_flush (i : ℕ) : SameClients s (s.flush i) := by
  rw [flush]
  split
  · exact sameClients_setClient rfl rfl rfl
  · exact ⟨rfl, fun _ => rfl, fun _ => rfl, fun _ => rfl, rfl⟩

/-- A read keeps the clients. -/
theorem sameClients_receive (i : ℕ) (data : List Byte) : SameClients s (s.receive i data) :=
  sameClients_setClient rfl rfl rfl

/-- The extraction of a line keeps the clients. -/
theorem sameClients_extractLine (i msgLen : ℕ) : SameClients s (s.extractLine i msgLen) :=
  sameClients_setClient rfl rfl rfl

/-- One after the other. -/
theorem SameClients.trans {u : Server} (h : SameClients s t) (h' : SameClients t u) :
    SameClients s u :=
  ⟨h'.count.trans h.count, fun i => (h'.fd i).trans (h.fd i), fun i => (h'.name i).trans (h.name i),
    fun i => (h'.ip i).trans (h.ip i), h'.sock.trans h.sock⟩

/-- The string that a flush hands over. -/
def flushText (s : Server) (i : ℕ) : List Byte :=
  ((s.clients i).buffer.write (s.clients i).bufLen [NUL]).str

/-- The flush makes at most one call, for its client. -/
theorem log_flush (i : ℕ) : ∃ events, (s.flush i).log = s.log ++ events ∧
    ∀ e ∈ events, e = s.call i (s.clients i).content (s.flushText i) := by
  rw [flush]
  split
  · exact ⟨_, rfl, fun e he => List.mem_singleton.mp he⟩
  · exact ⟨[], (List.append_nil _).symm, fun e he => absurd he List.not_mem_nil⟩

/-- **What is left when a client leaves**: the other entries as they were, each at some place. -/
structure Left (s t : Server) (i : ℕ) : Prop where
  /-- One entry less. -/
  count : t.numClients = s.numClients - 1
  /-- The entries left. -/
  entry : ∀ j < s.numClients - 1, t.clients j = s.clients (cameFrom s.numClients i j)
  /-- What the descriptors stand for. -/
  sock : t.sock = s.sock
  /-- The connection has ended, perhaps after a last call. -/
  closed : ∃ events, t.log = s.log ++ (events ++ [.closed (s.conn i)]) ∧
    ∀ e ∈ events, e = s.call i (s.clients i).content (s.flushText i)

/-- **`remove_client` after the flush.** -/
theorem left_removeClient (h : s.Sound) (hrest : s.AtRest) {i : ℕ} (hi : i < s.numClients)
    (hpc : ∀ j readSet, s.pc ≠ .extract j readSet) :
    Left s ((s.flush i).removeClient (s.clients i).socketFd) i := by
  have hflush := flush_flushed h hi (hrest.quiet i hi fun readSet => hpc i readSet)
  have hsame := sameClients_flush (s := s) i
  have hi' : i < (s.flush i).numClients := hflush.count.symm ▸ hi
  rw [← hflush.fd]
  obtain ⟨heq, hentry⟩ := removeClient_entries hflush.sound hi'
  rw [hflush.count] at heq hentry
  obtain ⟨events, hlog, hcalls⟩ := log_flush (s := s) i
  refine ⟨?_, fun j hj => ?_, ?_, events, ?_, hcalls⟩
  · rw [heq]
  · rw [hentry j hj, hflush.others _ ((cameFrom_spec hi).1 j hj).2]
  · rw [heq]
    exact hsame.sock
  · rw [heq, ← hsame.conn i, ← List.append_assoc, ← hlog]

/-- The connection of an entry left. -/
theorem Left.conn {i : ℕ} (h : Left s t i) {j : ℕ} (hj : j < s.numClients - 1) :
    t.conn j = s.conn (cameFrom s.numClients i j) := by
  rw [Server.conn, h.sock, h.entry j hj]
  rfl

/-- Whoever does not leave keeps an entry. -/
theorem Left.registered {i : ℕ} (h : Left s t i) (hi : i < s.numClients) (hc : s.Registered c)
    (hne : c ≠ s.conn i) : t.Registered c := by
  obtain ⟨k, hk, rfl⟩ := hc
  obtain ⟨j, hj, hjk⟩ := (cameFrom_spec hi).2.2 k hk fun hki => hne (by rw [hki])
  refine ⟨j, by rw [h.count]; exact hj, ?_⟩
  rw [h.conn hj, hjk]

/-- Whoever has an entry keeps it. -/
theorem Entered.registered {a : Incoming} (h : Entered s t a) (hc : s.Registered c) :
    t.Registered c := by
  obtain ⟨i, hi, rfl⟩ := hc
  refine ⟨i, ?_, h.conn i hi⟩
  rcases h.new with ⟨hnum, -⟩ | ⟨hnum, -⟩ <;> omega

/-! ## Who is in the table -/

/-- **Who has been admitted** and has not ended is in the table. -/
def Kept (s : Server) : Prop :=
  ∀ c first, .admitted c first ∈ s.log → s.Registered c ∨ .closed c ∈ s.log

/-- More events, none of them an admission. -/
theorem Kept.append {events : List Event} (h : s.Kept) (hlog : t.log = s.log ++ events)
    (hnone : ∀ c first, .admitted c first ∉ events)
    (hreg : ∀ c, s.Registered c → t.Registered c ∨ .closed c ∈ events) : t.Kept := by
  intro c first hc
  rw [hlog, List.mem_append] at hc
  rw [hlog, List.mem_append]
  rcases h c first (hc.resolve_right (hnone c first)) with hr | hclosed
  · rcases hreg c hr with hr | hclosed
    · exact Or.inl hr
    · exact Or.inr (Or.inr hclosed)
  · exact Or.inr (Or.inl hclosed)

/-- **Every move keeps it.** -/
theorem move_kept (hsound : s.Sound) (hrest : s.AtRest) (h : s.Kept) (hmove : Move s t) : t.Kept := by
  cases hmove with
  | round | next | done | noLine => exact h
  | accept ready a hpc ha =>
      have hentered := entered_acceptClient ha
      intro c first hc
      have hc : .admitted c first ∈ (s.acceptClient a).log := hc
      show (s.acceptClient a).Registered c ∨ .closed c ∈ (s.acceptClient a).log
      rcases hentered.new with ⟨-, hlog⟩ | ⟨hnum, -, hconn, hlog⟩
      · rw [hlog] at hc ⊢
        exact (h c first hc).imp_left hentered.registered
      · rw [hlog, List.mem_append] at hc ⊢
        rcases hc with hc | hc
        · exact (h c first hc).imp hentered.registered Or.inl
        · obtain ⟨rfl, -⟩ := Event.admitted.inj (List.mem_singleton.mp hc)
          exact Or.inl ⟨s.numClients, by omega, hconn⟩
  | leave i readSet hpc hi =>
      have hleft := left_removeClient hsound hrest hi (by simp [hpc])
      obtain ⟨events, hlog, hcalls⟩ := hleft.closed
      refine h.append hlog (fun c first hc => ?_) (fun c hc => ?_)
      · rcases List.mem_append.mp hc with hc | hc
        · cases hcalls _ hc
        · simp at hc
      · by_cases hci : c = s.conn i
        · exact Or.inr (List.mem_append_right _ (by rw [hci]; exact List.mem_singleton_self _))
        · exact Or.inl (hleft.registered hi hc hci)
  | read i readSet data hpc hi hdata =>
      have hsame := (sameClients_flush (s := s) i).trans (sameClients_receive i data)
      obtain ⟨events, hlog, hcalls⟩ := log_flush (s := s) i
      have hlog' : ((s.flush i).receive i data).log
          = s.log ++ (events ++ [.received ((s.flush i).conn i) data]) := by
        rw [← List.append_assoc, ← hlog]
        rfl
      refine h.append hlog' (fun c first hc => ?_) (fun c hc => Or.inl (hsame.registered.mpr hc))
      rcases List.mem_append.mp hc with hc | hc
      · cases hcalls _ hc
      · simp at hc
  | line i readSet u v hpc hline hu =>
      have hsame := sameClients_extractLine (s := s) i (u.length + 1)
      refine h.append rfl (fun c first hc => ?_) (fun c hc => Or.inl (hsame.registered.mpr hc))
      cases List.mem_singleton.mp hc

/-- **In every reachable state** the table has who has been admitted and has not ended. -/
theorem reachable_kept {old : ℕ → ClientInfo} {as : List Act}
    (h : run step (init old) as = some s) : s.Kept := by
  refine (run_invariant (I := fun s => (s.Sound ∧ s.AtRest) ∧ s.Kept) ⟨?_, ?_⟩
    (fun s a s' hI hstep => ?_) h).2
  · exact reachable_sound (run_nil (init old))
  · exact fun c first hc => absurd hc List.not_mem_nil
  · have hmove := step_move hstep
    exact ⟨move_sound hI.1.1 hI.1.2 hmove, move_kept hI.1.1 hI.1.2 hI.2 hmove⟩

/-- The first reads of a connection are in the log. -/
theorem mem_firstsOf {first : List Byte} (h : first ∈ s.firstsOf c) : .admitted c first ∈ s.log := by
  obtain ⟨e, he, hf⟩ := List.mem_flatMap.mp h
  obtain ⟨hlog, hc⟩ := List.mem_filter.mp he
  cases e with
  | admitted d f =>
      obtain rfl := List.mem_singleton.mp hf
      obtain rfl : d = c := of_decide_eq_true hc
      exact hlog
  | received | called | closed => exact absurd hf List.not_mem_nil

/-- A connection in the table has been admitted, with the first read that gave the entry its name. -/
theorem Sound.admitted (h : s.Sound) {i : ℕ} (hi : i < s.numClients) :
    ∃ first, .admitted (s.conn i) first ∈ s.log ∧ (s.clients i).name.str = chomp (cstr first) := by
  obtain ⟨first, hfirst, hname⟩ := (h.served i hi).named
  refine ⟨first, mem_firstsOf ?_, hname⟩
  rw [hfirst]
  exact List.mem_singleton_self first

/-- **The table has exactly the admitted, not yet removed connections.** -/
theorem registered_iff (h : s.Sound) (hkept : s.Kept) :
    s.Registered c ↔ (∃ first, .admitted c first ∈ s.log) ∧ .closed c ∉ s.log := by
  constructor
  · rintro ⟨i, hi, rfl⟩
    obtain ⟨first, hfirst, -⟩ := h.admitted hi
    exact ⟨⟨first, hfirst⟩, fun hclosed => h.closed_gone hclosed i hi rfl⟩
  · rintro ⟨⟨first, hfirst⟩, hopen⟩
    exact (hkept c first hfirst).resolve_right hopen

/-! ## What is still to be read -/

/-- Connection `c` has a ready entry from place `i` on. -/
def Ahead (s : Server) (readSet : ℕ → Bool) (i c : ℕ) : Prop :=
  ∃ j, i ≤ j ∧ j < s.numClients ∧ readSet (s.clients j).socketFd = true ∧ s.conn j = c

/-- **Connection `c` is still to be read in this round.** -/
def Pending (s : Server) (c : ℕ) : Prop :=
  match s.pc with
  | .select => False
  | .service i readSet => s.Ahead readSet i c
  | .extract i readSet => s.Ahead readSet (i + 1) c

/-- Connection `c` is in the table, and ready. -/
def Due (s : Server) (ready : ℕ → Bool) (c : ℕ) : Prop :=
  ∃ i < s.numClients, ready (s.clients i).socketFd = true ∧ s.conn i = c

variable {readSet : ℕ → Bool} {i : ℕ}

/-- A ready client is the first one ahead. -/
theorem ahead_ready (hi : i < s.numClients) (hready : readSet (s.clients i).socketFd = true) :
    s.Ahead readSet i c ↔ c = s.conn i ∨ s.Ahead readSet (i + 1) c := by
  constructor
  · rintro ⟨j, hij, hj, hr, rfl⟩
    rcases hij.eq_or_lt with rfl | hlt
    · exact Or.inl rfl
    · exact Or.inr ⟨j, hlt, hj, hr, rfl⟩
  · rintro (rfl | ⟨j, hij, hj, hr, rfl⟩)
    · exact ⟨i, le_rfl, hi, hready, rfl⟩
    · exact ⟨j, (Nat.lt_of_succ_le hij).le, hj, hr, rfl⟩

/-- A client that is not ready is passed over. -/
theorem ahead_skip (hready : readSet (s.clients i).socketFd ≠ true) :
    s.Ahead readSet i c ↔ s.Ahead readSet (i + 1) c := by
  constructor
  · rintro ⟨j, hij, hj, hr, rfl⟩
    rcases hij.eq_or_lt with rfl | hlt
    · exact absurd hr hready
    · exact ⟨j, hlt, hj, hr, rfl⟩
  · rintro ⟨j, hij, hj, hr, rfl⟩
    exact ⟨j, (Nat.lt_of_succ_le hij).le, hj, hr, rfl⟩

/-- The same clients, the same ones ahead. -/
theorem SameClients.ahead (h : SameClients s t) : t.Ahead readSet i c ↔ s.Ahead readSet i c := by
  unfold Ahead
  rw [h.count]
  simp only [h.conn, h.fd]

/-- **When the client at hand leaves**, the last entry comes to its place, and the same ones are
ahead. -/
theorem Left.ahead (h : Left s t i) (hi : i < s.numClients) :
    t.Ahead readSet i c ↔ s.Ahead readSet (i + 1) c := by
  unfold Ahead
  rw [h.count]
  constructor
  · rintro ⟨j, hij, hj, hr, rfl⟩
    rw [h.entry j hj] at hr
    rw [h.conn hj]
    refine ⟨cameFrom s.numClients i j, ?_, ((cameFrom_spec hi).1 j hj).1, hr, rfl⟩
    unfold cameFrom
    split <;> omega
  · rintro ⟨k, hik, hk, hr, rfl⟩
    obtain ⟨j, hj, rfl⟩ := (cameFrom_spec hi).2.2 k hk (by omega)
    refine ⟨j, ?_, hj, by rw [h.entry j hj]; exact hr, h.conn hj⟩
    unfold cameFrom at hik
    split at hik <;> omega

/-- What `select` leaves in `read_set`. -/
theorem readSet_eq_true {ready : ℕ → Bool} {fd : ℕ} : s.readSet ready fd = true ↔
    ready fd = true ∧ ∃ i < s.numClients, (s.clients i).socketFd = fd := by
  simp [readSet]

/-- **At the start of a round** the ready clients are ahead. -/
theorem ahead_readSet (ready : ℕ → Bool) : s.Ahead (s.readSet ready) 0 c ↔ s.Due ready c := by
  constructor
  · rintro ⟨j, -, hj, hr, rfl⟩
    exact ⟨j, hj, (readSet_eq_true.mp hr).1, rfl⟩
  · rintro ⟨j, hj, hr, rfl⟩
    exact ⟨j, Nat.zero_le j, hj, readSet_eq_true.mpr ⟨hr, j, hj, rfl⟩, rfl⟩

/-- The one that has just come is not ahead. -/
theorem Entered.ahead {a : Incoming} (h : Entered s t a) (ha : s.Possible a) (ready : ℕ → Bool) :
    t.Ahead (s.readSet ready) 0 c ↔ s.Due ready c := by
  rw [← ahead_readSet]
  constructor
  · rintro ⟨j, hj₀, hj, hr, rfl⟩
    have hlt : j < s.numClients := by
      rcases h.new with ⟨hnum, -⟩ | ⟨hnum, hfd, -⟩
      · omega
      · by_contra hge
        obtain rfl : j = s.numClients := by omega
        obtain ⟨-, i, hi, hsame⟩ := readSet_eq_true.mp hr
        exact ha.1 i hi (hsame.trans hfd)
    rw [h.entry j hlt] at hr
    exact ⟨j, hj₀, hlt, hr, (h.conn j hlt).symm⟩
  · rintro ⟨j, hj₀, hj, hr, rfl⟩
    have hj' : j < t.numClients := by rcases h.new with ⟨hnum, -⟩ | ⟨hnum, -⟩ <;> omega
    exact ⟨j, hj₀, hj', by rw [h.entry j hj]; exact hr, h.conn j hj⟩

/-! ## The reads of a round -/

/-- What a step adds to the connections read. -/
def noteRead (s : Server) (a : Act) (reads : List ℕ) : List ℕ :=
  match a, s.pc with
  | .read _, .service i _ => reads ++ [s.conn i]
  | _, _ => reads

/-- **The connections that are read** in the run of `bs` from `s`, in order. -/
def readsOf (s : Server) (bs : List Act) : List ℕ := history step noteRead s [] bs

/-- **A round under way**: what was due has been read or is still pending, and nothing twice. -/
structure Reading (s : Server) (ready : ℕ → Bool) (t : Server) (reads : List ℕ) : Prop where
  /-- Nothing is read twice. -/
  nodup : reads.Nodup
  /-- What has been read is not pending. -/
  apart : ∀ c ∈ reads, ¬ t.Pending c
  /-- What was due has been read or is pending, and nothing else. -/
  due : ∀ c, (c ∈ reads ∨ t.Pending c) ↔ s.Due ready c

/-- A step that reads nothing. -/
theorem Reading.quiet {ready : ℕ → Bool} {reads : List ℕ} {u : Server} (h : Reading s ready t reads)
    (hpending : ∀ c, u.Pending c ↔ t.Pending c) : Reading s ready u reads := by
  refine ⟨h.nodup, fun c hc => ?_, fun c => ?_⟩
  · rw [hpending]
    exact h.apart c hc
  · rw [hpending]
    exact h.due c

/-- A step that reads the connection `c`. -/
theorem Reading.read {ready : ℕ → Bool} {reads : List ℕ} {u : Server} (h : Reading s ready t reads)
    (hpending : ∀ d, t.Pending d ↔ d = c ∨ u.Pending d) (hc : ¬ u.Pending c) :
    Reading s ready u (reads ++ [c]) := by
  have hnew : c ∉ reads := fun hmem => h.apart c hmem ((hpending c).mpr (Or.inl rfl))
  refine ⟨?_, fun d hd hu => ?_, fun d => ?_⟩
  · refine List.nodup_append.mpr ⟨h.nodup, List.nodup_cons.mpr ⟨List.not_mem_nil, List.nodup_nil⟩,
      fun d hd e he heq => ?_⟩
    rw [List.mem_singleton.mp he] at heq
    exact hnew (heq ▸ hd)
  · rcases List.mem_append.mp hd with hd | hd
    · exact h.apart d hd ((hpending d).mpr (Or.inr hu))
    · rw [List.mem_singleton.mp hd] at hu
      exact hc hu
  · rw [← h.due d, hpending d, List.mem_append, List.mem_singleton, or_assoc]

/-- **Every step of a round** reads one of the pending connections, or none. -/
theorem Reading.step {ready : ℕ → Bool} {reads : List ℕ} {u : Server} {a : Act}
    (h : Reading s ready t reads) (hsound : t.Sound) (hrest : t.AtRest) (ha : a.isSelect = false)
    (hstep : ChatServer.step t a = some u) : Reading s ready u (t.noteRead a reads) := by
  cases a with
  | select => cases ha
  | read data =>
      cases hpc : t.pc with
      | select | extract => simp [ChatServer.step, hpc] at hstep
      | service i readSet =>
          simp only [ChatServer.step, hpc] at hstep
          simp only [noteRead, hpc]
          have hpcs : ∀ j r, t.pc ≠ .extract j r := by simp [hpc]
          obtain ⟨hi, hready, hfits⟩ : i < t.numClients ∧ readSet (t.clients i).socketFd = true ∧
              data.length ≤ (t.flush i).spaceLeft i := by
            by_contra hguard
            rw [if_neg hguard] at hstep
            cases hstep
          rw [if_pos ⟨hi, hready, hfits⟩] at hstep
          -- the client at hand is not ahead of itself
          have hself : ¬ t.Ahead readSet (i + 1) (t.conn i) := by
            rintro ⟨j, hij, hj, -, heq⟩
            have := hsound.conns j hj i hi heq
            omega
          have hahead : ∀ c, t.Pending c ↔ c = t.conn i ∨ t.Ahead readSet (i + 1) c := by
            intro c
            rw [Pending, hpc]
            exact ahead_ready hi hready
          split_ifs at hstep with hdata
          · cases hstep
            have hleft := left_removeClient hsound hrest hi hpcs
            refine h.read (fun d => (hahead d).trans (or_congr_right ?_)) fun hu => hself ?_
            · exact Iff.symm (hleft.ahead hi)
            · exact (hleft.ahead hi).mp hu
          · cases hstep
            have hsame := (sameClients_flush (s := t) i).trans (sameClients_receive i data)
            refine h.read (fun d => (hahead d).trans (or_congr_right ?_)) fun hu => hself ?_
            · exact Iff.symm hsame.ahead
            · exact hsame.ahead.mp hu
  | advance =>
      cases hpc : t.pc with
      | select => simp [ChatServer.step, hpc] at hstep
      | service i readSet =>
          simp only [ChatServer.step, hpc] at hstep
          simp only [noteRead]
          split_ifs at hstep with hi hready
          · cases hstep
            refine h.quiet fun c => ?_
            rw [Pending, Pending, hpc]
            exact (ahead_skip hready).symm
          · cases hstep
            refine h.quiet fun c => ?_
            rw [Pending, Pending, hpc]
            refine ⟨False.elim, ?_⟩
            rintro ⟨j, hij, hj, -⟩
            omega
      | extract i readSet =>
          simp only [ChatServer.step, hpc] at hstep
          simp only [noteRead]
          split at hstep
          · cases hstep
            refine h.quiet fun c => ?_
            rw [Pending, Pending, hpc]
            exact Iff.rfl
          · rename_i newline hfind
            cases hstep
            refine h.quiet fun c => ?_
            have hsame := sameClients_extractLine (s := t) i (newline + 1)
            have hpc' : (t.extractLine i (newline + 1)).pc = .extract i readSet := hpc
            rw [Pending, Pending, hpc, hpc']
            exact hsame.ahead

/-- `select` leaves the loop at its first client. -/
theorem select_service {ready : ℕ → Bool} {incoming : Option Incoming}
    (hstep : ChatServer.step s (.select ready incoming) = some t) :
    ∃ readSet, t.pc = .service 0 readSet := by
  cases hpc : s.pc with
  | service | extract => simp [ChatServer.step, hpc] at hstep
  | select =>
      cases incoming with
      | none =>
          simp only [ChatServer.step, hpc] at hstep
          cases hstep
          exact ⟨_, rfl⟩
      | some a =>
          simp only [ChatServer.step, hpc] at hstep
          split_ifs at hstep with ha
          cases hstep
          exact ⟨_, rfl⟩

/-- **`select` begins a round.** -/
theorem reading_select {ready : ℕ → Bool} {incoming : Option Incoming}
    (hstep : ChatServer.step s (.select ready incoming) = some t) : Reading s ready t [] := by
  cases hpc : s.pc with
  | service | extract => simp [ChatServer.step, hpc] at hstep
  | select =>
      refine ⟨List.nodup_nil, fun c hc => absurd hc List.not_mem_nil, fun c => ?_⟩
      rw [or_iff_right List.not_mem_nil]
      cases incoming with
      | none =>
          simp only [ChatServer.step, hpc] at hstep
          cases hstep
          exact ahead_readSet ready
      | some a =>
          simp only [ChatServer.step, hpc] at hstep
          split_ifs at hstep with ha
          cases hstep
          exact (entered_acceptClient ha).ahead ha ready

/-- **The steps of a round so far.** -/
theorem reading_run {ready : ℕ → Bool} {incoming : Option Incoming} {bs : List Act} {u : Server}
    (hsound : s.Sound) (hrest : s.AtRest) (hstep : ChatServer.step s (.select ready incoming) = some t)
    (hbs : ∀ a ∈ bs, a.isSelect = false) (hrun : run ChatServer.step t bs = some u) :
    Reading s ready u (readsOf t bs) := by
  have hround : EveryStep ChatServer.step (fun _ a => a.isSelect = false) t bs := by
    rintro cs a ds v rfl -
    exact hbs a (List.mem_append_right cs List.mem_cons_self)
  refine (guarded_history (I := fun v reads => (v.Sound ∧ v.AtRest) ∧ Reading s ready v reads)
    ⟨move_sound hsound hrest (step_move hstep), reading_select hstep⟩ ?_ hround hrun).2
  rintro v reads a w ⟨⟨hv, hvrest⟩, hreading⟩ ha hvstep
  exact ⟨move_sound hv hvrest (step_move hvstep), hreading.step hv hvrest ha hvstep⟩

/-! ## The end of a round -/

/-- Whether the server is about to call `select`. -/
def atSelect (s : Server) : Bool :=
  match s.pc with
  | .select => true
  | .service _ _ | .extract _ _ => false

/-- It says so. -/
theorem atSelect_eq_true : s.atSelect = true ↔ s.pc = .select := by
  rw [atSelect]
  split <;> simp_all

/-- **How many steps a round can still take**: at each client at hand there are at most as many
lines as bytes in the buffer. -/
def budget (s : Server) : ℕ :=
  match s.pc with
  | .select => 0
  | .service i _ => (s.numClients - i) * (maxMsgLen + 2) + 1
  | .extract i _ => (s.numClients - (i + 1)) * (maxMsgLen + 2) + (s.clients i).bufLen + 2

/-- The budget at a client in the loop. -/
theorem budget_service (h : s.pc = .service i readSet) :
    s.budget = (s.numClients - i) * (maxMsgLen + 2) + 1 := by
  rw [budget, h]

/-- The budget at the lines of a client. -/
theorem budget_extract (h : s.pc = .extract i readSet) :
    s.budget = (s.numClients - (i + 1)) * (maxMsgLen + 2) + (s.clients i).bufLen + 2 := by
  rw [budget, h]

/-- The share of one client. -/
theorem budget_client {n : ℕ} (hi : i < n) :
    (n - i) * (maxMsgLen + 2) = (n - (i + 1)) * (maxMsgLen + 2) + (maxMsgLen + 2) := by
  rw [← Nat.succ_mul]
  congr 1
  omega

/-- **Every step of a round lowers the budget.** -/
theorem budget_step {a : Act} (hsound : s.Sound) (hrest : s.AtRest) (ha : a.isSelect = false)
    (hstep : ChatServer.step s a = some t) : t.budget < s.budget := by
  have hsound' := (move_sound hsound hrest (step_move hstep)).1
  have hlimit : limit = maxMsgLen - 1 := rfl
  cases a with
  | select => cases ha
  | read data =>
      cases hpc : s.pc with
      | select | extract => simp [ChatServer.step, hpc] at hstep
      | service i readSet =>
          simp only [ChatServer.step, hpc] at hstep
          split_ifs at hstep with hguard hdata
          · -- one client less
            cases hstep
            have hcount : (((s.flush i).removeClient (s.clients i).socketFd).goto
                (.service i readSet)).numClients = s.numClients - 1 :=
              (left_removeClient hsound hrest hguard.1 (by simp [hpc])).count
            have hclient := budget_client hguard.1
            rw [budget_service hpc, budget_service (by rfl), hcount, hclient, Nat.sub_sub,
              Nat.add_comm 1 i]
            omega
          · -- its lines come out of the share of the client at hand
            cases hstep
            have hcount : (((s.flush i).receive i data).goto (.extract i readSet)).numClients
                = s.numClients :=
              ((sameClients_flush (s := s) i).trans (sameClients_receive i data)).count
            have hroom := (hsound'.served i (hcount.symm ▸ hguard.1)).room
            have hclient := budget_client hguard.1
            rw [budget_service hpc, budget_extract (by rfl), hcount, hclient]
            omega
  | advance =>
      cases hpc : s.pc with
      | select => simp [ChatServer.step, hpc] at hstep
      | service i readSet =>
          simp only [ChatServer.step, hpc] at hstep
          split_ifs at hstep with hi hready
          · cases hstep
            have hclient := budget_client hi
            have hcount : (s.goto (.service (i + 1) readSet)).numClients = s.numClients := rfl
            rw [budget_service hpc, budget_service (by rfl), hcount, hclient]
            omega
          · cases hstep
            rw [budget_service hpc]
            exact Nat.succ_pos _
      | extract i readSet =>
          obtain ⟨hi, hstr⟩ := hrest.inside i readSet hpc
          simp only [ChatServer.step, hpc] at hstep
          split at hstep
          · cases hstep
            have hcount : (s.goto (.service (i + 1) readSet)).numClients = s.numClients := rfl
            rw [budget_extract hpc, budget_service (by rfl), hcount]
            omega
          · -- the line has at least its newline
            rename_i newline hfind
            cases hstep
            obtain ⟨u, v, hline, -, rfl⟩ := strchr_eq_some hfind
            have hlen : u.length + 1 ≤ (s.clients i).bufLen := by
              rw [← length_content (hsound.served i hi).room]
              refine le_trans ?_ (cstr_isPrefix (s.clients i).content).length_le
              rw [← hstr, hline, List.length_append, List.length_cons]
              omega
            have hpc' : (s.extractLine i (u.length + 1)).pc = .extract i readSet := hpc
            have hcount : (s.extractLine i (u.length + 1)).numClients = s.numClients := rfl
            have hrest : ((s.extractLine i (u.length + 1)).clients i).bufLen
                = (s.clients i).bufLen - (u.length + 1) := by
              show (Function.update s.clients i _ i).bufLen = _
              rw [Function.update_self]
            rw [budget_extract hpc, budget_extract hpc', hcount, hrest]
            omega

/-- **A round does not get stuck**: until it ends, some step of it is possible. -/
theorem round_goes_on (hpc : s.pc ≠ .select) :
    ∃ a, a.isSelect = false ∧ (ChatServer.step s a).isSome = true := by
  cases hpc' : s.pc with
  | select => exact absurd hpc' hpc
  | service i readSet =>
      by_cases hready : i < s.numClients ∧ readSet (s.clients i).socketFd = true
      · -- a read can always find the connection ended
        refine ⟨.read [], rfl, ?_⟩
        simp only [ChatServer.step, hpc']
        rw [if_pos ⟨hready.1, hready.2, Nat.zero_le _⟩, if_pos trivial, Option.isSome_some]
      · refine ⟨.advance, rfl, ?_⟩
        simp only [ChatServer.step, hpc']
        split_ifs with hi hr
        · exact absurd ⟨hi, hr⟩ hready
        · rfl
        · rfl
  | extract i readSet =>
      refine ⟨.advance, rfl, ?_⟩
      simp only [ChatServer.step, hpc']
      split
      · rfl
      · rfl

/-- **The number of steps of a round is bounded.** -/
theorem round_length {ready : ℕ → Bool} {incoming : Option Incoming} {bs : List Act} {u : Server}
    (hsound : s.Sound) (hrest : s.AtRest) (hstep : ChatServer.step s (.select ready incoming) = some t)
    (hbs : ∀ a ∈ bs, a.isSelect = false) (hrun : run ChatServer.step t bs = some u) :
    bs.length ≤ maxClients * (maxMsgLen + 2) + 1 := by
  obtain ⟨hsound', hrest'⟩ := move_sound hsound hrest (step_move hstep)
  have hround : EveryStep ChatServer.step (fun _ a => a.isSelect = false) t bs := by
    rintro cs a ds v rfl -
    exact hbs a (List.mem_append_right cs List.mem_cons_self)
  have hlength := guarded_length (I := fun v => v.Sound ∧ v.AtRest) (μ := budget) ⟨hsound', hrest'⟩
    (fun v a w hv ha hw => ⟨move_sound hv.1 hv.2 (step_move hw), budget_step hv.1 hv.2 ha hw⟩)
    hround hrun
  obtain ⟨r, hpc⟩ := select_service hstep
  rw [budget_service hpc, Nat.sub_zero] at hlength
  have hcount := Nat.mul_le_mul_right (maxMsgLen + 2) hsound'.count
  omega

/-! ## The results -/

/-- **The client table as it should be.** -/
structure Tabled (s : Server) : Prop where
  /-- `num_clients` is in its range. -/
  count : s.numClients ≤ maxClients
  /-- The descriptors are distinct. -/
  fds : ∀ i < s.numClients, ∀ j < s.numClients,
    (s.clients i).socketFd = (s.clients j).socketFd → i = j
  /-- The entries are for the admitted, not yet removed connections. -/
  registered : ∀ c, s.Registered c ↔ (∃ first, .admitted c first ∈ s.log) ∧ .closed c ∉ s.log
  /-- `buf_len` is in its range. -/
  room : ∀ i < s.numClients, (s.clients i).bufLen ≤ maxMsgLen - 1

/-- **In every reachable state** the table is as it should be. -/
theorem reachable_tabled {old : ℕ → ClientInfo} {as : List Act}
    (h : run step (init old) as = some s) : s.Tabled := by
  obtain ⟨hsound, -⟩ := reachable_sound h
  exact ⟨hsound.count, hsound.fds, fun c => registered_iff hsound (reachable_kept h),
    fun i hi => (hsound.served i hi).room⟩

/-- **Every read is from a registered client**, and if it finds that the client has left, the other
entries stay as they are. -/
theorem read_registered (hsound : s.Sound) (hrest : s.AtRest) {data : List Byte}
    (hstep : ChatServer.step s (.read data) = some t) :
    ∃ i readSet, s.pc = .service i readSet ∧ i < s.numClients ∧ .closed (s.conn i) ∉ s.log ∧
      (data = [] → t.numClients = s.numClients - 1 ∧ ∀ k < s.numClients, k ≠ i →
        ∃ j < t.numClients, t.clients j = s.clients k ∧ t.conn j = s.conn k) := by
  cases hpc : s.pc with
  | select | extract => simp [ChatServer.step, hpc] at hstep
  | service i readSet =>
      simp only [ChatServer.step, hpc] at hstep
      by_cases hguard : i < s.numClients ∧ readSet (s.clients i).socketFd = true ∧
          data.length ≤ (s.flush i).spaceLeft i
      · rw [if_pos hguard] at hstep
        obtain ⟨hi, -, -⟩ := hguard
        refine ⟨i, readSet, rfl, hi, fun hclosed => hsound.closed_gone hclosed i hi rfl, ?_⟩
        intro hdata
        rw [if_pos hdata] at hstep
        cases hstep
        have hleft := left_removeClient hsound hrest hi (by simp [hpc])
        refine ⟨hleft.count, fun k hk hki => ?_⟩
        obtain ⟨j, hj, rfl⟩ := (cameFrom_spec hi).2.2 k hk hki
        exact ⟨j, hj.trans_eq hleft.count.symm, hleft.entry j hj, hleft.conn hj⟩
      · rw [if_neg hguard] at hstep
        cases hstep

/-- **The reads of a round**: nobody twice, only clients that were registered and ready when `select`
returned, and all of them before the round ends. -/
theorem round_reads {ready : ℕ → Bool} {incoming : Option Incoming} {bs : List Act} {u : Server}
    (hsound : s.Sound) (hrest : s.AtRest) (hstep : ChatServer.step s (.select ready incoming) = some t)
    (hbs : ∀ a ∈ bs, a.isSelect = false) (hrun : run ChatServer.step t bs = some u) :
    (readsOf t bs).Nodup ∧ (∀ c ∈ readsOf t bs, s.Due ready c ∧ c < s.accepted) ∧
      (u.pc = .select → ∀ c, s.Due ready c → c ∈ readsOf t bs) := by
  have hreading := reading_run hsound hrest hstep hbs hrun
  refine ⟨hreading.nodup, fun c hc => ?_, fun hend c hdue => ?_⟩
  · have hdue := (hreading.due c).mp (Or.inl hc)
    obtain ⟨i, hi, -, hci⟩ := id hdue
    exact ⟨hdue, hci ▸ hsound.known i hi⟩
  · refine ((hreading.due c).mpr hdue).resolve_right fun hpending => ?_
    rw [Pending, hend] at hpending
    exact hpending

end Server

/-- `ann`, `bob` and `eve` enter, on the descriptors `4`, `5` and `6`. -/
def threeClients : List Act :=
  [.select (fun _ => false) (some ⟨4, lit "10.0.0.1", lit "ann\n"⟩), .advance, .advance,
    .select (fun _ => false) (some ⟨5, lit "10.0.0.2", lit "bob\n"⟩), .advance, .advance, .advance,
    .select (fun _ => false) (some ⟨6, lit "10.0.0.3", lit "eve\n"⟩), .advance, .advance, .advance,
    .advance]

end StudiesOS.ChatServer
