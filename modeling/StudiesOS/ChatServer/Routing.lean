import Mathlib.Data.List.Nodup
import StudiesOS.ChatServer.Rounds
import StudiesOS.ChatServer.Registration

/-! # Routing
To whom `process_message` writes, and what. A client is known by its connection: the entry at which a
message is processed and the entries it is written to move about in the table, but each bears the name
that its connection was given at its first read (`Server.nameOf`). -/

namespace StudiesOS.ChatServer

/-- Whether a call is for everybody. -/
def Call.isBroadcast (k : Call) : Bool := (chomp k.text).head? ≠ some AT

/-- What the event writes to connection `c` as a broadcast. -/
def Event.broadcastTo (c : ℕ) : Event → List (List Byte)
  | .called _ k =>
      if k.isBroadcast then (k.writes.filter fun w => w.conn = c).map Write.data else []
  | .admitted _ _ | .received _ _ | .closed _ => []

/-- **The broadcasts written to connection `c`**, in order. -/
def broadcastsTo (c : ℕ) (events : List Event) : List (List Byte) := events.flatMap (Event.broadcastTo c)

namespace Server

variable {s t : Server} {c d i : ℕ} {text name body : List Byte}

/-- **The name of connection `c`**: its first read, up to a NUL and without a newline at the end. -/
def nameOf (s : Server) (c : ℕ) : List Byte := chomp (cstr (s.firstsOf c).flatten)

/-- **The line that is sent for a message** of connection `c`. -/
def lineOf (s : Server) (c : ℕ) (text : List Byte) : List Byte :=
  s.nameOf c ++ lit ": " ++ chomp text ++ [LF]

/-- An entry bears the name of its connection. -/
theorem Sound.name_conn (h : s.Sound) (hi : i < s.numClients) :
    (s.clients i).name.str = s.nameOf (s.conn i) := by
  obtain ⟨first, hfirst, hname⟩ := (h.served i hi).named
  rw [nameOf, hfirst, hname, List.flatten_singleton]

/-! ## `find_client_by_name` -/

/-- The first entry of that name. -/
theorem findClientByName_eq_some : s.findClientByName name = some i ↔
    i < s.numClients ∧ (s.clients i).name.str = name ∧ ∀ j < i, (s.clients j).name.str ≠ name := by
  rw [findClientByName, List.find?_range_eq_some]
  simp only [decide_eq_true_eq, List.mem_range, Bool.not_eq_true', decide_eq_false_iff_not]
  exact ⟨fun ⟨hname, hi, hbefore⟩ => ⟨hi, hname, hbefore⟩,
    fun ⟨hi, hname, hbefore⟩ => ⟨hname, hi, hbefore⟩⟩

/-- No entry of that name. -/
theorem findClientByName_eq_none : s.findClientByName name = none ↔
    ∀ i < s.numClients, (s.clients i).name.str ≠ name := by
  rw [findClientByName, List.find?_range_eq_none]
  simp only [Bool.not_eq_true', decide_eq_false_iff_not]

/-! ## `process_message` -/

/-- **Every write is the line** for the message. -/
theorem processMessage_data (h : s.Sound) (hi : i < s.numClients) :
    ∀ w ∈ s.processMessage i text, w.data = s.lineOf (s.conn i) text := by
  intro w hw
  rw [lineOf, ← h.name_conn hi]
  simp only [processMessage] at hw
  split at hw
  · split at hw
    · cases hw
    · split at hw
      · cases hw
      · rw [List.mem_singleton.mp hw]
        rfl
  · obtain ⟨j, -, rfl⟩ := List.mem_map.mp hw
    rfl

/-- A text for everybody. -/
theorem processMessage_broadcast (h : s.Sound) (hi : i < s.numClients)
    (hhead : (chomp text).head? ≠ some AT) :
    s.processMessage i text = s.broadcastMessage (s.lineOf (s.conn i) text) := by
  simp only [processMessage, if_neg hhead]
  rw [h.name_conn hi, lineOf]

/-- **A broadcast goes to every registered client**, once, and to nobody else. -/
theorem broadcast_conns (h : s.Sound) (msg : List Byte) :
    ((s.broadcastMessage msg).map Write.conn).Nodup ∧
      ∀ d, d ∈ (s.broadcastMessage msg).map Write.conn ↔ s.Registered d := by
  have hconns : (s.broadcastMessage msg).map Write.conn = (List.range s.numClients).map s.conn := by
    rw [broadcastMessage, List.map_map]
    rfl
  rw [hconns]
  refine ⟨List.Nodup.map_on (fun i hi j hj heq => ?_) List.nodup_range, fun d => ?_⟩
  · exact h.conns i (List.mem_range.mp hi) j (List.mem_range.mp hj) heq
  · simp only [List.mem_map, List.mem_range]
    exact Iff.rfl

/-- What a registered client gets of a broadcast. -/
theorem broadcast_filter (h : s.Sound) (hc : s.Registered c) (msg : List Byte) :
    ((s.broadcastMessage msg).filter fun w => w.conn = c).map Write.data = [msg] := by
  obtain ⟨i, hi, rfl⟩ := hc
  have hfilter : (List.range s.numClients).filter (fun j => s.conn j = s.conn i) = [i] := by
    have hsame : ∀ j ∈ List.range s.numClients,
        decide (s.conn j = s.conn i) = decide (j = i) := by
      intro j hj
      refine decide_eq_decide.mpr ⟨fun heq => ?_, fun heq => by rw [heq]⟩
      exact h.conns j (List.mem_range.mp hj) i hi heq
    rw [List.filter_congr hsame, List.filter_eq, List.count_range, if_pos hi, List.replicate_one]
  rw [broadcastMessage, List.filter_map, List.map_map]
  have hconn : ((fun w : Write => decide (w.conn = s.conn i)) ∘ fun j => s.sendMessage j msg)
      = fun j => decide (s.conn j = s.conn i) := rfl
  rw [hconn, hfilter, List.map_singleton]
  rfl

/-- **A text for one client**: who is found under the name between `@` and the first blank. -/
theorem processMessage_at (hSP : SP ∉ name) (htext : chomp text = AT :: (name ++ SP :: body)) :
    s.processMessage i text = ((s.findClientByName name).map fun target => s.sendMessage target
      ((s.clients i).name.str ++ lit ": " ++ chomp text ++ [LF])).toList := by
  simp only [processMessage, htext, List.head?_cons, if_true, List.tail_cons, strchr_append hSP,
    List.take_left]
  cases s.findClientByName name with
  | none => rfl
  | some target => rfl

/-- A text for one client goes to one at most. -/
theorem processMessage_at_length (hhead : (chomp text).head? = some AT) :
    (s.processMessage i text).length ≤ 1 := by
  simp only [processMessage, if_pos hhead]
  split
  · exact Nat.zero_le 1
  · split
    · exact Nat.zero_le 1
    · exact le_rfl

/-- Without a blank behind the name nobody is written to. -/
theorem processMessage_at_noBlank (hhead : (chomp text).head? = some AT) (hSP : SP ∉ chomp text) :
    s.processMessage i text = [] := by
  have hnone : strchr (chomp text).tail SP = none :=
    strchr_eq_none.mpr fun hmem => hSP (List.mem_of_mem_tail hmem)
  simp only [processMessage, if_pos hhead, hnone]

/-- **The addressee bears the name**, and if there is a client of that name one is written to. -/
theorem processMessage_addressee (h : s.Sound) (hSP : SP ∉ name)
    (htext : chomp text = AT :: (name ++ SP :: body)) :
    (∀ w ∈ s.processMessage i text, s.Registered w.conn ∧ s.nameOf w.conn = name) ∧
      ((∃ d, s.Registered d ∧ s.nameOf d = name) → (s.processMessage i text).length = 1) := by
  rw [processMessage_at hSP htext]
  cases hfind : s.findClientByName name with
  | none =>
      refine ⟨fun w hw => absurd hw List.not_mem_nil, ?_⟩
      rintro ⟨d, ⟨j, hj, rfl⟩, hname⟩
      rw [← h.name_conn hj] at hname
      exact absurd hname (findClientByName_eq_none.mp hfind j hj)
  | some target =>
      obtain ⟨htarget, hname, -⟩ := findClientByName_eq_some.mp hfind
      refine ⟨fun w hw => ?_, fun _ => rfl⟩
      rw [List.mem_singleton.mp hw]
      refine ⟨⟨target, htarget, rfl⟩, ?_⟩
      rw [← hname]
      exact (h.name_conn htarget).symm

/-! ## The calls of a step -/

/-- **A call made in state `s`**: for the connection of an entry, with one line at most, and with what
is written there. -/
def Made (s : Server) (c : ℕ) (k : Call) : Prop :=
  ∃ i < s.numClients, s.conn i = c ∧ LF ∉ chomp k.text ∧ k.writes = s.processMessage i k.text

/-- **The call of a flush**: no line was waiting in the buffer. -/
theorem made_flush (hsound : s.Sound) (hrest : s.AtRest) (hi : i < s.numClients)
    (hpc : ∀ j readSet, s.pc ≠ .extract j readSet) {events : List Event} {k : Call}
    (hcalls : ∀ e ∈ events, e = s.call i (s.clients i).content (s.flushText i))
    (hk : .called c k ∈ events) : s.Made c k := by
  obtain ⟨rfl, rfl⟩ := Event.called.inj (hcalls _ hk)
  refine ⟨i, hi, rfl, ?_, rfl⟩
  have hquiet := hrest.quiet i hi fun readSet => hpc i readSet
  have htext : s.flushText i = cstr (s.clients i).content :=
    CharArray.str_terminate _ (Nat.lt_succ_of_le (hsound.served i hi).room)
  rw [htext, chomp_eq_self hquiet]
  exact hquiet

/-- **The call for a line**: its newline is the last byte. -/
theorem made_line {readSet : ℕ → Bool} {u v : List Byte} {k : Call} (hrest : s.AtRest)
    (hpc : s.pc = .extract i readSet) (hline : (s.clients i).buffer.str = u ++ LF :: v) (hu : LF ∉ u)
    (hk : .called c k = s.call i ((s.clients i).buffer.mem.take (u.length + 1))
      (cstr ((s.clients i).buffer.mem.take (u.length + 1)))) : s.Made c k := by
  obtain ⟨rfl, rfl⟩ := Event.called.inj hk
  refine ⟨i, (hrest.inside i readSet hpc).1, rfl, ?_, rfl⟩
  have htake := (s.clients i).buffer.take_line hline
  have hNUL : NUL ∉ u ++ [LF] := by
    have hstr : NUL ∉ u ++ LF :: v := hline ▸ not_mem_cstr _
    simp only [List.mem_append, List.mem_cons, List.not_mem_nil, or_false, not_or] at hstr ⊢
    exact ⟨hstr.1, hstr.2.1⟩
  show LF ∉ chomp (cstr ((s.clients i).buffer.mem.take (u.length + 1)))
  rw [htake, cstr_eq_self hNUL, chomp_line]
  exact hu

/-- **What a step adds to the log.** Its calls are made in the state before it, since the flush comes
before any removal; and who is admitted has just been accepted. -/
theorem move_events (hsound : s.Sound) (hrest : s.AtRest) (hmove : Move s t) :
    ∃ events, t.log = s.log ++ events ∧ (∀ c k, .called c k ∈ events → s.Made c k) ∧
      ∀ c first, .admitted c first ∈ events →
        c = s.accepted ∧ s.pc = .select ∧ events = [.admitted c first] := by
  cases hmove with
  | round | next | done | noLine =>
      exact ⟨[], (List.append_nil _).symm, fun c k hk => absurd hk List.not_mem_nil,
        fun c first hfirst => absurd hfirst List.not_mem_nil⟩
  | accept ready a hpc ha =>
      rcases (entered_acceptClient ha).new with ⟨-, hlog⟩ | ⟨-, -, -, hlog⟩
      · exact ⟨[], hlog.trans (List.append_nil _).symm, fun c k hk => absurd hk List.not_mem_nil,
          fun c first hfirst => absurd hfirst List.not_mem_nil⟩
      · refine ⟨[.admitted s.accepted a.first], hlog, fun c k hk => ?_, fun c first hfirst => ?_⟩
        · cases List.mem_singleton.mp hk
        · obtain ⟨rfl, rfl⟩ := Event.admitted.inj (List.mem_singleton.mp hfirst)
          exact ⟨rfl, hpc, rfl⟩
  | leave i readSet hpc hi =>
      -- the flush comes before the `read` that finds the end, and may make a call
      obtain ⟨events, hlog, hcalls⟩ := (left_removeClient hsound hrest hi (by simp [hpc])).closed
      refine ⟨_, hlog, fun c k hk => ?_, fun c first hfirst => ?_⟩
      · rcases List.mem_append.mp hk with hk | hk
        · exact made_flush hsound hrest hi (by simp [hpc]) hcalls hk
        · cases List.mem_singleton.mp hk
      · rcases List.mem_append.mp hfirst with hfirst | hfirst
        · cases hcalls _ hfirst
        · cases List.mem_singleton.mp hfirst
  | read i readSet data hpc hi hdata =>
      obtain ⟨events, hlog, hcalls⟩ := log_flush (s := s) i
      refine ⟨events ++ [.received ((s.flush i).conn i) data], ?_, fun c k hk => ?_,
        fun c first hfirst => ?_⟩
      · rw [← List.append_assoc, ← hlog]
        rfl
      · rcases List.mem_append.mp hk with hk | hk
        · exact made_flush hsound hrest hi (by simp [hpc]) hcalls hk
        · cases List.mem_singleton.mp hk
      · rcases List.mem_append.mp hfirst with hfirst | hfirst
        · cases hcalls _ hfirst
        · cases List.mem_singleton.mp hfirst
  | line i readSet u v hpc hline hu =>
      refine ⟨_, rfl, fun c k hk => ?_, fun c first hfirst => ?_⟩
      · exact made_line hrest hpc hline hu (List.mem_singleton.mp hk)
      · cases List.mem_singleton.mp hfirst

/-- **Two registered clients get the same of every step.** -/
theorem broadcastsTo_step (hsound : s.Sound) {events : List Event}
    (hmade : ∀ c k, .called c k ∈ events → s.Made c k) (hc : s.Registered c) (hd : s.Registered d) :
    broadcastsTo c events = broadcastsTo d events := by
  refine List.flatMap_congr fun e he => ?_
  cases e with
  | admitted | received | closed => rfl
  | called b k =>
      obtain ⟨i, hi, -, -, hwrites⟩ := hmade b k he
      simp only [Event.broadcastTo]
      split
      · rename_i hbroadcast
        rw [hwrites, processMessage_broadcast hsound hi (of_decide_eq_true hbroadcast),
          broadcast_filter hsound hc, broadcast_filter hsound hd]
      · rfl

/-- **Two clients that stay registered get the same broadcasts.** -/
theorem broadcastsTo_run (hsound : s.Sound) (hrest : s.AtRest) {bs : List Act} {u : Server}
    (hreg : EveryStep ChatServer.step (fun t _ => t.Registered c ∧ t.Registered d) s bs)
    (hrun : run ChatServer.step s bs = some u) :
    broadcastsTo c (u.log.drop s.log.length) = broadcastsTo d (u.log.drop s.log.length) := by
  have hinv : (u.Sound ∧ u.AtRest) ∧ ∃ events, u.log = s.log ++ events ∧
      broadcastsTo c events = broadcastsTo d events := by
    refine guarded_invariant (I := fun u => (u.Sound ∧ u.AtRest) ∧ ∃ events,
      u.log = s.log ++ events ∧ broadcastsTo c events = broadcastsTo d events) ?_ ?_ hreg hrun
    · exact ⟨⟨hsound, hrest⟩, [], (List.append_nil _).symm, rfl⟩
    · rintro v a w ⟨⟨hv, hvrest⟩, events, hlog, hsame⟩ ⟨hc, hd⟩ hstep
      have hmove := step_move hstep
      obtain ⟨more, hmore, hmade, -⟩ := move_events hv hvrest hmove
      refine ⟨move_sound hv hvrest hmove, events ++ more, ?_, ?_⟩
      · rw [hmore, hlog, List.append_assoc]
      · simp only [broadcastsTo, List.flatMap_append] at hsame ⊢
        rw [hsame]
        congr 1
        exact broadcastsTo_step hv hmade hc hd
  obtain ⟨-, events, hlog, hsame⟩ := hinv
  rw [hlog, List.drop_left]
  exact hsame

end Server

open Server

/-- **Routing and agreement.** Every call of `process_message` is for a piece of the stream of a
registered connection `c`. What it writes is the line of `c`; to every registered client once and to
nobody else, when the text does not begin with `@`; and otherwise to one client at most, which bears
the name between `@` and the first blank, and to one if there is a client of that name. Two clients
that stay registered get the same broadcasts. -/
theorem routing {old : ℕ → ClientInfo} {as : List Act} {s : Server}
    (h : run step (init old) as = some s) :
    (∀ a t c k, step s a = some t → .called c k ∈ t.log.drop s.log.length →
      (k.raw ∈ pieces limit endsString [] (t.streamOf c) ∧ k.text = cstr k.raw) ∧
      s.Registered c ∧ (∀ w ∈ k.writes, w.data = s.lineOf c k.text) ∧
      ((chomp k.text).head? ≠ some AT →
        (k.writes.map Write.conn).Nodup ∧ ∀ d, d ∈ k.writes.map Write.conn ↔ s.Registered d) ∧
      ((chomp k.text).head? = some AT → k.writes.length ≤ 1 ∧
        (SP ∉ chomp k.text → k.writes = []) ∧
        ∀ name body, SP ∉ name → chomp k.text = AT :: (name ++ SP :: body) →
          (∀ w ∈ k.writes, s.Registered w.conn ∧ s.nameOf w.conn = name) ∧
          ((∃ d, s.Registered d ∧ s.nameOf d = name) → k.writes.length = 1))) ∧
    ∀ bs u c d, run step s bs = some u →
      EveryStep step (fun t _ => t.Registered c ∧ t.Registered d) s bs →
      broadcastsTo c (u.log.drop s.log.length) = broadcastsTo d (u.log.drop s.log.length) := by
  obtain ⟨hsound, hrest⟩ := reachable_sound h
  refine ⟨fun a t c k hstep hk => ?_, fun bs u c d hrun hreg => broadcastsTo_run hsound hrest hreg hrun⟩
  have hrun : run step (init old) (as ++ [a]) = some t := run_snoc.mpr ⟨s, h, hstep⟩
  have hlogged : .called c k ∈ t.log := List.mem_of_mem_drop hk
  obtain ⟨events, hlog, hmade, -⟩ := move_events hsound hrest (step_move hstep)
  rw [hlog, List.drop_left] at hk
  -- the call is made for the client at place `i`, and writes what `process_message` writes for it
  obtain ⟨i, hi, rfl, -, hwrites⟩ := hmade c k hk
  refine ⟨⟨?_, (reachable_genuine hrun _ k hlogged).text⟩, ⟨i, hi, rfl⟩, ?_, fun hhead => ?_,
    fun hhead => ⟨?_, fun hSP => ?_, fun name body hSP htext => ?_⟩⟩
  · refine ((reachable_sound hrun).1.rawsOf_isPrefix _).subset (List.mem_map_of_mem ?_)
    refine List.mem_flatMap.mpr ⟨_, List.mem_filter.mpr ⟨hlogged, ?_⟩, List.mem_singleton_self k⟩
    simp [Event.conn]
  · rw [hwrites]
    exact processMessage_data hsound hi
  · rw [hwrites, processMessage_broadcast hsound hi hhead]
    exact broadcast_conns hsound _
  · rw [hwrites]
    exact processMessage_at_length hhead
  · rw [hwrites]
    exact processMessage_at_noBlank hhead hSP
  · rw [hwrites]
    exact processMessage_addressee hsound hSP htext

/-- `ann` leaves, and the entry of `eve` comes to her place; in the same round `bob` sends a line to
`eve`. -/
def movedAddressee : List Act :=
  threeClients ++ [.select (fun fd => fd = 4 ∨ fd = 5) none, .read [], .advance,
    .read (lit "@eve yo\n")]

/-- The call for that line. -/
def toEve : Call where
  raw := lit "@eve yo\n"
  text := lit "@eve yo\n"
  writes := [⟨2, lit "eve", lit "bob: @eve yo\n"⟩]

theorem routing_movedAddressee :
    ∃ s t, run step (init fun _ => .zero) movedAddressee = some s ∧ step s .advance = some t ∧
      t.log.drop s.log.length = [.called 1 toEve] ∧ s.Registered 1 ∧ toEve.writes.length = 1 ∧
      ∀ w ∈ toEve.writes, w.data = s.lineOf 1 toEve.text ∧ s.nameOf w.conn = lit "eve" := by
  have heval : ((run step (init fun _ => .zero) movedAddressee).bind fun s =>
      (step s .advance).map fun t => (t.log.drop s.log.length, s.numClients, s.conn 0, s.nameOf 2))
      = some ([.called 1 toEve], 2, 2, lit "eve") := by
    decide +kernel
  obtain ⟨s, hs, h⟩ := Option.bind_eq_some_iff.mp heval
  obtain ⟨t, ht, h⟩ := Option.map_eq_some_iff.mp h
  obtain ⟨hcalls, hnum, hconn, hname⟩ : t.log.drop s.log.length = _ ∧ s.numClients = _ ∧
      s.conn 0 = _ ∧ s.nameOf 2 = _ := by
    simpa only [Prod.mk.injEq] using h
  have hcalled : .called 1 toEve ∈ t.log.drop s.log.length := by
    rw [hcalls]
    exact List.mem_singleton_self _
  obtain ⟨-, hreg, hdata, -, hat⟩ := (routing hs).1 _ t 1 toEve ht hcalled
  obtain ⟨-, -, haddressee⟩ := hat (by decide)
  obtain ⟨hbears, hone⟩ := haddressee (lit "eve") (lit "yo") (by decide) (by decide)
  refine ⟨s, t, hs, ht, hcalls, hreg, hone ⟨2, ⟨0, by rw [hnum]; decide, hconn⟩, hname⟩, ?_⟩
  exact fun w hw => ⟨hdata w hw, (hbears w hw).2⟩

end StudiesOS.ChatServer
