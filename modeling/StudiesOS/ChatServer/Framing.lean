import StudiesOS.ChatServer.Table

/-! # Framing
The calls of `process_message` for a connection are a function of its byte stream: they are the
pieces of the stream (`framing_segmentation`), however the network cut it into reads, whatever was in
the table before, and whatever the other clients did meanwhile. -/

namespace StudiesOS.ChatServer

/-! ## Calls are genuine -/

/-- **A call as the loop makes it**: the text is the string at the start of the bytes consumed, and
the writes are those of `process_message` in some state. -/
structure Call.Genuine (k : Call) : Prop where
  /-- The text. -/
  text : k.text = cstr k.raw
  /-- The writes. -/
  writes : ∃ (t : Server) (i : ℕ), k.writes = t.processMessage i k.text

namespace Server

variable {s s' : Server}

/-- Every call in the log is genuine. -/
def Genuine (s : Server) : Prop := ∀ c k, .called c k ∈ s.log → k.Genuine

/-- More events keep the log genuine if their calls are. -/
theorem Genuine.append {events : List Event} (h : s.Genuine) (hlog : s'.log = s.log ++ events)
    (hevents : ∀ c k, .called c k ∈ events → k.Genuine) : s'.Genuine := by
  intro c k hk
  rw [hlog, List.mem_append] at hk
  exact hk.elim (h c k) (hevents c k)

/-- The call of a flush is genuine. -/
theorem Genuine.flush {i : ℕ} (h : s.Genuine) (hroom : (s.clients i).bufLen ≤ limit) :
    (s.flush i).Genuine := by
  have hlt : (s.clients i).bufLen < maxMsgLen := Nat.lt_succ_of_le hroom
  rw [Server.flush]
  split
  · refine h.append rfl fun c k hk => ?_
    obtain ⟨-, rfl⟩ := Event.called.inj (List.mem_singleton.mp hk)
    exact ⟨CharArray.str_terminate _ hlt, s, i, rfl⟩
  · exact h

/-- The call for a line is genuine. -/
theorem Genuine.extractLine (h : s.Genuine) (i msgLen : ℕ) : (s.extractLine i msgLen).Genuine := by
  refine h.append rfl fun c k hk => ?_
  obtain ⟨-, rfl⟩ := Event.called.inj (List.mem_singleton.mp hk)
  exact ⟨rfl, s, i, rfl⟩

/-- Entering and leaving the table makes no calls. -/
theorem Genuine.acceptClient (h : s.Genuine) (a : Incoming) : (s.acceptClient a).Genuine := by
  rw [Server.acceptClient]
  split
  · exact h.append rfl fun c k hk => by simp at hk
  · exact h

/-- Leaving the table makes no call. -/
theorem Genuine.removeClient (h : s.Genuine) (fd : ℕ) : (s.removeClient fd).Genuine := by
  rw [Server.removeClient]
  split
  · exact h
  · exact h.append rfl fun c k hk => by simp at hk

/-- **Every move makes genuine calls only.** -/
theorem move_genuine (hsound : s.Sound) (h : s.Genuine) (hmove : Move s s') : s'.Genuine := by
  cases hmove with
  | round | next | done | noLine => exact h
  | accept ready a hpc ha => exact h.acceptClient a
  | leave i readSet hpc hi => exact (h.flush (hsound.served i hi).room).removeClient _
  | read i readSet data hpc hi hdata =>
      exact (h.flush (hsound.served i hi).room).append rfl fun c k hk => by simp at hk
  | line i readSet u v hpc hline hu => exact h.extractLine i _

/-- **Every call in the log of a reachable state is genuine.** -/
theorem reachable_genuine {old : ℕ → ClientInfo} {as : List Act}
    (h : run step (init old) as = some s) : s.Genuine := by
  refine (run_invariant (I := fun s => (s.Sound ∧ s.AtRest) ∧ s.Genuine) ⟨?_, ?_⟩
    (fun s a s' hI hstep => ?_) h).2
  · exact reachable_sound (run_nil (init old))
  · exact fun c k hk => absurd hk List.not_mem_nil
  · have hmove := step_move hstep
    exact ⟨move_sound hI.1.1 hI.1.2 hmove, move_genuine hI.1.1 hI.2 hmove⟩

/-- **The texts with which `process_message` is called for connection `c`.** -/
def textsOf (s : Server) (c : ℕ) : List (List Byte) := (s.callsOf c).map Call.text

/-- The calls of a connection are in the log. -/
theorem mem_callsOf {c : ℕ} {k : Call} (hk : k ∈ s.callsOf c) : .called c k ∈ s.log := by
  obtain ⟨e, he, hke⟩ := List.mem_flatMap.mp hk
  obtain ⟨hlog, hc⟩ := List.mem_filter.mp he
  cases e with
  | called c' k' =>
      obtain rfl := List.mem_singleton.mp hke
      obtain rfl : c' = c := of_decide_eq_true hc
      exact hlog
  | admitted | received | closed => exact absurd hke List.not_mem_nil

/-- The texts are the strings at the start of the pieces. -/
theorem textsOf_eq (h : s.Genuine) (c : ℕ) : s.textsOf c = (s.rawsOf c).map cstr := by
  rw [textsOf, rawsOf, List.map_map]
  exact List.map_congr_left fun k hk => (h c k (mem_callsOf hk)).text

/-- The calls made so far consume the first pieces of the stream. -/
theorem Sound.rawsOf_isPrefix (h : s.Sound) (c : ℕ) :
    s.rawsOf c <+: pieces limit endsString [] (s.streamOf c) := by
  by_cases hc : ∃ i < s.numClients, s.conn i = c
  · obtain ⟨i, hi, rfl⟩ := hc
    exact ⟨_, (h.served i hi).framed.cut.symm⟩
  · have hgone := h.gone c fun i hi heq => hc ⟨i, hi, heq⟩
    exact ⟨[], by rw [hgone, List.append_nil]⟩

/-- A connection that has ended has left the table. -/
theorem Sound.closed_gone (h : s.Sound) {c : ℕ} (hclosed : .closed c ∈ s.log) :
    ∀ i < s.numClients, s.conn i ≠ c := by
  rintro i hi rfl
  refine (h.served i hi).alive (List.mem_filter.mpr ⟨hclosed, ?_⟩)
  simp [Event.conn]

end Server

open Server

/-- **Framing does not depend on segmentation.** When a connection has ended, the texts with which
`process_message` was called for it are the strings of the pieces of its stream; so they are the same
in every other run in which some connection sends the same stream and ends, and for a stream without
NULs they are its greedy split at newlines and after 255 bytes. -/
theorem framing_segmentation {old : ℕ → ClientInfo} {as : List Act} {s : Server} {c : ℕ}
    (h : run step (init old) as = some s) (hclosed : .closed c ∈ s.log) :
    (∀ (old' : ℕ → ClientInfo) (bs : List Act) (t : Server) (d : ℕ),
      run step (init old') bs = some t → .closed d ∈ t.log → t.streamOf d = s.streamOf c →
      t.textsOf d = s.textsOf c) ∧
    (NUL ∉ s.streamOf c → GreedySplit 255 (s.streamOf c) (s.textsOf c)) := by
  have htexts : ∀ (old : ℕ → ClientInfo) (as : List Act) (s : Server) (c : ℕ),
      run step (init old) as = some s → .closed c ∈ s.log →
      s.textsOf c = (pieces limit endsString [] (s.streamOf c)).map cstr := by
    intro old as s c h hclosed
    have hsound := (reachable_sound h).1
    rw [textsOf_eq (reachable_genuine h), hsound.gone c (hsound.closed_gone hclosed)]
  refine ⟨fun old' bs t d ht htd hstream => ?_, fun hNUL => ?_⟩
  · rw [htexts old' bs t d ht htd, htexts old as s c h hclosed, hstream]
  · have hsplit := greedySplit_pieces (show 0 < limit by decide) (s.streamOf c)
    have hpiece : ∀ p ∈ pieces limit endsLine [] (s.streamOf c), cstr p = p := by
      intro p hp
      obtain ⟨rest, hrest, -, -⟩ := hsplit.cover
      refine cstr_eq_self fun hmem => hNUL ?_
      rw [hrest]
      exact List.mem_append_left rest (List.mem_flatten_of_mem hp hmem)
    rw [htexts old as s c h hclosed, pieces_endsString_eq List.not_mem_nil hNUL,
      List.map_congr_left hpiece, List.map_id']
    exact hsplit

/-- A client that sends two lines, the second one in two reads and unfinished, and leaves. -/
def twoReads : List Act :=
  [.select (fun _ => false) (some ⟨4, lit "10.0.0.1", lit "ann\n"⟩), .advance, .advance,
    .select (fun _ => true) none, .read (lit "hi\nyo"), .advance, .advance, .advance,
    .select (fun _ => true) none, .read (lit "u\nmore"), .advance, .advance, .advance,
    .select (fun _ => true) none, .read []]

theorem twoReads_segmentation :
    ∃ s, run step (init fun _ => .zero) twoReads = some s ∧
      s.textsOf 0 = [lit "hi\n", lit "you\n"] ∧
      GreedySplit 255 (lit "hi\nyou\nmore") (s.textsOf 0) := by
  have heval : ((run step (init fun _ => .zero) twoReads).map fun s => s.log) = some
      [.admitted 0 (lit "ann\n"), .received 0 (lit "hi\nyo"),
        .called 0 ⟨lit "hi\n", lit "hi\n", [⟨0, lit "ann", lit "ann: hi\n"⟩]⟩,
        .received 0 (lit "u\nmore"),
        .called 0 ⟨lit "you\n", lit "you\n", [⟨0, lit "ann", lit "ann: you\n"⟩]⟩, .closed 0] := by
    decide +kernel
  obtain ⟨s, hs, hlog⟩ := Option.map_eq_some_iff.mp heval
  have htexts : s.textsOf 0 = [lit "hi\n", lit "you\n"] := by
    rw [textsOf, callsOf, eventsOf, hlog]
    decide +kernel
  have hstream : s.streamOf 0 = lit "hi\nyou\nmore" := by
    rw [streamOf, eventsOf, hlog]
    decide +kernel
  have hsplit := (framing_segmentation hs (c := 0) (by rw [hlog]; decide)).2
  rw [hstream] at hsplit
  exact ⟨s, hs, htexts, hsplit (by decide)⟩

end StudiesOS.ChatServer
