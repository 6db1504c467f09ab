import StudiesOS.ChatServer.Traffic

/-! # The conversation
The log read as a conversation: who said what, and to whom it was written (`Server.posts`). The
messages of a connection are the texts of its calls, and what is written to a connection are the lines
of the messages it is a reader of, in the order of the conversation. -/

namespace StudiesOS.ChatServer

/-- **A message of the conversation.** -/
structure Post where
  /-- The connection it comes from. -/
  sender : ℕ
  /-- Its text. -/
  text : List Byte
  /-- The connections it was written to. -/
  readers : List ℕ
deriving DecidableEq, Repr

/-- The message of an event. -/
def Event.posts : Event → List Post
  | .called c k => [⟨c, chomp k.text, k.writes.map Write.conn⟩]
  | .admitted _ _ | .received _ _ | .closed _ => []

/-- **What reader `d` gets to see of a message**, with the names of the senders. -/
def Post.shown (name : ℕ → List Byte) (d : ℕ) (p : Post) : List Byte :=
  if d ∈ p.readers then name p.sender ++ lit ": " ++ p.text ++ [LF] else []

/-- Writes of one text to different connections, as one of them sees them. -/
theorem flatMap_data {ws : List Write} {line : List Byte} {d : ℕ} (hdata : ∀ w ∈ ws, w.data = line)
    (hnodup : (ws.map Write.conn).Nodup) :
    (ws.filter fun w => w.conn = d).flatMap Write.data
      = if d ∈ ws.map Write.conn then line else [] := by
  induction ws with
  | nil => rfl
  | cons w ws ih =>
      rw [List.map_cons, List.nodup_cons] at hnodup
      have ih := ih (fun v hv => hdata v (List.mem_cons_of_mem w hv)) hnodup.2
      by_cases hd : w.conn = d
      · have hout : d ∉ ws.map Write.conn := hd ▸ hnodup.1
        rw [if_neg hout] at ih
        rw [List.filter_cons_of_pos (by simpa using hd), List.flatMap_cons, ih, List.append_nil,
          hdata w List.mem_cons_self, if_pos]
        rw [List.map_cons, hd]
        exact List.mem_cons_self
      · have hiff : d ∈ (w :: ws).map Write.conn ↔ d ∈ ws.map Write.conn := by
          rw [List.map_cons, List.mem_cons]
          exact or_iff_right fun heq => hd heq.symm
        rw [List.filter_cons_of_neg (by simpa using hd), ih]
        simp only [hiff]

namespace Server

variable {s t : Server} {c d i : ℕ}

/-- **The conversation.** -/
def posts (s : Server) : List Post := s.log.flatMap Event.posts

/-- **The conversation only grows.** -/
theorem posts_isPrefix (h : s.log <+: t.log) : s.posts <+: t.posts := by
  obtain ⟨events, hlog⟩ := h
  refine ⟨events.flatMap Event.posts, ?_⟩
  unfold posts
  rw [← hlog, List.flatMap_append]

/-- **The messages of a connection** are the texts of its calls. -/
theorem texts_posts (s : Server) (c : ℕ) :
    (s.posts.filter fun p => p.sender = c).map Post.text = (s.textsOf c).map chomp := by
  unfold posts textsOf callsOf eventsOf
  induction s.log with
  | nil => rfl
  | cons e events ih =>
      rw [List.flatMap_cons, List.filter_append, List.map_append, ih]
      by_cases hc : e.conn = c
      · rw [List.filter_cons_of_pos (by simpa using hc), List.flatMap_cons, List.map_append,
          List.map_append]
        congr 1
        cases e with
        | called d k =>
            obtain rfl : d = c := hc
            simp [Event.posts, Event.calls]
        | admitted | received | closed => rfl
      · rw [List.filter_cons_of_neg (by simpa using hc)]
        cases e with
        | called d k =>
            have hdc : d ≠ c := hc
            simp [Event.posts, hdc]
        | admitted | received | closed => rfl

/-! ## Who is written to -/

/-- **The calls of the log**: they are for admitted connections, and write to a connection once at
most, and only to admitted ones. -/
structure Posted (s : Server) : Prop where
  /-- The senders. -/
  sender : ∀ c k, .called c k ∈ s.log → ∃ first, .admitted c first ∈ s.log
  /-- The readers are different. -/
  once : ∀ c k, .called c k ∈ s.log → (k.writes.map Write.conn).Nodup
  /-- The readers. -/
  reader : ∀ c k, .called c k ∈ s.log → ∀ w ∈ k.writes, ∃ first, .admitted w.conn first ∈ s.log

/-- What `process_message` writes goes to registered clients, once to each. -/
theorem processMessage_conns (h : s.Sound) (hi : i < s.numClients) (text : List Byte) :
    ((s.processMessage i text).map Write.conn).Nodup ∧
      ∀ w ∈ s.processMessage i text, s.Registered w.conn := by
  by_cases hhead : (chomp text).head? = some AT
  · constructor
    · have hlength := processMessage_at_length (s := s) (i := i) hhead
      match hwrites : s.processMessage i text with
      | [] => exact List.nodup_nil
      | [w] => exact List.nodup_singleton _
      | v :: w :: ws =>
          rw [hwrites] at hlength
          simp at hlength
    · intro w hw
      simp only [processMessage, if_pos hhead] at hw
      split at hw
      · cases hw
      · split at hw
        · cases hw
        · rename_i target hfind
          rw [List.mem_singleton.mp hw]
          exact ⟨target, (findClientByName_eq_some.mp hfind).1, rfl⟩
  · rw [processMessage_broadcast h hi hhead]
    obtain ⟨hnodup, hconns⟩ := broadcast_conns h (s.lineOf (s.conn i) text)
    exact ⟨hnodup, fun w hw => (hconns w.conn).mp (List.mem_map_of_mem hw)⟩

/-- **Every move keeps that.** -/
theorem move_posted (hsound : s.Sound) (hrest : s.AtRest) (h : s.Posted) (hmove : Move s t) :
    t.Posted := by
  obtain ⟨events, hlog, hmade, -⟩ := move_events hsound hrest hmove
  have hold : ∀ e ∈ s.log, e ∈ t.log := fun e he => hlog ▸ List.mem_append_left events he
  have hregistered : ∀ c, s.Registered c → ∃ first, .admitted c first ∈ t.log := by
    rintro c ⟨i, hi, rfl⟩
    obtain ⟨first, hfirst, -⟩ := hsound.admitted hi
    exact ⟨first, hold _ hfirst⟩
  -- a call is in the log already, or made in the state before
  have hcases : ∀ c k, .called c k ∈ t.log → .called c k ∈ s.log ∨ s.Made c k := by
    intro c k hk
    rw [hlog, List.mem_append] at hk
    exact hk.imp_right (hmade c k)
  constructor
  · intro c k hk
    rcases hcases c k hk with hk | ⟨i, hi, rfl, -, -⟩
    · obtain ⟨first, hfirst⟩ := h.sender c k hk
      exact ⟨first, hold _ hfirst⟩
    · exact hregistered _ ⟨i, hi, rfl⟩
  · intro c k hk
    rcases hcases c k hk with hk | ⟨i, hi, -, -, hwrites⟩
    · exact h.once c k hk
    · rw [hwrites]
      exact (processMessage_conns hsound hi k.text).1
  · intro c k hk w hw
    rcases hcases c k hk with hk | ⟨i, hi, -, -, hwrites⟩
    · obtain ⟨first, hfirst⟩ := h.reader c k hk w hw
      exact ⟨first, hold _ hfirst⟩
    · rw [hwrites] at hw
      exact hregistered _ ((processMessage_conns hsound hi k.text).2 w hw)

/-- **It holds in every reachable state.** -/
theorem reachable_posted {old : ℕ → ClientInfo} {as : List Act}
    (h : run step (init old) as = some s) : s.Posted := by
  refine (run_invariant (I := fun s => (s.Sound ∧ s.AtRest) ∧ s.Posted) ⟨?_, ?_⟩
    (fun s a s' hI hstep => ?_) h).2
  · exact reachable_sound (run_nil (init old))
  · exact ⟨fun c k hk => absurd hk List.not_mem_nil, fun c k hk => absurd hk List.not_mem_nil,
      fun c k hk => absurd hk List.not_mem_nil⟩
  · have hmove := step_move hstep
    exact ⟨move_sound hI.1.1 hI.1.2 hmove, move_posted hI.1.1 hI.1.2 hI.2 hmove⟩

/-- **What is written to a connection** are the lines of the messages it is a reader of. -/
theorem writtenTo_posts {name : ℕ → List Byte} (hlabelled : s.Labelled) (hposted : s.Posted)
    (hname : ∀ c first, .admitted c first ∈ s.log → s.nameOf c = name c) (d : ℕ) :
    writtenTo d s.log = s.posts.flatMap (Post.shown name d) := by
  have hevent : ∀ e ∈ s.log, writtenTo d [e] = e.posts.flatMap (Post.shown name d) := by
    intro e he
    cases e with
    | called c k =>
        obtain ⟨first, hfirst⟩ := hposted.sender c k he
        have hdata : ∀ w ∈ k.writes, w.data = name c ++ lit ": " ++ chomp k.text ++ [LF] := by
          intro w hw
          rw [(hlabelled.written c k he).2 w hw, lineOf, hname c first hfirst]
        simp only [writtenTo, Event.calls, Event.posts, List.flatMap_singleton, Post.shown]
        exact flatMap_data hdata (hposted.once c k he)
    | admitted | received | closed => rfl
  unfold posts
  generalize s.log = log at hevent
  induction log with
  | nil => rfl
  | cons e events ih =>
      rw [List.flatMap_cons, List.flatMap_append, ← ih fun e' he' => hevent e'
        (List.mem_cons_of_mem e he'), ← hevent e List.mem_cons_self, ← writtenTo_append]
      rfl

end Server

end StudiesOS.ChatServer
