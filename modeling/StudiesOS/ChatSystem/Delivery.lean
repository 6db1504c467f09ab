import StudiesOS.ChatSystem.System

/-! # From keyboard to screen
What a user types reaches the other screens as it was typed. On the way up the text is framed twice,
by the client and by the server, and the second framing changes nothing: every write of a client
becomes one message (`delivery`), however the network cuts what is on its way. On the way down every
screen shows the lines of one conversation, in its order (`conversation`). -/

namespace StudiesOS.ChatSystem

open ChatServer (Event Post writtenTo)
open ChatServer.Server (Sound AtRest reachable_sound reachable_genuine reachable_labelled
  reachable_posted)

variable {S T : Chat} {old : ℕ → ChatServer.ClientInfo}
  {buffers : ℕ → CharArray ChatClient.maxMsgLen} {name : ℕ → List Byte} {as : List Act}

/-! ## Reachable states -/

/-- **The channels of a reachable state** carry what was written. -/
theorem reachable_carried (h : run step (.init old buffers name) as = some S) : Carried S := by
  refine run_induction (motive := fun _ S => Carried S) (carried_init old buffers name) ?_ h
  intro as S a T hrun hcarried hstep
  obtain ⟨bs, hserver⟩ := run_server hrun
  obtain ⟨hsound, hrest⟩ := reachable_sound hserver
  obtain ⟨c, b, client, down, htake, hclient⟩ | ⟨b, server, up, htake, hstep'⟩ := step_trans hstep
  · refine hcarried.setClient ?_ htake hclient
    exact ChatServer.Server.not_mem_writtenTo (reachable_genuine hserver)
      (reachable_labelled hserver) c
  · exact hcarried.setServer hsound hrest htake hstep'

/-- What is known of the parties of a reachable state. -/
theorem reachable_parties (h : run step (.init old buffers name) as = some S) :
    (∃ bs, run ChatServer.step (.init old) bs = some S.server) ∧
      ∀ c, (S.client c).Sound (name c) := by
  refine ⟨run_server h, fun c => ?_⟩
  obtain ⟨bs, hclient⟩ := run_client c h
  exact ChatClient.Client.reachable_sound hclient

/-- **A client's writes are their own framing**: the server cuts them where the client did. -/
theorem pieces_relayed {c : ChatClient.Client} {name : List Byte} (h : c.Sound name) :
    pieces ChatServer.limit endsString [] c.relayed.flatten = c.relayed := by
  obtain ⟨rest, hframed, -⟩ := h.framed
  exact (pieces_flatten hframed.cut).1

/-- The line with the name is the name. -/
theorem chomp_nameLine (name : List Byte) : chomp (cstr (ChatClient.nameLine name)) = cstr name := by
  have hNUL : NUL ∉ cstr name ++ [LF] := by
    rw [List.mem_append, List.mem_singleton, not_or]
    exact ⟨not_mem_cstr name, by decide⟩
  unfold ChatClient.nameLine
  rw [cstr_eq_self hNUL, chomp_line]

/-! ## Upwards -/

/-- **What a client has written** is the first read, the stream and what is on its way. -/
theorem Carried.writes_eq (h : Carried S) {c : ℕ} {first : List Byte}
    (hc : .admitted c first ∈ S.server.log) :
    first ++ S.server.streamOf c ++ (S.up c).pending = (S.client c).writes.flatten := by
  rw [← h.written, ← h.read c first hc]
  rfl

/-- **A client registered by the line with its name**: what it relays is the stream and what is on its
way. -/
theorem Carried.relayed_eq (h : Carried S) {c : ℕ} (hsound : (S.client c).Sound (name c))
    (hc : .admitted c (ChatClient.nameLine (name c)) ∈ S.server.log) :
    S.server.streamOf c ++ (S.up c).pending = (S.client c).relayed.flatten := by
  have hwrites := h.writes_eq hc
  rw [hsound.named, List.flatten_cons, List.append_assoc] at hwrites
  exact List.append_cancel_left hwrites

/-- **One message for every write**: the calls for such a client are for its first writes. -/
theorem rawsOf_isPrefix_relayed (h : run step (.init old buffers name) as = some S) {c : ℕ}
    (hc : .admitted c (ChatClient.nameLine (name c)) ∈ S.server.log) :
    S.server.rawsOf c <+: (S.client c).relayed := by
  obtain ⟨⟨bs, hserver⟩, hclients⟩ := reachable_parties h
  have hstream : S.server.streamOf c <+: (S.client c).relayed.flatten :=
    ⟨_, (reachable_carried h).relayed_eq (hclients c) hc⟩
  have hpieces := ((reachable_sound hserver).1.rawsOf_isPrefix c).trans (pieces_isPrefix hstream)
  rwa [pieces_relayed (hclients c)] at hpieces

/-- **Between two rounds** a buffer holds at most one piece, which fills it. -/
theorem pieces_waiting {s : ChatServer.Server} (hsound : s.Sound) (hrest : s.AtRest)
    (hpc : s.pc = .select) (c : ℕ) :
    pieces ChatServer.limit endsString [] (s.streamOf c) = s.rawsOf c ∨
      ∃ p, pieces ChatServer.limit endsString [] (s.streamOf c) = s.rawsOf c ++ [p] ∧
        p.length = ChatServer.limit := by
  by_cases hc : ∃ i < s.numClients, s.conn i = c
  · obtain ⟨i, hi, rfl⟩ := hc
    have hserved := hsound.served i hi
    have hquiet := hrest.quiet i hi (by simp [hpc])
    have hlength := ChatServer.Server.length_content hserved.room
    rw [hserved.framed.cut]
    rcases hserved.room.lt_or_eq with hlt | hfull
    · rw [pieces_endsString_nil hquiet (hlength.trans_lt hlt), List.append_nil]
      exact Or.inl rfl
    · have hpiece := (pieces_endsString_full hquiet (by decide) (hlength.trans hfull)).1
      rw [hpiece]
      exact Or.inr ⟨_, rfl, hlength.trans hfull⟩
  · rw [hsound.gone c fun i hi heq => hc ⟨i, hi, heq⟩]
    exact Or.inl rfl

/-- **Delivery.** In every run of the chat, whatever the network does, and for every client that the
server has admitted: what the client has written is what the server has read and what is on its way,
and the calls of `process_message` are for the first pieces of what follows the first read. If that was
the line with the name, they are for the first writes of the client, one call for each, and these are
the beginning of what was typed. When nothing is on its way and the connection has ended, every write
has had its call; and between two rounds of `select` every one but perhaps the last, of 255 bytes. -/
theorem delivery (h : run step (.init old buffers name) as = some S) {c : ℕ} {first : List Byte}
    (hc : .admitted c first ∈ S.server.log) :
    first ++ S.server.streamOf c ++ (S.up c).pending = (S.client c).writes.flatten ∧
      S.server.rawsOf c <+: pieces ChatServer.limit endsString []
        ((S.client c).writes.flatten.drop first.length) ∧
      (S.client c).relayed.flatten <+: (S.client c).input ∧
      (first = ChatClient.nameLine (name c) →
        S.server.rawsOf c <+: (S.client c).relayed ∧
        ((S.up c).pending = [] → .closed c ∈ S.server.log →
          S.server.rawsOf c = (S.client c).relayed) ∧
        ((S.up c).pending = [] → S.server.pc = .select →
          (S.client c).relayed = S.server.rawsOf c ∨
            ∃ p, (S.client c).relayed = S.server.rawsOf c ++ [p] ∧
              p.length = ChatServer.maxMsgLen - 1)) := by
  obtain ⟨⟨bs, hserver⟩, hclients⟩ := reachable_parties h
  obtain ⟨hsound, hrest⟩ := reachable_sound hserver
  have hwrites := (reachable_carried h).writes_eq hc
  refine ⟨hwrites, ?_, ?_, ?_⟩
  · refine (hsound.rawsOf_isPrefix c).trans (pieces_isPrefix ?_)
    rw [← hwrites, List.append_assoc, List.drop_left]
    exact List.prefix_append _ _
  · obtain ⟨rest, hframed, -⟩ := (hclients c).framed
    exact ⟨rest, hframed.flatten⟩
  · rintro rfl
    have hrelayed := (reachable_carried h).relayed_eq (hclients c) hc
    refine ⟨rawsOf_isPrefix_relayed h hc, fun hnone hclosed => ?_, fun hnone hpc => ?_⟩
    · rw [hnone, List.append_nil] at hrelayed
      rw [hsound.gone c (hsound.closed_gone hclosed), hrelayed, pieces_relayed (hclients c)]
    · have hwaiting := pieces_waiting hsound hrest hpc c
      rw [hnone, List.append_nil] at hrelayed
      rwa [hrelayed, pieces_relayed (hclients c)] at hwaiting

/-- `ann` types a line before the server has accepted her; `bob` comes, and reads a part of what is
written to him. -/
def greeting : List Act :=
  [.client 0 (.select none true), .client 0 (.read (lit "hi\n")), .client 0 .advance,
    .client 0 .advance,
    .server (.select (fun _ => false) (some ⟨4, lit "10.0.0.1", lit "ann\n"⟩)), .server .advance,
    .server .advance,
    .server (.select (fun _ => false) (some ⟨5, lit "10.0.0.2", lit "bob\n"⟩)), .server .advance,
    .server .advance, .server .advance,
    .server (.select (fun fd => fd = 4) none), .server (.read (lit "hi\n")), .server .advance,
    .server .advance, .server .advance, .server .advance,
    .client 1 (.select (some (lit "ann: h")) false)]

/-- The names of the two. -/
def twoNames (c : ℕ) : List Byte := if c = 0 then lit "ann" else lit "bob"

/-- The chat at its start, with these names. -/
def twoClients : Chat :=
  .init (fun _ => .zero) (fun _ => .zero ChatClient.maxMsgLen) twoNames

/-- The state behind the greeting. -/
theorem run_greeting : ∃ S, run step twoClients greeting = some S ∧
    (.admitted 0 (ChatClient.nameLine (twoNames 0)) ∈ S.server.log ∧ (S.up 0).pending = [] ∧
      S.server.pc = .select) ∧
    (S.client 0).relayed = [lit "hi\n"] ∧
    (S.client 1).printed = [lit "ann: h"] ∧ (S.client 1).pc = .select := by
  have heval : ((run step twoClients greeting).map fun S =>
      (decide (.admitted 0 (ChatClient.nameLine (twoNames 0)) ∈ S.server.log ∧
        (S.up 0).pending = [] ∧ S.server.atSelect = true),
        (S.client 0).relayed, (S.client 1).printed, (S.client 1).pc))
      = some (true, [lit "hi\n"], [lit "ann: h"], .select) := by
    decide +kernel
  obtain ⟨S, hS, heq⟩ := Option.map_eq_some_iff.mp heval
  simp only [Prod.mk.injEq, decide_eq_true_eq, ChatServer.Server.atSelect_eq_true] at heq
  exact ⟨S, hS, heq⟩

theorem greeting_delivery : ∃ S, run step twoClients greeting = some S ∧
    S.server.rawsOf 0 = [lit "hi\n"] := by
  obtain ⟨S, hS, ⟨hc, hnone, hpc⟩, hrelayed, -⟩ := run_greeting
  obtain ⟨-, -, -, hnamed⟩ := delivery hS hc
  refine ⟨S, hS, ?_⟩
  rcases (hnamed rfl).2.2 hnone hpc with hall | ⟨p, hlast, hlength⟩
  · rw [← hall, hrelayed]
  · -- the line of `ann` does not fill a buffer
    rw [hrelayed] at hlast
    have hp : p ∈ [lit "hi\n"] := by
      rw [hlast]
      exact List.mem_append_right _ (List.mem_singleton_self p)
    rw [List.mem_singleton.mp hp] at hlength
    exact absurd hlength (by decide)

/-! ## Downwards -/

/-- **Conversation.** In every run of the chat: every screen shows, in front of the last text of its
client, a beginning of the lines of the conversation that were for it, each with the name of the sender
in front of the text. The messages of a client that was registered by the line with its name are the
texts of its first writes, under that name. What follows only adds to the conversation, and changes no
name. Every formatted line is taken to fit into `formatted_msg`. -/
theorem conversation (h : run step (.init old buffers name) as = some S) :
    (∀ d, ∃ screen, (S.client d).printed.flatten = screen ++ (S.client d).pc.farewell ∧
      screen <+: S.server.posts.flatMap (Post.shown S.server.nameOf d)) ∧
    (∀ c, .admitted c (ChatClient.nameLine (name c)) ∈ S.server.log →
      S.server.nameOf c = cstr (name c) ∧
      (S.server.posts.filter fun p => p.sender = c).map Post.text
        <+: (S.client c).relayed.map fun p => chomp (cstr p)) ∧
    ∀ bs T, run step S bs = some T → S.server.posts <+: T.server.posts ∧
      ∀ c first, .admitted c first ∈ S.server.log → T.server.nameOf c = S.server.nameOf c := by
  obtain ⟨⟨before, hserver⟩, hclients⟩ := reachable_parties h
  have hcarried := reachable_carried h
  have hlabelled := reachable_labelled hserver
  refine ⟨fun d => ⟨(S.down d).received, hcarried.printed d, ?_⟩, fun c hc => ⟨?_, ?_⟩, ?_⟩
  · rw [← ChatServer.Server.writtenTo_posts hlabelled (reachable_posted hserver)
      (fun _ _ _ => rfl) d, ← hcarried.sent]
    exact (S.down d).received_isPrefix
  · rw [hlabelled.named c _ hc, chomp_nameLine]
  · rw [S.server.texts_posts, ChatServer.Server.textsOf_eq (reachable_genuine hserver), List.map_map]
    exact (rawsOf_isPrefix_relayed h hc).map _
  · intro bs T hrun
    obtain ⟨hsound, hrest⟩ := reachable_sound hserver
    obtain ⟨cs, hmore⟩ := run_server hrun
    have hlog := ChatServer.Server.run_log hsound hrest hmore
    refine ⟨ChatServer.Server.posts_isPrefix hlog, fun c first hc => ?_⟩
    have hserver' : run ChatServer.step (.init old) (before ++ cs) = some T.server := by
      rw [run_append, hserver]
      exact hmore
    rw [hlabelled.named c first hc, (reachable_labelled hserver').named c first (hlog.subset hc)]

theorem greeting_conversation : ∃ S, run step twoClients greeting = some S ∧
    S.server.nameOf 0 = lit "ann" ∧ (S.client 1).printed = [lit "ann: h"] ∧
    lit "ann: h" <+: S.server.posts.flatMap (Post.shown S.server.nameOf 1) := by
  obtain ⟨S, hS, ⟨hc, -⟩, -, hprinted, hpc⟩ := run_greeting
  obtain ⟨hscreens, hmessages, -⟩ := conversation hS
  obtain ⟨screen, hscreen, hshown⟩ := hscreens 1
  refine ⟨S, hS, (hmessages 0 hc).1, hprinted, ?_⟩
  rw [hprinted, hpc, List.flatten_singleton, ChatClient.Pc.farewell, List.append_nil] at hscreen
  rw [hscreen]
  exact hshown

end StudiesOS.ChatSystem
