import StudiesOS.Transition.Channel
import StudiesOS.ChatServer.Conversation
import StudiesOS.ChatClient.Screen

/-! # The chat
The server of `hw3server.c` with its clients of `hw3client.c`, each over a connection with one channel
in either direction. The clients are numbered in the order in which the server accepts them, those
that it never accepts behind the others, so that connection `c` is the one of client `c`.

A read returns the next bytes of its channel, as many as the network has for it, or none: the end of
the connection or an error, which may come at any time. What is written to a party that has gone stays
in the channel, and a party that is killed takes no more steps. -/

namespace StudiesOS.ChatSystem

/-- **The server and its clients.** -/
structure Chat where
  /-- The server. -/
  server : ChatServer.Server
  /-- The clients. -/
  client : ℕ → ChatClient.Client
  /-- What the clients write to the server. -/
  up : ℕ → Channel Byte
  /-- What the server writes to the clients. -/
  down : ℕ → Channel Byte

/-- **The system at the start**: the clients have written their names. Whatever is in the table of the
server and in the buffers of the clients. -/
def Chat.init (old : ℕ → ChatServer.ClientInfo) (buffers : ℕ → CharArray ChatClient.maxMsgLen)
    (name : ℕ → List Byte) : Chat where
  server := .init old
  client := fun c => .init (buffers c) (name c)
  up := fun c => Channel.empty.put (ChatClient.nameLine (name c))
  down := fun _ => .empty

/-- **The moves of the system.** -/
inductive Act
  /-- Client `c` takes a step. -/
  | client (c : ℕ) (a : ChatClient.Act)
  /-- The server takes a step. -/
  | server (a : ChatServer.Act)

namespace Chat

/-- Client `c` is in a new state, and `down` is left of its channel from the server. -/
def setClient (S : Chat) (c : ℕ) (client : ChatClient.Client) (down : Channel Byte) : Chat :=
  { S with
    client := Function.update S.client c client
    up := Function.update S.up c
      ((S.up c).put (client.writes.drop (S.client c).writes.length).flatten)
    down := Function.update S.down c down }

/-- The server is in a new state, and `up` is left of the channel that it has read. -/
def setServer (S : Chat) (c : ℕ) (server : ChatServer.Server) (up : Channel Byte) : Chat :=
  { S with
    server := server
    up := Function.update S.up c up
    down := fun d =>
      (S.down d).put (ChatServer.writtenTo d (server.log.drop S.server.log.length)) }

end Chat

/-- **One step of the system**: a party reads what is in its channel, and writes to the others. -/
def step (S : Chat) : Act → Option Chat
  | .client c a =>
      ((S.down c).take a.heard).bind fun down =>
        (ChatClient.step (S.client c) a).map fun client => S.setClient c client down
  | .server a =>
      ((S.up (S.server.source a)).take a.bytesRead).bind fun up =>
        (ChatServer.step S.server a).map fun server => S.setServer (S.server.source a) server up

/-- **The steps of the system, one by one.** -/
inductive Trans (S : Chat) : Chat → Prop
  /-- A client. -/
  | client (c : ℕ) (a : ChatClient.Act) (client : ChatClient.Client) (down : Channel Byte)
      (htake : (S.down c).take a.heard = some down)
      (hstep : ChatClient.step (S.client c) a = some client) : Trans S (S.setClient c client down)
  /-- The server. -/
  | server (a : ChatServer.Act) (server : ChatServer.Server) (up : Channel Byte)
      (htake : (S.up (S.server.source a)).take a.bytesRead = some up)
      (hstep : ChatServer.step S.server a = some server) :
      Trans S (S.setServer (S.server.source a) server up)

variable {S T : Chat} {old : ℕ → ChatServer.ClientInfo}
  {buffers : ℕ → CharArray ChatClient.maxMsgLen} {name : ℕ → List Byte}

/-- Every step is one of these. -/
theorem step_trans {a : Act} (h : step S a = some T) : Trans S T := by
  cases a with
  | client c a =>
      obtain ⟨down, htake, hmap⟩ := Option.bind_eq_some_iff.mp h
      obtain ⟨client, hstep, rfl⟩ := Option.map_eq_some_iff.mp hmap
      exact .client c a client down htake hstep
  | server a =>
      obtain ⟨up, htake, hmap⟩ := Option.bind_eq_some_iff.mp h
      obtain ⟨server, hstep, rfl⟩ := Option.map_eq_some_iff.mp hmap
      exact .server a server up htake hstep

namespace Chat

/-- Client `c` behind its step. -/
theorem setClient_self (S : Chat) (c : ℕ) (client : ChatClient.Client) (down : Channel Byte) :
    (S.setClient c client down).client c = client ∧
      (S.setClient c client down).up c
        = (S.up c).put (client.writes.drop (S.client c).writes.length).flatten ∧
      (S.setClient c client down).down c = down := by
  unfold setClient
  simp only [Function.update_self, and_self]

/-- The other clients behind a step of client `c`. -/
theorem setClient_other (S : Chat) {c d : ℕ} (hd : d ≠ c) (client : ChatClient.Client)
    (down : Channel Byte) :
    (S.setClient c client down).client d = S.client d ∧
      (S.setClient c client down).up d = S.up d ∧
      (S.setClient c client down).down d = S.down d := by
  unfold setClient
  simp only [Function.update_of_ne hd, and_self]

/-- The channel that a step of the server reads. -/
theorem setServer_self (S : Chat) (c : ℕ) (server : ChatServer.Server) (up : Channel Byte) :
    (S.setServer c server up).up c = up := by
  unfold setServer
  simp only [Function.update_self]

/-- The channels from the other clients. -/
theorem setServer_other (S : Chat) {c d : ℕ} (hd : d ≠ c) (server : ChatServer.Server)
    (up : Channel Byte) : (S.setServer c server up).up d = S.up d := by
  unfold setServer
  simp only [Function.update_of_ne hd]

end Chat

open Chat

/-! ## The parties -/

/-- **What the server does in the system is a run of the server.** -/
theorem run_server {as : List Act} (h : run step S as = some T) :
    ∃ bs, run ChatServer.step S.server bs = some T.server := by
  refine run_party Chat.server (fun S a T hstep => ?_) h
  obtain ⟨⟩ | ⟨a, server, up, -, hserver⟩ := step_trans hstep
  · exact Or.inl rfl
  · exact Or.inr ⟨a, hserver⟩

/-- **What a client does in the system is a run of the client.** -/
theorem run_client (c : ℕ) {as : List Act} (h : run step S as = some T) :
    ∃ bs, run ChatClient.step (S.client c) bs = some (T.client c) := by
  refine run_party (fun S => S.client c) (fun S a T hstep => ?_) h
  obtain ⟨d, a, client, down, -, hclient⟩ | ⟨⟩ := step_trans hstep
  · by_cases hd : c = d
    · subst hd
      refine Or.inr ⟨a, ?_⟩
      rw [(S.setClient_self c client down).1, hclient]
    · exact Or.inl (S.setClient_other hd client down).1
  · exact Or.inl rfl

/-! ## The channels -/

/-- **The channels in every state**: what has been put into them and what has been taken out of them,
as the parties see it. -/
structure Carried (S : Chat) : Prop where
  /-- What a client has written. -/
  written : ∀ c, (S.up c).sent = (S.client c).writes.flatten
  /-- What the server has read from a client that it has admitted. -/
  read : ∀ c first, .admitted c first ∈ S.server.log →
    (S.up c).received = first ++ S.server.streamOf c
  /-- A client that has not been accepted has not been read. -/
  waiting : ∀ c, S.server.accepted ≤ c → (S.up c).received = []
  /-- What the server has written. -/
  sent : ∀ c, (S.down c).sent = ChatServer.writtenTo c S.server.log
  /-- What a client has read, it has printed. -/
  printed : ∀ c, (S.client c).printed.flatten = (S.down c).received ++ (S.client c).pc.farewell

/-- At the start. -/
theorem carried_init (old : ℕ → ChatServer.ClientInfo)
    (buffers : ℕ → CharArray ChatClient.maxMsgLen) (name : ℕ → List Byte) :
    Carried (.init old buffers name) := by
  refine ⟨fun c => ?_, fun c first hc => absurd hc List.not_mem_nil, fun c _ => rfl, fun c => rfl,
    fun c => rfl⟩
  exact (List.flatten_singleton).symm

/-- **A step of a client** keeps the channels, if there is no NUL in what it reads. -/
theorem Carried.setClient {c : ℕ} {a : ChatClient.Act} {client : ChatClient.Client}
    {down : Channel Byte} (h : Carried S) (hNUL : NUL ∉ ChatServer.writtenTo c S.server.log)
    (htake : (S.down c).take a.heard = some down)
    (hstep : ChatClient.step (S.client c) a = some client) : Carried (S.setClient c client down) := by
  obtain ⟨hreceived, hsent⟩ := Channel.take_eq_some htake
  obtain ⟨hclient, hup, hdown⟩ := S.setClient_self c client down
  have hheard : NUL ∉ a.heard := by
    intro hmem
    refine hNUL ?_
    rw [← h.sent c, ← hsent]
    refine down.received_isPrefix.subset ?_
    rw [hreceived]
    exact List.mem_append_right _ hmem
  obtain ⟨hlive, hprinted⟩ := ChatClient.Client.step_printed hstep hheard
  obtain ⟨more, hwrites⟩ := ChatClient.Client.writes_isPrefix (ChatClient.step_move hstep)
  constructor
  · intro d
    by_cases hd : d = c
    · subst hd
      rw [hclient, hup, Channel.sent_put, h.written, ← hwrites, List.drop_left, List.flatten_append]
    · obtain ⟨hclient', hup', -⟩ := S.setClient_other hd client down
      rw [hclient', hup', h.written]
  · intro d first hfirst
    refine Eq.trans ?_ (h.read d first hfirst)
    by_cases hd : d = c
    · subst hd
      rw [hup, Channel.received_put]
    · rw [(S.setClient_other hd client down).2.1]
  · intro d hwait
    refine Eq.trans ?_ (h.waiting d hwait)
    by_cases hd : d = c
    · subst hd
      rw [hup, Channel.received_put]
    · rw [(S.setClient_other hd client down).2.1]
  · intro d
    by_cases hd : d = c
    · subst hd
      rw [hdown, hsent]
      exact h.sent d
    · rw [(S.setClient_other hd client down).2.2]
      exact h.sent d
  · intro d
    by_cases hd : d = c
    · subst hd
      rw [hclient, hdown, hreceived, hprinted, h.printed, hlive, List.append_nil]
    · obtain ⟨hclient', -, hdown'⟩ := S.setClient_other hd client down
      rw [hclient', hdown', h.printed]

/-- **A step of the server** keeps the channels. -/
theorem Carried.setServer {a : ChatServer.Act} {server : ChatServer.Server} {up : Channel Byte}
    (h : Carried S) (hsound : S.server.Sound) (hrest : S.server.AtRest)
    (htake : (S.up (S.server.source a)).take a.bytesRead = some up)
    (hstep : ChatServer.step S.server a = some server) :
    Carried (S.setServer (S.server.source a) server up) := by
  obtain ⟨hreceived, hsent⟩ := Channel.take_eq_some htake
  obtain ⟨events, hlog, -, -⟩ :=
    ChatServer.Server.move_events hsound hrest (ChatServer.step_move hstep)
  have hself := S.setServer_self (S.server.source a) server up
  constructor
  · intro d
    show ((S.setServer _ server up).up d).sent = (S.client d).writes.flatten
    rw [← h.written]
    by_cases hd : d = S.server.source a
    · rw [hd, hself, hsent]
    · rw [S.setServer_other hd]
  · intro d first hfirst
    show _ = first ++ server.streamOf d
    rcases ChatServer.Server.step_admitted hsound hrest hstep hfirst with hold | hnew
    · rw [ChatServer.Server.step_stream hsound hrest hstep, ← List.append_assoc,
        ← h.read d first hold]
      by_cases hd : d = S.server.source a
      · rw [if_pos hd.symm, hd, hself, hreceived,
          ChatServer.Server.bytesRead_eq (hd ▸ hsound.accepted hold)]
      · rw [S.setServer_other hd, if_neg (Ne.symm hd), List.append_nil]
    · obtain ⟨rfl, hsource, hbytes, hstream⟩ := hnew
      have hwait := h.waiting _ le_rfl
      rw [hstream, List.append_nil]
      rw [← hsource] at hwait ⊢
      rw [hself, hreceived, hbytes, hwait, List.nil_append]
  · intro d hwait
    have hle := ChatServer.Server.accepted_le (ChatServer.step_move hstep)
    have hwait : server.accepted ≤ d := hwait
    by_cases hd : d = S.server.source a
    · rw [hd, hself, hreceived, h.waiting _ (hd ▸ hle.trans hwait), List.nil_append]
      by_contra hread
      have hlt := ChatServer.Server.source_lt hsound hstep hread
      omega
    · rw [S.setServer_other hd]
      exact h.waiting d (hle.trans hwait)
  · intro d
    show ((S.down d).put _).sent = ChatServer.writtenTo d server.log
    rw [Channel.sent_put, h.sent, hlog, List.drop_left, ← ChatServer.writtenTo_append]
  · exact h.printed

end StudiesOS.ChatSystem
