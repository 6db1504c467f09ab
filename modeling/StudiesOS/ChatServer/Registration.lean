import StudiesOS.ChatServer.Framing

/-! # Registration
The name of a client is its first read, whatever that contains: the registration is not framed. It
comes out as if it were exactly when the first read is the line with the name. -/

namespace StudiesOS.ChatServer

open Server

/-- **Connection `c` is registered as framing demands**, for a client that sends `name` and a newline
and then `further`, of which `unread` has not been read yet: its entry bears the name, and what is
handed to the framing of messages is what follows the newline. -/
structure RegisteredAs (s : Server) (c : ℕ) (name further unread : List Byte) : Prop where
  /-- The name. -/
  name : ∀ i < s.numClients, s.conn i = c → (s.clients i).name.str = name
  /-- The bytes of the messages. -/
  messages : s.streamOf c ++ unread = further

/-- The entry of a connection bears the name of its first read. -/
theorem Server.Sound.name_eq {s : Server} (h : s.Sound) {c i : ℕ} {first : List Byte}
    (hfirst : .admitted c first ∈ s.log) (hi : i < s.numClients) (hc : s.conn i = c) :
    (s.clients i).name.str = chomp (cstr first) := by
  subst hc
  obtain ⟨first', hfirsts, hname⟩ := (h.served i hi).named
  have hmem : first ∈ s.firstsOf (s.conn i) := by
    refine List.mem_flatMap.mpr ⟨_, List.mem_filter.mpr ⟨hfirst, ?_⟩, List.mem_singleton_self first⟩
    simp [Event.conn]
  rw [hfirsts, List.mem_singleton] at hmem
  rw [hname, hmem]

/-- **Registration is framed exactly when the first read returns the line with the name**: for every
client that sends `name`, a newline and `further`, in whatever reads, with `first` the first one. -/
theorem registration_iff {old : ℕ → ClientInfo} {as : List Act} {s : Server} {c : ℕ}
    {first name further unread : List Byte} (h : run step (init old) as = some s)
    (hfirst : .admitted c first ∈ s.log) (hname : NUL ∉ name)
    (hsent : first ++ (s.streamOf c ++ unread) = name ++ LF :: further) :
    RegisteredAs s c name further unread ↔ first = name ++ [LF] := by
  have hsent' : first ++ (s.streamOf c ++ unread) = (name ++ [LF]) ++ further := by
    rw [hsent, List.append_assoc, List.singleton_append]
  constructor
  · rintro ⟨-, hmessages⟩
    rw [hmessages] at hsent'
    exact List.append_cancel_right hsent'
  · intro heq
    constructor
    · intro i hi hc
      have hNUL : NUL ∉ name ++ [LF] := by
        rw [List.mem_append, List.mem_singleton, not_or]
        exact ⟨hname, by decide⟩
      rw [(reachable_sound h).1.name_eq hfirst hi hc, heq, cstr_eq_self hNUL, chomp_line]
    · rw [heq] at hsent'
      exact List.append_cancel_left hsent'

/-- A client whose name and first line arrive in one read. -/
def coalesced : List Act :=
  [.select (fun _ => false) (some ⟨4, lit "10.0.0.1", lit "bob\nhi\n"⟩)]

/-- One whose name arrives alone, and whose line is read in the next round. -/
def apart : List Act :=
  [.select (fun _ => false) (some ⟨4, lit "10.0.0.1", lit "bob\n"⟩), .advance, .advance,
    .select (fun fd => fd = 4) none, .read (lit "hi\n"), .advance, .advance]

theorem apart_registered :
    ∃ s, run step (init fun _ => .zero) apart = some s ∧ s.streamOf 0 = lit "hi\n" ∧
      RegisteredAs s 0 (lit "bob") (lit "hi\n") [] := by
  have heval : ((run step (init fun _ => .zero) apart).map fun s =>
      (decide (.admitted 0 (lit "bob\n") ∈ s.log), s.streamOf 0)) = some (true, lit "hi\n") := by
    decide +kernel
  obtain ⟨s, hs, heq⟩ := Option.map_eq_some_iff.mp heval
  obtain ⟨hfirst, hstream⟩ := Prod.mk.inj heq
  have hfirst : .admitted 0 (lit "bob\n") ∈ s.log := of_decide_eq_true hfirst
  exact ⟨s, hs, hstream,
    (registration_iff hs hfirst (by decide) (by rw [hstream]; decide)).mpr (by decide)⟩

/-- **The line behind the name is absorbed into the name**, when both arrive in the first read. -/
theorem coalesced_not_registered :
    ∃ s, run step (init fun _ => .zero) coalesced = some s ∧
      lit "bob\nhi\n" ++ (s.streamOf 0 ++ []) = lit "bob" ++ LF :: lit "hi\n" ∧
      .admitted 0 (lit "bob\nhi\n") ∈ s.log ∧ s.numClients = 1 ∧ s.conn 0 = 0 ∧
      (s.clients 0).name.str = lit "bob\nhi" ∧
      ¬ RegisteredAs s 0 (lit "bob") (lit "hi\n") [] := by
  have heval : ((run step (init fun _ => .zero) coalesced).map fun s =>
      (s.log, s.numClients, s.conn 0, (s.clients 0).name.str)) = some
      ([.admitted 0 (lit "bob\nhi\n")], 1, 0, lit "bob\nhi") := by
    decide +kernel
  obtain ⟨s, hs, heq⟩ := Option.map_eq_some_iff.mp heval
  obtain ⟨hlog, hnum, hconn, hname⟩ : s.log = _ ∧ s.numClients = _ ∧ s.conn 0 = _ ∧
      (s.clients 0).name.str = _ := by
    simpa only [Prod.mk.injEq] using heq
  have hstream : s.streamOf 0 = [] := by
    rw [streamOf, eventsOf, hlog]
    decide
  refine ⟨s, hs, by rw [hstream]; decide, ?_, hnum, hconn, hname, fun hreg => ?_⟩
  · rw [hlog]
    exact List.mem_singleton_self _
  · have hbob := hreg.name 0 (by rw [hnum]; decide) hconn
    rw [hname] at hbob
    exact absurd hbob (by decide)

end StudiesOS.ChatServer
