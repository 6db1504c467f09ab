import StudiesOS.ChatServer.Routing

/-! # Private addressing
Names are whatever the clients registered, so several clients may bear one name. A private message goes
to the first entry of the name, and a removal moves the last entry forward: so the departure of a third
client redirects a name exactly when the last entry bears it too and comes to stand before the
addressee (`Server.Overtakes`). -/

namespace StudiesOS.ChatServer

namespace Server

variable {s t : Server} {i k : ℕ} {name : List Byte}

/-- **The connection that a name resolves to.** -/
def resolve (s : Server) (name : List Byte) : Option ℕ := (s.findClientByName name).map s.conn

/-- **Addressing is stable**: no departure of a client redirects a name that resolves to another. -/
def Stable (s : Server) : Prop :=
  ∀ name c i, s.resolve name = some c → i < s.numClients → s.conn i ≠ c →
    (s.removeClient (s.clients i).socketFd).resolve name = some c

/-- **When client `i` leaves, the last entry overtakes client `k`** under the name of both. -/
def Overtakes (s : Server) (i k : ℕ) (name : List Byte) : Prop :=
  i < k ∧ k < s.numClients - 1 ∧ (s.clients (s.numClients - 1)).name.str = name

/-- A name that one client bears is not overtaken. -/
theorem not_overtakes (hone : ∀ j < s.numClients, (s.clients j).name.str = name → j = k) :
    ¬ s.Overtakes i k name := by
  rintro ⟨-, hk, hlast⟩
  have := hone (s.numClients - 1) (by omega) hlast
  omega

/-- `remove_client` without a flush. -/
theorem left_remove (h : s.Sound) (hi : i < s.numClients) :
    Left s (s.removeClient (s.clients i).socketFd) i := by
  obtain ⟨heq, hentry⟩ := removeClient_entries h hi
  refine ⟨?_, hentry, ?_, [], ?_, fun e he => absurd he List.not_mem_nil⟩
  · rw [heq]
  · rw [heq]
  · rw [heq]
    rfl

/-- The name of an entry left. -/
theorem Left.nameAt (h : Left s t i) {j : ℕ} (hj : j < s.numClients - 1) :
    (t.clients j).name.str = (s.clients (cameFrom s.numClients i j)).name.str := by
  rw [h.entry j hj]

/-- Before the hole nothing changes. -/
theorem Left.nameAt_before (h : Left s t i) {j : ℕ} (hj : j < s.numClients - 1) (hji : j ≠ i) :
    (t.clients j).name.str = (s.clients j).name.str := by
  rw [h.nameAt hj, cameFrom, if_neg hji]

/-- **The last entry overtakes the addressee**, and the name resolves to its connection. -/
theorem Left.resolve_overtaken (h : Left s t i) (hfind : s.findClientByName name = some k)
    (hover : s.Overtakes i k name) : t.resolve name = some (s.conn (s.numClients - 1)) := by
  obtain ⟨-, -, hbefore⟩ := findClientByName_eq_some.mp hfind
  obtain ⟨hik, hk, hlast⟩ := hover
  have hi : i < s.numClients - 1 := hik.trans hk
  have hfrom : cameFrom s.numClients i i = s.numClients - 1 := if_pos rfl
  have hfound : t.findClientByName name = some i := by
    refine findClientByName_eq_some.mpr ⟨h.count ▸ hi, ?_, fun j hj => ?_⟩
    · rw [h.nameAt hi, hfrom, hlast]
    · rw [h.nameAt_before (hj.trans hi) hj.ne]
      exact hbefore j (hj.trans hik)
  rw [resolve, hfound, Option.map_some, h.conn hi, hfrom]

/-- **Otherwise** the name resolves as before. -/
theorem Left.resolve_kept (h : Left s t i) (hi : i < s.numClients)
    (hfind : s.findClientByName name = some k) (hne : i ≠ k) (hover : ¬ s.Overtakes i k name) :
    t.resolve name = some (s.conn k) := by
  obtain ⟨hk, hname, hbefore⟩ := findClientByName_eq_some.mp hfind
  -- where the entry of the addressee is afterwards
  obtain ⟨j, hj, hjk⟩ := (cameFrom_spec hi).2.2 k hk hne.symm
  have hfound : t.findClientByName name = some j := by
    refine findClientByName_eq_some.mpr ⟨h.count ▸ hj, ?_, fun m hm => ?_⟩
    · rw [h.nameAt hj, hjk, hname]
    · by_cases hmi : m = i
      · -- the hole is before the addressee, who did not come from the end
        have hjk' : j = k := by
          rw [← hjk, cameFrom, if_neg (by omega)]
        subst hmi
        rw [h.nameAt (hm.trans hj), cameFrom, if_pos rfl]
        exact fun hlast => hover ⟨hjk' ▸ hm, hjk' ▸ hj, hlast⟩
      · rw [h.nameAt_before (hm.trans hj) hmi]
        refine hbefore m ?_
        rw [← hjk, cameFrom]
        split <;> omega
  rw [resolve, hfound, Option.map_some, h.conn hj, hjk]

/-- **When a departure redirects a name.** -/
theorem Left.resolve_iff (h : Left s t i) (hconns : ∀ a < s.numClients, ∀ b < s.numClients,
    s.conn a = s.conn b → a = b) (hi : i < s.numClients)
    (hfind : s.findClientByName name = some k) (hne : i ≠ k) :
    (t.resolve name = some (s.conn k) ↔ ¬ s.Overtakes i k name) ∧
      (s.Overtakes i k name → t.resolve name = some (s.conn (s.numClients - 1))) := by
  refine ⟨⟨fun hsame hover => ?_, h.resolve_kept hi hfind hne⟩, h.resolve_overtaken hfind⟩
  rw [h.resolve_overtaken hfind hover] at hsame
  have hlast := hconns _ (by omega) k (findClientByName_eq_some.mp hfind).1 (Option.some.inj hsame)
  have := hover.2.1
  omega

end Server

open Server

/-- **When private addressing is stable.** Let a name resolve to the connection of client `k`, and let
another client `i` leave. Then the name still resolves to that connection, both right after
`remove_client` and after the step of the loop that calls it, if and only if the last entry does not
overtake client `k`; and if it does, the name resolves to the last entry's connection. A name that
only one client bears is never overtaken. -/
theorem addressing {old : ℕ → ClientInfo} {as : List Act} {s : Server} {i k : ℕ} {name : List Byte}
    (h : run step (init old) as = some s) (hfind : s.findClientByName name = some k)
    (hi : i < s.numClients) (hne : s.conn i ≠ s.conn k) :
    (∀ t, t = s.removeClient (s.clients i).socketFd ∨
        (∃ readSet, s.pc = .service i readSet) ∧ step s (.read []) = some t →
      (t.resolve name = some (s.conn k) ↔ ¬ s.Overtakes i k name) ∧
      (s.Overtakes i k name → t.resolve name = some (s.conn (s.numClients - 1)))) ∧
    ((∀ j < s.numClients, (s.clients j).name.str = name → j = k) → ¬ s.Overtakes i k name) := by
  obtain ⟨hsound, hrest⟩ := reachable_sound h
  have hik : i ≠ k := fun heq => hne (by rw [heq])
  refine ⟨fun t ht => ?_, not_overtakes⟩
  rcases ht with rfl | ⟨⟨readSet, hpc⟩, hstep⟩
  · exact (left_remove hsound hi).resolve_iff hsound.conns hi hfind hik
  · simp only [step, hpc] at hstep
    split_ifs at hstep with hguard
    · cases hstep
      have hleft := left_removeClient hsound hrest hi (by simp [hpc])
      exact hleft.resolve_iff hsound.conns hi hfind hik

/-- `ann` leaves a server with `ann`, `bob` and `eve`. -/
theorem addressing_threeClients :
    ∃ s t, run step (init fun _ => .zero) threeClients = some s ∧
      t = s.removeClient (s.clients 0).socketFd ∧ s.resolve (lit "bob") = some 1 ∧
      t.resolve (lit "bob") = some 1 := by
  have heval : ((run step (init fun _ => .zero) threeClients).map fun s =>
      (s.numClients, s.conn 0, s.conn 1, s.findClientByName (lit "bob"),
        (s.clients 2).name.str)) = some (3, 0, 1, some 1, lit "eve") := by
    decide +kernel
  obtain ⟨s, hs, heq⟩ := Option.map_eq_some_iff.mp heval
  obtain ⟨hnum, hconn₀, hconn₁, hfind, hname⟩ : s.numClients = _ ∧ s.conn 0 = _ ∧ s.conn 1 = _ ∧
      s.findClientByName (lit "bob") = _ ∧ (s.clients 2).name.str = _ := by
    simpa only [Prod.mk.injEq] using heq
  have hkept := (addressing hs hfind (i := 0) (by rw [hnum]; decide)
    (by rw [hconn₀, hconn₁]; decide)).1 _ (Or.inl rfl)
  have hover : ¬ s.Overtakes 0 1 (lit "bob") := by
    rintro ⟨-, -, hlast⟩
    rw [hnum, hname] at hlast
    exact absurd hlast (by decide)
  refine ⟨s, _, hs, rfl, ?_, (hkept.1.mpr hover).trans (by rw [hconn₁])⟩
  rw [resolve, hfind, Option.map_some, hconn₁]

/-- `ann` and two clients that both say they are `bob`. -/
def twoBobs : List Act :=
  [.select (fun _ => false) (some ⟨4, lit "10.0.0.1", lit "ann\n"⟩), .advance, .advance,
    .select (fun _ => false) (some ⟨5, lit "10.0.0.2", lit "bob\n"⟩), .advance, .advance, .advance,
    .select (fun _ => false) (some ⟨6, lit "10.0.0.3", lit "bob\n"⟩), .advance, .advance, .advance,
    .advance]

/-- **The departure of `ann` redirects `bob`** to the other client of that name. -/
theorem twoBobs_not_stable :
    ∃ s, run step (init fun _ => .zero) twoBobs = some s ∧ s.resolve (lit "bob") = some 1 ∧
      (s.removeClient (s.clients 0).socketFd).Registered 1 ∧
      (s.removeClient (s.clients 0).socketFd).resolve (lit "bob") = some 2 ∧ ¬ s.Stable := by
  have heval : ((run step (init fun _ => .zero) twoBobs).map fun s =>
      (s.resolve (lit "bob"), s.numClients, s.conn 0,
        (s.removeClient (s.clients 0).socketFd).resolve (lit "bob"),
        (s.removeClient (s.clients 0).socketFd).numClients,
        (s.removeClient (s.clients 0).socketFd).conn 1)) = some (some 1, 3, 0, some 2, 2, 1) := by
    decide +kernel
  obtain ⟨s, hs, heq⟩ := Option.map_eq_some_iff.mp heval
  obtain ⟨hbob, hnum, hconn, hbob', hnum', hconn'⟩ : s.resolve (lit "bob") = _ ∧ s.numClients = _ ∧
      s.conn 0 = _ ∧ (s.removeClient (s.clients 0).socketFd).resolve (lit "bob") = _ ∧
      (s.removeClient (s.clients 0).socketFd).numClients = _ ∧
      (s.removeClient (s.clients 0).socketFd).conn 1 = _ := by
    simpa only [Prod.mk.injEq] using heq
  refine ⟨s, hs, hbob, ⟨1, by rw [hnum']; decide, hconn'⟩, hbob', fun hstable => ?_⟩
  have hsame := hstable (lit "bob") 1 0 hbob (by rw [hnum]; decide) (by rw [hconn]; decide)
  rw [hbob'] at hsame
  exact absurd hsame (by decide)

end StudiesOS.ChatServer
