import StudiesOS.ChatClient.Client
import StudiesOS.CText.Framing

/-! # The relay of standard input
The buffer of the client is emptied by two rules, line by line and when it is full. What it has
written and what it holds back are always what the framing of its input demands (`Client.Sound`), so
together they are the input (`relay`). -/

namespace StudiesOS.ChatClient

/-- The room for text in the buffer, in front of the terminator. -/
def limit : ℕ := maxMsgLen - 1

namespace Client

/-- **What has been written behind the line with the name.** -/
def relayed (c : Client) : List (List Byte) := c.writes.tail

/-- **The client in every state.** -/
structure Sound (name : List Byte) (c : Client) : Prop where
  /-- The line with the name has been written first. -/
  named : c.writes = nameLine name :: c.relayed
  /-- There is room for a terminator. -/
  room : c.inputLen ≤ limit
  /-- What has been written and what is held back are what the framing of the input demands. The
  exit branch leaves the line that it has written in the buffer. -/
  framed : ∃ rest, Framed limit endsString c.input c.relayed rest ∧
    (c.pc ≠ .ended .exit → rest = c.content)
  /-- Outside of the loop there is room for more, and no line is in the buffer. -/
  quiet : c.pc ≠ .extract → c.pc ≠ .ended .exit → c.inputLen < limit ∧ LF ∉ cstr c.content
  /-- In the loop the buffer is terminated. -/
  inside : c.pc = .extract → c.inputBuffer.str = cstr c.content

variable {name : List Byte} {c c' : Client}

/-- The content has `input_len` bytes. -/
theorem Sound.length_content (h : c.Sound name) : c.content.length = c.inputLen :=
  c.inputBuffer.length_take (h.room.trans (Nat.sub_le _ _))

/-- A state that is not that of the exit branch is framed by its content. -/
theorem Sound.framed_content (h : c.Sound name) (hpc : c.pc ≠ .ended .exit) :
    Framed limit endsString c.input c.relayed c.content := by
  obtain ⟨rest, hframed, hrest⟩ := h.framed
  exact hrest hpc ▸ hframed

/-- **A write** is added to those behind the line with the name. -/
theorem Sound.send (h : c.Sound name) (n : ℕ) :
    (c.send n).writes = nameLine name :: (c.send n).relayed ∧
      (c.send n).relayed = c.relayed ++ [c.inputBuffer.mem.take n] := by
  have hwrites : (c.send n).writes = nameLine name :: (c.relayed ++ [c.inputBuffer.mem.take n]) := by
    show c.writes ++ [c.inputBuffer.mem.take n] = _
    rw [h.named, List.cons_append]
  have hrelayed : (c.send n).relayed = c.relayed ++ [c.inputBuffer.mem.take n] := by
    rw [relayed, hwrites, List.tail_cons]
  exact ⟨by rw [hrelayed, hwrites], hrelayed⟩

/-- A line at the start of the buffer is handed on as one piece. -/
theorem Sound.framed_line {u v : List Byte} (h : c.Sound name) (hpc : c.pc = .extract)
    (hline : c.inputBuffer.str = u ++ LF :: v) (hu : LF ∉ u) :
    ∃ rest, Framed limit endsString c.input
        (c.relayed ++ [c.inputBuffer.mem.take (u.length + 1)]) rest ∧
      c.inputLen - (u.length + 1) = rest.length ∧
      (c.inputBuffer.mem.drop (u.length + 1)).take (c.inputLen - (u.length + 1)) = rest := by
  have hroom := h.room
  obtain ⟨rest, hrest, hremaining, hle, hdrop, hNUL⟩ :=
    c.inputBuffer.line_content (hroom.trans (Nat.sub_le _ _)) (h.inside hpc) hline
  have hshort : u.length < limit := by omega
  obtain ⟨hpiece, hpend⟩ := pieces_endsString_line hu hNUL hshort
  refine ⟨rest, ?_, hremaining, hdrop⟩
  rw [c.inputBuffer.take_line hline]
  refine Framed.hand ?_ hpiece hpend
  rw [← hrest]
  exact h.framed_content (by simp [hpc])

/-- The invariant at the start. -/
theorem sound_init (old : CharArray maxMsgLen) (name : List Byte) : (init old name).Sound name := by
  refine ⟨rfl, Nat.zero_le _, ⟨[], Framed.start, fun _ => rfl⟩, fun _ _ => ?_, by simp [init]⟩
  exact ⟨show 0 < limit by decide, List.not_mem_nil⟩

/-- **A read** puts the bytes behind those in the buffer, and terminates it. -/
theorem Sound.read {data : List Byte} (h : c.Sound name) (hpc : c.pc = .input)
    (hdata : data.length ≤ c.space) : ((c.receive data).goto .extract).Sound name := by
  have hlimit : limit + 1 = maxMsgLen := rfl
  have hroom := h.room
  rw [space] at hdata
  have hcontent : ((c.inputBuffer.write c.inputLen data).write (c.inputLen + data.length)
      [NUL]).mem.take (c.inputLen + data.length) = c.content ++ data := by
    rw [CharArray.take_write _ (by rw [List.length_singleton]; omega),
      CharArray.take_write_end _ (by omega), content]
  refine ⟨h.named, ?_, ⟨c.content ++ data, ?_, fun _ => hcontent.symm⟩, ?_, fun _ => ?_⟩
  · show c.inputLen + data.length ≤ limit
    omega
  · exact (h.framed_content (by simp [hpc])).feed data
  · exact fun hne => absurd rfl hne
  · exact CharArray.str_terminated _ (by omega)

/-- **The end of the loop**: a full buffer is flushed. -/
theorem Sound.noLine (h : c.Sound name) (hpc : c.pc = .extract) (hline : LF ∉ c.inputBuffer.str) :
    (c.flush.goto .select).Sound name := by
  have hlimit : limit + 1 = maxMsgLen := rfl
  have hroom := h.room
  have hframed := h.framed_content (by simp [hpc])
  have hquiet : LF ∉ cstr c.content := by
    rw [← h.inside hpc]
    exact hline
  rw [flush]
  split
  · rename_i hfull
    have hlen : c.content.length = limit := by
      rw [h.length_content]
      omega
    obtain ⟨hpiece, hpend⟩ := pieces_endsString_full hquiet (by decide) hlen
    obtain ⟨hnamed, hrelayed⟩ := h.send c.inputLen
    refine ⟨hnamed, Nat.zero_le _, ⟨[], ?_, fun _ => List.take_zero.symm⟩, fun _ _ => ?_,
      by simp [goto]⟩
    · show Framed limit endsString c.input (c.send c.inputLen).relayed []
      rw [hrelayed]
      apply Framed.hand _ hpiece hpend
      rwa [List.append_nil]
    · refine ⟨by show 0 < limit; decide, ?_⟩
      show LF ∉ cstr (c.inputBuffer.mem.take 0)
      rw [List.take_zero]
      exact List.not_mem_nil
  · rename_i hspace
    have hlt : c.inputLen < limit := by omega
    exact ⟨h.named, hroom, ⟨_, hframed, fun _ => rfl⟩, fun _ _ => ⟨hlt, hquiet⟩, by simp [goto]⟩

/-- **A line** is written, and what is behind it moves to the start. -/
theorem Sound.line {u v : List Byte} (h : c.Sound name) (hpc : c.pc = .extract)
    (hline : c.inputBuffer.str = u ++ LF :: v) (hu : LF ∉ u) :
    ((c.send (u.length + 1)).shift (u.length + 1)).Sound name := by
  have hlimit : limit + 1 = maxMsgLen := rfl
  have hroom := h.room
  obtain ⟨rest, hframed, hremaining, hdrop⟩ := h.framed_line hpc hline hu
  have hcontent : ((c.send (u.length + 1)).shift (u.length + 1)).content = rest := by
    show ((c.inputBuffer.write 0 ((c.inputBuffer.mem.drop (u.length + 1)).take
      (c.inputLen - (u.length + 1)))).write (c.inputLen - (u.length + 1)) [NUL]).mem.take
        (c.inputLen - (u.length + 1)) = rest
    rw [hdrop, hremaining]
    exact c.inputBuffer.take_moved (by omega)
  obtain ⟨hnamed, hrelayed⟩ := h.send (u.length + 1)
  have hlast : c.inputLen - (u.length + 1) < maxMsgLen := by omega
  refine ⟨hnamed, (Nat.sub_le _ _).trans hroom, ⟨rest, ?_, fun _ => hcontent.symm⟩,
    fun hne => absurd hpc hne, fun _ => CharArray.str_terminated _ hlast⟩
  show Framed limit endsString c.input (c.send (u.length + 1)).relayed rest
  rw [hrelayed]
  exact hframed

/-- **The exit branch** writes the line. -/
theorem Sound.exit {u v : List Byte} (h : c.Sound name) (hpc : c.pc = .extract)
    (hline : c.inputBuffer.str = u ++ LF :: v) (hu : LF ∉ u) (texts : List Byte) :
    (((c.send (u.length + 1)).print texts).goto (.ended .exit)).Sound name := by
  obtain ⟨rest, hframed, -, -⟩ := h.framed_line hpc hline hu
  obtain ⟨hnamed, hrelayed⟩ := h.send (u.length + 1)
  refine ⟨hnamed, h.room, ⟨rest, ?_, fun hne => absurd rfl hne⟩, fun _ hne => absurd rfl hne,
    by simp [goto]⟩
  show Framed limit endsString c.input (c.send (u.length + 1)).relayed rest
  rw [hrelayed]
  exact hframed

/-- **Every move keeps the invariant.** -/
theorem move_sound (h : c.Sound name) (hmove : Move c c') : c'.Sound name := by
  cases hmove with
  | round texts pc hpc hextract hexit =>
      have hframed := h.framed_content (by simp [hpc])
      exact ⟨h.named, h.room, ⟨_, hframed, fun _ => rfl⟩,
        fun _ _ => h.quiet (by simp [hpc]) (by simp [hpc]), fun heq => absurd heq hextract⟩
  | close hpc =>
      have hframed := h.framed_content (by simp [hpc])
      exact ⟨h.named, h.room, ⟨_, hframed, fun _ => rfl⟩,
        fun _ _ => h.quiet (by simp [hpc]) (by simp [hpc]), by simp [goto]⟩
  | read data hpc hdata => exact h.read hpc hdata
  | noLine hpc hline => exact h.noLine hpc hline
  | line u v hpc hline hu hexit => exact h.line hpc hline hu
  | exit u v hpc hline hu hexit => exact h.exit hpc hline hu _

/-- **Every reachable state is sound.** -/
theorem reachable_sound {old : CharArray maxMsgLen} {as : List Act}
    (h : run step (init old name) as = some c) : c.Sound name :=
  run_invariant (sound_init old name) (fun _ _ _ hI hstep => move_sound hI (step_move hstep)) h

end Client

open Client

/-- **The relay.** In every run, the bytes written behind the line with the name are a prefix of the
input read so far, and until the exit branch those held back are the rest of it. When the client
waits in `select`, and when it reads, fewer than `MAX_MSG_LEN - 1` bytes are held back, with no
newline among them unless a NUL was read; so the size passed to the read is at least `1`. -/
theorem relay {old : CharArray maxMsgLen} {name : List Byte} {as : List Act} {c : Client}
    (h : run step (init old name) as = some c) :
    c.writes = nameLine name :: c.relayed ∧ c.relayed.flatten <+: c.input ∧
      (c.pc ≠ .ended .exit → c.input = c.relayed.flatten ++ c.content) ∧
      (c.pc = .select ∨ c.pc = .input → c.content.length = c.inputLen ∧
        c.inputLen < maxMsgLen - 1 ∧ (NUL ∉ c.input → LF ∉ c.content) ∧ 1 ≤ c.space) := by
  have hsound := reachable_sound h
  obtain ⟨rest, hframed, -⟩ := hsound.framed
  refine ⟨hsound.named, ⟨rest, hframed.flatten⟩,
    fun hpc => (hsound.framed_content hpc).flatten.symm, fun hpc => ?_⟩
  have hlive : c.pc ≠ .extract ∧ c.pc ≠ .ended .exit := by
    rcases hpc with hpc | hpc
    · simp [hpc]
    · simp [hpc]
  obtain ⟨hlt, hquiet⟩ := hsound.quiet hlive.1 hlive.2
  have hlimit : limit + 1 = maxMsgLen := rfl
  refine ⟨hsound.length_content, hlt, fun hNUL => ?_, by rw [space]; omega⟩
  have hsub : c.content ⊆ c.input := by
    rw [← (hsound.framed_content hlive.2).flatten]
    exact List.subset_append_right _ _
  rwa [cstr_eq_self fun hmem => hNUL (hsub hmem)] at hquiet

/-- Two reads with a line that is cut, and something from the server in between. -/
def cutLine : List Act :=
  [.select none true, .read (lit "hi\nyo"), .advance, .advance, .select (some (lit "ann: hi\n")) true,
    .read (lit "u\nmore"), .advance, .advance]

theorem relay_cutLine :
    ∃ c, run step (init (.zero maxMsgLen) (lit "ann")) cutLine = some c ∧
      c.writes = [lit "ann\n", lit "hi\n", lit "you\n"] ∧
      c.input = lit "hi\nyou\nmore" ∧ c.content = lit "more" ∧ 1 ≤ c.space := by
  have heval : ((run step (init (.zero maxMsgLen) (lit "ann")) cutLine).map fun c =>
      (c.writes, c.input, c.pc)) = some
        ([lit "ann\n", lit "hi\n", lit "you\n"], lit "hi\nyou\nmore", Pc.select) := by
    decide +kernel
  obtain ⟨c, hc, hfields⟩ := Option.map_eq_some_iff.mp heval
  obtain ⟨hwrites, hrest⟩ := Prod.mk.inj hfields
  obtain ⟨hinput, hpc⟩ := Prod.mk.inj hrest
  obtain ⟨-, -, hheld, hroom⟩ := relay hc
  have hwhole := hheld (by simp [hpc])
  rw [hinput, relayed, hwrites] at hwhole
  refine ⟨c, hc, hwrites, hinput, ?_, (hroom (Or.inl hpc)).2.2.2⟩
  have hcut : lit "hi\nyou\nmore" = [lit "hi\n", lit "you\n"].flatten ++ lit "more" := by decide
  exact (List.append_cancel_left (hcut.symm.trans hwhole)).symm

end StudiesOS.ChatClient
