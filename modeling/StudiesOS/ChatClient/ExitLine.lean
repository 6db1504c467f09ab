import StudiesOS.ChatClient.Relay

/-! # The exit line
The client looks for `!exit` at the start of its buffer. That is the start of a line unless the line
has been flushed in part, so what counts is how the last part of a line begins
(`exits_lastPart`). A long line can therefore end the client that should not, and the other way
round. -/

namespace StudiesOS.ChatClient

/-- **A line that begins with `!exit`.** -/
def isExit (line : List Byte) : Bool := strncmpEq (lit "!exit") line

/-- **The last part of a line**: what stands behind the last multiple of `MAX_MSG_LEN - 1` bytes. -/
def lastPart (line : List Byte) : List Byte :=
  line.drop ((maxMsgLen - 1) * (line.length / (maxMsgLen - 1)))

/-- **The client has handled the stream**: it has taken its exit branch, or has read the whole stream
and searched it for lines. -/
structure Client.Handled (c : Client) (stream : List Byte) : Prop where
  /-- What has been read comes from the stream. -/
  read : c.input <+: stream
  /-- Without the exit branch all has been read. -/
  all : c.pc ≠ .ended .exit → c.input = stream ∧ c.pc ≠ .extract

/-- **The client exits at the first line that passes the test**, if there is one, and has written
everything up to and with this line. -/
structure Client.ExitsAt (test : List Byte → Bool) (c : Client) (stream : List Byte) : Prop where
  /-- Whether the exit branch is taken. -/
  exits : c.pc = .ended .exit ↔ ∃ line ∈ completeLines stream, test line = true
  /-- Where it is taken. -/
  first : c.pc = .ended .exit → ∃ before line after,
    completeLines stream = before ++ line :: after ∧ test line = true ∧
      (∀ l ∈ before, test l = false) ∧
      c.relayed.flatten = ((before ++ [line]).map (· ++ [LF])).flatten

/-- **The first line that begins with `!exit` is the first one whose last part does**, or there is
neither. -/
def FirstAlike (stream : List Byte) : Prop :=
  (completeLines stream).findIdx? isExit
    = (completeLines stream).findIdx? fun line => isExit (lastPart line)

instance (stream : List Byte) : Decidable (FirstAlike stream) :=
  inferInstanceAs (Decidable (_ = _))

/-! ## The pieces that stop the client -/

/-- **A piece at which the client exits**: a line, or the last part of one, that begins with `!exit`. -/
def stops (p : List Byte) : Bool := decide (p.getLast? = some LF) && isExit p

/-- A text without newlines at the start of a buffer is at the start of its first line. -/
theorem prefix_append_LF {w u : List Byte} (hw : LF ∉ w) (v : List Byte) :
    w <+: u ++ LF :: v ↔ w <+: u := by
  constructor
  · intro h
    rcases Nat.lt_or_ge u.length w.length with hlt | hle
    · have hline : u ++ [LF] <+: u ++ LF :: v :=
        ⟨v, by rw [List.append_assoc, List.singleton_append]⟩
      have hin := List.prefix_of_prefix_length_le hline h (by
        rw [List.length_append, List.length_singleton]
        exact hlt)
      exact absurd (hin.subset (List.mem_append_right u (List.mem_singleton_self LF))) hw
    · exact List.prefix_of_prefix_length_le h (List.prefix_append u _) hle
  · exact fun h => h.trans (List.prefix_append u _)

/-- What stands behind a newline does not matter. -/
theorem isExit_append (u v : List Byte) : isExit (u ++ LF :: v) = isExit u := by
  rw [Bool.eq_iff_iff, isExit, isExit, strncmpEq, strncmpEq, List.isPrefixOf_iff_prefix,
    List.isPrefixOf_iff_prefix]
  exact prefix_append_LF (by decide) v

/-- A piece with a newline stops the client if it begins with `!exit`. -/
theorem stops_line (u : List Byte) : stops (u ++ [LF]) = isExit u := by
  rw [stops, isExit_append, decide_eq_true (by simp), Bool.true_and]

/-- A piece without a newline does not. -/
theorem stops_of_not_mem {p : List Byte} (h : LF ∉ p) : stops p = false := by
  rw [stops, decide_eq_false fun hlast => h (List.mem_of_getLast? hlast), Bool.false_and]

/-- **What the client makes of a line**: only its last piece can stop it. -/
theorem stops_piecesOfLine {line : List Byte} (hLF : LF ∉ line) :
    (∀ p ∈ pieces limit endsLine [] line, stops p = false) ∧
      stops (pending limit endsLine [] line ++ [LF]) = isExit (lastPart line) := by
  constructor
  · intro p hp
    exact stops_of_not_mem fun hmem => hLF (subset_of_mem_pieces (List.mem_append_left _ hp) hmem)
  · rw [stops_line, pending_endsLine hLF (by decide)]
    rfl

/-- Lines are written as they are. -/
theorem flatten_piecesOfLines (lines : List (List Byte)) :
    (lines.flatMap (piecesOfLine limit)).flatten = (lines.map (· ++ [LF])).flatten := by
  induction lines with
  | nil => rfl
  | cons line lines ih =>
      rw [List.flatMap_cons, List.flatten_append, flatten_piecesOfLine, ih, List.map_cons,
        List.flatten_cons]

/-- **The first piece that stops the client** is the end of the first line whose last part begins
with `!exit`. -/
theorem first_stop {lines ps more : List (List Byte)} {p last : List Byte}
    (hlines : ∀ l ∈ lines, LF ∉ l) (hlast : LF ∉ last)
    (h : lines.flatMap (piecesOfLine limit) ++ pieces limit endsLine [] last = ps ++ p :: more)
    (hps : ∀ q ∈ ps, stops q = false) (hp : stops p = true) :
    ∃ before line after, lines = before ++ line :: after ∧ isExit (lastPart line) = true ∧
      (∀ l ∈ before, isExit (lastPart l) = false) ∧
      ps ++ [p] = (before ++ [line]).flatMap (piecesOfLine limit) := by
  induction lines generalizing ps with
  | nil =>
      -- the pieces of the unfinished line stop nothing
      rw [List.flatMap_nil, List.nil_append] at h
      have hmem : p ∈ pieces limit endsLine [] last := by
        rw [h]
        exact List.mem_append_right _ List.mem_cons_self
      rw [(stops_piecesOfLine hlast).1 p hmem] at hp
      cases hp
  | cons line lines ih =>
      obtain ⟨hfull, hend⟩ := stops_piecesOfLine (hlines line List.mem_cons_self)
      rw [List.flatMap_cons] at h
      by_cases hline : isExit (lastPart line) = true
      · -- the line itself ends the client
        rw [piecesOfLine, List.append_assoc, List.append_assoc, List.singleton_append] at h
        obtain ⟨rfl, rfl⟩ := first_eq h hfull (hend.trans hline) hps hp
        exact ⟨[], line, lines, rfl, hline, fun l hl => absurd hl List.not_mem_nil,
          (List.flatMap_singleton _ _).symm⟩
      · -- the pieces of the line are passed over
        have hpass : ∀ q ∈ piecesOfLine limit line, stops q = false := by
          intro q hq
          rcases List.mem_append.mp hq with hmem | hmem
          · exact hfull q hmem
          · rw [List.mem_singleton.mp hmem, hend]
            exact Bool.eq_false_iff.mpr hline
        rw [List.append_assoc] at h
        obtain ⟨ps', rfl, hrest⟩ := first_behind h hpass hp
        obtain ⟨before, last', after, rfl, hexit, hbefore, hcut⟩ :=
          ih (fun l hl => hlines l (List.mem_cons_of_mem _ hl)) hrest
            fun q hq => hps q (List.mem_append_right _ hq)
        refine ⟨line :: before, last', after, rfl, hexit, fun l hl => ?_, ?_⟩
        · rcases List.mem_cons.mp hl with rfl | hmem
          · exact Bool.eq_false_iff.mpr hline
          · exact hbefore l hmem
        · rw [List.append_assoc, hcut, List.cons_append, List.flatMap_cons]

/-! ## Where the client stops -/

namespace Client

variable {name stream : List Byte} {c c' : Client} {f g : List Byte → Bool}

/-- **The exit branch and the pieces**: no piece written before it stops the client, and the last one
does. -/
structure Halts (c : Client) : Prop where
  /-- While the loop runs. -/
  live : c.pc ≠ .ended .exit → ∀ p ∈ c.relayed, stops p = false
  /-- At the exit branch. -/
  halted : c.pc = .ended .exit → ∃ ps p, c.relayed = ps ++ [p] ∧ (∀ q ∈ ps, stops q = false) ∧
    stops p = true

/-- A move that writes nothing and is none of the exit branch. -/
theorem Halts.keep (h : c.Halts) (hpc : c.pc ≠ .ended .exit) (hpc' : c'.pc ≠ .ended .exit)
    (hrelayed : c'.relayed = c.relayed) : c'.Halts :=
  ⟨fun _ => hrelayed ▸ h.live hpc, fun heq => absurd heq hpc'⟩

/-- A move that writes one more piece, which does not stop the client. -/
theorem Halts.add {p : List Byte} (h : c.Halts) (hpc : c.pc ≠ .ended .exit)
    (hpc' : c'.pc ≠ .ended .exit) (hrelayed : c'.relayed = c.relayed ++ [p])
    (hp : stops p = false) : c'.Halts := by
  refine ⟨fun _ q hq => ?_, fun heq => absurd heq hpc'⟩
  rw [hrelayed, List.mem_append, List.mem_singleton] at hq
  rcases hq with hold | rfl
  · exact h.live hpc q hold
  · exact hp

/-- The input only grows. -/
theorem input_isPrefix (hmove : Move c c') : c.input <+: c'.input := by
  cases hmove with
  | read data hpc hdata => exact List.prefix_append _ _
  | noLine hpc hline =>
      show c.input <+: c.flush.input
      rw [flush]
      split <;> exact List.prefix_rfl
  | round | close | line | exit => exact List.prefix_rfl

/-- **Every move of a client that has read no NUL** takes the exit branch at the right pieces. -/
theorem move_halts (hsound : c.Sound name) (hNUL : NUL ∉ c.input) (h : c.Halts)
    (hmove : Move c c') : c'.Halts := by
  cases hmove with
  | round texts pc hpc hextract hexit => exact h.keep (by simp [hpc]) hexit rfl
  | close hpc => exact h.keep (by simp [hpc]) (by simp [goto]) rfl
  | read data hpc hdata => exact h.keep (by simp [hpc]) (by simp [goto]) rfl
  | noLine hpc hline =>
      rw [flush]
      split
      · -- a full buffer without a newline
        have hcontent : LF ∉ c.content := by
          have hsub : c.content ⊆ c.input := by
            rw [← (hsound.framed_content (by simp [hpc])).flatten]
            exact List.subset_append_right _ _
          rw [hsound.inside hpc, cstr_eq_self fun hmem => hNUL (hsub hmem)] at hline
          exact hline
        exact h.add (by simp [hpc]) (by simp [goto]) (hsound.send _).2 (stops_of_not_mem hcontent)
      · exact h.keep (by simp [hpc]) (by simp [goto]) rfl
  | line u v hpc hline hu hexit =>
      have hstop : stops (c.inputBuffer.mem.take (u.length + 1)) = false := by
        rw [c.inputBuffer.take_line hline, stops_line, ← isExit_append u v, ← hline]
        exact Bool.eq_false_iff.mpr fun heq => hexit (List.isPrefixOf_iff_prefix.mp heq)
      exact h.add (by simp [hpc]) (by simp [hpc, send, shift]) (hsound.send _).2 hstop
  | exit u v hpc hline hu hexit =>
      have hstop : stops (c.inputBuffer.mem.take (u.length + 1)) = true := by
        rw [c.inputBuffer.take_line hline, stops_line, ← isExit_append u v, ← hline]
        exact List.isPrefixOf_iff_prefix.mpr hexit
      exact ⟨fun hne => absurd rfl hne,
        fun _ => ⟨c.relayed, _, (hsound.send _).2, h.live (by simp [hpc]), hstop⟩⟩

/-- **In every run** without a NUL in the input. -/
theorem reachable_halts {old : CharArray maxMsgLen} {as : List Act}
    (h : run step (init old name) as = some c) (hNUL : NUL ∉ c.input) : c.Halts := by
  refine (run_invariant (I := fun c => c.Sound name ∧ (NUL ∉ c.input → c.Halts)) ⟨?_, fun _ => ?_⟩
    (fun c a c' hI hstep => ?_) h).2 hNUL
  · exact sound_init old name
  · exact ⟨fun _ p hp => absurd hp List.not_mem_nil, by simp [init]⟩
  · have hmove := step_move hstep
    refine ⟨move_sound hI.1 hmove, fun hNUL' => ?_⟩
    have hold : NUL ∉ c.input := fun hmem => hNUL' ((input_isPrefix hmove).subset hmem)
    exact move_halts hI.1 hold (hI.2 hold) hmove

/-- **What the client does**: it exits at the first line whose last part begins with `!exit`. -/
theorem exits_lastPart {old : CharArray maxMsgLen} {as : List Act}
    (h : run step (init old name) as = some c) (hstream : c.Handled stream) (hNUL : NUL ∉ stream) :
    c.ExitsAt (fun line => isExit (lastPart line)) stream := by
  have hsound := reachable_sound h
  have hNUL' : NUL ∉ c.input := fun hmem => hNUL (hstream.read.subset hmem)
  have hhalts := reachable_halts h hNUL'
  obtain ⟨last, hlast, hpieces⟩ : ∃ last, LF ∉ last ∧ pieces limit endsLine [] stream
      = (completeLines stream).flatMap (piecesOfLine limit) ++ pieces limit endsLine [] last :=
    pieces_eq_piecesOfLine stream
  have hlines : ∀ l ∈ completeLines stream, LF ∉ l := fun l hl => not_mem_of_mem_completeLines hl
  have hfirst : c.pc = .ended .exit → ∃ before line after,
      completeLines stream = before ++ line :: after ∧ isExit (lastPart line) = true ∧
        (∀ l ∈ before, isExit (lastPart l) = false) ∧
        c.relayed.flatten = ((before ++ [line]).map (· ++ [LF])).flatten := by
    intro hexit
    obtain ⟨ps, p, hrelayed, hps, hp⟩ := hhalts.halted hexit
    obtain ⟨rest, hframed, -⟩ := hsound.framed
    -- what has been written are the first pieces of the stream
    obtain ⟨more, hmore⟩ : c.relayed <+: pieces limit endsLine [] stream := by
      refine List.IsPrefix.trans ?_ (pieces_isPrefix hstream.read)
      rw [← pieces_endsString_eq List.not_mem_nil hNUL', hframed.cut]
      exact List.prefix_append _ _
    rw [hrelayed, hpieces, List.append_assoc, List.singleton_append] at hmore
    obtain ⟨before, line, after, hsplit, hline, hbefore, hcut⟩ :=
      first_stop hlines hlast hmore.symm hps hp
    refine ⟨before, line, after, hsplit, hline, hbefore, ?_⟩
    rw [hrelayed, hcut, flatten_piecesOfLines]
  refine ⟨⟨fun hexit => ?_, ?_⟩, hfirst⟩
  · obtain ⟨before, line, after, hsplit, hline, -⟩ := hfirst hexit
    exact ⟨line, hsplit ▸ List.mem_append_right _ List.mem_cons_self, hline⟩
  · rintro ⟨line, hmem, hline⟩
    by_contra hexit
    obtain ⟨hall, hpc⟩ := hstream.all hexit
    -- every piece of the stream has been written, and none stops the client
    obtain ⟨hlt, hquiet⟩ := hsound.quiet hpc hexit
    have hshort : c.content.length < limit := by
      rw [hsound.length_content]
      exact hlt
    have hwhole := (hsound.framed_content hexit).complete (pieces_endsString_nil hquiet hshort)
    rw [hall, pieces_endsString_eq List.not_mem_nil hNUL, hpieces] at hwhole
    have hend : pending limit endsLine [] line ++ [LF] ∈ c.relayed := by
      rw [hwhole]
      refine List.mem_append_left _ (List.mem_flatMap.mpr ⟨line, hmem, ?_⟩)
      exact List.mem_append_right _ (List.mem_singleton_self _)
    have hstop := hhalts.live hexit _ hend
    rw [(stops_piecesOfLine (hlines line hmem)).2, hline] at hstop
    cases hstop

/-- Of two beginnings of a stream that are the same text, line by line, none is longer. -/
theorem lines_inj {xs ys zs : List (List Byte)} (hx : xs <+: zs) (hy : ys <+: zs)
    (h : (xs.map (· ++ [LF])).flatten = (ys.map (· ++ [LF])).flatten) : xs = ys := by
  have hlonger : ∀ {xs ys : List (List Byte)}, xs <+: ys →
      (xs.map (· ++ [LF])).flatten = (ys.map (· ++ [LF])).flatten → xs = ys := by
    rintro xs ys ⟨t, rfl⟩ heq
    rw [List.map_append, List.flatten_append, List.self_eq_append_right] at heq
    cases t with
    | nil => rw [List.append_nil]
    | cons l t => simp at heq
  rcases List.prefix_or_prefix_of_prefix hx hy with hle | hle
  · exact hlonger hle h
  · exact (hlonger hle h.symm).symm

/-- **Two tests at which a client exits** are first passed by the same line. -/
theorem ExitsAt.congr_iff (h : c.ExitsAt f stream) :
    c.ExitsAt g stream ↔ (completeLines stream).findIdx? g = (completeLines stream).findIdx? f := by
  have hsome : ∀ t : List Byte → Bool,
      (∃ line ∈ completeLines stream, t line = true) ↔ (completeLines stream).findIdx? t ≠ none := by
    intro t
    rw [ne_eq, List.findIdx?_eq_none_iff]
    simp only [not_forall, Bool.not_eq_false, exists_prop]
  constructor
  · intro hg
    by_cases hexit : c.pc = .ended .exit
    · -- both tests stop at the line that was sent last
      obtain ⟨before, line, after, hsplit, hline, hbefore, hsent⟩ := h.first hexit
      obtain ⟨before', line', after', hsplit', hline', hbefore', hsent'⟩ := hg.first hexit
      have hsame : before' ++ [line'] = before ++ [line] := by
        have hpart' : before' ++ [line'] <+: completeLines stream :=
          ⟨after', by rw [hsplit', List.append_assoc, List.singleton_append]⟩
        apply lines_inj hpart' _ (hsent'.symm.trans hsent)
        exact ⟨after, by rw [hsplit, List.append_assoc, List.singleton_append]⟩
      have hlen := congrArg List.length hsame
      rw [List.length_append, List.length_append, List.length_singleton, List.length_singleton,
        Nat.add_right_cancel_iff] at hlen
      have hf : (completeLines stream).findIdx? f = some before.length := by
        rw [hsplit]
        exact findIdx?_eq_length.mpr ⟨hbefore, hline⟩
      have hg : (completeLines stream).findIdx? g = some before'.length := by
        rw [hsplit']
        exact findIdx?_eq_length.mpr ⟨hbefore', hline'⟩
      rw [hf, hg, hlen]
    · -- neither test holds of a line
      have hf := not_not.mp (mt (hsome f).mpr (mt h.exits.mpr hexit))
      have hg := not_not.mp (mt (hsome g).mpr (mt hg.exits.mpr hexit))
      rw [hf, hg]
  · intro heq
    refine ⟨?_, fun hexit => ?_⟩
    · rw [h.exits, hsome, hsome, heq]
    · obtain ⟨before, line, after, hsplit, hline, hbefore, hsent⟩ := h.first hexit
      rw [hsplit, findIdx?_eq_length.mpr ⟨hbefore, hline⟩] at heq
      obtain ⟨hbefore', hline'⟩ := findIdx?_eq_length.mp heq
      exact ⟨before, line, after, hsplit, hline', hbefore', hsent⟩

end Client

open Client

/-- **The exit line.** For every stream without NULs and every way it is read: the client exits at
the first complete line that begins with `!exit`, if and only if this line is the first one whose last
part begins with `!exit`, or there is neither. -/
theorem exitLine_iff {old : CharArray maxMsgLen} {name stream : List Byte} {as : List Act}
    {c : Client} (h : run step (init old name) as = some c) (hstream : c.Handled stream)
    (hNUL : NUL ∉ stream) : c.ExitsAt isExit stream ↔ FirstAlike stream :=
  (exits_lastPart h hstream hNUL).congr_iff

/-- Lines that are shorter than the buffer are not cut. -/
theorem firstAlike_of_short {stream : List Byte}
    (h : ∀ line ∈ completeLines stream, line.length < maxMsgLen - 1) : FirstAlike stream := by
  apply findIdx?_congr
  intro line hline
  rw [lastPart, Nat.div_eq_of_lt (h line hline), Nat.mul_zero, List.drop_zero]

/-- A stream with an exit line, of which the last read gets more. -/
def shortLines : List Act :=
  [.select none true, .read (lit "hi\n!ex"), .advance, .advance, .select none true,
    .read (lit "it now\nyou"), .advance]

theorem exitLine_shortLines :
    ∃ c, run step (init (.zero maxMsgLen) (lit "ann")) shortLines = some c ∧
      c.ExitsAt isExit (lit "hi\n!exit now\nyou\n") ∧
      c.writes = [lit "ann\n", lit "hi\n", lit "!exit now\n"] := by
  have heval : ((run step (init (.zero maxMsgLen) (lit "ann")) shortLines).map fun c =>
      (c.writes, c.input, c.pc)) = some ([lit "ann\n", lit "hi\n", lit "!exit now\n"],
        lit "hi\n!exit now\nyou", Pc.ended .exit) := by
    decide +kernel
  obtain ⟨c, hc, hfields⟩ := Option.map_eq_some_iff.mp heval
  obtain ⟨hwrites, hrest⟩ := Prod.mk.inj hfields
  obtain ⟨hinput, hpc⟩ := Prod.mk.inj hrest
  have hhandled : c.Handled (lit "hi\n!exit now\nyou\n") := by
    refine ⟨?_, fun hne => absurd hpc hne⟩
    rw [hinput]
    decide +kernel
  have halike : FirstAlike (lit "hi\n!exit now\nyou\n") :=
    firstAlike_of_short (by decide +kernel)
  exact ⟨c, hc, (exitLine_iff hc hhandled (by decide +kernel)).mpr halike, hwrites⟩

/-- A line of 255 bytes and `!exit`, read in two parts. -/
def longLine : List Act :=
  [.select none true, .read (List.replicate 255 97), .advance, .select none true,
    .read (lit "!exit\n"), .advance]

/-- **The end of a long line ends the client**, although no line begins with `!exit`. -/
theorem longLine_exits :
    ∃ c, run step (init (.zero maxMsgLen) (lit "ann")) longLine = some c ∧
      c.Handled (List.replicate 255 97 ++ lit "!exit\n") ∧
      NUL ∉ List.replicate 255 97 ++ lit "!exit\n" ∧ c.pc = .ended .exit ∧
      (∀ line ∈ completeLines (List.replicate 255 97 ++ lit "!exit\n"), isExit line = false) ∧
      ¬ c.ExitsAt isExit (List.replicate 255 97 ++ lit "!exit\n") := by
  have heval : ((run step (init (.zero maxMsgLen) (lit "ann")) longLine).map fun c =>
      (c.input, c.pc)) = some (List.replicate 255 97 ++ lit "!exit\n", Pc.ended .exit) := by
    decide +kernel
  obtain ⟨c, hc, hfields⟩ := Option.map_eq_some_iff.mp heval
  obtain ⟨hinput, hpc⟩ := Prod.mk.inj hfields
  have hnone : ∀ line ∈ completeLines (List.replicate 255 97 ++ lit "!exit\n"),
      isExit line = false := by
    decide +kernel
  refine ⟨c, hc, ⟨hinput ▸ List.prefix_rfl, fun hne => absurd hpc hne⟩, by decide +kernel, hpc,
    hnone, fun hexits => ?_⟩
  obtain ⟨line, hline, htest⟩ := hexits.exits.mp hpc
  rw [hnone line hline] at htest
  cases htest

end StudiesOS.ChatClient
