import StudiesOS.CText.Split

/-! # Framing a stream in a line buffer
A reader keeps the bytes it has not handed on in a buffer of `limit` bytes, and hands a piece on
when a newline has arrived or the buffer is full. `Framed stream calls content` says that the pieces
`calls` handed on so far and the buffer `content` are what the stream so far demands; reading more
(`Framed.feed`) and handing a piece on (`Framed.hand`) keep it, so that the pieces do not depend on
how the stream was read. The rest of the module says where the cuts fall: `Pieces of a stream`,
`GreedySplit`, and `piece_covers_line` for one line of the stream. -/

namespace StudiesOS

section Framed

variable {limit : ℕ} {ends : List Byte → Byte → Bool}

/-! ## Handing pieces on -/

/-- **The pieces `calls` have been handed on of the stream, and `content` is in the buffer.** -/
structure Framed (limit : ℕ) (ends : List Byte → Byte → Bool) (stream : List Byte)
    (calls : List (List Byte)) (content : List Byte) : Prop where
  /-- The pieces of the stream are those handed on and those in the buffer. -/
  cut : pieces limit ends [] stream = calls ++ pieces limit ends [] content
  /-- The unfinished piece of the stream is that of the buffer. -/
  rest : pending limit ends [] stream = pending limit ends [] content

/-- Without a complete piece everything stays in the buffer. -/
theorem pending_of_pieces_nil {cur s : List Byte} (h : pieces limit ends cur s = []) :
    pending limit ends cur s = cur ++ s := by
  have hflat := pieces_flatten_append_pending limit ends cur s
  rwa [h, List.flatten_nil, List.nil_append] at hflat

/-- A byte that completes what is in the buffer makes it a piece. -/
theorem pieces_snoc {u : List Byte} {b : Byte} (hu : pieces limit ends [] u = [])
    (hb : completes limit ends u b = true) :
    pieces limit ends [] (u ++ [b]) = [u ++ [b]] ∧ pending limit ends [] (u ++ [b]) = [] := by
  have hpend := pending_of_pieces_nil hu
  rw [List.nil_append] at hpend
  constructor
  · rw [pieces_append, hu, hpend, pieces_cons, if_pos hb, pieces_nil, List.nil_append]
  · rw [pending_append, hpend, pending_cons, if_pos hb, pending_nil]

namespace Framed

variable {stream content : List Byte} {calls : List (List Byte)}

/-- At the start nothing has been read or handed on. -/
theorem start : Framed limit ends [] [] [] := ⟨rfl, rfl⟩

/-- **Reading more** into the buffer. -/
theorem feed (h : Framed limit ends stream calls content) (data : List Byte) :
    Framed limit ends (stream ++ data) calls (content ++ data) := by
  constructor
  · rw [pieces_append, pieces_append, h.cut, h.rest, List.append_assoc]
  · rw [pending_append, pending_append, h.rest]

/-- **Handing on** the first piece of the buffer. -/
theorem hand {p rest : List Byte} (h : Framed limit ends stream calls (p ++ rest))
    (hp : pieces limit ends [] p = [p]) (hrest : pending limit ends [] p = []) :
    Framed limit ends stream (calls ++ [p]) rest := by
  constructor
  · rw [h.cut, pieces_append, hp, hrest, List.append_assoc]
  · rw [h.rest, pending_append, hrest]

/-- **At the end of the stream** every piece has been handed on. -/
theorem complete (h : Framed limit ends stream calls content)
    (hquiet : pieces limit ends [] content = []) : calls = pieces limit ends [] stream := by
  rw [h.cut, hquiet, List.append_nil]

/-- **Nothing is lost**: what has been handed on and what is in the buffer are the stream. -/
theorem flatten (h : Framed limit ends stream calls content) : calls.flatten ++ content = stream := by
  have hstream := pieces_flatten_append_pending limit ends [] stream
  have hcontent := pieces_flatten_append_pending limit ends [] content
  rw [List.nil_append] at hstream hcontent
  rw [← hstream, h.cut, h.rest, List.flatten_append, List.append_assoc, hcontent]

end Framed

/-! ## Pieces of a stream -/

/-- The first piece of a stream: the bytes in front of its last one complete nothing. -/
theorem pieces_eq_cons {cur s p : List Byte} {ps : List (List Byte)}
    (h : pieces limit ends cur s = p :: ps) :
    ∃ u b v, s = u ++ b :: v ∧ p = cur ++ u ++ [b] ∧ pieces limit ends cur u = [] ∧
      completes limit ends (cur ++ u) b = true ∧ pieces limit ends [] v = ps := by
  induction s generalizing cur with
  | nil => cases h
  | cons c s ih =>
      rw [pieces_cons] at h
      by_cases hc : completes limit ends cur c
      · rw [if_pos hc] at h
        obtain ⟨rfl, hps⟩ := List.cons.inj h
        exact ⟨[], c, s, rfl, by rw [List.append_nil], rfl, by rwa [List.append_nil], hps⟩
      · rw [if_neg hc] at h
        obtain ⟨u, b, v, rfl, rfl, hu, hb, hps⟩ := ih h
        refine ⟨c :: u, b, v, rfl, ?_, ?_, ?_, hps⟩
        · simp only [List.append_assoc, List.singleton_append]
        · rw [pieces_cons, if_neg hc, hu]
        · rwa [List.append_assoc, List.singleton_append] at hb

/-- **A piece of a stream**: the pieces in front of it end at a cut, and inside of it there is
none. -/
theorem pieces_eq_append_cons {s p : List Byte} {before after : List (List Byte)}
    (h : pieces limit ends [] s = before ++ p :: after) :
    ∃ u b v, s = before.flatten ++ (p ++ v) ∧ p = u ++ [b] ∧
      pending limit ends [] before.flatten = [] ∧ pieces limit ends [] u = [] ∧
      completes limit ends u b = true := by
  induction before generalizing s with
  | nil =>
      obtain ⟨u, b, v, rfl, rfl, hu, hb, -⟩ := pieces_eq_cons h
      refine ⟨u, b, v, ?_, rfl, rfl, hu, hb⟩
      simp only [List.flatten_nil, List.nil_append, List.append_assoc, List.singleton_append]
  | cons q before ih =>
      obtain ⟨u, b, v, rfl, rfl, hu, hb, hv⟩ := pieces_eq_cons h
      obtain ⟨u', b', v', rfl, rfl, hpend, hu', hb'⟩ := ih hv
      refine ⟨u', b', v', ?_, rfl, ?_, hu', hb'⟩
      · simp only [List.flatten_cons, List.nil_append, List.append_assoc, List.cons_append]
      · rw [List.flatten_cons, List.nil_append, pending_append, (pieces_snoc hu hb).2, hpend]

/-- **Pieces are their own framing**: a stream that consists of the first pieces of another one is cut
into just these. -/
theorem pieces_flatten {s : List Byte} {ps more : List (List Byte)}
    (h : pieces limit ends [] s = ps ++ more) :
    pieces limit ends [] ps.flatten = ps ∧ pending limit ends [] ps.flatten = [] := by
  induction ps generalizing s with
  | nil => exact ⟨rfl, rfl⟩
  | cons p ps ih =>
      obtain ⟨u, b, v, rfl, rfl, hu, hb, hv⟩ := pieces_eq_cons h
      obtain ⟨hps, hpend⟩ := ih hv
      rw [List.nil_append] at hb ⊢
      obtain ⟨hpiece, hnone⟩ := pieces_snoc hu hb
      rw [List.flatten_cons, pieces_append _ _ _ (u ++ [b]), pending_append _ _ _ (u ++ [b]), hpiece, hnone,
        hps, hpend]
      exact ⟨rfl, rfl⟩

/-- **A piece fits into the buffer.** -/
theorem length_le_of_mem_pieces (hlimit : 0 < limit) {s p : List Byte}
    (hp : p ∈ pieces limit ends [] s) : p.length ≤ limit := by
  obtain ⟨before, after, heq⟩ := List.append_of_mem hp
  obtain ⟨u, b, v, -, rfl, -, hu, -⟩ := pieces_eq_append_cons heq
  have hnil : ([] : List Byte).length < limit := hlimit
  have hlt := pending_length_lt limit ends hlimit hnil u
  rw [pending_of_pieces_nil hu, List.nil_append] at hlt
  rw [List.length_append, List.length_singleton]
  exact hlt

/-- Inside of a piece every prefix is still in the buffer. -/
theorem pieces_prefix_nil {u v : List Byte} (h : pieces limit ends [] (u ++ v) = []) :
    pieces limit ends [] u = [] := by
  rw [pieces_append] at h
  exact (List.append_eq_nil_iff.mp h).1

/-- The pieces of a longer stream start with those of the shorter one. -/
theorem pieces_isPrefix {s t : List Byte} (h : s <+: t) :
    pieces limit ends [] s <+: pieces limit ends [] t := by
  obtain ⟨r, rfl⟩ := h
  rw [pieces_append]
  exact List.prefix_append _ _

end Framed

/-! ## Buffers that are searched for a newline -/

/-- A newline ends a line. -/
def endsLine : List Byte → Byte → Bool := fun _ b => b = LF

/-- **A newline that `strchr` finds**: it ends a line if no NUL stands in front of it. -/
def endsString : List Byte → Byte → Bool := fun cur b => b = LF ∧ NUL ∉ cur

variable {limit : ℕ}

/-- A buffer that is not full and in which `strchr` finds no newline holds no piece. -/
theorem pieces_endsString_nil {s : List Byte} (hLF : LF ∉ cstr s) (hlen : s.length < limit) :
    pieces limit endsString [] s = [] := by
  cases h : pieces limit endsString [] s with
  | nil => rfl
  | cons p ps =>
      obtain ⟨u, b, v, rfl, -, -, hb, -⟩ := pieces_eq_cons h
      rw [List.length_append, List.length_cons] at hlen
      simp only [List.nil_append, completes, endsString, Bool.or_eq_true, decide_eq_true_eq] at hb
      obtain ⟨rfl, hNUL⟩ | hfull := hb
      · rw [cstr_append hNUL] at hLF
        refine absurd (List.mem_append_right u ?_) hLF
        rw [cstr, List.takeWhile_cons_of_pos (by decide)]
        exact List.mem_cons_self
      · omega

/-- A line at the start of the buffer is a piece. -/
theorem pieces_endsString_line {u : List Byte} (hLF : LF ∉ u) (hNUL : NUL ∉ u)
    (hlen : u.length < limit) :
    pieces limit endsString [] (u ++ [LF]) = [u ++ [LF]] ∧
      pending limit endsString [] (u ++ [LF]) = [] := by
  refine pieces_snoc (pieces_endsString_nil ?_ hlen) ?_
  · rwa [cstr_eq_self hNUL]
  · simp [completes, endsString, hNUL]

/-- A full buffer in which `strchr` finds no newline is a piece. -/
theorem pieces_endsString_full {s : List Byte} (hLF : LF ∉ cstr s) (hlimit : 0 < limit)
    (hlen : s.length = limit) :
    pieces limit endsString [] s = [s] ∧ pending limit endsString [] s = [] := by
  have hne : s ≠ [] := by
    rintro rfl
    exact hlimit.ne hlen
  obtain ⟨u, b, rfl⟩ : ∃ u b, s = u ++ [b] :=
    ⟨s.dropLast, s.getLast hne, (List.dropLast_concat_getLast hne).symm⟩
  rw [List.length_append, List.length_singleton] at hlen
  refine pieces_snoc (pieces_endsString_nil ?_ (by omega)) ?_
  · exact fun h => hLF ((cstr_isPrefix_append u [b]).subset h)
  · simp [completes, hlen]

/-- Up to the first NUL both kinds of buffers agree. -/
theorem pieces_endsString_eq {cur s : List Byte} (hcur : NUL ∉ cur) (hs : NUL ∉ s) :
    pieces limit endsString cur s = pieces limit endsLine cur s := by
  induction s generalizing cur with
  | nil => rfl
  | cons b s ih =>
      rw [List.mem_cons, not_or] at hs
      have hb : completes limit endsString cur b = completes limit endsLine cur b := by
        simp [completes, endsString, endsLine, hcur]
      have hsnoc : NUL ∉ cur ++ [b] := by
        rw [List.mem_append, List.mem_singleton, not_or]
        exact ⟨hcur, hs.1⟩
      rw [pieces_cons, pieces_cons, hb, ih List.not_mem_nil hs.2, ih hsnoc hs.2]

/-! ## The pieces of one line -/

/-- **A line of any length**: it is cut as if it were the whole stream, its newline completes what is
left, and what follows is cut on its own. -/
theorem pieces_endsLine_append (u rest : List Byte) :
    pieces limit endsLine [] (u ++ LF :: rest)
        = pieces limit endsLine [] u
          ++ (pending limit endsLine [] u ++ [LF]) :: pieces limit endsLine [] rest ∧
      pending limit endsLine [] (u ++ LF :: rest) = pending limit endsLine [] rest := by
  have hends : ∀ cur, completes limit endsLine cur LF = true := fun cur => by
    simp [completes, endsLine]
  constructor
  · rw [pieces_append, pieces_cons, if_pos (hends _)]
  · rw [pending_append, pending_cons, if_pos (hends _)]

/-- The pieces of a text and what is left of it are made of its bytes. -/
theorem subset_of_mem_pieces {ends : List Byte → Byte → Bool} {s p : List Byte}
    (hp : p ∈ pieces limit ends [] s ++ [pending limit ends [] s]) : p ⊆ s := by
  have hflat := pieces_flatten_append_pending limit ends [] s
  rw [List.nil_append] at hflat
  intro b hb
  rw [← hflat, List.mem_append]
  rcases List.mem_append.mp hp with hmem | hmem
  · exact Or.inl (List.mem_flatten_of_mem hmem hb)
  · rw [List.mem_singleton.mp hmem] at hb
    exact Or.inr hb

/-- A line that does not fill the buffer stays in it. -/
theorem pieces_endsLine_nil {s : List Byte} (hLF : LF ∉ s) (hlen : s.length < limit) :
    pieces limit endsLine [] s = [] := by
  cases h : pieces limit endsLine [] s with
  | nil => rfl
  | cons p ps =>
      obtain ⟨u, b, v, rfl, -, -, hb, -⟩ := pieces_eq_cons h
      rw [List.length_append, List.length_cons] at hlen
      simp only [List.nil_append, completes, endsLine, Bool.or_eq_true, decide_eq_true_eq] at hb
      rcases hb with rfl | hfull
      · exact absurd (List.mem_append_right u List.mem_cons_self) hLF
      · omega

/-- A line that just fills it is a piece. -/
theorem pieces_endsLine_full {s : List Byte} (hLF : LF ∉ s) (hlimit : 0 < limit)
    (hlen : s.length = limit) :
    pieces limit endsLine [] s = [s] ∧ pending limit endsLine [] s = [] := by
  have hne : s ≠ [] := by
    rintro rfl
    exact hlimit.ne hlen
  obtain ⟨u, b, rfl⟩ : ∃ u b, s = u ++ [b] :=
    ⟨s.dropLast, s.getLast hne, (List.dropLast_concat_getLast hne).symm⟩
  rw [List.length_append, List.length_singleton] at hlen
  refine pieces_snoc (pieces_endsLine_nil ?_ (by omega)) ?_
  · exact fun h => hLF (List.mem_append_left [b] h)
  · simp [completes, hlen]

/-- **What is left of a line** is what stands behind the last multiple of `limit` bytes. -/
theorem pending_endsLine {s : List Byte} (hLF : LF ∉ s) (hlimit : 0 < limit) :
    pending limit endsLine [] s = s.drop (limit * (s.length / limit)) := by
  induction hn : s.length using Nat.strong_induction_on generalizing s with
  | _ n ih =>
      rcases Nat.lt_or_ge s.length limit with hlt | hge
      · rw [pending_of_pieces_nil (pieces_endsLine_nil hLF hlt), ← hn, Nat.div_eq_of_lt hlt,
          Nat.mul_zero, List.drop_zero, List.nil_append]
      · -- the first `limit` bytes are a piece
        have hfull := (pieces_endsLine_full (fun h => hLF (List.take_subset limit s h)) hlimit
          (List.length_take_of_le hge)).2
        have hdiv : n / limit = (n - limit) / limit + 1 := by
          rw [← Nat.add_div_right _ hlimit, Nat.sub_add_cancel (hn ▸ hge)]
        conv_lhs => rw [← List.take_append_drop limit s]
        rw [pending_append, hfull, ih (n - limit) (by omega)
          (fun h => hLF (List.drop_subset limit s h)) (by rw [List.length_drop, hn]),
          List.drop_drop, hdiv, Nat.mul_succ, Nat.add_comm]

/-- **The complete lines of a stream**: what stands in front of each newline. -/
def completeLines (s : List Byte) : List (List Byte) := (s.splitOnP (· = LF)).dropLast

/-- Without a newline there is no complete line. -/
theorem completeLines_of_not_mem {s : List Byte} (hLF : LF ∉ s) : completeLines s = [] := by
  rw [completeLines, List.splitOnP_eq_singleton fun b hb => ?_]
  · rfl
  · simpa using ne_of_mem_of_not_mem hb hLF

/-- The first complete line. -/
theorem completeLines_append_cons {u : List Byte} (hLF : LF ∉ u) (rest : List Byte) :
    completeLines (u ++ LF :: rest) = u :: completeLines rest := by
  rw [completeLines, List.splitOnP_append_cons_of_forall_mem (fun b hb => ?_) LF (by decide),
    List.dropLast_cons_of_ne_nil (List.splitOnP_ne_nil _ rest), completeLines]
  simpa using ne_of_mem_of_not_mem hb hLF

/-- A line has no newline in it. -/
theorem not_mem_of_mem_completeLines {s line : List Byte} (h : line ∈ completeLines s) :
    LF ∉ line := by
  intro hmem
  simpa using not_isDelim_of_mem_splitOnP (List.dropLast_subset _ h) LF hmem

/-- **The pieces of a complete line**, the last one with its newline. -/
def piecesOfLine (limit : ℕ) (line : List Byte) : List (List Byte) :=
  pieces limit endsLine [] line ++ [pending limit endsLine [] line ++ [LF]]

/-- They are the line. -/
theorem flatten_piecesOfLine (line : List Byte) :
    (piecesOfLine limit line).flatten = line ++ [LF] := by
  have hflat := pieces_flatten_append_pending limit endsLine [] line
  rw [List.nil_append] at hflat
  rw [piecesOfLine, List.flatten_append, List.flatten_singleton, ← List.append_assoc, hflat]

/-- **The pieces of a stream are those of its complete lines**, and those of what follows them. -/
theorem pieces_eq_piecesOfLine (s : List Byte) :
    ∃ rest, LF ∉ rest ∧ pieces limit endsLine [] s
      = (completeLines s).flatMap (piecesOfLine limit) ++ pieces limit endsLine [] rest := by
  induction hn : s.length using Nat.strong_induction_on generalizing s with
  | _ n ih =>
      by_cases hLF : LF ∈ s
      · obtain ⟨u, rest, rfl, hu⟩ := List.eq_append_cons_of_mem hLF
        obtain ⟨last, hlast, hpieces⟩ := ih rest.length
          (by rw [← hn, List.length_append, List.length_cons]; omega) rest rfl
        refine ⟨last, hlast, ?_⟩
        rw [(pieces_endsLine_append u rest).1, hpieces, completeLines_append_cons hu,
          List.flatMap_cons, piecesOfLine, List.append_assoc, List.append_assoc,
          List.singleton_append]
      · exact ⟨s, hLF, by rw [completeLines_of_not_mem hLF, List.flatMap_nil, List.nil_append]⟩

/-! ## The greedy split -/

/-- **The greedy split of a stream**: each piece ends at a newline or after `limit` bytes without
one, and what is left is shorter and has no newline. -/
structure GreedySplit (limit : ℕ) (stream : List Byte) (ps : List (List Byte)) : Prop where
  /-- The pieces are cut off the stream one after another; the rest is no piece. -/
  cover : ∃ rest, stream = ps.flatten ++ rest ∧ rest.length < limit ∧ LF ∉ rest
  /-- A piece is a line of at most `limit` bytes, newline included, or `limit` bytes of a line. -/
  piece : ∀ p ∈ ps, (∃ u, p = u ++ [LF] ∧ LF ∉ u ∧ p.length ≤ limit) ∨
    p.length = limit ∧ LF ∉ p

/-- What is in the buffer has no newline. -/
theorem not_mem_pending {cur s : List Byte} (hcur : LF ∉ cur) :
    LF ∉ pending limit endsLine cur s := by
  induction s generalizing cur with
  | nil => exact hcur
  | cons b s ih =>
      rw [pending_cons]
      by_cases hb : completes limit endsLine cur b
      · rw [if_pos hb]
        exact ih List.not_mem_nil
      · rw [if_neg hb]
        refine ih ?_
        simp only [completes, endsLine, Bool.or_eq_true, decide_eq_true_eq, not_or] at hb
        rw [List.mem_append, List.mem_singleton, not_or]
        exact ⟨hcur, Ne.symm hb.1⟩

/-- **A line buffer splits greedily.** -/
theorem greedySplit_pieces (hlimit : 0 < limit) (s : List Byte) :
    GreedySplit limit s (pieces limit endsLine [] s) := by
  have hshort : ([] : List Byte).length < limit := hlimit
  have hflat := pieces_flatten_append_pending limit endsLine [] s
  refine ⟨⟨pending limit endsLine [] s, hflat.symm,
    pending_length_lt limit endsLine hlimit hshort s, not_mem_pending List.not_mem_nil⟩,
    fun p hp => ?_⟩
  obtain ⟨before, after, heq⟩ := List.append_of_mem hp
  obtain ⟨u, b, v, -, rfl, -, hu, hb⟩ := pieces_eq_append_cons heq
  have hpend := pending_of_pieces_nil hu
  rw [List.nil_append] at hpend
  have hLF : LF ∉ u := hpend ▸ not_mem_pending List.not_mem_nil
  have hlt : u.length < limit := hpend ▸ pending_length_lt limit endsLine hlimit hshort u
  rw [List.length_append, List.length_singleton]
  by_cases hbLF : b = LF
  · exact Or.inl ⟨u, by rw [hbLF], hLF, hlt⟩
  · simp only [completes, endsLine, hbLF, decide_false, Bool.false_or, decide_eq_true_eq] at hb
    refine Or.inr ⟨by omega, ?_⟩
    rw [List.mem_append, List.mem_singleton, not_or]
    exact ⟨hLF, Ne.symm hbLF⟩

/-! ## The piece of a line -/

/-- **No cut falls inside of `text`**, which follows `pre` in the stream. -/
def NoCutInside (limit : ℕ) (pre text : List Byte) : Prop :=
  ∀ u w, text = u ++ w → u ≠ [] → w ≠ [] → pending limit endsString [] (pre ++ u) ≠ []

/-- After a line of a stream without NULs the buffer is empty. -/
theorem pending_line {pre : List Byte} (hpre : pre = [] ∨ ∃ u, pre = u ++ [LF])
    (hNUL : NUL ∉ pre) : pending limit endsString [] pre = [] := by
  rcases hpre with rfl | ⟨q, rfl⟩
  · rfl
  · have hflat := pieces_flatten_append_pending limit endsString [] q
    have hq : NUL ∉ pending limit endsString [] q := by
      intro h
      refine hNUL (List.mem_append_left _ ?_)
      rw [← List.nil_append q, ← hflat]
      exact List.mem_append_right _ h
    rw [pending_append, pending_cons, if_pos (by simp [completes, endsString, hq]), pending_nil]

/-- **Behind a stream without NULs, a line is cut exactly when it and its newline do not fit into the
buffer.** -/
theorem noCutInside_iff {pre text : List Byte} (hlimit : 0 < limit)
    (hpre : pre = [] ∨ ∃ u, pre = u ++ [LF]) (hNUL : NUL ∉ pre) (hLF : LF ∉ text) :
    NoCutInside limit pre (text ++ [LF]) ↔ text.length < limit := by
  have hbuffer : ∀ u, pending limit endsString [] (pre ++ u) = pending limit endsString [] u := by
    intro u
    rw [pending_append, pending_line hpre hNUL]
  have hstr : ∀ u, u <+: text → LF ∉ cstr u := fun u hu h =>
    hLF (hu.subset ((cstr_isPrefix u).subset h))
  constructor
  · intro h
    by_contra hlong
    refine h (text.take limit) (text.drop limit ++ [LF]) ?_ ?_ (by simp) ?_
    · rw [← List.append_assoc, List.take_append_drop]
    · intro hnil
      have hlen := congrArg List.length hnil
      rw [List.length_take, List.length_nil] at hlen
      omega
    · rw [hbuffer]
      refine (pieces_endsString_full (hstr _ (List.take_prefix _ _)) hlimit ?_).2
      rw [List.length_take]
      omega
  · intro hlen u w heq hu hw
    -- what is cut off has the newline at its end, so the rest of the text in front of it is short
    obtain ⟨v, b, rfl⟩ := List.eq_nil_or_concat w |>.resolve_left hw
    rw [List.concat_eq_append, ← List.append_assoc] at heq
    obtain rfl := List.append_inj_left' heq rfl
    rw [List.length_append] at hlen
    rw [hbuffer, pending_of_pieces_nil (pieces_endsString_nil (hstr u (List.prefix_append u v))
      (by omega)), List.nil_append]
    exact hu

/-- In what a piece shows there is a newline at its end only. -/
theorem newline_ends_piece {u m : List Byte} {b : Byte} (hu : pieces limit endsString [] u = [])
    (hm : m ++ [LF] <+: cstr (u ++ [b])) : (u ++ [b]).length ≤ (m ++ [LF]).length := by
  by_contra hlt
  have hmu : m ++ [LF] <+: u := by
    refine List.prefix_of_prefix_length_le (hm.trans (cstr_isPrefix _)) (List.prefix_append _ _) ?_
    rw [List.length_append, List.length_singleton] at hlt
    omega
  obtain ⟨w, rfl⟩ := hmu
  have hNUL : NUL ∉ m := fun h => not_mem_cstr _ (hm.subset (List.mem_append_left _ h))
  have hends : completes limit endsString m LF = true := by
    simp [completes, endsString, hNUL]
  have hnil := pieces_prefix_nil hu
  have hline := (pieces_snoc (pieces_prefix_nil hnil) hends).1
  rw [hnil] at hline
  cases hline

/-- **The piece that shows a byte of a line begins with the line**, if no cut falls inside of it:
`text` stands at the start of a line of the stream, and the piece `p` begins before the end of
`text` and has a byte of `text` in front of its first NUL. -/
theorem piece_covers_line {stream pre text rest p : List Byte} {before after : List (List Byte)}
    (hstream : stream <+: pre ++ (text ++ rest)) (hpre : pre = [] ∨ ∃ u, pre = u ++ [LF])
    (hcut : NoCutInside limit pre text)
    (hpieces : pieces limit endsString [] stream = before ++ p :: after)
    (hbegin : before.flatten.length < pre.length + text.length)
    (hshow : pre.length < before.flatten.length + (cstr p).length) :
    before.flatten = pre ∧ text <+: p := by
  obtain ⟨rest', hrest⟩ := hstream
  obtain ⟨u, b, v, rfl, rfl, hpend, hu, hb⟩ := pieces_eq_append_cons hpieces
  have hfull : pre ++ (text ++ rest) = before.flatten ++ ((u ++ [b]) ++ (v ++ rest')) := by
    rw [← hrest]
    simp only [List.append_assoc]
  have hB : before.flatten <+: pre ++ (text ++ rest) := ⟨_, hfull.symm⟩
  rcases lt_trichotomy before.flatten.length pre.length with hlt | heq | hgt
  · -- the newline in front of the line would have ended the piece
    rcases hpre with rfl | ⟨q, rfl⟩
    · exact absurd hlt (Nat.not_lt_zero _)
    · rw [List.length_append, List.length_singleton] at hlt hshow
      have hq : q <+: (q ++ [LF]) ++ (text ++ rest) := by
        rw [List.append_assoc]
        exact List.prefix_append _ _
      obtain ⟨m, rfl⟩ := List.prefix_of_prefix_length_le hB hq (by omega)
      rw [List.append_assoc, List.append_assoc] at hfull
      have hm : m ++ [LF] <+: (u ++ [b]) ++ (v ++ rest') := by
        rw [← List.append_cancel_left hfull, ← List.append_assoc]
        exact List.prefix_append _ _
      have hstr : cstr (u ++ [b]) <+: (u ++ [b]) ++ (v ++ rest') :=
        (cstr_isPrefix _).trans (List.prefix_append _ _)
      rw [List.length_append] at hshow
      have hmstr : m ++ [LF] <+: cstr (u ++ [b]) := by
        refine List.prefix_of_prefix_length_le hm hstr ?_
        rw [List.length_append, List.length_singleton]
        omega
      have hends := newline_ends_piece hu hmstr
      have hlen := (cstr_isPrefix (u ++ [b])).length_le
      simp only [List.length_append, List.length_singleton] at hends hlen
      omega
  · obtain ⟨rfl, htext⟩ := List.append_inj hfull heq.symm
    refine ⟨rfl, ?_⟩
    rcases List.prefix_or_prefix_of_prefix (List.prefix_append text rest)
      (htext ▸ List.prefix_append (u ++ [b]) _) with hle | ⟨w, hw⟩
    · exact hle
    · -- otherwise the end of the piece would be a cut inside of the text
      by_cases hnil : w = []
      · rw [hnil, List.append_nil] at hw
        exact hw ▸ List.prefix_rfl
      · refine absurd ?_ (hcut (u ++ [b]) w hw.symm (by simp) hnil)
        rw [pending_append, hpend, (pieces_snoc hu hb).2]
  · -- the start of the piece is a cut inside of the text
    obtain ⟨m, hm⟩ := List.prefix_of_prefix_length_le (List.prefix_append pre _) hB hgt.le
    rw [← hm, List.length_append] at hbegin hgt
    rw [← hm, List.prefix_append_right_inj] at hB
    obtain ⟨w, rfl⟩ := List.prefix_of_prefix_length_le hB (List.prefix_append text rest) (by omega)
    rw [List.length_append] at hbegin
    refine absurd (hm ▸ hpend) (hcut m w rfl ?_ ?_)
    · rintro rfl
      simp at hgt
    · rintro rfl
      simp at hbegin

end StudiesOS
