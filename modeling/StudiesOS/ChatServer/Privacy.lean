import StudiesOS.ChatServer.Framing

/-! # Private lines
A line `@name text` is meant for the clients registered as `name`. `process_message` decides by the
piece it gets, not by the line: a piece that begins inside of the line is broadcast. The line stays
private as long as no cut of the framing falls inside of it. -/

namespace StudiesOS.ChatServer

open Server

/-- A text that begins with `@`, a name and a blank is written only to a client of that name. -/
theorem processMessage_private (t : Server) (i : ℕ) {text name body : List Byte} (hSP : SP ∉ name)
    (htext : chomp text = AT :: (name ++ SP :: body)) :
    ∀ w ∈ t.processMessage i text, w.name = name := by
  intro w hw
  simp only [processMessage, htext, List.head?_cons, if_true, List.tail_cons,
    strchr_append hSP, List.take_left] at hw
  cases hfind : t.findClientByName name with
  | none =>
      rw [hfind] at hw
      exact absurd hw List.not_mem_nil
  | some target =>
      rw [hfind] at hw
      obtain rfl := List.mem_singleton.mp hw
      show (t.clients target).name.str = name
      simpa using List.find?_some hfind

/-- What a piece shows when it begins with `@`, a name and a blank. -/
theorem chomp_cstr_at {name : List Byte} (hNUL : NUL ∉ name) (body more : List Byte) :
    ∃ rest, chomp (cstr (AT :: (name ++ SP :: body) ++ more)) = AT :: (name ++ SP :: rest) := by
  have hhead : NUL ∉ AT :: (name ++ [SP]) := by
    simp only [List.mem_cons, List.mem_append, List.not_mem_nil, or_false, not_or]
    exact ⟨by decide, hNUL, by decide⟩
  have hstr : cstr (AT :: (name ++ SP :: body) ++ more)
      = AT :: (name ++ [SP]) ++ cstr (body ++ more) := by
    rw [← cstr_append hhead]
    simp only [List.cons_append, List.append_assoc, List.nil_append]
  rw [hstr, chomp]
  generalize cstr (body ++ more) = tail
  split
  · rename_i hlast
    have hne : tail ≠ [] := by
      rintro rfl
      rw [List.append_nil, ← List.cons_append, List.getLast?_concat] at hlast
      exact absurd hlast (by decide)
    refine ⟨tail.dropLast, ?_⟩
    rw [List.dropLast_append_of_ne_nil hne]
    simp only [List.cons_append, List.append_assoc, List.nil_append]
  · refine ⟨tail, ?_⟩
    simp only [List.cons_append, List.append_assoc, List.nil_append]

/-- **The line is private to `name`.** The line, its newline included, follows `pre` in the stream of
connection `c`. A call consumes the bytes from where the calls before it ended, and shows those of its
text; a call that shows a byte of the line writes only to clients registered as `name`. -/
def PrivateTo (s : Server) (c : ℕ) (pre line name : List Byte) : Prop :=
  ∀ before k after, s.callsOf c = before ++ k :: after →
    (before.map Call.raw).flatten.length < pre.length + line.length →
    pre.length < (before.map Call.raw).flatten.length + k.text.length →
    ∀ w ∈ k.writes, w.name = name

/-- **A line in which the framing makes no cut is private**; and in a stream without NULs before
the line, it makes none exactly when the line has at most 254 bytes and its newline. With one byte more
the newline is framed alone, and it is broadcast as an empty message. -/
theorem private_of_noCut {old : ℕ → ClientInfo} {as : List Act} {s : Server} {c : ℕ}
    {pre text name body rest : List Byte} (h : run step (init old) as = some s)
    (hstream : s.streamOf c <+: pre ++ (text ++ LF :: rest)) (hpre : pre = [] ∨ ∃ u, pre = u ++ [LF])
    (htext : text = AT :: (name ++ SP :: body)) (hLF : LF ∉ text) (hSP : SP ∉ name)
    (hNUL : NUL ∉ name) :
    (NoCutInside 255 pre (text ++ [LF]) → PrivateTo s c pre (text ++ [LF]) name) ∧
      (NUL ∉ pre → (NoCutInside 255 pre (text ++ [LF]) ↔ text.length ≤ 254)) := by
  refine ⟨fun hcut before k after hcalls hbegin hshow => ?_, fun hpreNUL =>
    (noCutInside_iff (by decide) hpre hpreNUL hLF).trans Nat.lt_succ_iff⟩
  have hgenuine := reachable_genuine h c k (mem_callsOf (hcalls ▸ List.mem_append_right _
    List.mem_cons_self))
  obtain ⟨t, i, hwrites⟩ := hgenuine.writes
  -- the call consumes a piece of the stream
  have hraws : s.rawsOf c = before.map Call.raw ++ k.raw :: after.map Call.raw := by
    rw [rawsOf, hcalls, List.map_append, List.map_cons]
  obtain ⟨more, hmore⟩ : ∃ more, pieces limit endsString [] (s.streamOf c)
      = before.map Call.raw ++ k.raw :: (after.map Call.raw ++ more) := by
    obtain ⟨more, hmore⟩ := (reachable_sound h).1.rawsOf_isPrefix c
    exact ⟨more, by rw [← hmore, hraws, List.append_assoc, List.cons_append]⟩
  -- so it begins with the line
  rw [hgenuine.text] at hshow
  have hline : s.streamOf c <+: pre ++ ((text ++ [LF]) ++ rest) := by
    rwa [List.append_assoc, List.singleton_append]
  obtain ⟨-, tail, htail⟩ := piece_covers_line hline hpre hcut hmore hbegin hshow
  have hbegins : text ++ [LF] = AT :: (name ++ SP :: (body ++ [LF])) := by
    rw [htext, List.cons_append, List.append_assoc, List.cons_append]
  obtain ⟨shown, hshown⟩ := chomp_cstr_at hNUL (body ++ [LF]) tail
  rw [hwrites]
  refine processMessage_private t i hSP (?_ : chomp k.text = AT :: (name ++ SP :: shown))
  rw [hgenuine.text, ← htail, hbegins, hshown]

/-- `bob` and `ann` enter, and `ann` sends a short line to `bob`. -/
def shortLineRun : List Act :=
  [.select (fun _ => false) (some ⟨4, lit "10.0.0.1", lit "bob\n"⟩), .advance, .advance,
    .select (fun _ => false) (some ⟨5, lit "10.0.0.2", lit "ann\n"⟩), .advance, .advance, .advance,
    .select (fun fd => fd = 5) none, .advance, .read (lit "@bob hi\n"), .advance]

theorem shortLine_private :
    ∃ s, run step (init fun _ => .zero) shortLineRun = some s ∧
      (s.callsOf 1).length = 1 ∧ PrivateTo s 1 [] (lit "@bob hi" ++ [LF]) (lit "bob") := by
  have heval : ((run step (init fun _ => .zero) shortLineRun).map fun s =>
      (s.streamOf 1, (s.callsOf 1).length)) = some (lit "@bob hi\n", 1) := by
    decide +kernel
  obtain ⟨s, hs, heq⟩ := Option.map_eq_some_iff.mp heval
  obtain ⟨hstream, hcalls⟩ := Prod.mk.inj heq
  have hprefix : s.streamOf 1 <+: [] ++ (lit "@bob hi" ++ LF :: []) := by
    rw [hstream]
    decide
  obtain ⟨hprivate, hcut⟩ := private_of_noCut hs hprefix (Or.inl rfl)
    (show lit "@bob hi" = AT :: (lit "bob" ++ SP :: lit "hi") by decide) (by decide) (by decide)
    (by decide)
  exact ⟨s, hs, hcalls, hprivate ((hcut (by decide)).mpr (by decide))⟩

/-! ## A line that is cut -/

/-- The line that `ann` sends: `@bob `, 250 times `x`, and `secret`. -/
def longLine : List Byte := lit "@bob " ++ List.replicate 250 120 ++ lit "secret"

/-- `bob`, `eve` and `ann` enter, and `ann` sends the line; the first read takes 255 bytes of it. -/
def longLineRun : List Act :=
  [.select (fun _ => false) (some ⟨4, lit "10.0.0.1", lit "bob\n"⟩), .advance, .advance,
    .select (fun _ => false) (some ⟨5, lit "10.0.0.2", lit "eve\n"⟩), .advance, .advance, .advance,
    .select (fun _ => false) (some ⟨6, lit "10.0.0.3", lit "ann\n"⟩), .advance, .advance, .advance,
    .advance,
    .select (fun fd => fd = 6) none, .advance, .advance, .read (longLine.take 255), .advance,
    .advance,
    .select (fun fd => fd = 6) none, .advance, .advance, .read (lit "secret\n"), .advance]

/-- The call for the part of the line that filled the buffer. -/
def firstPart : Call where
  raw := longLine.take 255
  text := longLine.take 255
  writes := [⟨0, lit "bob", lit "ann: " ++ longLine.take 255 ++ [LF]⟩]

/-- The call for the rest of it. -/
def secondPart : Call where
  raw := lit "secret\n"
  text := lit "secret\n"
  writes := [⟨0, lit "bob", lit "ann: secret\n"⟩, ⟨1, lit "eve", lit "ann: secret\n"⟩,
    ⟨2, lit "ann", lit "ann: secret\n"⟩]

/-- **The end of a long private line is broadcast.** -/
theorem longLine_not_private :
    ∃ s, run step (init fun _ => .zero) longLineRun = some s ∧
      s.streamOf 2 = longLine ++ [LF] ∧ longLine.length = 261 ∧
      longLine = AT :: (lit "bob" ++ SP :: (List.replicate 250 120 ++ lit "secret")) ∧
      ¬ PrivateTo s 2 [] (longLine ++ [LF]) (lit "bob") := by
  have heval : ((run step (init fun _ => .zero) longLineRun).map fun s =>
      (s.streamOf 2, s.callsOf 2)) = some (longLine ++ [LF], [firstPart, secondPart]) := by
    decide +kernel
  obtain ⟨s, hs, heq⟩ := Option.map_eq_some_iff.mp heval
  obtain ⟨hstream, hcalls⟩ := Prod.mk.inj heq
  refine ⟨s, hs, hstream, by decide +kernel, by decide +kernel, fun hprivate => ?_⟩
  have heve := hprivate [firstPart] secondPart [] hcalls (by decide +kernel) (by decide +kernel)
    ⟨1, lit "eve", lit "ann: secret\n"⟩ (by decide)
  exact absurd heve (by decide)

end StudiesOS.ChatServer
