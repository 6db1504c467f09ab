import StudiesOS.ChatServer.Table
import StudiesOS.CText.Checked

/-! # The bounds of the framing
`main` reads into a buffer whose length it tracks in `buf_len`, and searches it with functions that
stop at the first NUL. Here the service of a client is translated once more, with `int` lengths and
with accesses to `buffer`, `message` and `target_name` that fail outside of the array
(`makeRoom`, `takeIn`, `extractAll`, and `processChecked` for `process_message`). For every
reachable entry none of them fails, and they do what the steps of the server do
(`framing_inBounds`). -/

namespace StudiesOS.ChatServer

/-- The buffer of a client, with `buf_len` as the `int` that it is. -/
structure Frame where
  /-- `buffer`. -/
  buffer : CharArray maxMsgLen
  /-- `buf_len`. -/
  bufLen : ℤ
deriving DecidableEq

/-- The frame of an entry. -/
def ClientInfo.frame (c : ClientInfo) : Frame := ⟨c.buffer, c.bufLen⟩

/-- A read that returns `data`: `buf_len += n; buffer[buf_len] = '\0'`. -/
def Frame.takeIn (f : Frame) (data : List Byte) : Option Frame := do
  let buffer ← f.buffer.storeBytes f.bufLen data
  let bufLen := f.bufLen + data.length
  let buffer ← buffer.store bufLen NUL
  some ⟨buffer, bufLen⟩

namespace Server

/-- `process_message(sender_index, message)`: what it leaves in `message`, and what it writes;
`targetName` is what stands in `target_name` at the start. The bounds of `formatted_msg` are not
looked at here. -/
def processChecked (s : Server) (sender : ℕ) (message targetName : CharArray maxMsgLen) :
    Option (CharArray maxMsgLen × List Write) := do
  let message ← message.dropNewline
  let first ← message.load 0
  if first = AT then
    match ← message.strchrFrom 1 SP with
    | none => some (message, [])
    | some spacePtr =>
        let nameLen := spacePtr - 1
        let targetName ← targetName.strncpy message 1 nameLen
        let targetName ← targetName.store nameLen NUL
        let name ← targetName.scan 0
        match s.findClientByName name with
        | none => some (message, [])
        | some target =>
            let text ← message.scan 0
            some (message,
              [s.sendMessage target ((s.clients sender).name.str ++ lit ": " ++ text ++ [LF])])
  else
    let text ← message.scan 0
    some (message,
      s.broadcastMessage ((s.clients sender).name.str ++ lit ": " ++ text ++ [LF]))

/-- The code in front of the `read`: the frame, and the size passed to `read`. -/
def makeRoom (s : Server) (i : ℕ) (targetName : CharArray maxMsgLen) (f : Frame) :
    Option (Frame × ℤ) := do
  let spaceLeft := (maxMsgLen : ℤ) - f.bufLen - 1
  if spaceLeft ≤ 0 then
    let buffer ← f.buffer.store f.bufLen NUL
    let (buffer, _) ← s.processChecked i buffer targetName
    some (⟨buffer, 0⟩, (maxMsgLen : ℤ) - 1)
  else some (f, spaceLeft)

/-- One test of the `while` loop: `some none` at the end of the loop, and the frame after an
iteration; `message` and `targetName` are what stands in the arrays at its start. -/
def extractChecked (s : Server) (i : ℕ) (message targetName : CharArray maxMsgLen) (f : Frame) :
    Option (Option Frame) := do
  match ← f.buffer.strchrFrom 0 LF with
  | none => some none
  | some newline =>
      let msgLen := newline + 1
      let message ← message.strncpy f.buffer 0 msgLen
      let message ← message.store msgLen NUL
      let _ ← s.processChecked i message targetName
      let remaining := f.bufLen - msgLen
      let moved ← f.buffer.loadBytes msgLen remaining
      let buffer ← f.buffer.storeBytes 0 moved
      let buffer ← buffer.store remaining NUL
      some (some ⟨buffer, remaining⟩)

/-- **The `while` loop**, which fails if it does not end within `fuel` tests. -/
def extractAll (s : Server) (i : ℕ) (message targetName : ℕ → CharArray maxMsgLen) :
    ℕ → Frame → Option Frame
  | 0, _ => none
  | fuel + 1, f => do
      match ← s.extractChecked i (message fuel) (targetName fuel) f with
      | none => some f
      | some f' => s.extractAll i message targetName fuel f'

variable {s : Server} {i : ℕ} {message targetName : CharArray maxMsgLen}

/-! ## The accesses of `process_message` -/

/-- The name behind the `'@'` fits into `target_name`, and is read back from there. -/
theorem targetName_eq {text rest : List Byte} {k : ℕ} (hmem : message.mem = AT :: (text ++ NUL :: rest))
    (hNUL : NUL ∉ text) (hk : k ≤ text.length) :
    ∃ t t', targetName.strncpy message 1 k = some t ∧ t.store k NUL = some t' ∧
      t'.scan 0 = some (text.take k) := by
  have hsize := message.size
  rw [hmem, List.length_cons, List.length_append, List.length_cons] at hsize
  have hlen : (text.take k).length = k := List.length_take_of_le hk
  have hname : NUL ∉ text.take k := fun h => hNUL (List.take_subset k text h)
  have hscan : message.scan 1 = some text := by
    rw [CharArray.scan_one hmem (List.mem_append_right _ List.mem_cons_self), cstr_append_NUL,
      cstr_eq_self hNUL]
  have hend : NUL ∈ ((targetName.write 0 (text.take k)).write k [NUL]).mem :=
    CharArray.mem_of_load (i := k) (CharArray.load_write (by omega))
  have hcopied : ((targetName.write 0 (text.take k)).write (text.take k).length [NUL]).str
      = text.take k :=
    CharArray.str_copied hname (by omega)
  rw [hlen] at hcopied
  refine ⟨_, _, CharArray.strncpy_eq rfl hscan hk (by omega), CharArray.store_eq rfl (by omega), ?_⟩
  rw [CharArray.scan_eq hend, hcopied]

/-- **`process_message` stays inside of its arrays**, and writes what the model says. -/
theorem processChecked_eq (h : NUL ∈ message.mem) :
    s.processChecked i message targetName
      = some (message.chomp, s.processMessage i message.str) := by
  have hterm := CharArray.mem_chomp h
  have hfirst := CharArray.load_str hterm (i := 0) (k := 0) rfl (Nat.zero_le _)
  have htext := CharArray.scan_eq hterm
  have hNUL : NUL ∉ chomp message.str := message.str_chomp ▸ not_mem_cstr _
  obtain ⟨rest, hrest⟩ := CharArray.exists_terminator hterm
  rw [message.str_chomp] at hfirst htext hrest
  rw [processChecked, processMessage, CharArray.dropNewline_eq h]
  simp only [Option.bind_eq_bind, Option.bind_some, hfirst, htext]
  generalize chomp message.str = text at *
  cases text with
  | nil => rfl
  | cons b text =>
      rw [List.getElem?_cons_zero, Option.getD_some, List.head?_cons, List.tail_cons]
      by_cases hb : b = AT
      · -- a message to one client
        subst hb
        rw [List.mem_cons, not_or] at hNUL
        have hspace : message.chomp.strchrFrom 1 SP
            = some ((strchr text SP).map fun k : ℕ => 1 + (k : ℤ)) := by
          have hmem : message.chomp.mem = AT :: (text ++ NUL :: rest) := hrest
          rw [CharArray.strchrFrom, CharArray.scan_one hmem
            (List.mem_append_right _ List.mem_cons_self), cstr_append_NUL, cstr_eq_self hNUL.2]
          rfl
        rw [if_pos rfl, if_pos rfl, hspace, Option.bind_some]
        cases hfind : strchr text SP with
        | none => rfl
        | some nameLen =>
            obtain ⟨u, v, rfl, -, rfl⟩ := strchr_eq_some hfind
            have hk : u.length ≤ (u ++ SP :: v).length := by
              rw [List.length_append]
              omega
            obtain ⟨t, t', hcopy, hstore, hscan⟩ :
                ∃ t t', targetName.strncpy message.chomp 1 u.length = some t ∧
                  t.store u.length NUL = some t' ∧ t'.scan 0 = some ((u ++ SP :: v).take u.length) :=
              targetName_eq hrest hNUL.2 hk
            have hlen : 1 + (u.length : ℤ) - 1 = u.length := by omega
            simp only [Option.map_some, hlen, hcopy, hstore, hscan, Option.bind_some]
            cases s.findClientByName ((u ++ SP :: v).take u.length) with
            | none => rfl
            | some target => rfl
      · rw [if_neg hb, if_neg fun heq => hb (Option.some.inj heq)]

/-! ## The accesses of `main` -/

/-- **The flush**, and the size passed to `read`. -/
theorem makeRoom_eq (hroom : (s.clients i).bufLen ≤ limit) :
    s.makeRoom i targetName (s.clients i).frame
      = some (((s.flush i).clients i).frame, ((s.flush i).spaceLeft i : ℤ)) := by
  have hlimit : limit + 1 = maxMsgLen := rfl
  have hlt : (s.clients i).bufLen < maxMsgLen := Nat.lt_succ_of_le hroom
  rw [makeRoom, flush]
  by_cases hfull : s.spaceLeft i = 0
  · have hspace : (maxMsgLen : ℤ) - (s.clients i).frame.bufLen - 1 ≤ 0 := by
      rw [spaceLeft] at hfull
      show (maxMsgLen : ℤ) - ((s.clients i).bufLen : ℤ) - 1 ≤ 0
      omega
    have hstore : (s.clients i).frame.buffer.store (s.clients i).frame.bufLen NUL
        = some ((s.clients i).buffer.write (s.clients i).bufLen [NUL]) :=
      CharArray.store_eq rfl hlt
    have hterm : NUL ∈ ((s.clients i).buffer.write (s.clients i).bufLen [NUL]).mem :=
      CharArray.mem_of_load (CharArray.load_write hlt)
    rw [if_pos hspace, if_pos hfull, hstore]
    simp only [Option.bind_eq_bind, Option.bind_some, processChecked_eq hterm, spaceLeft]
    simp only [ClientInfo.frame, setClient, record, Function.update_self]
    rfl
  · have hspace : ¬(maxMsgLen : ℤ) - (s.clients i).frame.bufLen - 1 ≤ 0 := by
      rw [spaceLeft] at hfull
      show ¬(maxMsgLen : ℤ) - ((s.clients i).bufLen : ℤ) - 1 ≤ 0
      omega
    rw [if_neg hspace, if_neg hfull, spaceLeft]
    refine congrArg (fun n : ℤ => some ((s.clients i).frame, n)) ?_
    show (maxMsgLen : ℤ) - ((s.clients i).bufLen : ℤ) - 1 = _
    omega

/-- **The read**: the bytes lie inside of the buffer, and the terminator behind them too. -/
theorem takeIn_eq {data : List Byte} (hroom : (s.clients i).bufLen ≤ limit)
    (hdata : data.length ≤ s.spaceLeft i) :
    (s.clients i).frame.takeIn data = some ((s.receive i data).clients i).frame := by
  have hlimit : limit + 1 = maxMsgLen := rfl
  rw [spaceLeft] at hdata
  have hbytes : (s.clients i).frame.buffer.storeBytes (s.clients i).frame.bufLen data
      = some ((s.clients i).buffer.write (s.clients i).bufLen data) :=
    CharArray.storeBytes_eq rfl (by omega)
  have hend : (s.clients i).frame.bufLen + data.length
      = ((s.clients i).bufLen + data.length : ℕ) := (Int.natCast_add _ _).symm
  have hlast : (s.clients i).bufLen + data.length < maxMsgLen := by omega
  rw [Frame.takeIn, hbytes]
  simp only [Option.bind_eq_bind, Option.bind_some, hend, CharArray.store_eq rfl hlast]
  simp only [ClientInfo.frame, receive, setClient, record, Function.update_self]

variable {t : Server}

/-- The end of the loop. -/
theorem extractChecked_none (hterm : NUL ∈ (t.clients i).buffer.mem)
    (hline : LF ∉ (t.clients i).buffer.str) :
    s.extractChecked i message targetName (t.clients i).frame = some none := by
  have hfind : (t.clients i).frame.buffer.strchrFrom 0 LF = some none := by
    show (t.clients i).buffer.strchrFrom 0 LF = _
    rw [CharArray.strchrFrom, CharArray.scan_eq hterm, Option.map_some,
      strchr_eq_none.mpr hline]
    rfl
  rw [extractChecked, hfind]
  rfl

/-- **One iteration**: the line fits into `message` with its terminator, and `memmove` gets the
bytes behind it. -/
theorem extractChecked_line {u v : List Byte} (hroom : (t.clients i).bufLen ≤ limit)
    (hterm : NUL ∈ (t.clients i).buffer.mem)
    (hstr : (t.clients i).buffer.str = cstr (t.clients i).content)
    (hline : (t.clients i).buffer.str = u ++ LF :: v) (hu : LF ∉ u) :
    s.extractChecked i message targetName (t.clients i).frame
      = some (some ((t.extractLine i (u.length + 1)).clients i).frame) := by
  have hlimit : limit + 1 = maxMsgLen := rfl
  obtain ⟨-, -, -, hle, -, -⟩ :=
    (t.clients i).buffer.line_content (hroom.trans (Nat.sub_le _ _)) hstr hline
  have hscan := CharArray.scan_eq hterm
  have hlen : u.length + 1 ≤ (t.clients i).buffer.str.length := by
    rw [hline, List.length_append, List.length_cons]
    omega
  have htake : ((t.clients i).buffer.str.take (u.length + 1)).length = u.length + 1 :=
    List.length_take_of_le hlen
  have hfind : (t.clients i).buffer.strchrFrom 0 LF = some (some (u.length : ℤ)) := by
    rw [CharArray.strchrFrom, hscan, Option.map_some, hline, strchr_append hu, Option.map_some,
      Int.zero_add]
  -- the copy of the line, and its terminator
  have hcopy : message.strncpy (t.clients i).buffer 0 ((u.length + 1 : ℕ) : ℤ)
      = some (message.write 0 ((t.clients i).buffer.str.take (u.length + 1))) :=
    CharArray.strncpy_eq rfl hscan hlen (by omega)
  have hstore := CharArray.store_eq (b := NUL) (i := ((u.length + 1 : ℕ) : ℤ))
    (a := message.write 0 ((t.clients i).buffer.str.take (u.length + 1))) rfl (by omega)
  have hmessage : NUL ∈ ((message.write 0 ((t.clients i).buffer.str.take (u.length + 1))).write
      (u.length + 1) [NUL]).mem :=
    CharArray.mem_of_load (CharArray.load_write (by omega))
  -- the bytes behind it
  have hremaining : ((t.clients i).bufLen : ℤ) - ((u.length + 1 : ℕ) : ℤ)
      = ((t.clients i).bufLen - (u.length + 1) : ℕ) := (Int.ofNat_sub hle).symm
  have hmoved : (t.clients i).buffer.loadBytes ((u.length + 1 : ℕ) : ℤ)
      (((t.clients i).bufLen - (u.length + 1) : ℕ) : ℤ)
      = some (((t.clients i).buffer.mem.drop (u.length + 1)).take
          ((t.clients i).bufLen - (u.length + 1))) :=
    CharArray.loadBytes_eq rfl rfl (by omega)
  have hback : (t.clients i).buffer.storeBytes 0
      (((t.clients i).buffer.mem.drop (u.length + 1)).take ((t.clients i).bufLen - (u.length + 1)))
      = some ((t.clients i).buffer.write 0 (((t.clients i).buffer.mem.drop (u.length + 1)).take
          ((t.clients i).bufLen - (u.length + 1)))) := by
    apply CharArray.storeBytes_eq (k := 0) rfl
    rw [List.length_take]
    omega
  have hlast : (t.clients i).bufLen - (u.length + 1) < maxMsgLen := by omega
  have hmsgLen : (u.length : ℤ) + 1 = ((u.length + 1 : ℕ) : ℤ) := (Int.natCast_add _ _).symm
  rw [extractChecked]
  simp only [ClientInfo.frame, Option.bind_eq_bind, Option.bind_some, hfind, hmsgLen, hcopy, hstore,
    processChecked_eq hmessage, hremaining, hmoved, hback, CharArray.store_eq rfl hlast]
  simp only [extractLine, setClient, record, Function.update_self]

/-- **The loop ends**, with fewer bytes at each iteration, and leaves what the steps of the server
leave. -/
theorem extractAll_run {readSet : ℕ → Bool} {message targetName : ℕ → CharArray maxMsgLen}
    {fuel : ℕ} (hpc : t.pc = .extract i readSet) (hroom : (t.clients i).bufLen ≤ limit)
    (hstr : (t.clients i).buffer.str = cstr (t.clients i).content)
    (hend : (t.clients i).buffer.load (t.clients i).bufLen = some NUL)
    (hfuel : (t.clients i).bufLen < fuel) :
    ∃ k t', run step t (List.replicate k .advance) = some t' ∧ t'.pc = .service (i + 1) readSet ∧
      s.extractAll i message targetName fuel (t.clients i).frame = some (t'.clients i).frame ∧
      (t'.clients i).bufLen ≤ limit ∧
      (t'.clients i).buffer.load (t'.clients i).bufLen = some NUL := by
  -- an iteration takes at least the newline out of the buffer, so that the fuel suffices
  induction fuel generalizing t with
  | zero => exact absurd hfuel (Nat.not_lt_zero _)
  | succ fuel ih =>
      have hterm := CharArray.mem_of_load hend
      cases hfind : strchr (t.clients i).buffer.str LF with
      | none =>
          refine ⟨1, t.goto (.service (i + 1) readSet), ?_, rfl, ?_, hroom, hend⟩
          · simp [run_cons, step, hpc, hfind]
          · rw [extractAll, extractChecked_none hterm (strchr_eq_none.mp hfind)]
            rfl
      | some newline =>
          obtain ⟨u, v, hline, hu, rfl⟩ := strchr_eq_some hfind
          obtain ⟨-, -, -, hle, -, -⟩ :=
            (t.clients i).buffer.line_content (hroom.trans (Nat.sub_le _ _)) hstr hline
          have hlimit : limit + 1 = maxMsgLen := rfl
          have hself : (t.extractLine i (u.length + 1)).clients i = _ := Function.update_self i _ _
          have hlast : (t.clients i).bufLen - (u.length + 1) < maxMsgLen := by omega
          obtain ⟨k, t', hrun, hpc', hall, hroom', hend'⟩ :=
            ih (t := t.extractLine i (u.length + 1)) hpc
              (by
                rw [hself]
                exact (Nat.sub_le _ _).trans hroom)
              (by
                rw [hself]
                exact CharArray.str_terminated _ hlast)
              (by
                rw [hself]
                exact CharArray.load_write hlast)
              (by
                rw [hself]
                show (t.clients i).bufLen - (u.length + 1) < fuel
                omega)
          refine ⟨k + 1, t', ?_, hpc', ?_, hroom', hend'⟩
          · rw [List.replicate_succ, run_cons]
            have hstep : step t .advance = some (t.extractLine i (u.length + 1)) := by
              simp only [step, hpc, hfind]
            rw [hstep]
            exact hrun
          · rw [extractAll, extractChecked_line hroom hterm hstr hline hu]
            exact hall

/-- After the flush there is room. -/
theorem flush_room (hroom : (s.clients i).bufLen ≤ limit) :
    ((s.flush i).clients i).bufLen < limit := by
  have hlimit : limit + 1 = maxMsgLen := rfl
  rw [flush]
  split
  · show (Function.update s.clients i _ i).bufLen < limit
    rw [Function.update_self]
    show 0 < limit
    decide
  · rename_i hspace
    rw [spaceLeft] at hspace
    omega

end Server

open Server

/-- **The framing stays in bounds and ends.** For every client in every reachable state, whatever
`message` and `target_name` hold: the code in front of the `read` passes it a size between `1` and
`MAX_MSG_LEN - 1`, and for every result of the `read` no access of the code behind it leaves its
array, the loop ends, and the buffer has a terminator at `buf_len`. When the client is served, this
is what the steps of the server make of its buffer. -/
theorem framing_inBounds {old : ℕ → ClientInfo} {as : List Act} {s : Server} {i : ℕ}
    (h : run step (init old) as = some s) (hi : i < s.numClients)
    (targetName : CharArray maxMsgLen) (message targetNames : ℕ → CharArray maxMsgLen) :
    ∃ f spaceLeft, s.makeRoom i targetName (s.clients i).frame = some (f, spaceLeft) ∧
      1 ≤ spaceLeft ∧ spaceLeft ≤ (maxMsgLen : ℤ) - 1 ∧
      ∀ data : List Byte, 1 ≤ data.length → data.length ≤ spaceLeft →
        ∃ g g', f.takeIn data = some g ∧
          s.extractAll i message targetNames maxMsgLen g = some g' ∧
          0 ≤ g'.bufLen ∧ g'.bufLen ≤ (maxMsgLen : ℤ) - 1 ∧
          g'.buffer.load g'.bufLen = some NUL ∧
          ∀ readSet, s.pc = .service i readSet → readSet (s.clients i).socketFd = true →
            ∃ k t, run step s (.read data :: List.replicate k .advance) = some t ∧
              t.pc = .service (i + 1) readSet ∧ (t.clients i).frame = g' := by
  have hlimit : limit + 1 = maxMsgLen := rfl
  have hroom := ((reachable_sound h).1.served i hi).room
  have hflush := flush_room hroom
  refine ⟨_, _, makeRoom_eq hroom, ?_, ?_, fun data hpos hdata => ?_⟩
  · rw [spaceLeft]
    omega
  · rw [spaceLeft]
    omega
  have hdata : data.length ≤ (s.flush i).spaceLeft i := Int.ofNat_le.mp hdata
  have hlen : ((s.flush i).clients i).bufLen + data.length ≤ limit := by
    rw [spaceLeft] at hdata
    omega
  -- the state in which the loop begins, in a round with `readSet`
  have hloop : ∀ readSet, ∃ k t,
      run step (((s.flush i).receive i data).goto (.extract i readSet))
        (List.replicate k .advance) = some t ∧ t.pc = .service (i + 1) readSet ∧
      s.extractAll i message targetNames maxMsgLen (((s.flush i).receive i data).clients i).frame
        = some (t.clients i).frame ∧ (t.clients i).bufLen ≤ limit ∧
      (t.clients i).buffer.load (t.clients i).bufLen = some NUL := by
    intro readSet
    have hself : ((s.flush i).receive i data).clients i = _ := Function.update_self i _ _
    refine extractAll_run (t := ((s.flush i).receive i data).goto (.extract i readSet)) rfl ?_ ?_
      ?_ ?_
    · show (((s.flush i).receive i data).clients i).bufLen ≤ limit
      rw [hself]
      exact hlen
    · show (((s.flush i).receive i data).clients i).buffer.str
        = cstr (((s.flush i).receive i data).clients i).content
      rw [hself]
      exact CharArray.str_terminated _ (by omega)
    · show (((s.flush i).receive i data).clients i).buffer.load
        (((s.flush i).receive i data).clients i).bufLen = some NUL
      rw [hself]
      exact CharArray.load_write (by omega)
    · show (((s.flush i).receive i data).clients i).bufLen < maxMsgLen
      rw [hself]
      show _ + _ < maxMsgLen
      omega
  obtain ⟨_, t, -, -, hall, hle, hend⟩ := hloop fun _ => true
  refine ⟨_, _, takeIn_eq hflush.le hdata, hall, Int.natCast_nonneg _, ?_, hend, ?_⟩
  · show ((t.clients i).bufLen : ℤ) ≤ (maxMsgLen : ℤ) - 1
    omega
  · intro readSet hpc hready
    obtain ⟨k, t', hrun, hpc', hall', -, -⟩ := hloop readSet
    refine ⟨k, t', ?_, hpc', ?_⟩
    · rw [run_cons]
      have hne : data ≠ [] := List.length_pos_iff.mp hpos
      have hstep : step s (.read data)
          = some (((s.flush i).receive i data).goto (.extract i readSet)) := by
        simp only [step, hpc, hi, hready, hdata, hne, and_self, if_true, if_false]
      rw [hstep]
      exact hrun
    · exact Option.some.inj (hall'.symm.trans hall)

/-- A client has filled its buffer, and is served again. -/
def fullBuffer : List Act :=
  [.select (fun _ => false) (some ⟨4, lit "10.0.0.1", lit "ann\n"⟩), .advance, .advance,
    .select (fun _ => true) none, .read (List.replicate 255 98), .advance, .advance,
    .select (fun _ => true) none]

theorem framing_inBounds_fullBuffer :
    ∃ s f spaceLeft g g', run step (init fun _ => .zero) fullBuffer = some s ∧
      (s.clients 0).bufLen = 255 ∧
      s.makeRoom 0 (.zero maxMsgLen) (s.clients 0).frame = some (f, spaceLeft) ∧
      f.takeIn (lit "\n") = some g ∧
      s.extractAll 0 (fun _ => .zero maxMsgLen) (fun _ => .zero maxMsgLen) maxMsgLen g = some g' ∧
      g'.buffer.load g'.bufLen = some NUL := by
  have heval : ((run step (init fun _ => .zero) fullBuffer).map fun s =>
      (s.numClients, (s.clients 0).bufLen)) = some (1, 255) := by
    decide +kernel
  obtain ⟨s, hs, hcount⟩ := Option.map_eq_some_iff.mp heval
  obtain ⟨hnum, hlen⟩ := Prod.mk.inj hcount
  obtain ⟨f, spaceLeft, hroom, hpos, -, hread⟩ := framing_inBounds hs (i := 0)
    (by rw [hnum]; exact Nat.one_pos) (.zero maxMsgLen) (fun _ => .zero maxMsgLen)
    (fun _ => .zero maxMsgLen)
  obtain ⟨g, g', hin, hall, -, -, hend, -⟩ := hread (lit "\n") (by decide) hpos
  exact ⟨s, f, spaceLeft, g, g', hs, hlen, hroom, hin, hall, hend⟩

end StudiesOS.ChatServer
