import StudiesOS.ChatServer.Attribution

/-! # The buffer for formatted messages
`process_message` formats a message with its `sprintf` into `formatted_msg`, and writes what it has
formatted to one client at least. A name and a text have at most 255 bytes each, by different
bounds, and for the separator, the newline and the terminator there are four more: the array is too
small for the longest of them together. -/

namespace StudiesOS.ChatServer

/-- The size of `formatted_msg`. -/
def formattedLen : ℕ := maxMsgLen * 2

/-- **What the call has formatted fits into `formatted_msg`**, with its terminator. A call that
formats a message writes it. -/
def Call.Fits (k : Call) : Prop := ∀ w ∈ k.writes, (w.data ++ [NUL]).length ≤ formattedLen

/-- **One of the two is short**: fewer than 254 bytes, or 254 bytes both. -/
def Moderate (name text : List Byte) : Prop :=
  name.length < maxMsgLen - 2 ∨ text.length < maxMsgLen - 2 ∨
    name.length = maxMsgLen - 2 ∧ text.length = maxMsgLen - 2

/-- Dropping the newline makes a text no longer. -/
theorem length_chomp_cstr (mem : List Byte) : (chomp (cstr mem)).length ≤ mem.length :=
  (chomp_isPrefix _).length_le.trans (cstr_isPrefix mem).length_le

/-- **The line for a name and a text that are no longer than the buffers they come from.** -/
theorem line_fits_iff {name text : List Byte} (hname : name.length ≤ limit)
    (htext : text.length ≤ limit) :
    (name ++ lit ": " ++ text ++ [LF] ++ [NUL]).length ≤ formattedLen ↔ Moderate name text := by
  have hsep : (lit ": ").length = 2 := rfl
  simp only [List.length_append, List.length_singleton, hsep, Moderate, formattedLen, maxMsgLen]
  simp only [limit, maxMsgLen] at hname htext
  omega

namespace Server

variable {s t : Server} {c : ℕ}

/-- Every first read has left room for a terminator. -/
def ShortFirsts (s : Server) : Prop := ∀ c first, .admitted c first ∈ s.log → first.length ≤ limit

/-- The first read of a step that is possible is short. -/
theorem firstRead_length {a : Act} (hstep : step s a = some t) : a.firstRead.length ≤ limit := by
  cases a with
  | read | advance => exact Nat.zero_le _
  | select ready incoming =>
      cases incoming with
      | none => exact Nat.zero_le _
      | some a =>
          cases hpc : s.pc with
          | service | extract => simp [step, hpc] at hstep
          | select =>
              simp only [step, hpc] at hstep
              split_ifs at hstep with ha
              exact ha.2

/-- **The first reads of every run are short.** -/
theorem reachable_shortFirsts {old : ℕ → ClientInfo} {as : List Act}
    (h : run step (init old) as = some s) : s.ShortFirsts := by
  refine (run_invariant (I := fun s => (s.Sound ∧ s.AtRest) ∧ s.ShortFirsts) ⟨?_, ?_⟩ ?_ h).2
  · exact reachable_sound (run_nil (init old))
  · exact fun c first hfirst => absurd hfirst List.not_mem_nil
  · rintro s a t ⟨⟨hsound, hrest⟩, hshort⟩ hstep
    refine ⟨move_sound hsound hrest (step_move hstep), fun c first hfirst => ?_⟩
    rcases step_admits hsound hrest hstep hfirst with hold | rfl
    · exact hshort c first hold
    · exact firstRead_length hstep

/-- The name of a connection has come from a first read. -/
theorem length_nameOf (h : s.ShortFirsts) (hlabelled : s.Labelled) (c : ℕ) :
    (s.nameOf c).length ≤ limit := by
  rcases s.nameOf_cases c with hnone | ⟨first, hfirst⟩
  · rw [hnone]
    exact Nat.zero_le _
  · rw [hlabelled.named c first hfirst]
    exact (length_chomp_cstr first).trans (h c first hfirst)

/-- The text of a call has come from a piece of the stream. -/
theorem length_text (hsound : s.Sound) (hgenuine : s.Genuine) {k : Call}
    (hk : .called c k ∈ s.log) : (chomp k.text).length ≤ limit := by
  have hraw : k.raw ∈ pieces limit endsString [] (s.streamOf c) := by
    refine (hsound.rawsOf_isPrefix c).subset (List.mem_map_of_mem ?_)
    refine List.mem_flatMap.mpr ⟨_, List.mem_filter.mpr ⟨hk, ?_⟩, List.mem_singleton_self k⟩
    simp [Event.conn]
  rw [(hgenuine c k hk).text]
  exact (length_chomp_cstr k.raw).trans (length_le_of_mem_pieces (by decide) hraw)

end Server

open Server

/-- **Formatting.** In every run, what is formatted for a message of connection `c` fits into
`formatted_msg` if and only if the name of `c` and the text are not both too long; so everything fits
in exactly the runs in which they never are. -/
theorem formatting {old : ℕ → ClientInfo} {as : List Act} {s : Server}
    (h : run step (init old) as = some s) :
    (∀ c first k, .admitted c first ∈ s.log → .called c k ∈ s.log → k.writes ≠ [] →
      (k.Fits ↔ Moderate (chomp (cstr first)) (chomp (cstr k.raw)))) ∧
    ((∀ c k, .called c k ∈ s.log → k.Fits) ↔
      ∀ c first k, .admitted c first ∈ s.log → .called c k ∈ s.log → k.writes ≠ [] →
        Moderate (chomp (cstr first)) (chomp (cstr k.raw))) := by
  have hlabelled := reachable_labelled h
  have hgenuine := reachable_genuine h
  have hname := length_nameOf (reachable_shortFirsts h) hlabelled
  have hcall : ∀ c k, .called c k ∈ s.log → k.writes ≠ [] →
      (k.Fits ↔ Moderate (s.nameOf c) (chomp (cstr k.raw))) := by
    intro c k hk hwrites
    -- all writes of a call carry the one line, so that one of them decides
    have hline := line_fits_iff (hname c) (length_text (reachable_sound h).1 hgenuine hk)
    obtain ⟨w, hw⟩ := List.exists_mem_of_ne_nil _ hwrites
    have hdata := (hlabelled.written c k hk).2
    rw [← (hgenuine c k hk).text, ← hline]
    constructor
    · intro hfits
      have hfit := hfits w hw
      rwa [hdata w hw] at hfit
    · intro hfit w' hw'
      rw [hdata w' hw']
      exact hfit
  have hboth : ∀ c first k, .admitted c first ∈ s.log → .called c k ∈ s.log → k.writes ≠ [] →
      (k.Fits ↔ Moderate (chomp (cstr first)) (chomp (cstr k.raw))) := by
    intro c first k hfirst hk hwrites
    rw [← hlabelled.named c first hfirst]
    exact hcall c k hk hwrites
  refine ⟨hboth, fun hfits c first k hfirst hk hwrites =>
    (hboth c first k hfirst hk hwrites).mp (hfits c k hk), fun hmoderate c k hk => ?_⟩
  by_cases hwrites : k.writes = []
  · intro w hw
    rw [hwrites] at hw
    cases hw
  · rcases s.nameOf_cases c with hnone | ⟨first, hfirst⟩
    · -- without a name nothing is too long
      refine (hcall c k hk hwrites).mpr (Or.inl ?_)
      rw [hnone]
      decide
    · exact (hboth c first k hfirst hk hwrites).mpr (hmoderate c first k hfirst hk hwrites)

/-- A client enters with a name of `n` bytes, and sends 256 bytes without a newline. -/
def longName (n : ℕ) : List Act :=
  [.select (fun _ => false) (some ⟨4, lit "10.0.0.1", List.replicate n 97⟩), .advance, .advance,
    .select (fun _ => true) none, .read (List.replicate 255 98), .advance, .advance,
    .select (fun _ => true) none, .read [98]]

/-- The call for what has filled the buffer. -/
def longCall (n : ℕ) : Call where
  raw := List.replicate 255 98
  text := List.replicate 255 98
  writes := [⟨0, List.replicate n 97,
    List.replicate n 97 ++ lit ": " ++ List.replicate 255 98 ++ [LF]⟩]

/-- What has happened in that run. -/
def longLog (n : ℕ) : List Event :=
  [.admitted 0 (List.replicate n 97), .received 0 (List.replicate 255 98), .called 0 (longCall n),
    .received 0 [98]]

/-- The call is there. -/
theorem called_mem_longLog (n : ℕ) : .called 0 (longCall n) ∈ longLog n :=
  List.mem_cons_of_mem _ (List.mem_cons_of_mem _ List.mem_cons_self)

/-- Nobody else enters. -/
theorem first_of_longLog {n c : ℕ} {first : List Byte} (h : .admitted c first ∈ longLog n) :
    first = List.replicate n 97 := by
  rcases List.mem_cons.mp h with heq | hmem
  · exact (Event.admitted.inj heq).2
  · simp only [List.mem_cons, reduceCtorEq, List.not_mem_nil, or_self] at hmem

theorem formatting_longName :
    ∃ s, run step (init fun _ => .zero) (longName 253) = some s ∧ .called 0 (longCall 253) ∈ s.log ∧
      ∀ c k, .called c k ∈ s.log → k.Fits := by
  have heval : ((run step (init fun _ => .zero) (longName 253)).map fun s => s.log)
      = some (longLog 253) := by
    decide +kernel
  obtain ⟨s, hs, hlog⟩ := Option.map_eq_some_iff.mp heval
  refine ⟨s, hs, ?_, (formatting hs).2.mpr fun c first k hfirst hk _ => Or.inl ?_⟩
  · rw [hlog]
    exact called_mem_longLog 253
  · rw [hlog] at hfirst
    rw [first_of_longLog hfirst]
    decide +kernel

/-- **The longest name and the longest text do not fit.** -/
theorem longName_overruns :
    ∃ s k w, run step (init fun _ => .zero) (longName 255) = some s ∧
      .admitted 0 (List.replicate 255 97) ∈ s.log ∧ .called 0 k ∈ s.log ∧ w ∈ k.writes ∧
      formattedLen = 512 ∧ (w.data ++ [NUL]).length = 514 ∧ ¬ k.Fits := by
  have heval : ((run step (init fun _ => .zero) (longName 255)).map fun s => s.log)
      = some (longLog 255) := by
    decide +kernel
  obtain ⟨s, hs, hlog⟩ := Option.map_eq_some_iff.mp heval
  have hw := List.mem_singleton_self (⟨0, List.replicate 255 97,
    List.replicate 255 97 ++ lit ": " ++ List.replicate 255 98 ++ [LF]⟩ : Write)
  refine ⟨s, longCall 255, _, hs, ?_, ?_, hw, rfl, by decide +kernel, fun hfits => ?_⟩
  · rw [hlog]
    exact List.mem_cons_self
  · rw [hlog]
    exact called_mem_longLog 255
  · exact absurd (hfits _ hw) (by decide +kernel)

end StudiesOS.ChatServer
