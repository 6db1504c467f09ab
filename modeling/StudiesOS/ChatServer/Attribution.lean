import StudiesOS.ChatServer.Routing

/-! # Attribution
The text of a message has no newline in it, on either of the two paths on which messages are framed.
The name in front of it is another matter: it is the first read of the client, and only a newline at
its end is dropped. So the lines that clients see are attributed to their sender exactly when the
sender's name has no newline in it. -/

namespace StudiesOS.ChatServer

variable {name text data l : List Byte}

/-- **A line of the data**: what stands before a newline, from the start or the newline before it. -/
def IsLine (data l : List Byte) : Prop :=
  LF ∉ l ∧ ∃ u v, data = u ++ (l ++ LF :: v) ∧ (u = [] ∨ ∃ u', u = u' ++ [LF])

/-- **Every line of the data is attributed to `name`**: it begins with the name, a colon and a
blank. -/
def Attributed (name data : List Byte) : Prop := ∀ l, IsLine data l → name ++ lit ": " <+: l

/-- **Exactly one newline**, at the end. -/
def OneNewline (data : List Byte) : Prop := ∃ u, data = u ++ [LF] ∧ LF ∉ u

/-- Data with one newline has one line. -/
theorem IsLine.eq {u : List Byte} (hu : LF ∉ u) (h : IsLine (u ++ [LF]) l) : l = u := by
  obtain ⟨hl, before, after, heq, hbefore⟩ := h
  rcases hbefore with rfl | ⟨more, rfl⟩
  · exact ((List.append_cons_inj_of_notMem hu List.not_mem_nil).mp heq).1.symm
  · -- there would be two newlines
    have hcount := congrArg (List.count LF) heq
    simp only [List.count_append, List.count_eq_zero_of_not_mem hu, List.count_cons_self,
      List.count_nil] at hcount
    omega

/-- The colon and the blank have no newline in them. -/
theorem not_mem_prefix : LF ∉ lit ": " := by decide

/-- The line for a message has newlines in its name only. -/
theorem not_mem_line (htext : LF ∉ text) : LF ∉ name ++ lit ": " ++ text ↔ LF ∉ name := by
  simp only [List.mem_append, not_or, htext, not_mem_prefix, not_false_eq_true, and_true]

/-- **The line for a message is attributed** exactly when the name has no newline in it. -/
theorem attributed_iff (htext : LF ∉ text) :
    Attributed name (name ++ lit ": " ++ text ++ [LF]) ↔ LF ∉ name := by
  constructor
  · intro h hname
    obtain ⟨u, v, heq, hu⟩ := List.eq_append_cons_of_mem hname
    -- what stands before the first newline of the name is a line
    have hline : IsLine (name ++ lit ": " ++ text ++ [LF]) u := by
      refine ⟨hu, [], v ++ lit ": " ++ text ++ [LF], ?_, Or.inl rfl⟩
      rw [heq]
      simp only [List.append_assoc, List.cons_append, List.nil_append]
    exact hu ((h u hline).subset (List.mem_append_left _ hname))
  · intro hname l hl
    rw [hl.eq ((not_mem_line htext).mpr hname)]
    exact List.prefix_append _ _

/-- **It has one newline** exactly then. -/
theorem oneNewline_iff (htext : LF ∉ text) :
    OneNewline (name ++ lit ": " ++ text ++ [LF]) ↔ LF ∉ name := by
  rw [← not_mem_line htext]
  constructor
  · rintro ⟨u, heq, hu⟩
    rw [List.append_cancel_right heq]
    exact hu
  · exact fun hline => ⟨_, rfl, hline⟩

/-- The first read of a client that enters with this action; empty when none does. -/
def Act.firstRead : Act → List Byte
  | .select _ (some a) => a.first
  | .select _ none | .read _ | .advance => []

/-- **No client enters with a newline inside of its name.** -/
def Act.PlainName (a : Act) : Prop := LF ∉ chomp (cstr a.firstRead)

instance (a : Act) : Decidable a.PlainName := inferInstanceAs (Decidable (LF ∉ _))

namespace Server

variable {s t : Server} {c : ℕ}

/-- Events that admit nobody to connection `c` leave its name. -/
theorem nameOf_append {events : List Event} (hlog : t.log = s.log ++ events)
    (hnone : ∀ first, .admitted c first ∉ events) : t.nameOf c = s.nameOf c := by
  have hfirsts : (events.filter fun e => e.conn = c).flatMap Event.firsts = [] := by
    refine List.flatMap_eq_nil_iff.mpr fun e he => ?_
    obtain ⟨hmem, hc⟩ := List.mem_filter.mp he
    cases e with
    | admitted d first =>
        obtain rfl : d = c := of_decide_eq_true hc
        exact absurd hmem (hnone first)
    | received | called | closed => rfl
  rw [nameOf, nameOf, firstsOf, eventsOf, hlog, List.filter_append, List.flatMap_append, hfirsts,
    List.append_nil]
  rfl

/-- What has happened to a connection tells that it has been accepted. -/
theorem Sound.accepted (h : s.Sound) {e : Event} (he : e ∈ s.log) : e.conn < s.accepted := by
  by_contra hge
  have hmem : e ∈ s.eventsOf e.conn := List.mem_filter.mpr ⟨he, by simp⟩
  rw [h.future _ (Nat.le_of_not_lt hge)] at hmem
  exact List.not_mem_nil hmem

/-- **The log is labelled**: names are the first reads, and everything written is the line of the
connection that made the call, with a text of one line. -/
structure Labelled (s : Server) : Prop where
  /-- The names. -/
  named : ∀ c first, .admitted c first ∈ s.log → s.nameOf c = chomp (cstr first)
  /-- What is written. -/
  written : ∀ c k, .called c k ∈ s.log →
    LF ∉ chomp k.text ∧ ∀ w ∈ k.writes, w.data = s.lineOf c k.text

/-- **Every move keeps the log labelled.** -/
theorem move_labelled (hsound : s.Sound) (hrest : s.AtRest) (h : s.Labelled) (hmove : Move s t) :
    t.Labelled := by
  obtain ⟨events, hlog, hmade, hadmits⟩ := move_events hsound hrest hmove
  -- whoever is known already keeps the name
  have hname : ∀ c < s.accepted, t.nameOf c = s.nameOf c := by
    intro c hc
    refine nameOf_append hlog fun first hfirst => ?_
    exact hc.ne (hadmits c first hfirst).1
  constructor
  · intro c first hfirst
    rw [hlog, List.mem_append] at hfirst
    rcases hfirst with hfirst | hfirst
    · rw [hname c (hsound.accepted hfirst)]
      exact h.named c first hfirst
    · obtain ⟨rfl, -, rfl⟩ := hadmits c first hfirst
      have hfirsts : t.firstsOf s.accepted = [first] := by
        rw [firstsOf, eventsOf_own hlog fun e he => by rw [List.mem_singleton.mp he]; rfl,
          hsound.future _ le_rfl]
        rfl
      rw [nameOf, hfirsts, List.flatten_singleton]
  · intro c k hk
    rw [hlog, List.mem_append] at hk
    rcases hk with hk | hk
    · obtain ⟨htext, hdata⟩ := h.written c k hk
      refine ⟨htext, fun w hw => ?_⟩
      rw [lineOf, hname c (hsound.accepted hk)]
      exact hdata w hw
    · obtain ⟨i, hi, rfl, htext, hwrites⟩ := hmade c k hk
      refine ⟨htext, fun w hw => ?_⟩
      rw [lineOf, hname _ (hsound.known i hi)]
      rw [hwrites] at hw
      exact processMessage_data hsound hi w hw

/-- **The log of a reachable state is labelled.** -/
theorem reachable_labelled {old : ℕ → ClientInfo} {as : List Act}
    (h : run step (init old) as = some s) : s.Labelled := by
  refine (run_invariant (I := fun s => (s.Sound ∧ s.AtRest) ∧ s.Labelled) ⟨?_, ?_⟩
    (fun s a s' hI hstep => ?_) h).2
  · exact reachable_sound (run_nil (init old))
  · exact ⟨fun c first hc => absurd hc List.not_mem_nil, fun c k hk => absurd hk List.not_mem_nil⟩
  · have hmove := step_move hstep
    exact ⟨move_sound hI.1.1 hI.1.2 hmove, move_labelled hI.1.1 hI.1.2 hI.2 hmove⟩

/-- **Who is admitted in a step** came with its action. -/
theorem step_admits {a : Act} {first : List Byte} (hsound : s.Sound) (hrest : s.AtRest)
    (hstep : step s a = some t) (hfirst : .admitted c first ∈ t.log) :
    .admitted c first ∈ s.log ∨ a.firstRead = first := by
  obtain ⟨events, hlog, -, hadmits⟩ := move_events hsound hrest (step_move hstep)
  rw [hlog, List.mem_append] at hfirst
  refine hfirst.imp_right fun hnew => ?_
  obtain ⟨rfl, hpc, rfl⟩ := hadmits c first hnew
  cases a with
  | read | advance => simp [step, hpc] at hstep
  | select ready incoming =>
      cases incoming with
      | none =>
          simp only [step, hpc] at hstep
          cases hstep
          exact absurd (List.self_eq_append_right.mp hlog) (List.cons_ne_nil _ _)
      | some a =>
          simp only [step, hpc] at hstep
          split_ifs at hstep with ha
          cases hstep
          rcases (entered_acceptClient ha).new with ⟨-, hsame⟩ | ⟨-, -, -, hadd⟩
          · rw [← hsame] at hlog
            exact absurd (List.self_eq_append_right.mp hlog) (List.cons_ne_nil _ _)
          · have heq := List.append_cancel_left (hadd.symm.trans hlog)
            exact (Event.admitted.inj (List.singleton_inj.mp heq)).2

/-- **In a run with plain names** no first read has a newline inside. -/
theorem plain_names {old : ℕ → ClientInfo} {as : List Act} (h : run step (init old) as = some s)
    (hplain : ∀ a ∈ as, a.PlainName) :
    ∀ c first, .admitted c first ∈ s.log → LF ∉ chomp (cstr first) := by
  have hsteps : EveryStep step (fun _ a => a.PlainName) (init old) as := by
    rintro bs a cs t rfl -
    exact hplain a (List.mem_append_right bs List.mem_cons_self)
  refine (guarded_invariant (I := fun s => (s.Sound ∧ s.AtRest) ∧
    ∀ c first, .admitted c first ∈ s.log → LF ∉ chomp (cstr first)) ⟨?_, ?_⟩ ?_ hsteps h).2
  · exact reachable_sound (run_nil (init old))
  · exact fun c first hc => absurd hc List.not_mem_nil
  · rintro s a t ⟨⟨hsound, hrest⟩, hnames⟩ ha hstep
    refine ⟨move_sound hsound hrest (step_move hstep), fun c first hfirst => ?_⟩
    rcases step_admits hsound hrest hstep hfirst with hold | rfl
    · exact hnames c first hold
    · exact ha

/-- A name that is not empty is that of a first read. -/
theorem nameOf_cases (s : Server) (c : ℕ) :
    s.nameOf c = [] ∨ ∃ first, .admitted c first ∈ s.log := by
  cases hfirsts : s.firstsOf c with
  | nil =>
      refine Or.inl ?_
      rw [nameOf, hfirsts]
      rfl
  | cons first more =>
      refine Or.inr ⟨first, mem_firstsOf ?_⟩
      rw [hfirsts]
      exact List.mem_cons_self

end Server

open Server

/-- **Attribution.** In every run, every write that a message of connection `c` causes is attributed to
the name of `c`, and has one newline, at its end, if and only if that name, the first read of `c`, has
no newline inside; so all writes of a run are, in which nobody enters with such a name. -/
theorem attribution {old : ℕ → ClientInfo} {as : List Act} {s : Server}
    (h : run step (init old) as = some s) :
    (∀ c first k w, .admitted c first ∈ s.log → .called c k ∈ s.log → w ∈ k.writes →
      (Attributed (chomp (cstr first)) w.data ↔ LF ∉ chomp (cstr first)) ∧
      (OneNewline w.data ↔ LF ∉ chomp (cstr first))) ∧
    ((∀ a ∈ as, a.PlainName) → ∀ c k w, .called c k ∈ s.log → w ∈ k.writes →
      Attributed (s.nameOf c) w.data ∧ OneNewline w.data) := by
  have hlabelled := reachable_labelled h
  refine ⟨fun c first k w hfirst hk hw => ?_, fun hplain c k w hk hw => ?_⟩
  · obtain ⟨htext, hdata⟩ := hlabelled.written c k hk
    rw [hdata w hw, lineOf, hlabelled.named c first hfirst]
    exact ⟨attributed_iff htext, oneNewline_iff htext⟩
  · obtain ⟨htext, hdata⟩ := hlabelled.written c k hk
    have hname : LF ∉ s.nameOf c := by
      rcases s.nameOf_cases c with hnone | ⟨first, hfirst⟩
      · rw [hnone]
        exact List.not_mem_nil
      · rw [hlabelled.named c first hfirst]
        exact plain_names h hplain c first hfirst
    rw [hdata w hw, lineOf]
    exact ⟨(attributed_iff htext).mpr hname, (oneNewline_iff htext).mpr hname⟩

theorem attribution_movedAddressee :
    ∃ s, run step (init fun _ => .zero) (movedAddressee ++ [.advance]) = some s ∧
      .called 1 toEve ∈ s.log ∧
      ∀ w ∈ toEve.writes, Attributed (s.nameOf 1) w.data ∧ OneNewline w.data := by
  have heval : ((run step (init fun _ => .zero) (movedAddressee ++ [.advance])).map fun s =>
      decide (.called 1 toEve ∈ s.log)) = some true := by
    decide +kernel
  obtain ⟨s, hs, hcalled⟩ := Option.map_eq_some_iff.mp heval
  have hcalled := of_decide_eq_true hcalled
  exact ⟨s, hs, hcalled, fun w hw => (attribution hs).2 (by decide) 1 toEve w hcalled hw⟩

/-- `ann` enters, and then a client whose first read ends the line of its name and begins another
one; and it sends a line. -/
def forgedName : List Act :=
  [.select (fun _ => false) (some ⟨4, lit "10.0.0.1", lit "ann\n"⟩), .advance, .advance,
    .select (fun _ => false) (some ⟨5, lit "10.0.0.2", lit "eve\nann\n"⟩), .advance, .advance, .advance,
    .select (fun fd => fd = 5) none, .advance, .read (lit "I quit\n"), .advance]

/-- The call for that line. -/
def forgedLine : Call where
  raw := lit "I quit\n"
  text := lit "I quit\n"
  writes := [⟨0, lit "ann", lit "eve\nann: I quit\n"⟩, ⟨1, lit "eve\nann", lit "eve\nann: I quit\n"⟩]

/-- **A line of `eve` is attributed to `ann`.** -/
theorem forgedLine_not_attributed :
    ∃ s, run step (init fun _ => .zero) forgedName = some s ∧ .called 1 forgedLine ∈ s.log ∧
      ⟨0, lit "ann", lit "eve\nann: I quit\n"⟩ ∈ forgedLine.writes ∧
      s.nameOf 1 = lit "eve\nann" ∧ IsLine (lit "eve\nann: I quit\n") (lit "ann: I quit") ∧
      ¬ Attributed (s.nameOf 1) (lit "eve\nann: I quit\n") ∧
      ¬ OneNewline (lit "eve\nann: I quit\n") := by
  have heval : ((run step (init fun _ => .zero) forgedName).map fun s =>
      (decide (.called 1 forgedLine ∈ s.log), s.nameOf 1)) = some (true, lit "eve\nann") := by
    decide +kernel
  obtain ⟨s, hs, heq⟩ := Option.map_eq_some_iff.mp heval
  obtain ⟨hcalled, hname⟩ := Prod.mk.inj heq
  have hline : lit "eve\nann: I quit\n" = lit "eve\nann" ++ lit ": " ++ lit "I quit" ++ [LF] := by
    decide +kernel
  refine ⟨s, hs, of_decide_eq_true hcalled, List.mem_cons_self, hname,
    ⟨by decide, lit "eve\n", [], by decide +kernel, Or.inr ⟨lit "eve", by decide⟩⟩, ?_, ?_⟩
  · rw [hname, hline, attributed_iff (by decide)]
    decide
  · rw [hline, oneNewline_iff (by decide)]
    decide

end StudiesOS.ChatServer
