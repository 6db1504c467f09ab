import StudiesOS.ChatServer.Attribution

/-! # The traffic of a connection
What a step of the server reads from which connection, and what it writes to which: the stream of a
connection grows by what is read from it and by nothing else (`step_stream`), and nothing that is
written has a NUL in it. -/

namespace StudiesOS.ChatServer

/-- What a step of the server reads. -/
def Act.bytesRead : Act → List Byte
  | .select _ (some a) => a.first
  | .read data => data
  | .select _ none | .advance => []

/-- What it reads behind the first read of a connection. -/
def Act.data : Act → List Byte
  | .read data => data
  | .select _ _ | .advance => []

/-- What the events write to connection `c`. -/
def writtenTo (c : ℕ) (events : List Event) : List Byte :=
  (((events.flatMap Event.calls).flatMap Call.writes).filter fun w => w.conn = c).flatMap Write.data

/-- More events. -/
theorem writtenTo_append (c : ℕ) (events more : List Event) :
    writtenTo c (events ++ more) = writtenTo c events ++ writtenTo c more := by
  simp only [writtenTo, List.flatMap_append, List.filter_append]

namespace Server

variable {s t : Server} {c i : ℕ} {a : Act} {events : List Event}

/-- The connection that a step reads from: the one to be accepted next, or that of the client at
hand. -/
def source (s : Server) (a : Act) : ℕ :=
  match a, s.pc with
  | .read _, .service i _ => s.conn i
  | _, _ => s.accepted

/-! ## What is read -/

/-- From an accepted connection a step reads what goes behind its stream. -/
theorem bytesRead_eq (h : s.source a < s.accepted) : a.bytesRead = a.data := by
  cases a with
  | select ready incoming => exact absurd h (lt_irrefl _)
  | read | advance => rfl

/-- The stream of a connection behind more events. -/
theorem streamOf_append (hlog : t.log = s.log ++ events) (c : ℕ) :
    t.streamOf c = s.streamOf c ++ (events.filter fun e => e.conn = c).flatMap Event.bytes := by
  unfold streamOf eventsOf
  rw [hlog, List.filter_append, List.flatMap_append]

/-- Events without bytes leave every stream as it is. -/
theorem streamOf_quiet (hlog : t.log = s.log ++ events) (hquiet : ∀ e ∈ events, e.bytes = []) (c : ℕ) :
    t.streamOf c = s.streamOf c := by
  have hnone : (events.filter fun e => e.conn = c).flatMap Event.bytes = [] :=
    List.flatMap_eq_nil_iff.mpr fun e he => hquiet e (List.mem_of_mem_filter he)
  rw [streamOf_append hlog, hnone, List.append_nil]

/-- The calls of a flush have no bytes. -/
theorem bytes_of_call {text : List Byte}
    (hcalls : ∀ e ∈ events, e = s.call i (s.clients i).content text) : ∀ e ∈ events, e.bytes = [] := by
  intro e he
  rw [hcalls e he]
  rfl

/-- **The streams after a step**: what has been read from the client at hand is behind its stream. -/
theorem step_stream (hsound : s.Sound) (hrest : s.AtRest) (h : step s a = some t) (c : ℕ) :
    t.streamOf c = s.streamOf c ++ (if s.source a = c then a.data else []) := by
  have hnothing : ∀ p : Prop, ∀ _ : Decidable p, (if p then ([] : List Byte) else []) = [] :=
    fun p _ => ite_self []
  cases a with
  | select ready incoming =>
      rw [Act.data, hnothing, List.append_nil]
      cases hpc : s.pc with
      | service | extract => simp [step, hpc] at h
      | select =>
          cases incoming with
          | none =>
              simp only [step, hpc] at h
              cases h
              rfl
          | some a =>
              simp only [step, hpc] at h
              split_ifs at h with ha
              cases h
              rcases (entered_acceptClient ha).new with ⟨-, hlog⟩ | ⟨-, -, -, hlog⟩
              · exact streamOf_quiet (hlog.trans (List.append_nil _).symm) (by simp) c
              · refine streamOf_quiet hlog (fun e he => ?_) c
                rw [List.mem_singleton.mp he]
                rfl
  | read data =>
      cases hpc : s.pc with
      | select | extract => simp [step, hpc] at h
      | service i readSet =>
          have hsource : s.source (.read data) = s.conn i := by simp only [source, hpc]
          rw [hsource]
          simp only [step, hpc] at h
          split_ifs at h with hguard hdata
          · -- the connection has ended
            cases h
            obtain ⟨calls, hlog, hcalls⟩ :=
              (left_removeClient hsound hrest hguard.1 (by simp [hpc])).closed
            rw [Act.data, hdata, hnothing, List.append_nil]
            refine streamOf_quiet hlog (fun e he => ?_) c
            rcases List.mem_append.mp he with he | he
            · exact bytes_of_call hcalls e he
            · rw [List.mem_singleton.mp he]
              rfl
          · cases h
            obtain ⟨calls, hlog, hcalls⟩ := log_flush (s := s) i
            have hflush : (s.flush i).streamOf c = s.streamOf c :=
              streamOf_quiet hlog (bytes_of_call hcalls) c
            have hconn : (s.flush i).conn i = s.conn i := (sameClients_flush i).conn i
            have hadd : ((s.flush i).receive i data).log
                = (s.flush i).log ++ [.received (s.conn i) data] := by
              rw [← hconn]
              rfl
            show ((s.flush i).receive i data).streamOf c = _
            rw [streamOf_append hadd, hflush, List.filter_singleton]
            by_cases hc : s.conn i = c
            · simp [Event.conn, Event.bytes, Act.data, hc]
            · simp [Event.conn, hc]
  | advance =>
      rw [Act.data, hnothing, List.append_nil]
      cases hpc : s.pc with
      | select => simp [step, hpc] at h
      | service i readSet =>
          simp only [step, hpc] at h
          split_ifs at h
          all_goals
            cases h
            rfl
      | extract i readSet =>
          simp only [step, hpc] at h
          cases hfind : strchr (s.clients i).buffer.str LF with
          | none =>
              rw [hfind] at h
              cases h
              rfl
          | some newline =>
              rw [hfind] at h
              cases h
              exact streamOf_quiet (s := s) rfl (fun e he => by rw [List.mem_singleton.mp he]; rfl) c

/-- **Whom a step admits**: only the connection accepted last, with what the step has read from it. -/
theorem step_admitted {first : List Byte} (hsound : s.Sound) (hrest : s.AtRest) (h : step s a = some t)
    (hfirst : .admitted c first ∈ t.log) :
    .admitted c first ∈ s.log ∨
      c = s.accepted ∧ s.source a = c ∧ a.bytesRead = first ∧ t.streamOf c = [] := by
  obtain ⟨events, hlog, -, hadmits⟩ := move_events hsound hrest (step_move h)
  have hmem := hfirst
  rw [hlog, List.mem_append] at hmem
  refine hmem.imp_right fun hnew => ?_
  obtain ⟨rfl, hpc, rfl⟩ := hadmits c first hnew
  cases a with
  | read | advance => simp [step, hpc] at h
  | select ready incoming =>
      refine ⟨rfl, rfl, ?_, ?_⟩
      · rcases step_admits hsound hrest h hfirst with hold | hread
        · exact absurd (hsound.accepted hold) (lt_irrefl _)
        · cases incoming with
          | none => exact hread
          | some a => exact hread
      · rw [step_stream hsound hrest h, Act.data, ite_self, List.append_nil, streamOf,
          hsound.future _ le_rfl]
        rfl

/-- The number of accepted connections only grows. -/
theorem accepted_le (hmove : Move s t) : s.accepted ≤ t.accepted := by
  have hflush : ∀ i, (s.flush i).accepted = s.accepted := by
    intro i
    unfold flush
    split <;> rfl
  cases hmove with
  | round | next | done | noLine | line => exact le_rfl
  | read i readSet data hpc hi hdata => exact (hflush i).ge
  | accept ready b hpc hb =>
      show s.accepted ≤ (s.acceptClient b).accepted
      unfold acceptClient
      split <;> exact Nat.le_succ _
  | leave i readSet hpc hi =>
      show s.accepted ≤ ((s.flush i).removeClient (s.clients i).socketFd).accepted
      unfold removeClient
      split <;> exact (hflush i).ge

/-- What a step reads comes from an accepted connection. -/
theorem source_lt (hsound : s.Sound) (h : step s a = some t) (hread : a.bytesRead ≠ []) :
    s.source a < t.accepted := by
  cases a with
  | select ready incoming =>
      cases hpc : s.pc with
      | service | extract => simp [step, hpc] at h
      | select =>
          cases incoming with
          | none => exact absurd rfl hread
          | some b =>
              simp only [step, hpc] at h
              split_ifs at h
              cases h
              show s.accepted < (s.acceptClient b).accepted
              unfold acceptClient
              split <;> exact Nat.lt_succ_self _
  | read data =>
      cases hpc : s.pc with
      | select | extract => simp [step, hpc] at h
      | service i readSet =>
          have hsource : s.source (.read data) = s.conn i := by simp only [source, hpc]
          have hle := accepted_le (step_move h)
          simp only [step, hpc] at h
          split_ifs at h with hguard
          all_goals
            rw [hsource]
            exact (hsound.known i hguard.1).trans_le hle
  | advance => exact absurd rfl hread

/-- **Nothing is taken back**: the log of a run only grows. -/
theorem run_log {as : List Act} (hsound : s.Sound) (hrest : s.AtRest) (h : run step s as = some t) :
    s.log <+: t.log := by
  refine (run_invariant (I := fun t => (t.Sound ∧ t.AtRest) ∧ s.log <+: t.log)
    ⟨⟨hsound, hrest⟩, List.prefix_rfl⟩ (fun t a u hI hstep => ?_) h).2
  obtain ⟨⟨ht, htrest⟩, hle⟩ := hI
  obtain ⟨events, hlog, -, -⟩ := move_events ht htrest (step_move hstep)
  exact ⟨move_sound ht htrest (step_move hstep), hle.trans ⟨events, hlog.symm⟩⟩

/-! ## What is written -/

/-- The line for a message has no NUL in it. -/
theorem not_mem_lineOf {text : List Byte} (htext : NUL ∉ text) : NUL ∉ s.lineOf c text := by
  unfold lineOf nameOf
  simp only [List.mem_append, not_or]
  refine ⟨⟨⟨fun hmem => ?_, by decide⟩, fun hmem => ?_⟩, by decide⟩
  · exact not_mem_cstr _ ((chomp_isPrefix _).subset hmem)
  · exact htext ((chomp_isPrefix _).subset hmem)

/-- **Nothing that is written has a NUL in it.** -/
theorem not_mem_writtenTo (hgenuine : s.Genuine) (hlabelled : s.Labelled) (d : ℕ) :
    NUL ∉ writtenTo d s.log := by
  intro hmem
  obtain ⟨w, hw, hNUL⟩ := List.mem_flatMap.mp hmem
  obtain ⟨k, hk, hwk⟩ := List.mem_flatMap.mp (List.mem_of_mem_filter hw)
  obtain ⟨e, he, hke⟩ := List.mem_flatMap.mp hk
  cases e with
  | called c k' =>
      obtain rfl := List.mem_singleton.mp hke
      rw [(hlabelled.written c k he).2 w hwk] at hNUL
      refine not_mem_lineOf (fun htext => ?_) hNUL
      rw [(hgenuine c k he).text] at htext
      exact not_mem_cstr _ htext
  | admitted | received | closed => exact absurd hke List.not_mem_nil

end Server

end StudiesOS.ChatServer
