import StudiesOS.ChatClient.Relay

/-! # The screen
What the client prints: what it reads from the server, as long as there is no NUL in it, and a last
text when it comes to its end. -/

namespace StudiesOS.ChatClient

/-- What a step of the client reads from the server. -/
def Act.heard : Act → List Byte
  | .select (some data) _ => data
  | .select none _ | .read _ | .advance => []

/-- The text that the client prints at its end. -/
def Pc.farewell : Pc → List Byte
  | .ended .disconnected => lit "Server disconnected.\n"
  | .ended .exit => lit "client exiting\n"
  | .ended .inputEnded | .select | .input | .extract => []

namespace Client

variable {c c' : Client} {a : Act}

/-- The flush prints nothing. -/
theorem printed_flush (c : Client) : c.flush.printed = c.printed := by
  unfold flush
  split <;> rfl

/-- The text of `printf("%s", buffer)` behind a read without NULs. -/
theorem str_heard {data : List Byte} (hlen : data.length ≤ maxMsgLen - 1) (hNUL : NUL ∉ data) :
    ((CharArray.zero maxMsgLen).write 0 data).str = data := by
  have hlt : data.length < maxMsgLen := Nat.lt_succ_of_le hlen
  rw [CharArray.str_zero_write hlt, cstr_eq_self hNUL]

/-- **A step prints what it has heard**, and the last text if it ends the client. -/
theorem step_printed (h : step c a = some c') (hNUL : NUL ∉ a.heard) :
    c.pc.farewell = [] ∧
      c'.printed.flatten = c.printed.flatten ++ a.heard ++ c'.pc.farewell := by
  -- one more text behind those printed
  have hadd : ∀ text, (c.printed ++ [text]).flatten = c.printed.flatten ++ text := fun text => by
    rw [List.flatten_append, List.flatten_singleton]
  cases a with
  | select server stdin =>
      cases hpc : c.pc with
      | input | extract | ended => simp [step, hpc] at h
      | select =>
          refine ⟨rfl, ?_⟩
          cases server with
          | none =>
              simp only [step, hpc, Option.some.injEq] at h
              subst h
              cases stdin <;> simp [goto, Act.heard, Pc.farewell]
          | some data =>
              simp only [step, hpc] at h
              split_ifs at h with hlen hdata
              · -- the connection has ended
                cases h
                simp [goto, print, Act.heard, Pc.farewell, hdata]
              all_goals
                cases h
                simp only [goto, print, Act.heard, Pc.farewell, hadd, List.append_nil]
                rw [str_heard hlen hNUL]
  | read data =>
      cases hpc : c.pc with
      | select | extract | ended => simp [step, hpc] at h
      | input =>
          refine ⟨rfl, ?_⟩
          simp only [step, hpc] at h
          split_ifs at h
          all_goals
            cases h
            simp [goto, receive, Act.heard, Pc.farewell]
  | advance =>
      cases hpc : c.pc with
      | select | input | ended => simp [step, hpc] at h
      | extract =>
          refine ⟨rfl, ?_⟩
          simp only [step, hpc] at h
          cases hfind : strchr c.inputBuffer.str LF with
          | none =>
              rw [hfind] at h
              cases h
              simp [goto, printed_flush, Act.heard, Pc.farewell]
          | some newline =>
              rw [hfind] at h
              simp only at h
              split_ifs at h
              · cases h
                simp [goto, print, send, Act.heard, Pc.farewell]
              · cases h
                simp [send, shift, Act.heard, Pc.farewell, hpc]

/-- What has been written is never taken back. -/
theorem writes_isPrefix (hmove : Move c c') : c.writes <+: c'.writes := by
  cases hmove with
  | round | close | read => exact List.prefix_rfl
  | noLine hpc hline =>
      show c.writes <+: c.flush.writes
      unfold flush
      split
      · exact List.prefix_append _ _
      · exact List.prefix_rfl
  | line | exit => exact List.prefix_append _ _

end Client

end StudiesOS.ChatClient
