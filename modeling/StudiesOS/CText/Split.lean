import StudiesOS.CText.Basic

/-! # Cutting text: `strtok_r` and reads through a bounded line buffer
`strtokR` is one call of `strtok_r`; its tokens are the `fields` of the text. `pieces` cuts a byte
stream the way a line buffer of `limit` bytes does: a piece is complete when its newline arrives, or
when the buffer is full; `pending` is what is left in the buffer. The newline test is a parameter `ends`,
so that a buffer which is searched with `strchr` (and so only up to its first NUL) and one which is not
are both instances. -/

namespace StudiesOS

/-! ## `strtok_r` -/

/-- **One call of `strtok_r`** with the delimiters `isDelim` on the rest of the text: the token and
the text behind its delimiter, or `none` when only delimiters are left. -/
def strtokR (isDelim : Byte → Bool) (s : List Byte) : Option (List Byte × List Byte) :=
  let t := s.dropWhile isDelim
  if t = [] then none
  else some (t.takeWhile fun b => !isDelim b, (t.dropWhile fun b => !isDelim b).drop 1)

/-! ## The fields of a text -/

section Fields

variable {isDelim : Byte → Bool} {s tok save : List Byte}

/-- **The fields of a text**: the parts between the delimiters that are not empty. -/
def fields (isDelim : Byte → Bool) (s : List Byte) : List (List Byte) :=
  (s.splitOnP isDelim).filter (· ≠ [])

/-- An empty text has no fields. -/
@[simp] theorem fields_nil : fields isDelim [] = [] := by simp [fields]

/-- A delimiter at the start belongs to no field. -/
theorem fields_cons_delim {b : Byte} (hb : isDelim b = true) (s : List Byte) :
    fields isDelim (b :: s) = fields isDelim s := by
  have hsplit := List.splitOnP_append_cons (p := isDelim) [] s hb
  rw [List.nil_append, List.splitOnP_nil] at hsplit
  rw [fields, hsplit]
  simp [fields]

/-- Delimiters at the start do not matter. -/
theorem fields_dropWhile (s : List Byte) : fields isDelim (s.dropWhile isDelim) = fields isDelim s := by
  induction s with
  | nil => rfl
  | cons b s ih =>
      by_cases hb : isDelim b
      · rw [List.dropWhile_cons_of_pos hb, fields_cons_delim hb, ih]
      · rw [List.dropWhile_cons_of_neg hb]

/-- A text without delimiters is one field. -/
theorem fields_singleton (hne : s ≠ []) (h : ∀ b ∈ s, isDelim b = false) :
    fields isDelim s = [s] := by
  rw [fields, List.splitOnP_eq_singleton h]
  simp [hne]

/-- The first field ends at the first delimiter. -/
theorem fields_append_cons {b : Byte} (hne : s ≠ []) (h : ∀ b ∈ s, isDelim b = false)
    (hb : isDelim b = true) (rest : List Byte) :
    fields isDelim (s ++ b :: rest) = s :: fields isDelim rest := by
  rw [fields, List.splitOnP_append_cons_of_forall_mem h b hb]
  simp [fields, hne]

/-- No part of a split has a delimiter in it. -/
theorem not_isDelim_of_mem_splitOnP {field : List Byte} (h : field ∈ s.splitOnP isDelim) :
    ∀ b ∈ field, isDelim b = false := by
  induction s generalizing field with
  | nil =>
      rw [List.splitOnP_nil, List.mem_singleton] at h
      rw [h]
      exact fun b hb => absurd hb List.not_mem_nil
  | cons c s ih =>
      rw [List.splitOnP_cons_eq_if_modifyHead] at h
      split at h
      · rcases List.mem_cons.mp h with rfl | hmem
        · exact fun b hb => absurd hb List.not_mem_nil
        · exact ih hmem
      · rename_i hc
        obtain ⟨first, more, hsplit⟩ := List.exists_cons_of_ne_nil (List.splitOnP_ne_nil isDelim s)
        rw [hsplit] at h ih
        rcases List.mem_cons.mp h with rfl | hmem
        · intro b hb
          rcases List.mem_cons.mp hb with rfl | hb
          · simpa using hc
          · exact ih List.mem_cons_self b hb
        · exact ih (List.mem_cons_of_mem first hmem)

/-- **What a field is**: it is not empty, and has no delimiter in it. -/
theorem of_mem_fields {field : List Byte} (h : field ∈ fields isDelim s) :
    field ≠ [] ∧ ∀ b ∈ field, isDelim b = false := by
  obtain ⟨hsplit, hne⟩ := List.mem_filter.mp h
  exact ⟨by simpa using hne, not_isDelim_of_mem_splitOnP hsplit⟩

/-- When `strtok_r` finds no token there are no fields. -/
theorem fields_of_strtokR_none (h : strtokR isDelim s = none) : fields isDelim s = [] := by
  have hnil : s.dropWhile isDelim = [] := by
    by_contra hne
    simp [strtokR, hne] at h
  rw [← fields_dropWhile, hnil, fields_nil]

/-- The token at the start of a text, with its delimiter behind it. -/
theorem strtokR_append_cons {b : Byte} (hne : s ≠ []) (h : ∀ b ∈ s, isDelim b = false)
    (hb : isDelim b = true) (rest : List Byte) :
    strtokR isDelim (s ++ b :: rest) = some (s, rest) := by
  obtain ⟨c, t, rfl⟩ := List.exists_cons_of_ne_nil hne
  have hpass : ∀ a ∈ c :: t, (!isDelim a) = true := fun a ha => by simp [h a ha]
  have hkeep : (c :: t ++ b :: rest).dropWhile isDelim = c :: t ++ b :: rest := by
    rw [List.cons_append, List.dropWhile_cons_of_neg (by simp [h c List.mem_cons_self])]
  rw [strtokR, hkeep, if_neg (by simp), List.takeWhile_append_of_pos hpass,
    List.dropWhile_append_of_pos hpass]
  simp [hb]

/-- The token of a text without delimiters is the text. -/
theorem strtokR_singleton (hne : s ≠ []) (h : ∀ b ∈ s, isDelim b = false) :
    strtokR isDelim s = some (s, []) := by
  obtain ⟨c, t, rfl⟩ := List.exists_cons_of_ne_nil hne
  have hpass : ∀ a ∈ c :: t, (!isDelim a) = true := fun a ha => by simp [h a ha]
  rw [strtokR, List.dropWhile_cons_of_neg (by simp [h c List.mem_cons_self]), if_neg (by simp),
    List.takeWhile_eq_self_iff.mpr hpass, List.dropWhile_eq_nil_iff.mpr hpass, List.drop_nil]

/-- **A token of `strtok_r`** is the text in front of a delimiter, or all of it. -/
theorem strtokR_eq_some (h : strtokR isDelim s = some (tok, save)) :
    tok ≠ [] ∧ (∀ b ∈ tok, isDelim b = false) ∧
      (s.dropWhile isDelim = tok ∧ save = [] ∨
        ∃ b, isDelim b = true ∧ s.dropWhile isDelim = tok ++ b :: save) := by
  rw [strtokR] at h
  generalize ht : s.dropWhile isDelim = t at h
  by_cases hnil : t = []
  · simp [hnil] at h
  · simp only [if_neg hnil, Option.some.injEq, Prod.mk.injEq] at h
    obtain ⟨rfl, rfl⟩ := h
    refine ⟨?_, fun b hb => by simpa using List.mem_takeWhile_imp hb, ?_⟩
    · -- what is left begins with a byte that is no delimiter
      obtain ⟨b, r, rfl⟩ := List.exists_cons_of_ne_nil hnil
      have hb : isDelim b = false := by
        have hhead := List.head_dropWhile_not isDelim (w := ht ▸ List.cons_ne_nil b r)
        simpa [ht] using hhead
      rw [List.takeWhile_cons_of_pos (by simpa using hb)]
      exact List.cons_ne_nil _ _
    · have hcut := List.takeWhile_append_dropWhile (p := fun b => !isDelim b) (l := t)
      cases hrest : t.dropWhile fun b => !isDelim b with
      | nil =>
          rw [hrest, List.append_nil] at hcut
          exact Or.inl ⟨hcut.symm, rfl⟩
      | cons b r =>
          refine Or.inr ⟨b, ?_, ?_⟩
          · have hhead := List.head_dropWhile_not (fun b => !isDelim b)
              (w := hrest ▸ List.cons_ne_nil b r)
            simpa [hrest] using hhead
          · rw [hrest] at hcut
            exact hcut.symm

/-- **The tokens of `strtok_r` are the fields**, one after another. -/
theorem fields_of_strtokR_some (h : strtokR isDelim s = some (tok, save)) :
    fields isDelim s = tok :: fields isDelim save := by
  obtain ⟨hne, htok, hcut⟩ := strtokR_eq_some h
  rw [← fields_dropWhile]
  rcases hcut with ⟨hall, rfl⟩ | ⟨b, hb, hcut⟩
  · rw [hall, fields_singleton hne htok, fields_nil]
  · rw [hcut, fields_append_cons hne htok hb]

end Fields

/-! ## The pieces of a stream -/

section Pieces

variable (limit : ℕ) (ends : List Byte → Byte → Bool)

/-- Whether the byte `b` completes the piece begun by `cur`: it ends a line, or fills the buffer. -/
def completes (cur : List Byte) (b : Byte) : Bool := ends cur b || decide (limit ≤ cur.length + 1)

/-- **The complete pieces of the stream `s`**, `cur` being in the buffer already. -/
def pieces : List Byte → List Byte → List (List Byte)
  | _, [] => []
  | cur, b :: s =>
      if completes limit ends cur b then (cur ++ [b]) :: pieces [] s else pieces (cur ++ [b]) s

/-- **What is left in the buffer** at the end of the stream `s`. -/
def pending : List Byte → List Byte → List Byte
  | cur, [] => cur
  | cur, b :: s => if completes limit ends cur b then pending [] s else pending (cur ++ [b]) s

@[simp] theorem pieces_nil (cur : List Byte) : pieces limit ends cur [] = [] := rfl

@[simp] theorem pending_nil (cur : List Byte) : pending limit ends cur [] = cur := rfl

theorem pieces_cons (cur : List Byte) (b : Byte) (s : List Byte) :
    pieces limit ends cur (b :: s)
      = if completes limit ends cur b then (cur ++ [b]) :: pieces limit ends [] s
        else pieces limit ends (cur ++ [b]) s := rfl

theorem pending_cons (cur : List Byte) (b : Byte) (s : List Byte) :
    pending limit ends cur (b :: s)
      = if completes limit ends cur b then pending limit ends [] s
        else pending limit ends (cur ++ [b]) s := rfl

/-- **The pieces of a stream read in two parts** are those of the first part, and those of the
second part with what the first one left in the buffer. -/
theorem pieces_append (cur s t : List Byte) :
    pieces limit ends cur (s ++ t)
      = pieces limit ends cur s ++ pieces limit ends (pending limit ends cur s) t := by
  induction s generalizing cur with
  | nil => simp
  | cons b s ih =>
      rw [List.cons_append, pieces_cons, pieces_cons, pending_cons]
      by_cases h : completes limit ends cur b
      · rw [if_pos h, if_pos h, if_pos h, ih, List.cons_append]
      · rw [if_neg h, if_neg h, if_neg h, ih]

/-- The buffer after a stream read in two parts. -/
theorem pending_append (cur s t : List Byte) :
    pending limit ends cur (s ++ t) = pending limit ends (pending limit ends cur s) t := by
  induction s generalizing cur with
  | nil => simp
  | cons b s ih =>
      rw [List.cons_append, pending_cons, pending_cons]
      by_cases h : completes limit ends cur b
      · rw [if_pos h, if_pos h, ih]
      · rw [if_neg h, if_neg h, ih]

/-- **Cutting loses nothing**: the pieces and the buffer together are the stream. -/
theorem pieces_flatten_append_pending (cur s : List Byte) :
    (pieces limit ends cur s).flatten ++ pending limit ends cur s = cur ++ s := by
  induction s generalizing cur with
  | nil => simp
  | cons b s ih =>
      rw [pieces_cons, pending_cons]
      by_cases h : completes limit ends cur b
      · rw [if_pos h, if_pos h, List.flatten_cons, List.append_assoc, ih, List.nil_append,
          List.append_assoc, List.singleton_append]
      · rw [if_neg h, if_neg h, ih, List.append_assoc, List.singleton_append]

/-- The buffer never holds a full piece. -/
theorem pending_length_lt (hlimit : 0 < limit) {cur : List Byte} (hcur : cur.length < limit)
    (s : List Byte) : (pending limit ends cur s).length < limit := by
  induction s generalizing cur with
  | nil => exact hcur
  | cons b s ih =>
      rw [pending_cons]
      by_cases h : completes limit ends cur b
      · rw [if_pos h]
        exact ih hlimit
      · rw [if_neg h]
        refine ih ?_
        have hlt : ¬ limit ≤ cur.length + 1 := by
          simp only [completes, Bool.or_eq_true, decide_eq_true_eq, not_or] at h
          exact h.2
        rw [List.length_append, List.length_singleton]
        omega

end Pieces

end StudiesOS
