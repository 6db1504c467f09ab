import StudiesOS.CText.Basic

/-! # Character arrays
`CharArray n` is a C array `char a[n]`; its length is part of the type, so a write can not change
it. A buffer is used as a length and the bytes in front of it: the lemmas say what `write` does to
the bytes in front of a position, and that a terminator makes them the string of the array. -/

namespace StudiesOS

/-! ## The first element that passes a test -/

section First

variable {α : Type*} {f g : α → Bool} {u u' v v' : List α} {x y : α}

/-- **Where the first element that passes is.** -/
theorem findIdx?_eq_length :
    (u ++ x :: v).findIdx? f = some u.length ↔ (∀ a ∈ u, f a = false) ∧ f x = true := by
  constructor
  · intro h
    rw [List.findIdx?_append] at h
    cases hu : u.findIdx? f with
    | some k =>
        -- an earlier element passes
        rw [hu, Option.some_or] at h
        obtain ⟨hlt, -⟩ := List.findIdx?_eq_some_iff_getElem.mp hu
        exact absurd (Option.some.inj h) (Nat.ne_of_lt hlt)
    | none =>
        refine ⟨List.findIdx?_eq_none_iff.mp hu, ?_⟩
        by_contra hx
        rw [hu, Option.none_or, List.findIdx?_cons, if_neg hx] at h
        obtain ⟨k, hk, hlen⟩ := Option.map_eq_some_iff.mp h
        obtain ⟨j, -, rfl⟩ := Option.map_eq_some_iff.mp hk
        omega
  · rintro ⟨hu, hx⟩
    rw [List.findIdx?_append, List.findIdx?_eq_none_iff.mpr hu, List.findIdx?_cons, if_pos hx,
      Option.none_or, Option.map_some, Nat.zero_add]

/-- Tests that agree on the elements are first passed at the same place. -/
theorem findIdx?_congr (h : ∀ a ∈ u, f a = g a) : u.findIdx? f = u.findIdx? g := by
  induction u with
  | nil => rfl
  | cons a u ih =>
      rw [List.findIdx?_cons, List.findIdx?_cons, h a List.mem_cons_self,
        ih fun b hb => h b (List.mem_cons_of_mem a hb)]

/-- The first element that passes is the only one. -/
theorem first_eq (h : u ++ x :: v = u' ++ y :: v') (hu : ∀ a ∈ u, f a = false) (hx : f x = true)
    (hu' : ∀ a ∈ u', f a = false) (hy : f y = true) : u = u' ∧ x = y := by
  have hlen : u.length = u'.length := by
    have hfirst := findIdx?_eq_length (v := v).mpr ⟨hu, hx⟩
    rw [h, findIdx?_eq_length.mpr ⟨hu', hy⟩] at hfirst
    exact (Option.some.inj hfirst).symm
  obtain ⟨rfl, hrest⟩ := List.append_inj h hlen
  exact ⟨rfl, (List.cons.inj hrest).1⟩

/-- It stands behind elements that do not pass. -/
theorem first_behind (h : u ++ v = u' ++ y :: v') (hu : ∀ a ∈ u, f a = false) (hy : f y = true) :
    ∃ w, u' = u ++ w ∧ v = w ++ y :: v' := by
  rcases List.append_eq_append_iff.mp h with ⟨w, hw, hv⟩ | ⟨w, hw, hv⟩
  · exact ⟨w, hw, hv⟩
  · cases w with
    | nil =>
        rw [List.append_nil] at hw
        exact ⟨[], by rw [hw, List.append_nil], hv.symm⟩
    | cons z w =>
        obtain ⟨rfl, -⟩ := List.cons.inj hv
        have hmem : y ∈ u := by
          rw [hw]
          exact List.mem_append_right _ List.mem_cons_self
        rw [hu y hmem] at hy
        cases hy

end First

/-! ## Searching a string -/

/-- **`strchr(s, b)`**: the first position of `b` in a string. -/
def strchr (s : List Byte) (b : Byte) : Option ℕ := s.findIdx? (· = b)

/-- `strchr` fails when the byte does not occur. -/
theorem strchr_eq_none {s : List Byte} {b : Byte} : strchr s b = none ↔ b ∉ s := by
  rw [strchr, List.findIdx?_eq_none_iff]
  constructor
  · intro h hb
    simpa using h b hb
  · intro h c hc
    simpa using ne_of_mem_of_not_mem hc h

/-- `strchr` finds the first occurrence. -/
theorem strchr_eq_some {s : List Byte} {b : Byte} {k : ℕ} (h : strchr s b = some k) :
    ∃ u v, s = u ++ b :: v ∧ b ∉ u ∧ u.length = k := by
  induction s generalizing k with
  | nil => simp [strchr] at h
  | cons c s ih =>
      rw [strchr, List.findIdx?_cons] at h
      by_cases hc : c = b
      · rw [if_pos (by simpa using hc)] at h
        obtain rfl := Option.some.inj h
        exact ⟨[], s, by rw [hc, List.nil_append], List.not_mem_nil, rfl⟩
      · rw [if_neg (by simpa using hc)] at h
        obtain ⟨j, hj, rfl⟩ := Option.map_eq_some_iff.mp h
        obtain ⟨u, v, rfl, hu, rfl⟩ := ih hj
        refine ⟨c :: u, v, rfl, ?_, rfl⟩
        rw [List.mem_cons, not_or]
        exact ⟨Ne.symm hc, hu⟩

/-- The first occurrence is what `strchr` finds. -/
theorem strchr_append {u v : List Byte} {b : Byte} (hu : b ∉ u) :
    strchr (u ++ b :: v) b = some u.length := by
  have hnone : ∀ c ∈ u, decide (c = b) = false := fun c hc =>
    decide_eq_false (ne_of_mem_of_not_mem hc hu)
  exact findIdx?_eq_length.mpr ⟨hnone, decide_eq_true (Eq.refl b)⟩

/-! ## Dropping the newline -/

/-- `if (s[len - 1] == '\n') s[len - 1] = '\0'`, on the string. -/
def chomp (s : List Byte) : List Byte := if s.getLast? = some LF then s.dropLast else s

/-- A line loses its newline. -/
@[simp] theorem chomp_line (s : List Byte) : chomp (s ++ [LF]) = s := by simp [chomp]

/-- A text without newlines stays as it is. -/
theorem chomp_eq_self {s : List Byte} (h : LF ∉ s) : chomp s = s := by
  rw [chomp, if_neg fun hlast => h (List.mem_of_getLast? hlast)]

/-- What is left is a prefix. -/
theorem chomp_isPrefix (s : List Byte) : chomp s <+: s := by
  rw [chomp]
  split
  · exact List.dropLast_prefix s
  · exact List.prefix_rfl

/-! ## Arrays -/

/-- **A C array `char a[n]`.** -/
structure CharArray (n : ℕ) where
  /-- The bytes. -/
  mem : List Byte
  /-- There are `n` of them. -/
  size : mem.length = n
deriving DecidableEq

namespace CharArray

variable {n : ℕ}

/-- An array filled with NUL, as `memset(a, 0, n)` leaves it. -/
def zero (n : ℕ) : CharArray n := ⟨List.replicate n NUL, List.length_replicate⟩

/-- The C string in the array. -/
def str (a : CharArray n) : List Byte := cstr a.mem

/-- **Write bytes from position `off` on**; what would lie outside of the array is dropped. -/
def write (a : CharArray n) (off : ℕ) (bytes : List Byte) : CharArray n where
  mem := (a.mem.take off ++ bytes ++ a.mem.drop (off + bytes.length)).take n
  size := by
    have := a.size
    simp only [List.length_take, List.length_append, List.length_drop]
    omega

/-- A write that stays inside the array drops nothing. -/
theorem write_mem (a : CharArray n) {off : ℕ} {bytes : List Byte} (h : off + bytes.length ≤ n) :
    (a.write off bytes).mem = a.mem.take off ++ (bytes ++ a.mem.drop (off + bytes.length)) := by
  have hsize := a.size
  show (a.mem.take off ++ bytes ++ a.mem.drop (off + bytes.length)).take n = _
  rw [List.take_of_length_le, List.append_assoc]
  simp only [List.length_append, List.length_take, List.length_drop]
  omega

/-- The bytes in front of a position inside the array. -/
theorem length_take (a : CharArray n) {k : ℕ} (hk : k ≤ n) : (a.mem.take k).length = k := by
  rw [List.length_take, a.size, min_eq_left hk]

/-- A write does not touch what stands in front of it. -/
theorem take_write (a : CharArray n) {off : ℕ} {bytes : List Byte} (h : off + bytes.length ≤ n) :
    (a.write off bytes).mem.take off = a.mem.take off := by
  rw [a.write_mem h, List.take_left' (a.length_take (by omega))]

/-- What stands in front of the end of a write: the bytes of before, and those written. -/
theorem take_write_end (a : CharArray n) {off : ℕ} {bytes : List Byte}
    (h : off + bytes.length ≤ n) :
    (a.write off bytes).mem.take (off + bytes.length) = a.mem.take off ++ bytes := by
  rw [a.write_mem h, ← List.append_assoc, List.take_left']
  rw [List.length_append, a.length_take (by omega)]

/-- **A terminator** makes the bytes in front of it the string of the array. -/
theorem str_terminate (a : CharArray n) {k : ℕ} (hk : k < n) :
    (a.write k [NUL]).str = cstr (a.mem.take k) := by
  rw [str, a.write_mem (by rw [List.length_singleton]; omega), List.singleton_append,
    cstr_append_NUL]

/-- The string of a terminated array, read off the array itself. -/
theorem str_terminated (a : CharArray n) {k : ℕ} (hk : k < n) :
    (a.write k [NUL]).str = cstr ((a.write k [NUL]).mem.take k) := by
  rw [a.str_terminate hk, a.take_write (by rw [List.length_singleton]; omega)]

/-- The bytes up to and with one of the string. -/
theorem take_line (a : CharArray n) {u v : List Byte} {b : Byte} (h : a.str = u ++ b :: v) :
    a.mem.take (u.length + 1) = u ++ [b] := by
  obtain ⟨more, hmore⟩ := cstr_isPrefix a.mem
  have hmem : a.mem = (u ++ [b]) ++ (v ++ more) := by
    have hstr : cstr a.mem = u ++ b :: v := h
    rw [← hmore, hstr]
    simp only [List.append_assoc, List.cons_append, List.nil_append]
  rw [hmem, List.take_left' (by rw [List.length_append, List.length_singleton])]

/-- **A line at the start of a terminated buffer**: it is what the buffer begins with, and the bytes
behind it are the rest of the content. -/
theorem line_content (a : CharArray n) {len : ℕ} {u v : List Byte} {b : Byte} (hlen : len ≤ n)
    (hstr : a.str = cstr (a.mem.take len)) (h : a.str = u ++ b :: v) :
    ∃ rest, a.mem.take len = u ++ [b] ++ rest ∧ len - (u.length + 1) = rest.length ∧
      u.length + 1 ≤ len ∧ (a.mem.drop (u.length + 1)).take (len - (u.length + 1)) = rest ∧
      NUL ∉ u := by
  obtain ⟨rest, hrest⟩ : u ++ [b] <+: a.mem.take len := by
    refine List.IsPrefix.trans ⟨v, ?_⟩ (cstr_isPrefix _)
    rw [← hstr, h, List.append_assoc, List.singleton_append]
  have hsize := congrArg List.length hrest
  rw [a.length_take hlen, List.length_append, List.length_append, List.length_singleton] at hsize
  refine ⟨rest, hrest.symm, by omega, by omega, ?_, fun hmem => ?_⟩
  · rw [← List.drop_take, ← hrest]
    exact List.drop_left' (by rw [List.length_append, List.length_singleton])
  · refine not_mem_cstr a.mem ?_
    show NUL ∈ a.str
    rw [h]
    exact List.mem_append_left _ hmem

/-- What has been moved to the start of a buffer, and terminated there. -/
theorem take_moved (a : CharArray n) {bytes : List Byte} (h : bytes.length < n) :
    ((a.write 0 bytes).write bytes.length [NUL]).mem.take bytes.length = bytes := by
  have hend : (a.write 0 bytes).mem.take (0 + bytes.length) = a.mem.take 0 ++ bytes :=
    a.take_write_end (by omega)
  rw [Nat.zero_add, List.take_zero, List.nil_append] at hend
  rw [take_write _ (by rw [List.length_singleton]; omega), hend]

/-- `strcpy(a, s)`. -/
def strcpy (a : CharArray n) (s : List Byte) : CharArray n := a.write 0 (s ++ [NUL])

/-- A string that fits is read back. -/
theorem str_strcpy (a : CharArray n) {s : List Byte} (hs : NUL ∉ s) (hlen : s.length < n) :
    (a.strcpy s).str = s := by
  have hfit : 0 + (s ++ [NUL]).length ≤ n := by
    rw [List.length_append, List.length_singleton]
    omega
  rw [strcpy, str, a.write_mem hfit, List.take_zero, List.nil_append, List.append_assoc,
    List.singleton_append, cstr_append_NUL, cstr_eq_self hs]

/-- `if (a[len - 1] == '\n') a[len - 1] = '\0'`, in the array. -/
def chomp (a : CharArray n) : CharArray n :=
  if a.str.getLast? = some LF then a.write (a.str.length - 1) [NUL] else a

/-- The string of the array loses its newline. -/
theorem str_chomp (a : CharArray n) : a.chomp.str = StudiesOS.chomp a.str := by
  rw [chomp, StudiesOS.chomp]
  split
  · rename_i hlast
    have hpos : 0 < a.str.length := by
      rw [List.length_pos_iff]
      rintro hnil
      rw [hnil] at hlast
      cases hlast
    have hsize : a.str.length ≤ n := (cstr_isPrefix a.mem).length_le.trans_eq a.size
    obtain ⟨rest, hrest⟩ := cstr_isPrefix a.mem
    have htake : a.mem.take (a.str.length - 1) = a.str.dropLast := by
      have hle : a.str.length - 1 ≤ (cstr a.mem).length := Nat.sub_le _ _
      rw [← hrest, List.take_append_of_le_length hle, List.dropLast_eq_take]
      rfl
    rw [a.str_terminate (by omega), htake]
    exact cstr_eq_self fun h => not_mem_cstr _ ((List.dropLast_prefix _).subset h)
  · rfl

/-- `memset(a, 0, n)` followed by a read of `bytes` into the array. -/
theorem str_zero_write {bytes : List Byte} (h : bytes.length < n) :
    ((zero n).write 0 bytes).str = cstr bytes := by
  have hrest : (zero n).mem.drop (0 + bytes.length)
      = NUL :: List.replicate (n - bytes.length - 1) NUL := by
    rw [zero, List.drop_replicate, ← List.replicate_succ]
    congr 1
    omega
  rw [str, write_mem _ (by omega), hrest, List.take_zero, List.nil_append, cstr_append_NUL]

end CharArray

end StudiesOS
