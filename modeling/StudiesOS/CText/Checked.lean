import StudiesOS.CText.Memory

/-! # Accesses that are checked
The accesses to a character array with an `int` index or length, and the functions of `<string.h>` that
make such accesses. They fail where the C code would touch a byte outside of the array; a function
that scans a string fails unless it comes to a terminator inside of it. For every access there is a
lemma that it succeeds inside of the array, and what it does then. -/

namespace StudiesOS.CharArray

variable {n m : ℕ} {a : CharArray n}

/-- `a[i]`. -/
def load (a : CharArray n) (i : ℤ) : Option Byte :=
  if 0 ≤ i ∧ i < n then a.mem[i.toNat]? else none

/-- The bytes `a[off]` to `a[off + len - 1]`. -/
def loadBytes (a : CharArray n) (off len : ℤ) : Option (List Byte) :=
  if 0 ≤ off ∧ 0 ≤ len ∧ off + len ≤ n then some ((a.mem.drop off.toNat).take len.toNat) else none

/-- Bytes written to `a + off`. -/
def storeBytes (a : CharArray n) (off : ℤ) (bytes : List Byte) : Option (CharArray n) :=
  if 0 ≤ off ∧ off + bytes.length ≤ n then some (a.write off.toNat bytes) else none

/-- `a[i] = b`. -/
def store (a : CharArray n) (i : ℤ) (b : Byte) : Option (CharArray n) := a.storeBytes i [b]

/-- **The string at `a + off`**, which a function scans up to its terminator. -/
def scan (a : CharArray n) (off : ℤ) : Option (List Byte) :=
  if 0 ≤ off ∧ NUL ∈ a.mem.drop off.toNat then some (cstr (a.mem.drop off.toNat)) else none

/-- `strlen(a)`. -/
def strlen (a : CharArray n) : Option ℤ := (a.scan 0).map fun s => (s.length : ℤ)

/-- `strchr(a + off, b)`: the index of what it points to, or `NULL`. -/
def strchrFrom (a : CharArray n) (off : ℤ) (b : Byte) : Option (Option ℤ) :=
  (a.scan off).map fun s => (StudiesOS.strchr s b).map fun k : ℕ => off + (k : ℤ)

/-- **`strncpy(dst, src + off, len)`**: `len` bytes of the string, and NULs behind its end. -/
def strncpy (dst : CharArray m) (src : CharArray n) (off len : ℤ) : Option (CharArray m) :=
  if 0 ≤ len then
    (src.scan off).bind fun s =>
      dst.storeBytes 0 (s.take len.toNat ++ List.replicate (len.toNat - s.length) NUL)
  else none

/-- `len = strlen(a); if (len > 0 && a[len - 1] == '\n') a[len - 1] = '\0'`. -/
def dropNewline (a : CharArray n) : Option (CharArray n) := do
  let len ← a.strlen
  if 0 < len then
    let last ← a.load (len - 1)
    if last = LF then a.store (len - 1) NUL else pure a
  else pure a

/-! ## Accesses inside of the array -/

/-- A store inside of the array. -/
theorem storeBytes_eq {off : ℤ} {bytes : List Byte} {k : ℕ} (hoff : off = k)
    (h : k + bytes.length ≤ n) : a.storeBytes off bytes = some (a.write k bytes) := by
  subst hoff
  rw [storeBytes, if_pos (by omega), Int.toNat_natCast]

/-- One byte. -/
theorem store_eq {i : ℤ} {b : Byte} {k : ℕ} (hi : i = k) (h : k < n) :
    a.store i b = some (a.write k [b]) :=
  storeBytes_eq hi (by rw [List.length_singleton]; omega)

/-- A load inside of the array. -/
theorem load_eq {i : ℤ} {k : ℕ} (hi : i = k) (h : k < n) : a.load i = a.mem[k]? := by
  subst hi
  rw [load, if_pos (by omega), Int.toNat_natCast]

/-- Several bytes. -/
theorem loadBytes_eq {off len : ℤ} {k l : ℕ} (hoff : off = k) (hlen : len = l) (h : k + l ≤ n) :
    a.loadBytes off len = some ((a.mem.drop k).take l) := by
  subst hoff hlen
  rw [loadBytes, if_pos (by omega), Int.toNat_natCast, Int.toNat_natCast]

/-- A scan from the start of a terminated array. -/
theorem scan_eq (h : NUL ∈ a.mem) : a.scan 0 = some a.str := by
  rw [scan, if_pos ⟨Int.le_refl 0, h⟩]
  rfl

/-- A scan from the second byte, behind one that is no terminator. -/
theorem scan_one {b : Byte} {rest : List Byte} (hmem : a.mem = b :: rest) (h : NUL ∈ rest) :
    a.scan 1 = some (cstr rest) := by
  have hdrop : a.mem.drop (1 : ℤ).toNat = rest := by
    rw [hmem]
    rfl
  rw [scan, hdrop, if_pos ⟨by decide, h⟩]

/-- The terminator behind the string. -/
theorem exists_terminator (h : NUL ∈ a.mem) : ∃ rest, a.mem = a.str ++ NUL :: rest := by
  obtain ⟨s, rest, hmem, hs⟩ := List.eq_append_cons_of_mem h
  refine ⟨rest, ?_⟩
  rw [str, hmem, cstr_append_NUL, cstr_eq_self hs]

/-- The string stops in front of the end of the array. -/
theorem length_str_lt (h : NUL ∈ a.mem) : a.str.length < n := by
  obtain ⟨rest, hrest⟩ := exists_terminator h
  have hsize := congrArg List.length hrest
  rw [a.size, List.length_append, List.length_cons] at hsize
  omega

/-- **A byte of the string, or its terminator.** -/
theorem load_str {i : ℤ} {k : ℕ} (h : NUL ∈ a.mem) (hi : i = k) (hk : k ≤ a.str.length) :
    a.load i = some (a.str[k]?.getD NUL) := by
  obtain ⟨rest, hrest⟩ := exists_terminator h
  have hlt := length_str_lt h
  rw [load_eq hi (by omega), hrest]
  rcases Nat.lt_or_eq_of_le hk with hin | rfl
  · rw [List.getElem?_append_left hin, List.getElem?_eq_getElem hin, Option.getD_some]
  · rw [List.getElem?_append_right (Nat.le_refl _), Nat.sub_self, List.getElem?_eq_none (Nat.le_refl _)]
    rfl

/-- The newline is dropped inside of the array. -/
theorem dropNewline_eq (h : NUL ∈ a.mem) : a.dropNewline = some a.chomp := by
  have hlt := length_str_lt h
  have hlen : a.strlen = some (a.str.length : ℤ) := by
    rw [strlen, scan_eq h, Option.map_some]
  rw [dropNewline, hlen, chomp]
  simp only [Option.bind_eq_bind, Option.bind_some]
  by_cases hpos : a.str.length = 0
  · rw [if_neg (by omega), List.length_eq_zero_iff.mp hpos]
    rfl
  · have hlast : a.load (a.str.length - 1) = some (a.str[a.str.length - 1]?.getD NUL) :=
      load_str h (by omega) (Nat.sub_le _ 1)
    have hin : a.str.length - 1 < a.str.length := by omega
    rw [if_pos (by omega), hlast, List.getLast?_eq_getElem?, List.getElem?_eq_getElem hin,
      Option.getD_some, Option.bind_some]
    simp only [Option.some.injEq]
    split
    · exact store_eq (by omega) (by omega)
    · rfl

/-- It stays terminated. -/
theorem mem_chomp (h : NUL ∈ a.mem) : NUL ∈ a.chomp.mem := by
  have hlt := length_str_lt h
  rw [chomp]
  split
  · have hfit : a.str.length - 1 + [NUL].length ≤ n := by
      rw [List.length_singleton]
      omega
    rw [a.write_mem hfit]
    exact List.mem_append_right _ (List.mem_append_left _ List.mem_cons_self)
  · exact h

/-- A byte that has been written. -/
theorem load_write {k : ℕ} {b : Byte} (h : k < n) : (a.write k [b]).load k = some b := by
  have hfit : k + [b].length ≤ n := by
    rw [List.length_singleton]
    omega
  rw [load_eq rfl h, a.write_mem hfit, List.getElem?_append_right (a.length_take h.le).le,
    a.length_take h.le, Nat.sub_self]
  rfl

/-- An array with a terminator in it is terminated. -/
theorem mem_of_load {i : ℤ} {b : Byte} (h : a.load i = some b) : b ∈ a.mem := by
  rw [load] at h
  split at h
  · exact List.mem_of_getElem? h
  · cases h

/-- **`strncpy` of the start of a string**, which is long enough. -/
theorem strncpy_eq {dst : CharArray m} {src : CharArray n} {off len : ℤ} {s : List Byte} {l : ℕ}
    (hlen : len = l) (hs : src.scan off = some s) (hl : l ≤ s.length) (hm : l ≤ m) :
    dst.strncpy src off len = some (dst.write 0 (s.take l)) := by
  subst hlen
  have hpad : l - s.length = 0 := by omega
  rw [strncpy, if_pos (Int.natCast_nonneg l), hs, Option.bind_some, Int.toNat_natCast, hpad,
    List.replicate_zero, List.append_nil]
  refine storeBytes_eq rfl ?_
  rw [List.length_take]
  omega

/-- What stands in an array behind a copy and its terminator does not matter. -/
theorem str_copied {dst : CharArray m} {s : List Byte} (hs : NUL ∉ s) (h : s.length < m) :
    ((dst.write 0 s).write s.length [NUL]).str = s := by
  rw [str_terminated _ h, dst.take_moved h, cstr_eq_self hs]

end StudiesOS.CharArray
