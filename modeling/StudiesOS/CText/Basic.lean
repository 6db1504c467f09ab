import Mathlib.Data.List.TakeWhile
import Mathlib.Tactic.Common

/-! # Bytes and C strings
A C string is read from a piece of memory up to its first NUL byte: `cstr`. The functions of
`<string.h>` and `<ctype.h>` that look at such strings are defined on lists of bytes, and the
lemmas say how `cstr` meets the list operations. -/

namespace StudiesOS

/-- A byte of memory, C's `char`. -/
abbrev Byte := UInt8

/-- The terminator of C strings. -/
def NUL : Byte := 0

/-- The line feed `'\n'`. -/
def LF : Byte := 10

/-- The blank `' '`. -/
def SP : Byte := 32

/-- The bytes of a string literal. -/
def lit (s : String) : List Byte := s.toList.map fun c => UInt8.ofNat c.toNat

/-- **The C string at the start of a piece of memory**: what stands before the first NUL. -/
def cstr (mem : List Byte) : List Byte := mem.takeWhile (· ≠ NUL)

/-- `isspace` in the C locale: blank, `\t`, `\n`, `\v`, `\f`, `\r`. -/
def isspace (b : Byte) : Bool := b = 32 ∨ (9 ≤ b ∧ b ≤ 13)

/-- `strncmp(s, p, strlen(p)) == 0`. -/
def strncmpEq (p s : List Byte) : Bool := p.isPrefixOf s

/-- A C string has no NUL in it. -/
theorem not_mem_cstr (mem : List Byte) : NUL ∉ cstr mem := by
  intro h
  simpa using List.mem_takeWhile_imp h

/-- Memory without a NUL is one string. -/
theorem cstr_eq_self {mem : List Byte} (h : NUL ∉ mem) : cstr mem = mem := by
  rw [cstr, List.takeWhile_eq_self_iff]
  intro b hb
  simpa using ne_of_mem_of_not_mem hb h

/-- Text followed by more memory: the string goes on past text without a NUL. -/
theorem cstr_append {text : List Byte} (h : NUL ∉ text) (mem : List Byte) :
    cstr (text ++ mem) = text ++ cstr mem := by
  rw [cstr, List.takeWhile_append_of_pos, cstr]
  intro b hb
  simpa using ne_of_mem_of_not_mem hb h

/-- What a terminator cuts off does not belong to the string. -/
@[simp] theorem cstr_append_NUL (text mem : List Byte) : cstr (text ++ NUL :: mem) = cstr text := by
  induction text with
  | nil => simp [cstr]
  | cons b text ih =>
      by_cases hb : b = NUL
      · simp [cstr, hb]
      · simpa [cstr, hb] using ih

/-- The string of a piece of memory is a prefix of it. -/
theorem cstr_isPrefix (mem : List Byte) : cstr mem <+: mem := List.takeWhile_prefix _

/-- More memory makes the string no shorter. -/
theorem cstr_isPrefix_append (mem more : List Byte) : cstr mem <+: cstr (mem ++ more) := by
  rw [cstr, cstr, List.takeWhile_append]
  split
  · exact (List.takeWhile_prefix _).trans (List.prefix_append _ _)
  · exact List.prefix_rfl

end StudiesOS
