import StudiesOS.CText.Basic
import Mathlib.Data.Nat.Digits.Defs
import Mathlib.Tactic.Ring
import Mathlib.Tactic.SplitIfs

/-! # Words in a byte memory
A memory of bytes under 32-bit addresses, which wrap, and the little-endian words in it. `span a n` are
the addresses of `n` bytes from `a` on. The lemmas say which addresses a store changes, and that a load
reads back what was stored. -/

namespace StudiesOS

/-- **A memory**: a byte under every 32-bit address. -/
abbrev Memory := UInt32 → Byte

/-! ## Addresses -/

/-- The addresses of `n` bytes from `a` on. -/
def span (a : UInt32) (n : ℕ) : List UInt32 := (List.range n).map fun i => a + UInt32.ofNat i

/-- The distance of two addresses. -/
theorem toNat_add_sub {a : UInt32} {i : ℕ} (hi : i < 2 ^ 32) :
    (a + UInt32.ofNat i - a).toNat = i := by
  rw [UInt32.add_comm, UInt32.add_sub_cancel, UInt32.toNat_ofNat', Nat.mod_eq_of_lt hi]

/-- The addresses of a span are those whose distance from its start is less than its length. -/
theorem mem_span {a x : UInt32} {n : ℕ} (hn : n ≤ 2 ^ 32) : x ∈ span a n ↔ (x - a).toNat < n := by
  rw [span, List.mem_map]
  constructor
  · rintro ⟨i, hi, rfl⟩
    have hi := List.mem_range.mp hi
    rwa [toNat_add_sub (Nat.lt_of_lt_of_le hi hn)]
  · intro h
    refine ⟨(x - a).toNat, List.mem_range.mpr h, ?_⟩
    rw [UInt32.ofNat_toNat, UInt32.add_comm, UInt32.sub_add_cancel]

/-- **A span that ends below a bound stays below it**, and does not wrap. -/
theorem toNat_lt_of_mem_span {a x : UInt32} {n bound : ℕ} (hx : x ∈ span a n)
    (h : a.toNat + n ≤ bound) : x.toNat < bound := by
  obtain ⟨i, hi, rfl⟩ := List.mem_map.mp hx
  have hi := List.mem_range.mp hi
  -- a sum that wraps is only smaller
  calc (a + UInt32.ofNat i).toNat
      ≤ a.toNat + (UInt32.ofNat i).toNat := by rw [UInt32.toNat_add]; exact Nat.mod_le _ _
    _ ≤ a.toNat + i := by rw [UInt32.toNat_ofNat']; exact Nat.add_le_add_left (Nat.mod_le _ _) _
    _ < bound := by omega

/-- A span in two parts. -/
theorem span_append (a : UInt32) (m n : ℕ) :
    span a (m + n) = span a m ++ span (a + UInt32.ofNat m) n := by
  rw [span, List.range_add, List.map_append, List.map_map]
  refine congrArg (_ ++ ·) (List.map_congr_left fun i _ => ?_)
  rw [Function.comp_apply, UInt32.ofNat_add, UInt32.add_assoc]

/-- The two parts do not overlap. -/
theorem not_mem_span_behind {a x : UInt32} {m n : ℕ} (hmn : m + n ≤ 2 ^ 32) (hx : x ∈ span a m) :
    x ∉ span (a + UInt32.ofNat m) n := by
  intro hx'
  obtain ⟨i, hi, hxi⟩ := List.mem_map.mp hx'
  have hi := List.mem_range.mp hi
  -- the distance from `a` is `m + i`, which is no distance inside of the first part
  rw [mem_span (by omega), ← hxi, UInt32.add_assoc, ← UInt32.ofNat_add, toNat_add_sub (by omega)] at hx
  omega

/-! ## Signed and unsigned words -/

/-- **A word read as an `int`** is the word, or `2^32` less. -/
theorem toInt_cases (n : Int32) :
    n.toInt = n.toUInt32.toNat ∧ n.toUInt32.toNat < 2 ^ 31 ∨
      n.toInt = n.toUInt32.toNat - 2 ^ 32 ∧ 2 ^ 31 ≤ n.toUInt32.toNat := by
  have hn : n.toInt = if 2 * n.toUInt32.toNat < 2 ^ 32 then (n.toUInt32.toNat : ℤ)
      else (n.toUInt32.toNat : ℤ) - 2 ^ 32 := BitVec.toInt_eq_toNat_cond n.toBitVec
  split_ifs at hn
  · exact Or.inl ⟨hn, by omega⟩
  · exact Or.inr ⟨hn, by omega⟩

/-! ## Words -/

/-- The byte `i` of a word, little-endian. -/
def wordByte (v : UInt32) (i : ℕ) : Byte := UInt8.ofNat (v.toNat / 256 ^ i)

/-- **The word at `a`.** -/
def loadWord (m : Memory) (a : UInt32) : UInt32 :=
  UInt32.ofNat (Nat.ofDigits 256 ((span a 4).map fun x => (m x).toNat))

/-- **A word stored at `a`.** -/
def storeWord (m : Memory) (a v : UInt32) : Memory := fun x =>
  if (x - a).toNat < 4 then wordByte v (x - a).toNat else m x

example : loadWord (storeWord (fun _ => 0) 4294967294 305419896) 4294967294 = 305419896 := by decide

/-- **A store changes only the bytes of its word.** -/
theorem storeWord_of_not_mem {m : Memory} {a v x : UInt32} (h : x ∉ span a 4) :
    storeWord m a v x = m x := by
  rw [mem_span (by norm_num)] at h
  exact if_neg h

/-- A byte of the word. -/
theorem storeWord_byte (m : Memory) (a v : UInt32) {i : ℕ} (hi : i < 4) :
    storeWord m a v (a + UInt32.ofNat i) = wordByte v i := by
  rw [storeWord, toNat_add_sub (by omega), if_pos hi]

/-- The bytes of a word make it up. -/
theorem ofDigits_wordByte (v : UInt32) :
    Nat.ofDigits 256 ((List.range 4).map fun i => (wordByte v i).toNat) = v.toNat := by
  have hv := v.toNat_lt
  show Nat.ofDigits 256 [(wordByte v 0).toNat, (wordByte v 1).toNat, (wordByte v 2).toNat,
    (wordByte v 3).toNat] = v.toNat
  simp only [Nat.ofDigits_cons, Nat.ofDigits_nil, wordByte, UInt8.toNat_ofNat', Nat.reducePow]
  omega

/-- **A load reads back what was stored.** -/
theorem loadWord_storeWord (m : Memory) (a v : UInt32) : loadWord (storeWord m a v) a = v := by
  have hbytes : (span a 4).map (fun x => (storeWord m a v x).toNat)
      = (List.range 4).map fun i => (wordByte v i).toNat := by
    rw [span, List.map_map]
    refine List.map_congr_left fun i hi => ?_
    rw [Function.comp_apply, storeWord_byte m a v (List.mem_range.mp hi)]
  rw [loadWord, hbytes, ofDigits_wordByte, UInt32.ofNat_toNat]

/-- A load reads the bytes of its word only. -/
theorem loadWord_congr {m m' : Memory} {a : UInt32} (h : ∀ x ∈ span a 4, m x = m' x) :
    loadWord m a = loadWord m' a := by
  rw [loadWord, loadWord, List.map_congr_left fun x hx => by rw [h x hx]]

/-! ## Consecutive words -/

/-- **Words stored from `a` on**, one after the other. -/
def storeWords (m : Memory) (a : UInt32) : List UInt32 → Memory
  | [] => m
  | v :: vs => storeWords (storeWord m a v) (a + UInt32.ofNat 4) vs

/-- The `n` words from `a` on. -/
def loadWords (m : Memory) (a : UInt32) : ℕ → List UInt32
  | 0 => []
  | n + 1 => loadWord m a :: loadWords m (a + UInt32.ofNat 4) n

/-- Only the bytes of the words are changed. -/
theorem storeWords_of_not_mem {a x : UInt32} {vs : List UInt32} {m : Memory}
    (h : x ∉ span a (4 * vs.length)) : storeWords m a vs x = m x := by
  induction vs generalizing a m with
  | nil => rfl
  | cons v vs ih =>
      rw [List.length_cons, Nat.mul_succ, Nat.add_comm, span_append, List.mem_append, not_or] at h
      rw [storeWords, ih h.2, storeWord_of_not_mem h.1]

/-- **The words are read back.** -/
theorem loadWords_storeWords {a : UInt32} {vs : List UInt32} {m : Memory}
    (h : 4 * vs.length ≤ 2 ^ 32) : loadWords (storeWords m a vs) a vs.length = vs := by
  induction vs generalizing a m with
  | nil => rfl
  | cons v vs ih =>
      rw [List.length_cons] at h ⊢
      rw [storeWords, loadWords, ih (by omega)]
      congr 1
      -- the later words do not reach back to the first
      calc loadWord (storeWords (storeWord m a v) (a + UInt32.ofNat 4) vs) a
          = loadWord (storeWord m a v) a :=
            loadWord_congr fun x hx => storeWords_of_not_mem (not_mem_span_behind (by omega) hx)
        _ = v := loadWord_storeWord m a v

end StudiesOS
