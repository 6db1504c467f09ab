import StudiesOS.CText.Basic
import Mathlib.Data.Nat.Digits.Lemmas

/-! # Decimal numerals: `printf` and `strtol`
`numeral v` is what `printf("%lld")` writes for `v`, `strtol` what the conversions `%d`, `%lld` and
`atoi` read, clamped to `long` as in glibc. The round trip `strtol_numeral` says that a numeral in
range is read back as the number it was printed from; `IntegerAt` says which integer stands at the
start of a text. -/

namespace StudiesOS

/-! ## Machine integers -/

/-- Conversion to a two's complement integer of `w` bits. -/
def wrap (w : ℕ) (v : ℤ) : ℤ := v.bmod (2 ^ w)

/-- The range of a two's complement integer of `w + 1` bits. -/
def Fits (w : ℕ) (v : ℤ) : Prop := -2 ^ w ≤ v ∧ v < 2 ^ w

instance (w : ℕ) (v : ℤ) : Decidable (Fits w v) := inferInstanceAs (Decidable (_ ∧ _))

/-- Conversion leaves a number in range alone. -/
theorem wrap_eq_self {w : ℕ} {v : ℤ} (h : Fits w v) : wrap (w + 1) v = v := by
  obtain ⟨h₁, h₂⟩ := h
  have hpow : ((2 ^ (w + 1) : ℕ) : ℤ) = 2 * 2 ^ w := by push_cast; ring
  rw [wrap, Int.bmod_eq_of_le] <;> omega

/-! ## Printing -/

/-- The character of a decimal digit. -/
def digitChar (d : ℕ) : Byte := UInt8.ofNat (48 + d)

/-- The decimal digits of a natural number, most significant first. -/
def decimal (n : ℕ) : List Byte :=
  if n = 0 then [digitChar 0] else (Nat.digits 10 n).reverse.map digitChar

/-- **`printf("%lld")`.** -/
def numeral (v : ℤ) : List Byte :=
  if v < 0 then 45 :: decimal v.natAbs else decimal v.natAbs

example : numeral (-120) = lit "-120" := by decide

/-! ## Reading -/

/-- `isdigit`. -/
def isdigit (b : Byte) : Bool := 48 ≤ b ∧ b ≤ 57

/-- The value of a string of digits. -/
def digitsValue (ds : List Byte) : ℕ := ds.foldl (fun v b => 10 * v + (b.toNat - 48)) 0

/-- Clamp to `long`, as `strtol` does on overflow. -/
def clampLong (v : ℤ) : ℤ := max (-2 ^ 63) (min v (2 ^ 63 - 1))

/-- **`strtol(s, &end, 10)`**: blanks, a sign, digits; `none` when there is no digit. -/
def strtol (s : List Byte) : Option ℤ :=
  let t := s.dropWhile isspace
  let neg := t.head? = some 45
  let u := if t.head? = some 45 ∨ t.head? = some 43 then t.tail else t
  let ds := u.takeWhile isdigit
  if ds = [] then none
  else some (clampLong (if neg then -(digitsValue ds : ℤ) else digitsValue ds))

/-- `atoi`, which glibc defines as `(int) strtol`; `sscanf("%d")` into a variable that was `0`
leaves the same value. -/
def atoi (s : List Byte) : ℤ := wrap 32 ((strtol s).getD 0)

example : atoi (lit " -17x") = -17 := by decide
example : atoi (lit "4294967301") = 5 := by decide
example : strtol (lit "- 1") = none := by decide

/-! ## The round trip -/

/-- A digit character is a digit, and its value is the digit. -/
theorem digitChar_spec {d : ℕ} (hd : d < 10) :
    isdigit (digitChar d) = true ∧ (digitChar d).toNat - 48 = d := by
  interval_cases d <;> decide

/-- A digit is neither a blank nor a sign. -/
theorem isdigit_ne {b : Byte} (hb : isdigit b = true) : isspace b = false ∧ b ≠ 45 ∧ b ≠ 43 := by
  simp only [isdigit, decide_eq_true_eq, UInt8.le_iff_toNat_le] at hb
  simp only [isspace, ne_eq, ← UInt8.toNat_inj, UInt8.le_iff_toNat_le, decide_eq_false_iff_not]
  simp only [UInt8.reduceToNat] at hb ⊢
  omega

/-- Every character of a printed natural number is a digit. -/
theorem isdigit_of_mem_decimal {n : ℕ} {b : Byte} (hb : b ∈ decimal n) : isdigit b = true := by
  rw [decimal] at hb
  split at hb
  · rw [List.mem_singleton.mp hb]
    exact (digitChar_spec (by decide)).1
  · obtain ⟨d, hd, rfl⟩ := List.mem_map.mp hb
    exact (digitChar_spec (Nat.digits_lt_base (by decide) (List.mem_reverse.mp hd))).1

/-- A printed natural number is not empty. -/
theorem decimal_ne_nil (n : ℕ) : decimal n ≠ [] := by
  rw [decimal]
  split
  · exact List.cons_ne_nil _ _
  · rename_i hn
    simpa [Nat.digits_ne_nil_iff_ne_zero] using hn

/-- Reading the digits of a list, most significant first. -/
theorem digitsValue_map_reverse (l : List ℕ) (hl : ∀ d ∈ l, d < 10) :
    digitsValue (l.reverse.map digitChar) = Nat.ofDigits 10 l := by
  induction l with
  | nil => rfl
  | cons d l ih =>
      have hd := (digitChar_spec (hl d List.mem_cons_self)).2
      have hl' := ih fun e he => hl e (List.mem_cons_of_mem _ he)
      rw [digitsValue] at hl' ⊢
      rw [List.reverse_cons, List.map_append, List.foldl_append, hl', List.map_singleton,
        List.foldl_cons, List.foldl_nil, hd, Nat.ofDigits_cons]
      omega

/-- The value of a printed natural number. -/
theorem digitsValue_decimal (n : ℕ) : digitsValue (decimal n) = n := by
  rw [decimal]
  split
  · rename_i hn
    rw [hn]
    decide
  · rw [digitsValue_map_reverse _ fun d hd => Nat.digits_lt_base (by decide) hd,
      Nat.ofDigits_digits]

/-- `takeWhile` takes a whole list of which every element passes. -/
theorem takeWhile_isdigit_decimal (n : ℕ) : (decimal n).takeWhile isdigit = decimal n :=
  List.takeWhile_eq_self_iff.mpr fun _ hb => isdigit_of_mem_decimal hb

/-- A printed natural number starts with a digit. -/
theorem decimal_eq_cons (n : ℕ) : ∃ b l, decimal n = b :: l ∧ isdigit b = true := by
  obtain ⟨b, l, hbl⟩ := List.exists_cons_of_ne_nil (decimal_ne_nil n)
  exact ⟨b, l, hbl, isdigit_of_mem_decimal (hbl ▸ List.mem_cons_self)⟩

/-- A numeral is not empty. -/
theorem numeral_ne_nil (v : ℤ) : numeral v ≠ [] := by
  rw [numeral]
  split_ifs
  · exact List.cons_ne_nil _ _
  · exact decimal_ne_nil _

/-- The bytes of a numeral are neither blanks nor NULs. -/
theorem of_mem_numeral {v : ℤ} {b : Byte} (hb : b ∈ numeral v) : isspace b = false ∧ b ≠ NUL := by
  have hdigit : ∀ b ∈ decimal v.natAbs, isspace b = false ∧ b ≠ NUL := by
    intro b hb
    have hb := isdigit_of_mem_decimal hb
    refine ⟨(isdigit_ne hb).1, ?_⟩
    rintro rfl
    exact absurd hb (by decide)
  rw [numeral] at hb
  split_ifs at hb
  · rcases List.mem_cons.mp hb with rfl | hb
    · decide
    · exact hdigit b hb
  · exact hdigit b hb

/-- Clamping leaves a `long` alone. -/
theorem clampLong_eq_self {v : ℤ} (h : Fits 63 v) : clampLong v = v := by
  obtain ⟨h₁, h₂⟩ := h
  rw [clampLong]
  omega

/-- **Round trip**: `strtol` reads a printed number back. -/
theorem strtol_numeral {v : ℤ} (h : Fits 63 v) : strtol (numeral v) = some v := by
  obtain ⟨b, l, hbl, hb⟩ := decimal_eq_cons v.natAbs
  obtain ⟨hsp, hmin, hplus⟩ := isdigit_ne hb
  have htake := takeWhile_isdigit_decimal v.natAbs
  have hval := digitsValue_decimal v.natAbs
  rw [hbl] at htake hval
  rw [numeral]
  by_cases hv : v < 0
  · have hneg : -|v| = v := by rw [abs_of_neg hv, neg_neg]
    rw [if_pos hv, hbl, strtol]
    simp [isspace, htake, hval, hneg, clampLong_eq_self h]
  · have hpos : ((v.natAbs : ℕ) : ℤ) = v := by omega
    rw [if_neg hv, hbl, strtol]
    simp [hsp, hmin, hplus, htake, hval, hpos, clampLong_eq_self h]

/-! ## The integer at the start of a text -/

/-- A sign, and the number it makes of a natural one. -/
inductive Signed : List Byte → ℕ → ℤ → Prop
  /-- No sign. -/
  | none (n : ℕ) : Signed [] n n
  /-- A plus sign. -/
  | plus (n : ℕ) : Signed [43] n n
  /-- A minus sign. -/
  | minus (n : ℕ) : Signed [45] n (-n)

/-- **`v` is the integer at the start of the text**: blanks, the numeral of `v` with or without a
sign, and then `rest`, which does not go on with a digit. -/
def IntegerAt (s : List Byte) (v : ℤ) (rest : List Byte) : Prop :=
  ∃ blanks sign digits, s = blanks ++ (sign ++ (digits ++ rest)) ∧
    (∀ b ∈ blanks, isspace b = true) ∧ digits ≠ [] ∧ (∀ b ∈ digits, isdigit b = true) ∧
    (∀ b ∈ rest.head?, isdigit b = false) ∧ Signed sign (digitsValue digits) v

/-- Where a list that does not go on with an element that passes is cut. -/
theorem takeWhile_append_head {α : Type*} {p : α → Bool} {l rest : List α}
    (hl : ∀ a ∈ l, p a = true) (hrest : ∀ a ∈ rest.head?, p a = false) :
    (l ++ rest).takeWhile p = l ∧ (l ++ rest).dropWhile p = rest := by
  rw [List.takeWhile_append_of_pos hl, List.dropWhile_append_of_pos hl]
  cases rest with
  | nil => exact ⟨List.append_nil l, rfl⟩
  | cons a r =>
      have ha := hrest a rfl
      rw [List.takeWhile_cons_of_neg (by simp [ha]), List.dropWhile_cons_of_neg (by simp [ha])]
      exact ⟨List.append_nil l, rfl⟩

/-- What `dropWhile` leaves does not begin with an element that passes. -/
theorem head?_dropWhile {α : Type*} {p : α → Bool} (l : List α) :
    ∀ a ∈ (l.dropWhile p).head?, p a = false := by
  intro a ha
  have hne : l.dropWhile p ≠ [] := by
    intro hnil
    rw [hnil] at ha
    cases ha
  have hhead := List.head_dropWhile_not p (w := hne)
  rw [List.head?_eq_some_head hne, Option.mem_some_iff] at ha
  rwa [ha] at hhead

/-- **`strtol` reads the integer at the start**, clamped. -/
theorem strtol_of_integerAt {s rest : List Byte} {v : ℤ} (h : IntegerAt s v rest) :
    strtol s = some (clampLong v) := by
  obtain ⟨blanks, sign, digits, rfl, hblanks, hne, hdigits, hrest, hsign⟩ := h
  have htake := (takeWhile_append_head hdigits hrest).1
  obtain ⟨d, ds, rfl⟩ := List.exists_cons_of_ne_nil hne
  obtain ⟨hsp, hmin, hplus⟩ := isdigit_ne (hdigits d List.mem_cons_self)
  have hhead : ∀ b ∈ (sign ++ (d :: ds ++ rest)).head?, isspace b = false := by
    cases hsign <;> simp [hsp] <;> decide
  rw [strtol, (takeWhile_append_head hblanks hhead).2]
  rw [List.cons_append] at htake
  cases hsign <;> simp [htake, hmin, hplus]

/-- **Where `strtol` reads something there is an integer.** -/
theorem integerAt_of_strtol {s : List Byte} {w : ℤ} (h : strtol s = some w) :
    ∃ v rest, IntegerAt s v rest ∧ w = clampLong v := by
  rw [strtol] at h
  have hcut := List.takeWhile_append_dropWhile (p := isspace) (l := s)
  have hblanks : ∀ b ∈ s.takeWhile isspace, isspace b = true := fun b hb =>
    List.mem_takeWhile_imp hb
  generalize s.dropWhile isspace = t at h hcut
  -- the sign is what stands in front of the rest of the text
  obtain ⟨sign, u, rfl, hu, hsign⟩ : ∃ sign u, t = sign ++ u ∧
      (if t.head? = some 45 ∨ t.head? = some 43 then t.tail else t) = u ∧
      ∀ n : ℕ, Signed sign n (if t.head? = some 45 then -(n : ℤ) else n) := by
    cases t with
    | nil => exact ⟨[], [], rfl, by simp, fun n => by simpa using Signed.none n⟩
    | cons b r =>
        by_cases hmin : b = 45
        · exact ⟨[45], r, by rw [hmin]; rfl, by simp [hmin], fun n => by
            simpa [hmin] using Signed.minus n⟩
        · by_cases hplus : b = 43
          · exact ⟨[43], r, by rw [hplus]; rfl, by simp [hplus], fun n => by
              simpa [hplus] using Signed.plus n⟩
          · exact ⟨[], b :: r, rfl, by simp [hmin, hplus], fun n => by
              simpa [hmin] using Signed.none n⟩
  simp only [hu] at h
  split at h
  · cases h
  · rename_i hne
    obtain rfl := Option.some.inj h
    refine ⟨_, u.dropWhile isdigit, ⟨_, sign, u.takeWhile isdigit, ?_, hblanks, hne,
      fun b hb => List.mem_takeWhile_imp hb, head?_dropWhile u, hsign _⟩, ?_⟩
    · rw [List.takeWhile_append_dropWhile, hcut]
    · rfl

/-- A numeral begins with its integer. -/
theorem integerAt_numeral (v : ℤ) : IntegerAt (numeral v) v [] := by
  have hval := digitsValue_decimal v.natAbs
  have hdigits : ∀ b ∈ decimal v.natAbs, isdigit b = true := fun b hb => isdigit_of_mem_decimal hb
  rw [numeral]
  split_ifs with hneg
  · refine ⟨[], [45], decimal v.natAbs, by simp, nofun, decimal_ne_nil _, hdigits, nofun, ?_⟩
    have hsigned := Signed.minus v.natAbs
    have hv : -(v.natAbs : ℤ) = v := by omega
    rw [hv] at hsigned
    rwa [hval]
  · refine ⟨[], [], decimal v.natAbs, by simp, nofun, decimal_ne_nil _, hdigits, nofun, ?_⟩
    have hsigned := Signed.none v.natAbs
    have hv : (v.natAbs : ℤ) = v := by omega
    rw [hv] at hsigned
    rwa [hval]

/-- The numeral of an `int` has at most 11 characters. -/
theorem length_numeral_le {v : ℤ} (h : Fits 31 v) : (numeral v).length ≤ 11 := by
  obtain ⟨h₁, h₂⟩ := h
  have hdec : (decimal v.natAbs).length ≤ 10 := by
    rw [decimal]
    split_ifs
    · simp
    · rw [List.length_map, List.length_reverse, Nat.digits_length_le_iff (by decide)]
      omega
  rw [numeral]
  split_ifs
  · exact Nat.succ_le_succ hdec
  · omega

/-- **What `atoi` reads**: the integer at the start, clamped to `long` and converted to `int`. -/
theorem atoi_of_integerAt {s rest : List Byte} {v : ℤ} (h : IntegerAt s v rest) :
    atoi s = wrap 32 (clampLong v) := by
  rw [atoi, strtol_of_integerAt h, Option.getD_some]

/-- Where no integer stands `atoi` reads `0`. -/
theorem atoi_of_not_integerAt {s : List Byte} (h : ∀ v rest, ¬ IntegerAt s v rest) :
    atoi s = 0 := by
  cases hread : strtol s with
  | none => rw [atoi, hread]; decide
  | some w =>
      obtain ⟨v, rest, hv, -⟩ := integerAt_of_strtol hread
      exact absurd hv (h v rest)

end StudiesOS
