import Mathlib.Order.Lattice
import Mathlib.Order.Defs.LinearOrder
import Mathlib.Data.List.Range
import Mathlib.Tactic.Common

/-! # Sorting an array by exchanging neighbours
`exchange l j` compares the entries `j` and `j + 1` of an array and puts the smaller one first; it fails
outside of the array. A pass makes the exchanges `0, …, m - 1`, and carries the maximum of the first
`m + 1` entries to the end of them; the sort makes passes that become shorter. In front of the loop
counters the arrays are written as `u ++ x :: v`. -/

namespace StudiesOS

universe u

variable {α : Type u} [LinearOrder α]

/-- **Compare the entries `j` and `j + 1`**, and put the smaller one first. -/
def exchange (l : List α) (j : ℕ) : Option (List α) := do
  let a ← l[j]?
  let b ← l[j + 1]?
  if b < a then some ((l.set j b).set (j + 1) a) else some l

/-- One pass: the exchanges at `0, …, m - 1`. -/
def exchangePass (l : List α) (m : ℕ) : Option (List α) := (List.range m).foldlM exchange l

/-- **The sort of the first `n` entries**, in passes that become shorter. -/
def exchangeSort (l : List α) (n : ℕ) : Option (List α) :=
  (List.range (n - 1)).foldlM (fun l i => exchangePass l (n - i - 1)) l

variable {l u v w : List α} {x y : α} {j m n : ℕ}

/-- **An exchange**, at the place where the counter stands. -/
theorem exchange_append (hj : u.length = j) :
    exchange (u ++ x :: y :: v) j = some (u ++ min x y :: max x y :: v) := by
  subst hj
  have hx : (u ++ x :: y :: v)[u.length]? = some x := by simp
  have hy : (u ++ x :: y :: v)[u.length + 1]? = some y := by simp
  simp only [exchange, hx, hy, Option.bind_eq_bind, Option.bind_some]
  split_ifs with hlt
  · rw [min_eq_right hlt.le, max_eq_left hlt.le]
    simp
  · rw [min_eq_left (not_lt.mp hlt), max_eq_right (not_lt.mp hlt)]

/-- The two entries are only exchanged. -/
theorem min_max_perm (x y : α) : [min x y, max x y].Perm [x, y] := by
  rcases le_total x y with h | h
  · rw [min_eq_left h, max_eq_right h]
  · rw [min_eq_right h, max_eq_left h]
    exact .swap x y []

/-- **A pass carries the maximum to its end**: the entries up to there are permuted, and the others stay
as they are. -/
theorem exchangePass_eq (hm : m < l.length) :
    ∃ u x, exchangePass l m = some (u ++ x :: l.drop (m + 1)) ∧ u.length = m ∧
      (u ++ [x]).Perm (l.take (m + 1)) ∧ ∀ a ∈ u, a ≤ x := by
  induction m with
  | zero =>
      refine ⟨[], l[0], ?_, rfl, ?_, nofun⟩
      · rw [List.nil_append, ← List.drop_eq_getElem_cons hm]
        rfl
      · rw [List.nil_append, List.take_succ_eq_append_getElem hm, List.take_zero, List.nil_append]
  | succ m ih =>
      -- the maximum so far is the left one of the two entries that are compared next
      obtain ⟨u, x, hpass, hlen, hperm, hmax⟩ := ih (Nat.lt_of_succ_lt hm)
      have hnext : exchangePass l (m + 1)
          = some (u ++ min x l[m + 1] :: max x l[m + 1] :: l.drop (m + 2)) := by
        have hstep : exchangePass l (m + 1) = (exchangePass l m).bind (exchange · m) := by
          rw [exchangePass, List.range_succ, List.foldlM_append]
          simp only [List.foldlM_cons, List.foldlM_nil, bind_pure]
          rfl
        rw [hstep, hpass, Option.bind_some, List.drop_eq_getElem_cons hm]
        exact exchange_append hlen
      refine ⟨u ++ [min x l[m + 1]], max x l[m + 1], ?_, ?_, ?_, fun a ha => ?_⟩
      · rw [hnext, List.append_assoc, List.singleton_append]
      · rw [List.length_append, List.length_singleton, hlen]
      · rw [List.take_succ_eq_append_getElem hm, List.append_assoc, List.singleton_append]
        have hswap := (min_max_perm x l[m + 1]).append_left u
        rw [List.append_cons u x] at hswap
        exact hswap.trans (hperm.append_right _)
      · rcases List.mem_append.mp ha with ha | ha
        · exact (hmax a ha).trans (le_max_left _ _)
        · rw [List.mem_singleton.mp ha]
          exact (min_le_left _ _).trans (le_max_left _ _)

/-- **After `i` passes** the last `i` of the first `n` entries are in place: they ascend, and no entry in
front of them is larger. -/
theorem exchangePasses_eq (hn : n ≤ l.length) {i : ℕ} (hi : i ≤ n - 1) :
    ∃ u w, (List.range i).foldlM (fun l i => exchangePass l (n - i - 1)) l
        = some (u ++ (w ++ l.drop n)) ∧ w.length = i ∧ (u ++ w).Perm (l.take n) ∧
      w.Pairwise (· ≤ ·) ∧ ∀ a ∈ u, ∀ b ∈ w, a ≤ b := by
  induction i with
  | zero =>
      refine ⟨l.take n, [], ?_, rfl, ?_, .nil, nofun⟩
      · rw [List.nil_append, List.take_append_drop]
        rfl
      · rw [List.append_nil]
  | succ i ih =>
      obtain ⟨u, w, hpasses, hlen, hperm, hsorted, hcross⟩ := ih (Nat.le_of_succ_le hi)
      have hulen : u.length = n - i := by
        have hsum := hperm.length_eq
        rw [List.length_append, List.length_take, hlen] at hsum
        omega
      have hm : n - i - 1 < (u ++ (w ++ l.drop n)).length := by
        rw [List.length_append]
        omega
      have hcut : n - i - 1 + 1 = u.length := by omega
      -- the next pass works on `u` only, and its maximum comes in front of `w`
      obtain ⟨u', x, hpass, hlen', hperm', hmax⟩ := exchangePass_eq hm
      rw [hcut, List.drop_left] at hpass
      rw [hcut, List.take_left] at hperm'
      have hmem : ∀ a, a ∈ u' ∨ a = x → a ∈ u := by
        intro a ha
        rw [← hperm'.mem_iff, List.mem_append, List.mem_singleton]
        exact ha
      refine ⟨u', x :: w, ?_, ?_, ?_, ?_, fun a ha b hb => ?_⟩
      · rw [List.range_succ, List.foldlM_append, hpasses]
        simp only [List.foldlM_cons, List.foldlM_nil, bind_pure]
        exact hpass
      · rw [List.length_cons, hlen]
      · rw [List.append_cons]
        exact (hperm'.append_right w).trans hperm
      · exact List.pairwise_cons.mpr ⟨fun b hb => hcross x (hmem x (Or.inr rfl)) b hb, hsorted⟩
      · rcases List.mem_cons.mp hb with rfl | hb
        · exact hmax a ha
        · exact hcross a (hmem a (Or.inl ha)) b hb

/-- **The sort sorts the first `n` entries**, and leaves the others as they are. -/
theorem exchangeSort_eq (hn : n ≤ l.length) :
    ∃ sorted, exchangeSort l n = some (sorted ++ l.drop n) ∧ sorted.Perm (l.take n) ∧
      sorted.Pairwise (· ≤ ·) := by
  obtain ⟨u, w, hpasses, hlen, hperm, hsorted, hcross⟩ := exchangePasses_eq hn (Nat.le_refl (n - 1))
  -- there is no pass for the first entry, which is alone in front
  have hone : u.length ≤ 1 := by
    have hsum := hperm.length_eq
    rw [List.length_append, List.length_take, hlen] at hsum
    omega
  refine ⟨u ++ w, ?_, hperm, List.pairwise_append.mpr ⟨?_, hsorted, hcross⟩⟩
  · rw [List.append_assoc]
    exact hpasses
  · match u, hone with
    | [], _ => exact .nil
    | [a], _ => exact List.pairwise_singleton _ a

/-- An array that ascends stays as it is. -/
theorem exchangeSort_of_sorted (h : l.Pairwise (· ≤ ·)) : exchangeSort l l.length = some l := by
  obtain ⟨sorted, hsort, hperm, hsorted⟩ := exchangeSort_eq l.length.le_refl
  rw [List.drop_length, List.append_nil] at hsort
  rw [List.take_length] at hperm
  rw [hsort, hperm.eq_of_pairwise (fun _ _ _ _ => le_antisymm) hsorted h]

/-! ## The indices -/

/-- Where the exchanges are made, in order. -/
def exchanges (n : ℕ) : List ℕ := (List.range (n - 1)).flatMap fun i => List.range (n - i - 1)

/-- **The sort makes these exchanges**, whatever is in the array. -/
theorem exchangeSort_eq_foldlM (l : List α) (n : ℕ) :
    exchangeSort l n = (exchanges n).foldlM exchange l := by
  rw [exchangeSort, exchanges]
  induction List.range (n - 1) generalizing l with
  | nil => rfl
  | cons i is ih =>
      rw [List.foldlM_cons, List.flatMap_cons, List.foldlM_append]
      exact congrArg (exchangePass l (n - i - 1)).bind (funext fun l' => ih l')

/-- **All of them are inside of the first `n` entries.** -/
theorem lt_of_mem_exchanges (h : j ∈ exchanges n) : j + 1 < n := by
  obtain ⟨i, hi, hj⟩ := List.mem_flatMap.mp h
  have hi := List.mem_range.mp hi
  have hj := List.mem_range.mp hj
  omega

end StudiesOS
