import Mathlib.Data.Int.Order.Basic
import Mathlib.Logic.Function.Basic
import Mathlib.Tactic.Common

/-! # Lineages
Places are born, live, die and are given up again; each has a parent, and who dies leaves its
children to the root, which does not die. A birth takes several steps: the parent takes a free place,
is entered there as the parent, and brings it to life; up to the entry it may fail. Then whoever is a
parent lives (`Family`), and parents bear smaller identifiers than their children (`Elders`), so that
every line of parents ends at the root. -/

namespace StudiesOS

universe u

variable {ι : Type u}

/-- What has become of a place. -/
inductive Status
  /-- It is free. -/
  | free
  /-- It is being brought to life. -/
  | embryo
  /-- It lives. -/
  | alive
  /-- It has died. -/
  | zombie
deriving DecidableEq, Repr

/-- What a place is about. -/
inductive Stage (ι : Type u)
  /-- Nothing that matters here. -/
  | idle
  /-- It has taken the place `i` for a child, and is not entered there yet. -/
  | bearing (i : ι)
  /-- It is entered as the parent of `i`, which does not live yet. -/
  | raising (i : ι)
  /-- It is going to die. -/
  | leaving
deriving DecidableEq, Repr

/-- The root of a lineage. -/
inductive Root (ι : Type u)
  /-- There is none yet. -/
  | none
  /-- It is being brought to life. -/
  | coming (i : ι)
  /-- It lives. -/
  | here (i : ι)
deriving DecidableEq, Repr

/-- The child that a place is bringing to life. -/
def Stage.child : Stage ι → Option ι
  | .bearing i | .raising i => some i
  | .idle | .leaving => none

/-- The place of the root. -/
def Root.place : Root ι → Option ι
  | .coming i | .here i => some i
  | .none => Option.none

/-- **A lineage** over the places `ι`. -/
@[ext]
structure Lineage (ι : Type u) where
  /-- The next identifier. -/
  next : ℤ
  /-- The identifier of a place. -/
  id : ι → ℤ
  /-- What has become of the places. -/
  status : ι → Status
  /-- Their parents. -/
  parent : ι → Option ι
  /-- What they are about. -/
  stage : ι → Stage ι
  /-- The root. -/
  root : Root ι

namespace Lineage

variable [DecidableEq ι]

/-- **The steps of a lineage.** -/
inductive Step (r : Lineage ι) : Lineage ι → Prop
  /-- Nothing changes. -/
  | stutter : Step r r
  /-- A place is taken for the root. -/
  | found (i : ι) (n : ℤ) (hroot : r.root = .none) (hfree : r.status i = .free) :
      Step r { r with
        next := n
        id := Function.update r.id i r.next
        status := Function.update r.status i .embryo
        stage := Function.update r.stage i .idle
        root := .coming i }
  /-- The root begins to live. -/
  | settle (i : ι) (hroot : r.root = .coming i) :
      Step r { r with status := Function.update r.status i .alive, root := .here i }
  /-- A place is taken for a child of `p`. -/
  | take (p i : ι) (n : ℤ) (hp : r.status p = .alive) (hstage : r.stage p = .idle)
      (hfree : r.status i = .free) :
      Step r { r with
        next := n
        id := Function.update r.id i r.next
        status := Function.update r.status i .embryo
        stage := Function.update (Function.update r.stage i .idle) p (.bearing i) }
  /-- The birth fails. -/
  | fail (p i : ι) (hstage : r.stage p = .bearing i) :
      Step r { r with
        status := Function.update r.status i .free
        stage := Function.update r.stage p .idle }
  /-- The parent is entered. -/
  | attach (p i : ι) (hstage : r.stage p = .bearing i) :
      Step r { r with
        parent := Function.update r.parent i (some p)
        stage := Function.update r.stage p (.raising i) }
  /-- The child begins to live. -/
  | publish (p i : ι) (hstage : r.stage p = .raising i) :
      Step r { r with
        status := Function.update r.status i .alive
        stage := Function.update r.stage p .idle }
  /-- A place other than the root is going to die. -/
  | leave (p : ι) (hp : r.status p = .alive) (hstage : r.stage p = .idle)
      (hroot : r.root ≠ .here p) :
      Step r { r with stage := Function.update r.stage p .leaving }
  /-- It dies, and leaves its children to the root. -/
  | exit (p : ι) (hp : r.status p = .alive) (hstage : r.stage p = .leaving) :
      Step r { r with
        status := Function.update r.status p .zombie
        parent := fun i => if r.parent i = some p then r.root.place else r.parent i }
  /-- Its parent gives up its place. -/
  | reap (p i : ι) (hparent : r.parent i = some p) (hi : r.status i = .zombie) :
      Step r { r with
        id := Function.update r.id i 0
        status := Function.update r.status i .free
        parent := Function.update r.parent i none }

/-! ## Who is whose parent -/

/-- **Parents live.** -/
structure Family (r : Lineage ι) : Prop where
  /-- A free place has no parent. -/
  free : ∀ i, r.status i = .free → r.parent i = none
  /-- An embryo does nothing. -/
  embryo : ∀ i, r.status i = .embryo → r.stage i = .idle
  /-- Who is bringing a child to life lives, and the child is an embryo. -/
  child : ∀ p i, (r.stage p).child = some i → r.status p = .alive ∧ r.status i = .embryo
  /-- A child is brought to life by one place only. -/
  owner : ∀ p q i, (r.stage p).child = some i → (r.stage q).child = some i → p = q
  /-- It has no parent at first. -/
  bearing : ∀ p i, r.stage p = .bearing i → r.parent i = none
  /-- Then the parent is entered. -/
  raising : ∀ p i, r.stage p = .raising i → r.parent i = some p
  /-- Parents live. -/
  kin : ∀ i q, r.parent i = some q → r.status q = .alive
  /-- Who lives or has died has a parent, but for the root. -/
  adopted : ∀ i, r.status i = .alive ∨ r.status i = .zombie → r.root ≠ .here i →
    r.parent i ≠ none
  /-- As long as the root does not live it is alone. -/
  alone : ∀ i, r.status i ≠ .free → r.root = .coming i ∨ ∃ j, r.root = .here j
  /-- The root has no parent. -/
  orphan : ∀ i, r.root.place = some i → r.parent i = none
  /-- The coming root is an embryo, and nobody's child. -/
  coming : ∀ i, r.root = .coming i → r.status i = .embryo ∧ ∀ p, (r.stage p).child ≠ some i
  /-- The root lives and does not die. -/
  here : ∀ i, r.root = .here i → r.status i = .alive ∧ r.stage i ≠ .leaving

variable {r r' : Lineage ι}

omit [DecidableEq ι] in
/-- The root lives, or is an embryo that nobody bears. -/
theorem Family.of_place (h : Family r) {i : ι} (hi : r.root.place = some i) :
    r.status i = .alive ∨ r.status i = .embryo ∧ ∀ p, (r.stage p).child ≠ some i := by
  cases hroot : r.root with
  | none =>
      rw [hroot] at hi
      cases hi
  | coming j =>
      obtain rfl : j = i := by simpa [hroot, Root.place] using hi
      exact Or.inr (h.coming j hroot)
  | here j =>
      obtain rfl : j = i := by simpa [hroot, Root.place] using hi
      exact Or.inl (h.here j hroot).1

section FamilyStep

variable (h : Family r) (hstep : Step r r')
include h hstep

/-- A place that becomes free has no parent: it had none yet, or loses it. -/
theorem Family.free_step : ∀ i, r'.status i = .free → r'.parent i = none := by
  have hfree := h.free
  intro j hj
  cases hstep with
  | stutter | leave => exact hfree j hj
  | fail p i hstage =>
      have hnone := h.bearing p i hstage
      grind
  | attach p i hstage =>
      have hembryo := (h.child p i (by rw [hstage]; rfl)).2
      grind
  | found | settle | take | publish | exit | reap => grind

/-- A new embryo does nothing yet, and an embryo is on no step of its own. -/
theorem Family.embryo_step : ∀ i, r'.status i = .embryo → r'.stage i = .idle := by
  have hembryo := h.embryo
  intro j hj
  cases hstep with
  | stutter => exact hembryo j hj
  | attach p i hstage =>
      have hp := (h.child p i (by rw [hstage]; rfl)).1
      grind
  | found | settle | take | fail | publish | leave | exit | reap => grind

/-- Who begins to bring a child to life lives, and dies only after that. -/
theorem Family.child_step : ∀ p i, (r'.stage p).child = some i →
    r'.status p = .alive ∧ r'.status i = .embryo := by
  have hchild := h.child
  have howner := h.owner
  intro q j hj
  cases hstep with
  | stutter => exact hchild q j hj
  | settle i hroot =>
      have hcoming := h.coming i hroot
      grind
  | found | take | fail | attach | publish | leave | exit | reap => grind [Stage.child]

/-- A child is taken from the free places, so nobody else is bringing it to life. -/
theorem Family.owner_step : ∀ p q i, (r'.stage p).child = some i → (r'.stage q).child = some i →
    p = q := by
  have howner := h.owner
  have hchild := h.child
  intro q q' j hj hj'
  cases hstep with
  | stutter | settle | exit | reap => exact howner q q' j hj hj'
  | found | take | fail | attach | publish | leave => grind [Stage.child]

/-- A child has no parent until it is entered. -/
theorem Family.bearing_step : ∀ p i, r'.stage p = .bearing i → r'.parent i = none := by
  have hbearing := h.bearing
  intro q j hj
  cases hstep with
  | stutter | settle => exact hbearing q j hj
  | take p i n hp hstage hfree =>
      have hnone := h.free i hfree
      grind
  | attach p i hstage =>
      have howner := h.owner
      grind [Stage.child]
  | found | fail | publish | leave | exit | reap => grind

/-- The parent entered is the one that goes on: it does not die before the child lives, and nobody
gives up an embryo. -/
theorem Family.raising_step : ∀ p i, r'.stage p = .raising i → r'.parent i = some p := by
  have hraising := h.raising
  intro q j hj
  cases hstep with
  | stutter | settle => exact hraising q j hj
  | attach p i hstage =>
      have howner := h.owner
      grind [Stage.child]
  | reap p i hparent hi =>
      have hchild := h.child
      grind [Stage.child]
  | found | take | fail | publish | leave | exit => grind

/-- Parents live: who dies hands its children on to the root. -/
theorem Family.kin_step : ∀ i q, r'.parent i = some q → r'.status q = .alive := by
  have hkin := h.kin
  intro j q hj
  cases hstep with
  | stutter | leave => exact hkin j q hj
  | fail p i hstage | attach p i hstage | publish p i hstage =>
      have hchild := h.child p i (by rw [hstage]; rfl)
      grind
  | exit p hp hstage =>
      have halone := h.alone p
      have hcoming := h.coming p
      have hhere := h.here
      grind [Root.place]
  | found | settle | take | reap => grind

/-- Who lives has a parent: it was entered before. -/
theorem Family.adopted_step : ∀ i, r'.status i = .alive ∨ r'.status i = .zombie →
    r'.root ≠ .here i → r'.parent i ≠ none := by
  have hadopted := h.adopted
  intro j hj hroot
  cases hstep with
  | stutter | leave => exact hadopted j hj hroot
  | publish p i hstage =>
      have hparent := h.raising p i hstage
      grind
  | exit p hp hstage =>
      have halone := h.alone p
      have hcoming := h.coming
      grind [Root.place]
  | found | settle | take | fail | attach | reap => grind

/-- Nobody is there before the root. -/
theorem Family.alone_step : ∀ i, r'.status i ≠ .free → r'.root = .coming i ∨ ∃ j, r'.root = .here j := by
  have halone := h.alone
  intro j hj
  cases hstep with
  | stutter | attach | leave => exact halone j hj
  | fail p i hstage | publish p i hstage =>
      have hchild := h.child p i (by rw [hstage]; rfl)
      grind
  | take p i n hp hstage hfree =>
      have hcoming := h.coming p
      grind
  | found | settle | exit | reap => grind

/-- The root stays without a parent. -/
theorem Family.orphan_step : ∀ i, r'.root.place = some i → r'.parent i = none := by
  have horphan := h.orphan
  intro j hj
  cases hstep with
  | stutter | take | fail | publish | leave => exact horphan j hj
  | found i n hroot hfree =>
      have hnone := h.free i hfree
      grind [Root.place]
  | attach p i hstage =>
      have hchild : (r.stage p).child = some i := by rw [hstage]; rfl
      have hj : r.root.place = some j := hj
      have hne : j ≠ i := by
        rintro rfl
        rcases h.of_place hj with hlive | ⟨-, hnobody⟩
        · cases hlive.symm.trans (h.child p j hchild).2
        · exact hnobody p hchild
      exact (Function.update_of_ne hne _ _).trans (horphan j hj)
  | settle | exit | reap => grind [Root.place]

/-- The coming root is left alone. -/
theorem Family.coming_step : ∀ i, r'.root = .coming i →
    r'.status i = .embryo ∧ ∀ p, (r'.stage p).child ≠ some i := by
  have hcoming := h.coming
  intro j hj
  cases hstep with
  | stutter => exact hcoming j hj
  | found i n hroot hfree =>
      have hchild := h.child
      grind [Stage.child]
  | settle => cases hj
  | take | fail | attach | publish | leave | exit | reap => grind [Stage.child]

/-- The root lives on: nobody gives it back, and it does not die. -/
theorem Family.here_step : ∀ i, r'.root = .here i → r'.status i = .alive ∧ r'.stage i ≠ .leaving := by
  have hhere := h.here
  intro j hj
  cases hstep with
  | stutter => exact hhere j hj
  | found => cases hj
  | settle i hroot =>
      have hidle := h.embryo i (h.coming i hroot).1
      grind
  | fail p i hstage =>
      have hembryo := (h.child p i (by rw [hstage]; rfl)).2
      grind
  | take | attach | publish | leave | exit | reap => grind

end FamilyStep

/-- **Every step keeps the family.** -/
theorem Family.step (h : Family r) (hstep : Step r r') : Family r' where
  free := h.free_step hstep
  embryo := h.embryo_step hstep
  child := h.child_step hstep
  owner := h.owner_step hstep
  bearing := h.bearing_step hstep
  raising := h.raising_step hstep
  kin := h.kin_step hstep
  adopted := h.adopted_step hstep
  alone := h.alone_step hstep
  orphan := h.orphan_step hstep
  coming := h.coming_step hstep
  here := h.here_step hstep

/-! ## Who is older than whom -/

/-- **Parents bear smaller identifiers** than their children. -/
structure Elders (r : Lineage ι) : Prop where
  /-- A place is older than the child that it brings to life. -/
  born : ∀ p i, (r.stage p).child = some i → r.id p < r.id i
  /-- A parent is older than its children. -/
  elder : ∀ i q, r.parent i = some q → r.id q < r.id i
  /-- The root is the first. -/
  first : ∀ i, r.root.place = some i → r.id i = 1
  /-- Nobody was before the root. -/
  start : r.root = .none → r.next = 1

/-- Places in use bear identifiers from `1` up to the next one. -/
def InRange (r : Lineage ι) : Prop :=
  (∀ i, r.id i < r.next) ∧ ∀ i, r.status i ≠ .free → 1 ≤ r.id i

/-- A place taken for a child bears the next identifier, which is larger than that of the parent. -/
theorem Elders.born_step (h : Elders r) (hf : Family r) (hin : InRange r) (hstep : Step r r') :
    ∀ p i, (r'.stage p).child = some i → r'.id p < r'.id i := by
  have hborn := h.born
  intro q j hj
  cases hstep with
  | stutter | settle | exit => exact hborn q j hj
  | found i n hroot hfree =>
      have hchild := hf.child
      grind [Stage.child]
  | take p i n hp hstage hfree =>
      have hlt := hin.1 p
      have hchild := hf.child
      grind [Stage.child]
  | reap p i hparent hi =>
      have hchild := hf.child
      grind
  | fail | attach | publish | leave => grind [Stage.child]

/-- The parent entered is the one that has taken the place, and the root is older than everybody. -/
theorem Elders.elder_step (h : Elders r) (hf : Family r) (hin : InRange r) (hstep : Step r r') :
    ∀ i q, r'.parent i = some q → r'.id q < r'.id i := by
  have helder := h.elder
  intro j q hj
  cases hstep with
  | stutter | settle | fail | publish | leave => exact helder j q hj
  | found i n hroot hfree | take p i n hp hstage hfree =>
      have hnone := hf.free i hfree
      have hkin := hf.kin
      grind
  | attach p i hstage =>
      have hborn := h.born p i (by rw [hstage]; rfl)
      grind
  | exit p hp hstage =>
      have hfirst := h.first
      have hpos := hin.2 p
      grind
  | reap p i hparent hi =>
      have hkin := hf.kin
      grind

/-- The root keeps its identifier. -/
theorem Elders.first_step (h : Elders r) (hf : Family r) (hstep : Step r r') :
    ∀ i, r'.root.place = some i → r'.id i = 1 := by
  have hfirst := h.first
  intro j hj
  cases hstep with
  | stutter | fail | attach | publish | leave | exit => exact hfirst j hj
  | settle i hroot => exact hfirst j (by rw [hroot]; exact hj)
  | found i n hroot hfree =>
      have hstart := h.start hroot
      grind [Root.place]
  | take p i n hp hstage hi | reap p i hparent hi =>
      have hj : r.root.place = some j := hj
      have hne : j ≠ i := by
        rintro rfl
        rcases hf.of_place hj with hlive | ⟨hembryo, -⟩
        · cases hlive.symm.trans hi
        · cases hembryo.symm.trans hi
      exact (Function.update_of_ne hne _ _).trans (hfirst j hj)

/-- Identifiers are given out to nobody before the root. -/
theorem Elders.start_step (h : Elders r) (hf : Family r) (hstep : Step r r') :
    r'.root = .none → r'.next = 1 := by
  have hstart := h.start
  intro hroot
  cases hstep with
  | stutter | fail | attach | publish | leave | exit | reap => exact hstart hroot
  | found | settle => cases hroot
  | take p i n hp hstage hfree =>
      have halone := hf.alone p
      grind

/-- **Every step keeps the elders.** -/
theorem Elders.step (h : Elders r) (hf : Family r) (hin : InRange r) (hstep : Step r r') :
    Elders r' where
  born := h.born_step hf hin hstep
  elder := h.elder_step hf hin hstep
  first := h.first_step hf hstep
  start := h.start_step hf hstep

/-! ## Nobody is its own parent -/

/-- **Nobody is its own parent.** -/
def NoLoop (r : Lineage ι) : Prop := ∀ i, r.parent i ≠ some i

/-- Every step keeps it. -/
theorem NoLoop.step (h : NoLoop r) (hf : Family r) (hstep : Step r r') : NoLoop r' := by
  intro i
  cases hstep with
  | stutter | found | settle | take | fail | publish | leave => exact h i
  | attach p j hstage =>
      show Function.update r.parent j (some p) i ≠ some i
      by_cases hij : i = j
      · -- the parent lives, and the child does not yet
        obtain ⟨hp, hj⟩ := hf.child p j (by rw [hstage]; rfl)
        rw [hij, Function.update_self]
        rintro heq
        obtain rfl : p = j := Option.some.inj heq
        cases hp.symm.trans hj
      · rw [Function.update_of_ne hij]
        exact h i
  | exit p =>
      show (if r.parent i = some p then r.root.place else r.parent i) ≠ some i
      split_ifs with hp
      · intro hroot
        cases (hf.orphan i hroot).symm.trans hp
      · exact h i
  | reap p j =>
      show Function.update r.parent j none i ≠ some i
      by_cases hij : i = j
      · rw [hij, Function.update_self]
        exact (Option.some_ne_none j).symm
      · rw [Function.update_of_ne hij]
        exact h i

/-! ## Embryos with a parent -/

/-- **An embryo that has a parent is being raised by it.** -/
def Raised (r : Lineage ι) : Prop :=
  ∀ i q, r.status i = .embryo → r.parent i = some q → r.stage q = .raising i

/-- Every step keeps it. -/
theorem Raised.step (h : Raised r) (hf : Family r) (hstep : Step r r') : Raised r' := by
  have hraised : ∀ i q, r.status i = .embryo → r.parent i = some q → r.stage q = .raising i := h
  have hfree := hf.free
  have hchild := hf.child
  have hkin := hf.kin
  intro i q hi hq
  cases hstep with
  | stutter => exact h i q hi hq
  | found j n | settle j | take p j n | leave p | reap p j => grind
  | fail p j | attach p j | publish p j => grind [Stage.child]
  | exit p hp hstage =>
      -- who is leaving raises nobody
      have hne : r.parent i ≠ some p := by
        intro hip
        have hi' : r.status i = .embryo := by grind
        cases hstage.symm.trans (h i p hi' hip)
      have hq' : r.parent i = some q := by simpa only [if_neg hne] using hq
      refine h i q ?_ hq'
      grind

/-! ## A child and its parent -/

/-- **`i` is a child of `p`**, born under the identifier `c`, and not given up yet. -/
structure ChildOf (r : Lineage ι) (p i : ι) (c : ℤ) : Prop where
  /-- The child bears the identifier. -/
  id : r.id i = c
  /-- It lives, or has died. -/
  born : r.status i = .alive ∨ r.status i = .zombie
  /-- Its parent. -/
  parent : r.parent i = some p

/-- **A child stays a child** in every step in which its parent neither dies nor gives it up. -/
theorem ChildOf.step {p i : ι} {c : ℤ} (h : ChildOf r p i c) (hf : Family r) (hstep : Step r r')
    (hexit : r'.status p ≠ .zombie) (hreap : r'.status i ≠ .free) :
    ChildOf r' p i c ∧ r'.id p = r.id p := by
  obtain ⟨hid, hborn, hparent⟩ := h
  have hchild := hf.child
  have hp := hf.kin i p hparent
  have hcoming := hf.coming
  cases hstep with
  | stutter => exact ⟨⟨hid, hborn, hparent⟩, rfl⟩
  | found j n => refine ⟨⟨?_, ?_, ?_⟩, ?_⟩ <;> grind
  | settle j => refine ⟨⟨?_, ?_, ?_⟩, ?_⟩ <;> grind
  | take q j n => refine ⟨⟨?_, ?_, ?_⟩, ?_⟩ <;> grind
  | fail q j => refine ⟨⟨?_, ?_, ?_⟩, ?_⟩ <;> grind [Stage.child]
  | attach q j => refine ⟨⟨?_, ?_, ?_⟩, ?_⟩ <;> grind [Stage.child]
  | publish q j => refine ⟨⟨?_, ?_, ?_⟩, ?_⟩ <;> grind [Stage.child]
  | leave q => exact ⟨⟨hid, hborn, hparent⟩, rfl⟩
  | exit q => refine ⟨⟨?_, ?_, ?_⟩, ?_⟩ <;> grind
  | reap q j => refine ⟨⟨?_, ?_, ?_⟩, ?_⟩ <;> grind

end Lineage

end StudiesOS
