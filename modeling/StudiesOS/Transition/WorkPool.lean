import StudiesOS.Transition.Family
import Mathlib.Algebra.BigOperators.Ring.Multiset
import Mathlib.Data.Multiset.AddSub

/-! # A pool of workers on a FIFO queue
The abstract picture of a job queue served by any number of workers: jobs are submitted to a queue,
a worker takes the oldest one, processes it, and reports it as done; a counter is raised by every
submission and lowered by every report. `WorkPool.Sound` is the accounting that every step keeps:
jobs are taken in the order of their submission, what was taken is processed or in some worker's
hands, and the counter counts the queue and the unreported jobs. -/

namespace StudiesOS

universe u v

/-- What a worker of the pool is doing. -/
inductive Phase (J : Type v)
  /-- Waiting for a job. -/
  | idle
  /-- Working on a job it has taken. -/
  | working (j : J)
  /-- Done with a job that it has not reported yet. -/
  | reporting (j : J)

namespace Phase

variable {J : Type v}

/-- One for a worker whose job is still counted as active. -/
def load : Phase J → ℕ
  | idle => 0
  | working _ => 1
  | reporting _ => 1

/-- The job a worker has taken and not processed yet. -/
def inHand : Phase J → Multiset J
  | idle => 0
  | working j => {j}
  | reporting _ => 0

@[simp] theorem load_idle : (idle : Phase J).load = 0 := rfl
@[simp] theorem load_working (j : J) : (working j).load = 1 := rfl
@[simp] theorem load_reporting (j : J) : (reporting j).load = 1 := rfl
@[simp] theorem inHand_idle : (idle : Phase J).inHand = 0 := rfl
@[simp] theorem inHand_working (j : J) : (working j).inHand = {j} := rfl
@[simp] theorem inHand_reporting (j : J) : (reporting j).inHand = 0 := rfl

end Phase

/-- **A pool of workers**, with the history of its jobs. -/
structure WorkPool (ι : Type u) (J : Type v) where
  /-- The jobs nobody has taken yet, oldest first. -/
  queue : List J
  /-- The counter of active jobs. -/
  active : ℤ
  /-- What each worker is doing. -/
  phase : ι → Phase J
  /-- All jobs submitted so far, in order. -/
  submitted : List J
  /-- Who took which job, in order. -/
  taken : List (ι × J)
  /-- Who processed which job, in order. -/
  processed : List (ι × J)

namespace WorkPool

variable {ι : Type u} {J : Type v}

/-- **The steps of a pool.** -/
inductive Step [DecidableEq ι] : WorkPool ι J → WorkPool ι J → Prop
  /-- Nothing that concerns the pool happens. -/
  | stutter (p) : Step p p
  /-- A job is put at the end of the queue. -/
  | submit (p) (j : J) :
      Step p { p with queue := p.queue ++ [j], active := p.active + 1,
                      submitted := p.submitted ++ [j] }
  /-- An idle worker takes the oldest job. -/
  | take (p) (i : ι) (j : J) (queue : List J) : p.phase i = .idle → p.queue = j :: queue →
      Step p { p with queue := queue, phase := Function.update p.phase i (.working j),
                      taken := p.taken ++ [(i, j)] }
  /-- A worker has processed its job. -/
  | process (p) (i : ι) (j : J) : p.phase i = .working j →
      Step p { p with phase := Function.update p.phase i (.reporting j),
                      processed := p.processed ++ [(i, j)] }
  /-- A worker reports its job as done. -/
  | report (p) (i : ι) (j : J) : p.phase i = .reporting j →
      Step p { p with phase := Function.update p.phase i .idle, active := p.active - 1 }

variable [Fintype ι]

/-- **The accounting of a pool.** -/
structure Sound (p : WorkPool ι J) : Prop where
  /-- Jobs are taken in the order of their submission, and none is skipped. -/
  fifo : p.submitted = p.taken.map Prod.snd ++ p.queue
  /-- The counter counts the queued jobs and the taken jobs that are not reported. -/
  accounting : p.active = p.queue.length + ∑ i, (p.phase i).load
  /-- A job taken by a worker has been processed by that worker or is in its hands. -/
  flow : (p.taken : Multiset (ι × J))
    = p.processed + ∑ i, (p.phase i).inHand.map fun j => (i, j)

/-- The counter never goes below zero. -/
theorem Sound.active_nonneg {p : WorkPool ι J} (h : p.Sound) : 0 ≤ p.active := by
  rw [h.accounting]
  omega

/-- When the counter is zero, the queue is empty and no job is unreported. -/
theorem Sound.drained {p : WorkPool ι J} (h : p.Sound) (hzero : p.active = 0) :
    p.queue = [] ∧ ∀ i, (p.phase i).load = 0 := by
  have hacc := h.accounting
  rw [hzero] at hacc
  have hsum : ∑ i, (p.phase i).load = 0 := by omega
  have hlen : p.queue.length = 0 := by omega
  exact ⟨List.eq_nil_of_length_eq_zero hlen,
    fun i => (Finset.sum_eq_zero_iff.mp hsum) i (Finset.mem_univ i)⟩

/-- When the counter is zero, every submitted job has been processed exactly once, by the worker
that took it. -/
theorem Sound.all_processed {p : WorkPool ι J} (h : p.Sound) (hzero : p.active = 0) :
    p.processed.Perm p.taken ∧ p.taken.map Prod.snd = p.submitted := by
  obtain ⟨hqueue, hload⟩ := h.drained hzero
  have hhand : ∑ i, (p.phase i).inHand.map (fun j => (i, j)) = 0 := by
    refine Finset.sum_eq_zero fun i _ => ?_
    have hi := hload i
    cases hphase : p.phase i with
    | idle => simp
    | working j =>
        rw [hphase] at hi
        cases hi
    | reporting j => simp
  refine ⟨?_, ?_⟩
  · rw [← Multiset.coe_eq_coe, h.flow, hhand, add_zero]
  · rw [h.fifo, hqueue, List.append_nil]

/-- The job in the hands of a worker was taken by that worker. -/
theorem Sound.mem_taken {p : WorkPool ι J} (h : p.Sound) {i : ι} {j : J}
    (hij : p.phase i = .working j) : (i, j) ∈ p.taken := by
  have hmem : (i, j) ∈ (p.taken : Multiset (ι × J)) := by
    rw [h.flow, Multiset.mem_add, Multiset.mem_sum]
    exact Or.inr ⟨i, Finset.mem_univ i, by simp [hij]⟩
  exact hmem

section Distinct

variable {p : WorkPool ι J} (h : p.Sound) (hnodup : p.submitted.Nodup)
include h hnodup

/-- Jobs that are distinct are taken at most once each. -/
theorem Sound.taken_nodup : (p.taken.map Prod.snd).Nodup := by
  rw [h.fifo] at hnodup
  exact (List.nodup_append.mp hnodup).1

/-- No two workers have the same job in their hands. -/
theorem Sound.working_inj {i i' : ι} {j : J} (hi : p.phase i = .working j)
    (hi' : p.phase i' = .working j) : i = i' := by
  have hpair : (i, j) = (i', j) :=
    List.inj_on_of_nodup_map (h.taken_nodup hnodup) (h.mem_taken hi) (h.mem_taken hi') rfl
  exact (Prod.mk.inj hpair).1

/-- A job in the hands of a worker has not been processed. -/
theorem Sound.not_processed {i : ι} {j : J} (hi : p.phase i = .working j) {t : ι × J}
    (ht : t ∈ p.processed) : t.2 ≠ j := by
  intro htj
  have hsub : t ∈ (p.taken : Multiset (ι × J)) := by
    rw [h.flow, Multiset.mem_add]
    exact Or.inl ht
  have hpair : t = (i, j) :=
    List.inj_on_of_nodup_map (h.taken_nodup hnodup) hsub (h.mem_taken hi) htj
  -- processed and in a hand, the job would have been taken twice
  have hdisjoint : Disjoint (p.processed : Multiset (ι × J))
      (∑ i, (p.phase i).inHand.map fun j => (i, j)) := by
    have hnd : (p.taken : Multiset (ι × J)).Nodup :=
      Multiset.coe_nodup.mpr ((h.taken_nodup hnodup).of_map)
    rw [h.flow, Multiset.nodup_add] at hnd
    exact hnd.2.2
  refine Multiset.disjoint_left.mp hdisjoint ht ?_
  rw [hpair, Multiset.mem_sum]
  exact ⟨i, Finset.mem_univ i, by simp [hi]⟩

/-- A job in the queue has not been taken. -/
theorem Sound.not_taken {j : J} (hj : j ∈ p.queue) {t : ι × J} (ht : t ∈ p.taken) : t.2 ≠ j := by
  rw [h.fifo] at hnodup
  exact fun htj => (List.nodup_append.mp hnodup).2.2 t.2 (List.mem_map_of_mem ht) j hj htj

end Distinct

/-- **Every step keeps the accounting.** -/
theorem Sound.step [DecidableEq ι] {p q : WorkPool ι J} (h : p.Sound) (hstep : Step p q) : q.Sound := by
  obtain ⟨hfifo, hacc, hflow⟩ := h
  cases hstep with
  | stutter => exact ⟨hfifo, hacc, hflow⟩
  | submit j =>
      refine ⟨?_, ?_, hflow⟩
      · simp only [hfifo, List.append_assoc]
      · simp only [hacc, List.length_append, List.length_singleton]
        push_cast
        omega
  | take i j queue hidle hqueue =>
      have hload := sum_update_add (fun _ ph => Phase.load ph) p.phase i (.working j)
      have hhand := sum_update_add (fun i' ph => (Phase.inHand ph).map fun j => (i', j))
        p.phase i (.working j)
      simp only [hidle, Phase.load_idle, Phase.load_working] at hload
      simp only [hidle, Phase.inHand_idle, Phase.inHand_working, Multiset.map_zero, add_zero,
        Multiset.map_singleton] at hhand
      refine ⟨?_, ?_, ?_⟩
      · simp [hfifo, hqueue]
      · simp only [hacc, hqueue, List.length_cons]
        omega
      · simp only [hhand, ← add_assoc, ← hflow]
        rfl
  | process i j hworking =>
      have hload := sum_update_eq (fun _ ph => Phase.load ph) p.phase i (.reporting j)
        (by rw [hworking]; rfl)
      have hhand := sum_update_add (fun i' ph => (Phase.inHand ph).map fun j => (i', j))
        p.phase i (.reporting j)
      simp only [hworking, Phase.inHand_reporting, Phase.inHand_working, Multiset.map_zero, add_zero,
        Multiset.map_singleton] at hhand
      refine ⟨hfifo, ?_, ?_⟩
      · simp only [hload, hacc]
      · rw [hflow, ← hhand, ← Multiset.coe_add, Multiset.coe_singleton, add_assoc,
          add_comm ({(i, j)} : Multiset (ι × J))]
  | report i j hreporting =>
      have hload := sum_update_add (fun _ ph => Phase.load ph) p.phase i .idle
      have hhand := sum_update_eq (fun i' ph => (Phase.inHand ph).map fun j => (i', j))
        p.phase i .idle (by rw [hreporting]; rfl)
      simp only [hreporting, Phase.load_idle, Phase.load_reporting] at hload
      refine ⟨hfifo, ?_, ?_⟩
      · simp only [hacc]
        omega
      · simp only [hhand, hflow]

end WorkPool

end StudiesOS
