import StudiesOS.CMemory.Ownership
import StudiesOS.JobDispatcher.Machine

/-! # The job queue in memory
`queue.c` keeps the jobs in a linked list with a pointer to its first and to its last node. Here its
functions work on a heap of nodes, in which the addresses that `malloc` returns are arbitrary and nodes
are freed; an access to a node that is not allocated makes them fail. The queue is a list of jobs to
which `enqueue` appends, and from which `dequeue` takes the first.

What a node holds besides `next` is a parameter: here it is the job, and in the program with its memory
(`JobDispatcher.Memory`) it has a pointer to the text of the command. -/

namespace StudiesOS.JobDispatcher

variable {α β : Type}

/-- **The variables of `queue.c`** and the nodes that are allocated, at addresses of the type `α`. -/
structure JobQueue (α β : Type) where
  /-- The nodes. -/
  heap : α → Option (Cell α β)
  /-- `queue_head`. -/
  head : Option α
  /-- `queue_tail`. -/
  tail : Option α

namespace JobQueue

/-- No nodes, and both pointers `NULL`. -/
def init : JobQueue α β := ⟨fun _ => none, none, none⟩

/-- **`enqueue(cmd, submit_time)`**, where `malloc` returns `j`. -/
def enqueue [DecidableEq α] (q : JobQueue α β) (j : α) (job : β) : Option (JobQueue α β) :=
  let heap := Function.update q.heap j (some ⟨job, none⟩)
  match q.tail with
  | none => some ⟨heap, some j, some j⟩
  | some tail =>
      (heap tail).map fun node =>
        ⟨Function.update heap tail (some { node with next := some j }), q.head, some j⟩

/-- **`dequeue()`**, with the pointer it returns. -/
def dequeue (q : JobQueue α β) : Option (Option α × JobQueue α β) :=
  match q.head with
  | none => some (none, q)
  | some j =>
      (q.heap j).map fun node =>
        (some j, { q with head := node.next, tail := if node.next = none then none else q.tail })

/-- `free(j)`. -/
def free [DecidableEq α] (q : JobQueue α β) (j : α) : JobQueue α β :=
  { q with heap := Function.update q.heap j none }

/-! ## What the functions do -/

/-- **The queue is the list** of these nodes with these jobs. -/
structure Linked (q : JobQueue α β) (l : List (α × β)) : Prop where
  /-- Following `next` from `queue_head` visits them. -/
  chain : Chain q.heap q.head l none
  /-- `queue_tail` is the last of them. -/
  tail : q.tail = (l.map Prod.fst).getLast?

variable {q q' : JobQueue α β} {l : List (α × β)} {j a : α}

/-- At the start it is empty. -/
theorem linked_init : Linked (init : JobQueue α β) [] := ⟨rfl, rfl⟩

/-- The two pointers are `NULL` together. -/
theorem Linked.head_eq_none_iff (h : Linked q l) : q.head = none ↔ q.tail = none := by
  rw [h.tail]
  cases l with
  | nil => exact iff_of_true h.chain rfl
  | cons c l =>
      obtain ⟨hp, -⟩ := h.chain
      rw [hp]
      simp

/-- **`enqueue` appends**, and leaves the other nodes where they are. -/
theorem Linked.enqueue [DecidableEq α] (h : Linked q l) (job : β) (hj : q.heap j = none) :
    ∃ q', q.enqueue j job = some q' ∧ Linked q' (l ++ [(j, job)]) ∧
      ∀ a, q'.heap a ≠ none ↔ a = j ∨ q.heap a ≠ none := by
  obtain ⟨hchain, htail⟩ := h
  rcases List.eq_nil_or_concat l with rfl | ⟨l, ⟨t, x⟩, rfl⟩
  · have hnone : q.tail = none := htail
    refine ⟨_, by rw [JobQueue.enqueue, hnone], ⟨?_, rfl⟩, fun a => ?_⟩
    · exact chain_singleton.mpr ⟨rfl, Function.update_self _ _ _⟩
    · show Function.update q.heap j (some ⟨job, none⟩) a ≠ none ↔ _
      rw [Function.update_apply]
      split_ifs with ha <;> simp [ha]
  · rw [List.concat_eq_append] at hchain htail ⊢
    have hsome : q.tail = some t := by simpa using htail
    obtain ⟨r, -, hlast⟩ := chain_append.mp hchain
    obtain ⟨-, ht⟩ := chain_singleton.mp hlast
    -- the new node is not the last one, which is allocated
    have hne : t ≠ j := by
      rintro rfl
      rw [hj] at ht
      cases ht
    -- the last node is linked to the new one
    have hlink : q.enqueue j job = some ⟨Function.update (Function.update q.heap j (some ⟨job, none⟩)) t
        (some ⟨x, some j⟩), q.head, some j⟩ := by
      rw [JobQueue.enqueue, hsome]
      simp only [Function.update_of_ne hne, ht, Option.map_some]
    refine ⟨_, hlink, ⟨hchain.link hj, by simp⟩, fun a => ?_⟩
    show Function.update (Function.update q.heap j (some ⟨job, none⟩)) t (some ⟨x, some j⟩) a ≠ none ↔ _
    rw [Function.update_apply, Function.update_apply]
    split_ifs with hat haj
    · simp [hat, ht]
    · simp [haj]
    · simp [haj]

/-- **`dequeue` takes the first**, and leaves all nodes where they are. -/
theorem Linked.dequeue (h : Linked q l) :
    ∃ q', q.dequeue = some (l.head?.map Prod.fst, q') ∧ Linked q' l.tail ∧ q'.heap = q.heap := by
  obtain ⟨hchain, htail⟩ := h
  cases l with
  | nil =>
      have hnone : q.head = none := hchain
      exact ⟨q, by rw [JobQueue.dequeue, hnone]; rfl, ⟨hchain, htail⟩, rfl⟩
  | cons c l =>
      obtain ⟨a, x⟩ := c
      obtain ⟨hhead, r, hr, hrest⟩ := hchain
      refine ⟨{ q with head := r, tail := if r = none then none else q.tail }, ?_, ⟨hrest, ?_⟩, rfl⟩
      · rw [JobQueue.dequeue, hhead]
        simp only [hr, Option.map_some]
        rfl
      · show (if r = none then none else q.tail) = (l.map Prod.fst).getLast?
        cases l with
        | nil =>
            have hnone : r = none := hrest
            rw [if_pos hnone]
            rfl
        | cons c l =>
            obtain ⟨rfl, -⟩ := hrest
            rw [if_neg (Option.some_ne_none _), htail, List.map_cons, List.map_cons,
              List.getLast?_cons_cons]

/-- Freeing a node that is not in the queue does not change it. -/
theorem Linked.free [DecidableEq α] (h : Linked q l) (hj : j ∉ l.map Prod.fst) : Linked (q.free j) l := by
  refine ⟨h.chain.congr fun a ha => ?_, h.tail⟩
  exact Function.update_of_ne (ne_of_mem_of_not_mem ha hj) _ _

end JobQueue

/-! ## Sequences of calls -/

/-- The calls, and what is done with the nodes that were dequeued. -/
inductive QueueCall (α : Type)
  /-- `enqueue` of a job, for which `malloc` returns `j`. -/
  | enqueue (j : α) (job : Job)
  /-- `dequeue`. -/
  | dequeue
  /-- `free` of a node that was dequeued. -/
  | free (j : α)
deriving DecidableEq

/-- **The queue with its history.** -/
structure QueueSystem (α : Type) where
  /-- The queue. -/
  queue : JobQueue α Job
  /-- Ghost: the nodes and jobs enqueued so far, in order. -/
  enqueued : List (α × Job)
  /-- Ghost: the nodes and jobs dequeued so far, in order. -/
  dequeued : List (α × Job)
  /-- Ghost: the nodes that were dequeued and not freed. -/
  loose : List α

namespace QueueSystem

open JobQueue

/-- At the start. -/
def init : QueueSystem α := ⟨.init, [], [], []⟩

/-- **One call.** `malloc` returns memory that is not in use, and what is freed was dequeued before. -/
def step [DecidableEq α] (s : QueueSystem α) : QueueCall α → Option (QueueSystem α)
  | .enqueue j job =>
      if s.queue.heap j = none then
        (s.queue.enqueue j job).map fun q =>
          { s with queue := q, enqueued := s.enqueued ++ [(j, job)] }
      else none
  | .dequeue =>
      s.queue.dequeue.bind fun r =>
        match r.1 with
        | none => some { s with queue := r.2 }
        | some j =>
            (r.2.heap j).map fun node =>
              { s with
                queue := r.2
                dequeued := s.dequeued ++ [(j, node.value)]
                loose := j :: s.loose }
  | .free j =>
      if j ∈ s.loose then
        some { s with queue := s.queue.free j, loose := s.loose.filter (· ≠ j) }
      else none

/-- **What was enqueued and not yet dequeued.** -/
def pending (s : QueueSystem α) : List (α × Job) := s.enqueued.drop s.dequeued.length

/-- **The invariant**: the queue is what is pending, and the nodes that are allocated are those of the
queue and the loose ones, which are not in it. -/
structure Tidy (s : QueueSystem α) : Prop where
  /-- Jobs are dequeued in the order in which they are enqueued. -/
  order : s.enqueued = s.dequeued ++ s.pending
  /-- The queue. -/
  linked : Linked s.queue s.pending
  /-- What is allocated. -/
  allocated : ∀ a, s.queue.heap a ≠ none ↔ a ∈ s.pending.map Prod.fst ∨ a ∈ s.loose
  /-- What is loose. -/
  apart : ∀ a ∈ s.loose, a ∉ s.pending.map Prod.fst

variable {s s' : QueueSystem α} {l : List (α × Job)}

/-- What is pending, from the history. -/
theorem pending_eq (h : s.enqueued = s.dequeued ++ l) : s.pending = l := by
  rw [pending, h, List.drop_left]

/-- The invariant, for a list that is known to be pending. -/
theorem tidy_of (horder : s.enqueued = s.dequeued ++ l) (hlinked : Linked s.queue l)
    (hallocated : ∀ a, s.queue.heap a ≠ none ↔ a ∈ l.map Prod.fst ∨ a ∈ s.loose)
    (hapart : ∀ a ∈ s.loose, a ∉ l.map Prod.fst) : s.Tidy := by
  obtain rfl := pending_eq horder
  exact ⟨horder, hlinked, hallocated, hapart⟩

/-- At the start it holds. -/
theorem tidy_init : (init : QueueSystem α).Tidy :=
  tidy_of (l := []) rfl linked_init (fun a => by simp [init, JobQueue.init]) nofun

/-- **What a call does** to a queue for which the invariant holds. -/
inductive Trans [DecidableEq α] (s : QueueSystem α) : QueueCall α → QueueSystem α → Prop
  /-- A job is appended. -/
  | enqueue (j : α) (job : Job) (q : JobQueue α Job) (hj : s.queue.heap j = none)
      (hlinked : Linked q (s.pending ++ [(j, job)]))
      (hheap : ∀ a, q.heap a ≠ none ↔ a = j ∨ s.queue.heap a ≠ none) :
      Trans s (.enqueue j job) { s with queue := q, enqueued := s.enqueued ++ [(j, job)] }
  /-- There is nothing to dequeue. -/
  | empty (q : JobQueue α Job) (hpending : s.pending = []) (hlinked : Linked q [])
      (hheap : q.heap = s.queue.heap) : Trans s .dequeue { s with queue := q }
  /-- The first job is taken. -/
  | dequeue (j : α) (job : Job) (l : List (α × Job)) (q : JobQueue α Job)
      (hpending : s.pending = (j, job) :: l) (hlinked : Linked q l) (hheap : q.heap = s.queue.heap) :
      Trans s .dequeue
        { s with queue := q, dequeued := s.dequeued ++ [(j, job)], loose := j :: s.loose }
  /-- A node is freed. -/
  | free (j : α) (hj : j ∈ s.loose) :
      Trans s (.free j) { s with queue := s.queue.free j, loose := s.loose.filter (· ≠ j) }

/-- **The calls do nothing else.** -/
theorem Tidy.trans [DecidableEq α] (hs : s.Tidy) {c : QueueCall α} (h : s.step c = some s') :
    Trans s c s' := by
  cases c with
  | enqueue j job =>
      simp only [QueueSystem.step] at h
      split_ifs at h with hj
      obtain ⟨q, hq, hlinked, hheap⟩ := hs.linked.enqueue job hj
      rw [hq, Option.map_some] at h
      obtain rfl := Option.some.inj h
      exact .enqueue j job q hj hlinked hheap
  | dequeue =>
      obtain ⟨q, hq, hlinked, hheap⟩ := hs.linked.dequeue
      have hchain := hs.linked.chain
      simp only [QueueSystem.step, hq, Option.bind_some] at h
      cases hpending : s.pending with
      | nil =>
          rw [hpending] at h hlinked
          obtain rfl := Option.some.inj h
          exact .empty q hpending hlinked hheap
      | cons c l =>
          obtain ⟨j, job⟩ := c
          rw [hpending] at h hlinked hchain
          -- the node is still there, with its job
          obtain ⟨-, r, hr, -⟩ := hchain
          simp only [List.head?_cons, Option.map_some, hheap, hr] at h
          obtain rfl := Option.some.inj h
          exact .dequeue j job l q hpending hlinked hheap
  | free j =>
      simp only [QueueSystem.step] at h
      split_ifs at h with hj
      obtain rfl := Option.some.inj h
      exact .free j hj

/-- **Every call keeps the invariant.** -/
theorem Tidy.step [DecidableEq α] (hs : s.Tidy) {c : QueueCall α} (h : Trans s c s') : s'.Tidy := by
  obtain ⟨horder, hlinked, hallocated, hapart⟩ := hs
  cases h with
  | enqueue j job q hj hlinked' hheap =>
      -- `malloc` does not return a node that is not freed
      have hj' : j ∉ s.loose := fun hmem => (hallocated j).mpr (Or.inr hmem) hj
      refine tidy_of (l := s.pending ++ [(j, job)]) ?_ hlinked' (fun a => ?_) fun a ha => ?_
      · show s.enqueued ++ [(j, job)] = s.dequeued ++ _
        rw [← List.append_assoc, ← horder]
      · show q.heap a ≠ none ↔ _
        rw [hheap, hallocated, List.map_append, List.mem_append, List.map_singleton,
          List.mem_singleton]
        tauto
      · rw [List.map_append, List.mem_append, List.map_singleton, List.mem_singleton, not_or]
        exact ⟨hapart a ha, ne_of_mem_of_not_mem ha hj'⟩
  | empty q hpending hlinked' hheap =>
      rw [hpending] at horder hallocated hapart
      exact tidy_of horder hlinked' (fun a => by rw [← hallocated a, ← hheap]) hapart
  | dequeue j job l q hpending hlinked' hheap =>
      rw [hpending] at horder hlinked hallocated hapart
      -- the node that becomes loose is not in the queue a second time
      have hnodup := List.nodup_cons.mp hlinked.chain.nodup
      refine tidy_of (l := l) ?_ hlinked' (fun a => ?_) fun a ha => ?_
      · show s.enqueued = s.dequeued ++ [(j, job)] ++ l
        rw [List.append_assoc, List.singleton_append, horder]
      · show q.heap a ≠ none ↔ a ∈ l.map Prod.fst ∨ a ∈ j :: s.loose
        rw [hheap, hallocated, List.map_cons, List.mem_cons, List.mem_cons]
        tauto
      · rcases List.mem_cons.mp ha with rfl | ha
        · exact hnodup.1
        · exact fun hmem => hapart a ha (List.mem_cons_of_mem _ hmem)
  | free j hj =>
      refine tidy_of horder (hlinked.free (hapart j hj)) (fun a => ?_) fun a ha => ?_
      · show Function.update s.queue.heap j none a ≠ none ↔ _
        have hloose : a ∈ s.loose.filter (· ≠ j) ↔ a ∈ s.loose ∧ a ≠ j := by simp
        rw [Function.update_apply, hloose]
        split_ifs with haj
        · rw [haj]
          have hnot := hapart j hj
          tauto
        · rw [hallocated]
          tauto
      · exact hapart a (List.mem_filter.mp ha).1

/-! ## The list that the queue refines -/

/-- The jobs that are pending. -/
def jobs (s : QueueSystem α) : List Job := s.pending.map Prod.snd

/-- **The calls on a list**: the jobs in the queue, and those dequeued so far. -/
def fifoStep (q : List Job × List Job) : QueueCall α → Option (List Job × List Job)
  | .enqueue _ job => some (JobDispatcher.enqueue q.1 job, q.2)
  | .dequeue =>
      match JobDispatcher.dequeue q.1 with
      | none => some q
      | some (job, queue) => some (queue, q.2 ++ [job])
  | .free _ => some q

/-- **A call on the heap is the call on the list.** -/
theorem fifoStep_of_trans [DecidableEq α] (hs : s.Tidy) {c : QueueCall α} (h : Trans s c s') :
    fifoStep (s.jobs, s.dequeued.map Prod.snd) c = some (s'.jobs, s'.dequeued.map Prod.snd) := by
  have horder := hs.order
  cases h with
  | enqueue j job q =>
      have hpending : pending { s with queue := q, enqueued := s.enqueued ++ [(j, job)] }
          = s.pending ++ [(j, job)] :=
        pending_eq (by rw [← List.append_assoc, ← horder])
      simp only [fifoStep, jobs, hpending, JobDispatcher.enqueue, List.map_append, List.map_singleton]
  | empty q hnil =>
      have hpending : pending { s with queue := q } = [] := hnil
      simp only [fifoStep, jobs, hpending, hnil, List.map_nil, JobDispatcher.dequeue]
  | dequeue j job l q hcons =>
      rw [hcons] at horder
      have hpending : pending
          { s with queue := q, dequeued := s.dequeued ++ [(j, job)], loose := j :: s.loose } = l :=
        pending_eq (by rw [List.append_assoc, List.singleton_append, horder])
      simp only [fifoStep, jobs, hpending, hcons, List.map_cons, JobDispatcher.dequeue, List.map_append,
        List.map_nil]
  | free j => rfl

/-- **The linked queue is the list of what is pending.** -/
structure RefinesFifo [DecidableEq α] (s : QueueSystem α) : Prop where
  /-- Jobs are dequeued in the order in which they are enqueued. -/
  order : s.enqueued = s.dequeued ++ s.pending
  /-- Following `next` from `queue_head` visits what is pending, in order, and ends. -/
  visits : Chain s.queue.heap s.queue.head s.pending none
  /-- It is acyclic. -/
  acyclic : ∀ j node, Reach s.queue.heap s.queue.head j → s.queue.heap j = some node →
    ¬ Reach s.queue.heap node.next j
  /-- `queue_tail` is the last node. -/
  last : s.queue.tail = (s.pending.map Prod.fst).getLast?
  /-- The pointers are `NULL` together. -/
  null : s.queue.head = none ↔ s.queue.tail = none
  /-- What is reached from them is allocated, was not dequeued, and is pending. -/
  reachable : ∀ j, Reach s.queue.heap s.queue.head j ∨ Reach s.queue.heap s.queue.tail j →
    s.queue.heap j ≠ none ∧ j ∉ s.loose ∧ j ∈ s.pending.map Prod.fst
  /-- `dequeue` returns the oldest node, or `NULL` when there is none. -/
  oldest : ∃ q, s.queue.dequeue = some (s.pending.head?.map Prod.fst, q)
  /-- `enqueue` writes to allocated nodes only. -/
  writes : ∀ j job, s.queue.heap j = none → ∃ q, s.queue.enqueue j job = some q

/-- **That is so whenever the invariant holds.** -/
theorem Tidy.refinesFifo [DecidableEq α] (hs : s.Tidy) : s.RefinesFifo := by
  obtain ⟨hchain, htail⟩ := hs.linked
  refine ⟨hs.order, hchain, fun j node hj hnode => hchain.acyclic hj hnode, htail,
    hs.linked.head_eq_none_iff, fun j hj => ?_, ?_, fun j job hj => ?_⟩
  · have hmem : j ∈ s.pending.map Prod.fst := by
      rcases hj with hj | hj
      · exact hchain.reach_iff.mp hj
      · rw [htail] at hj
        exact hchain.reach_last hj
    exact ⟨hchain.allocated hmem, fun hloose => hs.apart j hloose hmem, hmem⟩
  · obtain ⟨q, hq, -⟩ := hs.linked.dequeue
    exact ⟨q, hq⟩
  · obtain ⟨q, hq, -⟩ := hs.linked.enqueue job hj
    exact ⟨q, hq⟩

/-- **The linked job queue refines a list**, in every sequence of calls: it does what the calls do on a
list of jobs, and its pointers are in order. -/
theorem queue_refinesFifo [DecidableEq α] {calls : List (QueueCall α)}
    (h : run step init calls = some s) :
    run fifoStep ([], []) calls = some (s.jobs, s.dequeued.map Prod.snd) ∧ s.RefinesFifo := by
  have hall : s.Tidy ∧ run fifoStep ([], []) calls = some (s.jobs, s.dequeued.map Prod.snd) := by
    refine run_induction (motive := fun calls s =>
      Tidy s ∧ run fifoStep ([], []) calls = some (s.jobs, s.dequeued.map Prod.snd)) ?_ ?_ h
    · exact ⟨tidy_init, rfl⟩
    · rintro calls s c s' - ⟨hs, hlist⟩ hstep
      have htrans := hs.trans hstep
      exact ⟨hs.step htrans, run_snoc.mpr ⟨_, hlist, fifoStep_of_trans hs htrans⟩⟩
  exact ⟨hall.2, hall.1.refinesFifo⟩

/-- A node is freed and used again while another one is in the queue, which is emptied then. -/
def reuse : List (QueueCall ℕ) :=
  [.enqueue 1 ⟨lit "a", 0, 0⟩, .enqueue 2 ⟨lit "b", 0, 1⟩, .dequeue, .free 1,
    .enqueue 1 ⟨lit "c", 0, 2⟩, .dequeue, .dequeue, .dequeue]

theorem queue_refinesFifo_reuse : ∃ s, run step init reuse = some s ∧ s.RefinesFifo ∧
    s.queue.tail = none ∧ s.dequeued.map (fun d => (d.1, d.2.cmd))
      = [(1, lit "a"), (2, lit "b"), (1, lit "c")] := by
  have hrun : (run step init reuse).map (fun s =>
      (s.queue.tail, s.dequeued.map fun d => (d.1, d.2.cmd)))
      = some (none, [(1, lit "a"), (2, lit "b"), (1, lit "c")]) := by decide +kernel
  obtain ⟨s, hs, hend⟩ := Option.map_eq_some_iff.mp hrun
  exact ⟨s, hs, (queue_refinesFifo hs).2, congrArg Prod.fst hend, congrArg Prod.snd hend⟩

end QueueSystem

end StudiesOS.JobDispatcher
