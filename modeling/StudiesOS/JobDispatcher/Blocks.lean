import StudiesOS.JobDispatcher.ExactlyOnce
import StudiesOS.JobDispatcher.Memory
import StudiesOS.JobDispatcher.Queue

/-! # Who owns which block
Every block that is allocated belongs to a `Job` in the queue or to the worker that has dequeued it, and
to one of them only (`Tidy`). So no worker reads or frees what another one has freed, and what a worker
reads through its pointer is the job that it has dequeued. -/

namespace StudiesOS.JobDispatcher

open Finset

variable {N : ℕ} {α : Type}

/-! ## The queue in memory -/

/-- A `Job` in the queue: where it is, where its text is, and the job that it stands for. -/
structure Node (α : Type) where
  /-- The address of the `Job`. -/
  addr : α
  /-- The address of its text. -/
  text : α
  /-- The job. -/
  job : Job

/-- The cell of a linked list that it is. -/
def Node.cell (n : Node α) : α × α × ℤ × ℕ := (n.addr, n.text, n.job.submitTime, n.job.seq)

/-- Its blocks. -/
def Node.blocks (n : Node α) : Multiset α := n.text ::ₘ {n.addr}

/-- A `Job` as a cell of a linked list. -/
def Block.cell : Block α → Option (Cell α (α × ℤ × ℕ))
  | .job cmd submitTime next seq => some ⟨(cmd, submitTime, seq), next⟩
  | .text _ => none

/-- The cells in memory. -/
def cells (block : α → Option (Block α)) (a : α) : Option (Cell α (α × ℤ × ℕ)) :=
  (block a).bind Block.cell

/-- A store, seen as one to the cells. -/
theorem cells_update [DecidableEq α] (block : α → Option (Block α)) (a : α) (b : Option (Block α)) :
    cells (Function.update block a b) = Function.update (cells block) a (b.bind Block.cell) := by
  funext c
  unfold cells
  by_cases hc : c = a
  · rw [hc, Function.update_self, Function.update_self]
  · rw [Function.update_of_ne hc, Function.update_of_ne hc]

/-- A cell is a `Job`. -/
theorem block_of_cells {block : α → Option (Block α)} {a cmd : α} {submitTime : ℤ} {seq : ℕ}
    {next : Option α} (h : cells block a = some ⟨(cmd, submitTime, seq), next⟩) :
    block a = some (.job cmd submitTime next seq) := by
  obtain ⟨b, hb, hcell⟩ := Option.bind_eq_some_iff.mp h
  cases b with
  | text s => cases hcell
  | job cmd' submitTime' next' seq' =>
      cases hcell
      exact hb

/-- **The queue is the list** `l` of `Job`s. -/
structure Queued (block : α → Option (Block α)) (head tail : Option α) (l : List (Node α)) : Prop where
  /-- Following `next` from `queue_head` visits them. -/
  chain : Chain (cells block) head (l.map Node.cell) none
  /-- `queue_tail` is the last of them. -/
  tail : tail = (l.map Node.addr).getLast?
  /-- Their texts are there. -/
  texts : ∀ n ∈ l, block n.text = some (.text n.job.cmd)

variable {block block' : α → Option (Block α)} {head tail : Option α} {l : List (Node α)}

/-- The addresses that the chain goes through. -/
theorem map_cell_fst (l : List (Node α)) : (l.map Node.cell).map Prod.fst = l.map Node.addr := by
  rw [List.map_map]
  rfl

/-- The queue does not see a change of other blocks. -/
theorem Queued.congr (h : Queued block head tail l)
    (hsame : ∀ n ∈ l, block' n.addr = block n.addr ∧ block' n.text = block n.text) :
    Queued block' head tail l := by
  refine ⟨h.chain.congr fun a ha => ?_, h.tail, fun n hn => ?_⟩
  · rw [map_cell_fst] at ha
    obtain ⟨n, hn, rfl⟩ := List.mem_map.mp ha
    unfold cells
    rw [(hsame n hn).1]
  · rw [(hsame n hn).2]
    exact h.texts n hn

/-- `queue_head` is `NULL` when there is nothing. -/
theorem Queued.head_eq_none_iff (h : Queued block head tail l) : head = none ↔ l = [] := by
  have hchain := h.chain
  cases l with
  | nil => exact iff_of_true hchain rfl
  | cons n l =>
      obtain ⟨hhead, -⟩ := hchain
      rw [hhead]
      simp

/-- **The variables of `queue.c`** in the program with its memory; a node holds a pointer to its text. -/
def MemSys.jobQueue (s : MemSys N α) : JobQueue α (α × ℤ × ℕ) := ⟨cells s.block, s.head, s.tail⟩

/-- A queue of `Job`s is one of the linked list. -/
theorem Queued.linked {s : MemSys N α} (h : Queued s.block s.head s.tail l) :
    s.jobQueue.Linked (l.map Node.cell) :=
  ⟨h.chain, h.tail.trans (congrArg List.getLast? (map_cell_fst l).symm)⟩

/-- A linked list is a queue of `Job`s, with the texts. -/
theorem queued_of_linked {s : MemSys N α} (h : s.jobQueue.Linked (l.map Node.cell))
    (htexts : ∀ n ∈ l, s.block n.text = some (.text n.job.cmd)) : Queued s.block s.head s.tail l :=
  ⟨h.chain, h.tail.trans (congrArg List.getLast? (map_cell_fst l)), htexts⟩

/-- **`dequeue` on blocks is `dequeue` on the linked list.** -/
theorem dequeue_jobQueue (s : MemSys N α) :
    s.dequeue.map (fun r => (r.1, r.2.jobQueue)) = s.jobQueue.dequeue := by
  simp only [MemSys.dequeue, JobQueue.dequeue, MemSys.jobQueue]
  cases hhead : s.head with
  | none => simp only [Option.map_some, hhead]
  | some j =>
      simp only [MemSys.readJob, cells]
      cases s.block j with
      | none => rfl
      | some b => cases b <;> rfl

/-- **`dequeue` takes the first `Job`**, and leaves all blocks where they are. -/
theorem Queued.dequeue {s : MemSys N α} {n : Node α} (h : Queued s.block s.head s.tail (n :: l)) :
    ∃ head tail, s.dequeue = some (some n.addr, { s with head := head, tail := tail }) ∧
      Queued s.block head tail l := by
  obtain ⟨q, hq, hlinked, -⟩ := h.linked.dequeue
  rw [← dequeue_jobQueue] at hq
  obtain ⟨⟨p, t⟩, ht, hpair⟩ := Option.map_eq_some_iff.mp hq
  obtain ⟨rfl, rfl⟩ := Prod.mk.inj hpair
  -- only the two pointers change
  have hsame : t = { s with head := t.head, tail := t.tail } := by
    simp only [MemSys.dequeue] at ht
    split at ht
    · cases ht
    · obtain ⟨r, -, heq⟩ := Option.map_eq_some_iff.mp ht
      cases heq
      rfl
  have hblock : t.block = s.block := by rw [hsame]
  refine ⟨t.head, t.tail, ht.trans ?_, ?_⟩
  · rw [← hsame]
    rfl
  · rw [← hblock]
    refine queued_of_linked hlinked fun m hm => ?_
    rw [hblock]
    exact h.texts m (List.mem_cons_of_mem n hm)

/-- What is allocated is not new. -/
theorem ne_of_allocated {a b : α} (ha : block a ≠ none) (hb : block b = none) : a ≠ b := by
  rintro rfl
  exact ha hb

/-- What is in memory of a `Job` in the queue. -/
theorem Queued.job (h : Queued block head tail l) {n : Node α} (hn : n ∈ l) :
    ∃ next, block n.addr = some (.job n.text n.job.submitTime next n.job.seq) := by
  obtain ⟨u, w, rfl⟩ := List.append_of_mem hn
  have hchain := h.chain
  rw [List.map_append, List.map_cons] at hchain
  obtain ⟨r, -, -, next, hcell, -⟩ := chain_append.mp hchain
  exact ⟨next, block_of_cells hcell⟩

/-- The `Job`s in the queue are allocated, and so are their texts. -/
theorem Queued.allocated (h : Queued block head tail l) {n : Node α} (hn : n ∈ l) :
    block n.addr ≠ none ∧ block n.text ≠ none := by
  obtain ⟨next, hjob⟩ := h.job hn
  rw [hjob, h.texts n hn]
  exact ⟨Option.some_ne_none _, Option.some_ne_none _⟩

section Enqueue

variable [DecidableEq α] {x j : α}

/-- What `enqueue` writes first. -/
def fresh (block : α → Option (Block α)) (x j : α) (job : Job) : α → Option (Block α) :=
  Function.update (Function.update block x (some (.text job.cmd))) j
    (some (.job x job.submitTime none job.seq))

/-- It writes to the new blocks only. -/
theorem fresh_of_ne (job : Job) {a : α} (hx : a ≠ x) (hj : a ≠ j) : fresh block x j job a = block a := by
  unfold fresh
  rw [Function.update_of_ne hj, Function.update_of_ne hx]

/-- The cells then; a text is none. -/
theorem cells_fresh (job : Job) (hx : block x = none) : cells (fresh block x j job)
    = Function.update (cells block) j (some ⟨(x, job.submitTime, job.seq), none⟩) := by
  have hnone : cells block x = none := by rw [cells, hx]; rfl
  unfold fresh
  rw [cells_update, cells_update, Option.bind_some, Option.bind_some, Block.cell, Block.cell, ← hnone,
    Function.update_eq_self]

/-- The new blocks are owned. -/
theorem owned_fresh {m : Multiset α} (h : Owned block m) (hx : block x = none) (hj : block j = none)
    (hxj : x ≠ j) (job : Job) : Owned (fresh block x j job) (j ::ₘ x ::ₘ m) := by
  refine (h.alloc hx _).alloc ?_ _
  rw [Function.update_of_ne hxj.symm, hj]

/-- **`enqueue` on blocks is `enqueue` on the linked list.** -/
theorem enqueue_jobQueue {s : MemSys N α} (job : Job) (hx : s.block x = none) :
    (s.enqueue x j job.cmd job.submitTime job.seq).map MemSys.jobQueue
      = s.jobQueue.enqueue j (x, job.submitTime, job.seq) := by
  have hcells := cells_fresh (j := j) job hx
  unfold fresh at hcells
  simp only [MemSys.enqueue, JobQueue.enqueue, MemSys.jobQueue, ← hcells]
  cases s.tail with
  | none => rfl
  | some t =>
      simp only [cells]
      cases hb : Function.update (Function.update s.block x (some (.text job.cmd))) j
          (some (.job x job.submitTime none job.seq)) t with
      | none => rfl
      | some b =>
          cases b with
          | text text => rfl
          | job cmd submitTime next seq =>
              refine congrArg some ?_
              show (⟨cells (Function.update _ t _), s.head, some j⟩ : JobQueue α (α × ℤ × ℕ)) = _
              rw [cells_update]
              rfl

/-- **What `enqueue` writes**: the new blocks, and `next` in the last `Job`. -/
theorem enqueue_writes {s s' : MemSys N α} {job : Job}
    (h : s.enqueue x j job.cmd job.submitTime job.seq = some s') :
    s' = { s with block := s'.block, head := s'.head, tail := some j } ∧
    (s'.block = fresh s.block x j job ∨ ∃ t cmd submitTime next seq, s.tail = some t ∧
      fresh s.block x j job t = some (.job cmd submitTime next seq) ∧
      s'.block = Function.update (fresh s.block x j job) t
        (some (.job cmd submitTime (some j) seq))) := by
  simp only [MemSys.enqueue] at h
  split at h
  · cases h
    exact ⟨rfl, Or.inl rfl⟩
  · rename_i t ht
    split at h
    · rename_i cmd submitTime next seq hb
      cases h
      exact ⟨rfl, Or.inr ⟨t, cmd, submitTime, next, seq, ht, hb, rfl⟩⟩
    · cases h
    · cases h

/-- **`enqueue` appends a `Job`**: it writes to the new blocks and to `Job`s in the queue only, and the
new blocks are owned then. -/
theorem Queued.enqueue {s : MemSys N α} (h : Queued s.block s.head s.tail l) (hx : s.block x = none)
    (hj : s.block j = none) (hxj : x ≠ j) (job : Job) :
    ∃ block head, s.enqueue x j job.cmd job.submitTime job.seq
        = some { s with block := block, head := head, tail := some j } ∧
      Queued block head (some j) (l ++ [⟨j, x, job⟩]) ∧
      (∀ a, a ≠ x → a ≠ j → (∀ n ∈ l, a ≠ n.addr) → block a = s.block a) ∧
      ∀ m, Owned s.block m → (∀ n ∈ l, n.addr ∈ m) → Owned block (j ::ₘ x ::ₘ m) := by
  have hfree : s.jobQueue.heap j = none := by
    show cells s.block j = none
    rw [cells, hj]
    rfl
  obtain ⟨q, hq, hlinked, -⟩ := h.linked.enqueue (x, job.submitTime, job.seq) hfree
  rw [← enqueue_jobQueue job hx] at hq
  obtain ⟨s', hs', rfl⟩ := Option.map_eq_some_iff.mp hq
  obtain ⟨hsame, hwrites⟩ := enqueue_writes hs'
  have htail : s'.tail = some j := by rw [hsame]
  -- the last `Job` is in the queue
  have hlast : ∀ t, s.tail = some t → ∃ n ∈ l, t = n.addr := by
    intro t ht
    rw [h.tail] at ht
    obtain ⟨n, hn, rfl⟩ := List.mem_map.mp (List.mem_of_getLast? ht)
    exact ⟨n, hn, rfl⟩
  -- the new text, and the texts of the queue
  have htexts : ∀ n ∈ l ++ [⟨j, x, job⟩], fresh s.block x j job n.text = some (.text n.job.cmd) := by
    intro n hn
    rcases List.mem_append.mp hn with hn | hn
    · have htext := (h.allocated hn).2
      rw [fresh_of_ne job (ne_of_allocated htext hx) (ne_of_allocated htext hj)]
      exact h.texts n hn
    · obtain rfl := List.mem_singleton.mp hn
      unfold fresh
      rw [Function.update_of_ne hxj, Function.update_self]
  refine ⟨s'.block, s'.head, hs'.trans (congrArg some hsame), ?_, fun a hax haj hal => ?_,
    fun m hm hmem => ?_⟩
  · rw [← htail]
    refine queued_of_linked ?_ fun n hn => ?_
    · rw [List.map_append]
      exact hlinked
    · rcases hwrites with heq | ⟨t, cmd, submitTime, next, seq, -, ht, heq⟩ <;> rw [heq]
      · exact htexts n hn
      · -- the last `Job` is no text
        rw [Function.update_of_ne]
        · exact htexts n hn
        · rintro rfl
          rw [htexts n hn] at ht
          cases ht
  · rcases hwrites with heq | ⟨t, cmd, submitTime, next, seq, ht, -, heq⟩ <;> rw [heq]
    · exact fresh_of_ne job hax haj
    · obtain ⟨n, hn, rfl⟩ := hlast t ht
      rw [Function.update_of_ne (hal n hn), fresh_of_ne job hax haj]
  · have howned := owned_fresh hm hx hj hxj job
    rcases hwrites with heq | ⟨t, cmd, submitTime, next, seq, ht, -, heq⟩ <;> rw [heq]
    · exact howned
    · obtain ⟨n, hn, rfl⟩ := hlast t ht
      refine howned.store ?_ _
      simp [hmem n hn]

end Enqueue

/-! ## The blocks of a worker -/

/-- **What a worker holds**, at a program point, and the blocks that it owns. -/
inductive Holds (block : α → Option (Block α)) : WorkerPc → Held α → Multiset α → Prop
  /-- Nothing. -/
  | nothing {pc : WorkerPc} (hpc : pc.job = none) : Holds block pc .nothing 0
  /-- The job that it works on. -/
  | job {pc : WorkerPc} {job : Job} {j x : α} {next : Option α} (hpc : pc.job = some job)
      (hj : block j = some (.job x job.submitTime next job.seq))
      (hx : block x = some (.text job.cmd)) : Holds block pc (.job j) (x ::ₘ {j})
  /-- A job that it has reported. -/
  | reported {j x : α} {submitTime : ℤ} {next : Option α} {seq : ℕ} {text : List Byte}
      (hj : block j = some (.job x submitTime next seq)) (hx : block x = some (.text text)) :
      Holds block .top (.reported j) (x ::ₘ {j})
  /-- A `Job` whose text it has freed. -/
  | emptied {j : α} (hj : block j ≠ none) : Holds block .top (.emptied j) {j}

variable {pc pc' : WorkerPc} {held : Held α} {own : Multiset α}

/-- It does not see a change of other blocks. -/
theorem Holds.congr (h : Holds block pc held own) (hsame : ∀ a ∈ own, block' a = block a) :
    Holds block' pc held own := by
  cases h with
  | nothing hpc => exact .nothing hpc
  | job hpc hj hx => exact .job hpc (by rw [hsame _ (by simp), hj]) (by rw [hsame _ (by simp), hx])
  | reported hj hx => exact .reported (by rw [hsame _ (by simp), hj]) (by rw [hsame _ (by simp), hx])
  | emptied hj => exact .emptied (by rw [hsame _ (by simp)]; exact hj)

/-- A worker goes on with the same job, and does not leave what it has to free. -/
theorem Holds.move (h : Holds block pc held own) (hjob : pc'.job = pc.job)
    (htop : pc = .top → pc' = .top ∨ held = .nothing) : Holds block pc' held own := by
  cases h with
  | nothing hpc => exact .nothing (hjob.trans hpc)
  | job hpc hj hx => exact .job (hjob.trans hpc) hj hx
  | reported hj hx =>
      obtain rfl := (htop rfl).resolve_right (by simp)
      exact .reported hj hx
  | emptied hj =>
      obtain rfl := (htop rfl).resolve_right (by simp)
      exact .emptied hj

/-- A worker without a job that is not at the top of its loop holds nothing. -/
theorem Holds.eq_nothing (h : Holds block pc held own) (hjob : pc.job = none) (htop : pc ≠ .top) :
    held = .nothing ∧ own = 0 := by
  cases h with
  | nothing hpc => exact ⟨rfl, rfl⟩
  | job hpc hj hx => cases hjob.symm.trans hpc
  | reported hj hx => exact absurd rfl htop
  | emptied hj => exact absurd rfl htop

/-- It owns two blocks at most. -/
theorem Holds.card_le (h : Holds block pc held own) : own.card ≤ 2 := by
  cases h <;> simp

/-- A worker that holds a job is at work on it. -/
theorem Holds.job_ne_none {j : α} (h : Holds block pc (.job j) own) : pc.job ≠ none := by
  cases h with
  | job hpc =>
      rw [hpc]
      exact Option.some_ne_none _

/-- A worker with a job has it in memory. -/
theorem Holds.of_job {job : Job} (h : Holds block pc held own) (hjob : pc.job = some job) :
    ∃ j x next, held = .job j ∧ own = x ::ₘ {j} ∧
      block j = some (.job x job.submitTime next job.seq) ∧ block x = some (.text job.cmd) := by
  cases h with
  | nothing hpc => cases hpc.symm.trans hjob
  | @job _ job' j x next hpc hj hx =>
      obtain rfl := Option.some.inj (hpc.symm.trans hjob)
      exact ⟨j, x, next, rfl, rfl, hj, hx⟩
  | reported hj hx => cases hjob
  | emptied hj => cases hjob

end StudiesOS.JobDispatcher
