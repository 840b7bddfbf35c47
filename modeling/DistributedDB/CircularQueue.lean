import DistributedDB.Library.Fifo
import DistributedDB.MainLoop

/-!
# The circular queue

The functions of `CircularQueue.c` on the array `Q` with its two indices.  `EnQueue` and
`DeQueue` give no result where their assertion stops the process.  `DeQueue` returns an
address in the array: the node is read there later, while the main loop goes on putting
nodes in.

**Results.**
* `CircularQueue.isQueueEmpty_ne_zero`, `CircularQueue.isQueueFull_ne_zero`: the two tests.
* `CircularQueue.refines_fifo`: the queue is a first-in first-out queue with room for
  `MAX_QUEUE_LEN - 1` nodes, and the slot returned last is not written to.
-/

namespace DistributedDB

open Run RingIndex

/-- `Q`, `head` and `tail`. -/
abbrev CircularQueue := RingBuffer QueueNode MAX_QUEUE_LEN

namespace CircularQueue

/-- The value of a comparison. -/
def isQueueFull (q : CircularQueue) : Int :=
  if q.head = (q.tail + 1) % MAX_QUEUE_LEN then 1 else 0

def isQueueEmpty (q : CircularQueue) : Int :=
  if q.head = q.tail then 1 else 0

/-- `EnQueue`: `*pnode` is copied into the slot at `tail`. -/
def enQueue (q : CircularQueue) (pnode : QueueNode) : Option CircularQueue :=
  if isQueueFull q = 0 then
    some { q with
      slots := Function.update q.slots q.tail pnode
      tail := (q.tail + 1) % MAX_QUEUE_LEN
      tail_lt := Nat.mod_lt _ (by decide) }
  else none

/-- `DeQueue`: the index of the slot whose address is returned. -/
def deQueue (q : CircularQueue) : Option (Nat × CircularQueue) :=
  if isQueueEmpty q = 0 then
    some (q.head, { q with
      head := (q.head + 1) % MAX_QUEUE_LEN
      head_lt := Nat.mod_lt _ (by decide) })
  else none

/-- A call of one of the two functions. -/
inductive QueueCall where
  | enQueue (pnode : QueueNode)
  | deQueue
deriving DecidableEq, Repr

/-- The queue between the calls. -/
structure QueueUse where
  queue : CircularQueue
  /-- What the latest `DeQueue` returned. -/
  pnode : Option Nat
  /-- The nodes found at the addresses that `DeQueue` returned, in order. -/
  returned : List QueueNode

theorem zero_lt_MAX_QUEUE_LEN : 0 < MAX_QUEUE_LEN := by
  decide

/-- The initial state, over any contents of the array. -/
def initial (slots : Nat → QueueNode) : QueueUse :=
  ⟨.empty slots zero_lt_MAX_QUEUE_LEN, none, []⟩

/-- A call; `none` when the test before it does not permit it. -/
def step (s : QueueUse) : QueueCall → Option QueueUse
  | .enQueue pnode => (enQueue s.queue pnode).map fun q => { s with queue := q }
  | .deQueue =>
      (deQueue s.queue).map fun r => ⟨r.2, some r.1, s.returned ++ [s.queue.slots r.1]⟩

/-- The operation on the first-in first-out queue. -/
def QueueCall.operation : QueueCall → Fifo.Operation QueueNode
  | .enQueue pnode => .put pnode
  | .deQueue => .take

/-- The first-in first-out queue, with what was taken out. -/
def QueueUse.log (s : QueueUse) : Fifo.Log QueueNode (MAX_QUEUE_LEN - 1) :=
  ⟨s.queue.toFifo, s.returned⟩

/-- The nodes that the calls put in, in order. -/
def entered (calls : List QueueCall) : List QueueNode :=
  Fifo.inputs (calls.map QueueCall.operation)

theorem isQueueFull_eq_zero (q : CircularQueue) : isQueueFull q = 0 ↔ q.isFull = false := by
  simp [isQueueFull, RingBuffer.isFull]

theorem isQueueEmpty_eq_zero (q : CircularQueue) : isQueueEmpty q = 0 ↔ q.isEmpty = false := by
  simp [isQueueEmpty, RingBuffer.isEmpty]

/-- **`isQueueFull` says that one slot is left.** -/
theorem isQueueFull_ne_zero (q : CircularQueue) :
    isQueueFull q ≠ 0 ↔ q.contents.length = MAX_QUEUE_LEN - 1 := by
  have hsize := q.size_lt
  rw [Ne, isQueueFull_eq_zero, Bool.not_eq_false, RingBuffer.isFull_iff,
    RingBuffer.length_contents]
  omega

/-- **`isQueueEmpty` says that there is no node.** -/
theorem isQueueEmpty_ne_zero (q : CircularQueue) :
    isQueueEmpty q ≠ 0 ↔ q.contents.length = 0 := by
  rw [Ne, isQueueEmpty_eq_zero, Bool.not_eq_false, RingBuffer.isEmpty_iff,
    RingBuffer.length_contents]

theorem enQueue_eq (q : CircularQueue) (pnode : QueueNode) :
    enQueue q pnode = if q.isFull then none else some (q.enqueue pnode) := by
  unfold enQueue
  by_cases hfull : q.isFull = true
  · rw [if_neg, if_pos hfull]
    rw [isQueueFull_eq_zero, hfull]
    exact Bool.true_eq_false_eq_False
  · rw [if_pos, if_neg hfull]
    · rfl
    · exact (isQueueFull_eq_zero q).mpr (Bool.eq_false_of_not_eq_true hfull)

theorem deQueue_eq (q : CircularQueue) :
    deQueue q = if q.isEmpty then none else some (q.head, q.dequeue) := by
  unfold deQueue
  by_cases hempty : q.isEmpty = true
  · rw [if_neg, if_pos hempty]
    rw [isQueueEmpty_eq_zero, hempty]
    exact Bool.true_eq_false_eq_False
  · rw [if_pos, if_neg hempty]
    · rfl
    · exact (isQueueEmpty_eq_zero q).mpr (Bool.eq_false_of_not_eq_true hempty)

/-- A call is permitted exactly when the operation is possible, and does the same. -/
theorem log_step (s : QueueUse) (call : QueueCall) :
    (step s call).map QueueUse.log = Fifo.step s.log call.operation := by
  cases call with
  | enQueue pnode =>
      have hput := RingBuffer.toFifo_enqueue s.queue pnode
      simp only [step, enQueue_eq, QueueCall.operation, Fifo.step, QueueUse.log]
      rw [hput]
      split <;> rfl
  | deQueue =>
      have htake := RingBuffer.toFifo_dequeue s.queue
      simp only [step, deQueue_eq, QueueCall.operation, Fifo.step, QueueUse.log]
      rw [htake]
      split <;> rfl

theorem log_run (s : QueueUse) (calls : List QueueCall) :
    (run step s calls).map QueueUse.log =
      run Fifo.step s.log (calls.map QueueCall.operation) := by
  induction calls generalizing s with
  | nil => rfl
  | cons call calls ih =>
      rw [List.map_cons, run, run, ← log_step]
      cases step s call with
      | none => rfl
      | some t => exact ih t

/-- The slot returned last is the free one before `head`, and holds the node returned last. -/
structure ReturnedInv (s : QueueUse) : Prop where
  slot_lt : ∀ slot ∈ s.pnode, slot < MAX_QUEUE_LEN
  before_head : ∀ slot ∈ s.pnode, (slot + 1) % MAX_QUEUE_LEN = s.queue.head
  kept : s.pnode.map s.queue.slots = s.returned.getLast?

theorem returnedInv_initial (slots : Nat → QueueNode) : ReturnedInv (initial slots) where
  slot_lt := by simp [initial]
  before_head := by simp [initial]
  kept := rfl

/-- What a permitted call does. -/
theorem step_cases {s t : QueueUse} {call : QueueCall} (h : step s call = some t) :
    (∃ pnode, call = .enQueue pnode ∧ s.queue.isFull = false ∧
      t = { s with queue := s.queue.enqueue pnode }) ∨
    (call = .deQueue ∧ s.queue.isEmpty = false ∧
      t = ⟨s.queue.dequeue, some s.queue.head,
        s.returned ++ [s.queue.slots s.queue.head]⟩) := by
  cases call with
  | enQueue pnode =>
      rw [step, enQueue_eq, Option.map_eq_some_iff] at h
      obtain ⟨q, hq, rfl⟩ := h
      split at hq
      case isTrue => cases hq
      case isFalse hfull =>
          obtain rfl := Option.some.inj hq
          exact Or.inl ⟨pnode, rfl, Bool.eq_false_of_not_eq_true hfull, rfl⟩
  | deQueue =>
      rw [step, deQueue_eq, Option.map_eq_some_iff] at h
      obtain ⟨r, hr, rfl⟩ := h
      split at hr
      case isTrue => cases hr
      case isFalse hempty =>
          obtain rfl := Option.some.inj hr
          exact Or.inr ⟨rfl, Bool.eq_false_of_not_eq_true hempty, rfl⟩

/-- A permitted `EnQueue` writes to another slot than the one before `head`. -/
theorem slots_enqueue_of_before_head {q : CircularQueue} (pnode : QueueNode) {slot : Nat}
    (hfull : q.isFull = false) (hhead : (slot + 1) % MAX_QUEUE_LEN = q.head) :
    (q.enqueue pnode).slots slot = q.slots slot := by
  rw [RingBuffer.slots_enqueue, if_neg]
  rintro rfl
  rw [RingBuffer.isFull, beq_eq_false_iff_ne] at hfull
  exact hfull hhead.symm

theorem returnedInv_step {s t : QueueUse} {call : QueueCall} (hs : ReturnedInv s)
    (h : step s call = some t) : ReturnedInv t := by
  rcases step_cases h with ⟨pnode, -, hfull, rfl⟩ | ⟨-, -, rfl⟩
  case inl =>
      refine ⟨hs.slot_lt, hs.before_head, ?_⟩
      rw [← hs.kept]
      exact Option.map_congr fun slot hslot =>
        slots_enqueue_of_before_head pnode hfull (hs.before_head slot hslot)
  case inr =>
      refine ⟨?_, ?_, ?_⟩
      · rintro slot ⟨⟩
        exact s.queue.head_lt
      · rintro slot ⟨⟩
        rfl
      · simp

/-- Further `EnQueue`s keep the address that was returned, and what is there. -/
theorem kept_enQueues {s t : QueueUse} (nodes : List QueueNode) (hs : ReturnedInv s)
    (h : run step s (nodes.map .enQueue) = some t) :
    t.pnode = s.pnode ∧ t.pnode.map t.queue.slots = s.pnode.map s.queue.slots := by
  induction nodes generalizing s with
  | nil =>
      obtain rfl : s = t := by simpa using h
      exact ⟨rfl, rfl⟩
  | cons pnode nodes ih =>
      obtain ⟨m, hm, hrest⟩ := run_cons_eq_some.mp h
      have hinv := returnedInv_step hs hm
      obtain ⟨hpnode, hkept⟩ := ih hinv hrest
      rcases step_cases hm with ⟨_, -, -, rfl⟩ | ⟨⟨⟩, -, -⟩
      exact ⟨hpnode, hkept.trans (hinv.kept.trans hs.kept.symm)⟩

/-- **The circular queue is a first-in first-out queue with room for `MAX_QUEUE_LEN - 1`
nodes**: over any calls the permitted ones are those of such a queue, the nodes come out as
they went in, the tests are exact, and the slot that was returned last keeps its node. -/
theorem refines_fifo (slots : Nat → QueueNode) (calls : List QueueCall) :
    (run step (initial slots) calls).map QueueUse.log =
      run Fifo.step ⟨.empty, []⟩ (calls.map QueueCall.operation) ∧
    ∀ s, run step (initial slots) calls = some s →
      s.returned ++ s.queue.contents = entered calls ∧
      (isQueueEmpty s.queue ≠ 0 ↔ s.queue.contents.length = 0) ∧
      (isQueueFull s.queue ≠ 0 ↔ s.queue.contents.length = MAX_QUEUE_LEN - 1) ∧
      s.pnode.map s.queue.slots = s.returned.getLast? ∧
      ∀ (nodes : List QueueNode) t, run step s (nodes.map .enQueue) = some t →
        t.pnode = s.pnode ∧ t.pnode.map t.queue.slots = s.pnode.map s.queue.slots := by
  have hlog := log_run (initial slots) calls
  refine ⟨hlog, fun s hrun => ?_⟩
  have hinv : ReturnedInv s :=
    run_invariant ReturnedInv (fun _ _ _ => returnedInv_step) hrun (returnedInv_initial slots)
  have hfifo : run Fifo.step ⟨.empty, []⟩ (calls.map QueueCall.operation) = some s.log := by
    rw [← show _ = run Fifo.step ⟨.empty, []⟩ _ from hlog, hrun]
    rfl
  exact ⟨Fifo.run_conserves hfifo, isQueueEmpty_ne_zero s.queue, isQueueFull_ne_zero s.queue,
    hinv.kept, fun nodes t => kept_enQueues nodes hinv⟩

/-- A node for the connection on `sock`. -/
def nodeOf (sock : Int) : QueueNode :=
  ⟨⟨sock, 0, 0⟩, .szBuf, 0⟩

/-- The queue is filled, five nodes are taken out, and five more go round the end. -/
theorem refines_fifo_wraps :
    ∃ s, run step (initial fun _ => nodeOf 0)
        (((List.range 9).map fun i => QueueCall.enQueue (nodeOf i)) ++
          List.replicate 5 .deQueue ++ ((List.range 5).map fun i => .enQueue (nodeOf i))) =
        some s ∧
      s.returned ++ s.queue.contents = ((List.range 9 ++ List.range 5).map fun i => nodeOf i) ∧
      s.pnode.map s.queue.slots = s.returned.getLast? := by
  have hmap : (run step (initial fun _ => nodeOf 0)
      (((List.range 9).map fun i => QueueCall.enQueue (nodeOf i)) ++
        List.replicate 5 .deQueue ++ ((List.range 5).map fun i => .enQueue (nodeOf i)))).map
      (fun s => s.pnode) = some (some 4) := by decide +kernel
  obtain ⟨s, hrun, -⟩ := Option.map_eq_some_iff.mp hmap
  have hspec := (refines_fifo (fun _ => nodeOf 0) _).2 s hrun
  exact ⟨s, hrun, hspec.1.trans (by decide +kernel), hspec.2.2.2.1⟩

end CircularQueue

end DistributedDB
