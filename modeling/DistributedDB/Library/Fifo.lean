import DistributedDB.Library.RingBuffer
import DistributedDB.Library.Run

/-!
# Bounded first-in first-out queues

A list of at most `cap` elements: an element is put in behind the others while there is
room, and the first one is taken out.  A circular buffer with `n` slots is such a queue
with room for `n - 1` elements.

**Results.**
* `Fifo.run_conserves`: over any run, what was taken out followed by what is in the queue
  is what was there and what was put in, in order.
* `RingBuffer.toFifo_enqueue`, `RingBuffer.toFifo_dequeue`: the operations of the circular
  buffer are those of the queue.
-/

namespace DistributedDB

open Run

universe u

/-- A queue with room for `cap` elements, the next one to be taken first. -/
structure Fifo (α : Type u) (cap : Nat) where
  items : List α
  length_le : items.length ≤ cap
deriving DecidableEq, Repr

namespace Fifo

variable {α : Type u} {cap : Nat}

def empty : Fifo α cap :=
  ⟨[], Nat.zero_le cap⟩

/-- Put an element in, when there is room. -/
def put (f : Fifo α cap) (x : α) : Option (Fifo α cap) :=
  if hroom : f.items.length < cap then
    some ⟨f.items ++ [x], by rw [List.length_append, List.length_singleton]; omega⟩
  else none

/-- Take the first element out, when there is one. -/
def take : Fifo α cap → Option (α × Fifo α cap)
  | ⟨[], _⟩ => none
  | ⟨x :: rest, hlen⟩ => some (x, ⟨rest, (Nat.le_succ _).trans hlen⟩)

/-- One operation. -/
inductive Operation (α : Type u) where
  | put (x : α)
  | take
deriving DecidableEq, Repr

/-- A queue with what was taken out of it, in order. -/
structure Log (α : Type u) (cap : Nat) where
  queue : Fifo α cap
  taken : List α
deriving DecidableEq, Repr

/-- One operation; `none` when it is not possible. -/
def step (s : Log α cap) : Operation α → Option (Log α cap)
  | .put x => (s.queue.put x).map fun f => { s with queue := f }
  | .take => s.queue.take.map fun r => ⟨r.2, s.taken ++ [r.1]⟩

/-- What the operations put in, in order. -/
def inputs (ops : List (Operation α)) : List α :=
  ops.filterMap fun
    | .put x => some x
    | .take => none

theorem put_eq_some {f g : Fifo α cap} {x : α} (h : f.put x = some g) :
    g.items = f.items ++ [x] := by
  unfold put at h
  split at h
  case isTrue =>
      obtain rfl := Option.some.inj h
      rfl
  case isFalse =>
      cases h

theorem take_eq_some {f g : Fifo α cap} {x : α} (h : f.take = some (x, g)) :
    f.items = x :: g.items := by
  obtain ⟨items, hlen⟩ := f
  cases items with
  | nil => cases h
  | cons y rest =>
      obtain ⟨rfl, rfl⟩ := Prod.mk.inj (Option.some.inj h)
      rfl

/-- An operation moves at most one element, from the input to the queue or from the queue to
the output. -/
theorem step_conserves {s t : Log α cap} {op : Operation α} (h : step s op = some t) :
    t.taken ++ t.queue.items = s.taken ++ s.queue.items ++ inputs [op] := by
  cases op with
  | put x =>
      obtain ⟨f, hput, rfl⟩ := Option.map_eq_some_iff.mp h
      simp [put_eq_some hput, inputs]
  | take =>
      obtain ⟨⟨x, f⟩, htake, rfl⟩ := Option.map_eq_some_iff.mp h
      simp [take_eq_some htake, inputs]

/-- **Nothing is lost, duplicated or reordered.** -/
theorem run_conserves {s t : Log α cap} {ops : List (Operation α)}
    (h : run step s ops = some t) :
    t.taken ++ t.queue.items = s.taken ++ s.queue.items ++ inputs ops := by
  induction ops generalizing s with
  | nil =>
      have hst : s = t := by simpa using h
      simp [hst, inputs]
  | cons op ops ih =>
      obtain ⟨m, hm, hrest⟩ := run_cons_eq_some.mp h
      have hcons : inputs (op :: ops) = inputs [op] ++ inputs ops :=
        List.filterMap_append (l := [op])
      rw [ih hrest, step_conserves hm, hcons, List.append_assoc]

end Fifo

namespace RingBuffer

variable {α : Type u} {n : Nat}

/-- The queue that a circular buffer is. -/
def toFifo (q : RingBuffer α n) : Fifo α (n - 1) :=
  ⟨q.contents, by
    have hsize := q.size_lt
    rw [length_contents]
    omega⟩

/-- **Writing behind `tail` puts an element in.** -/
theorem toFifo_enqueue (q : RingBuffer α n) (x : α) :
    q.toFifo.put x = if q.isFull then none else some (q.enqueue x).toFifo := by
  have hsize := q.size_lt
  have hroom := isFull_iff (q := q)
  by_cases hfull : q.isFull = true
  · rw [if_pos hfull, Fifo.put, dif_neg]
    have := hroom.mp hfull
    simp only [toFifo, length_contents]
    omega
  · rw [if_neg hfull, Fifo.put, dif_pos]
    · simp only [toFifo, contents_enqueue x (Bool.eq_false_of_not_eq_true hfull)]
    · have := mt hroom.mpr hfull
      simp only [toFifo, length_contents]
      omega

/-- **Moving `head` takes the first element out.** -/
theorem toFifo_dequeue (q : RingBuffer α n) :
    q.toFifo.take = if q.isEmpty then none else some (q.slots q.head, q.dequeue.toFifo) := by
  by_cases hempty : q.isEmpty = true
  · have hnil : q.contents = [] := by
      rw [← List.length_eq_zero_iff, length_contents]
      exact isEmpty_iff.mp hempty
    rw [if_pos hempty]
    unfold toFifo
    simp only [hnil]
    rfl
  · rw [if_neg hempty]
    have hcons := contents_eq_cons (Bool.eq_false_of_not_eq_true hempty)
    unfold toFifo
    simp only [hcons]
    rfl

end RingBuffer

end DistributedDB
