import DistributedDB.Library.RingIndex

/-!
# Circular buffers

A queue in a fixed number of slots.  The slots from `head` up to `tail` are in use, and
one slot always stays free, so that equal indices mean an empty buffer.  Taking an
element out does not erase its slot: a reader that keeps the index still finds the
element there, until the buffer has gone round once and the slot is filled again.

**Results.**
* `contents_enqueue`, `contents_eq_cons`: the buffer is a first-in first-out queue.
* `isEmpty_iff`, `isFull_iff`: the two tests on the indices, by the number of elements.
* `not_inUse_tail`: the slot that is filled next holds no element.
-/

namespace DistributedDB

open RingIndex

universe u

/-- A circular buffer with `n` slots. -/
structure RingBuffer (α : Type u) (n : Nat) where
  slots : Nat → α
  head : Nat
  tail : Nat
  head_lt : head < n
  tail_lt : tail < n

namespace RingBuffer

variable {α : Type u} {n : Nat}

/-- An empty buffer over the given slots. -/
def empty (slots : Nat → α) (hn : 0 < n) : RingBuffer α n :=
  ⟨slots, 0, 0, hn, hn⟩

def isFull (q : RingBuffer α n) : Bool :=
  q.head == (q.tail + 1) % n

def isEmpty (q : RingBuffer α n) : Bool :=
  q.head == q.tail

/-- The element is written into the slot at `tail`. -/
def enqueue (q : RingBuffer α n) (x : α) : RingBuffer α n where
  slots := Function.update q.slots q.tail x
  head := q.head
  tail := (q.tail + 1) % n
  head_lt := q.head_lt
  tail_lt := Nat.mod_lt _ (Nat.lt_of_le_of_lt (Nat.zero_le _) q.tail_lt)

/-- The slot at `head` is given free. -/
def dequeue (q : RingBuffer α n) : RingBuffer α n where
  slots := q.slots
  head := (q.head + 1) % n
  tail := q.tail
  head_lt := Nat.mod_lt _ (Nat.lt_of_le_of_lt (Nat.zero_le _) q.tail_lt)
  tail_lt := q.tail_lt

/-- The number of elements. -/
def size (q : RingBuffer α n) : Nat :=
  if q.head ≤ q.tail then q.tail - q.head else q.tail + n - q.head

/-- The elements, the next one to be taken first. -/
def contents (q : RingBuffer α n) : List α :=
  (List.range q.size).map fun k => q.slots ((q.head + k) % n)

/-- Slot `i` holds an element of the queue. -/
def InUse (q : RingBuffer α n) (i : Nat) : Prop :=
  ∃ k, k < q.size ∧ (q.head + k) % n = i

variable (q : RingBuffer α n) (x : α)

@[simp] theorem slots_dequeue : q.dequeue.slots = q.slots := rfl

@[simp] theorem head_enqueue : (q.enqueue x).head = q.head := rfl

theorem slots_enqueue (i : Nat) :
    (q.enqueue x).slots i = if i = q.tail then x else q.slots i := by
  simp [enqueue, Function.update_apply]

@[simp] theorem contents_empty (slots : Nat → α) (hn : 0 < n) :
    (empty slots hn).contents = [] := rfl

theorem size_lt : q.size < n := by
  have hhead := q.head_lt
  have htail := q.tail_lt
  unfold size
  split <;> omega

/-- The slot behind the last element. -/
theorem add_size_mod : (q.head + q.size) % n = q.tail := by
  have hhead := q.head_lt
  have htail := q.tail_lt
  unfold size
  split
  case isTrue hle =>
      rw [Nat.add_sub_cancel' hle, Nat.mod_eq_of_lt htail]
  case isFalse hgt =>
      have hsum : q.head + (q.tail + n - q.head) = q.tail + n := by omega
      rw [hsum, Nat.add_mod_right, Nat.mod_eq_of_lt htail]

variable {q}

theorem size_enqueue (hfull : q.isFull = false) : (q.enqueue x).size = q.size + 1 := by
  have hhead := q.head_lt
  have htail := q.tail_lt
  simp only [isFull, beq_eq_false_iff_ne, succ_mod htail] at hfull
  simp only [size, enqueue, succ_mod htail]
  split at hfull
  case isTrue hlt =>
      rw [if_pos hlt]
      split <;> split <;> omega
  case isFalse hwrap =>
      rw [if_neg hwrap]
      split <;> split <;> omega

theorem size_eq_succ (hempty : q.isEmpty = false) : q.size = q.dequeue.size + 1 := by
  have hhead := q.head_lt
  have htail := q.tail_lt
  simp only [isEmpty, beq_eq_false_iff_ne] at hempty
  simp only [size, dequeue, succ_mod hhead]
  split <;> split <;> split <;> omega

theorem isEmpty_iff : q.isEmpty = true ↔ q.size = 0 := by
  have hhead := q.head_lt
  have htail := q.tail_lt
  simp only [isEmpty, beq_iff_eq, size]
  split <;> omega

/-- One slot stays free. -/
theorem isFull_iff : q.isFull = true ↔ q.size + 1 = n := by
  have hhead := q.head_lt
  have htail := q.tail_lt
  simp only [isFull, beq_iff_eq, size, succ_mod htail]
  split <;> split <;> omega

variable (q) in
@[simp] theorem length_contents : q.contents.length = q.size := by
  simp [contents]

/-- Different elements are in different slots. -/
theorem slot_inj {j k : Nat} (hj : j ≤ q.size) (hk : k ≤ q.size)
    (h : (q.head + j) % n = (q.head + k) % n) : j = k := by
  have hhead := q.head_lt
  have hsize := q.size_lt
  rw [mod_of_lt_two_mul (by omega), mod_of_lt_two_mul (by omega)] at h
  split at h <;> split at h <;> omega

variable (q) in
/-- The slot at `tail` is free. -/
theorem not_inUse_tail : ¬ q.InUse q.tail := by
  rintro ⟨k, hk, heq⟩
  have := slot_inj hk.le le_rfl (heq.trans q.add_size_mod.symm)
  omega

/-- **An element that is put in comes last.** -/
theorem contents_enqueue (hfull : q.isFull = false) :
    (q.enqueue x).contents = q.contents ++ [x] := by
  have hlast : (q.enqueue x).slots ((q.head + q.size) % n) = x := by
    rw [q.add_size_mod, slots_enqueue, if_pos rfl]
  have hothers : ∀ k ∈ List.range q.size,
      (q.enqueue x).slots ((q.head + k) % n) = q.slots ((q.head + k) % n) := by
    intro k hk
    rw [slots_enqueue, if_neg]
    intro heq
    exact q.not_inUse_tail ⟨k, List.mem_range.mp hk, heq⟩
  rw [contents, size_enqueue x hfull, List.range_succ, List.map_append, head_enqueue,
    List.map_congr_left hothers, List.map_singleton, hlast, contents]

/-- **The element at `head` is the first one.** -/
theorem contents_eq_cons (hempty : q.isEmpty = false) :
    q.contents = q.slots q.head :: q.dequeue.contents := by
  have hnext : ∀ k ∈ List.range q.dequeue.size,
      q.slots ((q.head + (k + 1)) % n) = q.slots ((q.dequeue.head + k) % n) := by
    intro k _
    have hindex : (q.dequeue.head + k) % n = (q.head + (k + 1)) % n := by
      rw [dequeue, Nat.mod_add_mod, Nat.add_assoc, Nat.add_comm 1 k]
    rw [hindex]
  rw [contents, size_eq_succ hempty, List.range_succ_eq_map, List.map_cons, Nat.add_zero,
    Nat.mod_eq_of_lt q.head_lt, List.map_map]
  exact congrArg (q.slots q.head :: ·) (List.map_congr_left hnext)

end RingBuffer

end DistributedDB
