import DistributedDB.Library.ByteBuffer
import Mathlib.Tactic

/-!
# Structures in memory

How values of a type stand in memory: each takes the same number of bytes, and reading them
gives the value back whatever follows.  A layout says which values survive that; words
always do, pairs and arrays if their parts do.

**Results.**
* `Layout.word`, `Layout.pair`, `Layout.array`, `Layout.via`: words, fields one after the
  other, arrays of a fixed length, and types that are kept as another type.
-/

namespace DistributedDB

universe u v

structure Layout (α : Type u) where
  size : Nat
  encode : α → List UInt8
  decode : List UInt8 → α
  /-- The values that are read back. -/
  Valid : α → Prop
  length_encode : ∀ a, (encode a).length = size
  decode_append : ∀ a, Valid a → ∀ rest, decode (encode a ++ rest) = a

namespace Layout

variable {α : Type u} {β : Type v}

/-- A word of four bytes. -/
def word : Layout UInt32 where
  size := 4
  encode := encode32
  decode := fun bytes => decode32 (bytes.take 4)
  Valid := fun _ => True
  length_encode := length_encode32
  decode_append := by
    intro a _ rest
    rw [List.take_left' (length_encode32 a), decode32_encode32]

/-- Two fields, without padding. -/
def pair (c : Layout α) (d : Layout β) : Layout (α × β) where
  size := c.size + d.size
  encode := fun p => c.encode p.1 ++ d.encode p.2
  decode := fun bytes => (c.decode bytes, d.decode (bytes.drop c.size))
  Valid := fun p => c.Valid p.1 ∧ d.Valid p.2
  length_encode := by
    intro p
    rw [List.length_append, c.length_encode, d.length_encode]
  decode_append := by
    intro p hp rest
    rw [List.append_assoc, c.decode_append _ hp.1, List.drop_left' (c.length_encode _),
      d.decode_append _ hp.2]

/-- A type that is kept as another one. -/
def via (c : Layout α) (store : β → α) (load : α → β) (Valid : β → Prop)
    (hvalid : ∀ b, Valid b → c.Valid (store b))
    (hload : ∀ b, Valid b → load (store b) = b) :
    Layout β where
  size := c.size
  encode := fun b => c.encode (store b)
  decode := fun bytes => load (c.decode bytes)
  Valid := Valid
  length_encode := fun b => c.length_encode (store b)
  decode_append := by
    intro b hb rest
    rw [c.decode_append _ (hvalid b hb), hload b hb]

section Array

variable (c : Layout α)

theorem length_flatMap_encode (xs : List α) :
    (xs.flatMap c.encode).length = xs.length * c.size := by
  induction xs with
  | nil => rw [List.flatMap_nil, List.length_nil, List.length_nil, Nat.zero_mul]
  | cons x xs ih =>
      rw [List.flatMap_cons, List.length_append, ih, c.length_encode, List.length_cons,
        Nat.succ_mul, Nat.add_comm]

/-- The entries from number `i` on start after the entries before. -/
theorem drop_flatMap_encode (xs : List α) (i : Nat) :
    (xs.flatMap c.encode).drop (c.size * i) = (xs.drop i).flatMap c.encode := by
  induction xs generalizing i with
  | nil => rw [List.drop_nil, List.flatMap_nil, List.drop_nil]
  | cons x xs ih =>
      cases i with
      | zero => rfl
      | succ i =>
          rw [List.flatMap_cons, Nat.mul_succ, Nat.add_comm, ← List.drop_drop,
            List.drop_left' (c.length_encode x), ih, List.drop_succ_cons]

/-- An array of a fixed length. -/
def array (n : Nat) : Layout (Vector α n) where
  size := n * c.size
  encode := fun xs => xs.toList.flatMap c.encode
  decode := fun bytes => Vector.ofFn fun i => c.decode (bytes.drop (c.size * i))
  Valid := fun xs => ∀ i (hi : i < n), c.Valid xs[i]
  length_encode := by
    intro xs
    rw [c.length_flatMap_encode, Vector.length_toList]
  decode_append := by
    intro xs hxs rest
    apply Vector.ext
    intro i hi
    have hlen : i < xs.toList.length := by rwa [Vector.length_toList]
    have hle : c.size * i ≤ (xs.toList.flatMap c.encode).length := by
      rw [c.length_flatMap_encode, Nat.mul_comm]
      exact Nat.mul_le_mul_right _ hlen.le
    rw [Vector.getElem_ofFn, List.drop_append_of_le_length hle, c.drop_flatMap_encode,
      List.drop_eq_getElem_cons hlen, List.flatMap_cons, List.append_assoc,
      Vector.getElem_toList, c.decode_append _ (hxs i hi)]

end Array

end Layout

end DistributedDB
