import Mathlib.Data.List.InsertIdx
import Mathlib.Tactic

/-!
# Shifting loops over a fixed-size array

Two loops of array code: moving a range of cells one place up, from the top of
the range down, and moving a range one place down, from its bottom up.  Arrays
have a fixed size, a read outside it yields the default value and a write
outside it is dropped.

**Results.**
* `cell_shiftUp` and `cell_shiftDown`: every cell after the loop.
* `prefixList_shiftUp` and `prefixList_shiftDown`: on the list of the first
  `len` cells, opening a gap and writing into it is `List.insertIdx`, and
  closing a gap is `List.eraseIdx`.
-/

namespace DistributedDB
namespace ArrayShift

universe u

variable {α : Type u} [Inhabited α] {n : Nat}

/-- The content of cell `i`. -/
def cell (xs : Vector α n) (i : Nat) : α :=
  xs[i]?.getD default

/-- `for (i = first + count - 1; i >= first; i--) xs[i + 1] = xs[i]`. -/
def shiftUp (xs : Vector α n) (first : Nat) : Nat → Vector α n
  | 0 => xs
  | count + 1 =>
      shiftUp (xs.setIfInBounds (first + count + 1) (cell xs (first + count)))
        first count

/-- `for (i = first; i < first + count; i++) xs[i] = xs[i + 1]`. -/
def shiftDown (xs : Vector α n) (first : Nat) : Nat → Vector α n
  | 0 => xs
  | count + 1 =>
      shiftDown (xs.setIfInBounds first (cell xs (first + 1))) (first + 1) count

/-- The first `len` cells as a list. -/
def prefixList (xs : Vector α n) (len : Nat) : List α :=
  (List.range len).map (cell xs)

theorem cell_set (xs : Vector α n) (i j : Nat) (a : α) :
    cell (xs.setIfInBounds i a) j =
      if i = j ∧ i < n then a else cell xs j := by
  unfold cell
  rw [Vector.getElem?_setIfInBounds]
  by_cases hij : i = j
  · by_cases hi : i < n
    · simp [hij, hij ▸ hi]
    · have hj : ¬ j < n := hij ▸ hi
      simp [hij, hj]
  · simp [hij]

/-- The upward loop moves each cell of the range one place up. -/
theorem cell_shiftUp (first : Nat) :
    ∀ (count : Nat) (xs : Vector α n) (j : Nat), first + count < n →
      cell (shiftUp xs first count) j =
        if first < j ∧ j ≤ first + count then cell xs (j - 1) else cell xs j
  | 0, xs, j, _ => by
      have : ¬ (first < j ∧ j ≤ first + 0) := by omega
      rw [shiftUp, if_neg this]
  | count + 1, xs, j, h => by
      rw [shiftUp, cell_shiftUp first count _ j (by omega)]
      simp only [cell_set]
      by_cases h1 : first < j ∧ j ≤ first + count
      · have h2 : first < j ∧ j ≤ first + (count + 1) := by omega
        have h3 : ¬ (first + count + 1 = j - 1 ∧ first + count + 1 < n) := by omega
        rw [if_pos h1, if_pos h2, if_neg h3]
      · rw [if_neg h1]
        by_cases h2 : first + count + 1 = j
        · have h3 : first < j ∧ j ≤ first + (count + 1) := by omega
          rw [if_pos ⟨h2, by omega⟩, if_pos h3, ← h2]
          rfl
        · have h3 : ¬ (first < j ∧ j ≤ first + (count + 1)) := by omega
          rw [if_neg (fun h => h2 h.1), if_neg h3]

/-- The downward loop moves each cell above the range one place down. -/
theorem cell_shiftDown :
    ∀ (count first : Nat) (xs : Vector α n) (j : Nat), first + count ≤ n →
      cell (shiftDown xs first count) j =
        if first ≤ j ∧ j < first + count then cell xs (j + 1) else cell xs j
  | 0, first, xs, j, _ => by
      have : ¬ (first ≤ j ∧ j < first + 0) := by omega
      rw [shiftDown, if_neg this]
  | count + 1, first, xs, j, h => by
      rw [shiftDown, cell_shiftDown count (first + 1) _ j (by omega)]
      simp only [cell_set]
      by_cases h1 : first + 1 ≤ j ∧ j < first + 1 + count
      · have h2 : first ≤ j ∧ j < first + (count + 1) := by omega
        have h3 : ¬ (first = j + 1 ∧ first < n) := by omega
        rw [if_pos h1, if_pos h2, if_neg h3]
      · rw [if_neg h1]
        by_cases h2 : first = j
        · have h3 : first ≤ j ∧ j < first + (count + 1) := by omega
          rw [if_pos ⟨h2, by omega⟩, if_pos h3, h2]
        · have h3 : ¬ (first ≤ j ∧ j < first + (count + 1)) := by omega
          rw [if_neg (fun h => h2 h.1), if_neg h3]

@[simp] theorem length_prefixList (xs : Vector α n) (len : Nat) :
    (prefixList xs len).length = len := by
  simp [prefixList]

@[simp] theorem getElem_prefixList (xs : Vector α n) (len i : Nat)
    (hi : i < (prefixList xs len).length) :
    (prefixList xs len)[i] = cell xs i := by
  simp [prefixList]

/-- **Opening a gap and filling it inserts an entry.** -/
theorem prefixList_shiftUp (xs : Vector α n) {first len : Nat} (a : α)
    (hfirst : first ≤ len) (hlen : len < n) :
    prefixList ((shiftUp xs first (len - first)).setIfInBounds first a) (len + 1) =
      (prefixList xs len).insertIdx first a := by
  refine List.ext_getElem ?_ ?_
  · rw [List.length_insertIdx_of_le_length (by simpa using hfirst)]
    simp
  · intro j hj hj'
    rw [getElem_prefixList, List.getElem_insertIdx, cell_set,
      cell_shiftUp _ _ _ _ (by omega)]
    by_cases h1 : j < first
    · have h2 : ¬ (first = j ∧ first < n) := by omega
      have h3 : ¬ (first < j ∧ j ≤ first + (len - first)) := by omega
      rw [if_neg h2, if_neg h3, dif_pos h1, getElem_prefixList]
    · rw [dif_neg h1]
      by_cases h2 : j = first
      · rw [if_pos ⟨h2.symm, by omega⟩, dif_pos h2]
      · have hjl : j < len + 1 := by simpa using hj
        have h3 : first < j ∧ j ≤ first + (len - first) := by omega
        rw [if_neg (fun h => h2 h.1.symm), if_pos h3, dif_neg h2,
          getElem_prefixList]

/-- **Closing a gap deletes an entry.** -/
theorem prefixList_shiftDown (xs : Vector α n) {first len : Nat}
    (hfirst : first < len) (hlen : len ≤ n) :
    prefixList (shiftDown xs first (len - 1 - first)) (len - 1) =
      (prefixList xs len).eraseIdx first := by
  refine List.ext_getElem ?_ ?_
  · rw [List.length_eraseIdx_of_lt (by simpa using hfirst)]
    simp
  · intro j hj hj'
    have hjl : j < len - 1 := by simpa using hj
    rw [getElem_prefixList, List.getElem_eraseIdx,
      cell_shiftDown _ _ _ _ (by omega)]
    by_cases h1 : j < first
    · have h2 : ¬ (first ≤ j ∧ j < first + (len - 1 - first)) := by omega
      rw [if_neg h2, dif_pos h1, getElem_prefixList]
    · have h2 : first ≤ j ∧ j < first + (len - 1 - first) := by omega
      rw [if_pos h2, dif_neg h1, getElem_prefixList]

end ArrayShift
end DistributedDB
