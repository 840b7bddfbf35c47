import DistributedDB.RingInvariant

/-!
# Client routing

`GetSocket` of `client/netdbapi.c`: the client scans its slave list for the
first node whose section contains the reduced key.  The model returns the index
of that node; `none` is the failure of the assertion `index != slaves->num`.

The loop compares a C `int` with an unsigned key, so the bound is converted to
unsigned first.

**Results.**
* `sectionHit_iff`: on a ring, the three branches of the loop body together test
  membership in the cyclic half-open section behind the node.
* `getSocket_eq_some_iff`: on a ring, the first match is the only match.
* `getSocket_existsUnique`: routing is total and unambiguous.
-/

namespace DistributedDB

open CyclicOrder

/-- The conditions of the three branches in the loop body of `GetSocket`. -/
def sectionHit (slaves : SlaveList) (key : dbKey) (i : Nat) : Bool :=
  let lower_b := (slaves.node i).key
  let upper_b := (slaves.node ((i + 1) % slaves.num)).key
  (lower_b < upper_b && toUnsigned lower_b < key && key ≤ toUnsigned upper_b) ||
    (lower_b > upper_b && (toUnsigned lower_b < key || key ≤ toUnsigned upper_b)) ||
    lower_b == upper_b

/-- The index of the node whose socket `GetSocket` returns. -/
def getSocket (slaves : SlaveList) (key : dbKey) : Option Nat :=
  (List.range slaves.num).find? (sectionHit slaves (key % UInt32.ofNat MAX_KEY))

/-- The key as a point of the circle. -/
def circleKey (key : dbKey) : Int :=
  ((key.toNat % MAX_KEY : Nat) : Int)

/-- `GetSocket` selects a node of the list. -/
theorem getSocket_lt_num {slaves : SlaveList} {key : dbKey} {i : Nat}
    (h : getSocket slaves key = some i) : i < slaves.num := by
  rw [getSocket] at h
  exact List.mem_range.mp (List.mem_of_find?_eq_some h)

/-- Node `i`'s section, from its own key (excluded) to the next node's key
(included). -/
def InSection (slaves : SlaveList) (i : Nat) (x : Int) : Prop :=
  CyclicIoc (slaves.node i).key (slaves.node ((i + 1) % slaves.num)).key x

instance (slaves : SlaveList) (i : Nat) (x : Int) :
    Decidable (InSection slaves i x) := by
  unfold InSection
  infer_instance

section Unsigned

/-- A node key survives the conversion to unsigned. -/
theorem toNat_toUnsigned {k : Int} (hlo : 0 ≤ k) (hhi : k < MAX_KEY) :
    ((toUnsigned k).toNat : Int) = k := by
  have hmod : k % 2 ^ 32 = k := by
    simp only [MAX_KEY] at hhi
    omega
  have hsize : k.toNat < UInt32.size := by
    simp only [MAX_KEY, UInt32.size] at *
    omega
  unfold toUnsigned UInt32.ofInt
  rw [hmod, UInt32.toNat_ofNat_of_lt' hsize]
  omega

theorem toUnsigned_lt_iff {k : Int} (hlo : 0 ≤ k) (hhi : k < MAX_KEY) (key : dbKey) :
    toUnsigned k < key ↔ k < (key.toNat : Int) := by
  have h := toNat_toUnsigned hlo hhi
  rw [UInt32.lt_iff_toNat_lt]
  omega

theorem le_toUnsigned_iff {k : Int} (hlo : 0 ≤ k) (hhi : k < MAX_KEY) (key : dbKey) :
    key ≤ toUnsigned k ↔ (key.toNat : Int) ≤ k := by
  have h := toNat_toUnsigned hlo hhi
  rw [UInt32.le_iff_toNat_le]
  omega

theorem toNat_mod_MAX_KEY (key : dbKey) :
    (((key % UInt32.ofNat MAX_KEY).toNat : Nat) : Int) = circleKey key := by
  rw [UInt32.toNat_mod]
  rfl

end Unsigned

section Routing

variable {slaves : SlaveList}

/-- On a ring the loop body tests membership in the section. -/
theorem sectionHit_iff (h : RingInv slaves) {i : Nat} (hi : i < slaves.num)
    (key : dbKey) :
    sectionHit slaves key i = true ↔ InSection slaves i (key.toNat : Int) := by
  obtain ⟨hlo, hhi⟩ := h.key_range i hi
  obtain ⟨hlo', hhi'⟩ := h.key_range ((i + 1) % slaves.num) (Nat.mod_lt _ (by omega))
  simp only [sectionHit, InSection, Bool.or_eq_true, Bool.and_eq_true,
    decide_eq_true_eq, beq_iff_eq, toUnsigned_lt_iff hlo hhi,
    le_toUnsigned_iff hlo' hhi']
  generalize (slaves.node i).key = lower
  generalize (slaves.node ((i + 1) % slaves.num)).key = upper
  rcases lt_or_ge lower upper with hlt | hge
  · rw [cyclicIoc_of_lt hlt]
    omega
  · rw [cyclicIoc_of_le hge]
    omega

/-- Every point of the circle lies in the section of exactly one node. -/
theorem RingInv.existsUnique_inSection (h : RingInv slaves)
    (hpos : 0 < slaves.num) (x : Int) :
    ∃! i, i < slaves.num ∧ InSection slaves i x := by
  obtain ⟨i, ⟨hi, hix⟩, huniq⟩ :=
    existsUnique_section h.sorted (SlaveList.keys_ne_nil hpos) x
  have hsec : ∀ j, (hj : j < slaves.num) → (hs : j < (sections slaves.keys).length) →
      (CyclicIoc (sections slaves.keys)[j].1 (sections slaves.keys)[j].2 x ↔
        InSection slaves j x) := by
    intro j hj hs
    rw [getElem_sections slaves.keys j hs (by simpa using hj)
      (by simpa using Nat.mod_lt _ hpos)]
    simp [InSection]
  have hin : i < slaves.num := by simpa using hi
  refine ⟨i, ⟨hin, (hsec i hin hi).mp hix⟩, ?_⟩
  rintro j ⟨hj, hjx⟩
  have hjs : j < (sections slaves.keys).length := by simpa using hj
  exact huniq j ⟨hjs, (hsec j hj hjs).mpr hjx⟩

/-- On a ring `GetSocket` selects the owner of the reduced key. -/
theorem getSocket_eq_some_iff (h : RingInv slaves) (key : dbKey) (i : Nat) :
    getSocket slaves key = some i ↔
      i < slaves.num ∧ InSection slaves i (circleKey key) := by
  have hhit : ∀ j, j < slaves.num →
      (sectionHit slaves (key % UInt32.ofNat MAX_KEY) j = true ↔
        InSection slaves j (circleKey key)) := by
    intro j hj
    rw [sectionHit_iff h hj, toNat_mod_MAX_KEY]
  rw [getSocket, List.find?_range_eq_some]
  constructor
  · rintro ⟨hhiti, hmem, _⟩
    have hi : i < slaves.num := by simpa using hmem
    exact ⟨hi, (hhit i hi).mp hhiti⟩
  · rintro ⟨hi, hix⟩
    refine ⟨(hhit i hi).mpr hix, by simpa using hi, ?_⟩
    intro j hji
    have hj : j < slaves.num := by omega
    rw [Bool.not_eq_true', ← Bool.not_eq_true, hhit j hj]
    intro hjx
    have heq : j = i :=
      (h.existsUnique_inSection (by omega) (circleKey key)).unique ⟨hj, hjx⟩ ⟨hi, hix⟩
    omega

/-- The slave that `GetSocket` selects is a slave of the list. -/
theorem getSocket_lt (h : RingInv slaves) {key : dbKey} {i : Nat}
    (hi : getSocket slaves key = some i) :
    i < slaves.num :=
  ((getSocket_eq_some_iff h key i).mp hi).1

/-- **Routing is total and unambiguous.**  On every non-empty ring the loop of
`GetSocket` stops at an index, and that index is the one and only node whose
section contains the reduced key. -/
theorem getSocket_existsUnique (slaves : SlaveList) (h : RingInv slaves)
    (hpos : 0 < slaves.num) (key : dbKey) :
    ∃ i, getSocket slaves key = some i ∧
      i < slaves.num ∧ InSection slaves i (circleKey key) ∧
      ∀ j, j < slaves.num → InSection slaves j (circleKey key) → j = i := by
  obtain ⟨i, ⟨hi, hix⟩, huniq⟩ := h.existsUnique_inSection hpos (circleKey key)
  refine ⟨i, (getSocket_eq_some_iff h key i).mpr ⟨hi, hix⟩, hi, hix, ?_⟩
  intro j hj hjx
  exact huniq j ⟨hj, hjx⟩

end Routing

/-- In a ring of slaves at 0, 1000 and 2000: a key inside a section, and one that is
reduced to the end of the section that wraps around. -/
theorem getSocket_existsUnique_threeNodes :
    (∃ i, getSocket (ringOf 3) 1500 = some i ∧
      i < (ringOf 3).num ∧ InSection (ringOf 3) i (circleKey 1500) ∧
      ∀ j, j < (ringOf 3).num → InSection (ringOf 3) j (circleKey 1500) → j = i) ∧
    (∃ i, getSocket (ringOf 3) 4000 = some i ∧
      i < (ringOf 3).num ∧ InSection (ringOf 3) i (circleKey 4000) ∧
      ∀ j, j < (ringOf 3).num → InSection (ringOf 3) j (circleKey 4000) → j = i) ∧
    getSocket (ringOf 3) 1500 = some 1 ∧ getSocket (ringOf 3) 4000 = some 2 :=
  ⟨getSocket_existsUnique (ringOf 3) (ringInv_ringOf (by decide)) (by decide) 1500,
    getSocket_existsUnique (ringOf 3) (ringInv_ringOf (by decide)) (by decide) 4000,
    by decide, by decide⟩

end DistributedDB
