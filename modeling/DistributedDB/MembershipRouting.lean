import DistributedDB.ListReplay
import DistributedDB.Library.RingIndex
import DistributedDB.Routing

/-!
# Membership changes and routing

Two rings that differ in one node route every key alike, except that the ring
without the node gives that node's section to its predecessor.

**Results.**
* `WithoutNode`: one list is the other without node `r`; an insertion and a
  removal both give such a pair.
* `WithoutNode.getSocket_iff`: how `GetSocket` on the smaller list follows from
  `GetSocket` on the larger one.
-/

namespace DistributedDB

open RingIndex

/-- The list `small` has the nodes of `big` without node `r`. -/
structure WithoutNode (small big : SlaveList) (r : Nat) : Prop where
  num : big.num = small.num + 1
  pos : r ≤ small.num
  node : ∀ j, j < small.num → small.node j = big.node (oldIndex r j)

/-- A list is its extension without the new node. -/
theorem withoutNode_addNewSlave {slaves : SlaveList} {pos : Nat} (sn : SlaveNode)
    (hpos : pos ≤ slaves.num) (hmax : slaves.num < MAX_SLAVE_NUM) :
    WithoutNode slaves (addNewSlave slaves pos sn) pos where
  num := rfl
  pos := hpos
  node := by
    intro j hj
    rcases Nat.lt_or_ge j pos with hlt | hge
    · have hsame : oldIndex pos j = j := if_pos hlt
      rw [hsame, node_addNewSlave sn hpos hmax (by omega), if_pos hlt]
    · have hnext : oldIndex pos j = j + 1 := if_neg (by omega)
      rw [hnext, node_addNewSlave sn hpos hmax (by omega), if_neg (by omega),
        if_neg (by omega)]
      rfl

/-- A list after a removal is the list before it without the removed node. -/
theorem withoutNode_removeSlave {slaves : SlaveList} {pos : Nat}
    (hpos : pos < slaves.num) (hmax : slaves.num ≤ MAX_SLAVE_NUM) :
    WithoutNode (removeSlave slaves pos) slaves pos where
  num := by
    rw [num_removeSlave]
    omega
  pos := by
    rw [num_removeSlave]
    omega
  node := by
    intro j hj
    rw [num_removeSlave] at hj
    rw [node_removeSlave hpos hmax (by omega), oldIndex]
    split <;> rfl

/-- A list is the list after a registration without the new slave. -/
theorem withoutNode_addToSlaveList {slaves : SlaveList} (hring : RingInv slaves)
    (hmax : slaves.num < MAX_SLAVE_NUM) (sn : SlaveNode) (rand : Nat) :
    WithoutNode slaves (addToSlaveList slaves sn rand).1
      (addToSlaveList slaves sn rand).2 := by
  rw [addToSlaveList_eq_addNewSlave sn rand hmax hring.find_lt]
  exact withoutNode_addNewSlave _ (newpos_eq slaves hring sn rand hmax).1 hmax

namespace WithoutNode

section Nodes

variable {small big : SlaveList} {r : Nat} (h : WithoutNode small big r)
include h

/-- A node of the larger list, in the smaller one. -/
theorem node_newIndex {i : Nat} (hi : i < big.num) (hne : i ≠ r) :
    small.node (newIndex r i) = big.node i := by
  have hnum := h.num
  have hlt := newIndex_lt h.pos (show i ≤ small.num by omega) hne
  rw [h.node _ hlt, oldIndex_newIndex hne]

theorem distinctAddrs_small (hdistinct : big.DistinctAddrs) : small.DistinctAddrs := by
  have hnum := h.num
  intro i hi j hj heq
  rw [h.node i hi, h.node j hj] at heq
  have hi' := oldIndex_lt (r := r) (show i + 1 < big.num by omega)
  have hj' := oldIndex_lt (r := r) (show j + 1 < big.num by omega)
  exact oldIndex_inj (hdistinct _ hi' _ hj' heq)

theorem distinctAddrs_big (hdistinct : small.DistinctAddrs)
    (hfresh : ∀ j, j < small.num → (small.node j).addr ≠ (big.node r).addr) :
    big.DistinctAddrs := by
  have hnum := h.num
  intro i hi j hj heq
  rcases eq_or_ne i r with rfl | hir
  · rcases eq_or_ne j i with rfl | hji
    · rfl
    · rw [← h.node_newIndex hj hji] at heq
      exact absurd heq.symm (hfresh _ (newIndex_lt h.pos (by omega) hji))
  · have hi' := newIndex_lt h.pos (show i ≤ small.num by omega) hir
    rw [← h.node_newIndex hi hir] at heq
    rcases eq_or_ne j r with rfl | hjr
    · exact absurd heq (hfresh _ hi')
    · have hj' := newIndex_lt h.pos (show j ≤ small.num by omega) hjr
      rw [← h.node_newIndex hj hjr] at heq
      exact newIndex_inj hir hjr (hdistinct _ hi' _ hj' heq)

end Nodes

variable {small big : SlaveList} {r : Nat}
variable (h : WithoutNode small big r) (hsmall : RingInv small) (hbig : RingInv big)

/-- The section of a node that is not the predecessor is the same in both rings. -/
theorem inSection_iff {j : Nat} (h : WithoutNode small big r) (hj : j < small.num)
    (hne : j ≠ back small.num r 1) (x : Int) :
    InSection small j x ↔ InSection big (oldIndex r j) x := by
  have hnext := Nat.mod_lt (j + 1) (show 0 < small.num by omega)
  rw [InSection, InSection, h.node j hj, h.node _ hnext, oldIndex_succ h.pos hj hne, h.num]

include h hsmall hbig

/-- A key routed to another node is routed to it in both rings. -/
theorem getSocket_of_ne {j : Nat} (hj : j < small.num) (hne : j ≠ back small.num r 1)
    (key : dbKey) :
    getSocket small key = some j ↔ getSocket big key = some (oldIndex r j) := by
  rw [getSocket_eq_some_iff hsmall, getSocket_eq_some_iff hbig,
    h.inSection_iff hj hne, h.num]
  have hold := oldIndex_lt (r := r) (show j + 1 < small.num + 1 by omega)
  exact and_congr_left fun _ => iff_of_true hj hold

/-- The predecessor owns its old section and the removed node's. -/
theorem getSocket_back (hpos : 0 < small.num) (key : dbKey) :
    getSocket small key = some (back small.num r 1) ↔
      (getSocket big key = some (back big.num r 1) ∨ getSocket big key = some r) := by
  have hold : oldIndex r (back small.num r 1) = back big.num r 1 := by
    rw [h.num]
    exact oldIndex_back h.pos hpos
  have hbigpos : 0 < big.num := by
    rw [h.num]
    omega
  constructor
  · intro hroute
    obtain ⟨i, ⟨hi, hin⟩, _⟩ := hbig.existsUnique_inSection hbigpos (circleKey key)
    have hgot : getSocket big key = some i := (getSocket_eq_some_iff hbig key i).mpr ⟨hi, hin⟩
    rcases eq_or_ne i r with rfl | hir
    · exact Or.inr hgot
    · left
      rcases eq_or_ne (newIndex r i) (back small.num r 1) with heq | hne
      · rw [← hold, ← heq, oldIndex_newIndex hir]
        exact hgot
      · -- another owner in the larger ring would be the owner in the smaller one
        have hlt := newIndex_lt h.pos (show i ≤ small.num by rw [h.num] at hi; omega) hir
        have hother := (h.getSocket_of_ne hsmall hbig hlt hne key).mpr
          (by rw [oldIndex_newIndex hir]; exact hgot)
        rw [hroute] at hother
        exact absurd (Option.some.inj hother).symm hne
  · intro hroute
    obtain ⟨j, ⟨hj, hin⟩, _⟩ := hsmall.existsUnique_inSection hpos (circleKey key)
    have hgot : getSocket small key = some j :=
      (getSocket_eq_some_iff hsmall key j).mpr ⟨hj, hin⟩
    rcases eq_or_ne j (back small.num r 1) with rfl | hne
    · exact hgot
    · have hother := (h.getSocket_of_ne hsmall hbig hj hne key).mp hgot
      rcases hroute with hroute | hroute
      · rw [hroute, ← hold] at hother
        exact absurd (oldIndex_inj (Option.some.inj hother)).symm hne
      · rw [hroute] at hother
        exact absurd (Option.some.inj hother).symm (oldIndex_ne r j)

/-- How the smaller ring routes. -/
theorem getSocket_iff {j : Nat} (hj : j < small.num) (key : dbKey) :
    getSocket small key = some j ↔
      (getSocket big key = some (oldIndex r j) ∨
        (j = back small.num r 1 ∧ getSocket big key = some r)) := by
  rcases eq_or_ne j (back small.num r 1) with rfl | hne
  · rw [h.getSocket_back hsmall hbig (by omega), oldIndex_back h.pos (by omega), h.num]
    simp
  · rw [h.getSocket_of_ne hsmall hbig hj hne]
    simp [hne]

end WithoutNode

end DistributedDB
