import DistributedDB.Master

/-!
# The slaves' replay of a list change

`AddNewSlave` and `RemoveSlave` of `server/slave.c`: the code with which a slave
repeats, on its own copy of the list, a change the master made.

**Results.**
* `addToSlaveList_eq_addNewSlave`: replaying the node and position that the
  master announces gives the master's new list, stale cells included.
* `delFromSlaveList_eq_removeSlave`: so does replaying a removal.
* `node_addNewSlave` and `node_removeSlave`: every node after a change.
-/

namespace DistributedDB

open ArrayShift

def addNewSlave (slaves : SlaveList) (pos : Nat) (sn : SlaveNode) : SlaveList where
  version := slaves.version + 1
  num := slaves.num + 1
  nodes := (shiftUp slaves.nodes pos (slaves.num - pos)).setIfInBounds pos sn

def removeSlave (slaves : SlaveList) (pos : Nat) : SlaveList where
  version := slaves.version + 1
  num := slaves.num - 1
  nodes := shiftDown slaves.nodes pos (slaves.num - 1 - pos)

@[simp] theorem num_addNewSlave (slaves : SlaveList) (pos : Nat) (sn : SlaveNode) :
    (addNewSlave slaves pos sn).num = slaves.num + 1 := rfl

@[simp] theorem num_removeSlave (slaves : SlaveList) (pos : Nat) :
    (removeSlave slaves pos).num = slaves.num - 1 := rfl

/-- The node the master announces after an `AddToSlaveList`. -/
def newNode (slaves : SlaveList) (sn : SlaveNode) (rand : Nat) : SlaveNode :=
  (addToSlaveList slaves sn rand).1.node (addToSlaveList slaves sn rand).2

section Nodes

variable {slaves : SlaveList} {pos : Nat}

theorem node_addNewSlave (sn : SlaveNode)
    (hpos : pos ≤ slaves.num) (hnum : slaves.num < MAX_SLAVE_NUM)
    {j : Nat} (hj : j ≤ slaves.num) :
    (addNewSlave slaves pos sn).node j =
      if j < pos then slaves.node j
      else if j = pos then sn else slaves.node (j - 1) := by
  unfold SlaveList.node addNewSlave
  simp only [cell_set]
  rw [cell_shiftUp _ _ _ _ (by omega)]
  rcases Nat.lt_trichotomy j pos with hlt | rfl | hgt
  · rw [if_neg (by omega), if_neg (by omega), if_pos hlt]
  · rw [if_pos ⟨rfl, by omega⟩, if_neg (Nat.lt_irrefl j), if_pos rfl]
  · rw [if_neg (by omega), if_pos (by omega), if_neg (by omega), if_neg (by omega)]

theorem node_removeSlave
    (hpos : pos < slaves.num) (hnum : slaves.num ≤ MAX_SLAVE_NUM)
    {j : Nat} (hj : j + 1 < slaves.num) :
    (removeSlave slaves pos).node j =
      if j < pos then slaves.node j else slaves.node (j + 1) := by
  unfold SlaveList.node removeSlave
  simp only
  rw [cell_shiftDown _ _ _ _ (by omega)]
  rcases Nat.lt_or_ge j pos with hlt | hge
  · rw [if_neg (by omega), if_pos hlt]
  · rw [if_pos (by omega), if_neg (by omega)]

theorem toList_addNewSlave (sn : SlaveNode)
    (hpos : pos ≤ slaves.num) (hnum : slaves.num < MAX_SLAVE_NUM) :
    (addNewSlave slaves pos sn).toList = slaves.toList.insertIdx pos sn :=
  prefixList_shiftUp slaves.nodes sn hpos hnum

theorem toList_removeSlave
    (hpos : pos < slaves.num) (hnum : slaves.num ≤ MAX_SLAVE_NUM) :
    (removeSlave slaves pos).toList = slaves.toList.eraseIdx pos :=
  prefixList_shiftDown slaves.nodes hpos hnum

theorem keys_addNewSlave (sn : SlaveNode)
    (hpos : pos ≤ slaves.num) (hnum : slaves.num < MAX_SLAVE_NUM) :
    (addNewSlave slaves pos sn).keys = slaves.keys.insertIdx pos sn.key := by
  unfold SlaveList.keys
  rw [toList_addNewSlave sn hpos hnum, List.map_insertIdx]

theorem keys_removeSlave
    (hpos : pos < slaves.num) (hnum : slaves.num ≤ MAX_SLAVE_NUM) :
    (removeSlave slaves pos).keys = slaves.keys.eraseIdx pos := by
  unfold SlaveList.keys
  rw [toList_removeSlave hpos hnum, List.eraseIdx_map]

end Nodes

section Replay

variable {slaves : SlaveList} (sn : SlaveNode) (rand : Nat)

theorem delFromSlaveList_eq_removeSlave (pos : Nat) :
    delFromSlaveList slaves pos = removeSlave slaves pos := rfl

/-- The first registration stores the new node alone, with a random key. -/
theorem addToSlaveList_of_empty (hnum : slaves.num = 0) :
    addToSlaveList slaves sn rand =
      (addNewSlave slaves 0 { sn with key := ((rand % MAX_KEY : Nat) : Int) }, 0) := by
  simp [addToSlaveList, addNewSlave, hnum, shiftUp]

/-- The key halfway through the section behind node `pos`. -/
def middleKey (slaves : SlaveList) (pos : Nat) : Int :=
  ((getLength slaves pos).tdiv 2 + (slaves.node pos).key).tmod MAX_KEY

/-- A later registration inserts the new node behind the longest section's lower
end; the key is computed on the shifted array, whose cells `pos` and `pos + 1`
the shift has not touched. -/
theorem addToSlaveList_of_pos (hnum : 0 < slaves.num)
    (hmax : slaves.num < MAX_SLAVE_NUM)
    (hfind : (findLongestSection slaves).toNat < slaves.num) :
    addToSlaveList slaves sn rand =
      (addNewSlave slaves ((findLongestSection slaves).toNat + 1)
        { sn with key := middleKey slaves (findLongestSection slaves).toNat },
        (findLongestSection slaves).toNat + 1) := by
  generalize hp : (findLongestSection slaves).toNat = p at hfind
  have hcell : ∀ j, j ≤ p + 1 →
      cell (shiftUp slaves.nodes (p + 1) (slaves.num - 1 - p)) j =
        cell slaves.nodes j := by
    intro j hj
    rw [cell_shiftUp _ _ _ _ (by omega), if_neg (by omega)]
  have hnext : (p + 1) % slaves.num ≤ p + 1 := Nat.mod_le _ _
  have hcount : slaves.num - (p + 1) = slaves.num - 1 - p := by omega
  simp only [addToSlaveList, if_neg (by omega : ¬ slaves.num = 0), hp, addNewSlave,
    middleKey, getLength, SlaveList.node, hcount, hcell _ hnext,
    hcell p (by omega)]

/-- **Replaying the announced node and position gives the master's list.** -/
theorem addToSlaveList_eq_addNewSlave
    (hmax : slaves.num < MAX_SLAVE_NUM)
    (hfind : 0 < slaves.num → (findLongestSection slaves).toNat < slaves.num) :
    (addToSlaveList slaves sn rand).1 =
      addNewSlave slaves (addToSlaveList slaves sn rand).2 (newNode slaves sn rand) := by
  rcases Nat.eq_zero_or_pos slaves.num with hzero | hpos
  · simp only [newNode]
    rw [addToSlaveList_of_empty sn rand hzero]
    rw [node_addNewSlave _ (by omega) hmax (by omega)]
    simp
  · simp only [newNode]
    rw [addToSlaveList_of_pos sn rand hpos hmax (hfind hpos)]
    rw [node_addNewSlave _ (hfind hpos) hmax (hfind hpos)]
    simp

/-- The announced node is the registering slave's, with its key filled in. -/
theorem exists_newNode_eq
    (hmax : slaves.num < MAX_SLAVE_NUM)
    (hfind : 0 < slaves.num → (findLongestSection slaves).toNat < slaves.num) :
    ∃ key, newNode slaves sn rand = { sn with key := key } := by
  simp only [newNode]
  rcases Nat.eq_zero_or_pos slaves.num with hzero | hpos
  · rw [addToSlaveList_of_empty sn rand hzero]
    rw [node_addNewSlave _ (by omega) hmax (by omega)]
    exact ⟨_, rfl⟩
  · rw [addToSlaveList_of_pos sn rand hpos hmax (hfind hpos)]
    rw [node_addNewSlave _ (hfind hpos) hmax (hfind hpos)]
    exact ⟨_, by rw [if_neg (Nat.lt_irrefl _), if_pos rfl]⟩

theorem newNode_addr
    (hmax : slaves.num < MAX_SLAVE_NUM)
    (hfind : 0 < slaves.num → (findLongestSection slaves).toNat < slaves.num) :
    (newNode slaves sn rand).addr = sn.addr := by
  obtain ⟨key, heq⟩ := exists_newNode_eq sn rand hmax hfind
  rw [heq]
  rfl

theorem newNode_sock
    (hmax : slaves.num < MAX_SLAVE_NUM)
    (hfind : 0 < slaves.num → (findLongestSection slaves).toNat < slaves.num) :
    (newNode slaves sn rand).sock = sn.sock := by
  obtain ⟨key, heq⟩ := exists_newNode_eq sn rand hmax hfind
  rw [heq]

end Replay

end DistributedDB
