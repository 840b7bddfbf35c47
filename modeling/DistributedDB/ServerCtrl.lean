import DistributedDB.Library.ArrayShift
import DistributedDB.Library.CyclicOrder
import Mathlib.Tactic

/-!
# The slave list

The data of `server/ServerCtrl.h`: a slave node, the list of slaves that the
master keeps and copies to every slave and client, and the two constants.

A C `int` field is an `Int`, the list's version is an unsigned 32-bit word, and
the node array has the fixed size `MAX_SLAVE_NUM`; only its first `num` cells
are meaningful.  The address of a slave is the pair of its `ip` and `port`, with
which clients and other slaves connect to it.
-/

namespace DistributedDB

open ArrayShift

def MAX_SLAVE_NUM : Nat := 32

def MAX_KEY : Nat := 4000

/-- `unsigned int`, the key type of the database interface. -/
abbrev dbKey := UInt32

/-- The conversion of a C `int` to `unsigned int`. -/
def toUnsigned (i : Int) : UInt32 := UInt32.ofInt i

structure SlaveNode where
  ip : Int
  port : Int
  sock : Int
  /-- The key that the slave uses. -/
  key : Int
deriving DecidableEq, Repr, Inhabited

/-- Where a slave accepts connections. -/
structure Addr where
  ip : Int
  port : Int
deriving DecidableEq, Repr, Inhabited

def SlaveNode.addr (sn : SlaveNode) : Addr := ⟨sn.ip, sn.port⟩

structure SlaveList where
  version : UInt32
  /-- The total number of slaves. -/
  num : Nat
  nodes : Vector SlaveNode MAX_SLAVE_NUM
deriving DecidableEq, Repr

namespace SlaveList

/-- `slaves.nodes[i]`. -/
def node (slaves : SlaveList) (i : Nat) : SlaveNode :=
  cell slaves.nodes i

/-- The zero-initialised list with which the master starts. -/
def empty : SlaveList where
  version := 0
  num := 0
  nodes := Vector.replicate MAX_SLAVE_NUM default

/-- The meaningful part of the node array. -/
def toList (slaves : SlaveList) : List SlaveNode :=
  prefixList slaves.nodes slaves.num

/-- The keys of the nodes, in array order. -/
def keys (slaves : SlaveList) : List Int :=
  slaves.toList.map SlaveNode.key

/-- No two slaves listen at the same address. -/
def DistinctAddrs (slaves : SlaveList) : Prop :=
  ∀ i, i < slaves.num → ∀ j, j < slaves.num →
    (slaves.node i).addr = (slaves.node j).addr → i = j

instance (slaves : SlaveList) : Decidable slaves.DistinctAddrs := by
  unfold DistinctAddrs
  infer_instance

@[simp] theorem length_toList (slaves : SlaveList) :
    slaves.toList.length = slaves.num := by
  simp [toList]

@[simp] theorem length_keys (slaves : SlaveList) :
    slaves.keys.length = slaves.num := by
  simp [keys]

@[simp] theorem getElem_toList (slaves : SlaveList) (i : Nat)
    (hi : i < slaves.toList.length) :
    slaves.toList[i] = slaves.node i := by
  simp [toList, node]

@[simp] theorem getElem_keys (slaves : SlaveList) (i : Nat)
    (hi : i < slaves.keys.length) :
    slaves.keys[i] = (slaves.node i).key := by
  simp [keys]

theorem keys_ne_nil {slaves : SlaveList} (h : 0 < slaves.num) :
    slaves.keys ≠ [] := by
  intro hnil
  have hlen := slaves.length_keys
  rw [hnil] at hlen
  simp at hlen
  omega

end SlaveList

/-- The ring invariant: at most `MAX_SLAVE_NUM` nodes, every key in
`[0, MAX_KEY)`, and the array a rotation of a strictly increasing sequence. -/
structure RingInv (slaves : SlaveList) : Prop where
  num_le : slaves.num ≤ MAX_SLAVE_NUM
  key_range : ∀ i, i < slaves.num →
    0 ≤ (slaves.node i).key ∧ (slaves.node i).key < MAX_KEY
  sorted : CyclicOrder.CyclicSorted slaves.keys

namespace RingInv

/-- The node keys of a ring are pairwise distinct. -/
theorem key_ne {slaves : SlaveList} (h : RingInv slaves) {i j : Nat}
    (hi : i < slaves.num) (hj : j < slaves.num) (hij : i ≠ j) :
    (slaves.node i).key ≠ (slaves.node j).key := by
  intro heq
  have hi' : i < slaves.keys.length := by simpa using hi
  have hj' : j < slaves.keys.length := by simpa using hj
  have hkeys : slaves.keys[i] = slaves.keys[j] := by simpa using heq
  exact hij ((List.Nodup.getElem_inj_iff h.sorted.nodup).mp hkeys)

end RingInv

end DistributedDB
