import DistributedDB.Library.Run
import DistributedDB.ServerCtrl

/-!
# The master's list operations

`GetLength`, `FindLongestSection`, `AddToSlaveList` and `DelFromSlaveList` of
`server/master.c`, with the array shifts and the truncating `%` and `/` of C.

The random number of the first registration is a parameter.
-/

namespace DistributedDB

open ArrayShift

/-- The length of the section behind node `pos`. -/
def getLength (slaves : SlaveList) (pos : Nat) : Int :=
  let len := (slaves.node ((pos + 1) % slaves.num)).key - (slaves.node pos).key
  (len + MAX_KEY - 1).tmod MAX_KEY + 1

/-- One iteration of the loop of `FindLongestSection` on `(maxlen, index)`. -/
def longerSection (slaves : SlaveList) (best : Int × Int) (i : Nat) : Int × Int :=
  if best.1 < getLength slaves i then (getLength slaves i, (i : Int)) else best

def findLongestSection (slaves : SlaveList) : Int :=
  ((List.range slaves.num).foldl (longerSection slaves) (-1, -1)).2

/-- Add a new slave to the list; returns the list and the index of the new
slave. -/
def addToSlaveList (slaves : SlaveList) (sn : SlaveNode) (rand : Nat) :
    SlaveList × Nat :=
  if slaves.num = 0 then
    let sn := { sn with key := ((rand % MAX_KEY : Nat) : Int) }
    ({ version := slaves.version + 1
       num := slaves.num + 1
       nodes := slaves.nodes.setIfInBounds 0 sn }, 0)
  else
    let pos := (findLongestSection slaves).toNat
    let shifted := { slaves with
      nodes := shiftUp slaves.nodes (pos + 1) (slaves.num - 1 - pos) }
    let newpos := pos + 1
    let sn := { sn with
      key := ((getLength shifted pos).tdiv 2 + (shifted.node pos).key).tmod MAX_KEY }
    ({ version := slaves.version + 1
       num := slaves.num + 1
       nodes := shifted.nodes.setIfInBounds newpos sn }, newpos)

def delFromSlaveList (slaves : SlaveList) (pos : Nat) : SlaveList where
  version := slaves.version + 1
  num := slaves.num - 1
  nodes := shiftDown slaves.nodes pos (slaves.num - 1 - pos)

/-- A change of the master's list. -/
inductive ListChange where
  | add (sn : SlaveNode) (rand : Nat)
  | del (pos : Nat)
deriving DecidableEq, Repr

/-- One accepted change: at most `MAX_SLAVE_NUM` nodes, a deleted position in
range. -/
def changeList (slaves : SlaveList) : ListChange → Option SlaveList
  | .add sn rand =>
      if slaves.num < MAX_SLAVE_NUM then some (addToSlaveList slaves sn rand).1 else none
  | .del pos =>
      if pos < slaves.num then some (delFromSlaveList slaves pos) else none

end DistributedDB
