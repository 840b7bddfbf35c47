import DistributedDB.ServerCtrl

/-!
# The protocol

The commands of `dbProtocol.h`, in their order, and the sizes of a packet.

**Results.**
* `CMD.code`: the value of an enumerator.
-/

namespace DistributedDB

/-- `enum CMD`. -/
inductive CMD where
  | SET | GET | DEL | OPEN | CLOSE | QUIT | HELP
  | SET_R | GET_R | DEL_R | OPEN_R | CLOSE_R | QUIT_R | CMDFAIL
  | GET_LIST | GET_LIST_R
  | ADD_SLAVE | DEL_SLAVE | ADD_SLAVE_R | DEL_SLAVE_R | HEARTBEAT
  | NEW_SLAVE | RM_SLAVE | UPDATE_BACKUP12 | NEW_SLAVE_R | RM_SLAVE_R | UPDATE_BACKUP12_R
  | CLIP_DATA | BACKUP | FILETRANS | CLIP_DATA_R | BACKUP_R | FILETRANS_R
  | UPDATE_BACKUP2 | UPDATE_BACKUP2_R
  | UPDATE_VERSION
deriving DecidableEq, Repr

/-- The value of the enumerator. -/
def CMD.code (cmd : CMD) : Nat :=
  cmd.ctorIdx

def MAXPACKETLEN : Nat := 1024

/-- The size of `DBPacketHeader`: four fields of four bytes. -/
def HEADERSIZE : Nat := 16

def APPENDSIZE : Nat := MAXPACKETLEN - HEADERSIZE

/-- A packet, with the string that is appended to the header. -/
structure DBPacket where
  cmd : CMD
  key : dbKey
  version : Int
  append : List UInt8
deriving DecidableEq, Repr

/-- What a zeroed buffer holds. -/
def DBPacket.zero : DBPacket := ⟨.SET, 0, 0, []⟩

end DistributedDB
