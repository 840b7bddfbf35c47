import DistributedDB.Library.RingIndex
import DistributedDB.TcDB

/-!
# A slave and its message handlers

The state of a slave process and the handlers of `server/slave.c`, each as the
change it makes to the slave's own state.  There is one database, open on every
slave; `file_master` is its primary file, `file_tmp` the file into which
`CLIP_DATA` splits, and each backup directory holds at most one `.bac` file.
Transfers succeed, so a file arrives as it was sent.

A handler that asks another slave for a file takes that file as an argument
here; the exchange itself is in the cluster model.
-/

namespace DistributedDB

open PartialMap RingIndex

/-- The files of the database on one slave. -/
structure Disk where
  file_master : HDB
  file_tmp : Option HDB
  backup1 : Option HDB
  backup2 : Option HDB
deriving DecidableEq

/-- The file in backup directory `k`. -/
def Disk.backup (disk : Disk) (k : Nat) : Option HDB :=
  if k = 1 then disk.backup1 else disk.backup2

/-- `DBCreate` on a path opens the file there or creates an empty one. -/
def openFile (file : Option HDB) : HDB :=
  file.getD ∅

namespace Disk

/-- `mv backup1/*.bac backup2/`; fails without a file in `backup1`. -/
def mvBackup1 (disk : Disk) : Disk :=
  match disk.backup1 with
  | some file => { disk with backup1 := none, backup2 := some file }
  | none => disk

/-- `mv backup2/*.bac backup1/`; fails without a file in `backup2`. -/
def mvBackup2 (disk : Disk) : Disk :=
  match disk.backup2 with
  | some file => { disk with backup1 := some file, backup2 := none }
  | none => disk

/-- The file work of `CLIP_DATA`: returns the files and the file sent, which ends
up in `backup1`. -/
def clip (disk : Disk) (lower_b upper_b : dbKey) : Disk × HDB :=
  let disk := disk.mvBackup1
  let split := splitByKey disk.file_master lower_b (openFile disk.file_tmp) upper_b
  ({ disk with file_master := split.1, file_tmp := none, backup1 := some split.2 },
    split.2)

/-- The file work of `UPDATE_BACKUP2`: `backup2` is deleted and split anew out of
`backup1`. -/
def updateBackup2 (disk : Disk) (lower_b upper_b : dbKey) : Disk :=
  let split := splitByKey (openFile disk.backup1) lower_b ∅ upper_b
  { disk with backup1 := some split.1, backup2 := some split.2 }

/-- The file work of `RM_SLAVE` at the predecessor of the removed slave. -/
def mergeBackup1 (disk : Disk) : Disk :=
  let merged := merge2Files (openFile disk.backup1) disk.file_master
  { disk with backup1 := some merged.1, file_master := merged.2 }.mvBackup2

/-- The file work of `RM_SLAVE` at the second predecessor. -/
def mergeBackup2 (disk : Disk) : Disk :=
  let merged := merge2Files (openFile disk.backup2) (openFile disk.backup1)
  { disk with backup1 := some merged.2, backup2 := none }

end Disk

/-- The globals of `slave.c` that the handlers use, and the files. -/
structure Slave where
  slaves : SlaveList
  /-- This server's position in `slaves`. -/
  pos : Nat
  disk : Disk
deriving DecidableEq

/-- `(pos + k + num) % num` in C integers. -/
def relPos (pos : Nat) (k : Int) (num : Nat) : Nat :=
  (((pos : Int) + k + num).tmod num).toNat

namespace Slave

/-- The position of the slave that `CommunicateToSlave(k, ..)` connects to;
`none` when that is the slave itself. -/
def hisPos (s : Slave) (k : Int) : Option Nat :=
  if relPos s.pos k s.slaves.num = s.pos then none
  else some (relPos s.pos k s.slaves.num)

/-- `NEW_SLAVE`: replay the insertion and move the own position. -/
def newSlave (s : Slave) (key : Nat) (sn : SlaveNode) : Slave :=
  let slaves := addNewSlave s.slaves key sn
  { s with
    slaves := slaves
    pos := if key ≤ s.pos then (s.pos + 1) % slaves.num else s.pos }

/-- `RM_SLAVE` up to the reply: replay the removal and move the own position. -/
def rmSlave (s : Slave) (rmpos : Nat) : Slave :=
  let slaves := removeSlave s.slaves rmpos
  { s with
    slaves := slaves
    pos := if rmpos < s.pos then (s.pos - 1 + slaves.num) % slaves.num else s.pos }

/-- The slave is the predecessor of the removed slave. -/
def isPredecessor (s : Slave) (rmpos : Nat) : Bool :=
  s.pos == relPos rmpos (-1) s.slaves.num

/-- The slave is the second predecessor of the removed slave. -/
def isSecondPredecessor (s : Slave) (rmpos : Nat) : Bool :=
  s.pos == relPos rmpos (-2) s.slaves.num

/-- `RM_SLAVE` after the reply, on the slave's own files. -/
def mergeFiles (s : Slave) (rmpos : Nat) : Slave :=
  if s.isPredecessor rmpos then { s with disk := s.disk.mergeBackup1 }
  else if s.isSecondPredecessor rmpos then { s with disk := s.disk.mergeBackup2 }
  else s

/-- `CLIP_DATA`: returns the slave and the file it sends.  The bounds come from
the slave's own list, behind its own position; the key in the request is not
used. -/
def clipData (s : Slave) : Slave × HDB :=
  let lower_b := (s.slaves.node ((s.pos + 1) % s.slaves.num)).key
  let upper_b := (s.slaves.node ((s.pos + 2) % s.slaves.num)).key
  let r := s.disk.clip (toUnsigned lower_b) (toUnsigned upper_b)
  ({ s with disk := r.1 }, r.2)

/-- `UPDATE_BACKUP2`. -/
def updateBackup2 (s : Slave) : Slave :=
  let lower_b := (s.slaves.node ((s.pos + 2) % s.slaves.num)).key
  let upper_b := (s.slaves.node ((s.pos + 3) % s.slaves.num)).key
  { s with disk := s.disk.updateBackup2 (toUnsigned lower_b) (toUnsigned upper_b) }

/-- `RecvFile` into the file of `GetFileName(k, ..)`: the primary for 0, else a
backup. -/
def recvFile (s : Slave) (k : Nat) (file : HDB) : Slave :=
  match k with
  | 0 => { s with disk := { s.disk with file_master := file } }
  | 1 => { s with disk := { s.disk with backup1 := some file } }
  | _ => { s with disk := { s.disk with backup2 := some file } }

/-- `SET` on the open database. -/
def setKeyValue (s : Slave) (key : dbKey) (value : dbValue) : Slave :=
  { s with disk := { s.disk with file_master := s.disk.file_master.insert key value } }

/-- `DEL` on the open database; a missing key changes nothing. -/
def delKeyValue (s : Slave) (key : dbKey) : Slave :=
  { s with disk := { s.disk with file_master := s.disk.file_master.erase key } }

end Slave

section Positions

/-- The successor and the second successor, as `CommunicateToSlave` computes
them. -/
theorem relPos_add {pos num : Nat} (k : Nat) :
    relPos pos (k : Int) num = (pos + k) % num := by
  unfold relPos
  rw [Int.tmod_eq_emod_of_nonneg (by omega)]
  have hmod : ((pos : Int) + k + num) % num = ((pos + k) % num : Nat) := by
    rw [Int.add_emod_right]
    push_cast
    rfl
  rw [hmod]
  rfl

/-- The first and second predecessor of a position. -/
theorem relPos_sub {pos num : Nat} (k : Nat) (hk : k ≤ pos + num) :
    relPos pos (-(k : Int)) num = back num pos k := by
  unfold relPos back
  rw [Int.tmod_eq_emod_of_nonneg (by omega)]
  have hcast : ((pos : Int) + -(k : Int) + num) = ((pos + num - k : Nat) : Int) := by
    omega
  rw [hcast, ← Int.natCast_mod]
  rfl

/-- The second predecessor, also in a ring of one slave. -/
theorem relPos_sub_two {pos num : Nat} (hnum : 0 < num) :
    relPos pos (-2) num = back num pos 2 := by
  rcases Nat.lt_or_ge num 2 with hlt | hge
  · have hone : num = 1 := by omega
    subst hone
    simp [relPos, back, Int.tmod_one, Nat.mod_one]
  · exact relPos_sub 2 (by omega)

end Positions

section Notifications

variable {s : Slave}

/-- A slave after `NEW_SLAVE`: its own node has moved past the new one. -/
theorem newSlave_eq (hpos : s.pos < s.slaves.num) (key : Nat) (sn : SlaveNode) :
    s.newSlave key sn =
      { slaves := addNewSlave s.slaves key sn
        pos := oldIndex key s.pos
        disk := s.disk } := by
  simp only [Slave.newSlave, num_addNewSlave, oldIndex]
  congr 1
  rcases Nat.lt_or_ge s.pos key with hlt | hge
  · rw [if_neg (by omega), if_pos hlt]
  · rw [if_pos hge, if_neg (by omega), Nat.mod_eq_of_lt (by omega)]

/-- A slave after its reply to `RM_SLAVE`. -/
theorem rmSlave_eq (hpos : s.pos < s.slaves.num) (rmpos : Nat) :
    s.rmSlave rmpos =
      { slaves := removeSlave s.slaves rmpos
        pos := newIndex rmpos s.pos
        disk := s.disk } := by
  simp only [Slave.rmSlave, newIndex, num_removeSlave]
  congr 1
  rcases Nat.lt_or_ge rmpos s.pos with hlt | hge
  · rw [if_pos hlt, if_pos hlt, Nat.add_mod_right, Nat.mod_eq_of_lt (by omega)]
  · rw [if_neg (by omega), if_neg (by omega)]

end Notifications

section Files

variable (disk : Disk)

@[simp] theorem file_master_mvBackup1 :
    disk.mvBackup1.file_master = disk.file_master := by
  unfold Disk.mvBackup1
  split <;> rfl

@[simp] theorem file_tmp_mvBackup1 :
    disk.mvBackup1.file_tmp = disk.file_tmp := by
  unfold Disk.mvBackup1
  split <;> rfl

@[simp] theorem file_master_mvBackup2 :
    disk.mvBackup2.file_master = disk.file_master := by
  unfold Disk.mvBackup2
  split <;> rfl

@[simp] theorem file_tmp_mvBackup2 :
    disk.mvBackup2.file_tmp = disk.file_tmp := by
  unfold Disk.mvBackup2
  split <;> rfl

@[simp] theorem file_tmp_clip (lower_b upper_b : dbKey) :
    (disk.clip lower_b upper_b).1.file_tmp = none := rfl

@[simp] theorem file_tmp_mergeBackup1 :
    disk.mergeBackup1.file_tmp = disk.file_tmp := by
  simp [Disk.mergeBackup1]

@[simp] theorem file_tmp_mergeBackup2 :
    disk.mergeBackup2.file_tmp = disk.file_tmp := rfl

@[simp] theorem file_master_mergeBackup2 :
    disk.mergeBackup2.file_master = disk.file_master := rfl

@[simp] theorem file_tmp_updateBackup2 (lower_b upper_b : dbKey) :
    (disk.updateBackup2 lower_b upper_b).file_tmp = disk.file_tmp := rfl

@[simp] theorem file_master_updateBackup2 (lower_b upper_b : dbKey) :
    (disk.updateBackup2 lower_b upper_b).file_master = disk.file_master := rfl

theorem contents_openFile_none :
    contents (openFile none) = fun _ => none := rfl

/-- The primary after a clip holds the entries outside the range, and with no
`file_tmp` left over the file sent holds those inside it. -/
theorem contents_clip (htmp : disk.file_tmp = none) (lower_b upper_b : dbKey) :
    contents (disk.clip lower_b upper_b).1.file_master =
        restrict (fun k => ¬ inSplitRange lower_b upper_b k = true)
          (contents disk.file_master) ∧
      contents (disk.clip lower_b upper_b).2 =
        restrict (fun k => inSplitRange lower_b upper_b k = true)
          (contents disk.file_master) := by
  have hsplit := contents_splitByKey disk.file_master (openFile none) lower_b upper_b
  simp only [Disk.clip, file_master_mvBackup1, file_tmp_mvBackup1, htmp]
  rw [hsplit.1, hsplit.2, contents_openFile_none, overlay_empty_left]
  exact ⟨rfl, rfl⟩

/-- The primary of the predecessor after the merge. -/
theorem contents_mergeBackup1 :
    contents disk.mergeBackup1.file_master =
      overlay (contents disk.file_master) (contents (openFile disk.backup1)) := by
  simp only [Disk.mergeBackup1, file_master_mvBackup2]
  exact (contents_merge2Files _ _).2

end Files

section Frames

variable (s : Slave)

@[simp] theorem slaves_recvFile (k : Nat) (file : HDB) :
    (s.recvFile k file).slaves = s.slaves := by
  unfold Slave.recvFile
  split <;> rfl

@[simp] theorem pos_recvFile (k : Nat) (file : HDB) :
    (s.recvFile k file).pos = s.pos := by
  unfold Slave.recvFile
  split <;> rfl

@[simp] theorem file_tmp_recvFile (k : Nat) (file : HDB) :
    (s.recvFile k file).disk.file_tmp = s.disk.file_tmp := by
  unfold Slave.recvFile
  split <;> rfl

/-- Receiving a backup leaves the primary alone. -/
theorem file_master_recvFile_backup {k : Nat} (hk : k ≠ 0) (file : HDB) :
    (s.recvFile k file).disk.file_master = s.disk.file_master := by
  unfold Slave.recvFile
  split
  · exact absurd rfl hk
  · rfl
  · rfl

@[simp] theorem slaves_mergeFiles (rmpos : Nat) :
    (s.mergeFiles rmpos).slaves = s.slaves := by
  unfold Slave.mergeFiles
  split
  · rfl
  · split <;> rfl

@[simp] theorem pos_mergeFiles (rmpos : Nat) :
    (s.mergeFiles rmpos).pos = s.pos := by
  unfold Slave.mergeFiles
  split
  · rfl
  · split <;> rfl

@[simp] theorem file_tmp_mergeFiles (rmpos : Nat) :
    (s.mergeFiles rmpos).disk.file_tmp = s.disk.file_tmp := by
  unfold Slave.mergeFiles
  split
  · simp
  · split <;> rfl

/-- Only the predecessor of the removed slave changes its primary. -/
theorem file_master_mergeFiles_of_not {rmpos : Nat}
    (hpre : s.isPredecessor rmpos = false) :
    (s.mergeFiles rmpos).disk.file_master = s.disk.file_master := by
  unfold Slave.mergeFiles
  rw [hpre]
  simp only [Bool.false_eq_true, if_false]
  split <;> rfl

end Frames

end DistributedDB
