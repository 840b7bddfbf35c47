import DistributedDB.RingInvariant
import DistributedDB.Slave

/-!
# Several databases on a slave

The files of a slave by database name, and the globals `file_master` and `file_tmp`,
which every `OPEN` sets to the name it opens.  The handlers of `slave.c` split, send and
merge the files with these names; the shell commands `mv` and `rm` act on all files of a
directory.  A database name is a plain file name.

Seen at the name in `file_master`, the handlers are those of one database.

**Results.**
* `DBSlave.one_clipData`, `one_updateBackup2`, `one_mergeFiles`: the database that was
  opened last is treated as the only one is.
* `Databases.contents_clip`, `contents_mergeBackup1`: what happens to the other ones.
-/

namespace DistributedDB

open PartialMap RingIndex

/-- The files by database name, those in the backup directories without `.bac`. -/
structure Databases where
  files : String → Option HDB
  backup1 : String → Option HDB
  backup2 : String → Option HDB
  file_master : String
  file_tmp : String
  tmp_eq : file_tmp = file_master ++ "~"

namespace Databases

/-- The database as `DBCreate` opens it. -/
def db (d : Databases) (name : String) : HDB :=
  openFile (d.files name)

/-- A slave's start in an empty directory. -/
def fresh : Databases where
  files := fun _ => none
  backup1 := fun _ => none
  backup2 := fun _ => none
  file_master := "a.db"
  file_tmp := "a.db~"
  tmp_eq := rfl

/-- `OPEN`. -/
def opened (d : Databases) (name : String) : Databases where
  files := Function.update d.files name (some (d.db name))
  backup1 := d.backup1
  backup2 := d.backup2
  file_master := name
  file_tmp := name ++ "~"
  tmp_eq := rfl

/-- The file work of `CLIP_DATA`: returns the files and the file sent, which goes under
the name in `file_master`. -/
def clip (d : Databases) (lower_b upper_b : dbKey) : Databases × HDB :=
  let split := splitByKey (d.db d.file_master) lower_b (d.db d.file_tmp) upper_b
  ({ d with
      files := Function.update (Function.update d.files d.file_master (some split.1))
        d.file_tmp none
      backup1 := fun name => if name = d.file_master then some split.2 else none
      backup2 := fun name => (d.backup1 name).or (d.backup2 name) },
    split.2)

/-- The file work of `UPDATE_BACKUP2`. -/
def updateBackup2 (d : Databases) (lower_b upper_b : dbKey) : Databases :=
  let split := splitByKey (openFile (d.backup1 d.file_master)) lower_b ∅ upper_b
  { d with
    backup1 := Function.update d.backup1 d.file_master (some split.1)
    backup2 := fun name => if name = d.file_master then some split.2 else none }

/-- The file work of `RM_SLAVE` at the predecessor of the removed slave. -/
def mergeBackup1 (d : Databases) : Databases :=
  let merged := merge2Files (openFile (d.backup1 d.file_master)) (d.db d.file_master)
  { d with
    files := Function.update d.files d.file_master (some merged.2)
    backup1 := fun name =>
      (d.backup2 name).or (Function.update d.backup1 d.file_master (some merged.1) name)
    backup2 := fun _ => none }

/-- The file work of `RM_SLAVE` at the second predecessor. -/
def mergeBackup2 (d : Databases) : Databases :=
  let merged := merge2Files (openFile (d.backup2 d.file_master))
    (openFile (d.backup1 d.file_master))
  { d with
    backup1 := Function.update d.backup1 d.file_master (some merged.2)
    backup2 := fun _ => none }

/-- `RecvFile` into the file of `GetFileName(k, name)`. -/
def recvFile (d : Databases) (k : Nat) (name : String) (file : HDB) : Databases :=
  match k with
  | 0 => { d with files := Function.update d.files name (some file) }
  | 1 => { d with backup1 := Function.update d.backup1 name (some file) }
  | _ => { d with backup2 := Function.update d.backup2 name (some file) }

/-- The files of the database that was opened last. -/
def disk (d : Databases) : Disk where
  file_master := d.db d.file_master
  file_tmp := d.files d.file_tmp
  backup1 := d.backup1 d.file_master
  backup2 := d.backup2 d.file_master

section OneDatabase

variable (d : Databases)

theorem tmp_ne : d.file_tmp ≠ d.file_master := by
  rw [d.tmp_eq]
  intro heq
  have hlen := congrArg String.length heq
  rw [String.length_append] at hlen
  exact absurd hlen (by simp)

/-- **At the name in `file_master`, the handlers are those of one database.** -/
theorem disk_clip (lower_b upper_b : dbKey) :
    (d.clip lower_b upper_b).1.disk = (d.disk.clip lower_b upper_b).1 ∧
      (d.clip lower_b upper_b).2 = (d.disk.clip lower_b upper_b).2 := by
  cases hbackup : d.backup1 d.file_master with
  | none =>
      simp [disk, Disk.clip, Disk.mvBackup1, hbackup, clip, db, openFile,
        Function.update_of_ne d.tmp_ne.symm]
  | some file =>
      simp [disk, Disk.clip, Disk.mvBackup1, hbackup, clip, db, openFile,
        Function.update_of_ne d.tmp_ne.symm]

theorem disk_updateBackup2 (lower_b upper_b : dbKey) :
    (d.updateBackup2 lower_b upper_b).disk = d.disk.updateBackup2 lower_b upper_b := by
  simp [disk, Disk.updateBackup2, updateBackup2, db]

theorem disk_mergeBackup1 : d.mergeBackup1.disk = d.disk.mergeBackup1 := by
  cases hbackup : d.backup2 d.file_master with
  | none =>
      simp [disk, Disk.mergeBackup1, Disk.mvBackup2, mergeBackup1, hbackup, db, openFile,
        Function.update_of_ne d.tmp_ne]
  | some file =>
      simp [disk, Disk.mergeBackup1, Disk.mvBackup2, mergeBackup1, hbackup, db, openFile,
        Function.update_of_ne d.tmp_ne]

theorem disk_mergeBackup2 : d.mergeBackup2.disk = d.disk.mergeBackup2 := by
  simp [disk, Disk.mergeBackup2, mergeBackup2, db]

end OneDatabase

/-- The name in `file_master` after some `OPEN`s. -/
theorem file_master_opens (names : List String) (d : Databases) :
    (names.foldl opened d).file_master = names.getLastD d.file_master := by
  induction names generalizing d with
  | nil => rfl
  | cons name names ih =>
      rw [List.foldl_cons, ih]
      cases names <;> rfl

/-- An `OPEN` changes no contents. -/
theorem db_opened (d : Databases) (head name : String) : (d.opened head).db name = d.db name := by
  rcases eq_or_ne name head with rfl | hne
  · simp [opened, db, openFile]
  · simp [opened, db, Function.update_of_ne hne]

theorem db_opens (names : List String) (d : Databases) (name : String) :
    (names.foldl opened d).db name = d.db name := by
  induction names generalizing d with
  | nil => rfl
  | cons head names ih => rw [List.foldl_cons, ih, db_opened]

theorem backup1_opens (names : List String) (d : Databases) :
    (names.foldl opened d).backup1 = d.backup1 := by
  induction names generalizing d with
  | nil => rfl
  | cons head names ih => exact ih _

/-- The contents of every database after `CLIP_DATA`, and of the file sent. -/
theorem contents_clip (d : Databases) (lower_b upper_b : dbKey) :
    contents (d.clip lower_b upper_b).2 =
        overlay (contents (d.db d.file_tmp))
          (restrict (fun k => inSplitRange lower_b upper_b k = true)
            (contents (d.db d.file_master))) ∧
      ∀ name, contents ((d.clip lower_b upper_b).1.db name) =
        if name = d.file_tmp then fun _ => none
        else if name = d.file_master then
          restrict (fun k => ¬ inSplitRange lower_b upper_b k = true)
            (contents (d.db d.file_master))
        else contents (d.db name) := by
  have hsplit := contents_splitByKey (d.db d.file_master) (d.db d.file_tmp) lower_b upper_b
  refine ⟨hsplit.2, fun name => ?_⟩
  rw [← hsplit.1]
  simp only [clip, db, Function.update_apply]
  split
  case isTrue => rfl
  case isFalse =>
      split
      case isTrue => rfl
      case isFalse => rfl

/-- The contents of every database after the merge at the predecessor. -/
theorem contents_mergeBackup1 (d : Databases) (name : String) :
    contents (d.mergeBackup1.db name) =
      if name = d.file_master then
        overlay (contents (d.db name)) (contents (openFile (d.backup1 name)))
      else contents (d.db name) := by
  simp only [mergeBackup1, db, Function.update_apply]
  split
  case isTrue heq =>
      rw [heq]
      exact (contents_merge2Files _ _).2
  case isFalse => rfl

end Databases

/-- A slave with several databases. -/
structure DBSlave where
  slaves : SlaveList
  /-- This server's position in `slaves`. -/
  pos : Nat
  dbs : Databases

namespace DBSlave

/-- The slave as it is for the database that was opened last. -/
def one (s : DBSlave) : Slave :=
  ⟨s.slaves, s.pos, s.dbs.disk⟩

/-- The `OPEN`s of the clients, in their order. -/
def opens (s : DBSlave) (names : List String) : DBSlave :=
  { s with dbs := names.foldl Databases.opened s.dbs }

/-- `NEW_SLAVE`. -/
def newSlave (s : DBSlave) (key : Nat) (sn : SlaveNode) : DBSlave :=
  { s with slaves := (s.one.newSlave key sn).slaves, pos := (s.one.newSlave key sn).pos }

/-- `RM_SLAVE` up to the reply. -/
def rmSlave (s : DBSlave) (rmpos : Nat) : DBSlave :=
  { s with slaves := (s.one.rmSlave rmpos).slaves, pos := (s.one.rmSlave rmpos).pos }

/-- `RM_SLAVE` after the reply, on the slave's own files. -/
def mergeFiles (s : DBSlave) (rmpos : Nat) : DBSlave :=
  if s.one.isPredecessor rmpos then { s with dbs := s.dbs.mergeBackup1 }
  else if s.one.isSecondPredecessor rmpos then { s with dbs := s.dbs.mergeBackup2 }
  else s

/-- `CLIP_DATA`: returns the slave, and the name and the file that it sends. -/
def clipData (s : DBSlave) : DBSlave × String × HDB :=
  let lower_b := (s.slaves.node ((s.pos + 1) % s.slaves.num)).key
  let upper_b := (s.slaves.node ((s.pos + 2) % s.slaves.num)).key
  let r := s.dbs.clip (toUnsigned lower_b) (toUnsigned upper_b)
  ({ s with dbs := r.1 }, s.dbs.file_master, r.2)

/-- `UPDATE_BACKUP2`. -/
def updateBackup2 (s : DBSlave) : DBSlave :=
  let lower_b := (s.slaves.node ((s.pos + 2) % s.slaves.num)).key
  let upper_b := (s.slaves.node ((s.pos + 3) % s.slaves.num)).key
  { s with dbs := s.dbs.updateBackup2 (toUnsigned lower_b) (toUnsigned upper_b) }

/-- `BACKUP`: the name and the file that are sent. -/
def backup (s : DBSlave) : String × HDB :=
  (s.dbs.file_master, s.dbs.db s.dbs.file_master)

theorem one_backup (s : DBSlave) : s.backup.2 = s.one.disk.file_master := rfl

/-- A file that arrives under the name in `file_master`. -/
theorem one_recvFile (s : DBSlave) (k : Nat) (file : HDB) :
    ({ s with dbs := s.dbs.recvFile k s.dbs.file_master file } : DBSlave).one =
      s.one.recvFile k file := by
  unfold Databases.recvFile Slave.recvFile
  split
  case h_1 => simp [one, Databases.disk, Databases.db, openFile, Function.update_of_ne s.dbs.tmp_ne]
  case h_2 => simp [one, Databases.disk, Databases.db]
  case h_3 => simp [one, Databases.disk, Databases.db]

theorem one_updateBackup2 (s : DBSlave) : s.updateBackup2.one = s.one.updateBackup2 := by
  simp only [updateBackup2, Slave.updateBackup2, one, Databases.disk_updateBackup2]

theorem one_clipData (s : DBSlave) :
    (s.clipData.1.one, s.clipData.2.2) = s.one.clipData := by
  obtain ⟨hdisk, hfile⟩ := s.dbs.disk_clip
    (toUnsigned (s.slaves.node ((s.pos + 1) % s.slaves.num)).key)
    (toUnsigned (s.slaves.node ((s.pos + 2) % s.slaves.num)).key)
  simp only [clipData, Slave.clipData, one, hdisk, hfile]

theorem one_mergeFiles (s : DBSlave) (rmpos : Nat) :
    (s.mergeFiles rmpos).one = s.one.mergeFiles rmpos := by
  unfold mergeFiles Slave.mergeFiles
  split
  case isTrue => simp only [one, Databases.disk_mergeBackup1]
  case isFalse =>
      split
      case isTrue => simp only [one, Databases.disk_mergeBackup2]
      case isFalse => rfl

end DBSlave

end DistributedDB
