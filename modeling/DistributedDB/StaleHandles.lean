import DistributedDB.Library.FileStore
import DistributedDB.ReferenceCounts

/-!
# The files behind the open databases

The handlers of `slave.c` for membership changes, as far as the files and the table of
open databases are concerned.  `SplitByKey` and `Merge2Files` reach a file through
`DBCreate`, which looks for the path as it is spelled; the shell commands and `RecvFile`
change the files underneath.  A `TCHDB` stays bound to the file it has opened, and
`tchdbopen` fails for a file that is open; it does not fail otherwise.  A slave that uses a
handle that `DBCreate` did not return has crashed.

A file name is plain: it has no slash and no leading dot, and the shell takes it as it is.
`file_master` is the same all the time; the clients have databases in the working
directory open.

**Results.**
* `SlaveFiles.step`: the handlers.
* `OpenFiles.Inv.view_dbCreate`: `DBCreate` opens a name in a cache of handles.
* `OpenFiles.Inv.current_iff`: a call acts on the current files if the cache opens both
  paths as it should.
* `SlaveFiles.Resting`: what holds between the events.
* `SlaveFiles.Ready.step`: each event that meets the condition keeps it.
* `SlaveFiles.current_iff_allSteps`: every split and every merge has had the current files
  if and only if every event met the condition.
* `SlaveFiles.merged_twice`: two departures after which they have not.
-/

namespace DistributedDB

open Run

inductive Directory where
  | working | backup1 | backup2
deriving DecidableEq, Repr

abbrev Location := Directory × dbName

/-- `"backup1"`. -/
def BACKUP1_DIR : dbName := [98, 97, 99, 107, 117, 112, 49]

/-- `"backup2"`. -/
def BACKUP2_DIR : dbName := [98, 97, 99, 107, 117, 112, 50]

/-- `".bac"`. -/
def BACKUP_POSTFIX : dbName := [46, 98, 97, 99]

/-- A plain file name. -/
structure FileName where
  bytes : dbName
  plain : 47 ∉ bytes
  visible : ∃ c, bytes.head? = some c ∧ c ≠ 46

namespace FileName

/-- `file_tmp`, when this is `file_master`. -/
def file_tmp (x : FileName) : dbName :=
  x.bytes ++ [126]

/-- `filename1` of the handler of `RM_SLAVE`. -/
def filename1 (x : FileName) : dbName :=
  BACKUP1_DIR ++ ([47, 47] ++ x.bytes ++ BACKUP_POSTFIX)

/-- `filename2` of the handler of `RM_SLAVE`. -/
def filename2 (x : FileName) : dbName :=
  BACKUP2_DIR ++ ([47, 47] ++ x.bytes ++ BACKUP_POSTFIX)

/-- `fname1` of the handler of `UPDATE_BACKUP2`. -/
def fname1 (x : FileName) : dbName :=
  BACKUP1_DIR ++ ([47] ++ x.bytes ++ BACKUP_POSTFIX)

/-- `fname2` of the handler of `UPDATE_BACKUP2`. -/
def fname2 (x : FileName) : dbName :=
  BACKUP2_DIR ++ ([47] ++ x.bytes ++ BACKUP_POSTFIX)

/-- `GetFileName`. -/
def getFileName (k : Nat) (x : FileName) : dbName :=
  match k with
  | 0 => x.bytes
  | 1 => x.filename1
  | _ => x.filename2

end FileName

/-- Where a path leads to: slashes after the first are skipped. -/
def resolve (path : dbName) : Location :=
  if (BACKUP1_DIR ++ [47]).isPrefixOf path then
    (.backup1, (path.drop 8).dropWhile fun c => c = 47)
  else if (BACKUP2_DIR ++ [47]).isPrefixOf path then
    (.backup2, (path.drop 8).dropWhile fun c => c = 47)
  else (.working, path)

/-- `*.bac` stands for the name, among others. -/
def globs (name : dbName) : Bool :=
  name.head? ≠ some 46 && BACKUP_POSTFIX.isSuffixOf name

/-- `mv src//*.bac dest//`. -/
def mvAll (src dest : Directory) (store : FileStore Location) : FileStore Location :=
  if hne : src = dest then store
  else
    store.rearrange
      (fun l =>
        if globs l.2 = false then some l
        else if l.1 = src then none
        else if l.1 = dest ∧ (store.files (src, l.2)).isSome then some (src, l.2)
        else some l) (by
        rintro ⟨d, n⟩ ⟨d', n'⟩ ⟨d₀, n₀⟩ hl hl'
        grind)

/-- `rm dir//*.bac`. -/
def rmAll (dir : Directory) (store : FileStore Location) : FileStore Location :=
  store.rearrange (fun l => if l.1 = dir ∧ globs l.2 then none else some l) (by
    rintro l l' l₀ hl hl'
    grind)

/-- The table of open databases, the file that each `TCHDB` was opened with, and the files
on the disk. -/
structure OpenFiles where
  table : DBTable
  bound : Nat → DiskFile
  store : FileStore Location

/-- The table after `DBCreate`, with the handle that it returns. -/
def DBTable.returned (r : DBTable × Option OpenedDB) : DBTable :=
  { r.1 with handles := r.1.handles ++ r.2.toList }

/-- A call of `SplitByKey` or `Merge2Files`: the state when it has called `DBCreate` twice,
the paths and the handles. -/
structure FileCall where
  state : OpenFiles
  src : dbName × Option OpenedDB
  dest : dbName × Option OpenedDB

namespace OpenFiles

def fileAt (s : OpenFiles) (path : dbName) : Option DiskFile :=
  s.store.files (resolve path)

/-- The handle is bound to the file that the path leads to. -/
def Refers (s : OpenFiles) (path : dbName) (hdb : Nat) : Prop :=
  s.fileAt path = some (s.bound hdb)

instance (s : OpenFiles) (path : dbName) (hdb : Nat) : Decidable (s.Refers path hdb) :=
  inferInstanceAs (Decidable (_ = _))

/-- Some `TCHDB` has the file open. -/
def isOpen (s : OpenFiles) (inode : Nat) : Bool :=
  s.table.opened.any fun hdb => hdb ∉ s.table.closed ∧ (s.bound hdb).inode = inode

/-- `DBCreate`. -/
def dbCreate (s : OpenFiles) (path : dbName) : OpenFiles × Option OpenedDB :=
  if (s.table.table path).isSome then
    let r := s.table.dbCreate path true
    ({ s with table := DBTable.returned r }, r.2)
  else
    let file := s.store.fileOf (resolve path)
    let r := s.table.dbCreate path (!s.isOpen file.inode)
    ({  table := DBTable.returned r
        bound := Function.update s.bound s.table.nextHdb file
        store := s.store.touch (resolve path) },
      r.2)

/-- `DBDelete`, of a live handle. -/
def dbDelete (s : OpenFiles) (podb : OpenedDB) : Option OpenFiles :=
  (s.table.dbDelete podb).map fun t =>
    { s with table := { t with handles := t.handles.erase podb } }

/-- The first lines of `SplitByKey` and of `Merge2Files`. -/
def openBoth (s : OpenFiles) (srcfile destfile : dbName) : FileCall :=
  let r₁ := s.dbCreate srcfile
  let r₂ := r₁.1.dbCreate destfile
  ⟨r₂.1, (srcfile, r₁.2), (destfile, r₂.2)⟩

end OpenFiles

/-- The call acts on the current files: both handles refer to the files at their paths, and
so does every entry of the table, and no file is open under two names. -/
structure FileCall.Current (c : FileCall) : Prop where
  handles : ∀ r ∈ [c.src, c.dest], ∃ podb, r.2 = some podb ∧ c.state.Refers r.1 podb.hdb
  entries : ∀ path e, c.state.table.table path = some e → c.state.Refers path e.hdb
  once : ∀ path path' e e', c.state.table.table path = some e →
    c.state.table.table path' = some e' →
    (c.state.bound e.hdb).inode = (c.state.bound e'.hdb).inode → path = path'

/-- The files of a slave, and the calls of `SplitByKey` and `Merge2Files` so far. -/
structure SlaveFiles where
  files : OpenFiles
  calls : List FileCall
  crashed : Bool

/-- A membership event; `received` is the name of the file that another slave sends, if it
sends one. -/
inductive FileEvent where
  | clipData
  | updateBackup2
  | rmSlavePredecessor (received : Option FileName)
  | rmSlaveSecondPredecessor (received : Option FileName)
  | updateBackup12 (received₁ received₂ : Option FileName)

namespace SlaveFiles

/-- A command that changes files, unless the slave has crashed. -/
def exe (s : SlaveFiles) (cmd : FileStore Location → FileStore Location) : SlaveFiles :=
  if s.crashed then s else { s with files := { s.files with store := cmd s.files.store } }

/-- `SplitByKey`. -/
def splitByKey (s : SlaveFiles) (srcfile destfile : dbName) : SlaveFiles :=
  let call := s.files.openBoth srcfile destfile
  let files := call.src.2.bind fun podb1 => call.dest.2.bind fun podb2 =>
    (call.state.dbDelete podb1).bind fun files => files.dbDelete podb2
  ⟨files.getD call.state, s.calls ++ [call], files.isNone⟩

/-- `Merge2Files`. -/
def merge2Files (s : SlaveFiles) (srcfile destfile : dbName) : SlaveFiles :=
  let call := s.files.openBoth srcfile destfile
  ⟨call.state, s.calls ++ [call], call.src.2.isNone || call.dest.2.isNone⟩

/-- `RecvFile` in `BackupForOtherSlave(k)`. -/
def recvFile (k : Nat) (received : Option FileName) (store : FileStore Location) :
    FileStore Location :=
  match received with
  | none => store
  | some name => store.rewrite (resolve (name.getFileName k))

/-- The file work of an event; `none` when the slave has crashed. -/
def step (file_master : FileName) (s : SlaveFiles) (e : FileEvent) : Option SlaveFiles :=
  if s.crashed then none
  else
    let x := file_master
    some (match e with
      | .clipData =>
          ((s.exe (mvAll .backup1 .backup2)).splitByKey x.bytes x.file_tmp).exe fun store =>
            store.rename (resolve x.file_tmp) (resolve x.filename1)
      | .updateBackup2 => (s.exe (rmAll .backup2)).splitByKey x.fname1 x.fname2
      | .rmSlavePredecessor received =>
          ((s.merge2Files x.filename1 x.bytes).exe (mvAll .backup2 .backup1)).exe
            (recvFile 2 received)
      | .rmSlaveSecondPredecessor received =>
          ((s.merge2Files x.filename2 x.filename1).exe (rmAll .backup2)).exe
            (recvFile 2 received)
      | .updateBackup12 received₁ received₂ =>
          (s.exe (recvFile 1 received₁)).exe (recvFile 2 received₂))

/-- The slave before the first event: the clients have opened databases in the working
directory, but none that is called `file_tmp`. -/
structure Started (file_master : FileName) (s : SlaveFiles) : Prop where
  calls : s.calls = []
  running : s.crashed = false
  table : s.files.table.TableInv
  bound_lt : ∀ hdb ∈ s.files.table.opened, (s.files.bound hdb).inode < s.files.store.nextInode
  clients : ∀ path e, s.files.table.table path = some e →
    47 ∉ path ∧ path ≠ file_master.file_tmp ∧ s.files.Refers path e.hdb

/-- The condition on an event: the handlers that split have no backup open, and those that
merge may have `backup1` open if it is still the file that is there. -/
def UpToDate (file_master : FileName) (s : SlaveFiles) : FileEvent → Prop
  | .clipData | .updateBackup2 =>
      s.files.table.table file_master.filename1 = none ∧
        s.files.table.table file_master.filename2 = none
  | .rmSlavePredecessor _ | .rmSlaveSecondPredecessor _ =>
      (∀ e ∈ s.files.table.table file_master.filename1,
        s.files.Refers file_master.filename1 e.hdb) ∧
        s.files.table.table file_master.filename2 = none
  | .updateBackup12 _ _ => True

instance (file_master : FileName) (s : SlaveFiles) : DecidablePred (s.UpToDate file_master)
  | .clipData | .updateBackup2 => inferInstanceAs (Decidable (_ ∧ _))
  | .rmSlavePredecessor _ | .rmSlaveSecondPredecessor _ =>
      inferInstanceAs (Decidable ((∀ e ∈ s.files.table.table file_master.filename1, _) ∧ _))
  | .updateBackup12 _ _ => inferInstanceAs (Decidable True)

end SlaveFiles

section Paths

/-- A path without a slash is a file in the working directory. -/
theorem resolve_plain {path : dbName} (h : 47 ∉ path) : resolve path = (.working, path) := by
  have hdir : ∀ dir : dbName, ¬ (dir ++ [47]).isPrefixOf path = true := by
    intro dir hstarts
    obtain ⟨rest, rfl⟩ := List.isPrefixOf_iff_prefix.mp hstarts
    simp at h
  rw [resolve, if_neg (hdir _), if_neg (hdir _)]

namespace FileName

variable (x : FileName)

theorem dropWhile_slash (sep : dbName) (hsep : ∀ c ∈ sep, c = 47) :
    (sep ++ x.bytes ++ BACKUP_POSTFIX).dropWhile (fun c => c = 47) =
      x.bytes ++ BACKUP_POSTFIX := by
  obtain ⟨c, hc, -⟩ := x.visible
  obtain ⟨rest, hbytes⟩ := List.head?_eq_some_iff.mp hc
  have hne : c ≠ 47 := by
    rintro rfl
    exact x.plain (hbytes ▸ List.mem_cons_self)
  rw [List.append_assoc, List.dropWhile_append_of_pos (by simpa using hsep), hbytes,
    List.cons_append, List.dropWhile_cons_of_neg (by simpa using hne)]

theorem resolve_filename1 : resolve x.filename1 = (.backup1, x.bytes ++ BACKUP_POSTFIX) :=
  congrArg (Prod.mk Directory.backup1) (x.dropWhile_slash [47] (by simp))

theorem resolve_filename2 : resolve x.filename2 = (.backup2, x.bytes ++ BACKUP_POSTFIX) :=
  congrArg (Prod.mk Directory.backup2) (x.dropWhile_slash [47] (by simp))

theorem resolve_fname1 : resolve x.fname1 = (.backup1, x.bytes ++ BACKUP_POSTFIX) :=
  congrArg (Prod.mk Directory.backup1) (x.dropWhile_slash [] (by simp))

theorem resolve_fname2 : resolve x.fname2 = (.backup2, x.bytes ++ BACKUP_POSTFIX) :=
  congrArg (Prod.mk Directory.backup2) (x.dropWhile_slash [] (by simp))

theorem resolve_bytes : resolve x.bytes = (.working, x.bytes) :=
  resolve_plain x.plain

theorem file_tmp_plain : 47 ∉ x.file_tmp := by
  simpa [file_tmp] using x.plain

theorem resolve_file_tmp : resolve x.file_tmp = (.working, x.file_tmp) :=
  resolve_plain x.file_tmp_plain

theorem file_tmp_ne : x.bytes ≠ x.file_tmp := by
  intro heq
  have hlen := congrArg List.length heq
  simp [file_tmp] at hlen

theorem filename1_ne_fname1 : x.filename1 ≠ x.fname1 := by
  intro heq
  have hlen := congrArg List.length heq
  simp [filename1, fname1] at hlen

theorem filename2_ne_fname2 : x.filename2 ≠ x.fname2 := by
  intro heq
  have hlen := congrArg List.length heq
  simp [filename2, fname2] at hlen

theorem filename1_ne_filename2 : x.filename1 ≠ x.filename2 := by
  intro heq
  have hseventh := congrArg (fun path => path[6]?) heq
  simp [filename1, filename2, BACKUP1_DIR, BACKUP2_DIR] at hseventh

/-- The paths that a client or `Merge2Files` opens. -/
def Known (path : dbName) : Prop :=
  47 ∉ path ∨ path = x.filename1 ∨ path = x.filename2

/-- How a location is spelled in such a path. -/
def spelled : Location → dbName
  | (.working, n) => n
  | (.backup1, _) => x.filename1
  | (.backup2, _) => x.filename2

theorem Known.spelled_resolve {path : dbName} (h : x.Known path) :
    x.spelled (resolve path) = path := by
  rcases h with hplain | rfl | rfl
  · rw [resolve_plain hplain, spelled]
  · rw [x.resolve_filename1, spelled]
  · rw [x.resolve_filename2, spelled]

variable {x} in
theorem Known.resolve_inj {path path' : dbName} (h : x.Known path) (h' : x.Known path')
    (heq : resolve path = resolve path') : path = path' := by
  rw [← h.spelled_resolve, heq, h'.spelled_resolve]

/-- The shell finds a backup. -/
theorem globs_bac : globs (x.bytes ++ BACKUP_POSTFIX) = true := by
  obtain ⟨c, hc, hdot⟩ := x.visible
  have hhead : (x.bytes ++ BACKUP_POSTFIX).head? = some c := by
    rw [List.head?_append, hc, Option.some_or]
  have hsuffix : BACKUP_POSTFIX.isSuffixOf (x.bytes ++ BACKUP_POSTFIX) = true :=
    List.isSuffixOf_iff_suffix.mpr (List.suffix_append _ _)
  simp [globs, hhead, hsuffix, hdot]

end FileName

end Paths

namespace DBTable

variable {s : DBTable} {name : dbName}

/-- `DBCreate` returns in the next state of the table. -/
theorem TableInv.returned (h : s.TableInv) (ok : Bool) :
    (DBTable.returned (s.dbCreate name ok)).TableInv :=
  h.step (show s.step (.create name ok) = some _ from rfl)

theorem table_cached {e : OpenedDB} (he : s.table name = some e) (ok : Bool) :
    (returned (s.dbCreate name ok)).table =
      Function.update s.table name (some { e with counter := e.counter + 1 }) := by
  rw [returned, dbCreate_cached he]
  rfl

theorem table_new (he : s.table name = none) :
    (returned (s.dbCreate name true)).table =
      Function.update s.table name (some ⟨s.nextString, s.nextHdb, 1⟩) := by
  rw [returned, dbCreate_new he]
  rfl

theorem table_failed (he : s.table name = none) :
    (returned (s.dbCreate name false)).table = s.table := by
  rw [returned, dbCreate_failed he]
  rfl

theorem opened_dbCreate (s : DBTable) (name : dbName) (ok : Bool) :
    (s.dbCreate name ok).1.opened = s.opened ∨
      (s.dbCreate name ok).1.opened = s.opened ++ [s.nextHdb] := by
  cases he : s.table name with
  | some e => exact Or.inl (by rw [dbCreate_cached he])
  | none =>
      cases ok with
      | false => exact Or.inl (by rw [dbCreate_failed he])
      | true => exact Or.inr (by rw [dbCreate_new he])

/-- `DBDelete` has a result for a live handle, and opens nothing. -/
theorem TableInv.dbDelete_eq_some (h : s.TableInv) {podb : OpenedDB} (hmem : podb ∈ s.handles) :
    ∃ t, s.dbDelete podb = some t ∧ t.opened = s.opened := by
  obtain ⟨name, e, he, hname, -⟩ := h.cached podb hmem
  have hstring := (h.entries name e he).string
  refine ⟨_, dbDelete_eq he (hname ▸ hstring) hstring, ?_⟩
  split <;> rfl

/-- Some live handle of the name has this `TCHDB`. -/
def Holds (s : DBTable) (name : dbName) (hdb : Nat) : Prop :=
  ∃ h ∈ s.handles, s.HasName name h ∧ h.hdb = hdb

theorem TableInv.holds_iff (h : s.TableInv) {hdb : Nat} :
    s.Holds name hdb ↔ ∃ e, s.table name = some e ∧ e.hdb = hdb := by
  constructor
  · rintro ⟨h', hmem, hname, rfl⟩
    exact h.exists_entry hmem hname
  · rintro ⟨e, he, rfl⟩
    obtain ⟨h', hmem, heq⟩ := h.referenced name e he
    have hname := (h.hasName_iff he hmem).mpr heq
    obtain ⟨e', he', hhdb⟩ := h.exists_entry hmem hname
    obtain rfl := Option.some.inj (he.symm.trans he')
    exact ⟨h', hmem, hname, hhdb.symm⟩

/-- The same live handles, with the same names. -/
theorem TableInv.holds_congr (h : s.TableInv) {t : DBTable} {hdb : Nat}
    (hhandles : ∀ h', h' ∈ t.handles ↔ h' ∈ s.handles)
    (hkept : ∀ h' ∈ s.handles, ∀ n, s.HasName n h' → t.HasName n h') :
    t.Holds name hdb ↔ s.Holds name hdb := by
  constructor
  · rintro ⟨h', hmem, hname, hhdb⟩
    have hmem' := (hhandles h').mp hmem
    obtain ⟨n, e, he, heq, -⟩ := h.cached h' hmem'
    have hn : s.HasName n h' := (h.hasName_iff he hmem').mpr heq.symm
    obtain rfl := Option.some.inj ((hkept h' hmem' n hn).symm.trans hname)
    exact ⟨h', hmem', hn, hhdb⟩
  · rintro ⟨h', hmem, hname, hhdb⟩
    exact ⟨h', (hhandles h').mpr hmem, hkept h' hmem name hname, hhdb⟩

end DBTable

namespace OpenFiles

/-- The cache of handles that the table is. -/
def view (s : OpenFiles) : HandleCache dbName Location where
  bound := fun path => (s.table.table path).map fun e => s.bound e.hdb
  store := s.store

structure Inv (s : OpenFiles) : Prop where
  table : s.table.TableInv
  bound_lt : ∀ hdb ∈ s.table.opened, (s.bound hdb).inode < s.store.nextInode

section Views

variable {s : OpenFiles} {path : dbName} {file : DiskFile}

theorem view_bound_iff :
    s.view.bound path = some file ↔
      ∃ e, s.table.table path = some e ∧ s.bound e.hdb = file :=
  Option.map_eq_some_iff

theorem view_bound_none : s.view.bound path = none ↔ s.table.table path = none :=
  Option.map_eq_none_iff

theorem Inv.bounded (h : s.Inv) : s.view.Bounded := by
  intro path file hfile
  obtain ⟨e, he, rfl⟩ := view_bound_iff.mp hfile
  exact h.bound_lt e.hdb (h.table.entries path e he).opened

/-- The files that are open are those of the entries. -/
theorem Inv.isOpen_iff (h : s.Inv) (inode : Nat) :
    s.isOpen inode = true ↔ ∃ path file, s.view.bound path = some file ∧
      file.inode = inode := by
  simp only [isOpen, List.any_eq_true, decide_eq_true_eq]
  constructor
  · rintro ⟨hdb, hopened, hclosed, rfl⟩
    rcases (h.table.tracked hdb).mp hopened with hin | ⟨path, e, he, rfl⟩
    · exact absurd hin hclosed
    · exact ⟨path, _, view_bound_iff.mpr ⟨e, he, rfl⟩, rfl⟩
  · rintro ⟨path, file, hfile, rfl⟩
    obtain ⟨e, he, rfl⟩ := view_bound_iff.mp hfile
    have hentry := h.table.entries path e he
    exact ⟨e.hdb, hentry.opened, hentry.open', rfl⟩

theorem dbCreate_cached {e : OpenedDB} (he : s.table.table path = some e) :
    s.dbCreate path =
      ({ s with table := DBTable.returned (s.table.dbCreate path true) },
        some { e with counter := e.counter + 1 }) := by
  rw [dbCreate, if_pos (by rw [he]; rfl), DBTable.dbCreate_cached he]

theorem dbCreate_opens (he : s.table.table path = none) :
    s.dbCreate path =
      ({  table := DBTable.returned (s.table.dbCreate path
            (!s.isOpen (s.store.fileOf (resolve path)).inode))
          bound := Function.update s.bound s.table.nextHdb (s.store.fileOf (resolve path))
          store := s.store.touch (resolve path) },
        (s.table.dbCreate path (!s.isOpen (s.store.fileOf (resolve path)).inode)).2) := by
  rw [dbCreate, if_neg (by rw [he]; exact Bool.false_ne_true)]

theorem Inv.dbCreate (h : s.Inv) (path : dbName) : (s.dbCreate path).1.Inv := by
  cases he : s.table.table path with
  | some e =>
      rw [dbCreate_cached he]
      refine ⟨h.table.returned true, fun hdb hmem => ?_⟩
      exact h.bound_lt hdb (by rwa [DBTable.returned, DBTable.dbCreate_cached he] at hmem)
  | none =>
      rw [dbCreate_opens he]
      refine ⟨h.table.returned _, fun hdb hmem => ?_⟩
      simp only [Function.update_apply]
      split
      case isTrue => exact s.store.fileOf_lt _
      case isFalse hne =>
          have hold : hdb ∈ s.table.opened := by
            rcases DBTable.opened_dbCreate s.table path _ with hopened | hopened
            · exact hopened ▸ hmem
            · rcases List.mem_append.mp (hopened ▸ hmem) with hold | hnew
              · exact hold
              · exact absurd (List.mem_singleton.mp hnew) hne
          exact (h.bound_lt hdb hold).trans (Nat.lt_succ_self _)

/-- The entries are bound to what they were when another `TCHDB` is. -/
theorem Inv.bound_update (h : s.Inv) (file : DiskFile) {e : OpenedDB}
    (he : s.table.table path = some e) :
    Function.update s.bound s.table.nextHdb file e.hdb = s.bound e.hdb :=
  Function.update_of_ne (h.table.opened_lt _ (h.table.entries path e he).opened).ne _ _

/-- **`DBCreate` opens a name in the cache of handles**, and returns a handle of that
name. -/
theorem Inv.view_dbCreate (h : s.Inv) (path : dbName) :
    (s.dbCreate path).1.view = (s.view.openName resolve path).1 ∧
      (s.dbCreate path).2.map (fun podb => (s.dbCreate path).1.bound podb.hdb) =
        (s.view.openName resolve path).2 := by
  rcases s.view.openName_cases resolve path with
    ⟨file, hfile, heq⟩ | ⟨hnone, ⟨hopen, heq⟩ | ⟨hopen, heq⟩⟩ <;> rw [heq]
  · obtain ⟨e, he, rfl⟩ := view_bound_iff.mp hfile
    rw [dbCreate_cached he]
    refine ⟨?_, rfl⟩
    simp only [view, DBTable.table_cached he, HandleCache.mk.injEq, and_true]
    funext path'
    rw [Function.update_apply]
    split
    case isTrue heq' => rw [heq', he, Option.map_some, Option.map_some]
    case isFalse => rfl
  · have he := view_bound_none.mp hnone
    have hopen' : s.isOpen (s.store.fileOf (resolve path)).inode = true :=
      (h.isOpen_iff _).mpr hopen
    rw [dbCreate_opens he, hopen']
    refine ⟨?_, by rw [Bool.not_true, DBTable.dbCreate_failed he]; rfl⟩
    simp only [view, Bool.not_true, DBTable.table_failed he, HandleCache.mk.injEq, and_true]
    funext path'
    exact Option.map_congr fun e he' => h.bound_update _ he'
  · have he := view_bound_none.mp hnone
    have hopen' : s.isOpen (s.store.fileOf (resolve path)).inode = false := by
      rw [← Bool.not_eq_true, h.isOpen_iff]
      exact hopen
    rw [dbCreate_opens he, hopen']
    refine ⟨?_, ?_⟩
    · simp only [view, Bool.not_false, DBTable.table_new he, HandleCache.mk.injEq, and_true]
      funext path'
      by_cases heq' : path' = path
      · subst heq'
        rw [Function.update_self, Function.update_self, Option.map_some, Function.update_self]
      · rw [Function.update_of_ne heq', Function.update_of_ne heq']
        exact Option.map_congr fun e he' => h.bound_update _ he'
    · rw [Bool.not_false, DBTable.dbCreate_new he, Option.map_some]
      exact congrArg some (Function.update_self ..)

/-- `DBCreate` on the table. -/
theorem table_dbCreate (s : OpenFiles) (path : dbName) :
    ∃ ok, (s.dbCreate path).1.table = DBTable.returned (s.table.dbCreate path ok) ∧
      (s.dbCreate path).2 = (s.table.dbCreate path ok).2 := by
  cases he : s.table.table path with
  | some e =>
      refine ⟨true, ?_⟩
      rw [dbCreate_cached he, DBTable.dbCreate_cached he]
      exact ⟨rfl, rfl⟩
  | none =>
      rw [dbCreate_opens he]
      exact ⟨_, rfl, rfl⟩

theorem handles_dbCreate (s : OpenFiles) (path : dbName) :
    (s.dbCreate path).1.table.handles = s.table.handles ++ (s.dbCreate path).2.toList := by
  obtain ⟨ok, htable, hr⟩ := s.table_dbCreate path
  rw [htable, hr, DBTable.returned, DBTable.handles_dbCreate]

theorem Inv.hasName_dbCreate (h : s.Inv) (path : dbName) {name : dbName} {podb : OpenedDB}
    (hname : s.table.HasName name podb) : (s.dbCreate path).1.table.HasName name podb := by
  obtain ⟨ok, htable, -⟩ := s.table_dbCreate path
  rw [htable]
  exact h.table.strings_dbCreate hname ok

theorem opened_subset_dbCreate (s : OpenFiles) (path : dbName) :
    s.table.opened ⊆ (s.dbCreate path).1.table.opened := by
  obtain ⟨ok, htable, -⟩ := s.table_dbCreate path
  rw [htable]
  rcases DBTable.opened_dbCreate s.table path ok with hopened | hopened
  · exact fun hdb hmem => hopened ▸ hmem
  · exact fun hdb hmem => hopened ▸ List.mem_append_left _ hmem

theorem Inv.bound_dbCreate (h : s.Inv) (path : dbName) {hdb : Nat} (hmem : hdb ∈ s.table.opened) :
    (s.dbCreate path).1.bound hdb = s.bound hdb := by
  cases he : s.table.table path with
  | some e => rw [dbCreate_cached he]
  | none =>
      rw [dbCreate_opens he]
      exact Function.update_of_ne (h.table.opened_lt hdb hmem).ne _ _

theorem Inv.opened_of_mem (h : s.Inv) {podb : OpenedDB} (hmem : podb ∈ s.table.handles) :
    podb.hdb ∈ s.table.opened := by
  obtain ⟨name, e, he, -, hhdb⟩ := h.table.cached podb hmem
  exact hhdb ▸ (h.table.entries name e he).opened

/-- `DBDelete` of a live handle. -/
theorem Inv.dbDelete (h : s.Inv) {podb : OpenedDB} (hmem : podb ∈ s.table.handles) :
    ∃ t, s.dbDelete podb = some t ∧ t.Inv ∧ t.bound = s.bound ∧ t.store = s.store ∧
      t.table.handles = s.table.handles.erase podb ∧
      ∀ h' ∈ s.table.handles.erase podb, ∀ name, s.table.HasName name h' →
        t.table.HasName name h' := by
  obtain ⟨t, ht, hopened⟩ := h.table.dbDelete_eq_some hmem
  obtain ⟨hhandles, hinv, hnames⟩ := h.table.dbDelete hmem ht
  refine ⟨_, congrArg (Option.map _) ht, ⟨hinv, ?_⟩, rfl, rfl,
    congrArg (List.erase · podb) hhandles, hnames⟩
  intro hdb hin
  exact h.bound_lt hdb (hopened ▸ hin)

theorem view_bound_iff_holds (h : s.Inv) :
    s.view.bound path = some file ↔ ∃ hdb, s.table.Holds path hdb ∧ s.bound hdb = file := by
  rw [view_bound_iff]
  constructor
  · rintro ⟨e, he, hfile⟩
    exact ⟨e.hdb, h.table.holds_iff.mpr ⟨e, he, rfl⟩, hfile⟩
  · rintro ⟨hdb, hholds, hfile⟩
    obtain ⟨e, he, rfl⟩ := h.table.holds_iff.mp hholds
    exact ⟨e, he, hfile⟩

end Views

section Calls

variable {s : OpenFiles} {srcfile destfile : dbName} {podb₁ podb₂ : OpenedDB}

theorem Inv.openBoth (h : s.Inv) (srcfile destfile : dbName) :
    (s.openBoth srcfile destfile).state.Inv :=
  (h.dbCreate srcfile).dbCreate destfile

theorem handles_openBoth (s : OpenFiles) (srcfile destfile : dbName) :
    (s.openBoth srcfile destfile).state.table.handles =
      s.table.handles ++ (s.openBoth srcfile destfile).src.2.toList ++
        (s.openBoth srcfile destfile).dest.2.toList := by
  simp only [OpenFiles.openBoth, handles_dbCreate]

/-- A call that closes both handles leaves the cache as it was, but for the new files. -/
theorem Inv.view_closed (h : s.Inv) (hsrc : (s.openBoth srcfile destfile).src.2 = some podb₁)
    (hdest : (s.openBoth srcfile destfile).dest.2 = some podb₂) :
    ∃ t, (((s.openBoth srcfile destfile).state.dbDelete podb₁).bind fun t =>
      t.dbDelete podb₂) =
        some t ∧
      t.Inv ∧ t.view = ⟨s.view.bound, (s.openBoth srcfile destfile).state.store⟩ := by
  have hhandles := s.handles_openBoth srcfile destfile
  rw [hsrc, hdest] at hhandles
  simp only [Option.toList_some] at hhandles
  have hperm : (s.openBoth srcfile destfile).state.table.handles.Perm
      (podb₁ :: podb₂ :: s.table.handles) := by
    rw [hhandles, List.append_assoc]
    exact List.perm_append_comm
  obtain ⟨t, ht, hinv, hbound, hstore, htable, hnames⟩ :=
    (h.openBoth srcfile destfile).dbDelete (hperm.mem_iff.mpr List.mem_cons_self)
  have hperm' : t.table.handles.Perm (podb₂ :: s.table.handles) := by
    have herase := hperm.erase podb₁
    rwa [← htable, List.erase_cons_head] at herase
  obtain ⟨t', ht', hinv', hbound', hstore', htable', hnames'⟩ :=
    hinv.dbDelete (hperm'.mem_iff.mpr List.mem_cons_self)
  have hperm'' : t'.table.handles.Perm s.table.handles := by
    have herase := hperm'.erase podb₂
    rwa [← htable', List.erase_cons_head] at herase
  refine ⟨t', by rw [ht, Option.bind_some, ht'], hinv', ?_⟩
  have hholds : ∀ path hdb, t'.table.Holds path hdb ↔ s.table.Holds path hdb := by
    intro path hdb
    refine h.table.holds_congr (fun _ => hperm''.mem_iff) fun h' hmem name hname => ?_
    have hopened :=
      (h.dbCreate srcfile).hasName_dbCreate destfile (h.hasName_dbCreate srcfile hname)
    refine hnames' h' ?_ name (hnames h' ?_ name hopened)
    · exact htable' ▸ hperm''.mem_iff.mpr hmem
    · exact htable ▸ hperm'.mem_iff.mpr (List.mem_cons_of_mem _ hmem)
  have hsame : ∀ path hdb, s.table.Holds path hdb → t'.bound hdb = s.bound hdb := by
    rintro path _ ⟨h', hmem, -, rfl⟩
    have hin := h.opened_of_mem hmem
    rw [hbound', hbound]
    exact
      ((h.dbCreate srcfile).bound_dbCreate destfile (s.opened_subset_dbCreate srcfile hin)).trans
      (h.bound_dbCreate srcfile hin)
  have hview : t'.view.bound = s.view.bound := by
    funext path
    refine Option.ext fun file => ?_
    rw [view_bound_iff_holds hinv', view_bound_iff_holds h]
    refine exists_congr fun hdb => ?_
    rw [hholds]
    exact and_congr_right fun hin => by rw [hsame path hdb hin]
  rw [← hview, ← hstore, ← hstore']
  rfl

/-- The cache at the call. -/
theorem Inv.view_openBoth (h : s.Inv) (srcfile destfile : dbName) :
    (s.openBoth srcfile destfile).state.view =
      ((s.view.openName resolve srcfile).1.openName resolve destfile).1 := by
  rw [← (h.view_dbCreate srcfile).1]
  exact ((h.dbCreate srcfile).view_dbCreate destfile).1

theorem Inv.src_isSome (h : s.Inv) (srcfile destfile : dbName) :
    (s.openBoth srcfile destfile).src.2.isSome = (s.view.openName resolve srcfile).2.isSome := by
  rw [← (h.view_dbCreate srcfile).2, Option.isSome_map]
  rfl

theorem Inv.dest_isSome (h : s.Inv) (srcfile destfile : dbName) :
    (s.openBoth srcfile destfile).dest.2.isSome =
      ((s.view.openName resolve srcfile).1.openName resolve destfile).2.isSome := by
  rw [← (h.view_dbCreate srcfile).1, ← ((h.dbCreate srcfile).view_dbCreate destfile).2,
    Option.isSome_map]
  rfl

/-- The handles have the names of the paths. -/
theorem Inv.holds_openBoth (h : s.Inv) {r : dbName × Option OpenedDB} {podb : OpenedDB}
    (hr : r ∈ [(s.openBoth srcfile destfile).src, (s.openBoth srcfile destfile).dest])
    (hpodb : r.2 = some podb) :
    (s.openBoth srcfile destfile).state.table.Holds r.1 podb.hdb := by
  have hnamed : ∀ t : OpenFiles, t.Inv → ∀ path, (t.dbCreate path).2 = some podb →
      (t.dbCreate path).1.table.HasName path podb := by
    intro t ht path hpath
    obtain ⟨ok, htable, heq⟩ := t.table_dbCreate path
    rw [htable]
    exact ht.table.hasName_dbCreate (heq ▸ hpath)
  have hmem : podb ∈ (s.openBoth srcfile destfile).state.table.handles := by
    rw [handles_openBoth]
    simp only [List.mem_cons, List.not_mem_nil, or_false] at hr
    rcases hr with rfl | rfl <;> simp [hpodb]
  simp only [List.mem_cons, List.not_mem_nil, or_false] at hr
  rcases hr with rfl | rfl
  · exact ⟨podb, hmem, (h.dbCreate srcfile).hasName_dbCreate destfile
      (hnamed s h srcfile hpodb), rfl⟩
  · exact ⟨podb, hmem, hnamed _ (h.dbCreate srcfile) destfile hpodb, rfl⟩

/-- **A call acts on the current files if the cache opens both paths as it should.** -/
theorem Inv.current_iff (h : s.Inv) (srcfile destfile : dbName) :
    (s.openBoth srcfile destfile).Current ↔ s.view.OpensCurrent resolve srcfile destfile := by
  have hinv := h.openBoth srcfile destfile
  have hview := h.view_openBoth srcfile destfile
  constructor
  · intro hcurrent
    obtain ⟨podb₁, hpodb₁, -⟩ := hcurrent.handles _ List.mem_cons_self
    obtain ⟨podb₂, hpodb₂, -⟩ :=
      hcurrent.handles _ (List.mem_cons_of_mem _ List.mem_cons_self)
    refine ⟨?_, ?_, fun path file hfile => ?_, fun path path' file file' hfile hfile' heq => ?_⟩
    · rw [← h.src_isSome srcfile destfile, hpodb₁]
      rfl
    · rw [← h.dest_isSome srcfile destfile, hpodb₂]
      rfl
    · rw [← hview] at hfile ⊢
      obtain ⟨e, he, rfl⟩ := view_bound_iff.mp hfile
      exact hcurrent.entries path e he
    · rw [← hview] at hfile hfile'
      obtain ⟨e, he, rfl⟩ := view_bound_iff.mp hfile
      obtain ⟨e', he', rfl⟩ := view_bound_iff.mp hfile'
      exact hcurrent.once path path' e e' he he' heq
  · intro hopens
    have hentries : ∀ path e, (s.openBoth srcfile destfile).state.table.table path = some e →
        (s.openBoth srcfile destfile).state.Refers path e.hdb := by
      intro path e he
      refine (hview ▸ hopens.upToDate) path _ (view_bound_iff.mpr ⟨e, he, rfl⟩)
    refine ⟨fun r hr => ?_, hentries, fun path path' e e' he he' heq => ?_⟩
    · have hsome : r.2.isSome := by
        simp only [List.mem_cons, List.not_mem_nil, or_false] at hr
        rcases hr with rfl | rfl
        · rw [h.src_isSome]
          exact hopens.first
        · rw [h.dest_isSome]
          exact hopens.second
      obtain ⟨podb, hpodb⟩ := Option.isSome_iff_exists.mp hsome
      obtain ⟨e, he, hhdb⟩ := hinv.table.holds_iff.mp (h.holds_openBoth hr hpodb)
      exact ⟨podb, hpodb, hhdb ▸ hentries r.1 e he⟩
    · exact (hview ▸ hopens.openedOnce) path path' _ _ (view_bound_iff.mpr ⟨e, he, rfl⟩)
        (view_bound_iff.mpr ⟨e', he', rfl⟩) heq

end Calls

end OpenFiles

/-- The files of the second store are those of the first or new, and the clients' databases
are where they were. -/
structure Later (file_tmp : dbName) (s t : FileStore Location) : Prop where
  follows : s.Follows t
  working : ∀ n file, n ≠ file_tmp → s.files (.working, n) = some file →
    t.files (.working, n) = some file

namespace Later

variable {file_tmp : dbName} {s t r : FileStore Location}

theorem trans (h : Later file_tmp s t) (h' : Later file_tmp t r) : Later file_tmp s r :=
  ⟨h.follows.trans h'.follows, fun n file hn hfile =>
    h'.working n file hn (h.working n file hn hfile)⟩

theorem mvAll {src dest : Directory} (hsrc : src ≠ .working) (hdest : dest ≠ .working) :
    Later file_tmp s (mvAll src dest s) := by
  rw [DistributedDB.mvAll]
  split
  case isTrue => exact ⟨FileStore.Follows.refl s, fun _ _ _ => id⟩
  case isFalse =>
      refine ⟨FileStore.follows_rearrange, fun n file _ hfile => ?_⟩
      rw [FileStore.files_rearrange_of_eq, hfile]
      simp [hsrc.symm, hdest.symm]

theorem rmAll {dir : Directory} (hdir : dir ≠ .working) :
    Later file_tmp s (rmAll dir s) := by
  refine ⟨FileStore.follows_rearrange, fun n file _ hfile => ?_⟩
  rw [DistributedDB.rmAll, FileStore.files_rearrange_of_eq, hfile]
  simp [hdir.symm]

theorem rename {dest : Location} (hdest : dest.1 ≠ .working) :
    Later file_tmp s (s.rename (.working, file_tmp) dest) := by
  refine ⟨FileStore.follows_rename dest, fun n file hn hfile => ?_⟩
  have hne : (Directory.working, n) ≠ dest := fun heq => hdest (congrArg Prod.fst heq).symm
  rw [FileStore.files_rename_of_ne (by simpa using hn) hne, hfile]

theorem rewrite {l : Location} (hl : l.1 ≠ .working) : Later file_tmp s (s.rewrite l) := by
  refine ⟨FileStore.follows_place _, fun n file _ hfile => ?_⟩
  have hne : (Directory.working, n) ≠ l := fun heq => hl (congrArg Prod.fst heq).symm
  rw [FileStore.rewrite, FileStore.files_place_of_ne hne, hfile]

theorem recvFile {k : Nat} (hk : k ≠ 0) (received : Option FileName) :
    Later file_tmp s (SlaveFiles.recvFile k received s) := by
  cases received with
  | none => exact ⟨FileStore.Follows.refl s, fun _ _ _ => id⟩
  | some y =>
      refine rewrite ?_
      match k, hk with
      | 1, _ => exact y.resolve_filename1 ▸ Directory.noConfusion
      | k + 2, _ => exact y.resolve_filename2 ▸ Directory.noConfusion

theorem openName {c : HandleCache dbName Location} (path : dbName) :
    Later file_tmp c.store (c.openName resolve path).1.store :=
  ⟨c.follows_openName resolve path, fun _ _ _ => HandleCache.files_openName⟩

end Later

/-- A backup is moved away or removed. -/
theorem files_mvAll_backup1 (x : FileName) (s : FileStore Location) :
    (mvAll .backup1 .backup2 s).files (.backup1, x.bytes ++ BACKUP_POSTFIX) = none := by
  rw [mvAll, dif_neg (by decide)]
  refine FileStore.files_rearrange_of_none ?_
  simp [x.globs_bac]

theorem not_linked_rmAll (x : FileName) {s : FileStore Location} {file : DiskFile}
    (hfile : s.files (.backup2, x.bytes ++ BACKUP_POSTFIX) = some file) :
    ¬ (rmAll .backup2 s).Linked file.inode := by
  refine FileStore.not_linked_rearrange hfile ?_
  intro l
  split
  case isTrue => exact Option.some_ne_none _ |>.symm
  case isFalse hl =>
      intro heq
      obtain rfl := Option.some.inj heq
      exact hl ⟨rfl, x.globs_bac⟩

namespace SlaveFiles

/-- What is bound to what between the events: the clients' databases to their files, the
first backup to any file, the second one to a file that is gone. -/
def Binding (x : FileName) (store : FileStore Location) (path : dbName) (file : DiskFile) : Prop :=
  (47 ∉ path ∧ path ≠ x.file_tmp ∧ store.files (.working, path) = some file) ∨
    path = x.filename1 ∨ path = x.filename2 ∧ ¬ store.Linked file.inode

/-- **What holds between the events.** -/
structure Resting (x : FileName) (s : OpenFiles) : Prop where
  inv : s.Inv
  entries : ∀ path file, s.view.bound path = some file → Binding x s.store path file

section Resting

variable {x : FileName} {s t : OpenFiles}

theorem Resting.binding_later (h : Resting x s) {store : FileStore Location}
    (hstore : Later x.file_tmp s.store store) {path : dbName} {file : DiskFile}
    (hfile : s.view.bound path = some file) : Binding x store path file := by
  rcases h.entries path file hfile with ⟨hplain, htmp, hfiles⟩ | hone | ⟨htwo, hgone⟩
  · exact Or.inl ⟨hplain, htmp, hstore.working path file htmp hfiles⟩
  · exact Or.inr (Or.inl hone)
  · exact Or.inr
      (Or.inr ⟨htwo, hstore.follows.not_linked (h.inv.bounded path file hfile) hgone⟩)

theorem Resting.later (h : Resting x s) (hinv : t.Inv) (hbound : t.view.bound = s.view.bound)
    (hstore : Later x.file_tmp s.store t.store) : Resting x t :=
  ⟨hinv, fun _ _ hfile => h.binding_later hstore (hbound ▸ hfile)⟩

/-- A command that changes files. -/
theorem Resting.exe (h : Resting x s) (store : FileStore Location)
    (hstore : Later x.file_tmp s.store store) : Resting x { s with store := store } :=
  h.later ⟨h.inv.table, fun hdb hmem => (h.inv.bound_lt hdb hmem).trans_le hstore.follows.1⟩ rfl
    hstore

theorem Resting.known (h : Resting x s) {path : dbName} {file : DiskFile}
    (hfile : s.view.bound path = some file) : x.Known path := by
  rcases h.entries path file hfile with ⟨hplain, -, -⟩ | hone | ⟨htwo, -⟩
  · exact Or.inl hplain
  · exact Or.inr (Or.inl hone)
  · exact Or.inr (Or.inr htwo)

theorem Resting.unaliased (h : Resting x s) {path : dbName} (hpath : x.Known path) :
    s.view.Unaliased resolve path :=
  fun _ _ hfile heq => (h.known hfile).resolve_inj hpath heq

theorem Resting.oneSpelling (h : Resting x s) : s.view.OneSpelling resolve :=
  fun _ _ _ _ hfile hfile' heq => (h.known hfile).resolve_inj (h.known hfile') heq

/-- The second spelling of a path. -/
theorem Resting.unaliased_iff (h : Resting x s) {path path' : dbName} (hpath : x.Known path)
    (hresolve : resolve path = resolve path') (hne : path ≠ path') :
    s.view.Unaliased resolve path' ↔ s.view.bound path = none := by
  constructor
  · intro hun
    cases hfile : s.view.bound path with
    | none => rfl
    | some file => exact absurd (hun path file hfile hresolve) hne
  · intro hnone path'' file hfile heq
    obtain rfl := (h.known hfile).resolve_inj hpath (heq.trans hresolve.symm)
    rw [hnone] at hfile
    cases hfile

/-- What it takes for the cache to be up to date. -/
theorem Resting.upToDate_iff (h : Resting x s) :
    s.view.UpToDate resolve ↔
      (∀ file, s.view.bound x.filename1 = some file →
        s.store.files (.backup1, x.bytes ++ BACKUP_POSTFIX) = some file) ∧
        s.view.bound x.filename2 = none := by
  constructor
  · intro hup
    refine ⟨fun file hfile => x.resolve_filename1 ▸ hup _ file hfile, ?_⟩
    cases hfile : s.view.bound x.filename2 with
    | none => rfl
    | some file =>
        rcases h.entries _ file hfile with ⟨hplain, -, -⟩ | hone | ⟨-, hgone⟩
        · exact absurd (by simp [FileName.filename2]) hplain
        · exact absurd hone x.filename1_ne_filename2.symm
        · exact absurd ⟨_, file, hup _ file hfile, rfl⟩ hgone
  · rintro ⟨hone, htwo⟩ path file hfile
    rcases h.entries path file hfile with ⟨hplain, -, hfiles⟩ | rfl | ⟨rfl, -⟩
    · exact (resolve_plain hplain).symm ▸ hfiles
    · exact x.resolve_filename1.symm ▸ hone file hfile
    · rw [htwo] at hfile
      cases hfile

/-- The call of a handler that opens two paths of databases. -/
theorem Resting.current_iff (h : Resting x s) {path path' : dbName} (hpath : x.Known path)
    (hpath' : x.Known path') (hne : path ≠ path') :
    (s.openBoth path path').Current ↔ s.view.UpToDate resolve := by
  have hlocations : resolve path ≠ resolve path' := fun heq => hne (hpath.resolve_inj hpath' heq)
  rw [h.inv.current_iff, HandleCache.opensCurrent_iff h.inv.bounded hlocations]
  exact ⟨And.left, fun hup => ⟨hup, h.oneSpelling, h.unaliased hpath, h.unaliased hpath'⟩⟩

/-- What is open after a call. -/
theorem Resting.openBoth (h : Resting x s) {path path' : dbName}
    (hcurrent : (s.openBoth path path').Current) :
    (s.openBoth path path').state.view.UpToDate resolve ∧
      Later x.file_tmp s.store (s.openBoth path path').state.store ∧
      ∀ n file, (s.openBoth path path').state.view.bound n = some file →
        n = path ∨ n = path' ∨ s.view.bound n = some file := by
  have hview := h.inv.view_openBoth path path'
  have hopens := (h.inv.current_iff path path').mp hcurrent
  refine ⟨hview ▸ hopens.upToDate, ?_, fun n file hfile => ?_⟩
  · rw [show (s.openBoth path path').state.store = _ from congrArg HandleCache.store hview]
    exact (Later.openName (c := s.view) path).trans (Later.openName path')
  · by_cases hn : n = path
    · exact Or.inl hn
    by_cases hn' : n = path'
    · exact Or.inr (Or.inl hn')
    rw [hview, HandleCache.bound_openName_of_ne hn', HandleCache.bound_openName_of_ne hn] at hfile
    exact Or.inr (Or.inr hfile)

end Resting

section Steps

variable {x : FileName} {s t : SlaveFiles}

theorem exe_running (hs : s.crashed = false) (cmd : FileStore Location → FileStore Location) :
    s.exe cmd = { s with files := { s.files with store := cmd s.files.store } } := by
  rw [exe, hs]
  rfl

theorem calls_exe (cmd : FileStore Location → FileStore Location) :
    (s.exe cmd).calls = s.calls := by
  rw [exe]
  split <;> rfl

/-- A split on the current files. -/
theorem splitByKey_resting (h : Resting x s.files) {path path' : dbName}
    (hcurrent : (s.files.openBoth path path').Current) :
    (s.splitByKey path path').crashed = false ∧ Resting x (s.splitByKey path path').files := by
  obtain ⟨podb₁, hsrc, -⟩ := hcurrent.handles _ List.mem_cons_self
  obtain ⟨podb₂, hdest, -⟩ := hcurrent.handles _ (List.mem_cons_of_mem _ List.mem_cons_self)
  obtain ⟨files, hclosed, hinv, hview⟩ := h.inv.view_closed hsrc hdest
  have hsplit : s.splitByKey path path' =
      ⟨files, s.calls ++ [s.files.openBoth path path'], false⟩ := by
    simp only [splitByKey, hsrc, hdest, Option.bind_some, hclosed, Option.getD_some,
      Option.isNone_some]
  rw [hsplit]
  have hbound : files.view.bound = s.files.view.bound := by rw [hview]
  have hstore : files.store = (s.files.openBoth path path').state.store :=
    congrArg HandleCache.store hview
  exact ⟨rfl, h.later hinv hbound (hstore ▸ (h.openBoth hcurrent).2.1)⟩

/-- A merge on the current files. -/
theorem merge2Files_current {path path' : dbName}
    (hcurrent : (s.files.openBoth path path').Current) :
    s.merge2Files path path' =
      ⟨(s.files.openBoth path path').state, s.calls ++ [s.files.openBoth path path'],
        false⟩ := by
  obtain ⟨podb₁, hsrc, -⟩ := hcurrent.handles _ List.mem_cons_self
  obtain ⟨podb₂, hdest, -⟩ := hcurrent.handles _ (List.mem_cons_of_mem _ List.mem_cons_self)
  simp only [merge2Files, hsrc, hdest, Option.isNone_some, Bool.or_self]

/-- The call of the handler. -/
def call (file_master : FileName) (s : SlaveFiles) : FileEvent → Option FileCall
  | .clipData =>
      some ((s.exe (mvAll .backup1 .backup2)).files.openBoth file_master.bytes
        file_master.file_tmp)
  | .updateBackup2 =>
      some ((s.exe (rmAll .backup2)).files.openBoth file_master.fname1 file_master.fname2)
  | .rmSlavePredecessor _ => some (s.files.openBoth file_master.filename1 file_master.bytes)
  | .rmSlaveSecondPredecessor _ =>
      some (s.files.openBoth file_master.filename2 file_master.filename1)
  | .updateBackup12 _ _ => none

theorem calls_step {e : FileEvent} (hstep : step x s e = some t) :
    t.calls = s.calls ++ (call x s e).toList := by
  rw [step] at hstep
  split at hstep
  case isTrue => cases hstep
  case isFalse =>
      obtain rfl := Option.some.inj hstep
      cases e <;> simp [call, calls_exe, splitByKey, merge2Files]

/-- All calls act on the current files. -/
def AllCurrent (s : SlaveFiles) : Prop :=
  ∀ call ∈ s.calls, call.Current

theorem allCurrent_step {e : FileEvent} (hstep : step x s e = some t) :
    t.AllCurrent ↔ s.AllCurrent ∧ ∀ c ∈ call x s e, c.Current := by
  simp only [AllCurrent, calls_step hstep, List.mem_append, Option.mem_toList, or_imp, forall_and]
  exact Iff.rfl

/-- The slave is at rest and runs. -/
structure Ready (x : FileName) (s : SlaveFiles) : Prop where
  resting : Resting x s.files
  running : s.crashed = false

theorem forall_some_current {c : FileCall} : (∀ c' ∈ some c, c'.Current) ↔ c.Current :=
  ⟨fun h => h c rfl, fun h _ hc' => Option.some.inj hc' ▸ h⟩

/-- **The call of a handler acts on the current files if and only if the event meets the
condition.** -/
theorem Ready.call_current_iff (h : Ready x s) (e : FileEvent) :
    (∀ c ∈ call x s e, c.Current) ↔ s.UpToDate x e := by
  have hknown₁ : x.Known x.filename1 := Or.inr (Or.inl rfl)
  have hknown₂ : x.Known x.filename2 := Or.inr (Or.inr rfl)
  have hnone : ∀ path, s.files.view.bound path = none ↔ s.files.table.table path = none :=
    fun path => OpenFiles.view_bound_none
  have hmerge : s.files.view.UpToDate resolve ↔
      (∀ e ∈ s.files.table.table x.filename1, s.files.Refers x.filename1 e.hdb) ∧
        s.files.table.table x.filename2 = none := by
    rw [h.resting.upToDate_iff, hnone]
    refine and_congr_left' ⟨fun hall e he => ?_, fun hall file hfile => ?_⟩
    · rw [OpenFiles.Refers, OpenFiles.fileAt, x.resolve_filename1]
      exact hall _ (OpenFiles.view_bound_iff.mpr ⟨e, he, rfl⟩)
    · obtain ⟨e, he, rfl⟩ := OpenFiles.view_bound_iff.mp hfile
      exact x.resolve_filename1 ▸ hall e he
  cases e with
  | clipData =>
      have hexe := h.resting.exe (mvAll .backup1 .backup2 s.files.store)
        (Later.mvAll (by decide) (by decide))
      rw [call, exe_running h.running, forall_some_current,
        hexe.current_iff (Or.inl x.plain) (Or.inl x.file_tmp_plain) x.file_tmp_ne,
        hexe.upToDate_iff, files_mvAll_backup1]
      refine and_congr (Iff.trans ?_ (hnone _)) (hnone _)
      rw [Option.eq_none_iff_forall_ne_some]
      exact forall₂_congr fun _ _ => iff_of_eq (by simp)
  | updateBackup2 =>
      have hexe := h.resting.exe (rmAll .backup2 s.files.store) (Later.rmAll (by decide))
      have hlocations : resolve x.fname1 ≠ resolve x.fname2 := by
        rw [x.resolve_fname1, x.resolve_fname2]
        exact fun heq => Directory.noConfusion (congrArg Prod.fst heq)
      rw [call, exe_running h.running, forall_some_current, hexe.inv.current_iff,
        HandleCache.opensCurrent_iff hexe.inv.bounded hlocations,
        hexe.unaliased_iff hknown₁ (x.resolve_filename1.trans x.resolve_fname1.symm)
          x.filename1_ne_fname1,
        hexe.unaliased_iff hknown₂ (x.resolve_filename2.trans x.resolve_fname2.symm)
          x.filename2_ne_fname2, hexe.upToDate_iff]
      constructor
      · rintro ⟨-, -, hone, htwo⟩
        exact ⟨(hnone _).mp hone, (hnone _).mp htwo⟩
      · rintro ⟨hone, htwo⟩
        have hone' := (hnone _).mpr hone
        refine ⟨⟨fun file hfile => ?_, (hnone _).mpr htwo⟩, hexe.oneSpelling, hone',
          (hnone _).mpr htwo⟩
        exact absurd (hone'.symm.trans hfile) nofun
  | rmSlavePredecessor received =>
      rw [call, forall_some_current,
        h.resting.current_iff hknown₁ (Or.inl x.plain) (fun heq => ?_)]
      · exact hmerge
      · exact x.plain (heq ▸ by simp [FileName.filename1])
  | rmSlaveSecondPredecessor received =>
      rw [call, forall_some_current,
        h.resting.current_iff hknown₂ hknown₁ x.filename1_ne_filename2.symm]
      exact hmerge
  | updateBackup12 received₁ received₂ => exact ⟨fun _ => trivial, fun _ _ hc => nomatch hc⟩

/-- A command of a slave that is ready. -/
theorem Ready.exe (h : Ready x s) (cmd : FileStore Location → FileStore Location)
    (hcmd : Later x.file_tmp s.files.store (cmd s.files.store)) : Ready x (s.exe cmd) := by
  rw [exe_running h.running]
  exact ⟨h.resting.exe _ hcmd, h.running⟩

theorem Ready.recvFile (h : Ready x s) {k : Nat} (hk : k ≠ 0) (received : Option FileName) :
    Ready x (s.exe (recvFile k received)) :=
  h.exe _ (Later.recvFile hk received)

/-- The predecessor's merge, and the move of the second backup. -/
theorem Ready.merge_predecessor (h : Ready x s)
    (hcurrent : (s.files.openBoth x.filename1 x.bytes).Current) :
    Ready x ((s.merge2Files x.filename1 x.bytes).exe (mvAll .backup2 .backup1)) := by
  obtain ⟨hup, hlater, hbound⟩ := h.resting.openBoth hcurrent
  rw [merge2Files_current hcurrent]
  refine Ready.exe ⟨⟨h.resting.inv.openBoth _ _, fun path file hfile => ?_⟩, rfl⟩ _
    (Later.mvAll (by decide) (by decide))
  rcases hbound path file hfile with rfl | rfl | hold
  · exact Or.inr (Or.inl rfl)
  · exact Or.inl ⟨x.plain, x.file_tmp_ne, x.resolve_bytes ▸ hup _ file hfile⟩
  · exact h.resting.binding_later hlater hold

/-- The second predecessor's merge, and the removal of the second backup. -/
theorem Ready.merge_secondPredecessor (h : Ready x s)
    (hcurrent : (s.files.openBoth x.filename2 x.filename1).Current) :
    Ready x ((s.merge2Files x.filename2 x.filename1).exe (rmAll .backup2)) := by
  obtain ⟨hup, hlater, hbound⟩ := h.resting.openBoth hcurrent
  have hinv := h.resting.inv.openBoth x.filename2 x.filename1
  have hrm : Later x.file_tmp (s.files.openBoth x.filename2 x.filename1).state.store
      (rmAll .backup2 (s.files.openBoth x.filename2 x.filename1).state.store) :=
    Later.rmAll (by decide)
  rw [merge2Files_current hcurrent, exe_running rfl]
  refine ⟨⟨⟨hinv.table, fun hdb hmem => (hinv.bound_lt hdb hmem).trans_le hrm.follows.1⟩,
    fun path file hfile => ?_⟩, rfl⟩
  rcases hbound path file hfile with rfl | rfl | hold
  · exact Or.inr (Or.inr ⟨rfl, not_linked_rmAll x (x.resolve_filename2 ▸ hup _ file hfile)⟩)
  · exact Or.inr (Or.inl rfl)
  · exact h.resting.binding_later (hlater.trans hrm) hold

/-- **An event that meets the condition leaves the slave ready.** -/
theorem Ready.step (h : Ready x s) {e : FileEvent} (hcond : s.UpToDate x e)
    (hstep : step x s e = some t) : Ready x t := by
  have hcall := (h.call_current_iff e).mpr hcond
  rw [SlaveFiles.step, h.running] at hstep
  obtain rfl := Option.some.inj hstep
  cases e with
  | clipData =>
      have hexe := h.exe (mvAll .backup1 .backup2) (Later.mvAll (by decide) (by decide))
      obtain ⟨hrunning, hresting⟩ := splitByKey_resting hexe.resting (hcall _ rfl)
      refine Ready.exe ⟨hresting, hrunning⟩ _ ?_
      rw [x.resolve_file_tmp]
      exact Later.rename (x.resolve_filename1 ▸ Directory.noConfusion)
  | updateBackup2 =>
      have hexe := h.exe (rmAll .backup2) (Later.rmAll (by decide))
      obtain ⟨hrunning, hresting⟩ := splitByKey_resting hexe.resting (hcall _ rfl)
      exact ⟨hresting, hrunning⟩
  | rmSlavePredecessor received =>
      exact (h.merge_predecessor (hcall _ rfl)).recvFile (by decide) received
  | rmSlaveSecondPredecessor received =>
      exact (h.merge_secondPredecessor (hcall _ rfl)).recvFile (by decide) received
  | updateBackup12 received₁ received₂ =>
      exact (h.recvFile (by decide) received₁).recvFile (by decide) received₂

theorem Started.ready (h : Started x s) : Ready x s where
  resting := {
    inv := ⟨h.table, h.bound_lt⟩
    entries := by
      intro path file hfile
      obtain ⟨e, he, rfl⟩ := OpenFiles.view_bound_iff.mp hfile
      obtain ⟨hplain, htmp, hrefers⟩ := h.clients path e he
      exact Or.inl ⟨hplain, htmp, resolve_plain hplain ▸ hrefers⟩ }
  running := h.running

/-- A slave in an empty directory. -/
def fresh : SlaveFiles :=
  ⟨⟨DBTable.init, fun _ => ⟨0, 0⟩, FileStore.empty⟩, [], false⟩

theorem started_fresh (x : FileName) : Started x fresh where
  calls := rfl
  running := rfl
  table := DBTable.tableInv_init
  bound_lt := nofun
  clients := nofun

/-- A client opens a database. -/
def opened (s : SlaveFiles) (path : dbName) : SlaveFiles :=
  { s with files := (s.files.dbCreate path).1 }

theorem Started.opened (h : Started x s) {path : dbName} (hplain : 47 ∉ path)
    (htmp : path ≠ x.file_tmp) : Started x (s.opened path) := by
  have hresting := h.ready.resting
  have hup : s.files.view.UpToDate resolve := by
    intro path' file hfile
    obtain ⟨e, he, rfl⟩ := OpenFiles.view_bound_iff.mp hfile
    exact (h.clients path' e he).2.2
  obtain ⟨-, -, -, hup'⟩ :=
    HandleCache.openName_current hup (hresting.unaliased (Or.inl hplain))
  have hview := (hresting.inv.view_dbCreate path).1
  have hinv := hresting.inv.dbCreate path
  refine ⟨h.calls, h.running, hinv.table, hinv.bound_lt, fun path' e he => ?_⟩
  have hfile : (s.files.dbCreate path).1.view.bound path' = some _ :=
    OpenFiles.view_bound_iff.mpr ⟨e, he, rfl⟩
  have hrefers : (s.files.dbCreate path).1.Refers path' e.hdb := (hview ▸ hup') path' _ hfile
  by_cases hpath : path' = path
  · exact ⟨hpath ▸ hplain, hpath ▸ htmp, hrefers⟩
  · rw [hview, HandleCache.bound_openName_of_ne hpath] at hfile
    obtain ⟨e', he', -⟩ := OpenFiles.view_bound_iff.mp hfile
    obtain ⟨hplain', htmp', -⟩ := h.clients path' e' he'
    exact ⟨hplain', htmp', hrefers⟩

end Steps

/-- **Splits and merges act on the current files**: in every run of events every call of
`SplitByKey` and `Merge2Files` has had handles of the files at its paths, with no entry of
another file in the table and no file open under two names, if and only if every event met
the condition. -/
theorem current_iff_allSteps (x : FileName) (s t : SlaveFiles) (events : List FileEvent)
    (hstart : Started x s) (hrun : run (step x) s events = some t) :
    (∀ call ∈ t.calls, call.Current) ↔ allSteps (step x) (UpToDate x) s events := by
  refine run_iff_allSteps (UpToDate x) AllCurrent (Ready x)
    (fun s e t hstep hall => ((allCurrent_step hstep).mp hall).1) ?_
    (fun s e t hready hcond hstep => hready.step hcond hstep) hrun
    (fun call hmem => absurd (hstart.calls ▸ hmem) List.not_mem_nil) hstart.ready
  intro s e t hall hready hstep
  rw [allCurrent_step hstep, and_iff_right hall]
  exact hready.call_current_iff e

/-- `"a.db"`, opened by a client. -/
def aDb : FileName where
  bytes := [97, 46, 100, 98]
  plain := by decide
  visible := ⟨97, rfl, by decide⟩

theorem started_aDb : Started aDb (fresh.opened aDb.bytes) :=
  (started_fresh aDb).opened aDb.plain aDb.file_tmp_ne

/-- A join as predecessor, one as second predecessor, a refresh and a departure. -/
def joinsThenLeave : List FileEvent :=
  [.clipData, .updateBackup2, .updateBackup12 (some aDb) (some aDb),
    .rmSlavePredecessor (some aDb)]

theorem current_iff_allSteps_joinsThenLeave :
    ∃ t, run (step aDb) (fresh.opened aDb.bytes) joinsThenLeave = some t ∧
      t.calls.length = 3 ∧ ∀ call ∈ t.calls, call.Current := by
  have hlength : (run (step aDb) (fresh.opened aDb.bytes) joinsThenLeave).map
      (fun t => t.calls.length) = some 3 := by decide +kernel
  obtain ⟨t, hrun, hlength⟩ := Option.map_eq_some_iff.mp hlength
  exact ⟨t, hrun, hlength,
    (current_iff_allSteps aDb _ t joinsThenLeave started_aDb hrun).mpr (by decide +kernel)⟩

/-- The handle of a call's source refers to the file at its path. -/
def srcRefers (call : FileCall) : Bool :=
  call.src.2.any fun podb => call.state.Refers call.src.1 podb.hdb

/-- **A slave is the second predecessor of two slaves that leave**: the second merge reads the
file that was removed after the first, and not the one that was received. -/
theorem merged_twice :
    ¬ ∀ (x : FileName) (s t : SlaveFiles) (events : List FileEvent), Started x s →
      run (step x) s events = some t → ∀ call ∈ t.calls, call.Current := by
  intro hall
  have hrefers : (run (step aDb) (fresh.opened aDb.bytes)
      [.rmSlaveSecondPredecessor (some aDb), .rmSlaveSecondPredecessor (some aDb)]).map
      (fun t => t.calls.all srcRefers) = some false := by decide +kernel
  obtain ⟨t, hrun, hrefers⟩ := Option.map_eq_some_iff.mp hrefers
  obtain ⟨call, hmem, hsrc⟩ := List.all_eq_false.mp hrefers
  have hcurrent := hall aDb _ t _ started_aDb hrun call hmem
  obtain ⟨podb, hpodb, hfile⟩ := hcurrent.handles _ List.mem_cons_self
  refine hsrc ?_
  rw [srcRefers, hpodb]
  exact decide_eq_true hfile

end SlaveFiles

end DistributedDB
