import DistributedDB.Library.Run
import DistributedDB.Library.StringBuffers
import DistributedDB.FileTransfer
import DistributedDB.ParseInput
import DistributedDB.StaleHandles
import DistributedDB.WorkerReplies

/-!
# Database names in arrays

Slaves with two workers each, which take the `OPEN` packets, and the main thread, which
handles the membership changes.  A thread is at what is left of its calls of `strcpy` and
`strcat`, the threads take turns between the calls, and a slave gets the name of another
slave's `file_master` with a file.  The handler of a packet is modelled as far as it writes
to the arrays for names; the ones without such a write (`BACKUP`, `NEW_SLAVE`) are left out.

**Results.**
* `NameSystem.step_start_eq_some`, `NameSystem.step_run`: what a step does.
* `NameSlave.Fitting`: the bounds that hold between the calls.
* `NameSystem.fitting_step`: every step keeps them, as long as the names are short.
* `NameSystem.safe_iff`: no array overflows if and only if the names have at most 86
  characters.
* `NameSystem.overflows`: longer names, in `OPEN` and in `RM_SLAVE`.
-/

namespace DistributedDB

open StringBuffers Run

/-- The arrays of a slave.  The ones on the stack are written anew before they are read. -/
inductive NameBuffer where
  | file_master
  | file_tmp
  /-- What is behind the header of a packet. -/
  | append
  | filepath (k : Fin 3)
  | fullcmd
  | fname1
  | fname2
  | filename
  | filename1
  | filename2
deriving DecidableEq, Repr

def NameBuffer.size : NameBuffer → Nat
  | file_master | file_tmp | filepath _ | fname1 | fname2 => MAX_FILENAME_LEN
  | append => APPENDSIZE
  | fullcmd => 2 * MAX_FILENAME_LEN
  | filename | filename1 | filename2 => 100

abbrev NameSource := StringBuffers.Source NameBuffer UInt8

abbrev NameOp := StringBuffers.Op NameBuffer UInt8

inductive NameThread where
  | main
  | worker (w : Fin THREADS_NUM)
deriving DecidableEq, Repr

/-- What a thread gets to do. -/
inductive NameTask where
  | OPEN (w : Fin THREADS_NUM) (name : DBName)
  | CLIP_DATA
  | UPDATE_BACKUP2
  /-- The slave is `back` places before the removed one. -/
  | RM_SLAVE (back : Nat) (replied : Bool)
  | UPDATE_BACKUP12 (replied₁ replied₂ : Bool)
  | InitialSlave (clipped replied₁ replied₂ : Bool)

namespace NameTask

section Programs

/-- `OPEN` in `HandleDBRequest`. -/
def openName (name : dbValue) : List NameOp :=
  [.strcpy .file_master (.text name),
    .strcpy .file_tmp (.text name),
    .strcat [] .file_tmp (.text (ascii "~"))]

def ExeShellCmd (cmd : dbValue) (srcdir srcfname destdir destfname : NameSource) : List NameOp :=
  [.strcpy .fullcmd (.text cmd),
    .strcat [] .fullcmd (.text (ascii " ")),
    .strcat [] .fullcmd srcdir,
    .strcat [srcdir] .fullcmd (.text (ascii "//")),
    .strcat [] .fullcmd srcfname,
    .strcat [srcdir, srcfname] .fullcmd (.text BACKUP_POSTFIX),
    .strcat [] .fullcmd (.text (ascii " ")),
    .strcat [] .fullcmd destdir,
    .strcat [destdir] .fullcmd (.text (ascii "//")),
    .strcat [] .fullcmd destfname,
    .strcat [destdir, destfname] .fullcmd (.text BACKUP_POSTFIX)]

def GetFileName (k : Fin 3) (filename : NameSource) : List NameOp :=
  ([.strcpy (.filepath 0) (.text []),
    .strcpy (.filepath 1) (.text BACKUP1_DIR),
    .strcpy (.filepath 2) (.text BACKUP2_DIR)] : List NameOp) ++
  (if k > 0 then [.strcat [] (.filepath k) (.text (ascii "//"))] else [] : List NameOp) ++
  ([.strcat [] (.filepath k) filename] : List NameOp) ++
  (if k ≠ 0 then [.strcat [] (.filepath k) (.text BACKUP_POSTFIX)] else [] : List NameOp)

/-- `CommunicateToSlave` with `k` from -1 on; `replied`: there is another slave, and it
answers. -/
def CommunicateToSlave (k : Int) (replied : Bool) : List NameOp :=
  if replied then
    .receive .append :: GetFileName (if k = -1 then 0 else Fin.ofNat 3 k.toNat) (.buffer .append)
  else []

def ClipDataFromPre (replied : Bool) : List NameOp :=
  CommunicateToSlave (-1) replied

def BackupForOtherSlave (k : Int) (replied : Bool) : List NameOp :=
  CommunicateToSlave k replied

/-- `CLIP_DATA` in `HandleSlaveRequest`. -/
def clipData : List NameOp :=
  ExeShellCmd (ascii "mv") (.text BACKUP1_DIR) (.text (ascii "*")) (.text BACKUP2_DIR) (.text []) ++
  ExeShellCmd (ascii "mv") (.text []) (.buffer .file_tmp) (.text BACKUP1_DIR)
    (.buffer .file_master)

/-- `UPDATE_BACKUP2` in `HandleSlaveRequest`. -/
def updateBackup2 : List NameOp :=
  ExeShellCmd (ascii "rm") (.text BACKUP2_DIR) (.text (ascii "*")) (.text []) (.text []) ++
  ([.strcpy .fname1 (.text BACKUP1_DIR),
    .strcpy .fname2 (.text BACKUP2_DIR),
    .strcat [] .fname1 (.text (ascii "/")),
    .strcat [] .fname1 (.buffer .file_master),
    .strcat [] .fname1 (.text BACKUP_POSTFIX),
    .strcat [] .fname2 (.text (ascii "/")),
    .strcat [] .fname2 (.buffer .file_master),
    .strcat [] .fname2 (.text BACKUP_POSTFIX)] : List NameOp)

/-- `RM_SLAVE` in `HandleMasterRequest`, at the predecessor of the removed slave. -/
def rmSlave1 (replied : Bool) : List NameOp :=
  ([.strcpy .filename (.text BACKUP1_DIR),
    .strcat [] .filename (.text (ascii "//")),
    .strcat [] .filename (.buffer .file_master),
    .strcat [] .filename (.text BACKUP_POSTFIX)] : List NameOp) ++
  ExeShellCmd (ascii "mv") (.text BACKUP2_DIR) (.text (ascii "*")) (.text BACKUP1_DIR) (.text []) ++
  BackupForOtherSlave 2 replied

/-- `RM_SLAVE` at the predecessor of the predecessor. -/
def rmSlave2 (replied : Bool) : List NameOp :=
  ([.strcpy .filename1 (.text BACKUP1_DIR),
    .strcat [] .filename1 (.text (ascii "//")),
    .strcpy .filename2 (.text BACKUP2_DIR),
    .strcat [] .filename2 (.text (ascii "//")),
    .strcat [] .filename1 (.buffer .file_master),
    .strcat [] .filename2 (.buffer .file_master),
    .strcat [] .filename1 (.text BACKUP_POSTFIX),
    .strcat [] .filename2 (.text BACKUP_POSTFIX)] : List NameOp) ++
  ExeShellCmd (ascii "rm") (.text BACKUP2_DIR) (.text (ascii "*")) (.text []) (.text []) ++
  BackupForOtherSlave 2 replied

end Programs

def thread : NameTask → NameThread
  | OPEN w _ => .worker w
  | _ => .main

def program : NameTask → List NameOp
  | OPEN _ name => openName name.chars
  | CLIP_DATA => clipData
  | UPDATE_BACKUP2 => updateBackup2
  | RM_SLAVE 1 replied => rmSlave1 replied
  | RM_SLAVE 2 replied => rmSlave2 replied
  | RM_SLAVE _ _ => []
  | UPDATE_BACKUP12 replied₁ replied₂ =>
      BackupForOtherSlave 1 replied₁ ++ BackupForOtherSlave 2 replied₂
  | InitialSlave clipped replied₁ replied₂ =>
      ClipDataFromPre clipped ++ BackupForOtherSlave 1 replied₁ ++
        BackupForOtherSlave 2 replied₂

end NameTask

/-- A slave: its arrays, and what is left of its threads' calls. -/
structure NameSlave where
  strings : NameBuffer → dbValue
  ops : NameThread → List NameOp

/-- The slaves, and the first array that was written past its end. -/
structure NameSystem (n : Nat) where
  slave : Fin (n + 1) → NameSlave
  overflow : Option NameBuffer

inductive NameEvent (n : Nat) where
  | start (i : Fin (n + 1)) (task : NameTask)
  /-- The next call of a thread; a string that is received comes from `peer`. -/
  | run (i : Fin (n + 1)) (t : NameThread) (peer : Fin (n + 1))

namespace NameSlave

/-- A slave that has just been started. -/
def initial : NameSlave where
  strings
    | .file_master => ascii "a.db"
    | .file_tmp => ascii "a.db~"
    | _ => []
  ops _ := []

/-- A thread has other calls left, after this change of the arrays. -/
def advance (x : NameSlave) (strings : NameBuffer → dbValue) (t : NameThread)
    (ops : List NameOp) :
    NameSlave :=
  ⟨strings, Function.update x.ops t ops⟩

end NameSlave

namespace NameSystem

variable {n : Nat}

def start : NameSystem n :=
  ⟨fun _ => .initial, none⟩

/-- A thread of a slave goes on. -/
def advance (s : NameSystem n) (i : Fin (n + 1)) (strings : NameBuffer → dbValue) (t : NameThread)
    (ops : List NameOp) : NameSystem n :=
  { s with slave := Function.update s.slave i ((s.slave i).advance strings t ops) }

/-- After an overflow nothing is known. -/
def step (s : NameSystem n) : NameEvent n → Option (NameSystem n)
  | .start i task =>
      if s.overflow.isNone ∧ ((s.slave i).ops task.thread).isEmpty then
        some (s.advance i (s.slave i).strings task.thread task.program)
      else none
  | .run i t peer =>
      if s.overflow.isNone then
        match (s.slave i).ops t with
        | [] => none
        | op :: ops =>
            match exec NameBuffer.size ((s.slave peer).strings .file_master)
              (s.slave i).strings op with
            | none => some { s with overflow := some op.dst }
            | some strings => some (s.advance i strings t ops)
      else none

end NameSystem

namespace NameTask

/-- The longest name that fits everywhere. -/
def maxName : Nat := 86

/-- The main thread does not write what the workers write. -/
def Private (op : NameOp) : Bool :=
  op.dst != .file_master && op.dst != .file_tmp

/-- The bounds between two tasks of the main thread. -/
def bounds : NameBuffer → Nat
  | .file_master => maxName
  | .file_tmp => maxName + THREADS_NUM
  | b => b.size - 1

/-- What the main thread does stays within the arrays. -/
theorem fits_program {task : NameTask} (h : task.thread = .main) :
    fits NameBuffer.size maxName bounds task.program = true ∧
      task.program.all Private = true := by
  cases task with
  | OPEN w name => cases h
  | CLIP_DATA => decide +kernel
  | UPDATE_BACKUP2 => decide +kernel
  | RM_SLAVE back replied =>
      match back with
      | 0 => exact ⟨rfl, rfl⟩
      | 1 =>
          revert replied
          decide +kernel
      | 2 =>
          revert replied
          decide +kernel
      | back + 3 => exact ⟨rfl, rfl⟩
  | UPDATE_BACKUP12 replied₁ replied₂ =>
      revert replied₁ replied₂
      decide +kernel
  | InitialSlave clipped replied₁ replied₂ =>
      revert clipped replied₁ replied₂
      decide +kernel

/-- What is left of an `OPEN`. -/
def Opening (ops : List NameOp) : Prop :=
  ∃ name : dbValue, name.length ≤ maxName ∧ ops <:+ openName name

theorem opening_nil : Opening [] :=
  ⟨[], Nat.zero_le _, List.nil_suffix⟩

/-- The calls of `OPEN`, one by one. -/
theorem opening_cons {op : NameOp} {ops : List NameOp} (h : Opening (op :: ops)) :
    ∃ name : dbValue, name.length ≤ maxName ∧
      (op :: ops = openName name ∨ op :: ops = (openName name).drop 1 ∨
        op :: ops = (openName name).drop 2) := by
  obtain ⟨name, hname, hsuffix⟩ := h
  refine ⟨name, hname, ?_⟩
  rcases List.suffix_cons_iff.mp hsuffix with hfirst | hrest
  · exact Or.inl hfirst
  · rcases List.suffix_cons_iff.mp hrest with hsecond | hrest
    · exact Or.inr (Or.inl hsecond)
    · rcases List.suffix_cons_iff.mp hrest with hthird | hnil
      · exact Or.inr (Or.inr hthird)
      · cases List.suffix_nil.mp hnil

/-- A `~` is to be written next. -/
def tilde (ops : List NameOp) : Nat :=
  if ops.length = 1 then 1 else 0

theorem tilde_le (ops : List NameOp) : tilde ops ≤ 1 := by
  rw [tilde]
  split
  · exact le_rfl
  · exact Nat.zero_le 1

end NameTask

namespace NameSlave

open NameTask

variable {x : NameSlave}

@[simp] theorem advance_strings (strings : NameBuffer → dbValue) (t : NameThread)
    (ops : List NameOp) : (x.advance strings t ops).strings = strings :=
  rfl

@[simp] theorem advance_ops_self (strings : NameBuffer → dbValue) (t : NameThread)
    (ops : List NameOp) : (x.advance strings t ops).ops t = ops := by
  rw [advance]
  exact Function.update_self t ops x.ops

theorem advance_ops_of_ne (strings : NameBuffer → dbValue) {t t' : NameThread} (h : t' ≠ t)
    (ops : List NameOp) : (x.advance strings t ops).ops t' = x.ops t' := by
  rw [advance]
  exact Function.update_of_ne h ops x.ops

/-- The workers that write a `~` next. -/
def tildes (x : NameSlave) : Nat :=
  ∑ w, tilde (x.ops (.worker w))

theorem tildes_le (x : NameSlave) : x.tildes ≤ THREADS_NUM := by
  have hsum : x.tildes ≤ Finset.univ.card (α := Fin THREADS_NUM) • 1 :=
    Finset.sum_le_card_nsmul _ _ 1 fun w _ => tilde_le _
  rw [Finset.card_fin, smul_eq_mul, Nat.mul_one] at hsum
  exact hsum

/-- One worker goes on. -/
theorem tildes_advance (x : NameSlave) (strings : NameBuffer → dbValue) (w : Fin THREADS_NUM)
    (ops : List NameOp) :
    (x.advance strings (.worker w) ops).tildes + tilde (x.ops (.worker w)) =
      x.tildes + tilde ops := by
  have hothers : ∑ v ∈ Finset.univ.erase w,
    tilde ((x.advance strings (.worker w) ops).ops (.worker v)) =
      ∑ v ∈ Finset.univ.erase w, tilde (x.ops (.worker v)) := by
    refine Finset.sum_congr rfl fun v hv => ?_
    have hne : NameThread.worker v ≠ .worker w :=
      fun heq => Finset.ne_of_mem_erase hv (NameThread.worker.inj heq)
    rw [advance_ops_of_ne strings hne]
  rw [tildes, tildes, ← Finset.add_sum_erase _ _ (Finset.mem_univ w),
    ← Finset.add_sum_erase _ (fun v => tilde (x.ops (.worker v))) (Finset.mem_univ w), hothers,
    advance_ops_self]
  omega

/-- The main thread goes on. -/
theorem tildes_advance_main (x : NameSlave) (strings : NameBuffer → dbValue) (ops : List NameOp) :
    (x.advance strings .main ops).tildes = x.tildes :=
  rfl

/-- The main thread can go on within the bounds. -/
def MainFits (strings : NameBuffer → dbValue) (ops : List NameOp) : Prop :=
  ∃ lengths : NameBuffer → Nat, Bounded lengths strings ∧
    lengths .file_master = maxName ∧ lengths .file_tmp = maxName + THREADS_NUM ∧
    fits NameBuffer.size maxName lengths ops = true ∧ ops.all Private = true

/-- The bounds between the calls. -/
structure Fitting (x : NameSlave) : Prop where
  lt_size : ∀ b, (x.strings b).length < b.size
  master_le : (x.strings .file_master).length ≤ maxName
  tmp_le : (x.strings .file_tmp).length + x.tildes ≤ maxName + THREADS_NUM
  workers : ∀ w, Opening (x.ops (.worker w))
  main : MainFits x.strings (x.ops .main)

theorem fitting_initial : initial.Fitting := by
  refine ⟨?_, by decide, by decide, fun _ => opening_nil, bounds, ?_, rfl, rfl, rfl, rfl⟩
  · intro b
    cases b with
    | filepath k => exact Nat.zero_lt_succ _
    | _ => decide
  · intro b
    cases b with
    | filepath k => exact Nat.zero_le _
    | _ => decide

theorem Fitting.bounded (h : x.Fitting) : Bounded bounds x.strings := by
  intro b
  cases b with
  | file_master => exact h.master_le
  | file_tmp => exact Nat.le_of_add_right_le h.tmp_le
  | _ => exact Nat.le_sub_one_of_lt (h.lt_size _)

/-- The main thread gets a task. -/
theorem Fitting.start_main (h : x.Fitting) {task : NameTask} (htask : task.thread = .main) :
    (x.advance x.strings .main task.program).Fitting := by
  obtain ⟨hfits, hprivate⟩ := fits_program htask
  refine ⟨h.lt_size, h.master_le, h.tmp_le, fun w => h.workers w, ?_⟩
  rw [advance_strings, advance_ops_self]
  exact ⟨bounds, h.bounded, rfl, rfl, hfits, hprivate⟩

/-- **A call of the main thread** stays within the arrays. -/
theorem Fitting.run_main (h : x.Fitting) {op : NameOp} {ops : List NameOp}
    (hops : x.ops .main = op :: ops) {received : dbValue}
    (hreceived : received.length ≤ maxName) :
    ∃ strings, exec NameBuffer.size received x.strings op = some strings ∧
      (x.advance strings .main ops).Fitting := by
  obtain ⟨lengths, hbounded, hmaster, htmp, hfits, hprivate⟩ := h.main
  rw [hops] at hfits hprivate
  obtain ⟨hroom, hfits⟩ := Bool.and_eq_true_iff.mp hfits
  obtain ⟨hop, hprivate⟩ := Bool.and_eq_true_iff.mp hprivate
  obtain ⟨hne, hne'⟩ := Bool.and_eq_true_iff.mp hop
  have hmaster_ne : NameBuffer.file_master ≠ op.dst := (bne_iff_ne.mp hne).symm
  have htmp_ne : NameBuffer.file_tmp ≠ op.dst := (bne_iff_ne.mp hne').symm
  obtain ⟨strings, hexec, hnext⟩ := exec_of_fits hbounded hreceived (of_decide_eq_true hroom)
  refine ⟨strings, hexec, exec_lt_size hexec h.lt_size, ?_, ?_, fun w => h.workers w, ?_⟩
  · have hframe : strings .file_master = x.strings .file_master := exec_frame hexec hmaster_ne
    rw [advance_strings, hframe]
    exact h.master_le
  · have hframe : strings .file_tmp = x.strings .file_tmp := exec_frame hexec htmp_ne
    rw [tildes_advance_main, advance_strings, hframe]
    exact h.tmp_le
  · rw [advance_strings, advance_ops_self]
    refine ⟨op.next maxName lengths, hnext, ?_, ?_, hfits, hprivate⟩
    · rw [next_of_ne hmaster_ne, hmaster]
    · rw [next_of_ne htmp_ne, htmp]

/-- A worker has changed the names at most. -/
theorem Fitting.of_worker (h : x.Fitting) {strings : NameBuffer → dbValue} {w : Fin THREADS_NUM}
    {ops : List NameOp}
    (hframe : ∀ b, b ≠ .file_master → b ≠ .file_tmp → strings b = x.strings b)
    (hmaster : (strings .file_master).length ≤ maxName) (hops : Opening ops)
    (htmp : (strings .file_tmp).length + (x.advance strings (.worker w) ops).tildes ≤
      maxName + THREADS_NUM) :
    (x.advance strings (.worker w) ops).Fitting := by
  have htmp_le : (strings .file_tmp).length ≤ maxName + THREADS_NUM := Nat.le_of_add_right_le htmp
  refine ⟨?_, hmaster, htmp, ?_, ?_⟩
  · intro b
    rw [advance_strings]
    by_cases hb : b = .file_master
    · rw [hb]
      exact lt_of_le_of_lt hmaster (by decide)
    · by_cases hb' : b = .file_tmp
      · rw [hb']
        exact lt_of_le_of_lt htmp_le (by decide)
      · rw [hframe b hb hb']
        exact h.lt_size b
  · intro v
    by_cases hv : v = w
    · rw [hv, advance_ops_self]
      exact hops
    · rw [advance_ops_of_ne strings fun heq => hv (NameThread.worker.inj heq)]
      exact h.workers v
  · obtain ⟨lengths, hbounded, hlength, hlength', hfits⟩ := h.main
    refine ⟨lengths, ?_, hlength, hlength', hfits⟩
    intro b
    rw [advance_strings]
    by_cases hb : b = .file_master
    · rw [hb, hlength]
      exact hmaster
    · by_cases hb' : b = .file_tmp
      · rw [hb', hlength']
        exact htmp_le
      · rw [hframe b hb hb']
        exact hbounded b

/-- A worker gets an `OPEN`. -/
theorem Fitting.start_worker (h : x.Fitting) {w : Fin THREADS_NUM} (hidle : x.ops (.worker w) = [])
    {name : dbValue} (hname : name.length ≤ maxName) :
    (x.advance x.strings (.worker w) (openName name)).Fitting := by
  have htildes := x.tildes_advance x.strings w (openName name)
  rw [hidle] at htildes
  have hsame : (x.advance x.strings (.worker w) (openName name)).tildes = x.tildes := htildes
  refine h.of_worker (fun _ _ _ => rfl) h.master_le ⟨name, hname, List.suffix_rfl⟩ ?_
  rw [hsame]
  exact h.tmp_le

/-- **A call of a worker** stays within the arrays. -/
theorem Fitting.run_worker (h : x.Fitting) {w : Fin THREADS_NUM} {op : NameOp} {ops : List NameOp}
    (hops : x.ops (.worker w) = op :: ops) (received : dbValue) :
    ∃ strings, exec NameBuffer.size received x.strings op = some strings ∧
      (x.advance strings (.worker w) ops).Fitting := by
  have hopening := h.workers w
  rw [hops] at hopening
  obtain ⟨name, hname, hop⟩ := opening_cons hopening
  have hrest : Opening ops := by
    obtain ⟨name, hname, hsuffix⟩ := hopening
    exact ⟨name, hname, (List.suffix_cons op ops).trans hsuffix⟩
  have htmp := h.tmp_le
  rcases hop with hfirst | hsecond | hthird
  · -- `strcpy(file_master, ..)`
    obtain ⟨rfl, rfl⟩ := List.cons.inj hfirst
    have hroom : name.length < NameBuffer.file_master.size := lt_of_le_of_lt hname (by decide)
    refine ⟨_, write_eq_some.mpr ⟨hroom, rfl⟩, h.of_worker ?_ ?_ hrest ?_⟩
    · intro b hb _
      exact Function.update_of_ne hb ..
    · rw [Function.update_self]
      exact hname
    · have htildes := x.tildes_advance (Function.update x.strings .file_master name) w
        ((openName name).drop 1)
      rw [hops] at htildes
      have hsame := Nat.add_right_cancel htildes
      have hne : NameBuffer.file_tmp ≠ .file_master := by decide
      rw [Function.update_of_ne hne]
      exact hsame ▸ htmp
  · -- `strcpy(file_tmp, ..)`
    obtain ⟨rfl, rfl⟩ := List.cons.inj hsecond
    have hroom : name.length < NameBuffer.file_tmp.size := lt_of_le_of_lt hname (by decide)
    refine ⟨_, write_eq_some.mpr ⟨hroom, rfl⟩, h.of_worker ?_ ?_ hrest ?_⟩
    · intro b _ hb
      exact Function.update_of_ne hb ..
    · have hne : NameBuffer.file_master ≠ .file_tmp := by decide
      rw [Function.update_of_ne hne]
      exact h.master_le
    · rw [Function.update_self]
      exact Nat.add_le_add hname (tildes_le _)
  · -- `strcat(file_tmp, "~")`
    obtain ⟨rfl, rfl⟩ := List.cons.inj hthird
    have htildes := x.tildes_advance
      (Function.update x.strings .file_tmp (x.strings .file_tmp ++ ascii "~")) w []
    rw [hops] at htildes
    have hlength : (x.strings .file_tmp ++ ascii "~").length = (x.strings .file_tmp).length + 1 :=
      List.length_append
    have hone : tilde ((openName name).drop 2) = 1 := rfl
    have hzero : tilde [] = 0 := rfl
    rw [← hthird] at hone
    rw [hone, hzero, Nat.add_zero] at htildes
    have hroom : (x.strings .file_tmp ++ ascii "~").length < NameBuffer.file_tmp.size := by
      have hsize : maxName + THREADS_NUM < NameBuffer.file_tmp.size := by decide
      omega
    refine ⟨_, write_eq_some.mpr ⟨hroom, rfl⟩, h.of_worker ?_ ?_ hrest ?_⟩
    · intro b _ hb
      exact Function.update_of_ne hb ..
    · have hne : NameBuffer.file_master ≠ .file_tmp := by decide
      rw [Function.update_of_ne hne]
      exact h.master_le
    · rw [Function.update_self]
      have htext : (StringBuffers.Source.text (B := NameBuffer) (ascii "~")).value x.strings =
        ascii "~" := rfl
      rw [htext]
      omega

end NameSlave

namespace NameEvent

variable {n : Nat}

/-- The names of the `OPEN` packets are in a set. -/
def Named (names : Set DBName) : NameEvent n → Prop
  | .start _ (.OPEN _ name) => name ∈ names
  | _ => True

theorem named_run {names : Set DBName} (i : Fin (n + 1)) (t : NameThread) (peer : Fin (n + 1)) :
    Named names (.run i t peer) :=
  trivial

end NameEvent

namespace NameSystem

open NameTask

variable {n : Nat} {s s' : NameSystem n} {names : Set DBName}

section Steps

variable {i peer : Fin (n + 1)} {t : NameThread} {task : NameTask} {op : NameOp} {ops : List NameOp}
  {strings : NameBuffer → dbValue}

@[simp] theorem advance_slave_self :
    (s.advance i strings t ops).slave i = (s.slave i).advance strings t ops := by
  rw [advance]
  exact Function.update_self i _ s.slave

theorem advance_slave_of_ne {j : Fin (n + 1)} (h : j ≠ i) :
    (s.advance i strings t ops).slave j = s.slave j := by
  rw [advance]
  exact Function.update_of_ne h _ s.slave

theorem step_start_eq_some : s.step (.start i task) = some s' ↔
    s.overflow = none ∧ (s.slave i).ops task.thread = [] ∧
      s' = s.advance i (s.slave i).strings task.thread task.program := by
  rw [step, Option.ite_none_right_eq_some, Option.isNone_iff_eq_none, List.isEmpty_iff, and_assoc,
    Option.some.injEq, eq_comm (b := s')]

/-- A call that overflows. -/
theorem step_run_none (hnone : s.overflow = none) (hops : (s.slave i).ops t = op :: ops)
    (hexec : exec NameBuffer.size ((s.slave peer).strings .file_master) (s.slave i).strings op =
      none) :
    s.step (.run i t peer) = some { s with overflow := some op.dst } := by
  rw [step, if_pos (Option.isNone_iff_eq_none.mpr hnone), hops]
  simp only [hexec]

/-- A call that does not. -/
theorem step_run_some (hnone : s.overflow = none) (hops : (s.slave i).ops t = op :: ops)
    (hexec : exec NameBuffer.size ((s.slave peer).strings .file_master) (s.slave i).strings op =
      some strings) :
    s.step (.run i t peer) = some (s.advance i strings t ops) := by
  rw [step, if_pos (Option.isNone_iff_eq_none.mpr hnone), hops]
  simp only [hexec]

/-- What a call does. -/
theorem step_run (h : s.step (.run i t peer) = some s') :
    s.overflow = none ∧ ∃ op ops, (s.slave i).ops t = op :: ops ∧
      (exec NameBuffer.size ((s.slave peer).strings .file_master) (s.slave i).strings op = none ∨
        ∃ strings, exec NameBuffer.size ((s.slave peer).strings .file_master)
          (s.slave i).strings op = some strings ∧ s' = s.advance i strings t ops) := by
  have hnone : s.overflow = none := by
    rw [step, Option.ite_none_right_eq_some] at h
    exact Option.isNone_iff_eq_none.mp h.1
  refine ⟨hnone, ?_⟩
  cases hops : (s.slave i).ops t with
  | nil =>
      rw [step, if_pos (Option.isNone_iff_eq_none.mpr hnone), hops] at h
      cases h
  | cons op ops =>
      refine ⟨op, ops, rfl, ?_⟩
      cases hexec : exec NameBuffer.size ((s.slave peer).strings .file_master)
        (s.slave i).strings op with
      | none => exact Or.inl rfl
      | some strings =>
          rw [step_run_some hnone hops hexec] at h
          exact Or.inr ⟨strings, rfl, (Option.some.inj h).symm⟩

end Steps

/-- The invariant of a run with short names. -/
def Fitting (s : NameSystem n) : Prop :=
  s.overflow = none ∧ ∀ i, (s.slave i).Fitting

theorem fitting_start : (start : NameSystem n).Fitting :=
  ⟨rfl, fun _ => NameSlave.fitting_initial⟩

/-- One slave goes on. -/
theorem Fitting.advance (h : s.Fitting) {i : Fin (n + 1)} {strings : NameBuffer → dbValue}
    {t : NameThread} {ops : List NameOp} (hslave : ((s.slave i).advance strings t ops).Fitting) :
    (s.advance i strings t ops).Fitting := by
  refine ⟨h.1, fun j => ?_⟩
  by_cases hj : j = i
  · rw [hj, advance_slave_self]
    exact hslave
  · rw [advance_slave_of_ne hj]
    exact h.2 j

/-- **Every step stays within the arrays**, as long as the names are short. -/
theorem fitting_step (hnames : ∀ name ∈ names, name.chars.length ≤ maxName) (h : s.Fitting)
    {e : NameEvent n} (he : e.Named names) (hstep : s.step e = some s') : s'.Fitting := by
  cases e with
  | start i task =>
      obtain ⟨-, hidle, rfl⟩ := step_start_eq_some.mp hstep
      refine h.advance ?_
      cases task with
      | OPEN w name => exact (h.2 i).start_worker hidle (hnames name he)
      | _ => exact (h.2 i).start_main rfl
  | run i t peer =>
      obtain ⟨-, op, ops, hops, hexec⟩ := step_run hstep
      have hreceived := (h.2 peer).master_le
      have hgoes : ∃ strings, exec NameBuffer.size ((s.slave peer).strings .file_master)
          (s.slave i).strings op = some strings ∧
            ((s.slave i).advance strings t ops).Fitting := by
        cases t with
        | main => exact (h.2 i).run_main hops hreceived
        | worker w => exact (h.2 i).run_worker hops _
      obtain ⟨strings, hsome, hfitting⟩ := hgoes
      rcases hexec with hnone | ⟨strings', hsome', rfl⟩
      · rw [hsome] at hnone
        cases hnone
      · rw [hsome] at hsome'
        obtain rfl := Option.some.inj hsome'
        exact h.advance hfitting

/-- The states of the runs in which the clients open databases with these names. -/
def Reached (names : Set DBName) (s : NameSystem n) : Prop :=
  ∃ es : List (NameEvent n), (∀ e ∈ es, e.Named names) ∧ run step start es = some s

theorem Reached.fitting (h : Reached names s)
    (hnames : ∀ name ∈ names, name.chars.length ≤ maxName) : s.Fitting := by
  obtain ⟨es, hnamed, hrun⟩ := h
  exact run_invariant_of_allSteps (fun _ e => e.Named names) Fitting
    (fun _ _ _ h he hstep => fitting_step hnames h he hstep) (allSteps_of_forall_mem _ hnamed) hrun
    fitting_start

theorem Reached.step (h : Reached names s) {e : NameEvent n} (he : e.Named names)
    (hstep : s.step e = some s') : Reached names s' := by
  obtain ⟨es, hnamed, hrun⟩ := h
  refine ⟨es ++ [e], List.forall_mem_append.mpr ⟨hnamed, List.forall_mem_singleton.mpr he⟩,
    ?_⟩
  rw [run_append, hrun]
  exact run_cons_eq_some.mpr ⟨s', hstep, rfl⟩

/-- Without overflows a thread can do all its calls. -/
theorem Reached.finish (hsafe : ∀ s : NameSystem n, Reached names s → s.overflow = none)
    {i : Fin (n + 1)} {t : NameThread} {ops : List NameOp} (h : Reached names s)
    (hops : (s.slave i).ops t = ops) :
    ∃ s', Reached names s' ∧
      Executes NameBuffer.size (s.slave i).strings ops (s'.slave i).strings ∧
      ∀ t', t' ≠ t → (s'.slave i).ops t' = (s.slave i).ops t' := by
  induction ops generalizing s with
  | nil => exact ⟨s, h, .nil _, fun _ _ => rfl⟩
  | cons op ops ih =>
      cases hexec : exec NameBuffer.size ((s.slave i).strings .file_master)
        (s.slave i).strings op with
      | none =>
          have hstep := step_run_none (hsafe s h) hops hexec
          have hnone := hsafe _ (h.step (NameEvent.named_run i t i) hstep)
          cases hnone
      | some strings =>
          have hstep := step_run_some (hsafe s h) hops hexec
          have hslave : (s.advance i strings t ops).slave i = (s.slave i).advance strings t ops :=
            advance_slave_self
          have hrest : ((s.advance i strings t ops).slave i).ops t = ops := by
            rw [hslave, NameSlave.advance_ops_self]
          obtain ⟨s', hreached, hexecutes, hothers⟩ := 
            ih (h.step (NameEvent.named_run i t i) hstep) hrest
          rw [hslave] at hexecutes hothers
          refine ⟨s', hreached, .cons hexec hexecutes, fun t' ht' => ?_⟩
          rw [hothers t' ht', NameSlave.advance_ops_of_ne strings ht']

/-- After an `OPEN` the name is in `file_master`. -/
theorem file_master_of_openName {strings strings' : NameBuffer → dbValue} {name : dbValue}
    (h : Executes NameBuffer.size strings (openName name) strings') :
    strings' .file_master = name := by
  rw [openName, executes_strcpy, executes_strcpy, executes_strcat] at h
  obtain ⟨-, -, -, hnil⟩ := h
  cases hnil
  have hne : NameBuffer.file_master ≠ .file_tmp := by decide
  rw [Function.update_of_ne hne, Function.update_of_ne hne, Function.update_self]
  rfl

/-- The path of the backup has to fit into `filename`. -/
theorem length_le_of_rmSlave1 {strings strings' : NameBuffer → dbValue} {replied : Bool}
    (h : Executes NameBuffer.size strings (rmSlave1 replied) strings') :
    (strings .file_master).length ≤ maxName := by
  rw [rmSlave1, List.append_assoc, executes_append] at h
  obtain ⟨m, hpath, -⟩ := h
  rw [executes_strcpy, executes_strcat, executes_strcat, executes_strcat] at hpath
  obtain ⟨-, -, -, hroom, -⟩ := hpath
  have hne : NameBuffer.file_master ≠ .filename := by decide
  simp only [Function.update_self, Function.update_of_ne hne, StringBuffers.Source.value,
    List.length_append] at hroom
  have hpath : BACKUP1_DIR.length + (ascii "//").length + BACKUP_POSTFIX.length + maxName + 1 =
      NameBuffer.filename.size := by decide
  omega

/-- A departure after an `OPEN` needs room for the name. -/
theorem length_le_of_safe (hsafe : ∀ s : NameSystem n, Reached names s → s.overflow = none)
    {name : DBName} (hname : name ∈ names) : name.chars.length ≤ maxName := by
  have hstart : Reached names (start : NameSystem n) := ⟨[], List.forall_mem_nil _, rfl⟩
  have hopen : (start : NameSystem n).step (.start 0 (.OPEN 0 name)) = some _ :=
    step_start_eq_some.mpr ⟨rfl, rfl, rfl⟩
  have hnamed : (NameEvent.start (0 : Fin (n + 1)) (.OPEN 0 name)).Named names := hname
  have hopening : (((start : NameSystem n).advance 0 NameSlave.initial.strings (.worker 0)
      (openName name.chars)).slave 0).ops (.worker 0) = openName name.chars := by
    rw [advance_slave_self, NameSlave.advance_ops_self]
  obtain ⟨s, hreached, hexecutes, hothers⟩ := (hstart.step hnamed hopen).finish hsafe hopening
  rw [advance_slave_self] at hexecutes hothers
  have hmain : NameThread.main ≠ .worker 0 := by decide
  have hidle : (s.slave 0).ops .main = [] := hothers .main hmain
  have hremove : s.step (.start 0 (.RM_SLAVE 1 false)) = some _ :=
    step_start_eq_some.mpr ⟨hsafe s hreached, hidle, rfl⟩
  have hnamed' : (NameEvent.start (0 : Fin (n + 1)) (.RM_SLAVE 1 false)).Named names := trivial
  have hremoving : ((s.advance 0 (s.slave 0).strings .main (rmSlave1 false)).slave 0).ops .main =
      rmSlave1 false := by
    rw [advance_slave_self, NameSlave.advance_ops_self]
  obtain ⟨s', -, hexecutes', -⟩ := (hreached.step hnamed' hremove).finish hsafe hremoving
  rw [advance_slave_self] at hexecutes'
  have hle := length_le_of_rmSlave1 hexecutes'
  rw [NameSlave.advance_strings, file_master_of_openName hexecutes] at hle
  exact hle

/-- **No array overflows exactly when all names have at most 86 characters.** -/
theorem safe_iff (n : Nat) (names : Set DBName) :
    (∀ s : NameSystem n, Reached names s → s.overflow = none) ↔
      ∀ name ∈ names, name.chars.length ≤ 86 :=
  ⟨fun hsafe _ hname => length_le_of_safe hsafe hname, fun hnames _ h => (h.fitting hnames).1⟩

section Names

/-- A name of `k` letters. -/
def letters (k : Nat) (h : k + 1 ≤ APPENDSIZE) : DBName where
  chars := List.replicate k 97
  no_nul := fun hmem => absurd (List.eq_of_mem_replicate hmem) (by decide)
  fits := by
    rw [List.length_replicate]
    exact h

/-- The longest name is too long for `file_master`, and one of 87 characters for the path
in `RM_SLAVE`. -/
theorem overflows :
    (∃ s : NameSystem 0, Reached {letters 1007 (by decide)} s ∧
      s.overflow = some .file_master) ∧
      (∃ s : NameSystem 0, Reached {letters 87 (by decide)} s ∧ s.overflow = some .filename) ∧
      ¬ ∀ s : NameSystem 0, Reached Set.univ s → s.overflow = none := by
  have hmaster : (run step (start : NameSystem 0) [.start 0 (.OPEN 0 (letters 1007 (by decide))),
      .run 0 (.worker 0) 0]).map overflow = some (some .file_master) := by
    decide +kernel
  have hfilename : (run step (start : NameSystem 0) [.start 0 (.OPEN 0 (letters 87 (by decide))),
      .run 0 (.worker 0) 0, .run 0 (.worker 0) 0, .run 0 (.worker 0) 0,
      .start 0 (.RM_SLAVE 1 false), .run 0 .main 0, .run 0 .main 0, .run 0 .main 0,
      .run 0 .main 0]).map overflow = some (some .filename) := by
    decide +kernel
  obtain ⟨s, hrun, hoverflow⟩ := Option.map_eq_some_iff.mp hmaster
  obtain ⟨s', hrun', hoverflow'⟩ := Option.map_eq_some_iff.mp hfilename
  refine ⟨⟨s, ⟨_, ?_, hrun⟩, hoverflow⟩, ⟨s', ⟨_, ?_, hrun'⟩, hoverflow'⟩,
    fun hsafe => ?_⟩
  · simp [NameEvent.Named]
  · simp [NameEvent.Named]
  · have hnone := hsafe s ⟨_, by simp [NameEvent.Named], hrun⟩
    rw [hoverflow] at hnone
    cases hnone

end Names

end NameSystem

end DistributedDB
