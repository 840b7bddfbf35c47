import DistributedDB.Library.Interleaving
import DistributedDB.Slave

/-!
# The cluster, one operation at a time

The master's list and all slave processes, with every operation run to
completion before the next.  A process is found by the address that the acting
slave's own list gives, as in the code.

Client `SET` and `DEL`, the refresh of one slave (`UPDATE_BACKUP12`), the
master's periodic tick (`UpdateBackup`), and the registration of a slave
(`ADD_SLAVE`, the notifications and `InitialSlave`) are functions.  In the
departure of a slave the survivors work after their reply while the master goes
on notifying, so its steps are run by a schedule: any interleaving in which each
survivor keeps its own order.

**Results.**
* `Cluster.Wf`: the invariant between operations.  Master and slaves agree on
  the list, positions are right, and no temporary file is left.
* `Wf.slaveAt_updateBackup`: a tick changes only the backups of one slave.
* `Wf.fullyReplicated_round`: after a full round of ticks every slave holds copies
  of the primaries of its two successors.
-/

namespace DistributedDB

open PartialMap Interleaving RingIndex

structure Cluster where
  /-- The master's list. -/
  slaves : SlaveList
  /-- The slave process that listens at an address. -/
  procs : Addr → Slave
  /-- The static variable `pos` of `UpdateBackup`. -/
  backupPos : Nat

namespace Cluster

/-- The address of node `i` in the master's list. -/
def addr (c : Cluster) (i : Nat) : Addr :=
  (c.slaves.node i).addr

/-- The slave process of node `i`. -/
def slaveAt (c : Cluster) (i : Nat) : Slave :=
  c.procs (c.addr i)

/-- The files of node `i`. -/
def diskAt (c : Cluster) (i : Nat) : Disk :=
  (c.slaveAt i).disk

/-- The primary file of node `i`. -/
def primary (c : Cluster) (i : Nat) : HDB :=
  (c.diskAt i).file_master

def setProc (c : Cluster) (a : Addr) (s : Slave) : Cluster :=
  { c with procs := Function.update c.procs a s }

/-- The address that `CommunicateToSlave(k, ..)` connects to. -/
def peer (c : Cluster) (a : Addr) (k : Int) : Option Addr :=
  ((c.procs a).hisPos k).map (fun i => ((c.procs a).slaves.node i).addr)

/-- `BackupForOtherSlave(k)`: fetch the primary of the `k`-th successor. -/
def backupForOtherSlave (c : Cluster) (a : Addr) (k : Nat) : Cluster :=
  match c.peer a k with
  | none => c
  | some b => c.setProc a ((c.procs a).recvFile k (c.procs b).disk.file_master)

/-- `UPDATE_BACKUP12`. -/
def updateBackup12 (c : Cluster) (a : Addr) : Cluster :=
  (c.backupForOtherSlave a 1).backupForOtherSlave a 2

/-- `UpdateBackup`, the master's SIGALRM handler. -/
def updateBackup (c : Cluster) : Cluster :=
  let pos := (c.backupPos + 1) % c.slaves.num
  { c.updateBackup12 (c.addr pos) with backupPos := pos }

/-- `n` ticks in a row. -/
def ticks (c : Cluster) : Nat → Cluster
  | 0 => c
  | n + 1 => (c.ticks n).updateBackup

/-- A client's `SET`, sent to the slave that `GetSocket` selects. -/
def clientSet (c : Cluster) (key : dbKey) (value : dbValue) : Option Cluster :=
  (getSocket c.slaves key).map fun i =>
    c.setProc (c.addr i) ((c.slaveAt i).setKeyValue key value)

/-- A client's `DEL`. -/
def clientDel (c : Cluster) (key : dbKey) : Option Cluster :=
  (getSocket c.slaves key).map fun i =>
    c.setProc (c.addr i) ((c.slaveAt i).delKeyValue key)

/-- What a client reads: the primary of the slave that `GetSocket` selects. -/
def clientGet (c : Cluster) (key : dbKey) : Option dbValue :=
  match getSocket c.slaves key with
  | some i => contents (c.slaveAt i).disk.file_master key
  | none => none

/-- The loop of `NotifyAll(newpos, NEW_SLAVE, ..)`, with each slave's handling. -/
def notifyNewSlave (c : Cluster) (newpos : Nat) : Cluster :=
  (List.range c.slaves.num).foldl
    (fun c' i =>
      if i = newpos then c'
      else c'.setProc (c.addr i)
        ((c'.procs (c.addr i)).newSlave newpos (c.slaves.node newpos)))
    c

/-- `ClipDataFromPre`: the predecessor splits its primary and sends the part. -/
def clipDataFromPre (c : Cluster) (a : Addr) : Cluster :=
  match c.peer a (-1) with
  | none => c
  | some b =>
      let r := (c.procs b).clipData
      (c.setProc b r.1).setProc a (((c.setProc b r.1).procs a).recvFile 0 r.2)

/-- `Notify2ndPreUpdateBackup2`. -/
def notify2ndPreUpdateBackup2 (c : Cluster) (a : Addr) : Cluster :=
  match c.peer a (-2) with
  | none => c
  | some b => c.setProc b (c.procs b).updateBackup2

/-- `InitialSlave` of the slave at `a`, after its registration. -/
def initialSlave (c : Cluster) (a : Addr) : Cluster :=
  let num := (c.procs a).slaves.num
  let c := if 1 < num then (c.clipDataFromPre a).backupForOtherSlave a 1 else c
  if 2 < num then (c.notify2ndPreUpdateBackup2 a).backupForOtherSlave a 2 else c

/-- A slave registers as `sn` and initialises itself; `disk` is what it finds in
its directory. -/
def join (c : Cluster) (sn : SlaveNode) (rand : Nat) (disk : Disk) : Cluster :=
  let r := addToSlaveList c.slaves sn rand
  let c := { c with slaves := r.1 }.notifyNewSlave r.2
  (c.setProc sn.addr ⟨r.1, r.2, disk⟩).initialSlave sn.addr

end Cluster

/-- The three stages of a survivor's handling of `RM_SLAVE`: up to the reply, the
work on its own files, and `BackupForOtherSlave(2)`. -/
inductive RmStage where
  | reply
  | merge
  | fetch
deriving DecidableEq, Repr

/-- One stage of the survivor at node `slave` of the list before the departure. -/
structure RmStep where
  slave : Nat
  stage : RmStage
deriving DecidableEq, Repr

namespace Cluster

/-- One stage of the handling of `RM_SLAVE(rmpos)`. -/
def rmStep (rmpos : Nat) (c : Cluster) (e : RmStep) : Cluster :=
  let a := c.addr e.slave
  let s := c.procs a
  match e.stage with
  | .reply => c.setProc a (s.rmSlave rmpos)
  | .merge => c.setProc a (s.mergeFiles rmpos)
  | .fetch =>
      if s.isPredecessor rmpos || s.isSecondPredecessor rmpos then
        c.backupForOtherSlave a 2
      else c

/-- The stages that the schedule runs at one survivor, in order. -/
def stagesAt (sched : List RmStep) (i : Nat) : List RmStage :=
  (history RmStep.slave sched i).map RmStep.stage

/-- A schedule of the departure of node `rmpos`: every survivor, and no one
else, runs its three stages in order. -/
def IsSchedule (num rmpos : Nat) (sched : List RmStep) : Prop :=
  (∀ e ∈ sched, e.slave < num ∧ e.slave ≠ rmpos) ∧
    ∀ i, i < num → i ≠ rmpos → stagesAt sched i = [.reply, .merge, .fetch]

instance (num rmpos : Nat) (sched : List RmStep) :
    Decidable (IsSchedule num rmpos sched) := by
  unfold IsSchedule
  infer_instance

/-- The schedule in which one survivor after the other runs all its stages. -/
def oneByOne (num rmpos : Nat) : List RmStep :=
  ((List.range num).filter (fun i => i != rmpos)).flatMap
    (fun i => [⟨i, .reply⟩, ⟨i, .merge⟩, ⟨i, .fetch⟩])

/-- Node `rmpos` leaves; the master updates its own list last. -/
def leave (c : Cluster) (rmpos : Nat) (sched : List RmStep) : Cluster :=
  { sched.foldl (rmStep rmpos) c with slaves := delFromSlaveList c.slaves rmpos }

/-- What holds between operations. -/
structure Wf (c : Cluster) : Prop where
  ring : RingInv c.slaves
  addr_inj : ∀ i j, i < c.slaves.num → j < c.slaves.num → c.addr i = c.addr j → i = j
  slaves_eq : ∀ i, i < c.slaves.num → (c.slaveAt i).slaves = c.slaves
  pos_eq : ∀ i, i < c.slaves.num → (c.slaveAt i).pos = i
  tmp_none : ∀ i, i < c.slaves.num → (c.slaveAt i).disk.file_tmp = none

end Cluster

section Updates

variable (c : Cluster)

@[simp] theorem addr_setProc (a : Addr) (s : Slave) (i : Nat) :
    (c.setProc a s).addr i = c.addr i := rfl

@[simp] theorem procs_setProc_self (a : Addr) (s : Slave) :
    (c.setProc a s).procs a = s := by
  simp [Cluster.setProc]

theorem procs_setProc_of_ne {a b : Addr} (h : b ≠ a) (s : Slave) :
    (c.setProc a s).procs b = c.procs b := by
  simp [Cluster.setProc, h]

theorem procs_setProc (a b : Addr) (s : Slave) :
    (c.setProc a s).procs b = if b = a then s else c.procs b := by
  simp [Cluster.setProc, Function.update_apply]

@[simp] theorem slaves_backupForOtherSlave (a : Addr) (k : Nat) :
    (c.backupForOtherSlave a k).slaves = c.slaves := by
  unfold Cluster.backupForOtherSlave
  split <;> rfl

/-- Fetching a backup changes no other process. -/
theorem procs_backupForOtherSlave_of_ne {a b : Addr} (h : b ≠ a) (k : Nat) :
    (c.backupForOtherSlave a k).procs b = c.procs b := by
  unfold Cluster.backupForOtherSlave
  split
  · rfl
  · exact procs_setProc_of_ne c h _

/-- The process that fetches a backup. -/
theorem procs_backupForOtherSlave_self (a : Addr) (k : Nat) :
    (c.backupForOtherSlave a k).procs a =
      match c.peer a k with
      | none => c.procs a
      | some b => (c.procs a).recvFile k (c.procs b).disk.file_master := by
  unfold Cluster.backupForOtherSlave
  cases c.peer a k with
  | none => rfl
  | some b => simp

end Updates

namespace Cluster

section Wf

variable {c : Cluster}

theorem Wf.addr_ne (h : c.Wf) {i j : Nat}
    (hi : i < c.slaves.num) (hj : j < c.slaves.num) (hij : i ≠ j) :
    c.addr i ≠ c.addr j :=
  fun heq => hij (h.addr_inj i j hi hj heq)

/-- An operation that keeps every slave's list, position and temporary file keeps
the invariant. -/
theorem Wf.of_same_lists (h : c.Wf) {c' : Cluster} (hslaves : c'.slaves = c.slaves)
    (hprocs : ∀ i, i < c.slaves.num →
      (c'.slaveAt i).slaves = (c.slaveAt i).slaves ∧
      (c'.slaveAt i).pos = (c.slaveAt i).pos ∧
      (c'.slaveAt i).disk.file_tmp = (c.slaveAt i).disk.file_tmp) :
    c'.Wf where
  ring := hslaves ▸ h.ring
  addr_inj := by
    intro i j hi hj hij
    simp only [addr, hslaves] at hi hj hij
    exact h.addr_inj i j hi hj hij
  slaves_eq := by
    intro i hi
    rw [hslaves] at hi
    rw [(hprocs i hi).1, h.slaves_eq i hi, hslaves]
  pos_eq := by
    intro i hi
    rw [hslaves] at hi
    rw [(hprocs i hi).2.1, h.pos_eq i hi]
  tmp_none := by
    intro i hi
    rw [hslaves] at hi
    rw [(hprocs i hi).2.2, h.tmp_none i hi]

/-- Replacing one slave's process. -/
theorem Wf.slaveAt_setProc (h : c.Wf) {i j : Nat} (hi : i < c.slaves.num)
    (hj : j < c.slaves.num) (s : Slave) :
    (c.setProc (c.addr i) s).slaveAt j = if j = i then s else c.slaveAt j := by
  simp only [slaveAt, addr_setProc, procs_setProc]
  rcases eq_or_ne j i with rfl | hne
  · rw [if_pos rfl, if_pos rfl]
  · rw [if_neg (h.addr_ne hj hi hne), if_neg hne]

/-- The address of the slave `k` places further in the ring. -/
theorem Wf.peer_add (h : c.Wf) {i : Nat} (hi : i < c.slaves.num) (k : Nat) :
    c.peer (c.addr i) (k : Int) =
      if (i + k) % c.slaves.num = i then none
      else some (c.addr ((i + k) % c.slaves.num)) := by
  have hslaves := h.slaves_eq i hi
  have hpos := h.pos_eq i hi
  simp only [slaveAt] at hslaves hpos
  simp only [peer, Slave.hisPos, hslaves, hpos, relPos_add]
  split <;> simp [addr]

/-- What a fetch of the `k`-th successor's primary does to every slave. -/
theorem Wf.slaveAt_backupForOtherSlave (h : c.Wf) {i j : Nat}
    (hi : i < c.slaves.num) (hj : j < c.slaves.num) (k : Nat) :
    (c.backupForOtherSlave (c.addr i) k).slaveAt j =
      if j = i ∧ (i + k) % c.slaves.num ≠ i then
        (c.slaveAt i).recvFile k (c.primary ((i + k) % c.slaves.num))
      else c.slaveAt j := by
  have haddr : (c.backupForOtherSlave (c.addr i) k).slaveAt j =
      (c.backupForOtherSlave (c.addr i) k).procs (c.addr j) := by
    simp [slaveAt, addr]
  rw [haddr]
  rcases eq_or_ne j i with rfl | hne
  · rw [procs_backupForOtherSlave_self, h.peer_add hi k]
    rcases eq_or_ne ((j + k) % c.slaves.num) j with heq | hpeer
    · rw [if_pos heq, if_neg (fun hc => hc.2 heq)]
      rfl
    · rw [if_neg hpeer, if_pos ⟨rfl, hpeer⟩]
      rfl
  · rw [procs_backupForOtherSlave_of_ne c (h.addr_ne hj hi hne), if_neg (fun hc => hne hc.1)]
    rfl

/-- Fetching a backup keeps the invariant. -/
theorem Wf.backupForOtherSlave (h : c.Wf) {i : Nat} (hi : i < c.slaves.num) (k : Nat) :
    (c.backupForOtherSlave (c.addr i) k).Wf := by
  refine h.of_same_lists (slaves_backupForOtherSlave c _ k) ?_
  intro j hj
  rw [h.slaveAt_backupForOtherSlave hi hj]
  split
  case isTrue hcond =>
      obtain ⟨rfl, -⟩ := hcond
      simp
  case isFalse => exact ⟨rfl, rfl, rfl⟩

end Wf

section Tick

variable {c : Cluster}

/-- The files of node `i` after its `UPDATE_BACKUP12`. -/
def refreshed (c : Cluster) (i : Nat) : Disk :=
  { c.diskAt i with
    backup1 :=
      if (i + 1) % c.slaves.num = i then (c.diskAt i).backup1
      else some (c.primary ((i + 1) % c.slaves.num))
    backup2 :=
      if (i + 2) % c.slaves.num = i then (c.diskAt i).backup2
      else some (c.primary ((i + 2) % c.slaves.num)) }

@[simp] theorem slaves_updateBackup12 (a : Addr) :
    (c.updateBackup12 a).slaves = c.slaves := by
  simp [updateBackup12]

/-- `UPDATE_BACKUP12` renews the backups of the slave that handles it and changes
nothing else. -/
theorem Wf.slaveAt_updateBackup12 (h : c.Wf) {i j : Nat}
    (hi : i < c.slaves.num) (hj : j < c.slaves.num) :
    (c.updateBackup12 (c.addr i)).slaveAt j =
      if j = i then { c.slaveAt i with disk := c.refreshed i } else c.slaveAt j := by
  have hwf := h.backupForOtherSlave hi 1
  have hnum : (c.backupForOtherSlave (c.addr i) 1).slaves.num = c.slaves.num := by simp
  have haddr : (c.backupForOtherSlave (c.addr i) 1).addr i = c.addr i := by
    simp [addr]
  have hmod : ∀ k, (i + k) % c.slaves.num < c.slaves.num :=
    fun k => Nat.mod_lt _ (by omega)
  have hsecond := hwf.slaveAt_backupForOtherSlave (i := i) (j := j)
    (by rw [hnum]; exact hi) (by rw [hnum]; exact hj) 2
  rw [haddr, hnum] at hsecond
  have hprimary : (c.backupForOtherSlave (c.addr i) 1).primary ((i + 2) % c.slaves.num) =
      c.primary ((i + 2) % c.slaves.num) := by
    simp only [primary, diskAt]
    rw [h.slaveAt_backupForOtherSlave hi (hmod 2)]
    split
    case isTrue hcond =>
        rw [file_master_recvFile_backup _ (by decide), hcond.1]
    case isFalse => rfl
  rw [updateBackup12, hsecond, hprimary, h.slaveAt_backupForOtherSlave hi hi,
    h.slaveAt_backupForOtherSlave hi hj]
  rcases eq_or_ne j i with rfl | hne
  · simp only [refreshed, true_and, if_true, diskAt]
    by_cases h1 : (j + 1) % c.slaves.num = j <;>
      by_cases h2 : (j + 2) % c.slaves.num = j <;>
      simp [h1, h2, Slave.recvFile]
  · simp [hne]

theorem Wf.updateBackup12 (h : c.Wf) {i : Nat} (hi : i < c.slaves.num) :
    (c.updateBackup12 (c.addr i)).Wf := by
  refine h.of_same_lists (slaves_updateBackup12 _) ?_
  intro j hj
  rw [h.slaveAt_updateBackup12 hi hj]
  split
  case isTrue hcond =>
      subst hcond
      exact ⟨rfl, rfl, rfl⟩
  case isFalse => exact ⟨rfl, rfl, rfl⟩

/-- The slave whose turn the next tick is. -/
def nextTurn (c : Cluster) : Nat :=
  (c.backupPos + 1) % c.slaves.num

@[simp] theorem slaves_updateBackup : c.updateBackup.slaves = c.slaves := by
  simp [updateBackup]

@[simp] theorem backupPos_updateBackup : c.updateBackup.backupPos = c.nextTurn := rfl

/-- A tick changes only the backups of the slave whose turn it is. -/
theorem Wf.slaveAt_updateBackup (h : c.Wf) {j : Nat} (hj : j < c.slaves.num) :
    c.updateBackup.slaveAt j =
      if j = c.nextTurn then { c.slaveAt j with disk := c.refreshed j }
      else c.slaveAt j := by
  have hturn : c.nextTurn < c.slaves.num := Nat.mod_lt _ (by omega)
  have hslave : c.updateBackup.slaveAt j =
      (c.updateBackup12 (c.addr c.nextTurn)).slaveAt j := rfl
  rw [hslave, h.slaveAt_updateBackup12 hturn hj]
  split
  case isTrue hcond => rw [hcond]
  case isFalse => rfl

theorem Wf.updateBackup (h : c.Wf) : c.updateBackup.Wf := by
  refine h.of_same_lists slaves_updateBackup ?_
  intro j hj
  rw [h.slaveAt_updateBackup hj]
  split <;> exact ⟨rfl, rfl, rfl⟩

/-- No tick changes a primary. -/
theorem Wf.primary_updateBackup (h : c.Wf) {j : Nat} (hj : j < c.slaves.num) :
    c.updateBackup.primary j = c.primary j := by
  simp only [primary, diskAt]
  rw [h.slaveAt_updateBackup hj]
  split <;> rfl

end Tick

/-- Slave `i` holds the backup `k` that it should: a file with the contents of
the primary of its `k`-th successor, when that is another slave. -/
def HoldsCopy (c : Cluster) (i k : Nat) : Prop :=
  (i + k) % c.slaves.num ≠ i →
    ∃ file, (c.diskAt i).backup k = some file ∧
      contents file = contents (c.primary ((i + k) % c.slaves.num))

/-- Every slave holds both its backups. -/
def FullyReplicated (c : Cluster) : Prop :=
  ∀ i, i < c.slaves.num → c.HoldsCopy i 1 ∧ c.HoldsCopy i 2

section Round

variable {c : Cluster}

/-- The slave whose turn it is holds its backups after the tick. -/
theorem Wf.holdsCopy_nextTurn (h : c.Wf) (hnum : 0 < c.slaves.num) :
    c.updateBackup.HoldsCopy c.nextTurn 1 ∧ c.updateBackup.HoldsCopy c.nextTurn 2 := by
  have hturn : c.nextTurn < c.slaves.num := Nat.mod_lt _ hnum
  have hdisk : c.updateBackup.diskAt c.nextTurn = c.refreshed c.nextTurn := by
    rw [diskAt, h.slaveAt_updateBackup hturn, if_pos rfl]
  constructor
  · intro hne
    rw [slaves_updateBackup] at hne
    refine ⟨c.primary ((c.nextTurn + 1) % c.slaves.num), ?_, ?_⟩
    · rw [hdisk]
      simp [Disk.backup, refreshed, hne]
    · rw [slaves_updateBackup, h.primary_updateBackup (Nat.mod_lt _ hnum)]
  · intro hne
    rw [slaves_updateBackup] at hne
    refine ⟨c.primary ((c.nextTurn + 2) % c.slaves.num), ?_, ?_⟩
    · rw [hdisk]
      simp [Disk.backup, refreshed, hne]
    · rw [slaves_updateBackup, h.primary_updateBackup (Nat.mod_lt _ hnum)]

/-- A slave that holds its backups still does after a tick. -/
theorem Wf.holdsCopy_updateBackup (h : c.Wf) {i : Nat} (hi : i < c.slaves.num)
    (hcopy : c.HoldsCopy i 1 ∧ c.HoldsCopy i 2) :
    c.updateBackup.HoldsCopy i 1 ∧ c.updateBackup.HoldsCopy i 2 := by
  have hnum : 0 < c.slaves.num := by omega
  rcases eq_or_ne i c.nextTurn with rfl | hne
  · exact h.holdsCopy_nextTurn hnum
  · have hdisk : c.updateBackup.diskAt i = c.diskAt i := by
      rw [diskAt, h.slaveAt_updateBackup hi, if_neg hne]
      rfl
    simp only [HoldsCopy, slaves_updateBackup, hdisk,
      h.primary_updateBackup (Nat.mod_lt _ hnum)]
    exact hcopy

/-- After `n` ticks the list and the primaries are as before, the turn has moved
on by `n`, and every slave whose turn has come holds its backups. -/
structure TicksSpec (c : Cluster) (n : Nat) : Prop where
  wf : (c.ticks n).Wf
  slaves : (c.ticks n).slaves = c.slaves
  turn : (c.ticks n).nextTurn = (c.backupPos + (n + 1)) % c.slaves.num
  primary : ∀ i, i < c.slaves.num → (c.ticks n).primary i = c.primary i
  fresh : ∀ m, 0 < m → m ≤ n →
    (c.ticks n).HoldsCopy ((c.backupPos + m) % c.slaves.num) 1 ∧
      (c.ticks n).HoldsCopy ((c.backupPos + m) % c.slaves.num) 2

theorem Wf.ticksSpec (h : c.Wf) (hnum : 0 < c.slaves.num) (n : Nat) :
    TicksSpec c n := by
  induction n with
  | zero =>
      constructor
      case wf => exact h
      case slaves => rfl
      case turn => rfl
      case primary => exact fun i _ => rfl
      case fresh => exact fun m hpos hle => absurd hpos (by omega)
  | succ n ih =>
      have hpos : 0 < (c.ticks n).slaves.num := by
        rw [ih.slaves]
        exact hnum
      constructor
      case wf => exact ih.wf.updateBackup
      case slaves =>
          rw [ticks, slaves_updateBackup]
          exact ih.slaves
      case turn =>
          rw [ticks, nextTurn, backupPos_updateBackup, slaves_updateBackup, ih.slaves,
            ih.turn, Nat.mod_add_mod]
          rfl
      case primary =>
          intro i hi
          rw [ticks, ih.wf.primary_updateBackup (by rw [ih.slaves]; exact hi)]
          exact ih.primary i hi
      case fresh =>
          intro m hm hle
          rcases Nat.lt_or_ge n m with hlt | hge
          · have hlast : m = n + 1 := by omega
            rw [hlast, ← ih.turn]
            exact ih.wf.holdsCopy_nextTurn hpos
          · refine ih.wf.holdsCopy_updateBackup ?_ (ih.fresh m hm hge)
            rw [ih.slaves]
            exact Nat.mod_lt _ hnum

/-- **A full round of ticks leaves the cluster fully replicated.** -/
theorem Wf.fullyReplicated_round (h : c.Wf) (hnum : 0 < c.slaves.num) :
    (c.ticks c.slaves.num).FullyReplicated := by
  intro i hi
  have hspec := h.ticksSpec hnum c.slaves.num
  rw [hspec.slaves] at hi
  -- the tick at which the turn of slave `i` comes
  obtain ⟨m, hm, hle, hturn⟩ := exists_turn c.backupPos hi
  rw [← hturn]
  exact hspec.fresh m hm hle

end Round

section Replicated

/-- The position of the node with address `a`. -/
def indexOf (slaves : SlaveList) (a : Addr) : Nat :=
  slaves.toList.findIdx (fun sn => sn.addr == a)

/-- The cluster of the given ring in which slave `i` has the primary `primary i`
and copies of its successors' primaries. -/
def replicated (slaves : SlaveList) (primary : Nat → HDB) : Cluster where
  slaves := slaves
  procs a :=
    let i := indexOf slaves a
    { slaves := slaves
      pos := i
      disk :=
        { file_master := primary i
          file_tmp := none
          backup1 := some (primary ((i + 1) % slaves.num))
          backup2 := some (primary ((i + 2) % slaves.num)) } }
  backupPos := 0

variable {slaves : SlaveList} {files : Nat → HDB}

theorem indexOf_addr (hinj : slaves.DistinctAddrs) {i : Nat} (hi : i < slaves.num) :
    indexOf slaves (slaves.node i).addr = i := by
  rw [indexOf, List.findIdx_eq (by simpa using hi)]
  constructor
  · simp
  · intro j hj
    have hne : (slaves.node j).addr ≠ (slaves.node i).addr := by
      intro heq
      have := hinj j (by omega) i hi heq
      omega
    simpa using hne

theorem slaveAt_replicated (hinj : slaves.DistinctAddrs) {i : Nat} (hi : i < slaves.num) :
    (replicated slaves files).slaveAt i =
      { slaves := slaves
        pos := i
        disk :=
          { file_master := files i
            file_tmp := none
            backup1 := some (files ((i + 1) % slaves.num))
            backup2 := some (files ((i + 2) % slaves.num)) } } := by
  have hindex := indexOf_addr hinj hi
  simp only [slaveAt, addr, replicated, hindex]

theorem primary_replicated (hinj : slaves.DistinctAddrs) {i : Nat} (hi : i < slaves.num) :
    (replicated slaves files).primary i = files i := by
  rw [primary, diskAt, slaveAt_replicated hinj hi]

theorem wf_replicated (files : Nat → HDB) (hring : RingInv slaves)
    (hinj : slaves.DistinctAddrs) :
    (replicated slaves files).Wf where
  ring := hring
  addr_inj := fun i j hi hj heq => hinj i hi j hj heq
  slaves_eq := by
    intro i hi
    rw [slaveAt_replicated hinj hi]
    rfl
  pos_eq := by
    intro i hi
    rw [slaveAt_replicated hinj hi]
  tmp_none := by
    intro i hi
    rw [slaveAt_replicated hinj hi]

theorem fullyReplicated_replicated (files : Nat → HDB) (hinj : slaves.DistinctAddrs) :
    (replicated slaves files).FullyReplicated := by
  intro i hi
  have hi' : i < slaves.num := hi
  have hpos : 0 < slaves.num := by omega
  have hcopy : ∀ k, k = 1 ∨ k = 2 → (replicated slaves files).HoldsCopy i k := by
    intro k hk _
    refine ⟨files ((i + k) % slaves.num), ?_, ?_⟩
    · rw [diskAt, slaveAt_replicated hinj hi']
      rcases hk with rfl | rfl <;> rfl
    · have hslaves : (replicated slaves files).slaves = slaves := rfl
      rw [hslaves, primary_replicated hinj (Nat.mod_lt _ hpos)]
  exact ⟨hcopy 1 (Or.inl rfl), hcopy 2 (Or.inr rfl)⟩

end Replicated

end Cluster

end DistributedDB
