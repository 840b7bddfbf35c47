import DistributedDB.Cluster
import DistributedDB.FileTransfer
import DistributedDB.RingInvariant

/-!
# The periodic refresh, with files as bytes

`UpdateBackup` of the master, with `UPDATE_BACKUP12`, `BackupForOtherSlave` and
`CommunicateToSlave` at the slave whose turn it is, and one transfer of a file for each
successor.  All slaves use the same database, and no one writes.

A tick relates the ring before it to the ring after it; the buffers of the transfers,
and the order of their steps, are arbitrary.

**Results.**
* `FileRing.backups_refreshed`: after as many ticks as there are slaves, every slave has had its
  turn and its backups are the primaries of its successors.
* `FileRing.exists_ticks`: the ticks can be completed.
* `FileRing.toCluster_updateBackup`: a tick is the one of the model in which a file is
  copied at once.
-/

namespace DistributedDB

open Run RingIndex

/-- A slave process. -/
structure FileSlave where
  slaves : SlaveList
  pos : Nat
  file_master : DBFile
  /-- The files of `GetFileName(k, file_master)`, for 1 and 2. -/
  backup : Nat → Option (List UInt8)

namespace FileSlave

/-- The position in `CommunicateToSlave(k, ..)`; `none` when it is the slave's own. -/
def hisPos (s : FileSlave) (k : Int) : Option Nat :=
  if relPos s.pos k s.slaves.num = s.pos then none
  else some (relPos s.pos k s.slaves.num)

/-- `RecvFile` into the file of `GetFileName(k, ..)`. -/
def recvFile (s : FileSlave) (k : Nat) (file : List UInt8) : FileSlave :=
  { s with backup := Function.update s.backup k (some file) }

end FileSlave

/-- The master and the slaves, with one database. -/
structure FileRing where
  /-- The master's list. -/
  slaves : SlaveList
  procs : Addr → FileSlave
  /-- The static variable `pos` of `UpdateBackup`. -/
  backupPos : Nat
  /-- `file_master` of every slave. -/
  name : DBName

namespace FileRing

variable (c : FileRing)

def addr (i : Nat) : Addr :=
  (c.slaves.node i).addr

def slaveAt (i : Nat) : FileSlave :=
  c.procs (c.addr i)

def primary (i : Nat) : DBFile :=
  (c.slaveAt i).file_master

def setProc (a : Addr) (s : FileSlave) : FileRing :=
  { c with procs := Function.update c.procs a s }

/-- The address that `CommunicateToSlave(k, ..)` connects to. -/
def peer (a : Addr) (k : Int) : Option Addr :=
  ((c.procs a).hisPos k).map fun i => ((c.procs a).slaves.node i).addr

/-- A file of another name is none of these. -/
def recvFile (a : Addr) (k : Nat) (filename : dbValue) (file : List UInt8) : FileRing :=
  if filename = c.name.chars then c.setProc a ((c.procs a).recvFile k file) else c

/-- The slave whose turn the next tick is. -/
def turn : Nat :=
  (c.backupPos + 1) % c.slaves.num

/-- Between operations the lists agree and the positions are right. -/
structure Consistent : Prop where
  addr_inj : ∀ i j, i < c.slaves.num → j < c.slaves.num → c.addr i = c.addr j → i = j
  slaves_eq : ∀ i, i < c.slaves.num → (c.slaveAt i).slaves = c.slaves
  pos_eq : ∀ i, i < c.slaves.num → (c.slaveAt i).pos = i

end FileRing

/-- A completed `BackupForOtherSlave(k)` of the slave at `a`. -/
inductive BackupForOtherSlave (c : FileRing) (a : Addr) (k : Nat) : FileRing → Prop where
  | itself (hpeer : c.peer a k = none) : BackupForOtherSlave c a k c
  | fetched {b : Addr} {hd : DBPacketHeader} {fetcherBuf senderBuf : PacketBuf}
      {events : List Party} {t : Transfer} (hpeer : c.peer a k = some b)
      (hrun : run (Transfer.step hd c.name (c.procs b).file_master)
        (Transfer.init fetcherBuf senderBuf) events = some t)
      (hover : t.Over) : BackupForOtherSlave c a k (c.recvFile a k t.filename t.dest)

/-- A completed tick. -/
inductive UpdateBackup (c : FileRing) : FileRing → Prop where
  | tick {c₁ c₂ : FileRing} (hfirst : BackupForOtherSlave c (c.addr c.turn) 1 c₁)
      (hsecond : BackupForOtherSlave c₁ (c.addr c.turn) 2 c₂) :
      UpdateBackup c { c₂ with backupPos := c.turn }

/-- Consecutive ticks, with the slaves whose turns they were. -/
inductive Ticks : FileRing → List Nat → FileRing → Prop where
  | nil (c : FileRing) : Ticks c [] c
  | cons {c c₁ c₂ : FileRing} {turns : List Nat} (htick : UpdateBackup c c₁)
      (hticks : Ticks c₁ turns c₂) : Ticks c (c.turn :: turns) c₂

section Fetch

variable {c c' : FileRing} {a : Addr} {i j k : Nat}

/-- What is fetched is the primary of the slave that is asked. -/
theorem BackupForOtherSlave.eq (h : BackupForOtherSlave c a k c') :
    c' = match c.peer a k with
      | none => c
      | some b => c.setProc a ((c.procs a).recvFile k (c.procs b).file_master.bytes) := by
  cases h with
  | itself hpeer => rw [hpeer]
  | fetched hpeer hrun hover =>
      obtain ⟨hname, hdest⟩ := Transfer.transferred hrun hover
      rw [hpeer, FileRing.recvFile, hname, if_pos rfl, hdest]

theorem BackupForOtherSlave.same (h : BackupForOtherSlave c a k c') :
    c'.slaves = c.slaves ∧ c'.name = c.name ∧ c'.backupPos = c.backupPos := by
  rw [h.eq]
  split <;> exact ⟨rfl, rfl, rfl⟩

/-- A fetch can be completed. -/
theorem exists_backupForOtherSlave (c : FileRing) (a : Addr) (k : Nat) :
    ∃ c', BackupForOtherSlave c a k c' := by
  cases hpeer : c.peer a k with
  | none => exact ⟨c, .itself hpeer⟩
  | some b =>
      have hinit : run (Transfer.step ⟨0, 0, 0, 0⟩ c.name (c.procs b).file_master)
          (Transfer.init (ByteBuffer.zero _) (ByteBuffer.zero _)) [] = some _ := rfl
      obtain ⟨events, t, hrun, hover⟩ := Transfer.exists_transfer hinit
      exact ⟨_, .fetched hpeer hrun hover⟩

namespace FileRing

theorem Consistent.peer (h : c.Consistent) (hi : i < c.slaves.num) (k : Nat) :
    c.peer (c.addr i) (k : Int) =
      if (i + k) % c.slaves.num = i then none
      else some (c.addr ((i + k) % c.slaves.num)) := by
  have hslaves := h.slaves_eq i hi
  have hpos := h.pos_eq i hi
  simp only [slaveAt] at hslaves hpos
  simp only [FileRing.peer, FileSlave.hisPos, hslaves, hpos, relPos_add]
  split <;> rfl

theorem Consistent.slaveAt_setProc (h : c.Consistent) (hi : i < c.slaves.num)
    (hj : j < c.slaves.num) (s : FileSlave) :
    (c.setProc (c.addr i) s).slaveAt j = if j = i then s else c.slaveAt j := by
  have haddr : (c.setProc (c.addr i) s).slaveAt j =
      Function.update c.procs (c.addr i) s (c.addr j) := rfl
  rw [haddr]
  rcases eq_or_ne j i with rfl | hne
  · rw [if_pos rfl, Function.update_self]
  · have hne' : c.addr j ≠ c.addr i := fun heq => hne (h.addr_inj j i hj hi heq)
    rw [if_neg hne, Function.update_of_ne hne']
    rfl

/-- A fetch changes one backup of the slave that fetches. -/
theorem Consistent.slaveAt_backupForOtherSlave (h : c.Consistent) (hi : i < c.slaves.num)
    (hj : j < c.slaves.num) (hfetch : BackupForOtherSlave c (c.addr i) k c') :
    c'.slaveAt j =
      if j = i ∧ (i + k) % c.slaves.num ≠ i then
        (c.slaveAt i).recvFile k (c.primary ((i + k) % c.slaves.num)).bytes
      else c.slaveAt j := by
  rw [hfetch.eq, h.peer hi]
  by_cases hself : (i + k) % c.slaves.num = i
  · rw [if_pos hself, if_neg (fun hc => hc.2 hself)]
  · rw [if_neg hself]
    dsimp only
    rw [h.slaveAt_setProc hi hj]
    simp only [hself, not_false_eq_true, ne_eq, and_true]
    rfl

theorem Consistent.of_same (h : c.Consistent) (hslaves : c'.slaves = c.slaves)
    (hprocs : ∀ j, j < c.slaves.num → (c'.slaveAt j).slaves = (c.slaveAt j).slaves ∧
      (c'.slaveAt j).pos = (c.slaveAt j).pos) : c'.Consistent where
  addr_inj := by
    intro i j hi hj hij
    simp only [addr, hslaves] at hi hj hij
    exact h.addr_inj i j hi hj hij
  slaves_eq := by
    intro j hj
    rw [hslaves] at hj
    rw [(hprocs j hj).1, h.slaves_eq j hj, hslaves]
  pos_eq := by
    intro j hj
    rw [hslaves] at hj
    rw [(hprocs j hj).2, h.pos_eq j hj]

theorem Consistent.backupForOtherSlave (h : c.Consistent) (hi : i < c.slaves.num)
    (hfetch : BackupForOtherSlave c (c.addr i) k c') : c'.Consistent := by
  refine h.of_same hfetch.same.1 ?_
  intro j hj
  rw [h.slaveAt_backupForOtherSlave hi hj hfetch]
  split
  case isTrue hcond =>
      rw [hcond.1]
      exact ⟨rfl, rfl⟩
  case isFalse => exact ⟨rfl, rfl⟩

/-- No fetch changes a primary. -/
theorem Consistent.primary_backupForOtherSlave (h : c.Consistent) (hi : i < c.slaves.num)
    (hj : j < c.slaves.num) (hfetch : BackupForOtherSlave c (c.addr i) k c') :
    c'.primary j = c.primary j := by
  rw [primary, h.slaveAt_backupForOtherSlave hi hj hfetch]
  split
  case isTrue hcond =>
      rw [hcond.1]
      rfl
  case isFalse => rfl

/-- The backups after a fetch. -/
theorem Consistent.backup_backupForOtherSlave (h : c.Consistent) (hi : i < c.slaves.num)
    (hj : j < c.slaves.num) (hfetch : BackupForOtherSlave c (c.addr i) k c') (k' : Nat) :
    (c'.slaveAt j).backup k' =
      if j = i ∧ k' = k ∧ (i + k) % c.slaves.num ≠ i then
        some (c.primary ((i + k) % c.slaves.num)).bytes
      else (c.slaveAt j).backup k' := by
  rw [h.slaveAt_backupForOtherSlave hi hj hfetch]
  by_cases hcond : j = i ∧ (i + k) % c.slaves.num ≠ i
  · obtain ⟨rfl, hne⟩ := hcond
    rw [if_pos ⟨rfl, hne⟩]
    simp only [FileSlave.recvFile, Function.update_apply, hne, ne_eq, not_false_eq_true,
      and_true, true_and]
  · rw [if_neg hcond, if_neg (fun hc => hcond ⟨hc.1, hc.2.2⟩)]

end FileRing

end Fetch

namespace FileRing

/-- The backups of slave `i` are the primaries of its successors, where these are other
slaves. -/
def Fresh (c : FileRing) (i : Nat) : Prop :=
  ∀ k, k = 1 ∨ k = 2 → (i + k) % c.slaves.num ≠ i →
    (c.slaveAt i).backup k = some (c.primary ((i + k) % c.slaves.num)).bytes

section Tick

variable {c c' : FileRing} {i j k : Nat}

theorem turn_lt (hnum : 0 < c.slaves.num) : c.turn < c.slaves.num :=
  Nat.mod_lt _ hnum

/-- A tick moves the turn on, and changes no list and no primary. -/
structure TickSpec (c c' : FileRing) : Prop where
  consistent : c'.Consistent
  slaves : c'.slaves = c.slaves
  backupPos : c'.backupPos = c.turn
  primary : ∀ j, j < c.slaves.num → c'.primary j = c.primary j
  backup : ∀ j k, j < c.slaves.num → (c'.slaveAt j).backup k =
    if j = c.turn ∧ (k = 1 ∨ k = 2) ∧ (j + k) % c.slaves.num ≠ j then
      some (c.primary ((j + k) % c.slaves.num)).bytes
    else (c.slaveAt j).backup k

theorem Consistent.tickSpec (h : c.Consistent) (hnum : 0 < c.slaves.num)
    (htick : UpdateBackup c c') : TickSpec c c' := by
  cases htick with
  | tick hfirst hsecond =>
      rename_i c₁ c₂
      have hturn := turn_lt hnum
      have h₁ := h.backupForOtherSlave hturn hfirst
      have hslaves := hfirst.same.1
      have haddr : c.addr c.turn = c₁.addr c.turn := by rw [addr, addr, hslaves]
      have hturn₁ : c.turn < c₁.slaves.num := by rw [hslaves]; exact hturn
      rw [haddr] at hsecond
      have h₂ := h₁.backupForOtherSlave hturn₁ hsecond
      constructor
      case consistent => exact ⟨h₂.addr_inj, h₂.slaves_eq, h₂.pos_eq⟩
      case slaves => exact hsecond.same.1.trans hslaves
      case backupPos => rfl
      case primary =>
          intro j hj
          have hj₁ : j < c₁.slaves.num := by rw [hslaves]; exact hj
          exact (h₁.primary_backupForOtherSlave hturn₁ hj₁ hsecond).trans
            (h.primary_backupForOtherSlave hturn hj hfirst)
      case backup =>
          intro j k hj
          have hj₁ : j < c₁.slaves.num := by rw [hslaves]; exact hj
          have hsame : ({ c₂ with backupPos := c.turn } : FileRing).slaveAt j =
            c₂.slaveAt j := rfl
          rw [hsame, h₁.backup_backupForOtherSlave hturn₁ hj₁ hsecond k, hslaves,
            h.primary_backupForOtherSlave hturn (Nat.mod_lt _ hnum) hfirst,
            h.backup_backupForOtherSlave hturn hj hfirst k]
          rcases eq_or_ne j c.turn with rfl | hne
          · by_cases hone : k = 1
            · subst hone
              simp
            · by_cases htwo : k = 2
              · subst htwo
                simp
              · simp [hone, htwo]
          · simp [hne]

/-- The slave whose turn it is has fresh backups afterwards. -/
theorem TickSpec.fresh_turn (h : TickSpec c c') (hnum : 0 < c.slaves.num) :
    c'.Fresh c.turn := by
  intro k hk hne
  rw [h.slaves] at hne ⊢
  rw [h.backup _ k (turn_lt hnum), if_pos ⟨rfl, hk, hne⟩, h.primary _ (Nat.mod_lt _ hnum)]

/-- Fresh backups stay fresh. -/
theorem TickSpec.fresh (h : TickSpec c c') (hi : i < c.slaves.num) (hfresh : c.Fresh i) :
    c'.Fresh i := by
  have hnum : 0 < c.slaves.num := by omega
  intro k hk hne
  rw [h.slaves] at hne ⊢
  rw [h.backup i k hi, h.primary _ (Nat.mod_lt _ hnum)]
  split
  case isTrue => rfl
  case isFalse => exact hfresh k hk hne

theorem exists_updateBackup (c : FileRing) : ∃ c', UpdateBackup c c' := by
  obtain ⟨c₁, hfirst⟩ := exists_backupForOtherSlave c (c.addr c.turn) 1
  obtain ⟨c₂, hsecond⟩ := exists_backupForOtherSlave c₁ (c.addr c.turn) 2
  exact ⟨_, .tick hfirst hsecond⟩

end Tick

section Stale

/-- The ring of the given list in which every backup is an empty file, and the last tick
was the turn of a slave that has left. -/
def stale (slaves : SlaveList) (name : DBName) (files : Nat → DBFile) : FileRing where
  slaves := slaves
  procs a :=
    { slaves := slaves
      pos := Cluster.indexOf slaves a
      file_master := files (Cluster.indexOf slaves a)
      backup := fun _ => some [] }
  backupPos := slaves.num + 4
  name := name

theorem consistent_stale {slaves : SlaveList} (hinj : slaves.DistinctAddrs) (name : DBName)
    (files : Nat → DBFile) : (stale slaves name files).Consistent where
  addr_inj := fun i j hi hj heq => hinj i hi j hj heq
  slaves_eq := fun _ _ => rfl
  pos_eq := fun _ hi => Cluster.indexOf_addr hinj hi

end Stale

section Round

variable {c c' : FileRing} {turns : List Nat}

/-- After some ticks the lists and the primaries are as before, and every slave whose turn
has come has fresh backups. -/
structure TicksSpec (c : FileRing) (turns : List Nat) (c' : FileRing) : Prop where
  slaves : c'.slaves = c.slaves
  order : ∀ m, m < turns.length → turns[m]? = some ((c.backupPos + (m + 1)) % c.slaves.num)
  primary : ∀ j, j < c.slaves.num → c'.primary j = c.primary j
  fresh : ∀ i, i < c.slaves.num → i ∈ turns ∨ c.Fresh i → c'.Fresh i

theorem Consistent.ticksSpec (h : c.Consistent) (hnum : 0 < c.slaves.num)
    (hticks : Ticks c turns c') : TicksSpec c turns c' := by
  induction hticks with
  | nil c =>
      constructor
      case slaves => rfl
      case order => exact fun m hm => absurd hm (Nat.not_lt_zero m)
      case primary => exact fun j _ => rfl
      case fresh =>
          rintro i - (hmem | hfresh)
          · exact absurd hmem List.not_mem_nil
          · exact hfresh
  | @cons c c₁ c₂ turns htick hticks ih =>
      have hspec := h.tickSpec hnum htick
      have hrest := ih hspec.consistent (by rw [hspec.slaves]; exact hnum)
      constructor
      case slaves => exact hrest.slaves.trans hspec.slaves
      case order =>
          intro m hm
          cases m with
          | zero => rfl
          | succ m =>
              rw [List.getElem?_cons_succ, hrest.order m (by simpa using hm), hspec.slaves,
                hspec.backupPos, turn, Nat.mod_add_mod]
              congr 2
              omega
      case primary =>
          intro j hj
          exact (hrest.primary j (by rw [hspec.slaves]; exact hj)).trans (hspec.primary j hj)
      case fresh =>
          intro i hi hcase
          refine hrest.fresh i (by rw [hspec.slaves]; exact hi) ?_
          rcases hcase with hmem | hfresh
          · rcases List.mem_cons.mp hmem with rfl | hmem
            · exact Or.inr (hspec.fresh_turn hnum)
            · exact Or.inl hmem
          · exact Or.inr (hspec.fresh hi hfresh)

/-- As many ticks as there are slaves are the turn of every slave. -/
theorem TicksSpec.mem_turns (h : TicksSpec c turns c') (hlen : turns.length = c.slaves.num)
    {i : Nat} (hi : i < c.slaves.num) : i ∈ turns := by
  obtain ⟨m, hpos, hle, hturn⟩ := exists_turn c.backupPos hi
  obtain ⟨m, rfl⟩ := Nat.exists_eq_add_of_lt hpos
  have hget := h.order m (by omega)
  rw [Nat.zero_add] at hturn
  rw [hturn] at hget
  exact List.mem_of_getElem? hget

/-- Any number of ticks can be completed. -/
theorem exists_ticks (c : FileRing) (n : Nat) :
    ∃ turns c', Ticks c turns c' ∧ turns.length = n := by
  induction n generalizing c with
  | zero => exact ⟨[], c, .nil c, rfl⟩
  | succ n ih =>
      obtain ⟨c₁, htick⟩ := exists_updateBackup c
      obtain ⟨turns, c', hticks, hlen⟩ := ih c₁
      exact ⟨c.turn :: turns, c', .cons htick hticks, by rw [List.length_cons, hlen]⟩

/-- **After as many ticks as there are slaves, every slave has been refreshed: its backups
are the primaries of its successors, and no primary has changed.**  The ticks can be
completed from every state, whatever the backups and the position of the last tick. -/
theorem backups_refreshed (h : c.Consistent) (hnum : 2 ≤ c.slaves.num) :
    (∃ turns c', Ticks c turns c' ∧ turns.length = c.slaves.num) ∧
      ∀ turns c', Ticks c turns c' → turns.length = c.slaves.num →
        (∀ i, i < c.slaves.num → i ∈ turns) ∧
        (∀ i k, i < c.slaves.num → k = 1 ∨ k = 2 → (i + k) % c.slaves.num ≠ i →
          (c'.slaveAt i).backup k =
            some (c'.slaveAt ((i + k) % c.slaves.num)).file_master.bytes) ∧
        ∀ i, i < c.slaves.num → (c'.slaveAt i).file_master = (c.slaveAt i).file_master := by
  refine ⟨exists_ticks c c.slaves.num, ?_⟩
  intro turns c' hticks hlen
  have hspec := h.ticksSpec (by omega) hticks
  refine ⟨fun i hi => hspec.mem_turns hlen hi, ?_, hspec.primary⟩
  intro i k hi hk hne
  have hfresh := hspec.fresh i hi (Or.inl (hspec.mem_turns hlen hi)) k hk
  rw [hspec.slaves] at hfresh
  exact hfresh hne

/-- Three slaves with one byte in every database. -/
def threeSlaves : FileRing :=
  stale (ringOf 3) ⟨[97], by decide, by decide⟩ fun i => ⟨[UInt8.ofNat i], by simp⟩

theorem backups_refreshed_three :
    (∃ turns c', Ticks threeSlaves turns c' ∧ turns.length = threeSlaves.slaves.num) ∧
      ∀ turns c', Ticks threeSlaves turns c' → turns.length = threeSlaves.slaves.num →
        (∀ i, i < threeSlaves.slaves.num → i ∈ turns) ∧
        (∀ i k, i < threeSlaves.slaves.num → k = 1 ∨ k = 2 →
          (i + k) % threeSlaves.slaves.num ≠ i →
          (c'.slaveAt i).backup k =
            some (c'.slaveAt ((i + k) % threeSlaves.slaves.num)).file_master.bytes) ∧
        ∀ i, i < threeSlaves.slaves.num →
          (c'.slaveAt i).file_master = (threeSlaves.slaveAt i).file_master :=
  backups_refreshed (consistent_stale (by decide +kernel) _ _) (by decide +kernel)

end Round

section Records

variable (parse : List UInt8 → HDB) {c c' : FileRing} {a : Addr} {k : Nat}

/-- The slave with its files read as records. -/
def readSlave (s : FileSlave) : Slave where
  slaves := s.slaves
  pos := s.pos
  disk :=
    { file_master := parse s.file_master.bytes
      file_tmp := none
      backup1 := (s.backup 1).map parse
      backup2 := (s.backup 2).map parse }

/-- The ring with its files read as records. -/
def toCluster (c : FileRing) : Cluster where
  slaves := c.slaves
  procs a := readSlave parse (c.procs a)
  backupPos := c.backupPos

theorem readSlave_recvFile (s : FileSlave) (hk : k = 1 ∨ k = 2) (file : List UInt8) :
    readSlave parse (s.recvFile k file) = (readSlave parse s).recvFile k (parse file) := by
  rcases hk with rfl | rfl <;> rfl

theorem toCluster_setProc (s : FileSlave) :
    (c.setProc a s).toCluster parse = (c.toCluster parse).setProc a (readSlave parse s) := by
  have hprocs : (fun b => readSlave parse (Function.update c.procs a s b)) =
      Function.update (fun b => readSlave parse (c.procs b)) a (readSlave parse s) := by
    funext b
    rcases eq_or_ne b a with rfl | hne
    · simp
    · simp [hne]
  simp only [toCluster, setProc, Cluster.setProc, hprocs]

/-- A fetch is the copy of a file. -/
theorem toCluster_backupForOtherSlave (hk : k = 1 ∨ k = 2)
    (h : BackupForOtherSlave c a k c') :
    c'.toCluster parse = (c.toCluster parse).backupForOtherSlave a k := by
  have hpeer : (c.toCluster parse).peer a k = c.peer a k := rfl
  rw [h.eq, Cluster.backupForOtherSlave, hpeer]
  cases c.peer a k with
  | none => rfl
  | some b =>
      dsimp only
      rw [toCluster_setProc, readSlave_recvFile parse _ hk]
      rfl

/-- A tick is the tick of the model in which a file is copied at once. -/
theorem toCluster_updateBackup (h : UpdateBackup c c') :
    c'.toCluster parse = (c.toCluster parse).updateBackup := by
  cases h with
  | tick hfirst hsecond =>
      rename_i c₁ c₂
      have h₁ := toCluster_backupForOtherSlave parse (Or.inl rfl) hfirst
      have h₂ := toCluster_backupForOtherSlave parse (Or.inr rfl) hsecond
      have hpos : ({ c₂ with backupPos := c.turn } : FileRing).toCluster parse =
          { c₂.toCluster parse with backupPos := c.turn } := rfl
      rw [hpos, h₂, h₁]
      rfl

end Records

end FileRing

end DistributedDB
