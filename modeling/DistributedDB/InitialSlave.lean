import DistributedDB.VersionGate

/-!
# The initialisation of a slave, one exchange at a time

After the master's reply a new slave runs `InitialSlave`: up to four exchanges, each
with a slave that is in its main loop.  Meanwhile the master may begin the next
registration and notify the others of it.

`CLIP_DATA` takes its bounds from the list that the predecessor has when it
handles the request.

**Results.**
* `filesOnly_initialStep`: an exchange changes files only, and a primary only when
  it is a `CLIP_DATA`.
* `contents_clipData`: what the predecessor keeps and sends when it finds the bounds
  of the requester's section.
* `ListBefore.slaveOf`: a slave that is still in `InitialSlave` has the list from
  before the current registration.
-/

namespace DistributedDB

open PartialMap RingIndex

/-- What `InitialSlave` does next. -/
inductive InitStage where
  | clip
  | backup1
  | update2
  | backup2
  | done
deriving DecidableEq, Repr

namespace InitStage

/-- The first exchange of `InitialSlave` with `num` slaves in the list. -/
def first (num : Nat) : InitStage :=
  if 1 < num then .clip else .done

/-- The exchange after a stage. -/
def next (num : Nat) : InitStage → InitStage
  | .clip => .backup1
  | .backup1 => if 2 < num then .update2 else .done
  | .update2 => .backup2
  | .backup2 => .done
  | .done => .done

end InitStage

namespace Net

/-- The address that `CommunicateToSlave(k, ..)` connects to. -/
def peer (n : Net) (a : Addr) (k : Int) : Option Addr :=
  ((n.procs a).slave.hisPos k).map (fun i => ((n.procs a).slave.slaves.node i).addr)

def setSlave (n : Net) (a : Addr) (s : Slave) : Net :=
  n.setProc a { n.procs a with slave := s }

/-- `CommunicateToSlave(k, ..)` of the slave at `a`.  The other slave has to be in
its main loop; `handle` is its handler, which also gives the file in the reply,
and `recv` is what the asking slave does with that file. -/
def communicateToSlave (n : Net) (a : Addr) (k : Int) (handle : Slave → Slave × HDB)
    (recv : Slave → HDB → Slave) : Option Net :=
  match n.peer a k with
  | none => some n
  | some b =>
      if (n.procs b).phase = .serving then
        let r := handle (n.procs b).slave
        let n := n.setSlave b r.1
        some (n.setSlave a (recv (n.procs a).slave r.2))
      else none

/-- One exchange of `InitialSlave`. -/
def initialStep (n : Net) (a : Addr) : InitStage → Option Net
  | .clip =>
      n.communicateToSlave a (-1) Slave.clipData (fun s file => s.recvFile 0 file)
  | .backup1 =>
      n.communicateToSlave a 1 (fun s => (s, s.disk.file_master))
        (fun s file => s.recvFile 1 file)
  | .update2 =>
      n.communicateToSlave a (-2) (fun s => (s.updateBackup2, ∅)) (fun s _ => s)
  | .backup2 =>
      n.communicateToSlave a 2 (fun s => (s, s.disk.file_master))
        (fun s file => s.recvFile 2 file)
  | .done => none

/-- The bounds that a `CLIP_DATA` from `a` finds behind the predecessor at `b` are
the requester's own key and the key of the requester's successor. -/
def FindsBounds (n : Net) (a b : Addr) : Prop :=
  let s := (n.procs a).slave
  let pre := (n.procs b).slave
  (pre.slaves.node ((pre.pos + 1) % pre.slaves.num)).key = (s.slaves.node s.pos).key ∧
    (pre.slaves.node ((pre.pos + 2) % pre.slaves.num)).key =
      (s.slaves.node ((s.pos + 1) % s.slaves.num)).key

instance (n : Net) (a b : Addr) : Decidable (n.FindsBounds a b) := by
  unfold FindsBounds
  infer_instance

/-- The primary of the slave at an address. -/
def fileOf (n : Net) (a : Addr) : HDB :=
  (n.procs a).slave.disk.file_master

/-- The master's list before the current round, its list when it is idle. -/
def ListBefore (n : Net) (base : SlaveList) : Prop :=
  match n.task with
  | none => base = n.slaves
  | some r => ∃ after, n.RoundInv r base after

/-- The current round is a registration, and who has been told of it is in its main
loop. -/
def Registering (n : Net) : Prop :=
  ∀ r, n.task = some r → r.cmd = .add ∧
    ∀ i, i < n.slaves.num → i ≠ r.pos → r.Told i → (n.procAt i).phase = .serving

section ListBefore

variable {n : Net} {base : SlaveList}

/-- A registration inserts one node into the list before it. -/
theorem RoundInv.withoutNode {r : Round} {after : SlaveList}
    (h : n.RoundInv r base after) (hcmd : r.cmd = .add) :
    WithoutNode base n.slaves r.pos := by
  have hlists := h.lists
  simp only [RoundLists, hcmd] at hlists
  obtain ⟨hafter, hadd, hpos, hmax⟩ := hlists
  rw [← hafter, hadd]
  exact withoutNode_addNewSlave _ hpos hmax

theorem ListBefore.distinctAddrs (hbase : n.ListBefore base) (h : n.NetInv)
    (hreg : n.Registering) : base.DistinctAddrs := by
  cases htask : n.task with
  | none =>
      simp only [ListBefore, htask] at hbase
      rw [hbase]
      exact h.distinct
  | some r =>
      simp only [ListBefore, htask] at hbase
      obtain ⟨after, hround⟩ := hbase
      exact (hround.withoutNode (hreg r htask).1).distinctAddrs_small h.distinct

/-- A slave of the old list that is not in its main loop has not been told. -/
theorem ListBefore.slaveOf (hbase : n.ListBefore base) (h : n.NetInv)
    (hreg : n.Registering) {q : Nat} (hq : q < base.num)
    (hphase : (n.procs (base.node q).addr).phase ≠ .serving) :
    (n.procs (base.node q).addr).slave.slaves = base ∧
      (n.procs (base.node q).addr).slave.pos = q := by
  cases htask : n.task with
  | none =>
      simp only [ListBefore, htask] at hbase
      subst hbase
      exact ((h.settled htask).procs q hq).2
  | some r =>
      simp only [ListBefore, htask] at hbase
      obtain ⟨after, hround⟩ := hbase
      obtain ⟨hcmd, htold⟩ := hreg r htask
      have hwith := hround.withoutNode hcmd
      have hnum := hwith.num
      have hold := oldIndex_lt (r := r.pos) (show q + 1 < n.slaves.num by omega)
      have hne := oldIndex_ne r.pos q
      have haddr : n.addr (oldIndex r.pos q) = (base.node q).addr :=
        congrArg SlaveNode.addr (hwith.node q hq).symm
      have hother := hround.others _ hold hne
      have hnot : ¬ r.Told (oldIndex r.pos q) := by
        intro hyes
        have := htold _ hold hne hyes
        rw [procAt, haddr] at this
        exact hphase this
      rw [if_neg hnot, if_neg hnot, procAt, haddr] at hother
      simp only [Round.beforeIndex, hcmd, newIndex_oldIndex] at hother
      exact hother.2

theorem ListBefore.replace {a : Addr} {p : Process} (hbase : n.ListBefore base)
    (hp : n.Replaces a p) : (n.setProc a p).ListBefore base := by
  have htask : (n.setProc a p).task = n.task := rfl
  cases hround : n.task with
  | none =>
      simp only [ListBefore, htask, hround] at hbase ⊢
      exact hbase
  | some r =>
      simp only [ListBefore, htask, hround] at hbase ⊢
      obtain ⟨after, hinv⟩ := hbase
      exact ⟨after, hinv.replace hp⟩

end ListBefore

section Exchanges

variable {n n' : Net}

@[simp] theorem phase_setSlave (a x : Addr) (s : Slave) :
    ((n.setSlave a s).procs x).phase = (n.procs x).phase := by
  rcases eq_or_ne x a with rfl | hne
  · simp [setSlave]
  · rw [setSlave, procs_setProc_of_ne hne]

theorem slave_setSlave (a x : Addr) (s : Slave) :
    ((n.setSlave a s).procs x).slave = if x = a then s else (n.procs x).slave := by
  rcases eq_or_ne x a with rfl | hne
  · simp [setSlave]
  · rw [setSlave, procs_setProc_of_ne hne, if_neg hne]

/-- What an exchange makes of the system. -/
theorem communicateToSlave_cases {a : Addr} {k : Int} {handle : Slave → Slave × HDB}
    {recv : Slave → HDB → Slave} (h : n.communicateToSlave a k handle recv = some n') :
    (n.peer a k = none ∧ n' = n) ∨
      ∃ b, n.peer a k = some b ∧ (n.procs b).phase = .serving ∧
        n' = (n.setSlave b (handle (n.procs b).slave).1).setSlave a
          (recv ((n.setSlave b (handle (n.procs b).slave).1).procs a).slave
            (handle (n.procs b).slave).2) := by
  cases hpeer : n.peer a k with
  | none =>
      simp only [communicateToSlave, hpeer, Option.some.injEq] at h
      exact Or.inl ⟨rfl, h.symm⟩
  | some b =>
      simp only [communicateToSlave, hpeer, Option.ite_none_right_eq_some,
        Option.some.injEq] at h
      exact Or.inr ⟨b, rfl, h.1, h.2.symm⟩

/-- The systems differ in files only. -/
structure SameLists (n n' : Net) : Prop where
  inv : n.NetInv → n'.NetInv
  before : ∀ base, n.ListBefore base → n'.ListBefore base
  slaves : n'.slaves = n.slaves
  task : n'.task = n.task
  phase : ∀ a, (n'.procs a).phase = (n.procs a).phase

theorem SameLists.refl (n : Net) : n.SameLists n where
  inv := id
  before := fun _ => id
  slaves := rfl
  task := rfl
  phase := fun _ => rfl

theorem SameLists.trans {n'' : Net} (h : n.SameLists n') (h' : n'.SameLists n'') :
    n.SameLists n'' where
  inv := fun hinv => h'.inv (h.inv hinv)
  before := fun base hbase => h'.before base (h.before base hbase)
  slaves := h'.slaves.trans h.slaves
  task := h'.task.trans h.task
  phase := fun a => (h'.phase a).trans (h.phase a)

theorem sameLists_setSlave {a : Addr} {s : Slave}
    (hslaves : s.slaves = (n.procs a).slave.slaves) (hpos : s.pos = (n.procs a).slave.pos) :
    n.SameLists (n.setSlave a s) where
  inv := fun h => h.replace ⟨hslaves, hpos, Or.inl rfl⟩
  before := fun _ hbase => hbase.replace ⟨hslaves, hpos, Or.inl rfl⟩
  slaves := rfl
  task := rfl
  phase := fun x => phase_setSlave a x s

theorem SameLists.registering (h : n.SameLists n') (hreg : n.Registering) :
    n'.Registering := by
  intro r htask
  rw [h.task] at htask
  obtain ⟨hcmd, htold⟩ := hreg r htask
  refine ⟨hcmd, fun i hi hne hyes => ?_⟩
  rw [h.slaves] at hi
  rw [procAt, h.phase, addr, h.slaves]
  exact htold i hi hne hyes

/-- A slave changes files only, and not the primary when it has to be kept. -/
structure FilesOnly (keep : Prop) (s t : Slave) : Prop where
  slaves : t.slaves = s.slaves
  pos : t.pos = s.pos
  tmp : s.disk.file_tmp = none → t.disk.file_tmp = none
  primary : keep → t.disk.file_master = s.disk.file_master

theorem FilesOnly.refl (keep : Prop) (s : Slave) : FilesOnly keep s s :=
  ⟨rfl, rfl, id, fun _ => rfl⟩

theorem FilesOnly.trans {keep : Prop} {s t u : Slave} (h : FilesOnly keep s t)
    (h' : FilesOnly keep t u) : FilesOnly keep s u where
  slaves := h'.slaves.trans h.slaves
  pos := h'.pos.trans h.pos
  tmp := fun hs => h'.tmp (h.tmp hs)
  primary := fun hkeep => (h'.primary hkeep).trans (h.primary hkeep)

theorem filesOnly_recvFile_backup (keep : Prop) {k : Nat} (hk : k ≠ 0) (s : Slave)
    (file : HDB) : FilesOnly keep s (s.recvFile k file) where
  slaves := slaves_recvFile s k file
  pos := pos_recvFile s k file
  tmp := fun hs => (file_tmp_recvFile s k file).trans hs
  primary := fun _ => file_master_recvFile_backup s hk file

theorem FilesOnly.setSlave {keep : Prop} {a : Addr} {s : Slave}
    (h : FilesOnly keep (n.procs a).slave s) :
    n.SameLists (n.setSlave a s) ∧
      ∀ x, FilesOnly keep (n.procs x).slave ((n.setSlave a s).procs x).slave := by
  refine ⟨sameLists_setSlave h.slaves h.pos, fun x => ?_⟩
  rw [slave_setSlave]
  split
  case isTrue heq =>
      subst heq
      exact h
  case isFalse => exact FilesOnly.refl keep _

/-- An exchange whose handler and receiver change files only. -/
theorem filesOnly_communicateToSlave {keep : Prop} {a : Addr} {k : Int}
    {handle : Slave → Slave × HDB} {recv : Slave → HDB → Slave}
    (h : n.communicateToSlave a k handle recv = some n')
    (hhandle : ∀ s, FilesOnly keep s (handle s).1)
    (hrecv : ∀ s file, FilesOnly keep s (recv s file)) :
    n.SameLists n' ∧ ∀ x, FilesOnly keep (n.procs x).slave (n'.procs x).slave := by
  rcases communicateToSlave_cases h with ⟨_, rfl⟩ | ⟨b, _, _, rfl⟩
  · exact ⟨SameLists.refl _, fun x => FilesOnly.refl keep _⟩
  · obtain ⟨hlists, hfiles⟩ := (hhandle (n.procs b).slave).setSlave
    obtain ⟨hlists', hfiles'⟩ := (hrecv ((n.setSlave b (handle (n.procs b).slave).1).procs
      a).slave (handle (n.procs b).slave).2).setSlave
    exact ⟨hlists.trans hlists', fun x => (hfiles x).trans (hfiles' x)⟩

/-- The exchanges of `InitialSlave` change files only, and primaries only by
`CLIP_DATA`. -/
theorem filesOnly_initialStep {a : Addr} {stage : InitStage}
    (h : n.initialStep a stage = some n') :
    n.SameLists n' ∧
      ∀ x, FilesOnly (stage ≠ .clip) (n.procs x).slave (n'.procs x).slave := by
  cases stage with
  | clip =>
      simp only [initialStep] at h
      refine filesOnly_communicateToSlave h ?_ ?_
      · exact fun s => ⟨rfl, rfl, fun _ => rfl, fun hno => absurd rfl hno⟩
      · exact fun s file => ⟨rfl, rfl, id, fun hno => absurd rfl hno⟩
  | backup1 =>
      simp only [initialStep] at h
      exact filesOnly_communicateToSlave h (fun s => FilesOnly.refl _ s)
        (filesOnly_recvFile_backup _ (by decide))
  | update2 =>
      simp only [initialStep] at h
      refine filesOnly_communicateToSlave h ?_ (fun s _ => FilesOnly.refl _ s)
      exact fun s => ⟨rfl, rfl, id, fun _ => rfl⟩
  | backup2 =>
      simp only [initialStep] at h
      exact filesOnly_communicateToSlave h (fun s => FilesOnly.refl _ s)
        (filesOnly_recvFile_backup _ (by decide))
  | done => cases h

end Exchanges

section Clip

variable {n n' : Net} {base : SlaveList} {a b : Addr}

/-- The predecessor, as the requester's list gives it. -/
theorem peer_pre {q : Nat} (hslaves : (n.procs a).slave.slaves = base)
    (hpos : (n.procs a).slave.pos = q) (hq : q < base.num) (hnum : 1 < base.num) :
    n.peer a (-1) = some (base.node (back base.num q 1)).addr := by
  have hrel : relPos q (-1) base.num = back base.num q 1 := relPos_sub 1 (by omega)
  have hne := back_one_ne hq hnum
  simp only [peer, Slave.hisPos, hslaves, hpos, hrel, if_neg hne]
  rfl

/-- The primaries after `CLIP_DATA`. -/
theorem fileOf_clip (h : n.initialStep a .clip = some n') (hpeer : n.peer a (-1) = some b)
    (x : Addr) :
    n'.fileOf x =
      if x = a then (n.procs b).slave.clipData.2
      else if x = b then (n.procs b).slave.clipData.1.disk.file_master
      else n.fileOf x := by
  simp only [initialStep] at h
  rcases communicateToSlave_cases h with ⟨hnone, _⟩ | ⟨b', hpeer', _, rfl⟩
  · rw [hpeer] at hnone
    cases hnone
  · obtain rfl : b = b' := Option.some.inj (hpeer.symm.trans hpeer')
    simp only [fileOf, slave_setSlave]
    split
    case isTrue => rfl
    case isFalse => split <;> rfl

/-- What the predecessor keeps and what it sends, when it finds the bounds of node
`q` of the requester's list. -/
theorem contents_clipData {q : Nat} (hslaves : (n.procs a).slave.slaves = base)
    (hpos : (n.procs a).slave.pos = q) (hbounds : n.FindsBounds a b)
    (htmp : (n.procs b).slave.disk.file_tmp = none) :
    contents (n.procs b).slave.clipData.1.disk.file_master =
        restrict (fun k => ¬ sectionRange base q k = true) (contents (n.fileOf b)) ∧
      contents (n.procs b).slave.clipData.2 =
        restrict (fun k => sectionRange base q k = true) (contents (n.fileOf b)) := by
  obtain ⟨hlower, hupper⟩ := hbounds
  rw [hslaves, hpos] at hlower hupper
  have hclip := contents_clip (n.procs b).slave.disk htmp
    (toUnsigned (base.node q).key) (toUnsigned (base.node ((q + 1) % base.num)).key)
  simp only [Slave.clipData, hlower, hupper]
  exact hclip

end Clip

section Registration

variable {n : Net}

/-- A registration begins: no files change, and the new slave is not yet in
`InitialSlave`. -/
theorem procs_beginAdd {sn : SlaveNode} (rand : Nat)
    (hdown : (n.procs sn.addr).phase = .down) (x : Addr) :
    ((n.beginAdd sn rand).procs x).slave = (n.procs x).slave ∧
      (((n.beginAdd sn rand).procs x).phase = .initialising ↔
        (n.procs x).phase = .initialising) := by
  rcases eq_or_ne x sn.addr with rfl | hne
  · rw [beginAdd, procs_setProc_self, hdown]
    simp
  · rw [beginAdd, procs_setProc_of_ne hne]
    exact ⟨rfl, Iff.rfl⟩

/-- A notification changes no files. -/
theorem procs_delivered (r : Round) (x : Addr) :
    ((n.delivered r).procs x).slave.disk = (n.procs x).slave.disk ∧
      ((n.delivered r).procs x).phase = (n.procs x).phase := by
  rcases eq_or_ne x (n.addr r.i) with rfl | hne
  · rw [delivered, procs_setProc_self, handleNotice]
    cases r.cmd with
    | add => exact ⟨rfl, rfl⟩
    | del => exact ⟨rfl, rfl⟩
  · rw [delivered, procs_setProc_of_ne hne]
    exact ⟨rfl, rfl⟩

/-- At the end of a registration the new slave enters `InitialSlave`. -/
theorem procs_finished {r : Round} (hcmd : r.cmd = .add) (x : Addr) :
    ((n.finished r).procs x).slave.disk = (n.procs x).slave.disk ∧
      ((n.finished r).procs x).phase =
        if x = n.addr r.pos then .initialising else (n.procs x).phase := by
  simp only [finished, finishedProc, hcmd]
  rcases eq_or_ne x (n.addr r.pos) with rfl | hne
  · rw [procs_setProc_self, if_pos rfl]
    exact ⟨rfl, rfl⟩
  · rw [procs_setProc_of_ne hne, if_neg hne]
    exact ⟨rfl, rfl⟩

theorem Registering.notify {r : Round} (h : n.Registering) (htask : n.task = some r)
    (hstage : r.stage = .ready) :
    ({ n with task := some (notified r) } : Net).Registering := by
  rintro _ ⟨⟩
  obtain ⟨hcmd, htold⟩ := h r htask
  have hsame : (notified r).cmd = r.cmd ∧ (notified r).pos = r.pos := by
    unfold notified
    split <;> exact ⟨rfl, rfl⟩
  refine ⟨hsame.1.trans hcmd, fun i hi hne hyes => ?_⟩
  rw [hsame.2] at hne
  exact htold i hi hne ((Round.told_notified hstage hne).mp hyes)

theorem Registering.deliver {r : Round} (h : n.Registering) (htask : n.task = some r)
    (hstage : r.stage = .sent) (hserving : (n.procAt r.i).phase = .serving) :
    (n.delivered r).Registering := by
  rintro _ ⟨⟩
  obtain ⟨hcmd, htold⟩ := h r htask
  refine ⟨hcmd, fun i hi hne hyes => ?_⟩
  have hphase : ((n.delivered r).procAt i).phase = (n.procAt i).phase :=
    (procs_delivered r (n.addr i)).2
  rw [hphase]
  rcases (Round.told_replied hstage i).mp hyes with hold | rfl
  · exact htold i hi hne hold
  · exact hserving

theorem Registering.recvReply {r : Round} (h : n.Registering) (htask : n.task = some r)
    (hstage : r.stage = .replied) :
    ({ n with task := some { r with i := r.i + 1, stage := .ready } } : Net).Registering := by
  rintro _ ⟨⟩
  obtain ⟨hcmd, htold⟩ := h r htask
  exact ⟨hcmd, fun i hi hne hyes =>
    htold i hi hne ((Round.told_recvReply hstage i).mp hyes)⟩

theorem Registering.initialised (h : n.Registering) (a : Addr) :
    (n.setProc a { n.procs a with phase := .serving }).Registering := by
  intro r htask
  obtain ⟨hcmd, htold⟩ := h r htask
  refine ⟨hcmd, fun i hi hne hyes => ?_⟩
  rw [procAt, addr_setProc]
  rcases eq_or_ne (n.addr i) a with heq | hother
  · rw [heq, procs_setProc_self]
  · rw [procs_setProc_of_ne hother]
    exact htold i hi hne hyes

/-- At the end of the loop every slave but the new one is in its main loop. -/
theorem Registering.serving (h : n.Registering) {r : Round} (htask : n.task = some r)
    (hend : r.i = n.slaves.num) {i : Nat} (hi : i < n.slaves.num) (hne : i ≠ r.pos) :
    (n.procAt i).phase = .serving :=
  (h r htask).2 i hi hne (Or.inl (by omega))

end Registration

end Net

end DistributedDB
