import DistributedDB.Cluster

/-!
# The departure of a slave

Every survivor replays the removal and replies; then the predecessor merges its
`backup1` into its primary, the second predecessor merges its `backup2` into its
`backup1`, and both fetch a new `backup2`.  The survivors' stages interleave.

**Results.**
* `Wf.procs_leave`: no interleaving matters.  The only primary that changes is
  the predecessor's, and nobody fetches it.
* `Wf.slaveAt_leave`: every survivor after the departure.
* `Wf.leave`: the invariant between operations is kept.
-/

namespace DistributedDB

open PartialMap Interleaving RingIndex

/-- Where node `j` of the list after the removal stands in the list before it. -/
theorem node_removeSlave_eq {slaves : SlaveList} {r j : Nat}
    (hr : r < slaves.num) (hmax : slaves.num ≤ MAX_SLAVE_NUM) (hj : j + 1 < slaves.num) :
    (removeSlave slaves r).node j = slaves.node (oldIndex r j) := by
  rw [node_removeSlave hr hmax hj, oldIndex]
  split <;> rfl

namespace Cluster

/-- A stage of a survivor's handling of `RM_SLAVE(r)` when every primary is as in
`c`. -/
def survivorStep (c : Cluster) (r : Nat) (s : Slave) (stage : RmStage) : Slave :=
  match stage with
  | .reply => s.rmSlave r
  | .merge => s.mergeFiles r
  | .fetch =>
      if s.isPredecessor r || s.isSecondPredecessor r then
        match s.hisPos 2 with
        | none => s
        | some q => s.recvFile 2 (c.procs (s.slaves.node q).addr).disk.file_master
      else s

section Stages

variable {c : Cluster} {r : Nat}

/-- The stages a survivor may have behind it. -/
theorem prefix_stages {stages : List RmStage}
    (h : stages <+: [.reply, .merge, .fetch]) :
    stages = [] ∨ stages = [.reply] ∨ stages = [.reply, .merge] ∨
      stages = [.reply, .merge, .fetch] := by
  simp only [List.prefix_cons_iff, List.prefix_nil] at h
  rcases h with rfl | ⟨_, rfl, rfl | ⟨_, rfl, rfl | ⟨_, rfl, rfl⟩⟩⟩ <;> simp

/-- A survivor after its reply. -/
theorem Wf.rmSlave_slaveAt (h : c.Wf) {i : Nat} (hi : i < c.slaves.num) :
    (c.slaveAt i).rmSlave r =
      { slaves := removeSlave c.slaves r, pos := newIndex r i, disk := c.diskAt i } := by
  have hlt : (c.slaveAt i).pos < (c.slaveAt i).slaves.num := by
    rw [h.slaves_eq i hi, h.pos_eq i hi]
    exact hi
  rw [rmSlave_eq hlt, h.slaves_eq i hi, h.pos_eq i hi]
  rfl

/-- At whatever stage, a survivor that is not the predecessor has its old
primary. -/
theorem Wf.file_master_survivor (h : c.Wf) {i : Nat} (hi : i < c.slaves.num)
    (hpre : newIndex r i ≠ relPos r (-1) (c.slaves.num - 1))
    {stages : List RmStage} (hstages : stages <+: [.reply, .merge, .fetch]) :
    (stages.foldl (c.survivorStep r) (c.slaveAt i)).disk.file_master = c.primary i := by
  have hmerge : (((c.slaveAt i).rmSlave r).mergeFiles r).disk.file_master =
      c.primary i := by
    rw [file_master_mergeFiles_of_not]
    · rfl
    · rw [h.rmSlave_slaveAt hi]
      simpa [Slave.isPredecessor] using hpre
  rcases prefix_stages hstages with rfl | rfl | rfl | rfl
  · rfl
  · rfl
  · exact hmerge
  · simp only [List.foldl_cons, List.foldl_nil, survivorStep]
    split
    · split
      · exact hmerge
      · rw [file_master_recvFile_backup _ (by decide)]
        exact hmerge
    · exact hmerge

end Stages

section Order

variable {c : Cluster} {r : Nat}

@[simp] theorem slaves_rmStep (e : RmStep) : (c.rmStep r e).slaves = c.slaves := by
  unfold rmStep
  cases e.stage with
  | reply => rfl
  | merge => rfl
  | fetch =>
      dsimp only
      split
      · exact slaves_backupForOtherSlave c _ 2
      · rfl

@[simp] theorem slaves_foldl_rmStep (sched : List RmStep) (c : Cluster) :
    (sched.foldl (rmStep r) c).slaves = c.slaves := by
  induction sched generalizing c with
  | nil => rfl
  | cons e sched ih => rw [List.foldl_cons, ih, slaves_rmStep]

/-- A stage changes the process of its survivor only. -/
theorem procs_rmStep_of_ne {e : RmStep} {a : Addr} (h : a ≠ c.addr e.slave) :
    (c.rmStep r e).procs a = c.procs a := by
  unfold rmStep
  cases e.stage with
  | reply => exact procs_setProc_of_ne c h _
  | merge => exact procs_setProc_of_ne c h _
  | fetch =>
      dsimp only
      split
      · exact procs_backupForOtherSlave_of_ne c h 2
      · rfl

/-- The slave from which a predecessor of the removed node fetches its new
`backup2` is not the predecessor. -/
theorem fetch_source_ne {num p : Nat} (hr : r ≤ num) (hp : p < num)
    (hpre : p = relPos r (-1) num ∨ p = relPos r (-2) num)
    (hsource : (p + 2) % num ≠ p) :
    (p + 2) % num ≠ relPos r (-1) num := by
  have hone : relPos r (-1) num = back num r 1 := relPos_sub 1 (by omega)
  rcases hpre with hfirst | hsecond
  · rw [← hfirst]
    exact hsource
  · rcases Nat.lt_or_ge num 2 with hlt | hge
    · have hnum : num = 1 := by omega
      subst hnum
      exact absurd (by omega) hsource
    · have htwo : relPos r (-2) num = back num r 2 := relPos_sub 2 (by omega)
      have hsucc : (p + 1) % num = back num r 1 :=
        (succ_eq_back_iff hr hp (by omega) (by omega)).mpr (hsecond.trans htwo)
      rw [hone, add_two_mod, hsucc]
      exact succ_mod_ne (back_lt (by omega)) (by omega)

/-- A survivor's list and position when it starts to fetch. -/
theorem Wf.merged_survivor (h : c.Wf) {i : Nat} (hi : i < c.slaves.num) :
    (((c.slaveAt i).rmSlave r).mergeFiles r).slaves = removeSlave c.slaves r ∧
      (((c.slaveAt i).rmSlave r).mergeFiles r).pos = newIndex r i := by
  rw [slaves_mergeFiles, pos_mergeFiles, h.rmSlave_slaveAt hi]
  exact ⟨rfl, rfl⟩

/-- What a stage of survivor `i` does in a state in which every survivor is where
its own stages alone have taken it. -/
theorem Wf.procs_rmStep_self (h : c.Wf) {c' : Cluster} {e : RmStep}
    (before : Nat → List RmStage)
    (hr : r < c.slaves.num) (he : e.slave < c.slaves.num) (hne : e.slave ≠ r)
    (hslaves : c'.slaves = c.slaves)
    (hbefore : ∀ i, i < c.slaves.num → i ≠ r →
      before i <+: [.reply, .merge, .fetch] ∧
        c'.procs (c.addr i) = (before i).foldl (c.survivorStep r) (c.slaveAt i))
    (hnext : before e.slave ++ [e.stage] <+: [.reply, .merge, .fetch]) :
    (c'.rmStep r e).procs (c.addr e.slave) =
      c.survivorStep r (c'.procs (c.addr e.slave)) e.stage := by
  have haddr : c'.addr e.slave = c.addr e.slave := by simp [addr, hslaves]
  unfold rmStep
  rw [haddr]
  cases hstage : e.stage with
  | reply => simp [survivorStep]
  | merge => simp [survivorStep]
  | fetch =>
      -- the survivor has replied and merged
      have hdone : before e.slave = [.reply, .merge] := by
        rw [hstage] at hnext
        rcases prefix_stages ((List.prefix_append _ _).trans hnext) with hs | hs | hs | hs
        · exact absurd (hs ▸ hnext) (by decide)
        · exact absurd (hs ▸ hnext) (by decide)
        · exact hs
        · exact absurd (hs ▸ hnext) (by decide)
      obtain ⟨_, hself⟩ := hbefore e.slave he hne
      rw [hdone] at hself
      have hself' : c'.procs (c.addr e.slave) =
          ((c.slaveAt e.slave).rmSlave r).mergeFiles r := hself
      obtain ⟨hlist, hpos⟩ := h.merged_survivor (r := r) he
      rw [← hself'] at hlist hpos
      have hsize := newIndex_lt (show r ≤ c.slaves.num - 1 by omega)
        (show e.slave ≤ c.slaves.num - 1 by omega) hne
      simp only [survivorStep]
      split
      case isFalse => rfl
      case isTrue hpre =>
          rw [procs_backupForOtherSlave_self]
          simp only [peer, Nat.cast_ofNat]
          cases hhis : (c'.procs (c.addr e.slave)).hisPos 2 with
          | none => rfl
          | some q =>
              simp only [Option.map_some]
              have hrel : relPos (newIndex r e.slave) 2 (c.slaves.num - 1) =
                  (newIndex r e.slave + 2) % (c.slaves.num - 1) := relPos_add 2
              have hq : q = (newIndex r e.slave + 2) % (c.slaves.num - 1) ∧
                  q ≠ newIndex r e.slave := by
                simp only [Slave.hisPos, hlist, hpos, num_removeSlave] at hhis
                split at hhis
                · exact absurd hhis (by simp)
                · have hq := Option.some.inj hhis
                  rw [← hq]
                  exact ⟨hrel, by assumption⟩
              have hqlt : q + 1 < c.slaves.num := by
                have := Nat.mod_lt (newIndex r e.slave + 2)
                  (show 0 < c.slaves.num - 1 by omega)
                omega
              have hsource : q ≠ relPos r (-1) (c.slaves.num - 1) := by
                rw [hq.1]
                refine fetch_source_ne (by omega) (by omega) ?_ (hq.1 ▸ hq.2)
                simpa [Slave.isPredecessor, Slave.isSecondPredecessor, hlist, hpos]
                  using hpre
              obtain ⟨hdone', hproc⟩ :=
                hbefore (oldIndex r q) (oldIndex_lt hqlt) (oldIndex_ne r q)
              have hnode : (removeSlave c.slaves r).node q = c.slaves.node (oldIndex r q) :=
                node_removeSlave_eq hr h.ring.num_le hqlt
              have hfile := h.file_master_survivor (r := r) (oldIndex_lt hqlt)
                (by rw [newIndex_oldIndex]; exact hsource) hdone'
              rw [hlist, hnode]
              rw [← hproc] at hfile
              exact congrArg _ hfile

/-- **No interleaving matters.**  After a schedule every survivor is where its
own three stages take it. -/
theorem Wf.procs_schedule (h : c.Wf) (hr : r < c.slaves.num) {sched : List RmStep}
    (hsched : IsSchedule c.slaves.num r sched) {i : Nat}
    (hi : i < c.slaves.num) (hne : i ≠ r) :
    (sched.foldl (rmStep r) c).procs (c.addr i) =
      [RmStage.reply, .merge, .fetch].foldl (c.survivorStep r) (c.slaveAt i) := by
  have hlocal := foldl_eq_localRun
    (fun _ s (e : RmStep) => c.survivorStep r s e.stage)
    RmStep.slave
    (fun j => j < c.slaves.num ∧ j ≠ r)
    (fun _ es => es.map RmStep.stage <+: [.reply, .merge, .fetch])
    (fun c' j => c'.procs (c.addr j))
    (rmStep r)
    c
    (fun j es es' hes hle => (hle.map RmStep.stage).trans hes)
    ?step
    sched
    (fun e he => hsched.1 e he)
    (fun j hj => by
      have hstages := hsched.2 j hj.1 hj.2
      simp only [stagesAt] at hstages
      rw [hstages])
    i ⟨hi, hne⟩
  case step =>
    intro sched' e he hallowed hagree j hj
    rcases eq_or_ne j e.slave with rfl | hje
    · rw [if_pos rfl]
      refine h.procs_rmStep_self (stagesAt sched') hr he.1 he.2
        (slaves_foldl_rmStep sched' c) ?_ ?_
      · intro k hk hkr
        constructor
        · exact ((history_prefix_append RmStep.slave sched' e k).map RmStep.stage).trans
            (hallowed k ⟨hk, hkr⟩)
        · rw [stagesAt, List.foldl_map]
          exact hagree k ⟨hk, hkr⟩
      · have hnext := hallowed e.slave he
        rw [history_append_self] at hnext
        simpa [stagesAt] using hnext
    · rw [if_neg hje]
      refine procs_rmStep_of_ne ?_
      simp only [addr, slaves_foldl_rmStep]
      exact h.addr_ne hj.1 he.1 hje
  have hstages := hsched.2 i hi hne
  rw [← hstages, stagesAt, List.foldl_map]
  exact hlocal

end Order

section Survivors

variable {c : Cluster} {r : Nat}

/-- `BackupForOtherSlave(2)` of the survivor at position `j`, on its files. -/
def fetchBackup2 (c : Cluster) (r j : Nat) (disk : Disk) : Disk :=
  let num := c.slaves.num - 1
  if (j + 2) % num = j then disk
  else { disk with backup2 := some (c.primary (oldIndex r ((j + 2) % num))) }

/-- The files, after the departure, of the survivor then at position `j`. -/
def afterLeave (c : Cluster) (r j : Nat) : Disk :=
  let num := c.slaves.num - 1
  let disk := c.diskAt (oldIndex r j)
  if j = back num r 1 then c.fetchBackup2 r j disk.mergeBackup1
  else if j = back num r 2 then c.fetchBackup2 r j disk.mergeBackup2
  else disk

@[simp] theorem slaves_leave (sched : List RmStep) :
    (c.leave r sched).slaves = removeSlave c.slaves r := rfl

theorem addr_leave (h : c.Wf) {sched : List RmStep} (hr : r < c.slaves.num) {j : Nat}
    (hj : j + 1 < c.slaves.num) :
    (c.leave r sched).addr j = c.addr (oldIndex r j) := by
  simp only [addr, slaves_leave]
  rw [node_removeSlave_eq hr h.ring.num_le hj]

/-- The fetch of a merged survivor, on its files. -/
theorem survivorStep_fetch (h : c.Wf) (hr : r < c.slaves.num) {s : Slave} {j : Nat}
    (hj : j + 1 < c.slaves.num)
    (hslaves : s.slaves = removeSlave c.slaves r) (hpos : s.pos = j)
    (hpre : (s.isPredecessor r || s.isSecondPredecessor r) = true) :
    c.survivorStep r s .fetch = { s with disk := c.fetchBackup2 r j s.disk } := by
  have hrel : relPos j 2 (c.slaves.num - 1) = (j + 2) % (c.slaves.num - 1) :=
    relPos_add 2
  have hsize := Nat.mod_lt (j + 2) (show 0 < c.slaves.num - 1 by omega)
  obtain ⟨slaves, pos, disk⟩ := s
  obtain rfl : slaves = removeSlave c.slaves r := hslaves
  obtain rfl : pos = j := hpos
  simp only [survivorStep, hpre, if_true, Slave.hisPos, num_removeSlave, hrel, fetchBackup2]
  rcases eq_or_ne ((pos + 2) % (c.slaves.num - 1)) pos with heq | hne
  · rw [if_pos heq, if_pos heq]
  · rw [if_neg hne, if_neg hne]
    dsimp only
    rw [node_removeSlave_eq hr h.ring.num_le (by omega)]
    rfl

/-- **A survivor after the departure.** -/
theorem Wf.slaveAt_leave (h : c.Wf) (hr : r < c.slaves.num) {sched : List RmStep}
    (hsched : IsSchedule c.slaves.num r sched) {j : Nat} (hj : j + 1 < c.slaves.num) :
    (c.leave r sched).slaveAt j =
      { slaves := removeSlave c.slaves r, pos := j, disk := c.afterLeave r j } := by
  have hold := oldIndex_lt (r := r) hj
  have hproc : (c.leave r sched).slaveAt j =
      (sched.foldl (rmStep r) c).procs (c.addr (oldIndex r j)) := by
    rw [slaveAt, addr_leave h hr hj]
    rfl
  rw [hproc, h.procs_schedule hr hsched hold (oldIndex_ne r j)]
  simp only [List.foldl_cons, List.foldl_nil]
  have hreplied : c.survivorStep r (c.slaveAt (oldIndex r j)) .reply =
      { slaves := removeSlave c.slaves r, pos := j, disk := c.diskAt (oldIndex r j) } := by
    rw [survivorStep, h.rmSlave_slaveAt hold, newIndex_oldIndex]
  rw [hreplied]
  have hone : relPos r (-1) (c.slaves.num - 1) = back (c.slaves.num - 1) r 1 :=
    relPos_sub 1 (by omega)
  simp only [afterLeave, ← hone,
    ← relPos_sub_two (show 0 < c.slaves.num - 1 by omega)]
  rcases eq_or_ne j (relPos r (-1) (c.slaves.num - 1)) with hfirst | hfirst
  · rw [if_pos hfirst, survivorStep_fetch h hr hj]
    · simp [survivorStep, Slave.mergeFiles, Slave.isPredecessor, ← hfirst]
    · exact slaves_mergeFiles _ r
    · exact pos_mergeFiles _ r
    · simp [survivorStep, Slave.isPredecessor, ← hfirst]
  · rw [if_neg hfirst]
    rcases eq_or_ne j (relPos r (-2) (c.slaves.num - 1)) with hsecond | hsecond
    · rw [if_pos hsecond, survivorStep_fetch h hr hj]
      · simp [survivorStep, Slave.mergeFiles, Slave.isPredecessor,
          Slave.isSecondPredecessor, hfirst, ← hsecond]
      · exact slaves_mergeFiles _ r
      · exact pos_mergeFiles _ r
      · simp [survivorStep, Slave.isSecondPredecessor, ← hsecond]
    · rw [if_neg hsecond]
      simp [survivorStep, Slave.mergeFiles, Slave.isPredecessor,
        Slave.isSecondPredecessor, hfirst, hsecond]

@[simp] theorem file_tmp_fetchBackup2 (j : Nat) (disk : Disk) :
    (c.fetchBackup2 r j disk).file_tmp = disk.file_tmp := by
  simp only [fetchBackup2]
  split <;> rfl

@[simp] theorem file_master_fetchBackup2 (j : Nat) (disk : Disk) :
    (c.fetchBackup2 r j disk).file_master = disk.file_master := by
  simp only [fetchBackup2]
  split <;> rfl

theorem file_tmp_afterLeave (j : Nat) :
    (c.afterLeave r j).file_tmp = (c.diskAt (oldIndex r j)).file_tmp := by
  simp only [afterLeave]
  split
  · simp
  · split <;> simp

/-- The predecessor's primary takes over what its `backup1` holds; no other
primary changes. -/
theorem Wf.primary_leave (h : c.Wf) (hr : r < c.slaves.num) {sched : List RmStep}
    (hsched : IsSchedule c.slaves.num r sched) {j : Nat} (hj : j + 1 < c.slaves.num) :
    contents ((c.leave r sched).primary j) =
      if j = back (c.slaves.num - 1) r 1 then
        overlay (contents (c.primary (oldIndex r j)))
          (contents (openFile (c.diskAt (oldIndex r j)).backup1))
      else contents (c.primary (oldIndex r j)) := by
  rw [primary, diskAt, h.slaveAt_leave hr hsched hj]
  simp only [afterLeave]
  split
  · rw [file_master_fetchBackup2, contents_mergeBackup1]
    rfl
  · split
    · rw [file_master_fetchBackup2, file_master_mergeBackup2]
      rfl
    · rfl

/-- The departure keeps the invariant between operations. -/
theorem Wf.leave (h : c.Wf) (hr : r < c.slaves.num) {sched : List RmStep}
    (hsched : IsSchedule c.slaves.num r sched) : (c.leave r sched).Wf where
  ring := h.ring.of_removeSlave hr
  addr_inj := by
    intro i j hi hj hij
    rw [slaves_leave, num_removeSlave] at hi hj
    rw [addr_leave h hr (by omega), addr_leave h hr (by omega)] at hij
    have hold := h.addr_inj _ _ (oldIndex_lt (by omega)) (oldIndex_lt (by omega)) hij
    exact oldIndex_inj hold
  slaves_eq := by
    intro i hi
    rw [slaves_leave, num_removeSlave] at hi
    rw [h.slaveAt_leave hr hsched (by omega)]
    rfl
  pos_eq := by
    intro i hi
    rw [slaves_leave, num_removeSlave] at hi
    rw [h.slaveAt_leave hr hsched (by omega)]
  tmp_none := by
    intro i hi
    rw [slaves_leave, num_removeSlave] at hi
    rw [h.slaveAt_leave hr hsched (by omega)]
    simp only [file_tmp_afterLeave]
    exact h.tmp_none _ (oldIndex_lt (by omega))

end Survivors

end Cluster

end DistributedDB
