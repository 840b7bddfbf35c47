import DistributedDB.Leave

/-!
# Replication after a departure

In a fully replicated cluster every slave holds copies of the primaries of its
two successors.  The departure of node `r` changes one primary, the
predecessor's, which takes over the primary of `r`.  The second predecessor's
`backup1` follows it, but the third predecessor's `backup2`, which is a copy of
the same primary, is left as it was.

**Results.**
* `FullyReplicated.leave_backup1`: every `backup1` is right again.
* `FullyReplicated.leave_backup2`: so is every `backup2` but the third
  predecessor's.
* `leave_fullyReplicated_iff`: exactly when the cluster is fully replicated again.
-/

namespace DistributedDB

open PartialMap Interleaving RingIndex

section Files

variable {disk : Disk} {file file' : HDB}

/-- `backup1` after the predecessor's merge is the former `backup2`. -/
theorem backup1_mergeBackup1 (h : disk.backup2 = some file) :
    disk.mergeBackup1.backup1 = some file := by
  simp [Disk.mergeBackup1, Disk.mvBackup2, h]

/-- `backup1` after the second predecessor's merge. -/
theorem contents_backup1_mergeBackup2
    (h1 : disk.backup1 = some file) (h2 : disk.backup2 = some file') :
    ∃ merged, disk.mergeBackup2.backup1 = some merged ∧
      contents merged = overlay (contents file) (contents file') := by
  refine ⟨(merge2Files (openFile disk.backup2) (openFile disk.backup1)).2, rfl, ?_⟩
  rw [(contents_merge2Files _ _).2, h1, h2]
  rfl

end Files

namespace Cluster

variable {c : Cluster} {r : Nat}

@[simp] theorem backup1_fetchBackup2 (j : Nat) (disk : Disk) :
    (c.fetchBackup2 r j disk).backup1 = disk.backup1 := by
  simp only [fetchBackup2]
  split <;> rfl

theorem backup2_fetchBackup2 {j : Nat} (hne : (j + 2) % (c.slaves.num - 1) ≠ j)
    (disk : Disk) :
    (c.fetchBackup2 r j disk).backup2 =
      some (c.primary (oldIndex r ((j + 2) % (c.slaves.num - 1)))) := by
  simp only [fetchBackup2, if_neg hne]

theorem Wf.diskAt_leave (h : c.Wf) (hr : r < c.slaves.num) {sched : List RmStep}
    (hsched : IsSchedule c.slaves.num r sched) {j : Nat} (hj : j + 1 < c.slaves.num) :
    (c.leave r sched).diskAt j = c.afterLeave r j := by
  rw [diskAt, h.slaveAt_leave hr hsched hj]

section Leave

variable {n : Nat} {sched : List RmStep}
variable (h : c.Wf) (hfull : c.FullyReplicated) (hnum : c.slaves.num = n + 1) (hr : r ≤ n)
variable (hsched : IsSchedule c.slaves.num r sched)
include h hfull hnum hr hsched

/-- The predecessor's primary after the departure. -/
theorem FullyReplicated.primary_leave_pre (hn : 0 < n) :
    contents ((c.leave r sched).primary (back n r 1)) =
      overlay (contents (c.primary (back (n + 1) r 1))) (contents (c.primary r)) := by
  have hlt := back_lt (i := r) (k := 1) hn
  have hold : oldIndex r (back n r 1) = back (n + 1) r 1 := oldIndex_back hr hn
  have hsucc : (back (n + 1) r 1 + 1) % (n + 1) = r := back_one_succ (by omega)
  have hcopy := (hfull (back (n + 1) r 1) (by rw [hnum]; exact back_lt (by omega))).1
  rw [HoldsCopy, hnum, hsucc] at hcopy
  obtain ⟨file, hfile, hcontents⟩ := hcopy (back_one_ne (by omega) (by omega)).symm
  have hprimary := h.primary_leave (by omega) hsched (j := back n r 1) (by omega)
  rw [hnum, Nat.add_sub_cancel, if_pos rfl, hold] at hprimary
  have hbackup : (c.diskAt (back (n + 1) r 1)).backup1 = some file := hfile
  rw [hprimary, hbackup, ← hcontents]
  rfl

omit hfull in
/-- Every other primary stays. -/
theorem Wf.primary_leave_of_ne {j : Nat} (hj : j < n) (hne : j ≠ back n r 1) :
    contents ((c.leave r sched).primary j) = contents (c.primary (oldIndex r j)) := by
  have hprimary := h.primary_leave (by omega) hsched (j := j) (by omega)
  rw [hnum, Nat.add_sub_cancel, if_neg hne] at hprimary
  exact hprimary

/-- Every `backup1` is right again. -/
theorem FullyReplicated.leave_backup1 {j : Nat} (hj : j < n) :
    (c.leave r sched).HoldsCopy j 1 := by
  intro hne
  have hnum' : (c.leave r sched).slaves.num = n := by simp [hnum]
  have hdisk := h.diskAt_leave (by omega) hsched (j := j) (by omega)
  have hn : 1 < n := by
    rw [hnum'] at hne
    by_contra hn
    have hone : n = 1 := by omega
    subst hone
    omega
  have hold := hfull (oldIndex r j) (by rw [hnum]; exact oldIndex_lt (by omega))
  have holdlt : oldIndex r j < n + 1 := oldIndex_lt (by omega)
  rw [HoldsCopy, HoldsCopy, hnum] at hold
  obtain ⟨file1, hfile1, hcontents1⟩ := hold.1 (succ_mod_ne holdlt (by omega))
  obtain ⟨file2, hfile2, hcontents2⟩ := hold.2 (two_mod_ne holdlt (by omega))
  have hbackup1 : (c.diskAt (oldIndex r j)).backup1 = some file1 := hfile1
  have hbackup2 : (c.diskAt (oldIndex r j)).backup2 = some file2 := hfile2
  simp only [hdisk, hnum', Disk.backup, if_true, afterLeave, hnum, Nat.add_sub_cancel]
  rcases eq_or_ne j (back n r 1) with rfl | hone
  · -- the predecessor holds its former `backup2`
    refine ⟨file2, ?_, ?_⟩
    · rw [if_pos rfl, backup1_fetchBackup2]
      exact backup1_mergeBackup1 hbackup2
    · rw [hcontents2, h.primary_leave_of_ne hnum hr hsched (Nat.mod_lt _ (by omega))
        (succ_mod_ne hj hn), oldIndex_back_two hr (by omega)]
  · rw [if_neg hone]
    rcases eq_or_ne j (back n r 2) with rfl | htwo
    · -- the second predecessor has merged its `backup2` into it
      obtain ⟨merged, hmerged, hcontents⟩ :=
        contents_backup1_mergeBackup2 hbackup1 hbackup2
      refine ⟨merged, ?_, ?_⟩
      · rw [if_pos rfl, backup1_fetchBackup2]
        exact hmerged
      · have hsucc : (back n r 2 + 1) % n = back n r 1 :=
          (succ_eq_back_iff hr hj (by omega) (by omega)).mpr rfl
        rw [hcontents, hcontents1, hcontents2, oldIndex_back_two_add_two hr hn,
          ← oldIndex_succ hr hj hone, hsucc, oldIndex_back hr (by omega)]
        exact (hfull.primary_leave_pre h hnum hr hsched (by omega)).symm
    · refine ⟨file1, ?_, ?_⟩
      · rw [if_neg htwo]
        exact hbackup1
      · have hsucc : (j + 1) % n ≠ back n r 1 := by
          rw [ne_eq, succ_eq_back_iff hr hj (by omega) (by omega)]
          exact htwo
        rw [hcontents1, h.primary_leave_of_ne hnum hr hsched (Nat.mod_lt _ (by omega)) hsucc,
          oldIndex_succ hr hj hone]

/-- Every `backup2` is right again that is not a copy of the predecessor's
primary. -/
theorem FullyReplicated.leave_backup2 {j : Nat} (hj : j < n)
    (hthird : (j + 2) % n ≠ back n r 1) :
    (c.leave r sched).HoldsCopy j 2 := by
  intro hne
  have hnum' : (c.leave r sched).slaves.num = n := by simp [hnum]
  have hdisk := h.diskAt_leave (by omega) hsched (j := j) (by omega)
  rw [hnum'] at hne
  have hprimary := h.primary_leave_of_ne hnum hr hsched
    (Nat.mod_lt (j + 2) (show 0 < n by omega)) hthird
  have hfetched : ∀ disk : Disk, ∃ file, (c.fetchBackup2 r j disk).backup2 = some file ∧
      contents file = contents ((c.leave r sched).primary ((j + 2) % n)) := by
    intro disk
    refine ⟨_, backup2_fetchBackup2 (by rw [hnum]; exact hne) disk, ?_⟩
    rw [hnum, Nat.add_sub_cancel, hprimary]
  simp only [hdisk, hnum', Disk.backup, OfNat.ofNat_ne_one, if_false, afterLeave, hnum,
    Nat.add_sub_cancel]
  rcases eq_or_ne j (back n r 1) with rfl | hone
  · rw [if_pos rfl]
    exact hfetched _
  · rw [if_neg hone]
    rcases eq_or_ne j (back n r 2) with rfl | htwo
    · rw [if_pos rfl]
      exact hfetched _
    · rw [if_neg htwo]
      have hn : 1 < n := by
        by_contra hn
        have hone : n = 1 := by omega
        subst hone
        omega
      have holdlt : oldIndex r j < n + 1 := oldIndex_lt (by omega)
      have hcopy := (hfull (oldIndex r j) (by rw [hnum]; exact holdlt)).2
      rw [HoldsCopy, hnum] at hcopy
      obtain ⟨file, hfile, hcontents⟩ := hcopy (two_mod_ne holdlt (by omega))
      refine ⟨file, hfile, ?_⟩
      rw [hcontents, hprimary, oldIndex_add_two hr hj hn hone htwo]

/-- The third predecessor keeps its copy of the predecessor's old primary, which
is right exactly when the merge has changed nothing. -/
theorem FullyReplicated.leave_third_iff (hn : 2 < n) :
    (c.leave r sched).HoldsCopy (back n r 3) 2 ↔
      overlay (contents (c.primary (back (n + 1) r 1))) (contents (c.primary r)) =
        contents (c.primary (back (n + 1) r 1)) := by
  have hj : back n r 3 < n := back_lt (by omega)
  have hnum' : (c.leave r sched).slaves.num = n := by simp [hnum]
  have hdisk := h.diskAt_leave (by omega) hsched (j := back n r 3) (by omega)
  have hone : back n r 3 ≠ back n r 1 := by
    rw [back_eq hr (by omega) (by omega), back_eq hr (by omega) (by omega)]
    split_ifs <;> omega
  have htwo : back n r 3 ≠ back n r 2 := by
    rw [back_eq hr (by omega) (by omega), back_eq hr (by omega) (by omega)]
    split_ifs <;> omega
  have hsecond : (back n r 3 + 2) % n = back n r 1 :=
    (add_two_eq_back_one_iff hr hj hn).mpr rfl
  have holdlt : oldIndex r (back n r 3) < n + 1 := oldIndex_lt (by omega)
  have hold := (hfull (oldIndex r (back n r 3)) (by rw [hnum]; exact holdlt)).2
  rw [HoldsCopy, hnum, ← oldIndex_add_two hr hj (by omega) hone htwo, hsecond,
    oldIndex_back hr (by omega)] at hold
  obtain ⟨file, hfile, hcontents⟩ := hold (by
    rw [← oldIndex_back hr (by omega)]
    exact fun heq => hone (oldIndex_inj heq).symm)
  have hbackup : (c.leave r sched).diskAt (back n r 3) =
      c.diskAt (oldIndex r (back n r 3)) := by
    rw [hdisk]
    simp only [afterLeave, hnum, Nat.add_sub_cancel, if_neg hone, if_neg htwo]
  rw [HoldsCopy, hnum', hsecond, hbackup,
    hfull.primary_leave_pre h hnum hr hsched (by omega), hfile, ← hcontents]
  constructor
  · intro hcopy
    obtain ⟨file', hfile', hcontents'⟩ := hcopy hone.symm
    obtain rfl := Option.some.inj hfile'
    exact hcontents'.symm
  · intro hmerge _
    exact ⟨file, rfl, hmerge.symm⟩

end Leave

/-- **When a departure re-establishes replication.**  After the departure of any
node of a fully replicated cluster, the cluster is fully replicated again if and
only if it had at most three slaves or the merge left the predecessor's primary
as it was. -/
theorem leave_fullyReplicated_iff (c : Cluster) (h : c.Wf) (hfull : c.FullyReplicated)
    (r : Nat) (hr : r < c.slaves.num) (sched : List RmStep)
    (hsched : IsSchedule c.slaves.num r sched) :
    (c.leave r sched).FullyReplicated ↔
      (c.slaves.num ≤ 3 ∨
        overlay (contents (c.primary (back c.slaves.num r 1))) (contents (c.primary r)) =
          contents (c.primary (back c.slaves.num r 1))) := by
  obtain ⟨n, hnum⟩ : ∃ n, c.slaves.num = n + 1 := ⟨c.slaves.num - 1, by omega⟩
  have hr' : r ≤ n := by omega
  have hnum' : (c.leave r sched).slaves.num = n := by simp [hnum]
  have hthird := hfull.leave_third_iff h hnum hr' hsched
  rw [hnum]
  constructor
  · intro hagain
    rcases Nat.lt_or_ge 2 n with hn | hn
    · right
      refine (hthird hn).mp (hagain _ ?_).2
      rw [hnum']
      exact back_lt (by omega)
    · exact Or.inl (by omega)
  · intro hcond j hj
    rw [hnum'] at hj
    refine ⟨hfull.leave_backup1 h hnum hr' hsched hj, ?_⟩
    rcases Nat.lt_or_ge 2 n with hn | hn
    · rcases eq_or_ne ((j + 2) % n) (back n r 1) with heq | hne
      · rw [(add_two_eq_back_one_iff hr' hj hn).mp heq]
        refine (hthird hn).mpr ?_
        rcases hcond with hsmall | hmerge
        · exact absurd hsmall (by omega)
        · exact hmerge
      · exact hfull.leave_backup2 h hnum hr' hsched hj hne
    · -- in a ring of at most two slaves the second successor is the slave itself
      intro hne
      rw [hnum'] at hne
      exact absurd (two_mod_eq hj hn) hne

/-- The files of a cluster in which only node 1 stores something. -/
def onlyNodeOne (i : Nat) : HDB :=
  if i = 1 then (∅ : HDB).insert 1500 [97] else ∅

/-- In a ring of three slaves the departure of node 1 is harmless. -/
theorem leave_fullyReplicated_three :
    ((replicated (ringOf 3) onlyNodeOne).leave 1 (oneByOne 3 1)).FullyReplicated :=
  (leave_fullyReplicated_iff (replicated (ringOf 3) onlyNodeOne)
    (wf_replicated onlyNodeOne (ringInv_ringOf (by decide)) (by decide))
    (fullyReplicated_replicated onlyNodeOne (by decide)) 1 (by decide) (oneByOne 3 1)
    (by decide)).mpr (Or.inl (by decide))

/-- In a ring of four slaves the third predecessor of node 1 is left with a
`backup2` that misses the key its second successor has taken over. -/
theorem leave_breaks_replication :
    (replicated (ringOf 4) onlyNodeOne).Wf ∧
      (replicated (ringOf 4) onlyNodeOne).FullyReplicated ∧
      IsSchedule 4 1 (oneByOne 4 1) ∧
      ¬ ((replicated (ringOf 4) onlyNodeOne).leave 1 (oneByOne 4 1)).FullyReplicated := by
  have hdistinct : (ringOf 4).DistinctAddrs := by decide
  have hwf := wf_replicated onlyNodeOne (ringInv_ringOf (n := 4) (by decide)) hdistinct
  have hfull := fullyReplicated_replicated onlyNodeOne hdistinct
  refine ⟨hwf, hfull, by decide, ?_⟩
  intro hagain
  have hmerge := (hfull.leave_third_iff (n := 3) (r := 1) hwf (by decide) (by decide)
    (by decide) (by decide)).mp (hagain _ (by decide)).2
  have hkey := congrFun hmerge 1500
  exact absurd hkey (by decide)

end Cluster

end DistributedDB
