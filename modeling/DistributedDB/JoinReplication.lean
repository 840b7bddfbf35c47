import DistributedDB.Join

/-!
# Replication after a registration

The registration of a slave changes one old primary, the predecessor's, which
gives up the new slave's section.  The second predecessor's `backup1` follows it,
but the third predecessor's `backup2`, which is a copy of the same primary, is
left as it was.

The proof works on the cluster after the notifications, in which the old slaves
are still replicated as in the ring without the new node.

**Results.**
* `ReplicatedBut`: that intermediate situation.
* `ReplicatedBut.backup1`, `ReplicatedBut.backup2`: the backups after
  `InitialSlave`, all but one.
* `join_fullyReplicated_iff`: exactly when the cluster is fully replicated again.
-/

namespace DistributedDB

open PartialMap RingIndex

namespace Cluster

/-- A file with the contents of a primary is there. -/
def CopyOf (backup : Option HDB) (primary : HDB) : Prop :=
  ∃ file, backup = some file ∧ contents file = contents primary

/-- Slaves other than the new node `i` hold the backups that they held in the ring
without it. -/
structure ReplicatedBut (c : Cluster) (i : Nat) : Prop where
  /-- The predecessor's successor was the new node's. -/
  pre : 2 < c.slaves.num →
    CopyOf (c.diskAt (back c.slaves.num i 1)).backup1
      (c.primary ((i + 1) % c.slaves.num))
  first : ∀ j, 2 < c.slaves.num → j < c.slaves.num → j ≠ i →
    j ≠ back c.slaves.num i 1 →
    CopyOf (c.diskAt j).backup1 (c.primary ((j + 1) % c.slaves.num))
  second : ∀ j, 3 < c.slaves.num → j < c.slaves.num → j ≠ i →
    j ≠ back c.slaves.num i 1 → j ≠ back c.slaves.num i 2 →
    CopyOf (c.diskAt j).backup2 (c.primary ((j + 2) % c.slaves.num))

section Initialisation

variable {c : Cluster} {i : Nat}
variable (h : c.Wf) (hbut : c.ReplicatedBut i) (hi : i < c.slaves.num)
  (hnum : 1 < c.slaves.num)
include h hi hnum

theorem Wf.diskAt_initialSlave {j : Nat} (hj : j < c.slaves.num) :
    (c.initialSlave (c.addr i)).diskAt j = c.initialised i j := by
  rw [diskAt, h.slaveAt_initialSlave hi hj hnum]

/-- Which backup is to be checked after the initialisation. -/
theorem Wf.holdsCopy_initialSlave_iff {j : Nat} (hj : j < c.slaves.num) (k : Nat) :
    (c.initialSlave (c.addr i)).HoldsCopy j k ↔
      ((j + k) % c.slaves.num ≠ j →
        CopyOf ((c.initialised i j).backup k)
          (c.clippedPrimary i ((j + k) % c.slaves.num))) := by
  rw [HoldsCopy, slaves_initialSlave, h.diskAt_initialSlave hi hnum hj,
    h.primary_initialSlave hi (Nat.mod_lt _ (by omega)) hnum]
  rfl

include hbut

/-- Every `backup1` is right after the initialisation. -/
theorem ReplicatedBut.backup1 {j : Nat} (hj : j < c.slaves.num) :
    (c.initialSlave (c.addr i)).HoldsCopy j 1 := by
  rw [h.holdsCopy_initialSlave_iff hi hnum hj]
  intro _
  have hpre : back c.slaves.num i 1 ≠ i := back_one_ne hi hnum
  simp only [initialised, Disk.backup, if_true]
  rcases eq_or_ne j i with rfl | hji
  · rw [if_pos rfl]
    exact ⟨_, rfl, rfl⟩
  · rw [if_neg hji]
    rcases eq_or_ne j (back c.slaves.num i 1) with rfl | hone
    · -- the predecessor keeps the part it sends
      rw [if_pos rfl, back_one_succ hi, clippedPrimary, if_pos rfl]
      exact ⟨_, rfl, rfl⟩
    · have hthree : 2 < c.slaves.num := by
        rw [back_eq (by omega) (by omega) (by omega)] at hone
        split_ifs at hone <;> omega
      obtain ⟨file, hfile, hcontents⟩ := hbut.first j hthree hj hji hone
      rw [if_neg hone]
      rcases eq_or_ne j (back c.slaves.num i 2) with rfl | htwo
      · -- the second predecessor splits its copy as the predecessor its primary
        have hsucc : (back c.slaves.num i 2 + 1) % c.slaves.num = back c.slaves.num i 1 :=
          (succ_eq_back_iff (by omega) hj (by omega) (by omega)).mpr rfl
        rw [hsucc] at hcontents ⊢
        rw [if_pos ⟨hthree, rfl⟩, clippedPrimary, if_neg hpre, if_pos rfl]
        refine ⟨_, rfl, ?_⟩
        rw [(h.contents_clipped (by omega)).1, (contents_splitByKey _ _ _ _).1, hfile,
          ← hcontents]
        rfl
      · rw [if_neg (fun hc => htwo hc.2), clippedPrimary, if_neg ?ne, if_neg ?nepre]
        · exact ⟨file, hfile, hcontents⟩
        case ne =>
            rw [succ_eq_iff hi hj]
            exact hone
        case nepre =>
            rw [succ_eq_back_iff (by omega) hj (by omega) (by omega)]
            exact htwo

/-- Every `backup2` is right after the initialisation that is not a copy of the
predecessor's primary. -/
theorem ReplicatedBut.backup2 {j : Nat} (hj : j < c.slaves.num)
    (hthird : (j + 2) % c.slaves.num = back c.slaves.num i 1 → j = i) :
    (c.initialSlave (c.addr i)).HoldsCopy j 2 := by
  rw [h.holdsCopy_initialSlave_iff hi hnum hj]
  intro hne
  have hthree : 2 < c.slaves.num := by
    by_contra hsmall
    exact hne (two_mod_eq hj (by omega))
  simp only [initialised, Disk.backup, OfNat.ofNat_ne_one, if_false]
  rcases eq_or_ne j i with rfl | hji
  · rw [if_pos rfl]
    refine ⟨_, if_pos hthree, rfl⟩
  · rw [if_neg hji]
    have hthird' : (j + 2) % c.slaves.num ≠ back c.slaves.num i 1 :=
      fun heq => hji (hthird heq)
    rcases eq_or_ne j (back c.slaves.num i 1) with rfl | hone
    · -- the predecessor has moved its `backup1` there
      have hsucc : (back c.slaves.num i 1 + 2) % c.slaves.num = (i + 1) % c.slaves.num :=
        back_add 1 (by omega)
      obtain ⟨file, hfile, hcontents⟩ := hbut.pre hthree
      rw [if_pos rfl, hsucc, clippedPrimary, if_neg (succ_mod_ne hi hnum),
        if_neg (by rw [← hsucc]; exact hthird')]
      refine ⟨file, ?_, hcontents⟩
      simp [clipped, Disk.clip, Disk.mvBackup1, hfile]
    · rw [if_neg hone]
      rcases eq_or_ne j (back c.slaves.num i 2) with rfl | htwo
      · -- the second predecessor has split its `backup1` into it
        have hsucc : (back c.slaves.num i 2 + 1) % c.slaves.num = back c.slaves.num i 1 :=
          (succ_eq_back_iff (by omega) hj (by omega) (by omega)).mpr rfl
        have hsecond : (back c.slaves.num i 2 + 2) % c.slaves.num = i := by
          rw [add_two_mod, hsucc]
          exact back_one_succ hi
        obtain ⟨file, hfile, hcontents⟩ := hbut.first _ hthree hj hji hone
        rw [hsucc] at hcontents
        rw [if_pos ⟨hthree, rfl⟩, hsecond, clippedPrimary, if_pos rfl]
        refine ⟨_, rfl, ?_⟩
        rw [(h.contents_clipped (by omega)).2, (contents_splitByKey _ _ _ _).2, hfile,
          ← hcontents]
        exact overlay_empty_left _
      · have hi2 : (j + 2) % c.slaves.num ≠ i := by
          rw [add_two_mod, ne_eq, succ_eq_iff hi (Nat.mod_lt _ (by omega)),
            succ_eq_back_iff (by omega) hj (by omega) (by omega)]
          exact htwo
        have hfour : 3 < c.slaves.num := by
          rw [back_eq (by omega) (by omega) (by omega)] at hone htwo
          split_ifs at hone htwo <;> omega
        rw [if_neg (fun hc => htwo hc.2), clippedPrimary, if_neg hi2, if_neg hthird']
        exact hbut.second j hfour hj hji hone htwo

/-- The third predecessor keeps its copy of the predecessor's old primary, which
is right exactly when the predecessor has given up nothing. -/
theorem ReplicatedBut.third_iff (hfour : 3 < c.slaves.num) :
    (c.initialSlave (c.addr i)).HoldsCopy (back c.slaves.num i 3) 2 ↔
      ∀ k, contents (c.primary (back c.slaves.num i 1)) k ≠ none →
        ¬ sectionRange c.slaves i k = true := by
  have hj : back c.slaves.num i 3 < c.slaves.num := back_lt (by omega)
  have hji : back c.slaves.num i 3 ≠ i := by
    rw [back_eq (by omega) (by omega) (by omega)]
    split_ifs <;> omega
  have hone : back c.slaves.num i 3 ≠ back c.slaves.num i 1 := by
    rw [back_eq (by omega) (by omega) (by omega), back_eq (by omega) (by omega) (by omega)]
    split_ifs <;> omega
  have htwo : back c.slaves.num i 3 ≠ back c.slaves.num i 2 := by
    rw [back_eq (by omega) (by omega) (by omega), back_eq (by omega) (by omega) (by omega)]
    split_ifs <;> omega
  have hsecond : (back c.slaves.num i 3 + 2) % c.slaves.num = back c.slaves.num i 1 :=
    (add_two_eq_back_one_iff (by omega) hj (by omega)).mpr rfl
  obtain ⟨file, hfile, hcontents⟩ := hbut.second _ hfour hj hji hone htwo
  rw [hsecond] at hcontents
  rw [h.holdsCopy_initialSlave_iff hi hnum hj, hsecond]
  simp only [initialised, Disk.backup, OfNat.ofNat_ne_one, if_false, if_neg hji,
    if_neg hone, if_neg (fun hc : _ ∧ _ => htwo hc.2), clippedPrimary,
    if_neg (back_one_ne hi hnum), if_true, hfile]
  rw [← restrict_eq_self_iff (contents (c.primary (back c.slaves.num i 1)))
    (fun k => ¬ sectionRange c.slaves i k = true), ← (h.contents_clipped (by omega)).1,
    ← hcontents]
  constructor
  · intro hcopy
    obtain ⟨file', hfile', hcontents'⟩ := hcopy hone.symm
    obtain rfl := Option.some.inj hfile'
    exact hcontents'.symm
  · intro hsame _
    exact ⟨file, rfl, hsame.symm⟩

end Initialisation

section Registration

variable {c : Cluster} {sn : SlaveNode} (rand : Nat) (disk : Disk)
variable (h : c.Wf) (hmax : c.slaves.num < MAX_SLAVE_NUM) (hfresh : c.Fresh sn)
include h hmax hfresh

/-- The backup of an old slave, looked up after the notifications. -/
theorem HoldsCopy.registered {j j' k : Nat}
    (hcopy : c.HoldsCopy (newIndex (addToSlaveList c.slaves sn rand).2 j) k)
    (hj : j ≤ c.slaves.num) (hne : j ≠ (addToSlaveList c.slaves sn rand).2)
    (hj' : j' ≤ c.slaves.num) (hne' : j' ≠ (addToSlaveList c.slaves sn rand).2)
    (hsucc : newIndex (addToSlaveList c.slaves sn rand).2 j' =
      (newIndex (addToSlaveList c.slaves sn rand).2 j + k) % c.slaves.num)
    (hother : (newIndex (addToSlaveList c.slaves sn rand).2 j + k) % c.slaves.num ≠
      newIndex (addToSlaveList c.slaves sn rand).2 j) :
    CopyOf (((c.registered sn rand disk).diskAt j).backup k)
      ((c.registered sn rand disk).primary j') := by
  rw [h.diskAt_registered sn rand disk hmax hfresh hj hne,
    h.primary_registered sn rand disk hmax hfresh hj' hne', hsucc]
  exact hcopy hother

/-- After the notifications the old slaves are replicated as before. -/
theorem FullyReplicated.registered (hfull : c.FullyReplicated) :
    (c.registered sn rand disk).ReplicatedBut (addToSlaveList c.slaves sn rand).2 := by
  have hnew := (newpos_eq c.slaves h.ring sn rand hmax).1
  have hnum := h.num_registered sn rand disk hmax
  have hpre := back_lt (i := (addToSlaveList c.slaves sn rand).2) (k := 1)
    (show 0 < c.slaves.num + 1 by omega)
  have hmod := fun j => Nat.mod_lt j (show 0 < c.slaves.num + 1 by omega)
  constructor
  case pre =>
    intro hthree
    rw [hnum] at hthree ⊢
    have hne := back_one_ne (i := (addToSlaveList c.slaves sn rand).2)
      (show _ < c.slaves.num + 1 by omega) (by omega)
    have hlt := newIndex_lt hnew (by omega) hne
    exact HoldsCopy.registered rand disk h hmax hfresh (k := 1) (hfull _ hlt).1
      (by omega) hne (Nat.lt_succ_iff.mp (hmod _)) (succ_mod_ne (by omega) (by omega))
      (newIndex_back_succ hnew (by omega)) (succ_mod_ne hlt (by omega))
  case first =>
    intro j hthree hj hne hone
    rw [hnum] at hthree hj hone ⊢
    have hlt := newIndex_lt hnew (by omega) hne
    refine HoldsCopy.registered rand disk h hmax hfresh (k := 1) (hfull _ hlt).1
      (by omega) hne (Nat.lt_succ_iff.mp (hmod _)) ?_
      (newIndex_succ hnew (by omega) hne hone) (succ_mod_ne hlt (by omega))
    rw [ne_eq, succ_eq_iff (by omega) hj]
    exact hone
  case second =>
    intro j hfour hj hne hone htwo
    rw [hnum] at hfour hj hone htwo ⊢
    have hlt := newIndex_lt hnew (by omega) hne
    refine HoldsCopy.registered rand disk h hmax hfresh (k := 2) (hfull _ hlt).2
      (by omega) hne (Nat.lt_succ_iff.mp (hmod _)) ?_
      (newIndex_add_two hnew (by omega) (by omega) hne hone htwo)
      (two_mod_ne hlt (by omega))
    rw [add_two_mod, ne_eq, succ_eq_iff (by omega) (hmod _),
      succ_eq_back_iff (by omega) hj (by omega) (by omega)]
    exact htwo

end Registration

/-- **When a registration re-establishes replication.**  After the registration
of any slave in a fully replicated cluster whose keys are below `MAX_KEY`, the
cluster is fully replicated again if and only if it had at most two slaves or the
new slave's predecessor has given up no key. -/
theorem join_fullyReplicated_iff (c : Cluster) (h : c.Wf) (hfull : c.FullyReplicated)
    (hmax : c.slaves.num < MAX_SLAVE_NUM)
    (hkeys : ∀ i, i < c.slaves.num → ∀ k, contents (c.primary i) k ≠ none →
      k.toNat < MAX_KEY)
    (sn : SlaveNode) (hfresh : c.Fresh sn) (rand : Nat) (disk : Disk)
    (htmp : disk.file_tmp = none) :
    (c.join sn rand disk).FullyReplicated ↔
      (c.slaves.num ≤ 2 ∨
        ∀ k, contents (c.primary ((addToSlaveList c.slaves sn rand).2 - 1)) k ≠ none →
          getSocket (addToSlaveList c.slaves sn rand).1 k ≠
            some (addToSlaveList c.slaves sn rand).2) := by
  have hwf := h.registered sn rand disk hmax hfresh htmp
  have hnew := newpos_eq c.slaves h.ring sn rand hmax
  have hnum := h.num_registered sn rand disk hmax
  have hslaves := slaves_registered (c := c) sn rand disk
  rcases Nat.eq_zero_or_pos c.slaves.num with hzero | hpos
  · -- the first slave of a ring has no other to copy from
    rw [h.join_of_empty sn rand disk hfresh htmp hzero]
    refine iff_of_true ?_ (Or.inl (by omega))
    intro i hi
    constructor <;> intro hne <;> rw [hnum, hzero, Nat.mod_one] at hne <;> omega
  · have hbut := hfull.registered rand disk h hmax hfresh
    have hpre : back (c.slaves.num + 1) (addToSlaveList c.slaves sn rand).2 1 =
        (addToSlaveList c.slaves sn rand).2 - 1 := by
      have := hnew.2 hpos
      rw [back_eq (by omega) (by omega) (by omega), if_pos (by omega)]
    have hpos' := hnew.2 hpos
    have hprimary : (c.registered sn rand disk).primary
        ((addToSlaveList c.slaves sn rand).2 - 1) =
          c.primary ((addToSlaveList c.slaves sn rand).2 - 1) := by
      rw [h.primary_registered sn rand disk hmax hfresh (by omega) (by omega), newIndex,
        if_neg (by omega)]
    rw [join_eq, ← h.addr_registered_new sn rand disk hmax]
    generalize (addToSlaveList c.slaves sn rand).2 = i at *
    have hi : i < (c.registered sn rand disk).slaves.num := by omega
    have htwo : 1 < (c.registered sn rand disk).slaves.num := by omega
    -- below `MAX_KEY` the clipped range is what the new list routes to the new slave
    have hthird : 3 < (c.registered sn rand disk).slaves.num →
        (((c.registered sn rand disk).initialSlave
          ((c.registered sn rand disk).addr i)).HoldsCopy
            (back (c.slaves.num + 1) i 3) 2 ↔
          ∀ k, contents (c.primary (i - 1)) k ≠ none →
            getSocket (addToSlaveList c.slaves sn rand).1 k ≠ some i) := by
      intro hfour
      have hiff := hbut.third_iff hwf hi htwo hfour
      rw [hnum, hpre, hprimary] at hiff
      rw [hiff]
      refine forall_congr' fun k => forall_congr' fun hk => not_congr ?_
      rw [← hslaves]
      exact sectionRange_iff_getSocket hwf.ring hi (hkeys (i - 1) (by omega) k hk)
    constructor
    · intro hagain
      rcases Nat.lt_or_ge 2 c.slaves.num with hlt | hge
      · refine Or.inr ((hthird (by omega)).mp (hagain _ ?_).2)
        rw [slaves_initialSlave, hnum]
        exact back_lt (by omega)
      · exact Or.inl hge
    · intro hcond j hj
      rw [slaves_initialSlave] at hj
      refine ⟨hbut.backup1 hwf hi htwo hj, ?_⟩
      rcases Nat.lt_or_ge 2 (c.registered sn rand disk).slaves.num with hthree | hsmall
      · rcases eq_or_ne j (back (c.slaves.num + 1) i 3) with heq | hne
        · rcases Nat.lt_or_ge 2 c.slaves.num with hlt | hge
          · rw [heq]
            exact (hthird (by omega)).mpr (hcond.resolve_left (by omega))
          · -- in a ring of three slaves the third predecessor is the new slave
            refine hbut.backup2 hwf hi htwo hj (fun _ => ?_)
            rw [heq, back_eq (by omega) (by omega) (by omega)]
            split_ifs <;> omega
        · refine hbut.backup2 hwf hi htwo hj (fun heq => absurd heq ?_)
          rw [add_two_eq_back_one_iff (by omega) hj hthree, hnum]
          exact hne
      · intro hother
        rw [slaves_initialSlave] at hother
        exact absurd (two_mod_eq hj hsmall) hother

/-- The files of a cluster in which only node 2 stores something. -/
def onlyNodeTwo (i : Nat) : HDB :=
  if i = 2 then (∅ : HDB).insert 3500 [97] else ∅

theorem onlyNodeTwo_keys {slaves : SlaveList} (hdistinct : slaves.DistinctAddrs) :
    ∀ i, i < slaves.num → ∀ k,
      contents ((replicated slaves onlyNodeTwo).primary i) k ≠ none → k.toNat < MAX_KEY := by
  intro i hi k hk
  rw [primary_replicated hdistinct hi, onlyNodeTwo] at hk
  split at hk
  · rw [contents_insert, Function.update_apply] at hk
    split at hk
    case isTrue heq =>
        rw [heq]
        decide
    case isFalse => exact absurd rfl hk
  · exact absurd rfl hk

/-- What a slave finds in its directory when it starts for the first time. -/
def emptyDisk : Disk := ⟨∅, none, none, none⟩

/-- A third slave joins two: no third predecessor, no stale copy. -/
theorem join_fullyReplicated_two :
    ((replicated (ringOf 2) onlyNodeTwo).join ⟨0, 9, 0, 0⟩ 0 emptyDisk).FullyReplicated :=
  (join_fullyReplicated_iff (replicated (ringOf 2) onlyNodeTwo)
    (wf_replicated onlyNodeTwo (ringInv_ringOf (by decide)) (by decide))
    (fullyReplicated_replicated onlyNodeTwo (by decide)) (by decide)
    (onlyNodeTwo_keys (by decide)) ⟨0, 9, 0, 0⟩ (by decide) 0 emptyDisk
    rfl).mpr (Or.inl (by decide))

/-- A fourth slave joins three: the key that its predecessor gives up stays in the
`backup2` of the third predecessor. -/
theorem join_breaks_replication :
    (replicated (ringOf 3) onlyNodeTwo).Wf ∧
      (replicated (ringOf 3) onlyNodeTwo).FullyReplicated ∧
      (∀ i, i < (ringOf 3).num → ∀ k,
        contents ((replicated (ringOf 3) onlyNodeTwo).primary i) k ≠ none →
          k.toNat < MAX_KEY) ∧
      (replicated (ringOf 3) onlyNodeTwo).Fresh ⟨0, 9, 0, 0⟩ ∧
      ¬ ((replicated (ringOf 3) onlyNodeTwo).join ⟨0, 9, 0, 0⟩ 0
        emptyDisk).FullyReplicated := by
  have hdistinct : (ringOf 3).DistinctAddrs := by decide
  have hring : RingInv (ringOf 3) := ringInv_ringOf (by decide)
  have hwf := wf_replicated onlyNodeTwo hring hdistinct
  have hfull := fullyReplicated_replicated onlyNodeTwo hdistinct
  have hfresh : (replicated (ringOf 3) onlyNodeTwo).Fresh ⟨0, 9, 0, 0⟩ := by decide
  have hmax : (replicated (ringOf 3) onlyNodeTwo).slaves.num < MAX_SLAVE_NUM := by decide
  refine ⟨hwf, hfull, onlyNodeTwo_keys hdistinct, hfresh, ?_⟩
  have hnum := hwf.num_registered ⟨0, 9, 0, 0⟩ 0 emptyDisk hmax
  have hnew : (addToSlaveList (replicated (ringOf 3) onlyNodeTwo).slaves
      ⟨0, 9, 0, 0⟩ 0).2 = 3 := by decide
  have hnum3 : (replicated (ringOf 3) onlyNodeTwo).slaves.num = 3 := by decide
  have hbut := hfull.registered 0 emptyDisk hwf hmax hfresh
  have hwf' := hwf.registered ⟨0, 9, 0, 0⟩ 0 emptyDisk hmax hfresh rfl
  rw [hnew] at hbut
  rw [join_eq, ← hwf.addr_registered_new ⟨0, 9, 0, 0⟩ 0 emptyDisk hmax, hnew]
  intro hagain
  have hthird := (hbut.third_iff hwf' (by omega) (by omega) (by omega)).mp
    (hagain _ (by rw [slaves_initialSlave]; exact back_lt (by omega))).2
  rw [hnum, hnum3] at hthird
  exact hthird 3500 (by decide) (by decide)

end Cluster

end DistributedDB
