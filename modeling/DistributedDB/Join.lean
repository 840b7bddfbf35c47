import DistributedDB.Cluster

/-!
# The registration of a slave

The master inserts the new slave and every old slave replays the insertion; then
the new slave fetches its data: the predecessor splits its primary and sends the
upper part, the successor sends its primary as `backup1`, the second predecessor
splits its `backup1`, and the second successor sends its primary as `backup2`.

**Results.**
* `Wf.registered`: after the notifications all slaves agree on the new list.
* `Wf.slaveAt_initialSlave`: every slave after `InitialSlave`.
* `Wf.slaveAt_join`, `Wf.join`: the registration as a whole.
-/

namespace DistributedDB

open PartialMap RingIndex

namespace Cluster

section Predecessors

variable {c : Cluster}

/-- The address of the slave `k` places back in the ring. -/
theorem Wf.peer_sub (h : c.Wf) {i k : Nat} (hi : i < c.slaves.num)
    (hk : k ≤ i + c.slaves.num) :
    c.peer (c.addr i) (-(k : Int)) =
      if back c.slaves.num i k = i then none
      else some (c.addr (back c.slaves.num i k)) := by
  have hslaves := h.slaves_eq i hi
  have hpos := h.pos_eq i hi
  simp only [slaveAt] at hslaves hpos
  have hrel : relPos i (-(k : Int)) c.slaves.num = back c.slaves.num i k := relPos_sub k hk
  simp only [peer, Slave.hisPos, hslaves, hpos, hrel]
  rcases eq_or_ne (back c.slaves.num i k) i with heq | hne
  · rw [if_pos heq, if_pos heq]
    rfl
  · rw [if_neg hne, if_neg hne]
    rfl

end Predecessors

section Initialisation

variable {c : Cluster}

/-- What the predecessor of node `i` makes of its files when `i` asks for its
part: it splits out the section of `i`. -/
def clipped (c : Cluster) (i : Nat) : Disk × HDB :=
  (c.diskAt (back c.slaves.num i 1)).clip
    (toUnsigned (c.slaves.node i).key)
    (toUnsigned (c.slaves.node ((i + 1) % c.slaves.num)).key)

/-- The predecessor's `CLIP_DATA` takes its bounds from the requester's
section. -/
theorem Wf.clipData_predecessor (h : c.Wf) {i : Nat} (hi : i < c.slaves.num)
    (hnum : 1 < c.slaves.num) :
    (c.slaveAt (back c.slaves.num i 1)).clipData =
      ({ c.slaveAt (back c.slaves.num i 1) with disk := (c.clipped i).1 },
        (c.clipped i).2) := by
  have hb := back_lt (i := i) (k := 1) (show 0 < c.slaves.num by omega)
  have hone := back_one_succ hi
  have htwo : (back c.slaves.num i 1 + 2) % c.slaves.num = (i + 1) % c.slaves.num :=
    back_add 1 (by omega)
  simp only [Slave.clipData, h.slaves_eq _ hb, h.pos_eq _ hb, hone, htwo]
  rfl

/-- Every slave after node `i` has fetched its part from its predecessor. -/
theorem Wf.slaveAt_clipDataFromPre (h : c.Wf) {i j : Nat} (hi : i < c.slaves.num)
    (hj : j < c.slaves.num) (hnum : 1 < c.slaves.num) :
    (c.clipDataFromPre (c.addr i)).slaveAt j =
      if j = i then (c.slaveAt i).recvFile 0 (c.clipped i).2
      else if j = back c.slaves.num i 1 then
        { c.slaveAt j with disk := (c.clipped i).1 }
      else c.slaveAt j := by
  have hb := back_lt (i := i) (k := 1) (show 0 < c.slaves.num by omega)
  have hbi := back_one_ne hi hnum
  have hpeer : c.peer (c.addr i) (-1) = some (c.addr (back c.slaves.num i 1)) := by
    have := h.peer_sub (k := 1) hi (by omega)
    rw [if_neg hbi] at this
    exact this
  have hclip := h.clipData_predecessor hi hnum
  simp only [slaveAt] at hclip
  simp only [clipDataFromPre, hpeer, slaveAt, addr_setProc]
  rw [procs_setProc]
  rcases eq_or_ne j i with rfl | hne
  · rw [if_pos rfl, if_pos rfl, procs_setProc_of_ne _ (h.addr_ne hi hb hbi.symm), hclip]
  · rw [if_neg (h.addr_ne hj hi hne), if_neg hne, procs_setProc]
    rcases eq_or_ne j (back c.slaves.num i 1) with rfl | hnb
    · rw [if_pos rfl, if_pos rfl, hclip]
    · rw [if_neg (h.addr_ne hj hb hnb), if_neg hnb]

@[simp] theorem slaves_clipDataFromPre (a : Addr) :
    (c.clipDataFromPre a).slaves = c.slaves := by
  unfold clipDataFromPre
  split <;> rfl

theorem Wf.clipDataFromPre (h : c.Wf) {i : Nat} (hi : i < c.slaves.num)
    (hnum : 1 < c.slaves.num) : (c.clipDataFromPre (c.addr i)).Wf := by
  refine h.of_same_lists (slaves_clipDataFromPre _) ?_
  intro j hj
  rw [h.slaveAt_clipDataFromPre hi hj hnum]
  split
  case isTrue hji => simp [hji]
  case isFalse =>
      split
      case isTrue => exact ⟨rfl, rfl, (h.tmp_none j hj).symm⟩
      case isFalse => exact ⟨rfl, rfl, rfl⟩

/-- Every slave after the second predecessor of node `i` has split its
`backup1`. -/
theorem Wf.slaveAt_notify2ndPre (h : c.Wf) {i j : Nat} (hi : i < c.slaves.num)
    (hj : j < c.slaves.num) (hnum : 2 < c.slaves.num) :
    (c.notify2ndPreUpdateBackup2 (c.addr i)).slaveAt j =
      if j = back c.slaves.num i 2 then
        { c.slaveAt j with
          disk := (c.diskAt j).updateBackup2
            (toUnsigned (c.slaves.node i).key)
            (toUnsigned (c.slaves.node ((i + 1) % c.slaves.num)).key) }
      else c.slaveAt j := by
  have hb := back_lt (i := i) (k := 2) (show 0 < c.slaves.num by omega)
  have hbi := back_two_ne hi hnum
  have hpeer : c.peer (c.addr i) (-2) = some (c.addr (back c.slaves.num i 2)) := by
    have := h.peer_sub (k := 2) hi (by omega)
    rw [if_neg hbi] at this
    exact this
  have htwo : (back c.slaves.num i 2 + 2) % c.slaves.num = i :=
    (back_add 0 (by omega)).trans (Nat.mod_eq_of_lt hi)
  have hthree : (back c.slaves.num i 2 + 3) % c.slaves.num = (i + 1) % c.slaves.num :=
    back_add 1 (by omega)
  simp only [notify2ndPreUpdateBackup2, hpeer]
  rw [h.slaveAt_setProc hb hj]
  rcases eq_or_ne j (back c.slaves.num i 2) with rfl | hne
  · have hs := h.slaves_eq _ hb
    have hp := h.pos_eq _ hb
    simp only [slaveAt] at hs hp
    rw [if_pos rfl, if_pos rfl]
    simp only [Slave.updateBackup2, hs, hp, htwo, hthree, diskAt, slaveAt]
  · rw [if_neg hne, if_neg hne]

@[simp] theorem slaves_notify2ndPre (a : Addr) :
    (c.notify2ndPreUpdateBackup2 a).slaves = c.slaves := by
  unfold notify2ndPreUpdateBackup2
  split <;> rfl

theorem Wf.notify2ndPre (h : c.Wf) {i : Nat} (hi : i < c.slaves.num)
    (hnum : 2 < c.slaves.num) : (c.notify2ndPreUpdateBackup2 (c.addr i)).Wf := by
  refine h.of_same_lists (slaves_notify2ndPre _) ?_
  intro j hj
  rw [h.slaveAt_notify2ndPre hi hj hnum]
  split <;> exact ⟨rfl, rfl, rfl⟩

/-- The primary of node `j` after node `i` has fetched its part. -/
def clippedPrimary (c : Cluster) (i j : Nat) : HDB :=
  if j = i then (c.clipped i).2
  else if j = back c.slaves.num i 1 then (c.clipped i).1.file_master
  else c.primary j

/-- The files of node `j` after the initialisation of node `i`. -/
def initialised (c : Cluster) (i j : Nat) : Disk :=
  let num := c.slaves.num
  if j = i then
    { file_master := (c.clipped i).2
      file_tmp := (c.diskAt i).file_tmp
      backup1 := some (c.clippedPrimary i ((i + 1) % num))
      backup2 :=
        if 2 < num then some (c.clippedPrimary i ((i + 2) % num))
        else (c.diskAt i).backup2 }
  else if j = back num i 1 then (c.clipped i).1
  else if 2 < num ∧ j = back num i 2 then
    (c.diskAt j).updateBackup2
      (toUnsigned (c.slaves.node i).key)
      (toUnsigned (c.slaves.node ((i + 1) % num)).key)
  else c.diskAt j

/-- The state after `CLIP_DATA` and the first fetch. -/
theorem Wf.slaveAt_firstHalf (h : c.Wf) {i j : Nat} (hi : i < c.slaves.num)
    (hj : j < c.slaves.num) (hnum : 1 < c.slaves.num) :
    ((c.clipDataFromPre (c.addr i)).backupForOtherSlave (c.addr i) 1).slaveAt j =
      if j = i then
        { c.slaveAt i with
          disk := { c.diskAt i with
            file_master := (c.clipped i).2
            backup1 := some (c.clippedPrimary i ((i + 1) % c.slaves.num)) } }
      else if j = back c.slaves.num i 1 then
        { c.slaveAt j with disk := (c.clipped i).1 }
      else c.slaveAt j := by
  have hwf := h.clipDataFromPre hi hnum
  have hslaves := slaves_clipDataFromPre (c := c) (c.addr i)
  have haddr : (c.clipDataFromPre (c.addr i)).addr i = c.addr i := by
    simp [addr]
  have hnext := Nat.mod_lt (i + 1) (show 0 < c.slaves.num by omega)
  have hne := succ_mod_ne hi hnum
  have hprimary : (c.clipDataFromPre (c.addr i)).primary ((i + 1) % c.slaves.num) =
      c.clippedPrimary i ((i + 1) % c.slaves.num) := by
    simp only [primary, diskAt, clippedPrimary]
    rw [h.slaveAt_clipDataFromPre hi hnext hnum, if_neg hne, if_neg hne]
    split <;> rfl
  have hfetch := hwf.slaveAt_backupForOtherSlave (i := i) (j := j)
    (by rw [hslaves]; exact hi) (by rw [hslaves]; exact hj) 1
  rw [haddr, hslaves, hprimary, h.slaveAt_clipDataFromPre hi hi hnum,
    h.slaveAt_clipDataFromPre hi hj hnum] at hfetch
  rw [hfetch]
  rcases eq_or_ne j i with rfl | hji
  · rw [if_pos ⟨rfl, hne⟩, if_pos rfl, if_pos rfl]
    rfl
  · rw [if_neg (fun hc => hji hc.1), if_neg hji, if_neg hji]

/-- The state after `UPDATE_BACKUP2` and the second fetch. -/
theorem Wf.slaveAt_secondHalf (h : c.Wf) {i j : Nat} (hi : i < c.slaves.num)
    (hj : j < c.slaves.num) (hnum : 2 < c.slaves.num) :
    ((c.notify2ndPreUpdateBackup2 (c.addr i)).backupForOtherSlave (c.addr i) 2).slaveAt j =
      if j = i then
        { c.slaveAt i with
          disk := { c.diskAt i with
            backup2 := some (c.primary ((i + 2) % c.slaves.num)) } }
      else if j = back c.slaves.num i 2 then
        { c.slaveAt j with
          disk := (c.diskAt j).updateBackup2
            (toUnsigned (c.slaves.node i).key)
            (toUnsigned (c.slaves.node ((i + 1) % c.slaves.num)).key) }
      else c.slaveAt j := by
  have hwf := h.notify2ndPre hi hnum
  have hslaves := slaves_notify2ndPre (c := c) (c.addr i)
  have haddr : (c.notify2ndPreUpdateBackup2 (c.addr i)).addr i = c.addr i := by
    simp [addr]
  have hbi := (back_two_ne hi hnum).symm
  have hnext := Nat.mod_lt (i + 2) (show 0 < c.slaves.num by omega)
  have hne := two_mod_ne hi hnum
  have hprimary : (c.notify2ndPreUpdateBackup2 (c.addr i)).primary
      ((i + 2) % c.slaves.num) = c.primary ((i + 2) % c.slaves.num) := by
    simp only [primary, diskAt]
    rw [h.slaveAt_notify2ndPre hi hnext hnum]
    split <;> rfl
  have hfetch := hwf.slaveAt_backupForOtherSlave (i := i) (j := j)
    (by rw [hslaves]; exact hi) (by rw [hslaves]; exact hj) 2
  rw [haddr, hslaves, hprimary, h.slaveAt_notify2ndPre hi hi hnum,
    h.slaveAt_notify2ndPre hi hj hnum, if_neg hbi] at hfetch
  rw [hfetch]
  rcases eq_or_ne j i with rfl | hji
  · rw [if_pos ⟨rfl, hne⟩, if_pos rfl]
    rfl
  · rw [if_neg (fun hc => hji hc.1), if_neg hji]

/-- **Every slave after the initialisation of node `i`.** -/
theorem Wf.slaveAt_initialSlave (h : c.Wf) {i j : Nat} (hi : i < c.slaves.num)
    (hj : j < c.slaves.num) (hnum : 1 < c.slaves.num) :
    (c.initialSlave (c.addr i)).slaveAt j =
      { c.slaveAt j with disk := c.initialised i j } := by
  have hnumAt : (c.procs (c.addr i)).slaves.num = c.slaves.num := by
    have := h.slaves_eq i hi
    simp only [slaveAt] at this
    rw [this]
  have hfirst := fun j (hj : j < c.slaves.num) => h.slaveAt_firstHalf hi hj hnum
  have hwf := (h.clipDataFromPre hi hnum).backupForOtherSlave (i := i)
    (by rw [slaves_clipDataFromPre]; exact hi) 1
  have haddr : (c.clipDataFromPre (c.addr i)).addr i = c.addr i := by
    simp [addr]
  rw [haddr] at hwf
  have hslaves : ((c.clipDataFromPre (c.addr i)).backupForOtherSlave
      (c.addr i) 1).slaves = c.slaves := by
    simp
  simp only [initialSlave, hnumAt, if_pos hnum]
  generalize (c.clipDataFromPre (c.addr i)).backupForOtherSlave (c.addr i) 1 = half
    at hfirst hwf hslaves
  rcases Nat.lt_or_ge 2 c.slaves.num with hlt | hge
  · have hb12 := back_one_ne_back_two (Nat.le_of_lt hi) hnum
    have hne := two_mod_ne hi hlt
    have haddr' : half.addr i = c.addr i := by simp [addr, hslaves]
    have hprimary : half.primary ((i + 2) % c.slaves.num) =
        c.clippedPrimary i ((i + 2) % c.slaves.num) := by
      simp only [primary, diskAt, clippedPrimary]
      rw [hfirst _ (Nat.mod_lt _ (by omega)), if_neg hne, if_neg hne]
      split <;> rfl
    have hsecond := hwf.slaveAt_secondHalf (i := i) (j := j) (by rw [hslaves]; exact hi)
      (by rw [hslaves]; exact hj) (by rw [hslaves]; exact hlt)
    rw [haddr', hslaves, hprimary] at hsecond
    rw [if_pos hlt, hsecond]
    simp only [diskAt, hfirst i hi, hfirst j hj, initialised, if_pos hlt]
    rcases eq_or_ne j i with rfl | hji
    · simp
    · simp only [if_neg hji]
      rcases eq_or_ne j (back c.slaves.num i 1) with rfl | hjb
      · simp [hb12]
      · simp [hjb, hlt]
        split <;> rfl
  · rw [if_neg (by omega), hfirst j hj]
    simp only [initialised, if_neg (show ¬ 2 < c.slaves.num by omega)]
    rcases eq_or_ne j i with rfl | hji
    · simp [diskAt]
    · simp only [if_neg hji]
      split
      · rfl
      · rw [if_neg (fun hc => absurd hc.1 (by omega))]
        rfl

theorem file_tmp_initialised (h : c.Wf) {i j : Nat} (hj : j < c.slaves.num) :
    (c.initialised i j).file_tmp = none := by
  simp only [initialised]
  split
  case isTrue hji =>
      subst hji
      exact h.tmp_none j hj
  case isFalse =>
      split
      · rfl
      · split
        · exact h.tmp_none j hj
        · exact h.tmp_none j hj

@[simp] theorem slaves_initialSlave (a : Addr) :
    (c.initialSlave a).slaves = c.slaves := by
  simp only [initialSlave]
  split <;> split <;> simp

theorem file_master_initialised (i j : Nat) :
    (c.initialised i j).file_master = c.clippedPrimary i j := by
  simp only [initialised, clippedPrimary]
  split
  · rfl
  · split
    · rfl
    · split <;> rfl

/-- The two halves of the predecessor's primary. -/
theorem Wf.contents_clipped (h : c.Wf) {i : Nat} (hnum : 0 < c.slaves.num) :
    contents (c.clipped i).1.file_master =
        restrict (fun k => ¬ sectionRange c.slaves i k = true)
          (contents (c.primary (back c.slaves.num i 1))) ∧
      contents (c.clipped i).2 =
        restrict (fun k => sectionRange c.slaves i k = true)
          (contents (c.primary (back c.slaves.num i 1))) :=
  contents_clip _ (h.tmp_none _ (back_lt hnum)) _ _

/-- Every primary after the initialisation of node `i`. -/
theorem Wf.primary_initialSlave (h : c.Wf) {i j : Nat} (hi : i < c.slaves.num)
    (hj : j < c.slaves.num) (hnum : 1 < c.slaves.num) :
    (c.initialSlave (c.addr i)).primary j = c.clippedPrimary i j := by
  rw [primary, diskAt, h.slaveAt_initialSlave hi hj hnum]
  exact file_master_initialised i j

/-- The initialisation keeps the invariant. -/
theorem Wf.initialSlave (h : c.Wf) {i : Nat} (hi : i < c.slaves.num)
    (hnum : 1 < c.slaves.num) : (c.initialSlave (c.addr i)).Wf := by
  refine h.of_same_lists (slaves_initialSlave _) ?_
  intro j hj
  rw [h.slaveAt_initialSlave hi hj hnum]
  exact ⟨rfl, rfl, (file_tmp_initialised h hj).trans (h.tmp_none j hj).symm⟩

end Initialisation

section Registration

variable {c : Cluster}

/-- The loop of `NotifyAll` up to node `n`. -/
theorem procs_notifyLoop (newpos : Nat) (sn : SlaveNode) (num : Nat)
    (hinj : ∀ i j, i < num → j < num → c.addr i = c.addr j → i = j)
    (n : Nat) (hn : n ≤ num) :
    let after := (List.range n).foldl
      (fun c' i => if i = newpos then c'
        else c'.setProc (c.addr i) ((c'.procs (c.addr i)).newSlave newpos sn)) c
    after.slaves = c.slaves ∧
      (∀ i, i < num → after.procs (c.addr i) =
        if i < n ∧ i ≠ newpos then (c.procs (c.addr i)).newSlave newpos sn
        else c.procs (c.addr i)) := by
  induction n with
  | zero => exact ⟨rfl, fun i _ => by simp⟩
  | succ n ih =>
      obtain ⟨hslaves, hprocs⟩ := ih (by omega)
      simp only [List.range_succ, List.foldl_append, List.foldl_cons, List.foldl_nil]
      generalize (List.range n).foldl _ c = before at hslaves hprocs
      rcases eq_or_ne n newpos with rfl | hne
      · rw [if_pos rfl]
        refine ⟨hslaves, ?_⟩
        intro i hi
        rw [hprocs i hi]
        have hiff : (i < n + 1 ∧ i ≠ n) ↔ (i < n ∧ i ≠ n) := by omega
        simp only [hiff]
      · rw [if_neg hne]
        refine ⟨hslaves, ?_⟩
        intro i hi
        rw [procs_setProc]
        rcases eq_or_ne i n with rfl | hin
        · rw [if_pos rfl, hprocs i hi, if_neg (by omega), if_pos ⟨by omega, hne⟩]
        · rw [if_neg (fun heq => hin (hinj i n hi (by omega) heq)), hprocs i hi]
          have hiff : (i < n + 1 ∧ i ≠ newpos) ↔ (i < n ∧ i ≠ newpos) := by omega
          simp only [hiff]

/-- The cluster when the new slave has registered: all notifications are through
and the new slave has its list, but not its data. -/
def registered (c : Cluster) (sn : SlaveNode) (rand : Nat) (disk : Disk) : Cluster :=
  let r := addToSlaveList c.slaves sn rand
  ({ c with slaves := r.1 }.notifyNewSlave r.2).setProc sn.addr ⟨r.1, r.2, disk⟩

theorem join_eq (sn : SlaveNode) (rand : Nat) (disk : Disk) :
    c.join sn rand disk = (c.registered sn rand disk).initialSlave sn.addr := rfl

/-- An old slave's handling of the notification. -/
theorem Wf.newSlave_slaveAt (h : c.Wf) {i : Nat} (hi : i < c.slaves.num)
    (newpos : Nat) (sn : SlaveNode) :
    (c.slaveAt i).newSlave newpos sn =
      { slaves := addNewSlave c.slaves newpos sn
        pos := oldIndex newpos i
        disk := c.diskAt i } := by
  have hlt : (c.slaveAt i).pos < (c.slaveAt i).slaves.num := by
    rw [h.slaves_eq i hi, h.pos_eq i hi]
    exact hi
  rw [newSlave_eq hlt, h.slaves_eq i hi, h.pos_eq i hi]
  rfl

/-- The registering slave listens at an address of its own. -/
def Fresh (c : Cluster) (sn : SlaveNode) : Prop :=
  ∀ i, i < c.slaves.num → c.addr i ≠ sn.addr

instance (c : Cluster) (sn : SlaveNode) : Decidable (c.Fresh sn) := by
  unfold Fresh
  infer_instance

/-- The list on which all slaves agree after the registration. -/
@[simp] theorem slaves_registered (sn : SlaveNode) (rand : Nat) (disk : Disk) :
    (c.registered sn rand disk).slaves = (addToSlaveList c.slaves sn rand).1 := by
  have hloop : ∀ (l : List Nat) (f : Nat → Slave → Slave) (g : Nat → Addr) (q : Nat)
      (c' : Cluster),
      (l.foldl (fun c' i => if i = q then c' else c'.setProc (g i) (f i (c'.procs (g i))))
        c').slaves = c'.slaves := by
    intro l f g q
    induction l with
    | nil => exact fun c' => rfl
    | cons i l ih =>
        intro c'
        rw [List.foldl_cons, ih]
        split <;> rfl
  exact hloop _ (fun _ s => s.newSlave _ _) _ _ _

section Spec

variable (sn : SlaveNode) (rand : Nat) (disk : Disk)

theorem procs_registered (a : Addr) :
    (c.registered sn rand disk).procs a =
      if a = sn.addr then
        ⟨(addToSlaveList c.slaves sn rand).1, (addToSlaveList c.slaves sn rand).2, disk⟩
      else
        ({ c with slaves := (addToSlaveList c.slaves sn rand).1 }.notifyNewSlave
          (addToSlaveList c.slaves sn rand).2).procs a :=
  procs_setProc _ _ _ _

theorem Wf.slaves_registered_eq (h : c.Wf) (hmax : c.slaves.num < MAX_SLAVE_NUM) :
    (c.registered sn rand disk).slaves =
      addNewSlave c.slaves (addToSlaveList c.slaves sn rand).2
        (newNode c.slaves sn rand) := by
  rw [slaves_registered]
  exact addToSlaveList_eq_addNewSlave sn rand hmax h.ring.find_lt

/-- The nodes' addresses after the registration. -/
theorem Wf.addr_registered (h : c.Wf) (hmax : c.slaves.num < MAX_SLAVE_NUM)
    {j : Nat} (hj : j ≤ c.slaves.num) :
    (c.registered sn rand disk).addr j =
      if j = (addToSlaveList c.slaves sn rand).2 then sn.addr
      else c.addr (newIndex (addToSlaveList c.slaves sn rand).2 j) := by
  have hnew := newpos_eq c.slaves h.ring sn rand hmax
  rw [addr, h.slaves_registered_eq sn rand disk hmax,
    node_addNewSlave _ hnew.1 hmax hj]
  rcases Nat.lt_trichotomy j (addToSlaveList c.slaves sn rand).2 with hlt | heq | hgt
  · rw [if_pos hlt, if_neg (by omega), newIndex, if_neg (by omega)]
    rfl
  · rw [if_neg (by omega), if_pos heq, if_pos heq]
    exact newNode_addr sn rand hmax h.ring.find_lt
  · rw [if_neg (by omega), if_neg (by omega), if_neg (by omega), newIndex, if_pos hgt]
    rfl

/-- After the registration the nodes' addresses are again distinct. -/
theorem Wf.addr_inj_registered (h : c.Wf) (hmax : c.slaves.num < MAX_SLAVE_NUM)
    (hfresh : c.Fresh sn) {i j : Nat} (hi : i ≤ c.slaves.num) (hj : j ≤ c.slaves.num)
    (heq : (c.registered sn rand disk).addr i = (c.registered sn rand disk).addr j) :
    i = j := by
  have hnew := (newpos_eq c.slaves h.ring sn rand hmax).1
  rw [h.addr_registered sn rand disk hmax hi, h.addr_registered sn rand disk hmax hj]
    at heq
  generalize (addToSlaveList c.slaves sn rand).2 = newpos at hnew heq
  rcases eq_or_ne i newpos with rfl | hin
  · rcases eq_or_ne j i with rfl | hji
    · rfl
    · rw [if_pos rfl, if_neg hji] at heq
      exact absurd heq.symm (hfresh _ (newIndex_lt hnew hj hji))
  · rcases eq_or_ne j newpos with rfl | hjn
    · rw [if_neg hin, if_pos rfl] at heq
      exact absurd heq (hfresh _ (newIndex_lt hnew hi hin))
    · rw [if_neg hin, if_neg hjn] at heq
      exact newIndex_inj hin hjn (h.addr_inj _ _ (newIndex_lt hnew hi hin)
        (newIndex_lt hnew hj hjn) heq)

/-- Every slave after the registration. -/
theorem Wf.slaveAt_registered (h : c.Wf) (hmax : c.slaves.num < MAX_SLAVE_NUM)
    (hfresh : c.Fresh sn) {j : Nat} (hj : j ≤ c.slaves.num) :
    (c.registered sn rand disk).slaveAt j =
      { slaves := (addToSlaveList c.slaves sn rand).1
        pos := j
        disk :=
          if j = (addToSlaveList c.slaves sn rand).2 then disk
          else c.diskAt (newIndex (addToSlaveList c.slaves sn rand).2 j) } := by
  have hnew := (newpos_eq c.slaves h.ring sn rand hmax).1
  have hlist := addToSlaveList_eq_addNewSlave sn rand hmax h.ring.find_lt
  have haddr := h.addr_registered sn rand disk hmax hj
  have hinj := fun i j hi hj =>
    h.addr_inj_registered sn rand disk hmax hfresh (i := i) (j := j) hi hj
  rw [slaveAt, procs_registered]
  rcases eq_or_ne j (addToSlaveList c.slaves sn rand).2 with heq | hne
  · rw [if_pos heq] at haddr
    rw [if_pos haddr, if_pos heq, heq]
  · rw [if_neg hne] at haddr
    have hold := newIndex_lt hnew hj hne
    have hother : (c.registered sn rand disk).addr j ≠ sn.addr := by
      rw [haddr]
      exact hfresh _ hold
    rw [if_neg hother, if_neg hne]
    -- the loop runs over the new list
    have hloop := (procs_notifyLoop
      (c := { c with slaves := (addToSlaveList c.slaves sn rand).1 })
      (addToSlaveList c.slaves sn rand).2 (newNode c.slaves sn rand) (c.slaves.num + 1)
      (fun i j hi hj heq => hinj i j (by omega) (by omega)
        (by simpa [addr] using heq))
      (c.slaves.num + 1) (Nat.le_refl _)).2 j (by omega)
    rw [if_pos ⟨by omega, hne⟩] at hloop
    have hnum : (addToSlaveList c.slaves sn rand).1.num = c.slaves.num + 1 := by
      rw [hlist]
      rfl
    have haddr' : { c with slaves := (addToSlaveList c.slaves sn rand).1 }.addr j =
        (c.registered sn rand disk).addr j := by
      simp [addr]
    rw [haddr'] at hloop
    simp only [notifyNewSlave, hnum]
    refine hloop.trans ?_
    rw [haddr]
    have hstep := h.newSlave_slaveAt hold (addToSlaveList c.slaves sn rand).2
      (newNode c.slaves sn rand)
    simp only [slaveAt] at hstep
    refine hstep.trans ?_
    rw [← hlist, oldIndex_newIndex hne]

/-- The files of the old slaves after the registration. -/
theorem Wf.diskAt_registered (h : c.Wf) (hmax : c.slaves.num < MAX_SLAVE_NUM)
    (hfresh : c.Fresh sn) {j : Nat} (hj : j ≤ c.slaves.num)
    (hne : j ≠ (addToSlaveList c.slaves sn rand).2) :
    (c.registered sn rand disk).diskAt j =
      c.diskAt (newIndex (addToSlaveList c.slaves sn rand).2 j) := by
  rw [diskAt, h.slaveAt_registered sn rand disk hmax hfresh hj]
  exact if_neg hne

theorem Wf.primary_registered (h : c.Wf) (hmax : c.slaves.num < MAX_SLAVE_NUM)
    (hfresh : c.Fresh sn) {j : Nat} (hj : j ≤ c.slaves.num)
    (hne : j ≠ (addToSlaveList c.slaves sn rand).2) :
    (c.registered sn rand disk).primary j =
      c.primary (newIndex (addToSlaveList c.slaves sn rand).2 j) := by
  rw [primary, h.diskAt_registered sn rand disk hmax hfresh hj hne, primary]

/-- The registration establishes the invariant on the new list. -/
theorem Wf.registered (h : c.Wf) (hmax : c.slaves.num < MAX_SLAVE_NUM)
    (hfresh : c.Fresh sn) (htmp : disk.file_tmp = none) :
    (c.registered sn rand disk).Wf := by
  have hnum : (c.registered sn rand disk).slaves.num = c.slaves.num + 1 := by
    rw [h.slaves_registered_eq sn rand disk hmax]
    rfl
  constructor
  case ring =>
    rw [slaves_registered]
    exact h.ring.of_addToSlaveList hmax sn rand
  case addr_inj =>
    intro i j hi hj heq
    exact h.addr_inj_registered sn rand disk hmax hfresh (by omega) (by omega) heq
  case slaves_eq =>
    intro i hi
    rw [h.slaveAt_registered sn rand disk hmax hfresh (by omega), slaves_registered]
  case pos_eq =>
    intro i hi
    rw [h.slaveAt_registered sn rand disk hmax hfresh (by omega)]
  case tmp_none =>
    intro i hi
    rw [h.slaveAt_registered sn rand disk hmax hfresh (by omega)]
    dsimp only
    split
    case isTrue => exact htmp
    case isFalse hne =>
        exact h.tmp_none _ (newIndex_lt
          (newpos_eq c.slaves h.ring sn rand hmax).1 (by omega) hne)

/-- The position of the new slave. -/
theorem Wf.addr_registered_new (h : c.Wf) (hmax : c.slaves.num < MAX_SLAVE_NUM) :
    (c.registered sn rand disk).addr (addToSlaveList c.slaves sn rand).2 = sn.addr := by
  have hnew := (newpos_eq c.slaves h.ring sn rand hmax).1
  rw [h.addr_registered sn rand disk hmax hnew, if_pos rfl]

theorem Wf.num_registered (h : c.Wf) (hmax : c.slaves.num < MAX_SLAVE_NUM) :
    (c.registered sn rand disk).slaves.num = c.slaves.num + 1 := by
  rw [h.slaves_registered_eq sn rand disk hmax]
  rfl

/-- The first slave of a ring has nothing to fetch. -/
theorem Wf.join_of_empty (h : c.Wf) (hfresh : c.Fresh sn) (htmp : disk.file_tmp = none)
    (hzero : c.slaves.num = 0) :
    c.join sn rand disk = c.registered sn rand disk := by
  have hmax : c.slaves.num < MAX_SLAVE_NUM := by
    rw [hzero]
    decide
  have hwf := h.registered sn rand disk hmax hfresh htmp
  have hnew := (newpos_eq c.slaves h.ring sn rand hmax).1
  have hnum := h.num_registered sn rand disk hmax
  have hself := hwf.slaves_eq (addToSlaveList c.slaves sn rand).2 (by omega)
  rw [slaveAt, h.addr_registered_new sn rand disk hmax] at hself
  rw [join_eq]
  simp only [Cluster.initialSlave, hself, hnum]
  rw [if_neg (by omega), if_neg (by omega)]

/-- **Every slave after a registration in a non-empty ring.** -/
theorem Wf.slaveAt_join (h : c.Wf) (hmax : c.slaves.num < MAX_SLAVE_NUM)
    (hfresh : c.Fresh sn) (htmp : disk.file_tmp = none) (hpos : 0 < c.slaves.num)
    {j : Nat} (hj : j ≤ c.slaves.num) :
    (c.join sn rand disk).slaveAt j =
      { (c.registered sn rand disk).slaveAt j with
        disk := (c.registered sn rand disk).initialised
          (addToSlaveList c.slaves sn rand).2 j } := by
  have hnew := (newpos_eq c.slaves h.ring sn rand hmax).1
  have hnum := h.num_registered sn rand disk hmax
  rw [join_eq, ← h.addr_registered_new sn rand disk hmax]
  exact (h.registered sn rand disk hmax hfresh htmp).slaveAt_initialSlave
    (by omega) (by omega) (by omega)

/-- A registration keeps the invariant. -/
theorem Wf.join (h : c.Wf) (hmax : c.slaves.num < MAX_SLAVE_NUM)
    (hfresh : c.Fresh sn) (htmp : disk.file_tmp = none) :
    (c.join sn rand disk).Wf := by
  have hwf := h.registered sn rand disk hmax hfresh htmp
  rcases Nat.eq_zero_or_pos c.slaves.num with hzero | hpos
  · rw [h.join_of_empty sn rand disk hfresh htmp hzero]
    exact hwf
  · have hnew := (newpos_eq c.slaves h.ring sn rand hmax).1
    have hnum := h.num_registered sn rand disk hmax
    rw [join_eq, ← h.addr_registered_new sn rand disk hmax]
    exact hwf.initialSlave (by omega) (by omega)

end Spec

end Registration

end Cluster

end DistributedDB
