import DistributedDB.Join
import DistributedDB.Leave
import DistributedDB.MembershipRouting

/-!
# Membership changes refine a single map

The cluster as one store: client writes, refresh ticks, registrations and
departures, each run to completion, every departure directly after a full round
of `UPDATE_BACKUP12`.  The abstract store is one finite map that only the client
writes change.

**Results.**
* `Stores`: the abstraction relation.  Every primary holds exactly the entries of
  the map that `GetSocket` routes to its slave.
* `Stores.opStep`: every operation keeps it.
* `primaries_refine_map`: so it holds in every reachable state.
-/

namespace DistributedDB

open PartialMap Interleaving RingIndex Run Cluster

/-- An operation on the whole cluster. -/
inductive Op where
  | set (key : dbKey) (value : dbValue)
  | del (key : dbKey)
  | tick
  | join (sn : SlaveNode) (rand : Nat) (disk : Disk)
  | leave (r : Nat) (sched : List RmStep)

namespace Cluster

/-- One operation.  Keys are below `MAX_KEY`; a slave registers from a new address
while there is room for it, and without a left-over temporary file; a departure
needs a second slave, follows a full round of ticks, and may interleave its steps
in any way. -/
def opStep (c : Cluster) : Op → Option Cluster
  | .set key value =>
      if key.toNat < MAX_KEY then c.clientSet key value else none
  | .del key =>
      if key.toNat < MAX_KEY then c.clientDel key else none
  | .tick => some c.updateBackup
  | .join sn rand disk =>
      if c.slaves.num < MAX_SLAVE_NUM ∧ c.Fresh sn ∧ disk.file_tmp = none then
        some (c.join sn rand disk)
      else none
  | .leave r sched =>
      if 2 ≤ c.slaves.num ∧ r < c.slaves.num ∧ IsSchedule c.slaves.num r sched then
        some ((c.ticks c.slaves.num).leave r sched)
      else none

end Cluster

/-- The abstract store: what the operations do to a single map. -/
def applyOp (m : dbKey → Option dbValue) : Op → (dbKey → Option dbValue)
  | .set key value => Function.update m key (some value)
  | .del key => Function.update m key none
  | _ => m

/-- The part of a map that is routed to node `i`. -/
def routedTo (slaves : SlaveList) (i : Nat) (m : dbKey → Option dbValue) :
    dbKey → Option dbValue :=
  restrict (fun key => getSocket slaves key = some i) m

/-- The cluster stores the map: every primary holds the entries routed to it. -/
structure Stores (c : Cluster) (m : dbKey → Option dbValue) : Prop where
  wf : c.Wf
  pos : 0 < c.slaves.num
  placed : ∀ i, i < c.slaves.num → contents (c.primary i) = routedTo c.slaves i m
  below : ∀ key, m key ≠ none → key.toNat < MAX_KEY

namespace Cluster

section Writes

variable {c : Cluster} {m : dbKey → Option dbValue}

/-- A slave that changes only its primary. -/
def setPrimary (c : Cluster) (i : Nat) (file : HDB) : Cluster :=
  c.setProc (c.addr i)
    { c.slaveAt i with disk := { c.diskAt i with file_master := file } }

theorem Wf.setPrimary (h : c.Wf) {i : Nat} (hi : i < c.slaves.num) (file : HDB) :
    (c.setPrimary i file).Wf := by
  refine h.of_same_lists rfl ?_
  intro j hj
  rw [Cluster.setPrimary, h.slaveAt_setProc hi hj]
  split
  case isTrue heq =>
      subst heq
      exact ⟨rfl, rfl, rfl⟩
  case isFalse => exact ⟨rfl, rfl, rfl⟩

theorem Wf.primary_setPrimary (h : c.Wf) {i j : Nat} (hi : i < c.slaves.num)
    (hj : j < c.slaves.num) (file : HDB) :
    (c.setPrimary i file).primary j = if j = i then file else c.primary j := by
  rw [primary, diskAt, Cluster.setPrimary, h.slaveAt_setProc hi hj]
  split <;> rfl

theorem clientSet_eq_some {key : dbKey} {value : dbValue} {c' : Cluster} :
    c.clientSet key value = some c' ↔
      ∃ i, getSocket c.slaves key = some i ∧
        c' = c.setPrimary i ((c.primary i).insert key value) := by
  simp only [clientSet, Option.map_eq_some_iff]
  constructor <;> rintro ⟨i, hroute, rfl⟩ <;> exact ⟨i, hroute, rfl⟩

theorem clientDel_eq_some {key : dbKey} {c' : Cluster} :
    c.clientDel key = some c' ↔
      ∃ i, getSocket c.slaves key = some i ∧
        c' = c.setPrimary i ((c.primary i).erase key) := by
  simp only [clientDel, Option.map_eq_some_iff]
  constructor <;> rintro ⟨i, hroute, rfl⟩ <;> exact ⟨i, hroute, rfl⟩

end Writes

end Cluster

namespace Stores

variable {c : Cluster} {m : dbKey → Option dbValue}

/-- A write of a key at its owner is a write of the map. -/
theorem write (h : Stores c m) {i : Nat} {key : dbKey} {v : Option dbValue}
    (hroute : getSocket c.slaves key = some i) (hkey : key.toNat < MAX_KEY)
    {file : HDB} (hfile : contents file = Function.update (contents (c.primary i)) key v) :
    Stores (c.setPrimary i file) (Function.update m key v) := by
  have hi := getSocket_lt h.wf.ring hroute
  constructor
  case wf => exact h.wf.setPrimary hi file
  case pos => exact h.pos
  case placed =>
    intro j hj
    have hslaves : (c.setPrimary i file).slaves = c.slaves := rfl
    rw [hslaves] at hj ⊢
    rw [h.wf.primary_setPrimary hi hj, routedTo, restrict_update, hroute]
    rcases eq_or_ne j i with rfl | hne
    · rw [if_pos rfl, if_pos rfl, hfile, h.placed j hj, routedTo]
    · rw [if_neg hne, if_neg (fun heq => hne (Option.some.inj heq).symm), h.placed j hj,
        routedTo]
  case below =>
    intro k hk
    rcases eq_or_ne k key with rfl | hne
    · exact hkey
    · rw [Function.update_of_ne hne] at hk
      exact h.below k hk

/-- A round of ticks, complete or not, changes no primary. -/
theorem ticks (h : Stores c m) (n : Nat) : Stores (c.ticks n) m := by
  have hspec := h.wf.ticksSpec h.pos n
  constructor
  case wf => exact hspec.wf
  case pos =>
    rw [hspec.slaves]
    exact h.pos
  case placed =>
    intro i hi
    rw [hspec.slaves] at hi ⊢
    rw [hspec.primary i hi]
    exact h.placed i hi
  case below => exact h.below

/-- What the clip at the predecessor leaves with the predecessor and what it gives
to the new node `i`. -/
theorem clip_routedTo {small big : SlaveList} {i : Nat}
    (hwith : WithoutNode small big i) (hsmall : RingInv small) (hbig : RingInv big)
    (hpos : 0 < small.num) (hbelow : ∀ key, m key ≠ none → key.toNat < MAX_KEY) :
    restrict (fun k => ¬ sectionRange big i k = true) (routedTo small (back small.num i 1) m) =
        routedTo big (back big.num i 1) m ∧
      restrict (fun k => sectionRange big i k = true)
          (routedTo small (back small.num i 1) m) =
        routedTo big i m := by
  have hnum := hwith.num
  have hle := hwith.pos
  have hi : i < big.num := by omega
  have hne := back_one_ne hi (show 1 < big.num by omega)
  have hrange : ∀ k, m k ≠ none →
      (sectionRange big i k = true ↔ getSocket big k = some i) :=
    fun k hk => sectionRange_iff_getSocket hbig hi (hbelow k hk)
  have hback := fun k => hwith.getSocket_back hsmall hbig hpos k
  simp only [routedTo, restrict_restrict]
  constructor
  · refine restrict_congr m fun k hk => ?_
    rw [hrange k hk, hback k]
    constructor
    · rintro ⟨hno, hpre | hself⟩
      · exact hpre
      · exact absurd hself hno
    · intro hpre
      refine ⟨?_, Or.inl hpre⟩
      rw [hpre]
      exact fun heq => hne (Option.some.inj heq)
  · refine restrict_congr m fun k hk => ?_
    rw [hrange k hk, hback k]
    exact ⟨fun hboth => hboth.1, fun hself => ⟨hself, Or.inr hself⟩⟩

/-- A registration hands the new slave its section. -/
theorem join (h : Stores c m) (hmax : c.slaves.num < MAX_SLAVE_NUM) {sn : SlaveNode}
    (hfresh : c.Fresh sn) (rand : Nat) {disk : Disk} (htmp : disk.file_tmp = none) :
    Stores (c.join sn rand disk) m := by
  have hwf := h.wf.registered sn rand disk hmax hfresh htmp
  have hnum := h.wf.num_registered sn rand disk hmax
  have hpos := h.pos
  have hnew := (newpos_eq c.slaves h.wf.ring sn rand hmax).1
  have hprimary := fun j hj hne =>
    h.wf.primary_registered (j := j) sn rand disk hmax hfresh hj hne
  have hwith : WithoutNode c.slaves (c.registered sn rand disk).slaves
      (addToSlaveList c.slaves sn rand).2 := by
    rw [h.wf.slaves_registered_eq sn rand disk hmax]
    exact withoutNode_addNewSlave _ hnew hmax
  rw [join_eq, ← h.wf.addr_registered_new sn rand disk hmax]
  generalize (addToSlaveList c.slaves sn rand).2 = i at *
  have hi : i < (c.registered sn rand disk).slaves.num := by omega
  have hone : 1 < (c.registered sn rand disk).slaves.num := by omega
  -- the predecessor's primary before the clip
  have hpre : contents ((c.registered sn rand disk).primary
      (back (c.registered sn rand disk).slaves.num i 1)) =
        routedTo c.slaves (back c.slaves.num i 1) m := by
    have hne := back_one_ne hi hone
    rw [hnum] at hne ⊢
    have hlt := back_lt (i := i) (k := 1) (show 0 < c.slaves.num + 1 by omega)
    rw [hprimary _ (by omega) hne, (newIndex_eq_back_iff hnew hpos hne).mpr rfl]
    exact h.placed _ (back_lt hpos)
  obtain ⟨hkeep, hgive⟩ := clip_routedTo hwith h.wf.ring hwf.ring hpos h.below
  constructor
  case wf => exact hwf.initialSlave hi hone
  case pos =>
    rw [slaves_initialSlave]
    omega
  case placed =>
    intro j hj
    rw [slaves_initialSlave] at hj ⊢
    rw [hwf.primary_initialSlave hi hj hone, clippedPrimary]
    rcases eq_or_ne j i with rfl | hji
    · rw [if_pos rfl, (hwf.contents_clipped (by omega)).2, hpre]
      exact hgive
    · rw [if_neg hji]
      rcases eq_or_ne j (back (c.registered sn rand disk).slaves.num i 1) with heq | hjb
      · rw [if_pos heq, (hwf.contents_clipped (by omega)).1, hpre, heq]
        exact hkeep
      · have hlt := newIndex_lt hnew (show j ≤ c.slaves.num by omega) hji
        have hback : newIndex i j ≠ back c.slaves.num i 1 := by
          rw [ne_eq, newIndex_eq_back_iff hnew hpos hji, ← hnum]
          exact hjb
        rw [if_neg hjb, hprimary j (by omega) hji, h.placed _ hlt]
        refine restrict_congr m fun k _ => ?_
        rw [hwith.getSocket_of_ne h.wf.ring hwf.ring hlt hback, oldIndex_newIndex hji]
  case below => exact h.below

/-- A departure after a refresh of the predecessor hands its section to the
predecessor. -/
theorem leave (h : Stores c m) (hnum : 2 ≤ c.slaves.num) {r : Nat}
    (hr : r < c.slaves.num) (hcopy : c.HoldsCopy (back c.slaves.num r 1) 1)
    {sched : List RmStep} (hsched : IsSchedule c.slaves.num r sched) :
    Stores (c.leave r sched) m := by
  have hwf := h.wf.leave hr hsched
  have hwith : WithoutNode (c.leave r sched).slaves c.slaves r := by
    rw [slaves_leave]
    exact withoutNode_removeSlave hr h.wf.ring.num_le
  have hnum' : (c.leave r sched).slaves.num = c.slaves.num - 1 := rfl
  have hpos : 0 < (c.leave r sched).slaves.num := by omega
  constructor
  case wf => exact hwf
  case pos => exact hpos
  case placed =>
    intro j hj
    have hold := oldIndex_lt (r := r) (show j + 1 < c.slaves.num by omega)
    rw [h.wf.primary_leave hr hsched (by omega), h.placed _ hold, ← hnum']
    have hroute := fun k => hwith.getSocket_iff hwf.ring h.wf.ring hj k
    rcases eq_or_ne j (back (c.leave r sched).slaves.num r 1) with rfl | hne
    · have hback : oldIndex r (back (c.leave r sched).slaves.num r 1) =
          back c.slaves.num r 1 := by
        rw [oldIndex_back hwith.pos hpos, ← hwith.num]
      have hne := (back_one_ne hr hnum).symm
      rw [HoldsCopy, back_one_succ hr] at hcopy
      obtain ⟨file, hfile, hcontents⟩ := hcopy hne
      have hbackup : (c.diskAt (back c.slaves.num r 1)).backup1 = some file := hfile
      rw [if_pos rfl, hback, hbackup, openFile, Option.getD_some, hcontents,
        h.placed r hr, routedTo, routedTo, overlay_restrict_restrict]
      refine restrict_congr m fun k _ => ?_
      rw [hroute k, hback]
      simp
    · rw [if_neg hne]
      refine restrict_congr m fun k _ => ?_
      rw [hroute k]
      constructor
      · exact Or.inl
      · rintro (hold | ⟨heq, _⟩)
        · exact hold
        · exact absurd heq hne
  case below => exact h.below

/-- **Every operation keeps the abstraction relation.** -/
theorem opStep {c' : Cluster} {op : Op} (h : Stores c m) (hstep : c.opStep op = some c') :
    Stores c' (applyOp m op) := by
  cases op with
  | set key value =>
      simp only [Cluster.opStep, Option.ite_none_right_eq_some] at hstep
      obtain ⟨hkey, hset⟩ := hstep
      obtain ⟨i, hroute, rfl⟩ := clientSet_eq_some.mp hset
      exact h.write hroute hkey (contents_insert _ key value)
  | del key =>
      simp only [Cluster.opStep, Option.ite_none_right_eq_some] at hstep
      obtain ⟨hkey, hdel⟩ := hstep
      obtain ⟨i, hroute, rfl⟩ := clientDel_eq_some.mp hdel
      exact h.write hroute hkey (contents_erase _ key)
  | tick =>
      obtain rfl := Option.some.inj hstep
      exact h.ticks 1
  | join sn rand disk =>
      simp only [Cluster.opStep, Option.ite_none_right_eq_some] at hstep
      obtain ⟨⟨hmax, hfresh, htmp⟩, heq⟩ := hstep
      obtain rfl := Option.some.inj heq
      exact h.join hmax hfresh rand htmp
  | leave r sched =>
      simp only [Cluster.opStep, Option.ite_none_right_eq_some] at hstep
      obtain ⟨⟨hnum, hr, hsched⟩, heq⟩ := hstep
      obtain rfl := Option.some.inj heq
      have hspec := h.wf.ticksSpec h.pos c.slaves.num
      have hround := h.wf.fullyReplicated_round h.pos
      have hslaves := hspec.slaves
      refine (h.ticks c.slaves.num).leave (by rw [hslaves]; exact hnum)
        (by rw [hslaves]; exact hr) ?_ (by rw [hslaves]; exact hsched)
      exact (hround _ (by rw [hslaves]; exact back_lt h.pos)).1

end Stores

/-- **Membership changes refine a single map.**  From a ring of one slave, after
any run of client writes, ticks, registrations and departures that directly
follow a full round, the primary of every slave holds exactly the entries of the
abstract map that `GetSocket` routes to it. -/
theorem primaries_refine_map (c₀ : Cluster) (h₀ : c₀.Wf) (hone : c₀.slaves.num = 1)
    (hkeys : ∀ key, contents (c₀.primary 0) key ≠ none → key.toNat < MAX_KEY)
    (ops : List Op) (c : Cluster) (hrun : run Cluster.opStep c₀ ops = some c) :
    (0 < c.slaves.num ∧ c.slaves.num ≤ MAX_SLAVE_NUM) ∧
      ∀ i, i < c.slaves.num →
        contents (c.primary i) =
          routedTo c.slaves i (ops.foldl applyOp (contents (c₀.primary 0))) := by
  have hinit : Stores c₀ (contents (c₀.primary 0)) := by
    constructor
    case wf => exact h₀
    case pos => omega
    case placed =>
      intro i hi
      obtain rfl : i = 0 := by omega
      refine ((restrict_eq_self_iff _ _).mpr fun key _ => ?_).symm
      -- the only slave owns every key
      obtain ⟨i, ⟨hlt, hin⟩, _⟩ :=
        h₀.ring.existsUnique_inSection (by omega) (circleKey key)
      obtain rfl : i = 0 := by omega
      exact (getSocket_eq_some_iff h₀.ring key 0).mpr ⟨hlt, hin⟩
    case below => exact hkeys
  have hstores := run_simulates applyOp Stores (fun _ _ _ _ h hstep => h.opStep hstep)
    hrun hinit
  exact ⟨⟨hstores.pos, hstores.wf.ring.num_le⟩, hstores.placed⟩

/-- Two writes around a registration, and the departure of the first slave. -/
def sampleOps : List Op :=
  [.set 500 [97], .join ⟨0, 9, 0, 0⟩ 0 ⟨∅, none, none, none⟩, .set 2500 [98],
    .leave 0 (oneByOne 2 0)]

theorem primaries_refine_map_sampleOps :
    ∃ c, run Cluster.opStep (replicated (ringOf 1) (fun _ => ∅)) sampleOps = some c ∧
      c.slaves.num = 1 ∧
      contents (c.primary 0) =
        routedTo c.slaves 0 (sampleOps.foldl applyOp
          (contents ((replicated (ringOf 1) (fun _ => ∅)).primary 0))) := by
  have hnum : (run Cluster.opStep (replicated (ringOf 1) (fun _ => ∅)) sampleOps).map
      (fun c => c.slaves.num) = some 1 := by decide
  obtain ⟨c, hrun, hnum⟩ := Option.map_eq_some_iff.mp hnum
  have hone : c.slaves.num = 1 := hnum
  have hwf := wf_replicated (fun _ => ∅) (ringInv_ringOf (n := 1) (by decide)) (by decide)
  exact ⟨c, hrun, hone, (primaries_refine_map _ hwf (by decide) (by
    intro key hkey
    exact absurd rfl hkey) sampleOps c hrun).2 0 (by omega)⟩

end DistributedDB
