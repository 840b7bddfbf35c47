import DistributedDB.MembershipRouting
import DistributedDB.Network

/-!
# The version gate

A slave's main loop admits a packet unless the packet's version is older than the
slave's own.  Versions identify lists across the whole system, also in the middle
of a notification round: a slave that has been told has the list after the
change, any other one the list before it, and no client has a newer list than
any slave it can reach.

**Results.**
* `RoundInv`: what holds in the middle of a round.
* `NetInv`: the invariant of the system; `NetInv.step`, it is kept by every step.
* `admitted_routed_to_dest`: an admitted packet is at the owner of its key.
-/

namespace DistributedDB

open RingIndex Run

/-- The process has received a list and is not gone. -/
def Phase.Live (p : Phase) : Prop :=
  p = .initialising ∨ p = .serving ∨ p = .leaving

namespace Round

/-- Node `j` has handled the notification of the round. -/
def Told (r : Round) (j : Nat) : Prop :=
  j < r.i ∨ (j = r.i ∧ r.stage = .replied)

instance (r : Round) (j : Nat) : Decidable (r.Told j) := by
  unfold Told
  infer_instance

/-- The position of node `j` of the master's list in the list before the round. -/
def beforeIndex (r : Round) (j : Nat) : Nat :=
  match r.cmd with
  | .add => newIndex r.pos j
  | .del => j

/-- The position of node `j` of the master's list in the list after the round. -/
def afterIndex (r : Round) (j : Nat) : Nat :=
  match r.cmd with
  | .add => j
  | .del => newIndex r.pos j

/-- The phase of the process that asked for the round. -/
def requesterPhase (r : Round) : Phase :=
  match r.cmd with
  | .add => .registering
  | .del => .leaving

/-- Nobody has been told at the start. -/
theorem not_told_start (cmd : RoundCmd) (pos j : Nat) :
    ¬ Round.Told ⟨cmd, pos, 0, .ready⟩ j := by
  simp [Told]

theorem told_notified {r : Round} (hstage : r.stage = .ready) {j : Nat} (hne : j ≠ r.pos) :
    (Net.notified r).Told j ↔ r.Told j := by
  unfold Net.notified
  split
  case isTrue heq =>
      simp only [Told, hstage]
      simp
      omega
  case isFalse => simp [Told, hstage]

theorem told_recvReply {r : Round} (hstage : r.stage = .replied) (j : Nat) :
    ({ r with i := r.i + 1, stage := .ready } : Round).Told j ↔ r.Told j := by
  simp only [Told, hstage]
  simp
  omega

theorem told_replied {r : Round} (hstage : r.stage = .sent) (j : Nat) :
    ({ r with stage := .replied } : Round).Told j ↔ r.Told j ∨ j = r.i := by
  simp [Told, hstage]

theorem requesterPhase_ne (r : Round) :
    r.requesterPhase ≠ .initialising ∧ r.requesterPhase ≠ .serving := by
  unfold requesterPhase
  cases r.cmd with
  | add => exact ⟨by decide, by decide⟩
  | del => exact ⟨by decide, by decide⟩

end Round

namespace Net

/-- Every list that a client has is this one or older. -/
def Known (n : Net) (slaves : SlaveList) : Prop :=
  ∀ list, list ∈ n.fetched → list = slaves ∨ list.version < slaves.version

/-- The master is idle: all slaves have its list and know their position. -/
structure Settled (n : Net) : Prop where
  version : n.slaves.version.toNat = n.changes
  known : n.Known n.slaves
  procs : ∀ j, j < n.slaves.num →
    (n.procAt j).phase.Live ∧ (n.procAt j).slave.slaves = n.slaves ∧
      (n.procAt j).slave.pos = j

/-- The lists before and after round `r`, one of which is the master's. -/
def RoundLists (n : Net) (r : Round) (before after : SlaveList) : Prop :=
  match r.cmd with
  | .add =>
      after = n.slaves ∧ after = addNewSlave before r.pos (n.slaves.node r.pos) ∧
        r.pos ≤ before.num ∧ before.num < MAX_SLAVE_NUM
  | .del =>
      before = n.slaves ∧ after = removeSlave before r.pos ∧ r.pos < before.num

/-- The master is in round `r`: every other slave has the list after the round if
it has been told and the list before it if not. -/
structure RoundInv (n : Net) (r : Round) (before after : SlaveList) : Prop where
  lists : n.RoundLists r before after
  version : after.version.toNat = before.version.toNat + 1
  changes : after.version.toNat = n.changes
  known : n.Known before
  index : r.i ≤ n.slaves.num
  sent : r.stage ≠ .ready → r.i < n.slaves.num ∧ r.i ≠ r.pos
  requester : (n.procAt r.pos).phase = r.requesterPhase
  others : ∀ j, j < n.slaves.num → j ≠ r.pos →
    (n.procAt j).phase.Live ∧
      (n.procAt j).slave.slaves = (if r.Told j then after else before) ∧
      (n.procAt j).slave.pos = (if r.Told j then r.afterIndex j else r.beforeIndex j)

/-- A packet was made from a fetched list. -/
def Made (n : Net) (p : Packet) : Prop :=
  ∃ list, list ∈ n.fetched ∧ ∃ i, getSocket list p.key = some i ∧
    p.version = list.version ∧ p.dest = (list.node i).addr

/-- **The invariant of the system.** -/
structure NetInv (n : Net) : Prop where
  ring : RingInv n.slaves
  distinct : n.slaves.DistinctAddrs
  homes : ∀ a, (n.procs a).phase ≠ .down → ∃ j, j < n.slaves.num ∧ n.addr j = a
  changes_lt : n.changes < 2 ^ 32
  fetched : ∀ list, list ∈ n.fetched → list.DistinctAddrs
  packets : ∀ p, p ∈ n.packets → n.Made p
  task : match n.task with
    | none => n.Settled
    | some r => ∃ before after, n.RoundInv r before after

section Lists

variable {n : Net} {r : Round} {before after : SlaveList}

theorem RoundLists.pos_lt (h : n.RoundLists r before after) : r.pos < n.slaves.num := by
  simp only [RoundLists] at h
  cases hcmd : r.cmd with
  | add =>
      rw [hcmd] at h
      obtain ⟨hafter, hadd, hpos, _⟩ := h
      rw [← hafter, hadd, num_addNewSlave]
      omega
  | del =>
      rw [hcmd] at h
      obtain ⟨rfl, _, hpos⟩ := h
      exact hpos

/-- The positions of a node in the lists before and after the round. -/
theorem RoundLists.node (h : n.RoundLists r before after) (hring : RingInv n.slaves)
    {j : Nat} (hj : j < n.slaves.num) (hne : j ≠ r.pos) :
    (r.beforeIndex j < before.num ∧
        before.node (r.beforeIndex j) = n.slaves.node j) ∧
      (r.afterIndex j < after.num ∧ after.node (r.afterIndex j) = n.slaves.node j) := by
  simp only [RoundLists] at h
  simp only [Round.beforeIndex, Round.afterIndex]
  cases hcmd : r.cmd with
  | add =>
      rw [hcmd] at h
      obtain ⟨hafter, hadd, hpos, hmax⟩ := h
      have hwith := withoutNode_addNewSlave (n.slaves.node r.pos) hpos hmax
      rw [← hadd, hafter] at hwith
      have hnum := hwith.num
      refine ⟨⟨newIndex_lt hpos (by omega) hne, hwith.node_newIndex hj hne⟩, ?_⟩
      rw [hafter]
      exact ⟨hj, rfl⟩
  | del =>
      rw [hcmd] at h
      obtain ⟨rfl, rfl, hpos⟩ := h
      have hwith := withoutNode_removeSlave hpos hring.num_le
      have hnum := hwith.num
      exact ⟨⟨hj, rfl⟩, newIndex_lt hwith.pos (by omega) hne, hwith.node_newIndex hj hne⟩

/-- A slave with the list before the round gets the list after it. -/
theorem RoundLists.handleNotice (h : n.RoundLists r before after)
    (hring : RingInv n.slaves) {j : Nat} (hj : j < n.slaves.num) (hne : j ≠ r.pos)
    {s : Slave} (hslaves : s.slaves = before) (hpos : s.pos = r.beforeIndex j) :
    (n.handleNotice r s).slaves = after ∧ (n.handleNotice r s).pos = r.afterIndex j := by
  have hlt : s.pos < s.slaves.num := by
    rw [hslaves, hpos]
    exact (h.node hring hj hne).1.1
  simp only [RoundLists] at h
  simp only [Net.handleNotice, Round.afterIndex]
  simp only [Round.beforeIndex] at hpos
  cases hcmd : r.cmd with
  | add =>
      rw [hcmd] at h hpos
      obtain ⟨_, hadd, _, _⟩ := h
      simp only [newSlave_eq hlt, hslaves, hpos]
      exact ⟨hadd.symm, oldIndex_newIndex hne⟩
  | del =>
      rw [hcmd] at h hpos
      obtain ⟨_, hdel, _⟩ := h
      simp only [rmSlave_eq hlt, hslaves, hpos]
      exact ⟨hdel.symm, trivial⟩

end Lists

section Processes

variable {n : Net}

@[simp] theorem procs_setProc_self (a : Addr) (p : Process) :
    (n.setProc a p).procs a = p := by
  simp [setProc]

theorem procs_setProc_of_ne {a b : Addr} (h : b ≠ a) (p : Process) :
    (n.setProc a p).procs b = n.procs b := by
  simp [setProc, h]

@[simp] theorem addr_setProc (a : Addr) (p : Process) (j : Nat) :
    (n.setProc a p).addr j = n.addr j := rfl

/-- Replacing the process of node `i`. -/
theorem procAt_setProc (hdistinct : n.slaves.DistinctAddrs) {i j : Nat}
    (hi : i < n.slaves.num) (hj : j < n.slaves.num) (p : Process) :
    (n.setProc (n.addr i) p).procAt j = if j = i then p else n.procAt j := by
  simp only [procAt, addr_setProc]
  rcases eq_or_ne j i with rfl | hne
  · rw [if_pos rfl, procs_setProc_self]
  · have haddr : n.addr j ≠ n.addr i := fun heq => hne (hdistinct j hj i hi heq)
    rw [if_neg hne, procs_setProc_of_ne haddr]

end Processes

section Versions

/-- A change of a list makes its version one larger; fewer than `2 ^ 32` changes
do not wrap around. -/
theorem version_succ {slaves slaves' : SlaveList}
    (hversion : slaves'.version = slaves.version + 1)
    (hsmall : slaves.version.toNat + 1 < 2 ^ 32) :
    slaves'.version.toNat = slaves.version.toNat + 1 := by
  rw [hversion, UInt32.toNat_add]
  simp only [UInt32.toNat_one]
  omega

theorem version_addToSlaveList (slaves : SlaveList) (sn : SlaveNode) (rand : Nat) :
    (addToSlaveList slaves sn rand).1.version = slaves.version + 1 := by
  unfold addToSlaveList
  split <;> rfl

/-- Every list known to clients is older than a newer one. -/
theorem Known.lt {n : Net} {before after : SlaveList} (h : n.Known before)
    (hversion : after.version.toNat = before.version.toNat + 1)
    {list : SlaveList} (hlist : list ∈ n.fetched) : list.version < after.version := by
  rw [UInt32.lt_iff_toNat_lt]
  rcases h list hlist with rfl | hlt
  · omega
  · rw [UInt32.lt_iff_toNat_lt] at hlt
    omega

end Versions

section Steps

variable {n : Net}

theorem netInv_init : init.NetInv where
  ring := ringInv_empty
  distinct := fun i hi => absurd hi (Nat.not_lt_zero i)
  homes := fun a ha => absurd rfl ha
  changes_lt := by decide
  fetched := fun list hlist => absurd hlist List.not_mem_nil
  packets := fun p hp => absurd hp List.not_mem_nil
  task :=
    { version := rfl
      known := fun list hlist => absurd hlist List.not_mem_nil
      procs := fun j hj => absurd hj (Nat.not_lt_zero j) }

theorem NetInv.settled (h : n.NetInv) (htask : n.task = none) : n.Settled := by
  have := h.task
  rw [htask] at this
  exact this

theorem NetInv.round (h : n.NetInv) {r : Round} (htask : n.task = some r) :
    ∃ before after, n.RoundInv r before after := by
  have := h.task
  rw [htask] at this
  exact this

/-- A slave in the list is alive, the registering one is not. -/
theorem NetInv.addr_ne_of_down (h : n.NetInv) (htask : n.task = none) {a : Addr}
    (hdown : (n.procs a).phase = .down) {j : Nat} (hj : j < n.slaves.num) :
    n.addr j ≠ a := by
  rintro rfl
  have hlive := ((h.settled htask).procs j hj).1
  rw [procAt, hdown] at hlive
  rcases hlive with hp | hp | hp <;> cases hp

/-- The new slave's node after the first part of `ADD_SLAVE`. -/
theorem NetInv.addr_beginAdd (h : n.NetInv) (hmax : n.slaves.num < MAX_SLAVE_NUM)
    (sn : SlaveNode) (rand : Nat) :
    (n.beginAdd sn rand).addr (addToSlaveList n.slaves sn rand).2 = sn.addr :=
  newNode_addr sn rand hmax h.ring.find_lt

/-- A registration begins: the list before the round is the old list. -/
theorem NetInv.round_beginAdd (h : n.NetInv) (htask : n.task = none)
    (hmax : n.slaves.num < MAX_SLAVE_NUM) (hchanges : n.changes + 1 < 2 ^ 32)
    {sn : SlaveNode} (hdown : (n.procs sn.addr).phase = .down) (rand : Nat) :
    (n.beginAdd sn rand).RoundInv ⟨.add, (addToSlaveList n.slaves sn rand).2, 0, .ready⟩
      n.slaves (addToSlaveList n.slaves sn rand).1 := by
  have hset := h.settled htask
  have hwith := withoutNode_addToSlaveList h.ring hmax sn rand
  have hnum := hwith.num
  have hversion := version_succ (version_addToSlaveList n.slaves sn rand)
    (by rw [hset.version]; exact hchanges)
  constructor
  case lists =>
    exact ⟨rfl, addToSlaveList_eq_addNewSlave sn rand hmax h.ring.find_lt, hwith.pos, hmax⟩
  case version => exact hversion
  case changes =>
    rw [hversion, hset.version]
    rfl
  case known => exact hset.known
  case index => exact Nat.zero_le _
  case sent => exact fun hstage => absurd rfl hstage
  case requester =>
    rw [procAt, h.addr_beginAdd hmax, beginAdd, procs_setProc_self]
    rfl
  case others =>
    intro j hj hne
    have hj' : j < (addToSlaveList n.slaves sn rand).1.num := hj
    have hlt := newIndex_lt hwith.pos (show j ≤ n.slaves.num by omega) hne
    have hproc : (n.beginAdd sn rand).procAt j =
        n.procAt (newIndex (addToSlaveList n.slaves sn rand).2 j) := by
      have haddr : n.addr (newIndex (addToSlaveList n.slaves sn rand).2 j) =
          ((addToSlaveList n.slaves sn rand).1.node j).addr :=
        congrArg SlaveNode.addr (hwith.node_newIndex hj' hne)
      rw [procAt, procAt, haddr]
      refine procs_setProc_of_ne ?_ _
      have := h.addr_ne_of_down htask hdown hlt
      rw [haddr] at this
      exact this
    rw [hproc]
    have htold := Round.not_told_start .add (addToSlaveList n.slaves sn rand).2 j
    rw [if_neg htold, if_neg htold]
    exact hset.procs _ hlt

/-- The master begins a registration. -/
theorem NetInv.addSlave (h : n.NetInv) (htask : n.task = none)
    (hmax : n.slaves.num < MAX_SLAVE_NUM) (hchanges : n.changes + 1 < 2 ^ 32)
    {sn : SlaveNode} (hdown : (n.procs sn.addr).phase = .down) (rand : Nat) :
    (n.beginAdd sn rand).NetInv := by
  have hwith := withoutNode_addToSlaveList h.ring hmax sn rand
  have hnum := hwith.num
  have hnewAddr := h.addr_beginAdd hmax sn rand
  constructor
  case ring => exact h.ring.of_addToSlaveList hmax sn rand
  case distinct =>
    refine hwith.distinctAddrs_big h.distinct ?_
    intro j hj heq
    exact h.addr_ne_of_down htask hdown hj (heq.trans hnewAddr)
  case homes =>
    intro a ha
    rcases eq_or_ne a sn.addr with rfl | hne
    · have hpos := hwith.pos
      have hlt : (addToSlaveList n.slaves sn rand).2 <
          (addToSlaveList n.slaves sn rand).1.num := by
        omega
      exact ⟨_, hlt, hnewAddr⟩
    · rw [beginAdd, procs_setProc_of_ne hne] at ha
      obtain ⟨j, hj, rfl⟩ := h.homes a ha
      have hold := oldIndex_lt (r := (addToSlaveList n.slaves sn rand).2)
        (show j + 1 < (addToSlaveList n.slaves sn rand).1.num by omega)
      exact ⟨_, hold, congrArg SlaveNode.addr (hwith.node j hj).symm⟩
  case changes_lt => exact hchanges
  case fetched => exact h.fetched
  case packets => exact h.packets
  case task => exact ⟨_, _, h.round_beginAdd htask hmax hchanges hdown rand⟩

/-- The master begins a departure. -/
theorem NetInv.delSlave (h : n.NetInv) (htask : n.task = none)
    (hchanges : n.changes + 1 < 2 ^ 32) {a : Addr}
    (hleaving : (n.procs a).phase = .leaving) :
    (n.beginDel a).NetInv := by
  have hset := h.settled htask
  obtain ⟨i, hi, rfl⟩ := h.homes a (by rw [hleaving]; decide)
  have hpos : (n.procs (n.addr i)).slave.pos = i := (hset.procs i hi).2.2
  rw [beginDel, hpos]
  constructor
  case ring => exact h.ring
  case distinct => exact h.distinct
  case homes => exact h.homes
  case changes_lt => exact hchanges
  case fetched => exact h.fetched
  case packets => exact h.packets
  case task =>
    have hversion : (removeSlave n.slaves i).version.toNat = n.slaves.version.toNat + 1 :=
      version_succ rfl (by rw [hset.version]; exact hchanges)
    refine ⟨n.slaves, removeSlave n.slaves i, ?_⟩
    constructor
    case lists => exact ⟨rfl, rfl, hi⟩
    case version => exact hversion
    case changes => rw [hversion, hset.version]
    case known => exact hset.known
    case index => exact Nat.zero_le _
    case sent => exact fun hstage => absurd rfl hstage
    case requester => exact hleaving
    case others =>
      intro j hj _
      have htold := Round.not_told_start .del i j
      rw [if_neg htold, if_neg htold]
      exact hset.procs j hj

/-- The master goes on in the loop, with no change to who has been told. -/
theorem RoundInv.moveOn {r : Round} {before after : SlaveList}
    (h : n.RoundInv r before after) {i : Nat} {stage : RoundStage}
    (hindex : i ≤ n.slaves.num)
    (hsent : stage ≠ .ready → i < n.slaves.num ∧ i ≠ r.pos)
    (htold : ∀ j, j ≠ r.pos → (({ r with i := i, stage := stage } : Round).Told j ↔
      r.Told j)) :
    ({ n with task := some { r with i := i, stage := stage } } : Net).RoundInv
      { r with i := i, stage := stage } before after where
  lists := h.lists
  version := h.version
  changes := h.changes
  known := h.known
  index := hindex
  sent := hsent
  requester := h.requester
  others := by
    intro j hj hne
    have hsame := h.others j hj hne
    simp only [htold j hne]
    exact hsame

theorem NetInv.of_task (h : n.NetInv) {r : Round} {before after : SlaveList}
    (hround : ({ n with task := some r } : Net).RoundInv r before after) :
    ({ n with task := some r } : Net).NetInv where
  ring := h.ring
  distinct := h.distinct
  homes := h.homes
  changes_lt := h.changes_lt
  fetched := h.fetched
  packets := h.packets
  task := ⟨before, after, hround⟩

/-- The master looks at the next node. -/
theorem RoundInv.notify {r : Round} {before after : SlaveList}
    (h : n.RoundInv r before after) (hstage : r.stage = .ready) (hlt : r.i < n.slaves.num) :
    ({ n with task := some (notified r) } : Net).RoundInv (notified r) before after := by
  rcases eq_or_ne r.i r.pos with heq | hne
  · have hnotified : notified r = { r with i := r.i + 1, stage := .ready } := by
      rw [notified, if_pos heq, ← hstage]
    have htold := fun j (hj : j ≠ r.pos) => Round.told_notified hstage hj
    rw [hnotified] at htold ⊢
    exact h.moveOn hlt (fun hready => absurd rfl hready) htold
  · have hnotified : notified r = { r with i := r.i, stage := .sent } := by
      rw [notified, if_neg hne]
    have htold := fun j (hj : j ≠ r.pos) => Round.told_notified hstage hj
    rw [hnotified] at htold ⊢
    exact h.moveOn (Nat.le_of_lt hlt) (fun _ => ⟨hlt, hne⟩) htold

/-- The master receives the reply. -/
theorem RoundInv.recvReply {r : Round} {before after : SlaveList}
    (h : n.RoundInv r before after) (hstage : r.stage = .replied) :
    ({ n with task := some { r with i := r.i + 1, stage := .ready } } : Net).RoundInv
      { r with i := r.i + 1, stage := .ready } before after := by
  obtain ⟨hlt, _⟩ := h.sent (by rw [hstage]; decide)
  exact h.moveOn hlt (fun hready => absurd rfl hready)
    (fun j _ => Round.told_recvReply hstage j)

theorem NetInv.procAt_delivered (h : n.NetInv) {r : Round} (hlt : r.i < n.slaves.num)
    {j : Nat} (hj : j < n.slaves.num) :
    (n.delivered r).procAt j =
      if j = r.i then
        { n.procAt r.i with slave := n.handleNotice r (n.procAt r.i).slave }
      else n.procAt j :=
  procAt_setProc (n := { n with task := some { r with stage := .replied } })
    h.distinct hlt hj _

/-- A slave handles the notification. -/
theorem NetInv.round_delivered (h : n.NetInv) {r : Round} {before after : SlaveList}
    (hround : n.RoundInv r before after) (hstage : r.stage = .sent) :
    (n.delivered r).RoundInv { r with stage := .replied } before after := by
  obtain ⟨hlt, hne⟩ := hround.sent (by rw [hstage]; decide)
  constructor
  case lists => exact hround.lists
  case version => exact hround.version
  case changes => exact hround.changes
  case known => exact hround.known
  case index => exact hround.index
  case sent => exact fun _ => ⟨hlt, hne⟩
  case requester =>
    rw [h.procAt_delivered hlt hround.lists.pos_lt, if_neg hne.symm]
    exact hround.requester
  case others =>
    intro j hj hjp
    rw [h.procAt_delivered hlt hj]
    obtain ⟨hlive, hslaves, hpos⟩ := hround.others j hj hjp
    rcases eq_or_ne j r.i with rfl | hji
    · -- the slave had not been told
      have hnot : ¬ r.Told r.i := by simp [Round.Told, hstage]
      have htold := (Round.told_replied hstage r.i).mpr (Or.inr rfl)
      rw [if_neg hnot] at hslaves hpos
      rw [if_pos rfl, if_pos htold, if_pos htold]
      exact ⟨hlive, hround.lists.handleNotice h.ring hj hjp hslaves hpos⟩
    · have hsame : Round.Told { r with stage := .replied } j ↔ r.Told j := by
        simp [Round.told_replied hstage, hji]
      rw [if_neg hji]
      simp only [hsame]
      exact ⟨hlive, hslaves, hpos⟩

theorem NetInv.deliver (h : n.NetInv) {r : Round} (htask : n.task = some r)
    (hstage : r.stage = .sent) : (n.delivered r).NetInv := by
  obtain ⟨before, after, hround⟩ := h.round htask
  obtain ⟨hlt, _⟩ := hround.sent (by rw [hstage]; decide)
  constructor
  case ring => exact h.ring
  case distinct => exact h.distinct
  case homes =>
    intro a ha
    rcases eq_or_ne a (n.addr r.i) with rfl | hother
    · exact ⟨r.i, hlt, rfl⟩
    · rw [delivered, procs_setProc_of_ne hother] at ha
      exact h.homes a ha
  case changes_lt => exact h.changes_lt
  case fetched => exact h.fetched
  case packets => exact h.packets
  case task => exact ⟨before, after, h.round_delivered hround hstage⟩

/-- At the end of the loop every other slave has been told. -/
theorem RoundInv.all_told {r : Round} {before after : SlaveList}
    (h : n.RoundInv r before after) (hend : r.i = n.slaves.num) {j : Nat}
    (hj : j < n.slaves.num) (hne : j ≠ r.pos) :
    (n.procAt j).phase.Live ∧ (n.procAt j).slave.slaves = after ∧
      (n.procAt j).slave.pos = r.afterIndex j := by
  have htold : r.Told j := Or.inl (by omega)
  have hother := h.others j hj hne
  rw [if_pos htold, if_pos htold] at hother
  exact hother

/-- The master completes a registration. -/
theorem NetInv.finishAdd (h : n.NetInv) {r : Round} (htask : n.task = some r)
    (hend : r.i = n.slaves.num) (hcmd : r.cmd = .add) : (n.finished r).NetInv := by
  obtain ⟨before, after, hround⟩ := h.round htask
  have hpos := hround.lists.pos_lt
  have hlists := hround.lists
  simp only [RoundLists, hcmd] at hlists
  have hafter : after = n.slaves := hlists.1
  have hslaves : (n.finished r).slaves = n.slaves := by
    simp [finished, finishedList, hcmd, setProc]
  have hfinished : n.finished r = { n with task := none }.setProc (n.addr r.pos)
      ⟨.initialising, { (n.procAt r.pos).slave with slaves := n.slaves, pos := r.pos }⟩ := by
    simp [finished, finishedList, finishedProc, hcmd]
  have hprocAt : ∀ j, j < n.slaves.num → (n.finished r).procAt j =
      if j = r.pos then
        ⟨.initialising, { (n.procAt r.pos).slave with slaves := n.slaves, pos := r.pos }⟩
      else n.procAt j := by
    intro j hj
    rw [hfinished]
    exact procAt_setProc (n := { n with task := none }) h.distinct hpos hj _
  constructor
  case ring =>
    rw [hslaves]
    exact h.ring
  case distinct =>
    rw [hslaves]
    exact h.distinct
  case homes =>
    intro a ha
    rw [hslaves]
    rcases eq_or_ne a (n.addr r.pos) with rfl | hne
    · exact ⟨r.pos, hpos, by simp [addr, hslaves]⟩
    · rw [hfinished, procs_setProc_of_ne hne] at ha
      obtain ⟨j, hj, hja⟩ := h.homes a ha
      refine ⟨j, hj, ?_⟩
      simp only [addr, hslaves]
      exact hja
  case changes_lt => exact h.changes_lt
  case fetched => exact h.fetched
  case packets => exact h.packets
  case task =>
    constructor
    case version =>
      rw [hslaves, ← hafter]
      exact hround.changes
    case known =>
      intro list hlist
      right
      rw [hslaves, ← hafter]
      exact hround.known.lt hround.version hlist
    case procs =>
      intro j hj
      rw [hslaves] at hj ⊢
      rw [hprocAt j hj]
      rcases eq_or_ne j r.pos with rfl | hne
      · rw [if_pos rfl]
        exact ⟨Or.inl rfl, rfl, rfl⟩
      · rw [if_neg hne]
        obtain ⟨hlive, hlist, hindex⟩ := hround.all_told hend hj hne
        simp only [Round.afterIndex, hcmd] at hindex
        exact ⟨hlive, hlist.trans hafter, hindex⟩

/-- The master completes a departure. -/
theorem NetInv.finishDel (h : n.NetInv) {r : Round} (htask : n.task = some r)
    (hend : r.i = n.slaves.num) (hcmd : r.cmd = .del) : (n.finished r).NetInv := by
  obtain ⟨before, after, hround⟩ := h.round htask
  have hpos := hround.lists.pos_lt
  have hlists := hround.lists
  simp only [RoundLists, hcmd] at hlists
  obtain ⟨hbefore, hafter, _⟩ := hlists
  rw [hbefore] at hafter
  have hwith := withoutNode_removeSlave hpos h.ring.num_le
  have hnum := hwith.num
  have hslaves : (n.finished r).slaves = removeSlave n.slaves r.pos := by
    simp [finished, finishedList, hcmd, setProc, delFromSlaveList_eq_removeSlave]
  have hprocs : ∀ a, (n.finished r).procs a =
      if a = n.addr r.pos then ⟨.down, (n.procAt r.pos).slave⟩ else n.procs a := by
    intro a
    simp [finished, finishedProc, hcmd, setProc, Function.update_apply]
  constructor
  case ring =>
    rw [hslaves]
    exact h.ring.of_removeSlave hpos
  case distinct =>
    rw [hslaves]
    exact hwith.distinctAddrs_small h.distinct
  case homes =>
    intro a ha
    rw [hslaves]
    rw [hprocs a] at ha
    rcases eq_or_ne a (n.addr r.pos) with rfl | hne
    · rw [if_pos rfl] at ha
      exact absurd rfl ha
    · rw [if_neg hne] at ha
      obtain ⟨j, hj, rfl⟩ := h.homes a ha
      have hjp : j ≠ r.pos := fun heq => hne (congrArg n.addr heq)
      refine ⟨newIndex r.pos j, newIndex_lt hwith.pos (by omega) hjp, ?_⟩
      simp only [addr, hslaves]
      rw [hwith.node_newIndex hj hjp]
  case changes_lt => exact h.changes_lt
  case fetched => exact h.fetched
  case packets => exact h.packets
  case task =>
    constructor
    case version =>
      rw [hslaves, ← hafter]
      exact hround.changes
    case known =>
      intro list hlist
      right
      rw [hslaves, ← hafter]
      exact hround.known.lt hround.version hlist
    case procs =>
      intro j hj
      rw [hslaves] at hj ⊢
      have hold := oldIndex_lt (r := r.pos) (show j + 1 < n.slaves.num by omega)
      have hne := oldIndex_ne r.pos j
      have haddr : (n.finished r).addr j = n.addr (oldIndex r.pos j) := by
        simp only [addr, hslaves]
        rw [hwith.node j hj]
      have hproc : (n.finished r).procAt j = n.procAt (oldIndex r.pos j) := by
        have hother : n.addr (oldIndex r.pos j) ≠ n.addr r.pos :=
          fun heq => hne (h.distinct _ hold _ hpos heq)
        rw [procAt, haddr, hprocs, if_neg hother]
        rfl
      rw [hproc]
      obtain ⟨hlive, hlist, hindex⟩ := hround.all_told hend hold hne
      simp only [Round.afterIndex, hcmd, newIndex_oldIndex] at hindex
      exact ⟨hlive, hlist.trans hafter, hindex⟩

/-- The process at `a` may be replaced by `p`: same list and position, and the
same phase or a change between phases of a live slave that has asked for no
round. -/
structure Replaces (n : Net) (a : Addr) (p : Process) : Prop where
  slaves : p.slave.slaves = (n.procs a).slave.slaves
  pos : p.slave.pos = (n.procs a).slave.pos
  phase : p.phase = (n.procs a).phase ∨
    (((n.procs a).phase = .initialising ∨ (n.procs a).phase = .serving) ∧ p.phase.Live)

/-- Replacing a process keeps what a node has to show. -/
theorem Replaces.procAt {a : Addr} {p : Process} (hp : n.Replaces a p) (j : Nat) :
    ((n.setProc a p).procAt j).slave.slaves = (n.procAt j).slave.slaves ∧
      ((n.setProc a p).procAt j).slave.pos = (n.procAt j).slave.pos ∧
      ((n.procAt j).phase.Live → ((n.setProc a p).procAt j).phase.Live) := by
  simp only [Net.procAt, addr_setProc]
  rcases eq_or_ne (n.addr j) a with heq | hne
  · rw [heq, procs_setProc_self]
    refine ⟨hp.slaves, hp.pos, fun hlive => ?_⟩
    rcases hp.phase with hsame | ⟨_, hlive'⟩
    · rw [hsame]
      exact hlive
    · exact hlive'
  · rw [procs_setProc_of_ne hne]
    exact ⟨rfl, rfl, id⟩

/-- Replacing a process keeps a round. -/
theorem RoundInv.replace {r : Round} {before after : SlaveList}
    (h : n.RoundInv r before after) {a : Addr} {p : Process} (hp : n.Replaces a p) :
    (n.setProc a p).RoundInv r before after where
  lists := h.lists
  version := h.version
  changes := h.changes
  known := h.known
  index := h.index
  sent := h.sent
  requester := by
    have hreq := h.requester
    simp only [procAt, addr_setProc] at hreq ⊢
    rcases eq_or_ne (n.addr r.pos) a with heq | hne
    · rw [heq] at hreq
      rw [heq, procs_setProc_self]
      rcases hp.phase with hsame | ⟨hinit | hserving, _⟩
      · exact hsame.trans hreq
      · exact absurd (hreq.symm.trans hinit) r.requesterPhase_ne.1
      · exact absurd (hreq.symm.trans hserving) r.requesterPhase_ne.2
    · rw [procs_setProc_of_ne hne]
      exact hreq
  others := by
    intro j hj hne
    obtain ⟨hslaves, hpos, hphase⟩ := hp.procAt j
    obtain ⟨hlive, hlist, hindex⟩ := h.others j hj hne
    exact ⟨hphase hlive, hslaves.trans hlist, hpos.trans hindex⟩

theorem NetInv.replace (h : n.NetInv) {a : Addr} {p : Process} (hp : n.Replaces a p) :
    (n.setProc a p).NetInv := by
  constructor
  case ring => exact h.ring
  case distinct => exact h.distinct
  case homes =>
    intro b hb
    refine h.homes b fun hdown => hb ?_
    rcases eq_or_ne b a with rfl | hne
    · rw [procs_setProc_self]
      rcases hp.phase with hsame | ⟨hinit | hserving, _⟩
      · exact hsame.trans hdown
      · rw [hdown] at hinit
        cases hinit
      · rw [hdown] at hserving
        cases hserving
    · rw [procs_setProc_of_ne hne]
      exact hdown
  case changes_lt => exact h.changes_lt
  case fetched => exact h.fetched
  case packets => exact h.packets
  case task =>
    have htask : (n.setProc a p).task = n.task := rfl
    rw [htask]
    cases hround : n.task with
    | none =>
        have hset := h.settled hround
        refine ⟨hset.version, hset.known, fun j hj => ?_⟩
        obtain ⟨hslaves, hpos, hphase⟩ := hp.procAt j
        obtain ⟨hlive, hlist, hindex⟩ := hset.procs j hj
        exact ⟨hphase hlive, hslaves.trans hlist, hpos.trans hindex⟩
    | some r =>
        obtain ⟨before, after, hinv⟩ := h.round hround
        exact ⟨before, after, hinv.replace hp⟩

/-- A client fetches the list. -/
theorem NetInv.getList (h : n.NetInv) (htask : n.task = none) :
    ({ n with fetched := n.slaves :: n.fetched } : Net).NetInv := by
  have hset := h.settled htask
  constructor
  case ring => exact h.ring
  case distinct => exact h.distinct
  case homes => exact h.homes
  case changes_lt => exact h.changes_lt
  case fetched =>
    intro list hlist
    rcases List.mem_cons.mp hlist with rfl | hold
    · exact h.distinct
    · exact h.fetched list hold
  case packets =>
    intro p hp
    obtain ⟨list, hlist, hmade⟩ := h.packets p hp
    exact ⟨list, List.mem_cons_of_mem _ hlist, hmade⟩
  case task =>
    simp only [htask]
    refine ⟨hset.version, ?_, hset.procs⟩
    intro list hlist
    rcases List.mem_cons.mp hlist with rfl | hold
    · exact Or.inl rfl
    · exact hset.known list hold

/-- A client sends a request. -/
theorem NetInv.send (h : n.NetInv) {list : SlaveList} (hlist : list ∈ n.fetched)
    {key : dbKey} {i : Nat} (hroute : getSocket list key = some i) :
    ({ n with packets := ⟨list.version, key, (list.node i).addr⟩ :: n.packets } :
      Net).NetInv where
  ring := h.ring
  distinct := h.distinct
  homes := h.homes
  changes_lt := h.changes_lt
  fetched := h.fetched
  packets := by
    intro p hp
    rcases List.mem_cons.mp hp with rfl | hold
    · exact ⟨list, hlist, i, hroute, rfl, rfl⟩
    · exact h.packets p hold
  task := by
    cases hround : n.task with
    | none =>
        have hset := h.settled hround
        exact ⟨hset.version, hset.known, hset.procs⟩
    | some r =>
        obtain ⟨before, after, hinv⟩ := h.round hround
        exact ⟨before, after, hinv.lists, hinv.version, hinv.changes, hinv.known,
          hinv.index, hinv.sent, hinv.requester, hinv.others⟩

/-- **Every step keeps the invariant.** -/
theorem NetInv.step {n' : Net} {e : NetEvent} (h : n.NetInv) (hstep : n.step e = some n') :
    n'.NetInv := by
  cases e with
  | addSlave sn rand =>
      simp only [Net.step, Option.ite_none_right_eq_some] at hstep
      obtain ⟨⟨htask, hmax, hchanges, hdown⟩, heq⟩ := hstep
      obtain rfl := Option.some.inj heq
      exact h.addSlave htask hmax hchanges hdown rand
  | delSlave a =>
      simp only [Net.step, Option.ite_none_right_eq_some] at hstep
      obtain ⟨⟨htask, hchanges, hleaving⟩, heq⟩ := hstep
      obtain rfl := Option.some.inj heq
      exact h.delSlave htask hchanges hleaving
  | notify =>
      cases htask : n.task with
      | none => simp [Net.step, htask] at hstep
      | some r =>
          simp only [Net.step, htask, Option.ite_none_right_eq_some] at hstep
          obtain ⟨⟨hstage, hlt⟩, heq⟩ := hstep
          obtain rfl := Option.some.inj heq
          obtain ⟨before, after, hround⟩ := h.round htask
          exact h.of_task (hround.notify hstage hlt)
  | deliver =>
      cases htask : n.task with
      | none => simp [Net.step, htask] at hstep
      | some r =>
          simp only [Net.step, htask, Option.ite_none_right_eq_some] at hstep
          obtain ⟨⟨hstage, _⟩, heq⟩ := hstep
          obtain rfl := Option.some.inj heq
          exact h.deliver htask hstage
  | recvReply =>
      cases htask : n.task with
      | none => simp [Net.step, htask] at hstep
      | some r =>
          simp only [Net.step, htask, Option.ite_none_right_eq_some] at hstep
          obtain ⟨hstage, heq⟩ := hstep
          obtain rfl := Option.some.inj heq
          obtain ⟨before, after, hround⟩ := h.round htask
          exact h.of_task (hround.recvReply hstage)
  | finish =>
      cases htask : n.task with
      | none => simp [Net.step, htask] at hstep
      | some r =>
          simp only [Net.step, htask, Option.ite_none_right_eq_some] at hstep
          obtain ⟨⟨_, hend⟩, heq⟩ := hstep
          obtain rfl := Option.some.inj heq
          cases hcmd : r.cmd with
          | add => exact h.finishAdd htask hend hcmd
          | del => exact h.finishDel htask hend hcmd
  | initialised a =>
      simp only [Net.step, Option.ite_none_right_eq_some] at hstep
      obtain ⟨hphase, heq⟩ := hstep
      obtain rfl := Option.some.inj heq
      exact h.replace ⟨rfl, rfl, Or.inr ⟨Or.inl hphase, Or.inr (Or.inl rfl)⟩⟩
  | shutDown a =>
      simp only [Net.step, Option.ite_none_right_eq_some] at hstep
      obtain ⟨⟨hphase, _⟩, heq⟩ := hstep
      obtain rfl := Option.some.inj heq
      exact h.replace ⟨rfl, rfl, Or.inr ⟨Or.inr hphase, Or.inr (Or.inr rfl)⟩⟩
  | getList =>
      simp only [Net.step, Option.ite_none_right_eq_some] at hstep
      obtain ⟨htask, heq⟩ := hstep
      obtain rfl := Option.some.inj heq
      exact h.getList htask
  | send list key =>
      simp only [Net.step, Option.ite_none_right_eq_some, Option.map_eq_some_iff] at hstep
      obtain ⟨hlist, i, hroute, rfl⟩ := hstep
      exact h.send hlist hroute

end Steps

section Gate

variable {n : Net}

/-- A serving slave has a list in which it is at its position, and no client has a
newer one. -/
theorem NetInv.serving (h : n.NetInv) {a : Addr} (hserving : (n.procs a).phase = .serving) :
    n.Known (n.procs a).slave.slaves ∧
      (n.procs a).slave.pos < (n.procs a).slave.slaves.num ∧
      ((n.procs a).slave.slaves.node (n.procs a).slave.pos).addr = a := by
  obtain ⟨j, hj, rfl⟩ := h.homes a (by rw [hserving]; decide)
  cases htask : n.task with
  | none =>
      have hset := h.settled htask
      obtain ⟨_, hslaves, hpos⟩ := hset.procs j hj
      rw [procAt] at hslaves hpos
      rw [hslaves, hpos]
      exact ⟨hset.known, hj, rfl⟩
  | some r =>
      obtain ⟨before, after, hround⟩ := h.round htask
      have hne : j ≠ r.pos := by
        rintro rfl
        exact r.requesterPhase_ne.2 (hround.requester.symm.trans hserving)
      obtain ⟨_, hslaves, hpos⟩ := hround.others j hj hne
      rw [procAt] at hslaves hpos
      obtain ⟨⟨hlt, hnode⟩, hlt', hnode'⟩ := hround.lists.node h.ring hj hne
      rw [hslaves, hpos]
      by_cases htold : r.Told j
      · rw [if_pos htold, if_pos htold, hnode']
        exact ⟨fun list hlist => Or.inr (hround.known.lt hround.version hlist), hlt', rfl⟩
      · rw [if_neg htold, if_neg htold, hnode]
        exact ⟨hround.known, hlt, rfl⟩

/-- An admitted packet was routed with the slave's own list. -/
theorem NetInv.routed (h : n.NetInv) {p : Packet} (hadmitted : n.Admitted p) :
    getSocket (n.procs p.dest).slave.slaves p.key = some (n.procs p.dest).slave.pos ∧
      ((n.procs p.dest).slave.slaves.node (n.procs p.dest).slave.pos).addr = p.dest := by
  obtain ⟨hp, hserving, hversion⟩ := hadmitted
  obtain ⟨list, hlist, i, hroute, hpversion, hdest⟩ := h.packets p hp
  obtain ⟨hknown, hpos, hnode⟩ := h.serving hserving
  refine ⟨?_, hnode⟩
  rcases hknown list hlist with heq | hold
  · have hdistinct := h.fetched list hlist
    rw [← heq] at hpos hnode ⊢
    have hi := getSocket_lt_num hroute
    rw [hdistinct _ hpos i hi (hnode.trans hdest)]
    exact hroute
  · rw [hpversion] at hversion
    exact absurd hold hversion

end Gate

/-- **The version gate is sound at admission.**  In every reachable state, whenever
the main loop of a slave admits a packet, `GetSocket` on that slave's own current
list selects that slave for the packet's key. -/
theorem admitted_routed_to_dest (events : List NetEvent) (n : Net)
    (hrun : run step init events = some n) (p : Packet) (hadmitted : n.Admitted p) :
    getSocket (n.procs p.dest).slave.slaves p.key = some (n.procs p.dest).slave.pos ∧
      ((n.procs p.dest).slave.slaves.node (n.procs p.dest).slave.pos).addr = p.dest := by
  have hinv : n.NetInv := run_invariant NetInv (fun _ _ _ h hstep => h.step hstep) hrun netInv_init
  exact hinv.routed hadmitted

/-- Two registrations, and a client's request with the list after both. -/
def sampleEvents : List NetEvent :=
  [.addSlave ⟨0, 1, 0, 0⟩ 0, .notify, .finish, .initialised ⟨0, 1⟩, .getList,
    .addSlave ⟨0, 2, 0, 0⟩ 0, .notify, .deliver, .recvReply, .notify, .finish,
    .initialised ⟨0, 2⟩, .getList, .send (ringOf 2) 500]

theorem admitted_routed_to_dest_sampleEvents :
    ∃ n, run step init sampleEvents = some n ∧ n.Admitted ⟨2, 500, ⟨0, 1⟩⟩ ∧
      getSocket (n.procs ⟨0, 1⟩).slave.slaves 500 = some (n.procs ⟨0, 1⟩).slave.pos := by
  have hmap : (run step init sampleEvents).map
      (fun n => decide (n.Admitted ⟨2, 500, ⟨0, 1⟩⟩)) = some true := by
    decide
  obtain ⟨n, hrun, hmap⟩ := Option.map_eq_some_iff.mp hmap
  have hadmitted := of_decide_eq_true hmap
  exact ⟨n, hrun, hadmitted, (admitted_routed_to_dest sampleEvents n hrun _ hadmitted).1⟩

end Net

end DistributedDB
