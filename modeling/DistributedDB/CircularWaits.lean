import DistributedDB.ControlRounds
import DistributedDB.ReplyMatching

/-!
# Circular waits on the control sockets

The processes that are blocked: the master in a `RecvMsg` of `NotifyAll` or `UpdateBackup`, a
slave in `RegisterAndLoadSlaves` or `ShutDownSlave`, which waits for the master, and a slave in
`CommunicateToSlave`, which waits for another slave until that one serves it in its main loop.
A process whose packet has arrived does not wait.

`HandleMasterRequest` answers `RM_SLAVE` before it calls another slave, but `UPDATE_BACKUP12`
after its calls, and SIGINT makes a slave wait for the master wherever it is.  So a departure
or a tick that begins while something else is going on can close a cycle.  A registration
cannot: a slave that is still busy with an operation before it has a list without the new
slave.

**Results.**
* `Duty.callRank_lt`: a call goes to a slave of a smaller rank.
* `ControlNet.waits_acyclic`: no circular wait in any run in which SIGINT and SIGALRM come only
  while nothing is going on.
* `ControlNet.departure_in_tick`, `ControlNet.tick_in_registration`: the cycles that are closed
  otherwise.
-/

namespace DistributedDB

open RingIndex Run

/-- A relation along which a number falls has no cycle. -/
theorem not_transGen_of_lt {α : Type*} {r : α → α → Prop} (f : α → Nat)
    (h : ∀ p q, r p q → f q < f p) (p : α) : ¬ Relation.TransGen r p p := by
  intro hcycle
  have htrans : IsTrans α fun p q => f q < f p := ⟨fun _ _ _ h h' => h'.trans h⟩
  exact lt_irrefl _ (Relation.transGen_minimal h p p hcycle)

/-- The slave waits for a reply of the master. -/
def Link.Asks (l : Link) : Prop :=
  (∃ id, l.thread = .registering id ∨ l.thread = .leaving id) ∧ l.toSlave = []

namespace ControlNet

/-- Who waits for a reply of whom; the master is `none`.  The master waits in the innermost
of its `RecvMsg`, that of `UpdateBackup` while it runs. -/
inductive Waits (s : ControlNet) : Option Int → Option Int → Prop where
  | tick (w : Await) (halarm : s.alarm = some w) (hqueue : (s.links w.sock).toMaster = []) :
      Waits s none (some w.sock)
  | notify (r : Notifying) (id : Nat) (hbase : s.base = some r) (halarm : s.alarm = none)
      (hsent : r.sent = some id) (hqueue : (s.links (s.sock r.i)).toMaster = []) :
      Waits s none (some (s.sock r.i))
  | asks (a : Int) (h : (s.links a).Asks) : Waits s (some a) none
  | calls (a b k : Int) (todo : List Int) (after : After)
      (hthread : (s.links a).thread = .waiting k todo after)
      (hpeer : peer (s.links a) k = some b) : Waits s (some a) (some b)

/-- A cycle of processes, each of which waits for a reply of the next one. -/
def CircularWait (s : ControlNet) : Prop :=
  ∃ p, Relation.TransGen s.Waits p p

section Ranks

variable {s : ControlNet}

open Classical in
/-- The rank of a process: a slave that waits for the master is above it, the others are
below. -/
noncomputable def waitRank (s : ControlNet) (f : Int → Nat) (p : Option Int) : Nat :=
  p.elim 3 fun a => if (s.links a).Asks then 4 else f a

/-- The waits go down: to the master, to slaves that do not wait for it, and among these to
slaves of a smaller rank. -/
theorem not_circularWait_of_rank (f : Int → Nat) (hf : ∀ a, f a < 3)
    (hmaster : ∀ a, s.Waits none (some a) → ¬ (s.links a).Asks)
    (hcalls : ∀ a b, s.Waits (some a) (some b) → ¬ (s.links b).Asks ∧ f b < f a) :
    ¬ s.CircularWait := by
  rintro ⟨p, hcycle⟩
  refine not_transGen_of_lt (s.waitRank f) (fun p q hpq => ?_) p hcycle
  cases q with
  | none =>
      cases hpq with
      | asks a h => simp [waitRank, h]
  | some b =>
      cases p with
      | none =>
          have hb := hmaster b hpq
          simp [waitRank, hb, hf b]
      | some a =>
          obtain ⟨hb, hlt⟩ := hcalls a b hpq
          have := hf b
          by_cases ha : (s.links a).Asks
          · simp only [waitRank, Option.elim, if_neg hb, if_pos ha]
            omega
          · simp only [waitRank, Option.elim, if_neg hb, if_neg ha]
            exact hlt

/-- How far a slave is from the last one of those that call each other. -/
def callRank (slaves : SlaveList) (op : LastOp) (b : Int) : Nat :=
  match op with
  | .joined a | .ticks a _ => if b = a then 1 else 0
  | .left pos =>
      if b = (slaves.node (back slaves.num pos 1)).sock then 2
      else if b = (slaves.node (back slaves.num pos 2)).sock then 1 else 0
  | .calm | .leaves _ => 0

theorem callRank_lt (slaves : SlaveList) (op : LastOp) (b : Int) :
    callRank slaves op b < 3 := by
  unfold callRank
  split
  case h_1 | h_2 => split <;> omega
  case h_3 => split_ifs <;> omega
  case h_4 | h_5 => omega

variable {slaves : SlaveList} {op : LastOp} {a b : Int} {l : Link}

theorem Duty.not_asks (h : Duty slaves op b l l.thread) (hop : op ≠ .leaves b) : ¬ l.Asks := by
  rintro ⟨⟨id, hthread | hthread⟩, hqueue⟩
  · rw [hthread] at h
    cases h with
    | registering _ _ _ htoSlave =>
        rw [hqueue] at htoSlave
        cases htoSlave
  · rw [hthread] at h
    cases h with
    | leaving _ _ hleaves => exact hop hleaves

/-- The slave that is called. -/
theorem peer_of_holds (hroster : Roster slaves) (hholds : Holds slaves a l.slave) {k : Int}
    (hpeer : peer l k = some b) :
    relPos l.slave.pos k slaves.num ≠ l.slave.pos ∧ slaves.Listed b ∧ b ≠ a ∧
      b = (slaves.node (relPos l.slave.pos k slaves.num)).sock := by
  have hpos := hholds.pos_lt
  have hlt := relPos_lt (show 0 < slaves.num by omega) l.slave.pos k
  rw [peer, Slave.hisPos, hholds.slaves_eq] at hpeer
  split at hpeer
  case isTrue => cases hpeer
  case isFalse hne =>
      obtain rfl := Option.some.inj hpeer
      refine ⟨hne, ⟨_, hlt, rfl⟩, fun heq => hne ?_, rfl⟩
      exact hroster.sock_inj _ _ hlt hpos (heq.trans hholds.sock_pos.symm)

/-- After a departure the predecessor may wait for the second predecessor, but not the other
way round. -/
theorem callRank_left (hroster : Roster slaves) {pos m : Nat} (hm : m < slaves.num)
    (hpre : m = back slaves.num pos 1 ∨ m = back slaves.num pos 2)
    (hturn : (m + 2) % slaves.num ≠ m) :
    callRank slaves (.left pos) (slaves.node ((m + 2) % slaves.num)).sock <
      callRank slaves (.left pos) (slaves.node m).sock := by
  have hnum : 2 < slaves.num := by
    by_contra hsmall
    exact hturn (two_mod_eq hm (Nat.le_of_not_lt hsmall))
  have hlt : ∀ i, i % slaves.num < slaves.num := fun i => Nat.mod_lt _ (by omega)
  have hsock : ∀ i k, i < slaves.num →
      ((slaves.node i).sock = (slaves.node (back slaves.num pos k)).sock ↔
        i = back slaves.num pos k) := fun i k hi =>
    ⟨hroster.sock_inj _ _ hi (back_lt (by omega)), fun heq =>
      congrArg (slaves.node · |>.sock) heq⟩
  have hone : (back slaves.num pos 1 + 1) % slaves.num = pos % slaves.num :=
    back_add 0 (by omega)
  have htwo : (back slaves.num pos 2 + 2) % slaves.num = pos % slaves.num :=
    back_add 0 (by omega)
  have hnext : pos % slaves.num ≠ back slaves.num pos 1 := by
    rw [← hone]
    exact succ_mod_ne (back_lt (by omega)) (by omega)
  simp only [callRank, hsock _ _ hm, hsock _ _ (hlt _)]
  rcases hpre with hpre | hpre
  · rw [← hpre, if_neg hturn, if_pos rfl]
    split <;> omega
  · rw [← hpre] at htwo
    rw [← hpre, if_neg hturn, htwo, if_neg hnext, if_pos rfl]
    split <;> omega

/-- A call goes to a slave of a smaller rank. -/
theorem Duty.callRank_lt (hroster : Roster slaves) {k : Int} {todo : List Int} {after : After}
    (h : Duty slaves op a l l.thread) (hthread : l.thread = .waiting k todo after)
    (hpeer : peer l k = some b) :
    slaves.Listed b ∧ (∀ c, op ≠ .leaves c) ∧
      callRank slaves op b < callRank slaves op a := by
  rw [hthread] at h
  cases h with
  | waiting _ _ _ hempty hholds hcalls =>
      obtain ⟨hturn, hlisted, hne, hb⟩ := peer_of_holds hroster hholds hpeer
      refine ⟨hlisted, ?_⟩
      cases hcalls with
      | joined | ticks id =>
          refine ⟨by simp, ?_⟩
          simp only [callRank, if_neg hne, if_true]
          exact Nat.zero_lt_one
      | predecessor pos hpre =>
          have hone : relPos pos (-1) slaves.num = back slaves.num pos 1 :=
            relPos_sub 1 (by have := hholds.pos_lt; omega)
          have htwo : relPos pos (-2) slaves.num = back slaves.num pos 2 :=
            relPos_sub_two (Nat.zero_lt_of_lt hholds.pos_lt)
          have hmod : relPos l.slave.pos 2 slaves.num = (l.slave.pos + 2) % slaves.num :=
            relPos_add 2
          rw [Slave.isPredecessor, Slave.isSecondPredecessor, hholds.slaves_eq, hone, htwo,
            Bool.or_eq_true, beq_iff_eq, beq_iff_eq] at hpre
          rw [hmod] at hturn hb
          rw [hb, ← hholds.sock_pos]
          exact ⟨by simp, callRank_left hroster hholds.pos_lt hpre hturn⟩

end Ranks

section States

variable {s : ControlNet}

theorem Outside.not_waiting {l : Link} {k : Int} {todo : List Int} {after : After}
    (h : Outside l l.thread) : l.thread ≠ .waiting k todo after := by
  intro hthread
  rw [hthread] at h
  cases h

/-- Between two rounds. -/
theorem Crowd.not_circularWait {slaves : SlaveList} {op : LastOp} (h : Crowd slaves op s) :
    ¬ s.CircularWait := by
  refine not_circularWait_of_rank (callRank slaves op) (ControlNet.callRank_lt slaves op)
    (fun a hwaits => ?_) fun a b hwaits => ?_
  · cases hwaits with
    | notify r id hbase =>
        rw [h.base] at hbase
        cases hbase
    | tick w halarm hqueue =>
        have hop : op.alarm = some w := h.alarm.symm.trans halarm
        refine (h.members _ (h.asked w hop)).not_asks fun hleaves => ?_
        rw [hleaves] at hop
        cases hop
  · cases hwaits with
    | calls _ _ k todo after hthread hpeer =>
        have ha : slaves.Listed a := by
          by_contra hnot
          exact (h.others a hnot).not_waiting hthread
        obtain ⟨hb, hleaves, hlt⟩ :=
          (h.members a ha).callRank_lt h.roster hthread hpeer
        exact ⟨(h.members b hb).not_asks (hleaves b), hlt⟩

/-- A slave that a notification is meant for does not ask the master, unless it has asked to
leave. -/
theorem Stand.not_asks {old new : SlaveList} {op last : LastOp} {notice : ControlMsg} {i j : Nat}
    {sent : Option Nat} {b : Int} {l : Link} (h : Stand old new op last notice i sent j b l)
    (hop : op ≠ .leaves b) (hlast : last ≠ .leaves b) : ¬ l.Asks := by
  cases h with
  | told _ h => exact h.not_asks hlast
  | untold _ _ h => exact h.not_asks hop
  | sent id v _ _ hl =>
      rintro ⟨-, hqueue⟩
      rw [hl] at hqueue
      exact absurd hqueue (List.append_ne_nil_of_right_ne_nil _ (List.cons_ne_nil _ _))
  | handling id _ _ hthread =>
      rintro ⟨⟨id', hasks | hasks⟩, -⟩ <;>
      · rw [hthread] at hasks
        cases hasks
  | replied id p v _ _ hl h =>
      rintro ⟨hthread, hqueue⟩
      rw [hl] at hthread hqueue
      exact h.not_asks hlast ⟨hthread, (List.append_nil _).symm.trans hqueue⟩

/-- The slave that a notification is meant for has not answered: it does not ask the
master. -/
theorem Stand.not_asks_of_sent {old new : SlaveList} {op last : LastOp} {notice : ControlMsg}
    {i id : Nat} {b : Int} {l : Link}
    (h : Stand old new op last notice i (some id) i b l) (hqueue : l.toMaster = []) :
    ¬ l.Asks := by
  cases h with
  | told hj => exact absurd hj (lt_irrefl _)
  | untold _ hsent =>
      have hnone := hsent rfl
      cases hnone
  | sent id' v _ _ hl =>
      rintro ⟨-, htoSlave⟩
      rw [hl] at htoSlave
      exact absurd htoSlave (List.append_ne_nil_of_right_ne_nil _ (List.cons_ne_nil _ _))
  | handling id' _ _ hthread =>
      rintro ⟨⟨id'', hasks | hasks⟩, -⟩ <;>
      · rw [hthread] at hasks
        cases hasks
  | replied id' p v _ _ hl =>
      rw [hl] at hqueue
      cases hqueue

variable {old new : SlaveList} {op last : LastOp} {r : Notifying} {a b k : Int}
  {todo : List Int} {after : After}

theorem Round.not_asks (h : Round old new op last r s) (hne : b ≠ r.requester)
    (hb : s.slaves.Listed b) : ¬ (s.links b).Asks := by
  obtain ⟨j, hj, rfl⟩ := hb
  have hother : j ≠ r.pos := by
    rintro rfl
    exact hne (h.turn.asker h.roster).2
  obtain ⟨⟨-, hop⟩, hlast⟩ := h.turn.apart hne
  exact (h.nodes j hj hother).not_asks hop hlast

/-- A slave that calls has the list from before the round, or from after it. -/
theorem Round.caller (h : Round old new op last r s)
    (hthread : (s.links a).thread = .waiting k todo after)
    (hpeer : peer (s.links a) k = some b) :
    a ≠ r.requester ∧
      ((old.Listed b ∧ (∀ c, op ≠ .leaves c) ∧ callRank old op b < callRank old op a) ∨
        (last ≠ .joined r.requester ∧ new.Listed b ∧
          callRank new last b < callRank new last a)) := by
  have hne : a ≠ r.requester := by
    rintro rfl
    have hasks := h.thread.symm.trans hthread
    generalize r.cmd = cmd at hasks
    cases cmd <;> cases hasks
  have ha : s.slaves.Listed a := by
    by_contra hnot
    exact (h.others a hne hnot).not_waiting hthread
  obtain ⟨j, hj, rfl⟩ := ha
  have hother : j ≠ r.pos := by
    rintro rfl
    exact hne (h.turn.asker h.roster).2
  have hnew : ∀ v : Link, Duty new last (s.sock j) v v.thread →
      v.thread = .waiting k todo after → peer v k = some b →
      last ≠ .joined r.requester ∧ new.Listed b ∧
        callRank new last b < callRank new last (s.sock j) := by
    intro v hduty hv hpeer'
    obtain ⟨hb, -, hlt⟩ := hduty.callRank_lt (h.turn.rosters h.roster).2 hv hpeer'
    refine ⟨?_, hb, hlt⟩
    rintro rfl
    rw [hv] at hduty
    cases hduty with
    | waiting _ _ _ _ _ hcalls => exact hne hcalls.joined_eq
  refine ⟨hne, ?_⟩
  have hstand := h.nodes j hj hother
  change (s.links (s.sock j)).thread = _ at hthread
  change peer (s.links (s.sock j)) k = _ at hpeer
  generalize s.links (s.sock j) = l at hstand hthread hpeer
  cases hstand with
  | told _ hduty => exact Or.inr (hnew l hduty hthread hpeer)
  | untold _ _ hduty => exact Or.inl (hduty.callRank_lt h.roster hthread hpeer)
  | sent id v _ _ hl hduty =>
      subst hl
      exact Or.inl (hduty.callRank_lt h.roster hthread hpeer)
  | handling id _ _ hhandling => cases hhandling.symm.trans hthread
  | replied id p v _ _ hl hduty =>
      subst hl
      exact Or.inr (hnew v hduty hthread hpeer)

/-- In a round. -/
theorem Round.not_circularWait (h : Round old new op last r s) : ¬ s.CircularWait := by
  have hmaster : ∀ a, s.Waits none (some a) → ¬ (s.links a).Asks := by
    intro a hwaits
    cases hwaits with
    | tick w halarm =>
        rw [h.alarm] at halarm
        cases halarm
    | notify r' id hbase _ hsent hqueue =>
        obtain rfl := Option.some.inj (h.base.symm.trans hbase)
        obtain ⟨hlt, hne⟩ := h.lt_num (hsent ▸ Option.some_ne_none id)
        have hstand := h.nodes _ hlt hne
        rw [hsent] at hstand
        exact hstand.not_asks_of_sent hqueue
  have hlisted := fun {b} (hb : b ≠ r.requester) => h.turn.listed h.roster hb
  have hturn := h.turn
  generalize hlist : s.slaves = list at hturn
  generalize hcmd : r.cmd = cmd at hturn
  generalize ha : r.requester = a at hturn
  generalize r.pos = pos at hturn
  cases hturn with
  | add op a ip port rand hop hleaves hmax hfresh =>
      refine not_circularWait_of_rank (callRank old op) (ControlNet.callRank_lt old op) hmaster
        fun c b hwaits => ?_
      cases hwaits with
      | calls _ _ k todo after hthread hpeer =>
          obtain ⟨-, ⟨hb, -, hlt⟩ | ⟨hjoined, -⟩⟩ := h.caller hthread hpeer
          · have hne : b ≠ r.requester := by
              rintro rfl
              exact hfresh (ha ▸ hb)
            exact ⟨h.not_asks hne ((hlisted hne).1.mp hb), hlt⟩
          · exact absurd (congrArg LastOp.joined ha.symm) hjoined
  | del pos hpos =>
      refine not_circularWait_of_rank (callRank (delFromSlaveList old pos) (.left pos))
        (ControlNet.callRank_lt _ _) hmaster fun c b hwaits => ?_
      cases hwaits with
      | calls _ _ k todo after hthread hpeer =>
          obtain ⟨-, ⟨-, hleaves, -⟩ | ⟨-, hb, hlt⟩⟩ := h.caller hthread hpeer
          · exact absurd rfl (hleaves _)
          · have hne : b ≠ r.requester := by
              rintro rfl
              exact ((h.roster.listed_delFromSlaveList hpos).mp hb).2 ha
            exact ⟨h.not_asks hne ((hlisted hne).2.mp hb), hlt⟩

end States

/-- **No circular wait.**  In every run in which SIGINT and SIGALRM come only while nothing is
going on, and the master receives no `ADD_SLAVE` while a `DEL_SLAVE` is on its way, no state
has a cycle of processes that wait for each other; slaves may register at any time. -/
theorem waits_acyclic (events : List ControlEvent)
    (hcond : allSteps step SignalsApart init events) (s : ControlNet)
    (hrun : run step init events = some s) : ¬ s.CircularWait := by
  have h : s.Reached :=
    run_invariant_of_allSteps SignalsApart Reached
      (fun _ _ _ h hcond hstep => h.step hcond hstep) hcond hrun reached_init
  cases h with
  | crowd slaves op h => exact h.not_circularWait
  | round old new op last r h => exact h.not_circularWait

/-- A tick, and then two registrations at once: the second one is handled while the slave of
the first one calls in `InitialSlave`. -/
def crowdedRun : List ControlEvent :=
  firstJoin 5 ++
    [.tick, .slaveRecv 5, .slaveHandle 5, .call 5, .call 5, .endCalls 5, .tickReply,
      .register 6 2, .register 7 3, .masterRecv 6 0 0, .notify, .slaveRecv 5, .slaveHandle 5,
      .masterReply, .notify, .finish, .masterRecv 7 0 0, .notify, .slaveRecv 5, .slaveHandle 5,
      .masterReply, .notify, .notify, .slaveReply 6, .call 6]

theorem waits_acyclic_crowdedRun :
    ∃ s, run step init crowdedRun = some s ∧
      (s.links 6).thread = .waiting (-1) [1] .initialSlave ∧ ¬ s.CircularWait := by
  have hmap : (run step init crowdedRun).map (fun s => (s.links 6).thread) =
      some (.waiting (-1) [1] .initialSlave) := by
    decide +kernel
  obtain ⟨s, hrun, hthread⟩ := Option.map_eq_some_iff.mp hmap
  exact ⟨s, hrun, hthread, waits_acyclic crowdedRun (by decide +kernel) s hrun⟩

/-- A second slave registers. -/
def secondJoin : List ControlEvent :=
  [.register 6 2, .masterRecv 6 0 0, .notify, .slaveRecv 5, .slaveHandle 5, .masterReply, .notify,
    .finish, .slaveReply 6, .call 6, .serve 5 6, .call 6, .serve 5 6, .endCalls 6]

/-- SIGINT at the slave that the slave of the tick has called. -/
def departureInTick : List ControlEvent :=
  firstJoin 5 ++ secondJoin ++ [.tick, .slaveRecv 6, .slaveHandle 6, .call 6, .interrupt 5]

/-- The master waits for the slave of the tick, that one for the slave that leaves, and this
one for the master. -/
theorem departure_in_tick :
    ∃ s, run step init departureInTick = some s ∧ s.Waits none (some 6) ∧
      s.Waits (some 6) (some 5) ∧ s.Waits (some 5) none ∧ s.CircularWait := by
  have hmap : (run step init departureInTick).map (fun s =>
      decide (s.alarm = some ⟨6, 3⟩ ∧ (s.links 6).toMaster = [] ∧
        (s.links 6).thread = .waiting 1 [2] (.updateBackup12 3) ∧ peer (s.links 6) 1 = some 5 ∧
        (s.links 5).thread = .leaving 4 ∧ (s.links 5).toSlave = [])) = some true := by
    decide +kernel
  obtain ⟨s, hrun, hmap⟩ := Option.map_eq_some_iff.mp hmap
  obtain ⟨halarm, htoMaster, hthread, hpeer, hleaves, htoSlave⟩ := of_decide_eq_true hmap
  have hmaster : s.Waits none (some 6) := .tick ⟨6, 3⟩ halarm htoMaster
  have hcall : s.Waits (some 6) (some 5) := .calls 6 5 1 [2] _ hthread hpeer
  have hslave : s.Waits (some 5) none := .asks 5 ⟨⟨4, Or.inr hleaves⟩, htoSlave⟩
  exact ⟨s, hrun, hmaster, hcall, hslave, none,
    .tail (.tail (.single hmaster) hcall) hslave⟩

/-- SIGALRM when a slave calls one that is registering. -/
def tickInRegistration : List ControlEvent :=
  firstJoin 5 ++ secondJoin ++
    [.tick, .slaveRecv 6, .slaveHandle 6, .call 6, .serve 5 6, .call 6, .endCalls 6, .tickReply,
      .register 7 3, .masterRecv 7 0 0, .notify, .slaveRecv 5, .slaveHandle 5, .masterReply,
      .notify, .notify, .slaveRecv 6, .slaveHandle 6, .masterReply, .tick, .slaveRecv 6,
      .slaveHandle 6, .call 6, .serve 5 6, .call 6]

/-- The master waits for the slave of the tick, that one for the new slave, and this one for
the master. -/
theorem tick_in_registration :
    ∃ s, run step init tickInRegistration = some s ∧ s.CircularWait := by
  have hmap : (run step init tickInRegistration).map (fun s =>
      decide (s.alarm = some ⟨6, 7⟩ ∧ (s.links 6).toMaster = [] ∧
        (s.links 6).thread = .waiting 2 [] (.updateBackup12 7) ∧ peer (s.links 6) 2 = some 7 ∧
        (s.links 7).thread = .registering 4 ∧ (s.links 7).toSlave = [])) = some true := by
    decide +kernel
  obtain ⟨s, hrun, hmap⟩ := Option.map_eq_some_iff.mp hmap
  obtain ⟨halarm, htoMaster, hthread, hpeer, hregisters, htoSlave⟩ := of_decide_eq_true hmap
  have hmaster : s.Waits none (some 6) := .tick ⟨6, 7⟩ halarm htoMaster
  have hcall : s.Waits (some 6) (some 7) := .calls 6 7 2 [] _ hthread hpeer
  have hslave : s.Waits (some 7) none := .asks 7 ⟨⟨4, Or.inl hregisters⟩, htoSlave⟩
  exact ⟨s, hrun, none, .tail (.tail (.single hmaster) hcall) hslave⟩

end ControlNet

end DistributedDB
