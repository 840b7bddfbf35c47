import DistributedDB.ControlPhases

/-!
# What the slaves may be doing when they register at any time

SIGINT and SIGALRM come only while the master handles no request and every slave of its list
is in its main loop, and while a `DEL_SLAVE` is on its way the master receives no `ADD_SLAVE`;
but slaves register whenever they like.  Then slaves may still be busy with one operation when
the next registration is handled: the predecessors of a slave that has left call other slaves,
or a new slave has not received its list or is in `InitialSlave`.  A slave answers `NEW_SLAVE`
in its main loop only, so at the end of a round nobody is busy with what was before it, and in
a round a slave has the list from before the round or the one from after it.

**Results.**
* `Holds.newSlave`, `Holds.rmSlave`: the lists of the slaves.
* `ControlNet.Duty`: what a slave of the list may be doing, for the last operation.
* `ControlNet.Duty.step`: a step of such a slave.
* `ControlNet.Crowd`, `ControlNet.Round`: the states between two rounds and in a round.
-/

namespace DistributedDB

open RingIndex Run

/-- Every slave of the list has a socket of its own. -/
structure Roster (slaves : SlaveList) : Prop where
  ring : RingInv slaves
  sock_inj : ∀ i j, i < slaves.num → j < slaves.num →
    (slaves.node i).sock = (slaves.node j).sock → i = j

/-- The socket of a slave of the list. -/
def SlaveList.Listed (slaves : SlaveList) (b : Int) : Prop :=
  ∃ i, i < slaves.num ∧ (slaves.node i).sock = b

/-- The slave at socket `b` has the list, and its own position in it. -/
structure Holds (slaves : SlaveList) (b : Int) (s : Slave) : Prop where
  slaves_eq : s.slaves = slaves
  pos_lt : s.pos < slaves.num
  sock_pos : (slaves.node s.pos).sock = b

section Lists

variable {slaves : SlaveList} {s : Slave} {a b : Int} {pos : Nat}

theorem roster_empty : Roster SlaveList.empty where
  ring := ringInv_empty
  sock_inj := fun i _ hi => absurd hi (Nat.not_lt_zero i)

/-- Processes that have the list. -/
theorem Roster.exists_agrees (h : Roster slaves) :
    ∃ procs, (Registry.mk slaves procs).Agrees := by
  have hpos : ∀ b, ∃ m, ∀ i, i < slaves.num → (slaves.node i).sock = b → m = i := by
    intro b
    by_cases hb : slaves.Listed b
    · obtain ⟨m, hm, rfl⟩ := hb
      exact ⟨m, fun i hi heq => h.sock_inj m i hm hi heq.symm⟩
    · exact ⟨0, fun i hi heq => absurd ⟨i, hi, heq⟩ hb⟩
  choose index hindex using hpos
  exact ⟨fun b => ⟨slaves, index b, ⟨∅, none, none, none⟩⟩,
    ⟨h.ring, h.sock_inj, fun _ _ => rfl, fun i hi => hindex _ i hi rfl⟩⟩

theorem Roster.listed_addToSlaveList (h : Roster slaves) (ip port : Int) (rand : Nat)
    (hmax : slaves.num < MAX_SLAVE_NUM) :
    (addToSlaveList slaves ⟨ip, port, a, 0⟩ rand).1.Listed b ↔ slaves.Listed b ∨ b = a := by
  obtain ⟨procs, hagrees⟩ := h.exists_agrees
  exact live_addToSlaveList (a := a) hagrees hmax

theorem Roster.addToSlaveList (h : Roster slaves) (ip port : Int) (rand : Nat)
    (hmax : slaves.num < MAX_SLAVE_NUM) (hfresh : ¬ slaves.Listed a) :
    Roster (addToSlaveList slaves ⟨ip, port, a, 0⟩ rand).1 := by
  obtain ⟨procs, hagrees⟩ := h.exists_agrees
  exact ⟨h.ring.of_addToSlaveList hmax _ rand,
    hagrees.sock_inj_addToSlaveList a ip port rand hmax hfresh⟩

/-- `NEW_SLAVE` with the node that the master has inserted. -/
theorem Holds.newSlave (h : Roster slaves) (ip port : Int) (rand : Nat)
    (hmax : slaves.num < MAX_SLAVE_NUM) (hs : Holds slaves b s) :
    Holds (addToSlaveList slaves ⟨ip, port, a, 0⟩ rand).1 b
      (s.newSlave (addToSlaveList slaves ⟨ip, port, a, 0⟩ rand).2
        ((addToSlaveList slaves ⟨ip, port, a, 0⟩ rand).1.node
          (addToSlaveList slaves ⟨ip, port, a, 0⟩ rand).2)) := by
  have hpos : s.pos < s.slaves.num := hs.slaves_eq ▸ hs.pos_lt
  have hlt : oldIndex (addToSlaveList slaves ⟨ip, port, a, 0⟩ rand).2 s.pos < slaves.num + 1 :=
    oldIndex_lt (Nat.succ_lt_succ hs.pos_lt)
  have hlist : addNewSlave slaves _ _ = (addToSlaveList slaves ⟨ip, port, a, 0⟩ rand).1 :=
    (addToSlaveList_eq_addNewSlave ⟨ip, port, a, 0⟩ rand hmax h.ring.find_lt).symm
  rw [newSlave_eq hpos, hs.slaves_eq]
  refine ⟨hlist, ?_, ?_⟩
  · rw [num_addToSlaveList]
    exact hlt
  · have hsock := Registry.sock_addToSlaveList (r := ⟨slaves, fun _ => s⟩) a ip port rand
      h.ring hmax (Nat.le_of_lt_succ hlt)
    rw [if_neg (oldIndex_ne _ _), newIndex_oldIndex] at hsock
    exact hsock.trans hs.sock_pos

theorem Roster.listed_delFromSlaveList (h : Roster slaves) (hpos : pos < slaves.num) :
    (delFromSlaveList slaves pos).Listed b ↔
      slaves.Listed b ∧ b ≠ (slaves.node pos).sock := by
  obtain ⟨procs, hagrees⟩ := h.exists_agrees
  have hlive := live_delSlave hagrees hpos (b := b)
  rw [delSlave_eq hagrees hpos] at hlive
  exact hlive

theorem Roster.delFromSlaveList (h : Roster slaves) (hpos : pos < slaves.num) :
    Roster (delFromSlaveList slaves pos) := by
  obtain ⟨procs, hagrees⟩ := h.exists_agrees
  have hdel := hagrees.delSlave hpos
  rw [delSlave_eq hagrees hpos] at hdel
  exact ⟨hdel.ring, hdel.sock_inj⟩

/-- `RM_SLAVE` at another slave than the one that leaves. -/
theorem Holds.rmSlave (h : Roster slaves) (hpos : pos < slaves.num) (hs : Holds slaves b s)
    (hne : b ≠ (slaves.node pos).sock) :
    Holds (delFromSlaveList slaves pos) b (s.rmSlave pos) := by
  have hlt : s.pos < s.slaves.num := hs.slaves_eq ▸ hs.pos_lt
  have hother : s.pos ≠ pos := by
    intro heq
    rw [← heq] at hne
    exact hne hs.sock_pos.symm
  have hnew : newIndex pos s.pos < slaves.num - 1 :=
    newIndex_lt (by omega) (Nat.le_sub_one_of_lt hs.pos_lt) hother
  have hsock := Registry.sock_delFromSlaveList (r := ⟨slaves, fun _ => s⟩) h.ring hpos
    (j := newIndex pos s.pos) (Nat.add_lt_of_lt_sub hnew)
  rw [oldIndex_newIndex hother] at hsock
  rw [rmSlave_eq hlt, hs.slaves_eq]
  exact ⟨rfl, hnew, hsock.trans hs.sock_pos⟩

end Lists

/-- The operation that may still keep slaves busy. -/
inductive LastOp where
  | calm
  /-- The slave at socket `b` has registered. -/
  | joined (b : Int)
  /-- The slave that was at `pos` has left. -/
  | left (pos : Nat)
  /-- The slave at socket `b` has asked to leave. -/
  | leaves (b : Int)
  /-- `UpdateBackup` has sent its request to the slave at socket `b`. -/
  | ticks (b : Int) (id : Nat)

namespace LastOp

/-- The `RecvMsg` of `UpdateBackup`. -/
def alarm : LastOp → Option Await
  | ticks b id => some ⟨b, id⟩
  | calm | joined _ | left _ | leaves _ => none

/-- The calls of `CommunicateToSlave` that the slave at socket `b` may have before it. -/
inductive Calls (b : Int) (s : Slave) : LastOp → After → List Int → Prop where
  | joined (todo : List Int) : Calls b s (.joined b) .initialSlave todo
  | left (pos : Nat) : Calls b s (.left pos) .rmSlave []
  | predecessor (pos : Nat) (hpre : s.isPredecessor pos || s.isSecondPredecessor pos) :
      Calls b s (.left pos) .rmSlave [2]
  | ticks (id : Nat) (todo : List Int) : Calls b s (.ticks b id) (.updateBackup12 id) todo

theorem Calls.nil {op : LastOp} {b : Int} {s : Slave} {after : After} {todo : List Int}
    (h : op.Calls b s after todo) : op.Calls b s after [] := by
  cases h with
  | joined => exact .joined []
  | left pos | predecessor pos => exact .left pos
  | ticks id => exact .ticks id []

theorem Calls.tail {op : LastOp} {b : Int} {s : Slave} {after : After} {k : Int}
    {todo : List Int} (h : op.Calls b s after (k :: todo)) : op.Calls b s after todo := by
  cases h with
  | joined => exact .joined todo
  | predecessor pos => exact .left pos
  | ticks id => exact .ticks id todo

/-- After a registration only the new slave calls. -/
theorem Calls.joined_eq {a b : Int} {s : Slave} {after : After} {todo : List Int}
    (h : (LastOp.joined a).Calls b s after todo) : b = a := by
  cases h with
  | joined => rfl

end LastOp

/-- Packets after the ones on the socket, `rest` to the slave and before those to the master
`mrest`. -/
def Link.extend (l : Link) (rest mrest : List ControlPacket) : Link :=
  { l with toSlave := l.toSlave ++ rest, toMaster := mrest ++ l.toMaster }

namespace ControlNet

/-- Where the thread of a slave is that has the list, or has been sent it. -/
inductive Duty (slaves : SlaveList) (op : LastOp) (b : Int) (l : Link) : Thread → Prop where
  | loop (hempty : l.Empty) (h : Holds slaves b l.slave) : Duty slaves op b l .loop
  | registering (id pos : Nat) (hop : op = .joined b)
      (htoSlave : l.toSlave = [⟨.addSlaveR pos slaves, id⟩]) (htoMaster : l.toMaster = [])
      (hpos : pos < slaves.num) (hsock : (slaves.node pos).sock = b) :
      Duty slaves op b l (.registering id)
  | calling (todo : List Int) (after : After) (hempty : l.Empty) (h : Holds slaves b l.slave)
      (hcalls : op.Calls b l.slave after todo) : Duty slaves op b l (.calling todo after)
  | waiting (k : Int) (todo : List Int) (after : After) (hempty : l.Empty)
      (h : Holds slaves b l.slave) (hcalls : op.Calls b l.slave after (k :: todo)) :
      Duty slaves op b l (.waiting k todo after)
  | leaving (id pos : Nat) (hop : op = .leaves b) (htoSlave : l.toSlave = [])
      (htoMaster : l.toMaster = [⟨.delSlave pos, id⟩]) (hpos : pos < slaves.num)
      (hsock : (slaves.node pos).sock = b) : Duty slaves op b l (.leaving id)
  | ticked (id : Nat) (hop : op = .ticks b id) (htoSlave : l.toSlave = [⟨.updateBackup12, id⟩])
      (htoMaster : l.toMaster = []) (h : Holds slaves b l.slave) : Duty slaves op b l .loop
  | handling (id : Nat) (hop : op = .ticks b id) (hempty : l.Empty)
      (h : Holds slaves b l.slave) : Duty slaves op b l (.handling ⟨.updateBackup12, id⟩)
  | answered (id : Nat) (p : ControlPacket) (hop : op = .ticks b id) (htoSlave : l.toSlave = [])
      (htoMaster : l.toMaster = [p]) (h : Holds slaves b l.slave) : Duty slaves op b l .loop

/-- A step that changes only what belongs to one slave. -/
structure SlaveStep (s : ControlNet) (b : Int) (l : Link) (t : ControlNet) : Prop where
  links : t.links = Function.update s.links b l
  slaves : t.slaves = s.slaves
  base : t.base = s.base
  alarm : t.alarm = s.alarm

section Duties

variable {s t : ControlNet} {slaves : SlaveList} {op : LastOp} {b : Int} {l : Link}
  {rest mrest : List ControlPacket}

/-- The slave has gone on, or it was in its main loop and has received the next of the
packets `rest`. -/
def GoesOn (slaves : SlaveList) (op : LastOp) (b : Int) (l : Link)
    (rest mrest : List ControlPacket) (l' : Link) : Prop :=
  (∃ v, Duty slaves op b v v.thread ∧ l' = v.extend rest mrest) ∨
    ∃ p rest', rest = p :: rest' ∧ Holds slaves b l.slave ∧
      l' = ⟨.handling p, l.slave, rest', mrest⟩

theorem slaveStep_setLink (s : ControlNet) (b : Int) (l : Link) :
    s.SlaveStep b l (s.setLink b l) :=
  ⟨rfl, rfl, rfl, rfl⟩

/-- A slave in its main loop receives a packet. -/
theorem Duty.recv (h : Duty slaves op b l (s.links b).thread)
    (hlink : s.links b = l.extend rest mrest) (hrest : rest ≠ [] → op.alarm = none)
    {p : ControlPacket} {queue : List ControlPacket}
    (hthread : (s.links b).thread = .loop) (hqueue : (s.links b).toSlave = p :: queue) :
    GoesOn slaves op b l rest mrest { s.links b with thread := .handling p, toSlave := queue } := by
  rw [hthread] at h
  rw [hlink] at hqueue ⊢
  change l.toSlave ++ rest = p :: queue at hqueue
  cases h with
  | loop hempty hholds =>
      rw [hempty.toSlave, List.nil_append] at hqueue
      have htoMaster : mrest ++ l.toMaster = mrest := by
        rw [hempty.toMaster, List.append_nil]
      refine Or.inr ⟨p, queue, hqueue, hholds, ?_⟩
      simp only [Link.extend, htoMaster]
  | ticked id hop htoSlave htoMaster hholds =>
      rw [htoSlave] at hqueue
      obtain ⟨rfl, rfl⟩ := List.cons.inj hqueue
      exact Or.inl ⟨⟨.handling ⟨.updateBackup12, id⟩, l.slave, [], l.toMaster⟩,
        .handling id hop ⟨rfl, htoMaster⟩ hholds, rfl⟩
  | answered id p' hop htoSlave htoMaster hholds =>
      rw [htoSlave, List.nil_append] at hqueue
      have halarm := hrest (hqueue ▸ List.cons_ne_nil p queue)
      rw [hop] at halarm
      cases halarm

/-- It handles the packet. -/
theorem Duty.handle (h : Duty slaves op b l (s.links b).thread)
    (hlink : s.links b = l.extend rest mrest) {p : ControlPacket}
    (hthread : (s.links b).thread = .handling p) :
    GoesOn slaves op b l rest mrest (handled (s.links b) p) := by
  rw [hthread] at h
  rw [hlink]
  cases h with
  | handling id hop hempty hholds =>
      refine Or.inl ⟨{ l with thread := .calling [1, 2] (.updateBackup12 id) }, ?_, rfl⟩
      refine .calling _ _ ⟨hempty.toSlave, hempty.toMaster⟩ hholds ?_
      rw [hop]
      exact .ticks id _

/-- It begins its next call. -/
theorem Duty.call (h : Duty slaves op b l (s.links b).thread)
    (hlink : s.links b = l.extend rest mrest) {k : Int} {todo : List Int} {after : After}
    (hthread : (s.links b).thread = .calling (k :: todo) after) :
    GoesOn slaves op b l rest mrest (s.called (s.links b) k todo after) := by
  rw [hthread] at h
  rw [hlink]
  cases h with
  | calling _ _ hempty hholds hcalls =>
      have hskip := hcalls.tail
      unfold called
      split
      case h_1 =>
          refine Or.inl ⟨{ l with thread := .calling todo after }, ?_, rfl⟩
          exact .calling _ _ ⟨hempty.toSlave, hempty.toMaster⟩ hholds hskip
      case h_2 c hpeer =>
          split
          case isTrue =>
              have hgives : op.Calls b l.slave after (if k = -1 then [] else todo) := by
                split
                case isTrue => exact hskip.nil
                case isFalse => exact hskip
              refine Or.inl ⟨{ l with thread := .calling _ after }, ?_, rfl⟩
              exact .calling _ _ ⟨hempty.toSlave, hempty.toMaster⟩ hholds hgives
          case isFalse =>
              refine Or.inl ⟨{ l with thread := .waiting k todo after }, ?_, rfl⟩
              exact .waiting _ _ _ ⟨hempty.toSlave, hempty.toMaster⟩ hholds hcalls

/-- Another slave serves its call. -/
theorem Duty.serve (h : Duty slaves op b l (s.links b).thread)
    (hlink : s.links b = l.extend rest mrest) {k : Int} {todo : List Int} {after : After}
    (hthread : (s.links b).thread = .waiting k todo after) :
    GoesOn slaves op b l rest mrest { s.links b with thread := .calling todo after } := by
  rw [hthread] at h
  rw [hlink]
  cases h with
  | waiting _ _ _ hempty hholds hcalls =>
      refine Or.inl ⟨{ l with thread := .calling todo after }, ?_, rfl⟩
      exact .calling _ _ ⟨hempty.toSlave, hempty.toMaster⟩ hholds hcalls.tail

/-- Its calls are through. -/
theorem Duty.endCalls (h : Duty slaves op b l (s.links b).thread)
    (hlink : s.links b = l.extend rest mrest) {after : After}
    (hthread : (s.links b).thread = .calling [] after) :
    GoesOn slaves op b l rest mrest (returned (s.links b) after) := by
  rw [hthread] at h
  rw [hlink]
  cases h with
  | calling _ _ hempty hholds hcalls =>
      cases hcalls with
      | joined | left =>
          refine Or.inl ⟨{ l with thread := .loop }, ?_, rfl⟩
          exact .loop ⟨hempty.toSlave, hempty.toMaster⟩ hholds
      | ticks id =>
          refine Or.inl
            ⟨{ l with thread := .loop, toMaster := [⟨.updateBackup12R, id⟩] }, ?_, ?_⟩
          · exact .answered id _ rfl hempty.toSlave rfl hholds
          · simp only [returned, Link.extend, hempty.toMaster, List.append_nil]

/-- Its `RegisterAndLoadSlaves` returns. -/
theorem Duty.registered (h : Duty slaves op b l (s.links b).thread)
    (hlink : s.links b = l.extend rest mrest) {id : Nat} {p : ControlPacket}
    {queue : List ControlPacket} (hthread : (s.links b).thread = .registering id)
    (hqueue : (s.links b).toSlave = p :: queue) :
    GoesOn slaves op b l rest mrest
      (ControlNet.registered { s.links b with toSlave := queue } p) := by
  rw [hthread] at h
  rw [hlink] at hqueue ⊢
  change l.toSlave ++ rest = p :: queue at hqueue
  cases h with
  | registering _ pos hop htoSlave htoMaster hpos hsock =>
      rw [htoSlave] at hqueue
      obtain ⟨rfl, rfl⟩ := List.cons.inj hqueue
      refine Or.inl ⟨⟨.calling (initialCalls slaves.num) .initialSlave,
        { l.slave with slaves := slaves, pos := pos }, [], l.toMaster⟩, ?_, rfl⟩
      refine .calling _ _ ⟨rfl, htoMaster⟩ ⟨rfl, hpos, hsock⟩ ?_
      rw [hop]
      exact .joined _

/-- Its `ExchangePacket` in `ShutDownSlave` returns. -/
theorem Duty.left (h : Duty slaves op b l (s.links b).thread)
    (hlink : s.links b = l.extend rest mrest) (hrest : rest ≠ [] → op ≠ .leaves b) {id : Nat}
    {p : ControlPacket} {queue : List ControlPacket}
    (hthread : (s.links b).thread = .leaving id) (hqueue : (s.links b).toSlave = p :: queue) :
    GoesOn slaves op b l rest mrest (ControlNet.left { s.links b with toSlave := queue } p) := by
  rw [hthread] at h
  rw [hlink] at hqueue
  change l.toSlave ++ rest = p :: queue at hqueue
  cases h with
  | leaving _ pos hop htoSlave htoMaster hpos hsock =>
      rw [htoSlave, List.nil_append] at hqueue
      exact absurd hop (hrest (hqueue ▸ List.cons_ne_nil p queue))

/-- A step of a slave of the list. -/
theorem Duty.step (h : Duty slaves op b l l.thread) (hlink : s.links b = l.extend rest mrest)
    (hrest : rest ≠ [] → op.alarm = none ∧ op ≠ .leaves b) {e : ControlEvent}
    (he : e.slave = some b) (hstep : s.step e = some t) :
    ∃ l', s.SlaveStep b l' t ∧ GoesOn slaves op b l rest mrest l' := by
  replace h : Duty slaves op b l (s.links b).thread := by
    rw [hlink]
    exact h
  cases transition_of_step hstep with
  | slaveRecv a p queue hthread hqueue =>
      obtain rfl := Option.some.inj he
      exact ⟨_, slaveStep_setLink s a _, h.recv hlink (fun hne => (hrest hne).1) hthread hqueue⟩
  | slaveHandle a p hthread =>
      obtain rfl := Option.some.inj he
      exact ⟨_, slaveStep_setLink s a _, h.handle hlink hthread⟩
  | call a k todo after hthread =>
      obtain rfl := Option.some.inj he
      exact ⟨_, slaveStep_setLink s a _, h.call hlink hthread⟩
  | serve c a k todo after hthread hloop hpeer =>
      obtain rfl := Option.some.inj he
      exact ⟨_, slaveStep_setLink s a _, h.serve hlink hthread⟩
  | endCalls a after hthread =>
      obtain rfl := Option.some.inj he
      exact ⟨_, slaveStep_setLink s a _, h.endCalls hlink hthread⟩
  | registered a id p queue hthread hqueue =>
      obtain rfl := Option.some.inj he
      exact ⟨_, ⟨rfl, rfl, rfl, rfl⟩, h.registered hlink hthread hqueue⟩
  | left a id p queue hthread hqueue =>
      obtain rfl := Option.some.inj he
      exact ⟨_, ⟨rfl, rfl, rfl, rfl⟩,
        h.left hlink (fun hne => (hrest hne).2) hthread hqueue⟩
  | _ => cases he

theorem extend_nil (l : Link) : l.extend [] [] = l := by
  simp [Link.extend]

/-- A step of a slave with nothing but its own packets. -/
theorem Duty.own_step (h : Duty slaves op b (s.links b) (s.links b).thread) {e : ControlEvent}
    (he : e.slave = some b) (hstep : s.step e = some t) :
    ∃ l', s.SlaveStep b l' t ∧ Duty slaves op b l' l'.thread := by
  obtain ⟨l', hslave, ⟨v, hduty, rfl⟩ | ⟨p, rest', hrest, -⟩⟩ :=
    h.step (extend_nil _).symm (fun hne => absurd rfl hne) he hstep
  · rw [extend_nil] at hslave
    exact ⟨v, hslave, hduty⟩
  · cases hrest

end Duties

/-- Where the thread of a slave is that is not in the list. -/
inductive Outside (l : Link) : Thread → Prop where
  | down (hempty : l.Empty) : Outside l .down
  /-- Its `ADD_SLAVE` has not been received. -/
  | registering (id : Nat) (port : Int) (htoSlave : l.toSlave = [])
      (htoMaster : l.toMaster = [⟨.addSlave port, id⟩]) : Outside l (.registering id)
  /-- It has been removed, and its `DEL_SLAVE` answered. -/
  | leaving (id id' : Nat) (htoSlave : l.toSlave = [⟨.delSlaveR, id'⟩])
      (htoMaster : l.toMaster = []) : Outside l (.leaving id)

/-- A slave that is not in the list only learns that it has been removed. -/
theorem Outside.step {s t : ControlNet} {b : Int} (h : Outside (s.links b) (s.links b).thread)
    {e : ControlEvent} (he : e.slave = some b) (hstep : s.step e = some t) :
    ∃ l', s.SlaveStep b l' t ∧ Outside l' l'.thread := by
  generalize hthread : (s.links b).thread = thread at h
  cases h with
  | down hempty =>
      rw [step_of_idle he (Or.inr hthread) hempty.toSlave] at hstep
      cases hstep
  | registering id port htoSlave htoMaster =>
      have hasks : (s.links b).thread = askThread .add id := hthread
      rw [step_of_asking he hasks fun _ => htoSlave] at hstep
      cases hstep
  | leaving id id' htoSlave htoMaster =>
      by_cases hreply : e = .slaveReply b
      · subst hreply
        simp only [ControlNet.step, hthread, htoSlave, Option.some.injEq] at hstep
        subst hstep
        exact ⟨_, ⟨rfl, rfl, rfl, rfl⟩, .down ⟨rfl, htoMaster⟩⟩
      · have hasks : (s.links b).thread = askThread .del id := hthread
        rw [step_of_asking he hasks fun heq => absurd heq hreply] at hstep
        cases hstep

/-- Between two rounds. -/
structure Crowd (slaves : SlaveList) (op : LastOp) (s : ControlNet) : Prop where
  roster : Roster slaves
  slaves_eq : s.slaves = slaves
  base : s.base = none
  alarm : s.alarm = op.alarm
  asked : ∀ w, op.alarm = some w → slaves.Listed w.sock
  members : ∀ b, slaves.Listed b → Duty slaves op b (s.links b) (s.links b).thread
  others : ∀ b, ¬ slaves.Listed b → Outside (s.links b) (s.links b).thread

/-- The slave at the index `j` in the loop of `NotifyAll`. -/
inductive Stand (old new : SlaveList) (op last : LastOp) (notice : ControlMsg) (i : Nat)
    (sent : Option Nat) (j : Nat) (b : Int) (l : Link) : Prop where
  | told (hj : j < i) (h : Duty new last b l l.thread)
  | untold (hj : i ≤ j) (hsent : j = i → sent = none) (h : Duty old op b l l.thread)
  | sent (id : Nat) (v : Link) (hj : j = i) (hsent : sent = some id)
      (hl : l = v.extend [⟨notice, id⟩] []) (h : Duty old op b v v.thread)
  | handling (id : Nat) (hj : j = i) (hsent : sent = some id)
      (hthread : l.thread = .handling ⟨notice, id⟩) (hempty : l.Empty)
      (h : Holds old b l.slave)
  | replied (id : Nat) (p : ControlPacket) (v : Link) (hj : j = i) (hsent : sent = some id)
      (hl : l = v.extend [] [p]) (h : Duty new last b v v.thread)

/-- What a round changes: the list of the slaves, the list that the master goes through, and
the list that the slaves have afterwards. -/
inductive Turn (old : SlaveList) :
    LastOp → RoundCmd → Int → Nat → SlaveList → SlaveList → LastOp → Prop where
  | add (op : LastOp) (a ip port : Int) (rand : Nat) (hop : op.alarm = none)
      (hleaves : ∀ b, op ≠ .leaves b) (hmax : old.num < MAX_SLAVE_NUM)
      (hfresh : ¬ old.Listed a) :
      Turn old op .add a (addToSlaveList old ⟨ip, port, a, 0⟩ rand).2
        (addToSlaveList old ⟨ip, port, a, 0⟩ rand).1
        (addToSlaveList old ⟨ip, port, a, 0⟩ rand).1 (.joined a)
  | del (pos : Nat) (hpos : pos < old.num) :
      Turn old (.leaves (old.node pos).sock) .del (old.node pos).sock pos old
        (delFromSlaveList old pos) (.left pos)

/-- In the loop of `NotifyAll`. -/
structure Round (old new : SlaveList) (op last : LastOp) (r : Notifying) (s : ControlNet) :
    Prop where
  roster : Roster old
  base : s.base = some r
  alarm : s.alarm = none
  turn : Turn old op r.cmd r.requester r.pos s.slaves new last
  thread : (s.links r.requester).thread = askThread r.cmd r.id
  empty : (s.links r.requester).Empty
  le_num : r.i ≤ s.slaves.num
  lt_num : r.sent ≠ none → r.i < s.slaves.num ∧ r.i ≠ r.pos
  nodes : ∀ j, j < s.slaves.num → j ≠ r.pos →
    Stand old new op last (r.cmd.notification r.pos s.slaves) r.i r.sent j (s.sock j)
      (s.links (s.sock j))
  others : ∀ b, b ≠ r.requester → ¬ s.slaves.Listed b →
    Outside (s.links b) (s.links b).thread

end ControlNet

end DistributedDB
