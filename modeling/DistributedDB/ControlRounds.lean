import DistributedDB.ControlDuties

/-!
# Registrations at any time, signals while nothing is going on

The steps between two rounds and in a round, when SIGINT and SIGALRM come only while nothing is
going on: a registration, a departure or a tick begins, `NotifyAll` goes through the list, the
slaves go on with what they have to do.

**Results.**
* `ControlNet.SignalsApart`: the condition on the steps.
* `Turn.handled`, `Turn.answered`: the notification at a slave and the answer at the slave that
  has asked.
* `Crowd.step`, `Round.step`: the steps.
* `Reached.step`: every state of such a run is one between two rounds or in a round.
-/

namespace DistributedDB

open RingIndex Run

namespace ControlNet

section Turns

variable {old list new : SlaveList} {op last : LastOp} {cmd : RoundCmd} {a b : Int} {pos : Nat}

theorem Turn.alarm_last (h : Turn old op cmd a pos list new last) : last.alarm = none := by
  cases h <;> rfl

/-- Nobody else has asked to leave, and there is no tick. -/
theorem Turn.apart (h : Turn old op cmd a pos list new last) (hne : b ≠ a) :
    (op.alarm = none ∧ op ≠ .leaves b) ∧ last ≠ .leaves b := by
  cases h with
  | add op a ip port rand hop hleaves => exact ⟨⟨hop, hleaves b⟩, by simp⟩
  | del pos hpos => exact ⟨⟨rfl, fun heq => hne (LastOp.leaves.inj heq).symm⟩, by simp⟩

theorem Turn.rosters (h : Turn old op cmd a pos list new last) (hroster : Roster old) :
    Roster list ∧ Roster new := by
  cases h with
  | add op a ip port rand hop hleaves hmax hfresh =>
      have hnew := hroster.addToSlaveList ip port rand hmax hfresh
      exact ⟨hnew, hnew⟩
  | del pos hpos => exact ⟨hroster, hroster.delFromSlaveList hpos⟩

/-- The slave that has asked. -/
theorem Turn.asker (h : Turn old op cmd a pos list new last) (hroster : Roster old) :
    pos < list.num ∧ (list.node pos).sock = a := by
  cases h with
  | add op a ip port rand hop hleaves hmax hfresh =>
      have hnew := (newpos_eq old hroster.ring ⟨ip, port, a, 0⟩ rand hmax).1
      have hsock := Registry.sock_addToSlaveList
        (r := ⟨old, fun _ => ⟨old, 0, ⟨∅, none, none, none⟩⟩⟩) a ip port rand
        hroster.ring hmax hnew
      refine ⟨?_, hsock.trans (if_pos rfl)⟩
      rw [num_addToSlaveList]
      exact Nat.lt_succ_of_le hnew
  | del pos hpos => exact ⟨hpos, rfl⟩

/-- The other slaves are in all three lists, or in none. -/
theorem Turn.listed (h : Turn old op cmd a pos list new last) (hroster : Roster old)
    (hne : b ≠ a) : (old.Listed b ↔ list.Listed b) ∧ (new.Listed b ↔ list.Listed b) := by
  cases h with
  | add op a ip port rand hop hleaves hmax hfresh =>
      refine ⟨?_, Iff.rfl⟩
      rw [hroster.listed_addToSlaveList ip port rand hmax, or_iff_left hne]
  | del pos hpos =>
      refine ⟨Iff.rfl, ?_⟩
      rw [hroster.listed_delFromSlaveList hpos, and_iff_left hne]

/-- The sockets that the master notifies. -/
theorem Turn.sock_ne (h : Turn old op cmd a pos list new last) (hroster : Roster old) {j : Nat}
    (hj : j < list.num) (hne : j ≠ pos) : (list.node j).sock ≠ a := by
  obtain ⟨hpos, hsock⟩ := h.asker hroster
  exact fun heq => hne ((h.rosters hroster).1.sock_inj j pos hj hpos (heq.trans hsock.symm))

/-- A slave handles the notification. -/
theorem Turn.handled (h : Turn old op cmd a pos list new last) (hroster : Roster old)
    (hne : b ≠ a) {l : Link} {id : Nat} (hempty : l.Empty) (hholds : Holds old b l.slave) :
    ∃ v p, ControlNet.handled l ⟨cmd.notification pos list, id⟩ = v.extend [] [p] ∧
      Duty new last b v v.thread := by
  cases h with
  | add op a ip port rand hop hleaves hmax hfresh =>
      have hnew := hholds.newSlave hroster (a := a) ip port rand hmax
      generalize addToSlaveList old ⟨ip, port, a, 0⟩ rand = x at hnew
      refine ⟨⟨.loop, l.slave.newSlave x.2 (x.1.node x.2), [], []⟩, ⟨.newSlaveR, id⟩, ?_,
        .loop ⟨rfl, rfl⟩ hnew⟩
      simp [ControlNet.handled, RoundCmd.notification, Link.extend, hempty.toSlave,
        hempty.toMaster]
  | del pos hpos =>
      refine ⟨⟨.calling (rmCalls (l.slave.rmSlave pos) pos) .rmSlave, l.slave.rmSlave pos, [],
        []⟩, ⟨.rmSlaveR, id⟩, ?_,
        .calling _ _ ⟨rfl, rfl⟩ (hholds.rmSlave hroster hpos hne) ?_⟩
      · simp [ControlNet.handled, RoundCmd.notification, Link.extend, hempty.toSlave,
          hempty.toMaster]
      · unfold rmCalls
        split
        case isTrue hpre => exact .predecessor pos hpre
        case isFalse => exact .left pos

/-- The answer for the slave that has asked. -/
theorem Turn.answered (h : Turn old op cmd a pos list new last) (hroster : Roster old)
    {s : ControlNet} (hslaves : s.slaves = list) {l : Link} {id i : Nat} {sent : Option Nat}
    (hthread : l.thread = askThread cmd id)
    (htoSlave : l.toSlave = [⟨(s.answer ⟨a, id, cmd, pos, i, sent⟩).2, id⟩])
    (htoMaster : l.toMaster = []) :
    (s.answer ⟨a, id, cmd, pos, i, sent⟩).1 = new ∧
      (new.Listed a → Duty new last a l l.thread) ∧
        (¬ new.Listed a → Outside l l.thread) := by
  obtain ⟨hpos, hsock⟩ := h.asker hroster
  rw [hthread]
  cases h with
  | add op a ip port rand hop hleaves hmax hfresh =>
      rw [ControlNet.answer, hslaves] at htoSlave
      refine ⟨hslaves, fun _ => ?_, fun hnot => absurd ⟨_, hpos, hsock⟩ hnot⟩
      exact .registering id _ rfl htoSlave htoMaster hpos hsock
  | del pos hpos =>
      refine ⟨congrArg (DistributedDB.delFromSlaveList · pos) hslaves, fun hlisted => ?_,
        fun _ => .leaving id id htoSlave htoMaster⟩
      exact absurd rfl ((hroster.listed_delFromSlaveList hpos).mp hlisted).2

end Turns

section Stands

variable {s t : ControlNet} {old new : SlaveList} {op last : LastOp} {notice : ControlMsg}
  {i j : Nat} {sent : Option Nat} {b : Int}

/-- A step of a slave in a round. -/
theorem Stand.step (h : Stand old new op last notice i sent j b (s.links b))
    (hop : op.alarm = none ∧ op ≠ .leaves b)
    (hhandled : ∀ (l : Link) (id : Nat), l.Empty → Holds old b l.slave →
      ∃ v p, handled l ⟨notice, id⟩ = v.extend [] [p] ∧ Duty new last b v v.thread)
    {e : ControlEvent} (he : e.slave = some b) (hstep : s.step e = some t) :
    ∃ l, s.SlaveStep b l t ∧ Stand old new op last notice i sent j b l := by
  cases h with
  | told hj h =>
      obtain ⟨l, hslave, hduty⟩ := h.own_step he hstep
      exact ⟨l, hslave, .told hj hduty⟩
  | untold hj hsent h =>
      obtain ⟨l, hslave, hduty⟩ := h.own_step he hstep
      exact ⟨l, hslave, .untold hj hsent hduty⟩
  | sent id v hj hsent hl h =>
      obtain ⟨l, hslave, hgoes⟩ := h.step hl (fun _ => hop) he hstep
      rcases hgoes with ⟨v', hduty, hv'⟩ | ⟨p, rest, hrest, hholds, rfl⟩
      · exact ⟨l, hslave, .sent id v' hj hsent hv' hduty⟩
      · obtain ⟨rfl, rfl⟩ := List.cons.inj hrest
        exact ⟨_, hslave, .handling id hj hsent rfl ⟨rfl, rfl⟩ hholds⟩
  | handling id hj hsent hthread hempty hholds =>
      cases transition_of_step hstep with
      | slaveHandle a p hthread' =>
          obtain rfl := Option.some.inj he
          obtain rfl := Thread.handling.inj (hthread.symm.trans hthread')
          obtain ⟨v, p, hhandled, hduty⟩ := hhandled (s.links a) id hempty hholds
          exact ⟨_, slaveStep_setLink s a _, .replied id p v hj hsent hhandled hduty⟩
      | slaveRecv a p queue hthread' | call a k todo after hthread' | endCalls a after hthread'
      | serve c a k todo after hthread' | registered a id p queue hthread'
      | left a id p queue hthread' =>
          obtain rfl := Option.some.inj he
          cases hthread.symm.trans hthread'
      | _ => cases he
  | replied id p v hj hsent hl h =>
      obtain ⟨l, hslave, hgoes⟩ := h.step hl (fun hne => absurd rfl hne) he hstep
      rcases hgoes with ⟨v', hduty, hv'⟩ | ⟨p, rest, hrest, -⟩
      · exact ⟨l, hslave, .replied id _ v' hj hsent hv' hduty⟩
      · cases hrest

end Stands

/-- The master handles no request, and every slave of its list is in its main loop with
nothing on its socket. -/
def Calm (s : ControlNet) : Prop :=
  s.base = none ∧ s.alarm = none ∧ ∀ i, i < s.slaves.num →
    (s.links (s.sock i)).thread = .loop ∧ (s.links (s.sock i)).toSlave = [] ∧
      (s.links (s.sock i)).toMaster = []

instance (s : ControlNet) : Decidable s.Calm :=
  inferInstanceAs (Decidable (_ ∧ _ ∧ ∀ i, i < s.slaves.num → _))

/-- The condition on a step: SIGINT and SIGALRM come only while nothing is going on, and
while a `DEL_SLAVE` is on its way the master receives no `ADD_SLAVE`. -/
def SignalsApart (s : ControlNet) : ControlEvent → Prop
  | .interrupt _ | .tick => s.Calm
  | .masterRecv a _ _ => (∃ p ∈ (s.links a).toMaster, p.msg.kind = .addSlave) →
      ∀ i, i < s.slaves.num → ∀ p ∈ (s.links (s.sock i)).toMaster, p.msg.kind ≠ .delSlave
  | _ => True

instance (s : ControlNet) : ∀ e, Decidable (s.SignalsApart e)
  | .interrupt _ | .tick => inferInstanceAs (Decidable s.Calm)
  | .masterRecv _ _ _ => inferInstanceAs (Decidable (_ → ∀ i, i < s.slaves.num → _))
  | .register _ _ | .slaveRecv _ | .slaveHandle _ | .call _ | .serve _ _ | .endCalls _
  | .slaveReply _ | .notify | .masterReply | .finish | .tickReply => isTrue trivial

section Crowds

variable {s t : ControlNet} {slaves : SlaveList} {op : LastOp} {b : Int} {l : Link}

theorem Duty.ne_down {thread : Thread} (h : Duty slaves op b l thread) : thread ≠ .down := by
  cases h <;> simp

theorem Duty.holds {thread : Thread} (h : Duty slaves op b l thread) (hthread : thread = .loop) :
    Holds slaves b l.slave := by
  cases h with
  | loop _ hholds | ticked _ _ _ _ hholds | answered _ _ _ _ _ hholds => exact hholds
  | _ => cases hthread

/-- The slave whose request the master receives has asked to leave. -/
theorem Duty.asks {thread : Thread} (h : Duty slaves op b l thread) (hop : op.alarm = none)
    {p : ControlPacket} {rest : List ControlPacket} (hqueue : l.toMaster = p :: rest) :
    ∃ id pos, op = .leaves b ∧ thread = .leaving id ∧ l.toSlave = [] ∧
      p = ⟨.delSlave pos, id⟩ ∧ rest = [] ∧ pos < slaves.num ∧
        (slaves.node pos).sock = b := by
  cases h with
  | leaving id pos hop htoSlave htoMaster hpos hsock =>
      obtain ⟨rfl, rfl⟩ := List.cons.inj (hqueue.symm.trans htoMaster)
      exact ⟨id, pos, hop, rfl, htoSlave, rfl, rfl, hpos, hsock⟩
  | answered id p' hop' =>
      rw [hop'] at hop
      cases hop
  | loop hempty | calling _ _ hempty | waiting _ _ _ hempty | handling _ _ hempty =>
      rw [hempty.toMaster] at hqueue
      cases hqueue
  | registering _ _ _ _ htoMaster | ticked _ _ _ htoMaster =>
      rw [htoMaster] at hqueue
      cases hqueue

/-- The others, when the tick is over. -/
theorem Duty.of_ticks {thread : Thread} {a : Int} {id : Nat}
    (h : Duty slaves (.ticks a id) b l thread) (hne : b ≠ a) : Duty slaves .calm b l thread := by
  have hop : ∀ {id'}, LastOp.ticks a id ≠ .ticks b id' := by
    intro id' heq
    exact hne (LastOp.ticks.inj heq).1.symm
  cases h with
  | loop hempty hholds => exact .loop hempty hholds
  | registering id pos hop' => cases hop'
  | calling todo after _ _ hcalls | waiting k todo after _ _ hcalls =>
      cases hcalls with
      | ticks => exact absurd rfl hne
  | leaving id pos hop' => cases hop'
  | ticked _ hop' | handling _ hop' | answered _ _ hop' => exact absurd hop' hop

/-- Nobody leaves. -/
theorem Duty.of_leaves {thread : Thread} {a : Int} (h : Duty slaves (.leaves a) b l thread)
    (hnot : ∀ p ∈ l.toMaster, p.msg.kind ≠ .delSlave) : Duty slaves .calm b l thread := by
  cases h with
  | loop hempty hholds => exact .loop hempty hholds
  | leaving id pos _ _ htoMaster =>
      rw [htoMaster] at hnot
      exact absurd rfl (hnot _ (List.mem_singleton_self _))
  | registering _ _ hop | ticked _ hop | handling _ hop | answered _ _ hop => cases hop
  | calling _ _ _ _ hcalls | waiting _ _ _ _ _ hcalls => cases hcalls

/-- The operation before a registration. -/
theorem Crowd.exists_op (h : Crowd slaves op s) (hop : op.alarm = none)
    (hnot : ∀ i, i < s.slaves.num → ∀ p ∈ (s.links (s.sock i)).toMaster,
      p.msg.kind ≠ .delSlave) :
    ∃ op', op'.alarm = none ∧ (∀ a, op' ≠ .leaves a) ∧ Crowd slaves op' s := by
  cases op with
  | leaves a =>
      refine ⟨.calm, rfl, by simp, ⟨h.roster, h.slaves_eq, h.base, h.alarm,
        fun w hw => (by cases hw), fun b hb => ?_, h.others⟩⟩
      refine (h.members b hb).of_leaves ?_
      obtain ⟨i, hi, rfl⟩ := hb
      rw [← h.slaves_eq] at hi ⊢
      exact hnot i hi
  | ticks a id => cases hop
  | calm | joined a | left pos => exact ⟨_, rfl, by simp, h⟩

theorem Crowd.update (h : Crowd slaves op s) (hslave : s.SlaveStep b l t)
    (hduty : slaves.Listed b → Duty slaves op b l l.thread)
    (hout : ¬ slaves.Listed b → Outside l l.thread) : Crowd slaves op t := by
  refine ⟨h.roster, hslave.slaves.trans h.slaves_eq, hslave.base.trans h.base,
    hslave.alarm.trans h.alarm, h.asked, fun c hc => ?_, fun c hc => ?_⟩
  · rcases eq_or_ne c b with rfl | hne
    · rw [links_self hslave.links]
      exact hduty hc
    · rw [links_of_ne hslave.links hne]
      exact h.members c hc
  · rcases eq_or_ne c b with rfl | hne
    · rw [links_self hslave.links]
      exact hout hc
    · rw [links_of_ne hslave.links hne]
      exact h.others c hc

/-- A step of a slave. -/
theorem Crowd.slave_step (h : Crowd slaves op s) {e : ControlEvent} (he : e.slave = some b)
    (hstep : s.step e = some t) : Crowd slaves op t := by
  by_cases hb : slaves.Listed b
  · obtain ⟨l, hslave, hduty⟩ := (h.members b hb).own_step he hstep
    exact h.update hslave (fun _ => hduty) fun hnot => absurd hb hnot
  · obtain ⟨l, hslave, hout⟩ := (h.others b hb).step he hstep
    exact h.update hslave (fun hlisted => absurd hlisted hb) fun _ => hout

/-- A slave connects and sends `ADD_SLAVE`. -/
theorem Crowd.register (h : Crowd slaves op s) {a port : Int}
    (hdown : (s.links a).thread = .down) :
    Crowd slaves op { s.setLink a
        { s.links a with
          thread := .registering s.sent
          toSlave := []
          toMaster := [⟨.addSlave port, s.sent⟩] } with
      sent := s.sent + 1 } := by
  refine h.update ⟨rfl, rfl, rfl, rfl⟩ (fun hlisted => ?_) fun _ =>
    .registering s.sent port rfl rfl
  exact absurd hdown (h.members a hlisted).ne_down

theorem Crowd.calm (h : Crowd slaves op s) (hcalm : s.Calm) (hb : slaves.Listed b) :
    (s.links b).thread = .loop ∧ (s.links b).Empty ∧ Holds slaves b (s.links b).slave := by
  obtain ⟨i, hi, hsock⟩ := id hb
  obtain ⟨hthread, htoSlave, htoMaster⟩ := hcalm.2.2 i (h.slaves_eq ▸ hi)
  rw [sock, h.slaves_eq, hsock] at hthread htoSlave htoMaster
  exact ⟨hthread, ⟨htoSlave, htoMaster⟩, (h.members b hb).holds hthread⟩

/-- All others are in their main loops when a departure or a tick begins. -/
theorem Crowd.start (h : Crowd slaves op s) (hcalm : s.Calm) {op' : LastOp}
    (hlinks : t.links = Function.update s.links b l) (hslaves : t.slaves = s.slaves)
    (hbase : t.base = s.base) (halarm : t.alarm = op'.alarm)
    (hasked : ∀ w, op'.alarm = some w → w.sock = b) (hb : slaves.Listed b)
    (hduty : Duty slaves op' b l l.thread) : Crowd slaves op' t := by
  refine ⟨h.roster, hslaves.trans h.slaves_eq, hbase.trans h.base, halarm,
    fun w hw => hasked w hw ▸ hb, fun c hc => ?_, fun c hc => ?_⟩
  · rcases eq_or_ne c b with rfl | hne
    · rw [links_self hlinks]
      exact hduty
    · obtain ⟨hthread, hempty, hholds⟩ := h.calm hcalm hc
      rw [links_of_ne hlinks hne, hthread]
      exact .loop hempty hholds
  · have hne : c ≠ b := by
      rintro rfl
      exact hc hb
    rw [links_of_ne hlinks hne]
    exact h.others c hc

/-- A slave catches SIGINT. -/
theorem Crowd.interrupt (h : Crowd slaves op s) (hcalm : s.Calm) {a : Int}
    (hthread : interruptible (s.links a).thread = true) :
    Crowd slaves (.leaves a)
      { s.setLink a
          { s.links a with
            thread := .leaving s.sent
            toMaster := (s.links a).toMaster ++
              [⟨.delSlave (s.links a).slave.pos, s.sent⟩] } with
        sent := s.sent + 1 } := by
  have ha : slaves.Listed a := by
    by_contra hnot
    have hout := h.others a hnot
    generalize (s.links a).thread = thread at hout hthread
    cases hout <;> cases hthread
  obtain ⟨-, hempty, hholds⟩ := h.calm hcalm ha
  refine h.start hcalm rfl rfl rfl hcalm.2.1 (fun w hw => (by cases hw)) ha ?_
  refine .leaving s.sent _ rfl hempty.toSlave ?_ hholds.pos_lt hholds.sock_pos
  rw [hempty.toMaster, List.nil_append]

/-- `UpdateBackup` sends its request. -/
theorem Crowd.tick (h : Crowd slaves op s) (hcalm : s.Calm) (hnum : 0 < s.slaves.num) :
    Crowd slaves (.ticks (s.sock s.nextTurn) s.sent)
      { s.request (s.sock s.nextTurn) .updateBackup12 with
        alarm := some ⟨s.sock s.nextTurn, s.sent⟩
        backupPos := s.nextTurn } := by
  have ha : slaves.Listed (s.sock s.nextTurn) :=
    h.slaves_eq ▸ ⟨s.nextTurn, Nat.mod_lt _ hnum, rfl⟩
  obtain ⟨hthread, hempty, hholds⟩ := h.calm hcalm ha
  refine h.start hcalm rfl rfl rfl rfl (fun w hw => ?_) ha ?_
  · rw [← Option.some.inj hw]
  · show Duty _ _ _ _ (s.links (s.sock s.nextTurn)).thread
    rw [hthread]
    refine .ticked s.sent rfl ?_ hempty.toMaster hholds
    show (s.links (s.sock s.nextTurn)).toSlave ++ _ = _
    rw [hempty.toSlave, List.nil_append]

/-- The `RecvMsg` of `UpdateBackup` returns. -/
theorem Crowd.tickReply (h : Crowd slaves op s) {w : Await} {p : ControlPacket}
    {rest : List ControlPacket} (halarm : s.alarm = some w)
    (hqueue : (s.links w.sock).toMaster = p :: rest)
    (hlinks : t.links =
      Function.update s.links w.sock { s.links w.sock with toMaster := rest })
    (hslaves : t.slaves = s.slaves) (hbase : t.base = s.base) (hend : t.alarm = none) :
    Crowd slaves .calm t := by
  have hop : op.alarm = some w := h.alarm.symm.trans halarm
  have ha := h.asked w hop
  obtain rfl : op = .ticks w.sock w.id := by
    cases op with
    | ticks b id =>
        obtain rfl := Option.some.inj hop
        rfl
    | _ => cases hop
  refine ⟨h.roster, hslaves.trans h.slaves_eq, hbase.trans h.base, hend,
    fun w hw => (by cases hw), fun c hc => ?_, fun c hc => ?_⟩
  · rcases eq_or_ne c w.sock with rfl | hne
    · have hduty := h.members w.sock hc
      rw [links_self hlinks]
      show Duty _ _ _ _ (s.links w.sock).thread
      generalize (s.links w.sock).thread = thread at hduty
      cases hduty with
      | answered id p' _ htoSlave htoMaster hholds =>
          obtain ⟨-, rfl⟩ := List.cons.inj (hqueue.symm.trans htoMaster)
          exact .loop ⟨htoSlave, rfl⟩ hholds
      | leaving _ _ hop' | registering _ _ hop' => cases hop'
      | loop hempty | calling _ _ hempty | waiting _ _ _ hempty | handling _ _ hempty =>
          rw [hempty.toMaster] at hqueue
          cases hqueue
      | ticked _ _ _ htoMaster =>
          rw [htoMaster] at hqueue
          cases hqueue
    · rw [links_of_ne hlinks hne]
      exact (h.members c hc).of_ticks hne
  · have hne : c ≠ w.sock := by
      rintro rfl
      exact hc ha
    rw [links_of_ne hlinks hne]
    exact h.others c hc

/-- The master begins with a request. -/
theorem Crowd.begin {list new : SlaveList} {last : LastOp} {cmd : RoundCmd} {a : Int} {pos id : Nat}
    (h : Crowd slaves op s) (hturn : Turn slaves op cmd a pos list new last)
    (hslaves : t.slaves = list) (hlinks : t.links = Function.update s.links a l)
    (hbase : t.base = some ⟨a, id, cmd, pos, 0, none⟩) (halarm : t.alarm = none)
    (hthread : l.thread = askThread cmd id) (hempty : l.Empty) :
    Round slaves new op last ⟨a, id, cmd, pos, 0, none⟩ t := by
  subst hslaves
  refine ⟨h.roster, hbase, halarm, hturn, ?_, ?_, Nat.zero_le _, fun hsent => absurd rfl hsent,
    fun j hj hne => ?_, fun b hne hb => ?_⟩
  · exact (congrArg Link.thread (links_self hlinks)).trans hthread
  · exact (links_self hlinks).symm ▸ hempty
  · have hother : t.sock j ≠ a := hturn.sock_ne h.roster hj hne
    rw [links_of_ne hlinks hother]
    refine .untold (Nat.zero_le j) (fun _ => rfl) (h.members _ ?_)
    exact (hturn.listed h.roster hother).1.mpr ⟨j, hj, rfl⟩
  · rw [links_of_ne hlinks hne]
    exact h.others b fun hlisted => hb ((hturn.listed h.roster hne).1.mp hlisted)

/-- The master receives a request. -/
theorem Crowd.masterRecv {a ip : Int} {rand : Nat} {p : ControlPacket}
    {rest : List ControlPacket} (h : Crowd slaves op s) (halarm : s.alarm = none)
    (hcond : s.SignalsApart (.masterRecv a ip rand))
    (hqueue : (s.links a).toMaster = p :: rest)
    (hbegin : (s.setLink a { s.links a with toMaster := rest }).beginRequest a ip rand p =
      some t) :
    ∃ old new op last r, Round old new op last r t := by
  obtain rfl := h.slaves_eq
  have hop : op.alarm = none := h.alarm.symm.trans halarm
  by_cases ha : s.slaves.Listed a
  · obtain ⟨id, pos, rfl, hthread, htoSlave, rfl, rfl, hpos, rfl⟩ :=
      (h.members a ha).asks hop hqueue
    simp only [beginRequest, Option.some.injEq] at hbegin
    subst hbegin
    have hturn := Turn.del pos hpos
    exact ⟨_, _, _, _, _, h.begin hturn rfl rfl rfl halarm hthread ⟨htoSlave, rfl⟩⟩
  · have hout := h.others a ha
    generalize hthread : (s.links a).thread = thread at hout
    cases hout with
    | down hempty =>
        rw [hempty.toMaster] at hqueue
        cases hqueue
    | leaving id id' htoSlave htoMaster =>
        rw [htoMaster] at hqueue
        cases hqueue
    | registering id port htoSlave htoMaster =>
        have hadds : ∃ p ∈ (s.links a).toMaster, p.msg.kind = .addSlave := by
          rw [htoMaster]
          exact ⟨_, List.mem_singleton_self _, rfl⟩
        obtain ⟨op', hop', hleaves, h⟩ := h.exists_op hop (hcond hadds)
        obtain ⟨rfl, rfl⟩ := List.cons.inj (hqueue.symm.trans htoMaster)
        simp only [beginRequest, Option.ite_none_right_eq_some, Option.some.injEq] at hbegin
        obtain ⟨hmax, rfl⟩ := hbegin
        have hturn := Turn.add op' a ip port rand hop' hleaves hmax ha
        exact ⟨_, _, _, _, _, h.begin hturn rfl rfl rfl halarm hthread ⟨htoSlave, rfl⟩⟩

end Crowds

section Rounds

variable {s t : ControlNet} {old new : SlaveList} {op last : LastOp} {r : Notifying} {b : Int}
  {l : Link}

theorem Stand.ne_down {notice : ControlMsg} {i j : Nat} {sent : Option Nat}
    (h : Stand old new op last notice i sent j b l) : l.thread ≠ .down := by
  cases h with
  | told _ h | untold _ _ h => exact h.ne_down
  | sent id v _ _ hl h | replied id p v _ _ hl h =>
      rw [hl]
      exact h.ne_down
  | handling id _ _ hthread =>
      rw [hthread]
      simp

theorem Round.update (h : Round old new op last r s) (hslave : s.SlaveStep b l t)
    (hne : b ≠ r.requester)
    (hnode : ∀ j, j < s.slaves.num → j ≠ r.pos → s.sock j = b →
      Stand old new op last (r.cmd.notification r.pos s.slaves) r.i r.sent j b l)
    (hout : ¬ s.slaves.Listed b → Outside l l.thread) : Round old new op last r t := by
  have hasker : t.links r.requester = s.links r.requester :=
    links_of_ne hslave.links hne.symm
  refine ⟨h.roster, hslave.base.trans h.base, hslave.alarm.trans h.alarm, ?_, ?_, ?_, ?_, ?_,
    fun j hj hother => ?_, fun c hc hnot => ?_⟩
  · rw [hslave.slaves]
    exact h.turn
  · rw [hasker]
    exact h.thread
  · rw [hasker]
    exact h.empty
  · rw [hslave.slaves]
    exact h.le_num
  · rw [hslave.slaves]
    exact h.lt_num
  · have hsock : t.sock j = s.sock j := by
      rw [sock, hslave.slaves, sock]
    rw [hslave.slaves] at hj ⊢
    rw [hsock]
    by_cases heq : s.sock j = b
    · rw [heq, links_self hslave.links]
      exact hnode j hj hother heq
    · rw [links_of_ne hslave.links heq]
      exact h.nodes j hj hother
  · rw [hslave.slaves] at hnot
    rcases eq_or_ne c b with rfl | hcb
    · rw [links_self hslave.links]
      exact hout hnot
    · rw [links_of_ne hslave.links hcb]
      exact h.others c hc hnot

/-- A step of a slave. -/
theorem Round.slave_step (h : Round old new op last r s) {e : ControlEvent}
    (he : e.slave = some b) (hstep : s.step e = some t) : Round old new op last r t := by
  rcases eq_or_ne b r.requester with rfl | hne
  · rw [step_of_asking he h.thread fun _ => h.empty.toSlave] at hstep
    cases hstep
  by_cases hb : s.slaves.Listed b
  · obtain ⟨j, hj, rfl⟩ := hb
    have hother : j ≠ r.pos := by
      rintro rfl
      exact hne (h.turn.asker h.roster).2
    have hstand := h.nodes j hj hother
    obtain ⟨l, hslave, hstand⟩ := hstand.step (h.turn.apart hne).1
      (fun l id hempty hholds => h.turn.handled h.roster hne hempty hholds) he hstep
    refine h.update hslave hne (fun j' hj' hother' heq => ?_) fun hnot =>
      absurd ⟨j, hj, rfl⟩ hnot
    obtain rfl := (h.turn.rosters h.roster).1.sock_inj j' j hj' hj heq
    exact hstand
  · obtain ⟨l, hslave, hout⟩ := (h.others b hne hb).step he hstep
    exact h.update hslave hne (fun j hj _ heq => absurd ⟨j, hj, heq⟩ hb) fun _ => hout

/-- A slave connects and sends `ADD_SLAVE`. -/
theorem Round.register (h : Round old new op last r s) {a port : Int}
    (hdown : (s.links a).thread = .down) :
    Round old new op last r { s.setLink a
        { s.links a with
          thread := .registering s.sent
          toSlave := []
          toMaster := [⟨.addSlave port, s.sent⟩] } with
      sent := s.sent + 1 } := by
  have hne : a ≠ r.requester := by
    rintro rfl
    have hthread := h.thread.symm.trans hdown
    generalize r.cmd = cmd at hthread
    cases cmd <;> cases hthread
  refine h.update ⟨rfl, rfl, rfl, rfl⟩ hne (fun j hj hother heq => ?_) fun _ =>
    .registering s.sent port rfl rfl
  subst heq
  exact absurd hdown (h.nodes j hj hother).ne_down

/-- The loop of `NotifyAll` passes over the node of the request. -/
theorem Round.skip (h : Round old new op last r s) (hsent : r.sent = none)
    (hlt : r.i < s.slaves.num) (hself : r.i = r.pos) :
    Round old new op last { r with i := r.i + 1 }
      { s with base := some { r with i := r.i + 1 } } := by
  refine ⟨h.roster, rfl, h.alarm, h.turn, h.thread, h.empty, hlt, fun hnot => absurd hsent hnot,
    fun j hj hne => ?_, h.others⟩
  cases h.nodes j hj hne with
  | told hji h => exact .told (Nat.lt_succ_of_lt hji) h
  | untold hij _ h =>
      have hlt : r.i < j := lt_of_le_of_ne hij fun heq => hne (heq.symm.trans hself)
      exact .untold hlt (fun _ => hsent) h
  | sent _ _ _ hsome | handling _ _ hsome | replied _ _ _ _ hsome =>
      rw [hsent] at hsome
      cases hsome

/-- It notifies the next slave. -/
theorem Round.notify (h : Round old new op last r s) (hsent : r.sent = none)
    (hlt : r.i < s.slaves.num) (hne : r.i ≠ r.pos) :
    Round old new op last { r with sent := some s.sent }
      { s.request (s.sock r.i) (s.notice r) with base := some { r with sent := some s.sent } } := by
  have hasker : s.sock r.i ≠ r.requester := h.turn.sock_ne h.roster hlt hne
  have hlinks : (s.request (s.sock r.i) (s.notice r)).links =
      Function.update s.links (s.sock r.i)
        ((s.links (s.sock r.i)).extend [⟨s.notice r, s.sent⟩] []) := rfl
  have hself : (s.request (s.sock r.i) (s.notice r)).links r.requester = s.links r.requester :=
    links_of_ne hlinks hasker.symm
  refine ⟨h.roster, rfl, h.alarm, h.turn, ?_, ?_, h.le_num, fun _ => ⟨hlt, hne⟩,
    fun j hj hother => ?_, fun c hc hnot => ?_⟩
  · exact (congrArg Link.thread hself).trans h.thread
  · exact hself.symm ▸ h.empty
  · have hstand := h.nodes j hj hother
    by_cases heq : j = r.i
    · subst heq
      have hlink := links_self hlinks
      cases hstand with
      | told hji _ => exact absurd hji (lt_irrefl _)
      | untold _ _ hduty => exact .sent s.sent _ rfl rfl hlink hduty
      | sent _ _ _ hsome | handling _ _ hsome | replied _ _ _ _ hsome =>
          rw [hsent] at hsome
          cases hsome
    · have hsock : s.sock j ≠ s.sock r.i := fun hsock =>
        heq ((h.turn.rosters h.roster).1.sock_inj j r.i hj hlt hsock)
      have hlink : (s.request (s.sock r.i) (s.notice r)).links (s.sock j) = s.links (s.sock j) :=
        links_of_ne hlinks hsock
      show Stand _ _ _ _ _ _ _ _ _ ((s.request (s.sock r.i) (s.notice r)).links (s.sock j))
      rw [hlink]
      cases hstand with
      | told hji hduty => exact .told hji hduty
      | untold hij _ hduty => exact .untold hij (fun hji => absurd hji heq) hduty
      | sent _ _ hji | handling _ hji | replied _ _ _ hji => exact absurd hji heq
  · have hc' : c ≠ s.sock r.i := by
      rintro rfl
      exact hnot ⟨r.i, hlt, rfl⟩
    have hlink : (s.request (s.sock r.i) (s.notice r)).links c = s.links c :=
      links_of_ne hlinks hc'
    show Outside ((s.request (s.sock r.i) (s.notice r)).links c) _
    rw [hlink]
    exact h.others c hc hnot

/-- The slave at the index of the loop, when the master has received from it. -/
theorem Stand.reply {notice : ControlMsg} {i id : Nat}
    (h : Stand old new op last notice i (some id) i b l)
    (hop : op.alarm = none ∧ op ≠ .leaves b) {p : ControlPacket} {rest : List ControlPacket}
    (hqueue : l.toMaster = p :: rest) :
    Duty new last b { l with toMaster := rest } l.thread := by
  cases h with
  | told hj => exact absurd hj (lt_irrefl _)
  | untold _ hsent =>
      have hnone := hsent rfl
      cases hnone
  | sent id' v _ _ hl hduty =>
      subst hl
      obtain ⟨id'', pos, hleaves, -⟩ := hduty.asks hop.1 hqueue
      exact absurd hleaves hop.2
  | handling id' _ _ _ hempty =>
      rw [hempty.toMaster] at hqueue
      cases hqueue
  | replied id' p' v _ _ hl hduty =>
      subst hl
      obtain ⟨-, rfl⟩ := List.cons.inj hqueue
      have hv : ({ v.extend [] [p'] with toMaster := v.toMaster } : Link) = v := by
        simp [Link.extend]
      exact hv.symm ▸ hduty

/-- The `RecvMsg` in the loop of `NotifyAll` returns. -/
theorem Round.masterReply (h : Round old new op last r s) {id : Nat} {p : ControlPacket}
    {rest : List ControlPacket} (hsent : r.sent = some id)
    (hqueue : (s.links (s.sock r.i)).toMaster = p :: rest)
    (hlinks : t.links =
      Function.update s.links (s.sock r.i) { s.links (s.sock r.i) with toMaster := rest })
    (hslaves : t.slaves = s.slaves) (hbase : t.base = some { r with i := r.i + 1, sent := none })
    (halarm : t.alarm = none) :
    Round old new op last { r with i := r.i + 1, sent := none } t := by
  obtain ⟨hlt, hne⟩ := h.lt_num (hsent ▸ Option.some_ne_none id)
  have hasker : s.sock r.i ≠ r.requester := h.turn.sock_ne h.roster hlt hne
  have hself : t.links r.requester = s.links r.requester := links_of_ne hlinks hasker.symm
  have hsock : ∀ j, t.sock j = s.sock j := fun j => by rw [sock, hslaves, sock]
  refine ⟨h.roster, hbase, halarm, hslaves ▸ h.turn, ?_, ?_, hslaves ▸ hlt,
    fun hnot => absurd rfl hnot, fun j hj hother => ?_, fun c hc hnot => ?_⟩
  · exact (congrArg Link.thread hself).trans h.thread
  · exact hself.symm ▸ h.empty
  · rw [hslaves] at hj ⊢
    rw [hsock]
    have hstand := h.nodes j hj hother
    by_cases heq : j = r.i
    · subst heq
      rw [links_self hlinks]
      rw [hsent] at hstand
      exact .told (Nat.lt_succ_self _) (hstand.reply (h.turn.apart hasker).1 hqueue)
    · have hne' : s.sock j ≠ s.sock r.i := fun hsock =>
        heq ((h.turn.rosters h.roster).1.sock_inj j r.i hj hlt hsock)
      rw [links_of_ne hlinks hne']
      cases hstand with
      | told hji hduty => exact .told (Nat.lt_succ_of_lt hji) hduty
      | untold hij _ hduty =>
          exact .untold (lt_of_le_of_ne hij (Ne.symm heq)) (fun _ => rfl) hduty
      | sent _ _ hji | handling _ hji | replied _ _ _ hji => exact absurd hji heq
  · rw [hslaves] at hnot
    have hc' : c ≠ s.sock r.i := by
      rintro rfl
      exact hnot ⟨r.i, hlt, rfl⟩
    rw [links_of_ne hlinks hc']
    exact h.others c hc hnot

/-- The master answers. -/
theorem Round.finish (h : Round old new op last r s) (hsent : r.sent = none)
    (hi : r.i = s.slaves.num)
    (hlinks : t.links = Function.update s.links r.requester
      { s.links r.requester with
        toSlave := (s.links r.requester).toSlave ++ [⟨(s.answer r).2, r.id⟩] })
    (hslaves : t.slaves = (s.answer r).1) (hbase : t.base = none) (halarm : t.alarm = none) :
    Crowd new last t := by
  have hroster := (h.turn.rosters h.roster).2
  have hself := links_self hlinks
  have htoSlave : (t.links r.requester).toSlave = [⟨(s.answer r).2, r.id⟩] := by
    rw [hself, h.empty.toSlave, List.nil_append]
  have htoMaster : (t.links r.requester).toMaster = [] := by
    rw [hself]
    exact h.empty.toMaster
  have hthread : (t.links r.requester).thread = askThread r.cmd r.id := by
    rw [hself]
    exact h.thread
  obtain ⟨hnew, hlisted, hout⟩ := h.turn.answered h.roster rfl hthread htoSlave htoMaster
  have hlast := h.turn.alarm_last
  refine ⟨hroster, hslaves.trans hnew, hbase, halarm.trans hlast.symm, fun w hw => ?_,
    fun b hb => ?_, fun b hb => ?_⟩
  · rw [hlast] at hw
    cases hw
  · rcases eq_or_ne b r.requester with rfl | hne
    · exact hlisted hb
    · obtain ⟨j, hj, rfl⟩ := (h.turn.listed h.roster hne).2.mp hb
      have hother : j ≠ r.pos := by
        rintro rfl
        exact hne (h.turn.asker h.roster).2
      rw [links_of_ne hlinks hne]
      cases h.nodes j hj hother with
      | told _ hduty => exact hduty
      | untold hij => omega
      | sent _ _ _ hsome | handling _ _ hsome | replied _ _ _ _ hsome =>
          rw [hsent] at hsome
          cases hsome
  · rcases eq_or_ne b r.requester with rfl | hne
    · exact hout hb
    · rw [links_of_ne hlinks hne]
      exact h.others b hne fun hlist => hb ((h.turn.listed h.roster hne).2.mpr hlist)

end Rounds

/-- The states of a run in which signals come only while nothing is going on. -/
inductive Reached (s : ControlNet) : Prop where
  | crowd (slaves : SlaveList) (op : LastOp) (h : Crowd slaves op s)
  | round (old new : SlaveList) (op last : LastOp) (r : Notifying)
      (h : Round old new op last r s)

theorem reached_init : Reached init := by
  refine .crowd SlaveList.empty .calm ⟨roster_empty, rfl, rfl, rfl, fun w hw => (by cases hw),
    fun b hb => ?_, fun b _ => .down ⟨rfl, rfl⟩⟩
  obtain ⟨i, hi, -⟩ := hb
  exact absurd hi (Nat.not_lt_zero i)

section Steps

variable {s t : ControlNet}

theorem Crowd.step {slaves : SlaveList} {op : LastOp} (h : Crowd slaves op s) {e : ControlEvent}
    (hcond : s.SignalsApart e) (hstep : s.step e = some t) : Reached t := by
  cases transition_of_step hstep with
  | register a port hdown => exact .crowd _ _ (h.register hdown)
  | slaveRecv | slaveHandle | call | endCalls | registered | left | serve =>
      exact .crowd _ _ (h.slave_step rfl hstep)
  | interrupt a hthread => exact .crowd _ _ (h.interrupt hcond hthread)
  | masterRecv a ip rand p rest t hbase halarm hqueue hbegin =>
      obtain ⟨old, new, op', last, r, hround⟩ := h.masterRecv halarm hcond hqueue hbegin
      exact .round _ _ _ _ _ hround
  | skip r hbase | notify r hbase | masterReply r id p rest hbase | finish r hbase =>
      rw [h.base] at hbase
      cases hbase
  | tick halarm hnum => exact .crowd _ _ (h.tick hcond hnum)
  | tickReply w p rest halarm hqueue =>
      exact .crowd _ _ (h.tickReply halarm hqueue rfl rfl rfl rfl)

theorem Round.step {old new : SlaveList} {op last : LastOp} {r : Notifying}
    (h : Round old new op last r s) {e : ControlEvent} (hcond : s.SignalsApart e)
    (hstep : s.step e = some t) : Reached t := by
  have hnode : ∀ {r'}, s.base = some r' → r = r' :=
    fun hbase => Option.some.inj (h.base.symm.trans hbase)
  have hbusy : ¬ s.Calm := fun hcalm => by
    have hbase := h.base.symm.trans hcalm.1
    cases hbase
  cases transition_of_step hstep with
  | register a port hdown => exact .round _ _ _ _ _ (h.register hdown)
  | slaveRecv | slaveHandle | call | endCalls | registered | left | serve =>
      exact .round _ _ _ _ _ (h.slave_step rfl hstep)
  | interrupt | tick => exact absurd hcond hbusy
  | masterRecv a ip rand p rest t hbase =>
      rw [h.base] at hbase
      cases hbase
  | skip r' hbase halarm hsent hlt hself =>
      obtain rfl := hnode hbase
      exact .round _ _ _ _ _ (h.skip hsent hlt hself)
  | notify r' hbase halarm hsent hlt hother =>
      obtain rfl := hnode hbase
      exact .round _ _ _ _ _ (h.notify hsent hlt hother)
  | masterReply r' id p rest hbase halarm hsent hqueue =>
      obtain rfl := hnode hbase
      exact .round _ _ _ _ _ (h.masterReply hsent hqueue rfl rfl rfl halarm)
  | finish r' hbase halarm hsent hi =>
      obtain rfl := hnode hbase
      exact .crowd _ _ (h.finish hsent hi rfl rfl rfl halarm)
  | tickReply w p rest halarm =>
      rw [h.alarm] at halarm
      cases halarm

/-- **Every step leads to such a state.** -/
theorem Reached.step (h : Reached s) {e : ControlEvent} (hcond : s.SignalsApart e)
    (hstep : s.step e = some t) : Reached t := by
  cases h with
  | crowd slaves op h => exact h.step hcond hstep
  | round old new op last r h => exact h.step hcond hstep

end Steps

end ControlNet

end DistributedDB
