import DistributedDB.ControlPhases

/-!
# Every step leads on in the operation

One lemma for each phase of `ControlPhases`: a step that does not start an operation stays
in the phase or leads to the next one.

**Results.**
* `Rest.register`, `Rest.interrupt`, `Rest.tick`: how an operation begins.
* `Looping.step`, `Telling.step`: the loop of `NotifyAll`.
* `Answered.step`, `Gone.step`, `Calling.step`, `Ticking.step`: the rest of a registration, a
  departure and a tick.
-/

namespace DistributedDB

open RingIndex Run

namespace ControlNet

section Idle

variable {r : Registry} {s t : ControlNet}

theorem step_of_isIdle {b : Int} (h : Idle r b (s.links b)) {e : ControlEvent}
    (he : e.slave = some b) : s.step e = none := by
  refine step_of_idle he ?_ h.toSlave
  by_cases hb : r.Live b
  · exact Or.inl (h.up hb)
  · exact Or.inr (h.down hb)

/-- Between two operations nothing happens by itself. -/
theorem Rest.step_eq_none (h : Rest r s) {e : ControlEvent} (hstart : e.isStart = false) :
    s.step e = none := by
  have hslave := fun b (he : e.slave = some b) => step_of_isIdle (h.links b) he
  cases e with
  | register | interrupt | tick => cases hstart
  | slaveRecv a | slaveHandle a | call a | endCalls a | slaveReply a => exact hslave a rfl
  | serve c a => exact hslave a rfl
  | masterRecv a ip rand => simp [step, (h.links a).toMaster]
  | notify | masterReply | finish => simp [step, h.base]
  | tickReply => simp [step, h.alarm]

/-- A slave connects and sends `ADD_SLAVE`. -/
theorem Rest.register (h : Rest r s) {a port : Int} (hmax : s.slaves.num < MAX_SLAVE_NUM)
    (hstep : s.step (.register a port) = some t) :
    ∃ id, Asks r .add a (.addSlave port) (.register a port) ∧
      Asked r .add a id (.addSlave port) t := by
  simp only [step, Option.ite_none_right_eq_some, Option.some.injEq] at hstep
  obtain ⟨hdown, ht⟩ := hstep
  have hfresh : ¬ r.Live a := by
    intro hlive
    rw [(h.links a).up hlive] at hdown
    cases hdown
  have hnum : r.slaves.num < MAX_SLAVE_NUM := by
    rwa [← h.registry]
  have hlinks := (congrArg ControlNet.links ht).symm
  have hself := links_self hlinks
  refine ⟨s.sent, .add a port hnum hfresh, ⟨?_, ?_, ?_, ?_, ?_, ?_, ?_⟩⟩
  · exact ht ▸ h.base
  · exact ht ▸ h.alarm
  · exact (registry_of_links hlinks (congrArg ControlNet.slaves ht).symm rfl).trans h.registry
  · exact congrArg Link.thread hself
  · exact congrArg Link.toSlave hself
  · exact congrArg Link.toMaster hself
  · exact fun b hne => (links_of_ne hlinks hne).symm ▸ h.links b

/-- A slave sends `DEL_SLAVE` with its own position. -/
theorem Rest.interrupt (h : Rest r s) (hr : r.Agrees) {a : Int}
    (hstep : s.step (.interrupt a) = some t) :
    ∃ id msg, Asks r .del a msg (.interrupt a) ∧ Asked r .del a id msg t := by
  simp only [step, Option.ite_none_right_eq_some, Option.some.injEq] at hstep
  obtain ⟨hinterruptible, ht⟩ := hstep
  have hlive : r.Live a := by
    by_contra hdown
    rw [(h.links a).down hdown] at hinterruptible
    cases hinterruptible
  obtain ⟨pos, hpos, rfl⟩ := hlive
  have hslave : (s.links (r.sock pos)).slave = r.procs (r.sock pos) := by
    rw [← h.registry]
    rfl
  have hlinks := (congrArg ControlNet.links ht).symm
  have hself := links_self hlinks
  refine ⟨s.sent, .delSlave pos, .del pos hpos, ⟨?_, ?_, ?_, ?_, ?_, ?_, ?_⟩⟩
  · exact ht ▸ h.base
  · exact ht ▸ h.alarm
  · exact (registry_of_links hlinks (congrArg ControlNet.slaves ht).symm rfl).trans h.registry
  · exact congrArg Link.thread hself
  · exact (congrArg Link.toSlave hself).trans (h.links _).toSlave
  · refine (congrArg Link.toMaster hself).trans ?_
    rw [(h.links _).toMaster, hslave, hr.pos_eq pos hpos, List.nil_append]
  · exact fun b hne => (links_of_ne hlinks hne).symm ▸ h.links b

/-- `UpdateBackup` sends its request. -/
theorem Rest.tick (h : Rest r s) (hstep : s.step .tick = some t) :
    ∃ a id, Ticking r a id t := by
  simp only [step, Option.ite_none_right_eq_some, Option.some.injEq] at hstep
  obtain ⟨⟨-, hnum⟩, ht⟩ := hstep
  have hlive : r.Live (s.sock s.nextTurn) := by
    rw [← h.registry]
    exact ⟨s.nextTurn, Nat.mod_lt _ hnum, rfl⟩
  have hlinks := (congrArg ControlNet.links ht).symm
  have hself := links_self hlinks
  refine ⟨s.sock s.nextTurn, s.sent, ⟨?_, ?_, ?_, hlive, .sent _ ?_ ?_ ?_, ?_⟩⟩
  · exact ht ▸ h.base
  · exact ht ▸ rfl
  · exact (registry_of_links hlinks (congrArg ControlNet.slaves ht).symm rfl).trans h.registry
  · exact (congrArg Link.thread hself).trans ((h.links _).up hlive)
  · refine (congrArg Link.toSlave hself).trans ?_
    rw [(h.links _).toSlave, List.nil_append]
  · exact (congrArg Link.toMaster hself).trans (h.links _).toMaster
  · exact fun b hne => (links_of_ne hlinks hne).symm ▸ h.links b

end Idle

section Round

variable {r R : Registry} {s t : ControlNet} {request : MasterRequest} {cmd : RoundCmd} {a : Int}
  {pos id i n : Nat}

/-- The master receives the request and begins with the first node. -/
theorem Asked.step {msg : ControlMsg} {start : ControlEvent} (hasks : Asks r cmd a msg start)
    (hr : r.Agrees) (h : Asked r cmd a id msg s) {e : ControlEvent} (hstart : e.isStart = false)
    (hstep : s.step e = some t) :
    ∃ request pos R, request.start = start ∧ Change r request cmd a pos R ∧
      Looping R cmd a pos id 0 t := by
  have hslave : ∀ b, e.slave ≠ some b := by
    intro b he
    have hblocked : s.step e = none := by
      rcases eq_or_ne b a with rfl | hne
      · exact step_of_asking he h.thread fun _ => h.toSlave
      · exact step_of_isIdle (h.others b hne) he
    rw [hblocked] at hstep
    cases hstep
  cases e with
  | register | interrupt | tick => cases hstart
  | slaveRecv b | slaveHandle b | call b | endCalls b | slaveReply b => exact absurd rfl (hslave b)
  | serve c b => exact absurd rfl (hslave b)
  | notify | masterReply | finish => simp [ControlNet.step, h.base] at hstep
  | tickReply => simp [ControlNet.step, h.alarm] at hstep
  | masterRecv b ip rand =>
      obtain ⟨-, -, p, rest, hqueue, hbegin⟩ := step_masterRecv hstep
      obtain rfl : b = a := by
        by_contra hne
        rw [(h.others b hne).toMaster] at hqueue
        cases hqueue
      rw [h.toMaster] at hqueue
      obtain ⟨rfl, rfl⟩ := List.cons.inj hqueue
      obtain rfl := h.registry
      cases hasks with
      | add _ port hmax hfresh =>
          simp only [beginRequest, Option.ite_none_right_eq_some, Option.some.injEq] at hbegin
          obtain ⟨-, ht⟩ := hbegin
          have hlinks := (congrArg ControlNet.links ht).symm
          have hself := links_self hlinks
          refine ⟨_, _, _, rfl, .add b ip port rand hmax hfresh,
            ⟨⟨?_, ?_, ?_, ?_, ⟨?_, ?_⟩⟩, Nat.zero_le _, ?_⟩⟩
          · exact ht ▸ rfl
          · exact ht ▸ h.alarm
          · exact registry_eq (congrArg ControlNet.slaves ht).symm (procs_of_links hlinks rfl)
          · exact (congrArg Link.thread hself).trans h.thread
          · exact (congrArg Link.toSlave hself).trans h.toSlave
          · exact congrArg Link.toMaster hself
          · intro c hne
            rw [links_of_ne hlinks hne]
            refine (h.others c hne).quiet ?_ _ _ _
            rw [live_addToSlaveList hr hmax, or_iff_left hne]
      | del pos hpos =>
          simp only [beginRequest, Option.some.injEq] at hbegin
          have hlinks := (congrArg ControlNet.links hbegin).symm
          have hself := links_self hlinks
          refine ⟨_, _, _, rfl, .del pos hpos,
            ⟨⟨?_, ?_, ?_, ?_, ⟨?_, ?_⟩⟩, Nat.zero_le _, ?_⟩⟩
          · exact hbegin ▸ rfl
          · exact hbegin ▸ h.alarm
          · exact registry_of_links hlinks (congrArg ControlNet.slaves hbegin).symm rfl
          · exact (congrArg Link.thread hself).trans h.thread
          · exact (congrArg Link.toSlave hself).trans h.toSlave
          · exact congrArg Link.toMaster hself
          · intro c hne
            rw [links_of_ne hlinks hne]
            exact (h.others c hne).quiet Iff.rfl _ _ _

theorem slaves_notified (R : Registry) (pos : Nat) (notice : Notice) (n : Nat) :
    ((List.range n).foldl (Registry.notify pos notice) R).slaves = R.slaves := by
  induction n with
  | zero => rfl
  | succ n ih =>
      rw [List.range_succ, List.foldl_append, List.foldl_cons, List.foldl_nil,
        Registry.slaves_notify, ih]

theorem Notifies.slaves_eq {sent : Option Nat} (h : Notifies R cmd a pos id i n sent s) :
    s.slaves = R.slaves :=
  (congrArg Registry.slaves h.registry).trans (slaves_notified R pos cmd.notice n)

/-- A step of a slave that has not asked for anything. -/
theorem Notifies.setLink {sent : Option Nat} (h : Notifies R cmd a pos id i n sent s) {b : Int}
    (hne : b ≠ a) {l : Link} (hslave : l.slave = (s.links b).slave) :
    Notifies R cmd a pos id i n sent (s.setLink b l) := by
  have hself : (s.setLink b l).links a = s.links a := links_of_ne rfl hne.symm
  refine ⟨h.base, h.alarm, (registry_setLink hslave).trans h.registry, ?_, ?_⟩
  · rw [hself]
    exact h.thread
  · rw [hself]
    exact h.empty

/-- The slaves that have not asked for anything, after a step of one of them. -/
theorem quiet_setLink {b : Int} (h : Quiet R cmd pos n b (s.links b)) {thread : Thread}
    (hmember : Member R cmd pos n b (s.links b).slave thread) {c : Int}
    (hc : Quiet R cmd pos n c (s.links c)) :
    Quiet R cmd pos n c ((s.setLink b { s.links b with thread := thread }).links c) := by
  rcases eq_or_ne c b with rfl | hne
  · rw [links_self rfl]
    exact ⟨⟨h.toSlave, h.toMaster⟩, hmember⟩
  · rw [links_of_ne rfl hne]
    exact hc

/-- The loop of `NotifyAll` passes over the node of the request. -/
theorem Looping.skip (h : Looping R cmd a pos id i s) (hlt : i < R.slaves.num) (heq : i = pos) :
    Looping R cmd a pos id (i + 1)
      { s with base := some ⟨a, id, cmd, pos, i + 1, none⟩ } := by
  refine ⟨⟨rfl, h.alarm, ?_, h.thread, h.empty⟩, hlt, fun b hne => ?_⟩
  · rw [List.range_succ, List.foldl_append, List.foldl_cons, List.foldl_nil, Registry.notify,
      if_pos heq]
    exact h.registry
  · exact (h.others b hne).mono (Nat.le_succ i)

/-- It notifies the next slave. -/
theorem Looping.notify (hchange : Change r request cmd a pos R) (hr : r.Agrees)
    (h : Looping R cmd a pos id i s) (hlt : i < R.slaves.num) (hi : i ≠ pos)
    (ht : t = { s.request (s.sock i) (s.notice ⟨a, id, cmd, pos, i, none⟩) with
      base := some ⟨a, id, cmd, pos, i, some s.sent⟩ }) :
    Telling R cmd a pos id i i s.sent t := by
  have hlinks := congrArg ControlNet.links ht
  have hself := links_self hlinks
  have hsock : s.sock i = R.sock i := by
    rw [ControlNet.sock, h.slaves_eq]
    rfl
  have hasker : R.sock i ≠ a := by
    intro heq
    rw [← hchange.sock_pos hr] at heq
    exact hi (hchange.sock_inj hr hlt (hchange.pos_lt hr) heq)
  have hloop : (s.links (R.sock i)).thread = .loop :=
    (h.others _ hasker).member.loop_of_untold hlt
      (fun j hj heq => hchange.sock_inj hr hj hlt heq) le_rfl
  rw [hsock] at hself hlinks
  refine ⟨⟨?_, ?_, ?_, ?_, ?_⟩, hlt, hi, ?_, ?_⟩
  · exact ht ▸ rfl
  · exact ht ▸ h.alarm
  · have hslaves := congrArg ControlNet.slaves ht
    exact (registry_of_links hlinks hslaves rfl).trans h.registry
  · rw [links_of_ne hlinks hasker.symm]
    exact h.thread
  · rw [links_of_ne hlinks hasker.symm]
    exact h.empty
  · have hnotice : s.notice ⟨a, id, cmd, pos, i, none⟩ = cmd.notification pos R.slaves := by
      rw [← h.slaves_eq]
      rfl
    refine .sent _ ((congrArg Link.thread hself).trans hloop)
      ((congrArg Link.toSlave hself).trans ?_)
      ((congrArg Link.toMaster hself).trans (h.others _ hasker).toMaster)
    rw [(h.others _ hasker).toSlave, List.nil_append, hnotice]
  · intro b hne hb
    rw [links_of_ne hlinks hb]
    exact h.others b hne

/-- The master answers. -/
theorem Looping.finish (h : Looping R cmd a pos id i s) (hi : i = s.slaves.num)
    (ht : t = { s.setLink a
        { s.links a with
          toSlave :=
            (s.links a).toSlave ++ [⟨(s.answer ⟨a, id, cmd, pos, i, none⟩).2, id⟩] } with
      slaves := (s.answer ⟨a, id, cmd, pos, i, none⟩).1
      base := none }) :
    Answered R cmd a pos id t := by
  have hlinks := congrArg ControlNet.links ht
  have hself := links_self hlinks
  have hslaves := h.slaves_eq
  have hnum : i = R.slaves.num := hi.trans (congrArg SlaveList.num hslaves)
  have hprocs : t.registry.procs = (cmd.outcome pos R).procs := by
    rw [procs_of_links hlinks rfl, h.registry, hnum]
    cases cmd <;> rfl
  have hlist : t.slaves = (cmd.outcome pos R).slaves := by
    refine (congrArg ControlNet.slaves ht).trans ?_
    cases cmd with
    | add => exact hslaves.trans (slaves_notified R pos .newSlave R.slaves.num).symm
    | del => exact congrArg (delFromSlaveList · pos) hslaves
  refine ⟨?_, ?_, ?_, ?_, ?_, ?_, ?_⟩
  · exact ht ▸ rfl
  · exact ht ▸ h.alarm
  · exact registry_eq hlist hprocs
  · exact (congrArg Link.thread hself).trans h.thread
  · have hanswer : (s.answer ⟨a, id, cmd, pos, i, none⟩).2 = cmd.answer pos R.slaves := by
      rw [← hslaves]
      cases cmd <;> rfl
    refine (congrArg Link.toSlave hself).trans ?_
    rw [h.empty.toSlave, List.nil_append, hanswer]
  · exact (congrArg Link.toMaster hself).trans h.empty.toMaster
  · intro b hne
    rw [links_of_ne hlinks hne, ← hnum]
    exact h.others b hne

/-- A slave goes on with the calls of an earlier operation. -/
theorem Looping.slave_step (h : Looping R cmd a pos id i s) {e : ControlEvent} {b : Int}
    (he : e.slave = some b) (hstep : s.step e = some t) : Looping R cmd a pos id i t := by
  rcases eq_or_ne b a with rfl | hne
  · rw [step_of_asking he h.thread fun _ => h.empty.toSlave] at hstep
    cases hstep
  · obtain ⟨thread, hmember, rfl⟩ :=
      step_of_member he (h.others b hne).member (h.others b hne).toSlave hstep
    exact ⟨h.toNotifies.setLink hne rfl, h.le_num,
      fun c hc => quiet_setLink (h.others b hne) hmember (h.others c hc)⟩

/-- The loop of `NotifyAll` goes on, or the master answers. -/
theorem Looping.step (hchange : Change r request cmd a pos R) (hr : r.Agrees)
    (h : Looping R cmd a pos id i s) {e : ControlEvent} (hstart : e.isStart = false)
    (hstep : s.step e = some t) :
    (∃ i', Looping R cmd a pos id i' t) ∨ (∃ i' n id', Telling R cmd a pos id i' n id' t) ∨
      Answered R cmd a pos id t := by
  have hnode : ∀ {r'}, s.base = some r' → (⟨a, id, cmd, pos, i, none⟩ : Notifying) = r' :=
    fun hbase => Option.some.inj (h.base.symm.trans hbase)
  cases transition_of_step hstep with
  | register | interrupt | tick => cases hstart
  | slaveRecv b | slaveHandle b | call b | endCalls b | registered b | left b =>
      exact Or.inl ⟨i, h.slave_step rfl hstep⟩
  | serve c b => exact Or.inl ⟨i, h.slave_step rfl hstep⟩
  | masterRecv b ip rand p rest t hbase =>
      rw [h.base] at hbase
      cases hbase
  | skip r' hbase halarm hsent hlt hself =>
      obtain rfl := hnode hbase
      rw [h.slaves_eq] at hlt
      exact Or.inl ⟨i + 1, h.skip hlt hself⟩
  | notify r' hbase halarm hsent hlt hother =>
      obtain rfl := hnode hbase
      rw [h.slaves_eq] at hlt
      exact Or.inr (Or.inl ⟨i, i, s.sent, h.notify hchange hr hlt hother rfl⟩)
  | masterReply r' id' p rest hbase halarm hsent =>
      obtain rfl := hnode hbase
      cases hsent
  | finish r' hbase halarm hsent hi =>
      obtain rfl := hnode hbase
      exact Or.inr (Or.inr (h.finish hi rfl))
  | tickReply w p rest halarm =>
      rw [h.alarm] at halarm
      cases halarm

theorem Telling.sock_ne {id' : Nat} (hchange : Change r request cmd a pos R) (hr : r.Agrees)
    (h : Telling R cmd a pos id i n id' s) : R.sock i ≠ a := by
  intro heq
  rw [← hchange.sock_pos hr] at heq
  exact h.ne_pos (hchange.sock_inj hr h.lt_num (hchange.pos_lt hr) heq)

/-- A step of the slave at the index of the loop. -/
theorem Telling.setLink {id' n' : Nat} (h : Telling R cmd a pos id i n id' s)
    (hasker : R.sock i ≠ a) {l : Link}
    (hregistry : (s.setLink (R.sock i) l).registry =
      (List.range n').foldl (Registry.notify pos cmd.notice) R)
    (hnotified : Notified R cmd pos i id' (R.sock i) n' l) :
    Telling R cmd a pos id i n' id' (s.setLink (R.sock i) l) := by
  have hself : (s.setLink (R.sock i) l).links a = s.links a := links_of_ne rfl hasker.symm
  refine ⟨⟨h.base, h.alarm, hregistry, ?_, ?_⟩, h.lt_num, h.ne_pos, ?_, fun b hne hb => ?_⟩
  · rw [hself]
    exact h.thread
  · rw [hself]
    exact h.empty
  · rw [links_self rfl]
    exact hnotified
  · rw [links_of_ne rfl hb]
    exact h.others b hne hb

/-- The slave at the index of the loop has handled the notification. -/
theorem Telling.registry_told {id' : Nat} (h : Telling R cmd a pos id i i id' s) {l : Link}
    (hslave : l.slave =
      (s.links (R.sock i)).slave.handleNotice cmd.notice pos (R.slaves.node pos)) :
    (s.setLink (R.sock i) l).registry =
      (List.range (i + 1)).foldl (Registry.notify pos cmd.notice) R := by
  have hslaves := h.slaves_eq
  have hsock : s.registry.sock i = R.sock i := by
    rw [Registry.sock, ControlNet.registry, hslaves]
    rfl
  have hupdate : (s.setLink (R.sock i) l).registry = s.registry.setProc (R.sock i) l.slave :=
    registry_update rfl rfl
  rw [hupdate, hslave, List.range_succ, List.foldl_append, List.foldl_cons,
    List.foldl_nil, ← h.registry, Registry.notify, if_neg h.ne_pos, hsock]
  simp only [ControlNet.registry, hslaves]

/-- What a slave does when it has handled the notification. -/
theorem notified_handled {id' : Nat} {link : Link} (hlt : i < R.slaves.num) (hne : i ≠ pos)
    (hempty : link.Empty) :
    Notified R cmd pos i id' (R.sock i) (i + 1)
      (handled link ⟨cmd.notification pos R.slaves, id'⟩) := by
  cases cmd with
  | add =>
      refine .replied _ ⟨.newSlaveR, id'⟩ (.loop ⟨i, hlt, rfl⟩) hempty.toSlave ?_
      exact congrArg (· ++ _) hempty.toMaster
  | del =>
      have hremoved : Removed R .del pos (i + 1) (R.sock i) :=
        ⟨rfl, i, Nat.lt_succ_self i, hlt, hne, rfl⟩
      refine .replied _ ⟨.rmSlaveR, id'⟩ ?_ hempty.toSlave (congrArg (· ++ _) hempty.toMaster)
      by_cases hpre : (link.slave.rmSlave pos).isPredecessor pos ||
          (link.slave.rmSlave pos).isSecondPredecessor pos
      · have hcalls : rmCalls (link.slave.rmSlave pos) pos = [2] := if_pos hpre
        simp only [handled, RoundCmd.notification, hcalls]
        exact .calls hremoved hpre
      · have hcalls : rmCalls (link.slave.rmSlave pos) pos = [] := if_neg hpre
        simp only [handled, RoundCmd.notification, hcalls]
        exact .called hremoved

/-- The slave receives the notification, handles it, and goes on after its answer. -/
theorem Telling.notified_step {id' : Nat} (h : Telling R cmd a pos id i n id' s)
    (hasker : R.sock i ≠ a) {e : ControlEvent} (he : e.slave = some (R.sock i))
    (hstep : s.step e = some t) : ∃ n', Telling R cmd a pos id i n' id' t := by
  have hnotified := h.notified
  have hlive : R.Live (R.sock i) := ⟨i, h.lt_num, rfl⟩
  generalize hlink : s.links (R.sock i) = link at hnotified
  cases hnotified with
  | sent _ hthread htoSlave htoMaster =>
      cases e with
      | slaveRecv b =>
          obtain rfl := Option.some.inj he
          simp only [ControlNet.step, hlink, hthread, htoSlave] at hstep
          obtain rfl := Option.some.inj hstep
          refine ⟨i, h.setLink hasker ?_ (.handling _ rfl ⟨rfl, htoMaster⟩)⟩
          refine (registry_setLink ?_).trans h.registry
          exact (congrArg Link.slave hlink).symm
      | slaveHandle b | call b | endCalls b | slaveReply b =>
          obtain rfl := Option.some.inj he
          simp [ControlNet.step, hlink, hthread] at hstep
      | serve c b =>
          obtain rfl := Option.some.inj he
          simp [ControlNet.step, hlink, hthread] at hstep
      | _ => cases he
  | handling _ hthread hempty =>
      cases e with
      | slaveHandle b =>
          obtain rfl := Option.some.inj he
          simp only [ControlNet.step, hlink, hthread] at hstep
          obtain rfl := Option.some.inj hstep
          subst hlink
          refine ⟨i + 1, h.setLink hasker (h.registry_told ?_) ?_⟩
          · cases cmd <;> rfl
          · exact notified_handled h.lt_num h.ne_pos hempty
      | slaveRecv b | call b | endCalls b | slaveReply b =>
          obtain rfl := Option.some.inj he
          simp [ControlNet.step, hlink, hthread] at hstep
      | serve c b =>
          obtain rfl := Option.some.inj he
          simp [ControlNet.step, hlink, hthread] at hstep
      | _ => cases he
  | replied _ p hmember htoSlave htoMaster =>
      subst hlink
      obtain ⟨thread, hmember', rfl⟩ := step_of_member he hmember htoSlave hstep
      refine ⟨i + 1, h.setLink hasker ?_ (.replied _ p hmember' htoSlave htoMaster)⟩
      refine (registry_setLink ?_).trans h.registry
      rfl

/-- An iteration of the loop of `NotifyAll`, up to the reply. -/
theorem Telling.step {id' : Nat} (hchange : Change r request cmd a pos R) (hr : r.Agrees)
    (h : Telling R cmd a pos id i n id' s) {e : ControlEvent} (hstart : e.isStart = false)
    (hstep : s.step e = some t) :
    (∃ n', Telling R cmd a pos id i n' id' t) ∨ Looping R cmd a pos id (i + 1) t := by
  have hasker := h.sock_ne hchange hr
  have hslave : ∀ b, e.slave = some b → ∃ n', Telling R cmd a pos id i n' id' t := by
    intro b he
    rcases eq_or_ne b a with rfl | hne
    · rw [step_of_asking he h.thread fun _ => h.empty.toSlave] at hstep
      cases hstep
    rcases eq_or_ne b (R.sock i) with rfl | hb
    · exact h.notified_step hasker he hstep
    · obtain ⟨thread, hmember, rfl⟩ :=
        step_of_member he (h.others b hne hb).member (h.others b hne hb).toSlave hstep
      refine ⟨n, h.toNotifies.setLink hne rfl, h.lt_num, h.ne_pos, ?_, fun c hc hci => ?_⟩
      · rw [links_of_ne rfl hb.symm]
        exact h.notified
      · exact quiet_setLink (h.others b hne hb) hmember (h.others c hc hci)
  cases e with
  | register | interrupt | tick => cases hstart
  | slaveRecv b | slaveHandle b | call b | endCalls b | slaveReply b =>
      exact Or.inl (hslave b rfl)
  | serve c b => exact Or.inl (hslave b rfl)
  | masterRecv b ip rand =>
      have hbase := (step_masterRecv hstep).1
      rw [h.base] at hbase
      cases hbase
  | notify | finish => simp [ControlNet.step, h.base, h.alarm] at hstep
  | tickReply => simp [ControlNet.step, h.alarm] at hstep
  | masterReply =>
      have hsock : s.sock i = R.sock i := by
        rw [ControlNet.sock, h.slaves_eq]
        rfl
      simp only [ControlNet.step, h.base, h.alarm, hsock] at hstep
      have hnotified := h.notified
      generalize hlink : s.links (R.sock i) = link at hnotified hstep
      cases hnotified with
      | sent _ hthread htoSlave htoMaster => simp [htoMaster] at hstep
      | handling _ hthread hempty => simp [hempty.toMaster] at hstep
      | replied _ p hmember htoSlave htoMaster =>
          simp only [htoMaster, Option.some.injEq] at hstep
          subst hlink
          have hlinks := (congrArg ControlNet.links hstep).symm
          have hself := links_self hlinks
          have hslaves := (congrArg ControlNet.slaves hstep).symm
          refine Or.inr ⟨⟨?_, ?_, ?_, ?_, ?_⟩, h.lt_num, fun b hne => ?_⟩
          · exact hstep ▸ rfl
          · exact hstep ▸ h.alarm
          · exact (registry_of_links hlinks hslaves rfl).trans h.registry
          · rw [links_of_ne hlinks hasker.symm]
            exact h.thread
          · rw [links_of_ne hlinks hasker.symm]
            exact h.empty
          · rcases eq_or_ne b (R.sock i) with rfl | hb
            · rw [hself]
              exact ⟨⟨htoSlave, rfl⟩, hmember⟩
            · rw [links_of_ne hlinks hb]
              exact (h.others b hne hb).mono (Nat.le_succ i)

/-- The slave receives the answer. -/
theorem Answered.reply (hchange : Change r request cmd a pos R) (hr : r.Agrees)
    (h : Answered R cmd a pos id s) (hstep : s.step (.slaveReply a) = some t) :
    (∃ r', r.step request = some r' ∧ Calling r' a .initialSlave none t) ∨
      (pos < R.slaves.num ∧ R.Agrees ∧ r.step request = some (R.delSlave (R.sock pos)) ∧
        Gone R (R.delSlave (R.sock pos)) pos t) := by
  cases hchange with
  | add _ ip port rand hmax hfresh =>
      have hthread := h.thread
      simp only [askThread] at hthread
      simp only [ControlNet.step, hthread, h.toSlave, RoundCmd.answer, ControlNet.registered,
        Option.some.injEq] at hstep
      have hlinks := (congrArg ControlNet.links hstep).symm
      have hself := links_self hlinks
      have hslaves := hr.slaves_addSlave a ip port rand hmax hfresh
      refine Or.inl ⟨_, step_addSlave hmax hfresh, ?_, ?_, ?_, ?_, ⟨?_, ?_⟩, ?_,
        fun b hne => ?_⟩
      · exact hstep ▸ h.base
      · exact hstep ▸ h.alarm
      · have hslave := congrFun (congrArg Registry.procs h.registry) a
        simp only [ControlNet.registry] at hslave
        rw [registry_update hlinks (congrArg ControlNet.slaves hstep).symm, h.registry]
        simp only [hslave]
        rfl
      · exact (live_congr hslaves a).mpr ((live_addToSlaveList hr hmax).mpr (Or.inr rfl))
      · exact congrArg Link.toSlave hself
      · exact (congrArg Link.toMaster hself).trans h.toMaster
      · rw [hself]
        exact .calling _
      · rw [links_of_ne hlinks hne]
        exact (h.others b hne).idle (live_congr hslaves b)
  | del _ hpos =>
      have hthread := h.thread
      simp only [askThread] at hthread
      simp only [ControlNet.step, hthread, h.toSlave, RoundCmd.answer, ControlNet.left,
        Option.some.injEq] at hstep
      have hlinks := (congrArg ControlNet.links hstep).symm
      have hself := links_self hlinks
      refine Or.inr ⟨hpos, hr, step_delSlave hpos, ?_, ?_, ?_, ?_, ⟨?_, ?_⟩,
        fun b hne => ?_⟩
      · exact hstep ▸ h.base
      · exact hstep ▸ h.alarm
      · have hslaves := (congrArg ControlNet.slaves hstep).symm
        rw [registry_of_links hlinks hslaves rfl, h.registry, delSlave_eq hr hpos]
        rfl
      · exact congrArg Link.thread hself
      · exact congrArg Link.toSlave hself
      · exact (congrArg Link.toMaster hself).trans h.toMaster
      · rw [links_of_ne hlinks hne]
        exact h.others b hne

/-- The answer is on its way, or has arrived. -/
theorem Answered.step (hchange : Change r request cmd a pos R) (hr : r.Agrees)
    (h : Answered R cmd a pos id s) {e : ControlEvent} (hstart : e.isStart = false)
    (hstep : s.step e = some t) :
    Answered R cmd a pos id t ∨
      (∃ r', r.step request = some r' ∧ Calling r' a .initialSlave none t) ∨
      (pos < R.slaves.num ∧ R.Agrees ∧ r.step request = some (R.delSlave (R.sock pos)) ∧
        Gone R (R.delSlave (R.sock pos)) pos t) := by
  have hslave : ∀ b, e.slave = some b → e ≠ .slaveReply a → Answered R cmd a pos id t := by
    intro b he hreply
    rcases eq_or_ne b a with rfl | hne
    · rw [step_of_asking he h.thread fun heq => absurd heq hreply] at hstep
      cases hstep
    · obtain ⟨thread, hmember, rfl⟩ :=
        step_of_member he (h.others b hne).member (h.others b hne).toSlave hstep
      have hself : (s.setLink b { s.links b with thread := thread }).links a = s.links a :=
        links_of_ne rfl hne.symm
      refine ⟨h.base, h.alarm, (registry_setLink ?_).trans h.registry, ?_, ?_, ?_,
        fun c hc => ?_⟩
      · rfl
      · rw [hself, h.thread]
      · rw [hself, h.toSlave]
      · rw [hself, h.toMaster]
      · exact quiet_setLink (h.others b hne) hmember (h.others c hc)
  cases e with
  | register | interrupt | tick => cases hstart
  | slaveRecv b | slaveHandle b | call b | endCalls b => exact Or.inl (hslave b rfl (by simp))
  | serve c b => exact Or.inl (hslave b rfl (by simp))
  | slaveReply b =>
      by_cases heq : b = a
      · subst heq
        exact Or.inr (h.reply hchange hr hstep)
      · exact Or.inl (hslave b rfl (by simpa using heq))
  | masterRecv b ip rand =>
      obtain ⟨-, -, p, rest, hqueue, -⟩ := step_masterRecv hstep
      rcases eq_or_ne b a with rfl | hne
      · rw [h.toMaster] at hqueue
        cases hqueue
      · rw [(h.others b hne).toMaster] at hqueue
        cases hqueue
  | notify | masterReply | finish => simp [ControlNet.step, h.base] at hstep
  | tickReply => simp [ControlNet.step, h.alarm] at hstep

/-- The slave has left; its predecessors go on. -/
theorem Gone.step (h : Gone R r pos s) {e : ControlEvent} (hstart : e.isStart = false)
    (hstep : s.step e = some t) : Gone R r pos t := by
  have hslave : ∀ b, e.slave = some b → Gone R r pos t := by
    intro b he
    rcases eq_or_ne b (R.sock pos) with rfl | hne
    · rw [step_of_idle he (Or.inr h.thread) h.empty.toSlave] at hstep
      cases hstep
    · obtain ⟨thread, hmember, rfl⟩ :=
        step_of_member he (h.others b hne).member (h.others b hne).toSlave hstep
      have hself : (s.setLink b { s.links b with thread := thread }).links (R.sock pos) =
          s.links (R.sock pos) := links_of_ne rfl hne.symm
      refine ⟨h.base, h.alarm, (registry_setLink ?_).trans h.registry, ?_, ?_, fun c hc => ?_⟩
      · rfl
      · rw [hself, h.thread]
      · rw [hself]
        exact h.empty
      · exact quiet_setLink (h.others b hne) hmember (h.others c hc)
  cases e with
  | register | interrupt | tick => cases hstart
  | slaveRecv b | slaveHandle b | call b | endCalls b | slaveReply b => exact hslave b rfl
  | serve c b => exact hslave b rfl
  | masterRecv b ip rand =>
      obtain ⟨-, -, p, rest, hqueue, -⟩ := step_masterRecv hstep
      rcases eq_or_ne b (R.sock pos) with rfl | hne
      · rw [h.empty.toMaster] at hqueue
        cases hqueue
      · rw [(h.others b hne).toMaster] at hqueue
        cases hqueue
  | notify | masterReply | finish => simp [ControlNet.step, h.base] at hstep
  | tickReply => simp [ControlNet.step, h.alarm] at hstep

end Round

section Calls

variable {r : Registry} {s t : ControlNet} {a : Int} {after : After} {alarm : Option Await}

theorem called_eq (s : ControlNet) (l : Link) (k : Int) (todo : List Int) (after : After) :
    ∃ thread, Caller l.slave after thread ∧
      s.called l k todo after = { l with thread := thread } := by
  unfold called
  split
  case h_1 => exact ⟨_, .calling todo, rfl⟩
  case h_2 b hpeer =>
      split
      case isTrue => exact ⟨_, .calling _, rfl⟩
      case isFalse => exact ⟨_, .waiting k todo (hisPos_of_peer hpeer), rfl⟩

/-- A step of the slave that calls. -/
theorem Calling.setThread (h : Calling r a after alarm s) {thread : Thread}
    (hcaller : Caller (s.links a).slave after thread) :
    Calling r a after alarm (s.setLink a { s.links a with thread := thread }) := by
  refine ⟨h.base, h.alarm, (registry_setLink ?_).trans h.registry, h.live, ?_, ?_,
    fun b hne => ?_⟩
  · rfl
  · rw [links_self rfl]
    exact ⟨h.empty.toSlave, h.empty.toMaster⟩
  · rw [links_self rfl]
    exact hcaller
  · rw [links_of_ne rfl hne]
    exact h.others b hne

/-- The next call, or the end of the calls. -/
theorem Calling.step (h : Calling r a after alarm s) {e : ControlEvent}
    (hstart : e.isStart = false) (hstep : s.step e = some t) :
    Calling r a after alarm t ∨ t = s.setLink a (returned (s.links a) after) := by
  have hqueue : ∀ b, (s.links b).toMaster = [] := by
    intro b
    rcases eq_or_ne b a with rfl | hne
    · exact h.empty.toMaster
    · exact (h.others b hne).toMaster
  have hself : ∀ b, e.slave = some b → b = a := by
    intro b he
    by_contra hne
    rw [step_of_isIdle (h.others b hne) he] at hstep
    cases hstep
  have hcaller := h.caller
  generalize hthread : (s.links a).thread = thread at hcaller
  cases e with
  | register | interrupt | tick => cases hstart
  | slaveRecv b | slaveHandle b | slaveReply b =>
      obtain rfl := hself b rfl
      cases hcaller <;> simp [ControlNet.step, hthread] at hstep
  | call b =>
      obtain rfl := hself b rfl
      cases hcaller with
      | waiting k todo hpeer => simp [ControlNet.step, hthread] at hstep
      | calling todo =>
          cases todo with
          | nil => simp [ControlNet.step, hthread] at hstep
          | cons k todo =>
              simp only [ControlNet.step, hthread, Option.some.injEq] at hstep
              obtain ⟨thread, hcaller, heq⟩ := called_eq s (s.links b) k todo after
              rw [heq] at hstep
              exact Or.inl (hstep ▸ h.setThread hcaller)
  | endCalls b =>
      obtain rfl := hself b rfl
      cases hcaller with
      | waiting k todo hpeer => simp [ControlNet.step, hthread] at hstep
      | calling todo =>
          cases todo with
          | nil =>
              simp only [ControlNet.step, hthread, Option.some.injEq] at hstep
              exact Or.inr hstep.symm
          | cons k todo => simp [ControlNet.step, hthread] at hstep
  | serve c b =>
      obtain rfl := hself b rfl
      cases hcaller with
      | calling todo => simp [ControlNet.step, hthread] at hstep
      | waiting k todo hpeer =>
          simp only [ControlNet.step, hthread, Option.ite_none_right_eq_some,
            Option.some.injEq] at hstep
          exact Or.inl (hstep.2 ▸ h.setThread (.calling todo))
  | masterRecv b ip rand =>
      obtain ⟨-, -, p, rest, hq, -⟩ := step_masterRecv hstep
      rw [hqueue] at hq
      cases hq
  | notify | masterReply | finish => simp [ControlNet.step, h.base] at hstep
  | tickReply =>
      simp only [ControlNet.step, hqueue] at hstep
      split at hstep <;> cases hstep

/-- `InitialSlave` returns. -/
theorem Calling.rest (h : Calling r a .initialSlave none s) :
    Rest r (s.setLink a (returned (s.links a) .initialSlave)) := by
  refine ⟨h.base, h.alarm, (registry_setLink ?_).trans h.registry, fun b => ?_⟩
  · rfl
  · rcases eq_or_ne b a with rfl | hne
    · rw [links_self rfl]
      exact ⟨⟨h.empty.toSlave, h.empty.toMaster⟩, fun _ => rfl, fun hdown =>
        absurd h.live hdown⟩
    · rw [links_of_ne rfl hne]
      exact h.others b hne

/-- The slave answers `UPDATE_BACKUP12`. -/
theorem Calling.ticking {id : Nat} (h : Calling r a (.updateBackup12 id) (some ⟨a, id⟩) s) :
    Ticking r a id (s.setLink a (returned (s.links a) (.updateBackup12 id))) := by
  refine ⟨h.base, h.alarm, (registry_setLink ?_).trans h.registry, h.live, ?_, fun b hne => ?_⟩
  · rfl
  · rw [links_self rfl]
    refine .answered _ ⟨.updateBackup12R, id⟩ rfl h.empty.toSlave ?_
    exact congrArg (· ++ _) h.empty.toMaster
  · rw [links_of_ne rfl hne]
    exact h.others b hne

/-- A tick, but for the calls. -/
theorem Ticking.step {id : Nat} (h : Ticking r a id s) {e : ControlEvent}
    (hstart : e.isStart = false) (hstep : s.step e = some t) :
    Ticking r a id t ∨ Calling r a (.updateBackup12 id) (some ⟨a, id⟩) t ∨ Rest r t := by
  have hself : ∀ b, e.slave = some b → b = a := by
    intro b he
    by_contra hne
    rw [step_of_isIdle (h.others b hne) he] at hstep
    cases hstep
  have hrefreshed := h.refreshed
  generalize hlink : s.links a = link at hrefreshed
  cases e with
  | register | interrupt | tick => cases hstart
  | slaveRecv b =>
      obtain rfl := hself b rfl
      cases hrefreshed with
      | sent hthread htoSlave htoMaster =>
          simp only [ControlNet.step, hlink, hthread, htoSlave, Option.some.injEq] at hstep
          have hlinks := (congrArg ControlNet.links hstep).symm
          have hslaves := (congrArg ControlNet.slaves hstep).symm
          have hself := links_self hlinks
          refine Or.inl ⟨?_, ?_, ?_, h.live, .handling _ ?_ ⟨?_, ?_⟩, fun c hne => ?_⟩
          · exact hstep ▸ h.base
          · exact hstep ▸ h.alarm
          · refine (registry_of_links hlinks hslaves ?_).trans h.registry
            exact (congrArg Link.slave hlink).symm
          · exact congrArg Link.thread hself
          · exact congrArg Link.toSlave hself
          · exact (congrArg Link.toMaster hself).trans htoMaster
          · rw [links_of_ne hlinks hne]
            exact h.others c hne
      | handling hthread _ => simp [ControlNet.step, hlink, hthread] at hstep
      | answered p hthread htoSlave _ =>
          simp [ControlNet.step, hlink, hthread, htoSlave] at hstep
  | slaveHandle b =>
      obtain rfl := hself b rfl
      cases hrefreshed with
      | sent hthread _ _ => simp [ControlNet.step, hlink, hthread] at hstep
      | answered p hthread _ _ => simp [ControlNet.step, hlink, hthread] at hstep
      | handling hthread hempty =>
          simp only [ControlNet.step, hlink, hthread, handled, Option.some.injEq] at hstep
          have hlinks := (congrArg ControlNet.links hstep).symm
          have hslaves := (congrArg ControlNet.slaves hstep).symm
          have hself := links_self hlinks
          refine Or.inr (Or.inl ⟨?_, ?_, ?_, h.live, ⟨?_, ?_⟩, ?_, fun c hne => ?_⟩)
          · exact hstep ▸ h.base
          · exact hstep ▸ h.alarm
          · refine (registry_of_links hlinks hslaves ?_).trans h.registry
            exact (congrArg Link.slave hlink).symm
          · exact (congrArg Link.toSlave hself).trans hempty.toSlave
          · exact (congrArg Link.toMaster hself).trans hempty.toMaster
          · rw [hself]
            exact .calling _
          · rw [links_of_ne hlinks hne]
            exact h.others c hne
  | call b | endCalls b | slaveReply b =>
      obtain rfl := hself b rfl
      cases hrefreshed <;> simp_all [ControlNet.step]
  | serve c b =>
      obtain rfl := hself b rfl
      cases hrefreshed <;> simp_all [ControlNet.step]
  | masterRecv b ip rand =>
      have halarm := (step_masterRecv hstep).2.1
      rw [h.alarm] at halarm
      cases halarm
  | notify | masterReply | finish => simp [ControlNet.step, h.base] at hstep
  | tickReply =>
      simp only [ControlNet.step, h.alarm, hlink] at hstep
      cases hrefreshed with
      | sent _ _ htoMaster => simp [htoMaster] at hstep
      | handling _ hempty => simp [hempty.toMaster] at hstep
      | answered p hthread htoSlave htoMaster =>
          simp only [htoMaster, Option.some.injEq] at hstep
          have hlinks := (congrArg ControlNet.links hstep).symm
          have hslaves := (congrArg ControlNet.slaves hstep).symm
          have hself := links_self hlinks
          refine Or.inr (Or.inr ⟨?_, ?_, ?_, fun b => ?_⟩)
          · exact hstep ▸ h.base
          · exact hstep ▸ rfl
          · refine (registry_of_links hlinks hslaves ?_).trans h.registry
            exact (congrArg Link.slave hlink).symm
          · rcases eq_or_ne b a with rfl | hne
            · rw [hself]
              exact ⟨⟨htoSlave, rfl⟩, fun _ => hthread, fun hdown => absurd h.live hdown⟩
            · rw [links_of_ne hlinks hne]
              exact h.others b hne

end Calls

end ControlNet

end DistributedDB
