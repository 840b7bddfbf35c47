import DistributedDB.ControlPhases
import DistributedDB.Library.Potential
import DistributedDB.ReplyMatching
import DistributedDB.RingInvariant

/-!
# The control protocol comes to rest

Whatever overlaps on the control sockets, also when replies are taken for requests or
assertions fail, the processes do not exchange packets for ever.  Only a registration, a
departure and a tick bring in work: a departure one notification for each slave in the
list, a registration the calls of `InitialSlave` as well, and a tick one exchange with two
calls.

**Results.**
* `ControlNet.Owes.step`: every step is paid for.
* `ControlNet.length_le_of_run`: the length of a run is bounded by its registrations,
  departures and ticks.
-/

namespace DistributedDB

open Run Potential

/-- The steps that a slave takes for a packet of the master after it has received it. -/
def ControlMsg.work : ControlMsg → Nat
  | rmSlave _ => 4
  | updateBackup12 => 6
  | _ => 1

/-- The steps that a packet at the master leads to: a request is a round of `NotifyAll`
with at most seven steps for each node, and an answer. -/
def ControlMsg.masterWork : ControlMsg → Nat
  | addSlave _ | delSlave _ => 7 * MAX_SLAVE_NUM + 4
  | _ => 0

/-- The steps before a slave is in its main loop, or down. -/
def Thread.work : Thread → Nat
  | registering _ => 8
  | handling p => p.msg.work
  | calling todo _ => 2 * todo.length + 1
  | waiting _ todo _ => 2 * todo.length + 2
  | down | loop | leaving _ | aborted => 0

def Link.work (l : Link) : Nat :=
  l.thread.work + (l.toSlave.map fun p => p.msg.work + 1).sum +
    (l.toMaster.map fun p => p.msg.masterWork).sum

/-- What an event brings in. -/
def ControlEvent.budget : ControlEvent → Nat
  | register _ _ => 7 * MAX_SLAVE_NUM + 13
  | interrupt _ => 7 * MAX_SLAVE_NUM + 5
  | tick => 9
  | _ => 0

namespace ControlNet

/-- The steps that are left of `NotifyAll` for a list of length `num`, and the answer. -/
def roundWork (base : Option Notifying) (num : Nat) : Nat :=
  match base with
  | some r =>
      match r.sent with
      | none => 7 * (num - r.i) + 3
      | some _ => 7 * (num - (r.i + 1)) + 4
  | none => 0

/-- The end of `UpdateBackup`. -/
def alarmWork (alarm : Option Await) : Nat :=
  if alarm.isSome then 1 else 0

/-- The work that is left at the master. -/
def masterWork (s : ControlNet) : Nat :=
  roundWork s.base s.slaves.num + alarmWork s.alarm

/-- The work that is left in all parts of the system. -/
structure Owes (s : ControlNet) (k : Nat) : Prop where
  num : s.slaves.num ≤ MAX_SLAVE_NUM
  total : ∃ n, Total (Link.work ∘ s.links) n ∧ k = n + s.masterWork

theorem owes_init : init.Owes 0 where
  num := Nat.zero_le _
  total := ⟨0, total_zero, rfl⟩

section Steps

variable {s t : ControlNet} {k : Nat}

/-- A step at one socket, and at the master, that takes away some work. -/
theorem Owes.of_link (h : s.Owes k) {a : Int} {l : Link}
    (hlinks : t.links = Function.update s.links a l) (hnum : t.slaves.num ≤ MAX_SLAVE_NUM)
    {c : Nat}
    (hwork : l.work + t.masterWork + 1 ≤ (s.links a).work + s.masterWork + c) :
    ∃ k', t.Owes k' ∧ k' + 1 ≤ k + c := by
  obtain ⟨n, hn, rfl⟩ := h.total
  obtain ⟨n', hn', hsum⟩ := hn.update a l.work
  rw [← Function.comp_update, ← hlinks] at hn'
  refine ⟨_, ⟨hnum, n', hn', rfl⟩, ?_⟩
  rw [Function.comp_apply] at hsum
  omega

/-- A step of a slave alone. -/
theorem Owes.of_slave (h : s.Owes k) {a : Int} {l : Link} (hwork : l.work + 1 ≤ (s.links a).work)
    (c : Nat) : ∃ k', (s.setLink a l).Owes k' ∧ k' + 1 ≤ k + c := by
  refine h.of_link rfl ?_ ?_
  · exact h.num
  · simp only [masterWork, ControlNet.setLink]
    omega

/-- A step of the master alone. -/
theorem Owes.of_master (h : s.Owes k) (hlinks : t.links = s.links)
    (hnum : t.slaves.num ≤ MAX_SLAVE_NUM)
    {c : Nat} (hwork : t.masterWork + 1 ≤ s.masterWork + c) :
    ∃ k', t.Owes k' ∧ k' + 1 ≤ k + c := by
  obtain ⟨n, hn, rfl⟩ := h.total
  refine ⟨_, ⟨hnum, n, hlinks ▸ hn, rfl⟩, ?_⟩
  omega

/-- `HandleMasterRequest` does a part of the work for its packet. -/
theorem work_handled {l : Link} {p : ControlPacket} (hthread : l.thread = .handling p) :
    (handled l p).work + 1 ≤ l.work := by
  unfold handled
  cases hmsg : p.msg with
  | rmSlave pos =>
      have hcalls : (rmCalls (l.slave.rmSlave pos) pos).length ≤ 1 := by
        unfold rmCalls
        split <;> decide
      simp only [Link.work, hthread, Thread.work, hmsg, ControlMsg.work, List.map_append,
        List.map_cons, List.map_nil, List.sum_append, List.sum_cons, List.sum_nil,
        ControlMsg.masterWork]
      omega
  | _ =>
      simp [Link.work, hthread, Thread.work, hmsg, ControlMsg.work, ControlMsg.masterWork]

theorem work_called (s : ControlNet) {l : Link} {k : Int} {todo : List Int} {after : After}
    (hthread : l.thread = .calling (k :: todo) after) :
    (s.called l k todo after).work + 1 ≤ l.work := by
  unfold called
  split
  case h_1 =>
      simp only [Link.work, hthread, Thread.work, List.length_cons]
      omega
  case h_2 b hpeer =>
      split
      case isTrue =>
          have hlength : (if k = -1 then [] else todo).length ≤ todo.length := by
            split
            · exact Nat.zero_le _
            · exact le_rfl
          simp only [Link.work, hthread, Thread.work, List.length_cons]
          omega
      case isFalse =>
          simp only [Link.work, hthread, Thread.work, List.length_cons]
          omega

theorem work_returned {l : Link} {after : After} (hthread : l.thread = .calling [] after) :
    (returned l after).work + 1 ≤ l.work := by
  cases after <;>
    simp [returned, Link.work, hthread, Thread.work, ControlMsg.masterWork]

/-- The calls of `InitialSlave` are paid for by the registration. -/
theorem work_registered {l : Link} {p : ControlPacket} {rest : List ControlPacket} {id : Nat}
    (hthread : l.thread = .registering id) (hqueue : l.toSlave = p :: rest) :
    (registered { l with toSlave := rest } p).work + 1 ≤ l.work := by
  unfold registered
  cases hmsg : p.msg with
  | addSlaveR pos slaves =>
      have hcalls : (initialCalls slaves.num).length ≤ 4 := by
        unfold initialCalls
        split <;> split <;> decide
      simp only [Link.work, hthread, hqueue, Thread.work, List.map_cons, List.sum_cons, hmsg,
        ControlMsg.work]
      omega
  | _ =>
      simp only [Link.work, hthread, hqueue, Thread.work, List.map_cons, List.sum_cons]
      omega

theorem work_left {l : Link} {p : ControlPacket} {rest : List ControlPacket} {id : Nat}
    (hthread : l.thread = .leaving id) (hqueue : l.toSlave = p :: rest) :
    (left { l with toSlave := rest } p).work + 1 ≤ l.work := by
  unfold left
  split <;>
  · simp only [Link.work, hthread, hqueue, Thread.work, List.map_cons, List.sum_cons]
    omega

/-- The beginning of a round: the request pays for all of it. -/
theorem Owes.beginRequest (h : s.Owes k) {a ip : Int} {rand : Nat} {p : ControlPacket}
    {rest : List ControlPacket} (hbase : s.base = none) (hqueue : (s.links a).toMaster = p :: rest)
    (hstep : (s.setLink a { s.links a with toMaster := rest }).beginRequest a ip rand p = some t) :
    ∃ k', t.Owes k' ∧ k' + 1 ≤ k + 0 := by
  have hnum := h.num
  unfold ControlNet.beginRequest at hstep
  cases hmsg : p.msg with
  | addSlave port =>
      rw [hmsg] at hstep
      simp only [Option.ite_none_right_eq_some, Option.some.injEq] at hstep
      obtain ⟨hmax, rfl⟩ := hstep
      have hnum' := (num_addToSlaveList s.slaves ⟨ip, port, a, 0⟩ rand).trans_le hmax
      refine h.of_link rfl hnum' ?_
      simp only [Link.work, hqueue, List.map_cons, List.sum_cons, hmsg, ControlMsg.masterWork,
        masterWork, roundWork, hbase, setLink]
      omega
  | delSlave pos =>
      rw [hmsg] at hstep
      obtain rfl := Option.some.inj hstep
      refine h.of_link rfl ?_ ?_
      · exact hnum
      · simp only [Link.work, hqueue, List.map_cons, List.sum_cons, hmsg, ControlMsg.masterWork,
          masterWork, roundWork, hbase, setLink]
        omega
  | _ =>
      rw [hmsg] at hstep
      cases hstep

/-- A notification is handled in four steps at most. -/
theorem work_notice (s : ControlNet) (r : Notifying) : (s.notice r).work ≤ 4 := by
  unfold notice
  split
  · exact (by decide : 1 ≤ 4)
  · exact le_rfl

/-- The list does not grow with an answer, which is received in one step. -/
theorem work_answer (hnum : s.slaves.num ≤ MAX_SLAVE_NUM) (r : Notifying) :
    (s.answer r).1.num ≤ MAX_SLAVE_NUM ∧ (s.answer r).2.work = 1 := by
  unfold answer
  split
  · exact ⟨hnum, rfl⟩
  · exact ⟨(Nat.sub_le _ _).trans hnum, rfl⟩

/-- A packet more in a queue. -/
theorem sum_append_singleton (xs : List ControlPacket) (p : ControlPacket)
    (f : ControlPacket → Nat) : ((xs ++ [p]).map f).sum = (xs.map f).sum + f p := by
  simp

/-- **A step of the master is paid for**: of its loop, or of `UpdateBackup`. -/
theorem Owes.masterStep (h : s.Owes k) {e : ControlEvent} (hslave : e.slave = none)
    (hstart : e.isRequest = false) (hstep : s.Transition e t) :
    ∃ k', t.Owes k' ∧ k' + 1 ≤ k + e.budget := by
  have hnum := h.num
  cases hstep with
  | masterRecv a ip rand p rest t hbase halarm hqueue hbegin =>
      exact h.beginRequest hbase hqueue hbegin
  | skip r hbase halarm hsent hlt hself =>
      refine h.of_master ?_ ?_ ?_
      · rfl
      · exact hnum
      · simp only [masterWork, roundWork, hbase, hsent]
        omega
  | notify r hbase halarm hsent hlt hother =>
      refine h.of_link rfl ?_ ?_
      · exact hnum
      · have hnotice := work_notice s r
        simp only [Link.work, masterWork, roundWork, hbase, hsent, request, setLink,
          sum_append_singleton]
        omega
  | masterReply r id p rest hbase halarm hsent hqueue =>
      refine h.of_link rfl ?_ ?_
      · exact hnum
      · simp only [Link.work, hqueue, masterWork, roundWork, hbase, hsent, setLink,
          List.map_cons, List.sum_cons]
        omega
  | finish r hbase halarm hsent hi =>
      obtain ⟨hlist, hanswer⟩ := work_answer hnum r
      refine h.of_link rfl ?_ ?_
      · exact hlist
      · simp only [Link.work, hanswer, masterWork, roundWork, hbase, hsent, setLink,
          sum_append_singleton]
        omega
  | tick halarm hpos =>
      refine h.of_link rfl ?_ ?_
      · exact hnum
      · simp only [Link.work, ControlMsg.work, masterWork, halarm, alarmWork, request, setLink,
          ControlEvent.budget, sum_append_singleton, Option.isSome_some, Option.isSome_none,
          if_true]
        omega
  | tickReply w p rest halarm hqueue =>
      refine h.of_link rfl ?_ ?_
      · exact hnum
      · simp [Link.work, hqueue, masterWork, alarmWork, halarm, setLink]
        omega
  | register | interrupt => cases hstart
  | slaveRecv | slaveHandle | call | serve | endCalls | registered | left => cases hslave

/-- **A step of a slave is paid for.** -/
theorem Owes.slaveStep (h : s.Owes k) {e : ControlEvent}
    (hslave : e.slave ≠ none ∨ e.isRequest = true) (hstep : s.Transition e t) :
    ∃ k', t.Owes k' ∧ k' + 1 ≤ k + e.budget := by
  have hnum := h.num
  cases hstep with
  | register a port hdown =>
      refine h.of_link rfl ?_ ?_
      · exact hnum
      · simp [Link.work, hdown, Thread.work, ControlMsg.masterWork, masterWork, setLink,
          ControlEvent.budget]
        omega
  | interrupt a hthread =>
      refine h.of_link rfl ?_ ?_
      · exact hnum
      · simp only [Link.work, Thread.work, ControlMsg.masterWork, masterWork, setLink,
          ControlEvent.budget, sum_append_singleton]
        omega
  | slaveRecv a p rest hthread hqueue =>
      refine h.of_slave ?_ _
      simp only [Link.work, hthread, hqueue, Thread.work, List.map_cons, List.sum_cons]
      omega
  | slaveHandle a p hthread => exact h.of_slave (work_handled hthread) _
  | call a j todo after hthread => exact h.of_slave (work_called s hthread) _
  | serve b a j todo after hthread hloop hpeer =>
      refine h.of_slave ?_ _
      simp only [Link.work, hthread, Thread.work]
      omega
  | endCalls a after hthread => exact h.of_slave (work_returned hthread) _
  | registered a id p rest hthread hqueue =>
      refine h.of_link rfl ?_ ?_
      · exact hnum
      · have hwork := work_registered hthread hqueue
        simp only [masterWork, slaveReturned, setLink]
        omega
  | left a id p rest hthread hqueue =>
      refine h.of_link rfl ?_ ?_
      · exact hnum
      · have hwork := work_left hthread hqueue
        simp only [masterWork, slaveReturned, setLink]
        omega
  | masterRecv | skip | notify | masterReply | finish | tick | tickReply =>
      rcases hslave with hslave | hslave
      · exact absurd rfl hslave
      · cases hslave

/-- **Every step is paid for.** -/
theorem Owes.step (h : s.Owes k) {e : ControlEvent} (hstep : s.step e = some t) :
    ∃ k', t.Owes k' ∧ k' + 1 ≤ k + e.budget := by
  have htransition := transition_of_step hstep
  by_cases hslave : e.slave ≠ none ∨ e.isRequest = true
  · exact h.slaveStep hslave htransition
  · rw [not_or, not_not, Bool.not_eq_true] at hslave
    exact h.masterStep hslave.1 hslave.2 htransition

end Steps

/-- **The control protocol comes to rest.**  Every run, whatever overlaps in it, has at most
as many steps as its registrations, departures and ticks bring in: 237, 229 and 9 each. -/
theorem length_le_of_run {t : ControlNet} {es : List ControlEvent}
    (hrun : run ControlNet.step ControlNet.init es = some t) :
    es.length ≤ (es.map ControlEvent.budget).sum := by
  obtain ⟨k', -, hlength⟩ : ∃ k', t.Owes k' ∧
      k' + es.length ≤ 0 + (es.map ControlEvent.budget).sum :=
    length_add_le (fun _ _ _ _ hs hstep => hs.step hstep) hrun owes_init
  omega

/-- Also a run that loses a `DEL_SLAVE` is paid for. -/
theorem length_le_of_run_crossing :
    ∃ t, run ControlNet.step ControlNet.init crossingRun = some t ∧ crossingRun.length = 12 ∧
      crossingRun.length ≤ (crossingRun.map ControlEvent.budget).sum := by
  have hmap : (run ControlNet.step ControlNet.init crossingRun).map ControlNet.sent = some 4 := by
    decide +kernel
  obtain ⟨t, hrun, -⟩ := Option.map_eq_some_iff.mp hmap
  exact ⟨t, hrun, rfl, length_le_of_run hrun⟩

end ControlNet
end DistributedDB
