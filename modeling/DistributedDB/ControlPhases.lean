import DistributedDB.ControlSockets
import DistributedDB.Membership

/-!
# Where an operation on the control sockets is

The states of the master, the slaves and their sockets while one operation is going on: a
registration, a departure or a tick.  Each phase says of every socket what is on its way
there and where the thread of the slave is, and what has become of the lists of
`Membership`.

A departure is the only operation in which several slaves are busy at a time: the
predecessors of the slave that leaves call another slave each, while the master notifies the
others or has finished.

**Results.**
* `ControlNet.Phase`: the phases.
* `Change.sock_inj`, `live_addToSlaveList`, `live_delSlave`: the sockets during a change of
  the list and after it.
* `ControlNet.step_of_member`: what a slave does that has not asked for anything.
-/

namespace DistributedDB

open RingIndex Run

/-- The slave whose main thread takes the step. -/
def ControlEvent.slave : ControlEvent → Option Int
  | slaveRecv a | slaveHandle a | call a | serve _ a | endCalls a | slaveReply a => some a
  | _ => none

/-- What happens from outside: a slave is started or interrupted, the alarm goes off. -/
def ControlEvent.isStart : ControlEvent → Bool
  | register _ _ | interrupt _ | tick => true
  | _ => false

/-- The events that ask for a change of the list. -/
def ControlEvent.isRequest : ControlEvent → Bool
  | register _ _ | interrupt _ => true
  | _ => false

/-- The event that starts a request. -/
def MasterRequest.start : MasterRequest → ControlEvent
  | addSlave sock _ port _ => .register sock port
  | delSlave sock => .interrupt sock

/-- The thread of the slave that has sent a request of this kind. -/
def askThread (cmd : RoundCmd) (id : Nat) : Thread :=
  match cmd with
  | .add => .registering id
  | .del => .leaving id

/-- The notification that goes with a request. -/
def RoundCmd.notice : RoundCmd → Notice
  | add => .newSlave
  | del => .rmSlave

/-- The packets of a round: the notification and the answer. -/
def RoundCmd.notification (cmd : RoundCmd) (pos : Nat) (slaves : SlaveList) : ControlMsg :=
  match cmd with
  | add => .newSlave pos (slaves.node pos)
  | del => .rmSlave pos

def RoundCmd.answer (cmd : RoundCmd) (pos : Nat) (slaves : SlaveList) : ControlMsg :=
  match cmd with
  | add => .addSlaveR pos slaves
  | del => .delSlaveR

/-- The registry when the master has answered. -/
def RoundCmd.outcome (cmd : RoundCmd) (pos : Nat) (R : Registry) : Registry :=
  match cmd with
  | add => R.notifyAll pos .newSlave
  | del => { R.notifyAll pos .rmSlave with slaves := delFromSlaveList R.slaves pos }

/-- Nothing is on its way on the socket. -/
structure Link.Empty (l : Link) : Prop where
  toSlave : l.toSlave = []
  toMaster : l.toMaster = []

/-- The slave has nothing to do. -/
structure Link.Still (l : Link) : Prop extends l.Empty where
  thread : l.thread = .loop ∨ l.thread = .down

namespace ControlNet

/-- The master's list and the slave processes. -/
def registry (s : ControlNet) : Registry where
  slaves := s.slaves
  procs := fun a => (s.links a).slave

/-- Nothing is going on. -/
structure AtRest (s : ControlNet) : Prop where
  base : s.base = none
  alarm : s.alarm = none
  links : ∀ a, (s.links a).Still

/-- The condition on a step: an operation starts only when nothing is going on, and a slave
registers only when there is room for it. -/
def StartsAtRest (s : ControlNet) : ControlEvent → Prop
  | .register _ _ => s.AtRest ∧ s.slaves.num < MAX_SLAVE_NUM
  | .interrupt _ | .tick => s.AtRest
  | _ => True

end ControlNet

/-- A slave that is up is in its main loop, another one is down; nothing is on its way. -/
structure Idle (r : Registry) (b : Int) (l : Link) : Prop extends l.Empty where
  up : r.Live b → l.thread = .loop
  down : ¬ r.Live b → l.thread = .down

/-- The slave has handled the notification `RM_SLAVE(pos)`, when the first `n` nodes have. -/
structure Removed (r : Registry) (cmd : RoundCmd) (pos n : Nat) (b : Int) : Prop where
  cmd_eq : cmd = .del
  told : ∃ j, j < n ∧ j < r.slaves.num ∧ j ≠ pos ∧ r.sock j = b

/-- Where the thread of a slave is that has not asked for anything, when the first `n`
nodes have been notified.  After `RM_SLAVE` the predecessors of the slave that leaves call
another slave. -/
inductive Member (r : Registry) (cmd : RoundCmd) (pos n : Nat) (b : Int) (slave : Slave) :
    Thread → Prop where
  | down (hb : ¬ r.Live b) : Member r cmd pos n b slave .down
  | loop (hb : r.Live b) : Member r cmd pos n b slave .loop
  | called (hb : Removed r cmd pos n b) : Member r cmd pos n b slave (.calling [] .rmSlave)
  | calls (hb : Removed r cmd pos n b)
      (hpre : slave.isPredecessor pos || slave.isSecondPredecessor pos) :
      Member r cmd pos n b slave (.calling [2] .rmSlave)
  | waits (hb : Removed r cmd pos n b)
      (hpre : slave.isPredecessor pos || slave.isSecondPredecessor pos)
      (hpeer : slave.hisPos 2 ≠ none) :
      Member r cmd pos n b slave (.waiting 2 [] .rmSlave)

/-- A slave that has not asked for anything, with an empty socket. -/
structure Quiet (r : Registry) (cmd : RoundCmd) (pos n : Nat) (b : Int) (l : Link) : Prop
    extends l.Empty where
  member : Member r cmd pos n b l.slave l.thread

/-- A request of the slave at `a` for a change of the list at `pos`.  `r` is the list with
the processes before it, `R` in the loop of `NotifyAll`. -/
inductive Change (r : Registry) :
    MasterRequest → RoundCmd → Int → Nat → Registry → Prop where
  | add (a ip port : Int) (rand : Nat) (hmax : r.slaves.num < MAX_SLAVE_NUM)
      (hfresh : ¬ r.Live a) :
      Change r (.addSlave a ip port rand) .add a
        (addToSlaveList r.slaves ⟨ip, port, a, 0⟩ rand).2
        { r with slaves := (addToSlaveList r.slaves ⟨ip, port, a, 0⟩ rand).1 }
  | del (pos : Nat) (hpos : pos < r.slaves.num) :
      Change r (.delSlave (r.sock pos)) .del (r.sock pos) pos r

/-- What a slave sends for a change, and the event that makes it do so. -/
inductive Asks (r : Registry) : RoundCmd → Int → ControlMsg → ControlEvent → Prop where
  | add (a port : Int) (hmax : r.slaves.num < MAX_SLAVE_NUM) (hfresh : ¬ r.Live a) :
      Asks r .add a (.addSlave port) (.register a port)
  | del (pos : Nat) (hpos : pos < r.slaves.num) :
      Asks r .del (r.sock pos) (.delSlave pos) (.interrupt (r.sock pos))

/-- The slave at the index of the loop: the notification is on its way to it, it is handling
it, or it has answered.  The first number counts the nodes that have been notified. -/
inductive Notified (R : Registry) (cmd : RoundCmd) (pos i id : Nat) (b : Int) :
    Nat → Link → Prop where
  | sent (l : Link) (hthread : l.thread = .loop)
      (htoSlave : l.toSlave = [⟨cmd.notification pos R.slaves, id⟩])
      (htoMaster : l.toMaster = []) :
      Notified R cmd pos i id b i l
  | handling (l : Link) (hthread : l.thread = .handling ⟨cmd.notification pos R.slaves, id⟩)
      (hempty : l.Empty) : Notified R cmd pos i id b i l
  | replied (l : Link) (p : ControlPacket) (hmember : Member R cmd pos (i + 1) b l.slave l.thread)
      (htoSlave : l.toSlave = []) (htoMaster : l.toMaster = [p]) :
      Notified R cmd pos i id b (i + 1) l

/-- A slave that calls other slaves one after the other. -/
inductive Caller (slave : Slave) (after : After) : Thread → Prop where
  | calling (todo : List Int) : Caller slave after (.calling todo after)
  | waiting (k : Int) (todo : List Int) (hpeer : slave.hisPos k ≠ none) :
      Caller slave after (.waiting k todo after)

/-- The slave that the tick is for, before and after its calls. -/
inductive Refreshed (id : Nat) : Link → Prop where
  | sent (l : Link) (hthread : l.thread = .loop)
      (htoSlave : l.toSlave = [⟨.updateBackup12, id⟩]) (htoMaster : l.toMaster = []) :
      Refreshed id l
  | handling (l : Link) (hthread : l.thread = .handling ⟨.updateBackup12, id⟩)
      (hempty : l.Empty) : Refreshed id l
  | answered (l : Link) (p : ControlPacket) (hthread : l.thread = .loop)
      (htoSlave : l.toSlave = []) (htoMaster : l.toMaster = [p]) : Refreshed id l

namespace ControlNet

/-- Between two operations. -/
structure Rest (r : Registry) (s : ControlNet) : Prop where
  base : s.base = none
  alarm : s.alarm = none
  registry : s.registry = r
  links : ∀ b, Idle r b (s.links b)

/-- The request of the slave at `a` is on its way. -/
structure Asked (r : Registry) (cmd : RoundCmd) (a : Int) (id : Nat) (msg : ControlMsg)
    (s : ControlNet) : Prop where
  base : s.base = none
  alarm : s.alarm = none
  registry : s.registry = r
  thread : (s.links a).thread = askThread cmd id
  toSlave : (s.links a).toSlave = []
  toMaster : (s.links a).toMaster = [⟨msg, id⟩]
  others : ∀ b, b ≠ a → Idle r b (s.links b)

/-- The loop of `NotifyAll` at index `i`, when the first `n` nodes have been notified. -/
structure Notifies (R : Registry) (cmd : RoundCmd) (a : Int) (pos id i n : Nat)
    (sent : Option Nat) (s : ControlNet) : Prop where
  base : s.base = some ⟨a, id, cmd, pos, i, sent⟩
  alarm : s.alarm = none
  registry : s.registry = (List.range n).foldl (Registry.notify pos cmd.notice) R
  thread : (s.links a).thread = askThread cmd id
  empty : (s.links a).Empty

/-- Between two iterations of the loop. -/
structure Looping (R : Registry) (cmd : RoundCmd) (a : Int) (pos id i : Nat)
    (s : ControlNet) : Prop extends Notifies R cmd a pos id i i none s where
  le_num : i ≤ R.slaves.num
  others : ∀ b, b ≠ a → Quiet R cmd pos i b (s.links b)

/-- In an iteration of the loop. -/
structure Telling (R : Registry) (cmd : RoundCmd) (a : Int) (pos id i n id' : Nat)
    (s : ControlNet) : Prop extends Notifies R cmd a pos id i n (some id') s where
  lt_num : i < R.slaves.num
  ne_pos : i ≠ pos
  notified : Notified R cmd pos i id' (R.sock i) n (s.links (R.sock i))
  others : ∀ b, b ≠ a → b ≠ R.sock i → Quiet R cmd pos i b (s.links b)

/-- The answer is on its way to the slave at `a`. -/
structure Answered (R : Registry) (cmd : RoundCmd) (a : Int) (pos id : Nat) (s : ControlNet) :
    Prop where
  base : s.base = none
  alarm : s.alarm = none
  registry : s.registry = cmd.outcome pos R
  thread : (s.links a).thread = askThread cmd id
  toSlave : (s.links a).toSlave = [⟨cmd.answer pos R.slaves, id⟩]
  toMaster : (s.links a).toMaster = []
  others : ∀ b, b ≠ a → Quiet R cmd pos R.slaves.num b (s.links b)

/-- The slave at `a` calls other slaves, in `InitialSlave` or for a tick. -/
structure Calling (r : Registry) (a : Int) (after : After) (alarm : Option Await)
    (s : ControlNet) : Prop where
  base : s.base = none
  alarm : s.alarm = alarm
  registry : s.registry = r
  live : r.Live a
  empty : (s.links a).Empty
  caller : Caller (s.links a).slave after (s.links a).thread
  others : ∀ b, b ≠ a → Idle r b (s.links b)

/-- The slave at `pos` is gone; its predecessors may still be calling.  `R` is the list with
the processes before it left. -/
structure Gone (R r : Registry) (pos : Nat) (s : ControlNet) : Prop where
  base : s.base = none
  alarm : s.alarm = none
  registry : s.registry = r
  thread : (s.links (R.sock pos)).thread = .down
  empty : (s.links (R.sock pos)).Empty
  others : ∀ b, b ≠ R.sock pos → Quiet R .del pos R.slaves.num b (s.links b)

/-- A tick, before and after the calls of the slave that it is for. -/
structure Ticking (r : Registry) (a : Int) (id : Nat) (s : ControlNet) : Prop where
  base : s.base = none
  alarm : s.alarm = some ⟨a, id⟩
  registry : s.registry = r
  live : r.Live a
  refreshed : Refreshed id (s.links a)
  others : ∀ b, b ≠ a → Idle r b (s.links b)

/-- Where an operation is.  The changes that are over have led to the registry, and the last
argument but one is the start of a change that is not over. -/
inductive Phase : Registry → List ControlEvent → ControlNet → Prop where
  | rest {r : Registry} {s : ControlNet} (h : Rest r s) : Phase r [] s
  | asked {r : Registry} {s : ControlNet} {cmd : RoundCmd} {a : Int} {id : Nat} {msg : ControlMsg}
      {e : ControlEvent} (hasks : Asks r cmd a msg e) (h : Asked r cmd a id msg s) : Phase r [e] s
  | looping {r R : Registry} {s : ControlNet} {request : MasterRequest} {cmd : RoundCmd} {a : Int}
      {pos id i : Nat} (hchange : Change r request cmd a pos R)
      (h : Looping R cmd a pos id i s) : Phase r [request.start] s
  | telling {r R : Registry} {s : ControlNet} {request : MasterRequest} {cmd : RoundCmd} {a : Int}
      {pos id i n id' : Nat} (hchange : Change r request cmd a pos R)
      (h : Telling R cmd a pos id i n id' s) : Phase r [request.start] s
  | answered {r R : Registry} {s : ControlNet} {request : MasterRequest} {cmd : RoundCmd}
      {a : Int} {pos id : Nat} (hchange : Change r request cmd a pos R)
      (h : Answered R cmd a pos id s) : Phase r [request.start] s
  | joining {r : Registry} {s : ControlNet} {a : Int} (h : Calling r a .initialSlave none s) :
      Phase r [] s
  | gone {R r : Registry} {s : ControlNet} {pos : Nat} (hpos : pos < R.slaves.num)
      (hagrees : R.Agrees) (hr : r = R.delSlave (R.sock pos)) (h : Gone R r pos s) : Phase r [] s
  | ticking {r : Registry} {s : ControlNet} {a : Int} {id : Nat} (h : Ticking r a id s) :
      Phase r [] s
  | refreshing {r : Registry} {s : ControlNet} {a : Int} {id : Nat}
      (h : Calling r a (.updateBackup12 id) (some ⟨a, id⟩) s) : Phase r [] s

end ControlNet

theorem Removed.live {r : Registry} {cmd : RoundCmd} {pos n : Nat} {b : Int}
    (h : Removed r cmd pos n b) : r.Live b := by
  obtain ⟨j, -, hj, -, rfl⟩ := h.told
  exact ⟨j, hj, rfl⟩

theorem Removed.mono {r : Registry} {cmd : RoundCmd} {pos n m : Nat} {b : Int}
    (h : Removed r cmd pos n b) (hle : n ≤ m) : Removed r cmd pos m b := by
  obtain ⟨j, hj, hrest⟩ := h.told
  exact ⟨h.cmd_eq, j, hj.trans_le hle, hrest⟩

theorem Member.mono {r : Registry} {cmd : RoundCmd} {pos n m : Nat} {b : Int} {slave : Slave}
    {thread : Thread} (h : Member r cmd pos n b slave thread) (hle : n ≤ m) :
    Member r cmd pos m b slave thread := by
  cases h with
  | down hb => exact .down hb
  | loop hb => exact .loop hb
  | called hb => exact .called (hb.mono hle)
  | calls hb hpre => exact .calls (hb.mono hle) hpre
  | waits hb hpre hpeer => exact .waits (hb.mono hle) hpre hpeer

theorem Quiet.mono {r : Registry} {cmd : RoundCmd} {pos n m : Nat} {b : Int} {l : Link}
    (h : Quiet r cmd pos n b l) (hle : n ≤ m) : Quiet r cmd pos m b l :=
  ⟨h.toEmpty, h.member.mono hle⟩

/-- What the slaves do that have not asked for anything, at the beginning of a change. -/
theorem Idle.quiet {r R : Registry} {b : Int} {l : Link} (h : Idle r b l)
    (hlive : R.Live b ↔ r.Live b) (cmd : RoundCmd) (pos n : Nat) : Quiet R cmd pos n b l := by
  refine ⟨h.toEmpty, ?_⟩
  by_cases hb : r.Live b
  · rw [h.up hb]
    exact .loop (hlive.mpr hb)
  · rw [h.down hb]
    exact .down (mt hlive.mp hb)

/-- After a registration the slaves that have not asked for anything are idle. -/
theorem Quiet.idle {r R : Registry} {pos n : Nat} {b : Int} {l : Link}
    (h : Quiet R .add pos n b l) (hlive : r.Live b ↔ R.Live b) : Idle r b l := by
  have hmember := h.member
  generalize hthread : l.thread = thread at hmember
  cases hmember with
  | down hb => exact ⟨h.toEmpty, fun hup => absurd (hlive.mp hup) hb, fun _ => hthread⟩
  | loop hb => exact ⟨h.toEmpty, fun _ => hthread, fun hdown => absurd (hlive.mpr hb) hdown⟩
  | called hb => cases hb.cmd_eq
  | calls hb _ => cases hb.cmd_eq
  | waits hb _ _ => cases hb.cmd_eq

theorem Member.down_of_not_live {r : Registry} {cmd : RoundCmd} {pos n : Nat} {b : Int}
    {slave : Slave} {thread : Thread} (h : Member r cmd pos n b slave thread) (hb : ¬ r.Live b) :
    thread = .down := by
  cases h with
  | down _ => rfl
  | loop hup => exact absurd hup hb
  | called hremoved => exact absurd hremoved.live hb
  | calls hremoved _ => exact absurd hremoved.live hb
  | waits hremoved _ _ => exact absurd hremoved.live hb

theorem Member.ne_down {r : Registry} {cmd : RoundCmd} {pos n : Nat} {b : Int} {slave : Slave}
    {thread : Thread} (h : Member r cmd pos n b slave thread) (hb : r.Live b) :
    thread ≠ .down := by
  cases h with
  | down hdown => exact absurd hb hdown
  | _ => simp

/-- A slave that has not been notified is in its main loop. -/
theorem Member.loop_of_untold {r : Registry} {cmd : RoundCmd} {pos n i : Nat} {slave : Slave}
    {thread : Thread} (h : Member r cmd pos n (r.sock i) slave thread) (hi : i < r.slaves.num)
    (hinj : ∀ j, j < r.slaves.num → r.sock j = r.sock i → j = i) (hn : n ≤ i) :
    thread = .loop := by
  have huntold : ¬ Removed r cmd pos n (r.sock i) := by
    rintro ⟨-, j, hj, hlt, -, heq⟩
    have := hinj j hlt heq
    omega
  cases h with
  | down hb => exact absurd ⟨i, hi, rfl⟩ hb
  | loop hb => rfl
  | called hb => exact absurd hb huntold
  | calls hb _ => exact absurd hb huntold
  | waits hb _ _ => exact absurd hb huntold

theorem Caller.busy {slave : Slave} {after : After} {thread : Thread}
    (h : Caller slave after thread) : thread ≠ .loop ∧ thread ≠ .down := by
  cases h <;> exact ⟨by simp, by simp⟩

theorem relPos_lt {num : Nat} (hnum : 0 < num) (pos : Nat) (k : Int) :
    relPos pos k num < num := by
  have hlt : ((pos : Int) + k + num).tmod num < num := Int.tmod_lt_of_pos _ (by omega)
  unfold relPos
  omega

/-- Of three nodes, each two places behind the one before, one is not a predecessor. -/
theorem not_back_of_turns {n r i : Nat} (hr : r ≤ n) (hi : i < n) (hn : 2 < n)
    (hfirst : i = back n r 1 ∨ i = back n r 2)
    (hsecond : (i + 2) % n = back n r 1 ∨ (i + 2) % n = back n r 2) :
    ((i + 2) % n + 2) % n ≠ back n r 1 ∧ ((i + 2) % n + 2) % n ≠ back n r 2 := by
  have hturn : ∀ x, x < n → (x + 2) % n = if x + 2 < n then x + 2 else x + 2 - n :=
    fun x hx => mod_of_lt_two_mul (by omega)
  have hlast := hturn _ (Nat.mod_lt (i + 2) (show 0 < n by omega))
  have hmiddle := hturn i hi
  have hone : back n r 1 = _ := back_eq hr (by omega) (by omega)
  have htwo : back n r 2 = _ := back_eq hr (by omega) (by omega)
  generalize (i + 2) % n = j at *
  generalize (j + 2) % n = k at *
  generalize back n r 1 = p at *
  generalize back n r 2 = q at *
  split_ifs at hone htwo hmiddle hlast <;> omega

theorem live_congr {r R : Registry} (h : r.slaves = R.slaves) (b : Int) :
    r.Live b ↔ R.Live b := by
  simp only [Registry.Live, Registry.sock, h]

section Changes

variable {r R : Registry} {request : MasterRequest} {cmd : RoundCmd} {a : Int} {pos : Nat}

/-- The sockets in the list of a round. -/
theorem Change.sock_inj (h : Change r request cmd a pos R) (hr : r.Agrees) {i j : Nat}
    (hi : i < R.slaves.num) (hj : j < R.slaves.num) (heq : R.sock i = R.sock j) : i = j := by
  cases h with
  | add _ ip port rand hmax hfresh =>
      exact hr.sock_inj_addToSlaveList _ _ _ _ hmax hfresh i j hi hj heq
  | del _ hpos => exact hr.sock_inj i j hi hj heq

theorem Change.pos_lt (h : Change r request cmd a pos R) (hr : r.Agrees) :
    pos < R.slaves.num := by
  cases h with
  | add _ ip port rand hmax hfresh =>
      have hnew := (newpos_eq r.slaves hr.ring ⟨ip, port, a, 0⟩ rand hmax).1
      rw [num_addToSlaveList]
      exact Nat.lt_succ_of_le hnew
  | del _ hpos => exact hpos

theorem Change.sock_pos (h : Change r request cmd a pos R) (hr : r.Agrees) : R.sock pos = a := by
  cases h with
  | add _ ip port rand hmax hfresh =>
      have hnew := (newpos_eq r.slaves hr.ring ⟨ip, port, a, 0⟩ rand hmax).1
      exact (Registry.sock_addToSlaveList a ip port rand hr.ring hmax hnew).trans (if_pos rfl)
  | del _ hpos => rfl

/-- The sockets before a registration and in its round. -/
theorem live_addToSlaveList (hr : r.Agrees) {ip port : Int} {rand : Nat}
    (hmax : r.slaves.num < MAX_SLAVE_NUM) {b : Int} :
    ({ r with
        slaves := (addToSlaveList r.slaves ⟨ip, port, a, 0⟩ rand).1 } : Registry).Live b ↔
      r.Live b ∨ b = a := by
  have hnew := (newpos_eq r.slaves hr.ring ⟨ip, port, a, 0⟩ rand hmax).1
  have hnum := num_addToSlaveList r.slaves ⟨ip, port, a, 0⟩ rand
  have hsock := fun j hj => Registry.sock_addToSlaveList a ip port rand hr.ring hmax (j := j) hj
  generalize addToSlaveList r.slaves ⟨ip, port, a, 0⟩ rand = x at *
  constructor
  · rintro ⟨j, hj, rfl⟩
    have hle : j ≤ r.slaves.num := Nat.le_of_lt_succ (hj.trans_eq hnum)
    by_cases heq : j = x.2
    · exact Or.inr ((hsock j hle).trans (if_pos heq))
    · exact Or.inl ⟨_, newIndex_lt hnew hle heq, ((hsock j hle).trans (if_neg heq)).symm⟩
  · rintro (⟨i, hi, rfl⟩ | rfl)
    · have hlt : oldIndex x.2 i < r.slaves.num + 1 := oldIndex_lt (by omega)
      refine ⟨oldIndex x.2 i, hlt.trans_eq hnum.symm, ?_⟩
      refine (hsock _ (Nat.le_of_lt_succ hlt)).trans ?_
      rw [if_neg (oldIndex_ne _ _), newIndex_oldIndex]
    · refine ⟨x.2, ?_, (hsock _ hnew).trans (if_pos rfl)⟩
      exact (Nat.lt_succ_of_le hnew).trans_eq hnum.symm

/-- The registry after a registration. -/
theorem step_addSlave {ip port : Int} {rand : Nat}
    (hmax : r.slaves.num < MAX_SLAVE_NUM) (hfresh : ¬ r.Live a) :
    r.step (.addSlave a ip port rand) = some (r.addSlave a ip port rand) :=
  if_pos ⟨hmax, hfresh⟩

theorem step_delSlave (hpos : pos < r.slaves.num) :
    r.step (.delSlave (r.sock pos)) = some (r.delSlave (r.sock pos)) :=
  if_pos ⟨pos, hpos, rfl⟩

theorem delSlave_eq (hr : r.Agrees) (hpos : pos < r.slaves.num) :
    r.delSlave (r.sock pos) =
      { r.notifyAll pos .rmSlave with slaves := delFromSlaveList r.slaves pos } := by
  simp only [Registry.delSlave, hr.pos_eq pos hpos,
    Registry.slaves_notifyAll pos .rmSlave hr.sock_inj]

theorem sock_delSlave (hr : r.Agrees) (hpos : pos < r.slaves.num) {j : Nat}
    (hj : j + 1 < r.slaves.num) : (r.delSlave (r.sock pos)).sock j = r.sock (oldIndex pos j) := by
  rw [delSlave_eq hr hpos]
  exact Registry.sock_delFromSlaveList hr.ring hpos hj

/-- The sockets after a departure. -/
theorem live_delSlave (hr : r.Agrees) (hpos : pos < r.slaves.num) {b : Int} :
    (r.delSlave (r.sock pos)).Live b ↔ r.Live b ∧ b ≠ r.sock pos := by
  have hnum : (r.delSlave (r.sock pos)).slaves.num = r.slaves.num - 1 := by
    rw [delSlave_eq hr hpos]
    rfl
  constructor
  · rintro ⟨j, hj, rfl⟩
    have hj : j + 1 < r.slaves.num := by omega
    have hlt := oldIndex_lt (r := pos) hj
    rw [sock_delSlave hr hpos hj]
    exact ⟨⟨_, hlt, rfl⟩, fun heq => oldIndex_ne pos j (hr.sock_inj _ _ hlt hpos heq)⟩
  · rintro ⟨⟨i, hi, rfl⟩, hne⟩
    have hne : i ≠ pos := fun heq => hne (congrArg r.sock heq)
    have hlt : newIndex pos i < r.slaves.num - 1 := newIndex_lt (by omega) (by omega) hne
    refine ⟨newIndex pos i, by omega, ?_⟩
    rw [sock_delSlave hr hpos (by omega), oldIndex_newIndex hne]

end Changes

namespace ControlNet

section Blocked

variable {s : ControlNet} {b : Int}

/-- A slave that has nothing to do does nothing. -/
theorem step_of_idle {e : ControlEvent} (he : e.slave = some b)
    (hthread : (s.links b).thread = .loop ∨ (s.links b).thread = .down)
    (htoSlave : (s.links b).toSlave = []) : s.step e = none := by
  cases e with
  | slaveRecv a | slaveHandle a | call a | endCalls a | slaveReply a =>
      obtain rfl := Option.some.inj he
      rcases hthread with hthread | hthread <;> simp [step, hthread, htoSlave]
  | serve c a =>
      obtain rfl := Option.some.inj he
      rcases hthread with hthread | hthread <;> simp [step, hthread]
  | _ => cases he

theorem hisPos_of_peer {l : Link} {k c : Int} (h : peer l k = some c) :
    l.slave.hisPos k ≠ none := by
  intro hnone
  rw [peer, hnone] at h
  cases h

/-- The master receives a request between two rounds only. -/
theorem step_masterRecv {ip : Int} {rand : Nat} {t : ControlNet}
    (hstep : s.step (.masterRecv b ip rand) = some t) :
    s.base = none ∧ s.alarm = none ∧ ∃ p rest, (s.links b).toMaster = p :: rest ∧
      (s.setLink b { s.links b with toMaster := rest }).beginRequest b ip rand p = some t := by
  simp only [step] at hstep
  split at hstep
  case h_1 p rest hbase halarm hqueue => exact ⟨hbase, halarm, p, rest, hqueue, hstep⟩
  case h_2 => cases hstep

/-- A step of a slave that calls after `RM_SLAVE`, or of one that has nothing to do. -/
theorem step_of_member {R : Registry} {cmd : RoundCmd} {pos n : Nat} {e : ControlEvent}
    (he : e.slave = some b) (h : Member R cmd pos n b (s.links b).slave (s.links b).thread)
    (htoSlave : (s.links b).toSlave = []) {t : ControlNet} (hstep : s.step e = some t) :
    ∃ thread, Member R cmd pos n b (s.links b).slave thread ∧
      t = s.setLink b { s.links b with thread := thread } := by
  generalize hthread : (s.links b).thread = thread at h
  cases h with
  | down hb =>
      rw [step_of_idle he (Or.inr hthread) htoSlave] at hstep
      cases hstep
  | loop hb =>
      rw [step_of_idle he (Or.inl hthread) htoSlave] at hstep
      cases hstep
  | called hb =>
      cases e with
      | endCalls a =>
          obtain rfl := Option.some.inj he
          simp only [step, hthread] at hstep
          obtain rfl := Option.some.inj hstep
          exact ⟨.loop, .loop hb.live, rfl⟩
      | slaveRecv a | slaveHandle a | call a | slaveReply a =>
          obtain rfl := Option.some.inj he
          simp [step, hthread] at hstep
      | serve c a =>
          obtain rfl := Option.some.inj he
          simp [step, hthread] at hstep
      | _ => cases he
  | calls hb hpre =>
      cases e with
      | call a =>
          obtain rfl := Option.some.inj he
          simp only [step, hthread] at hstep
          obtain rfl := Option.some.inj hstep
          unfold called
          split
          case h_1 => exact ⟨_, .called hb, rfl⟩
          case h_2 c hpeer =>
              split
              case isTrue => exact ⟨_, .called hb, rfl⟩
              case isFalse => exact ⟨_, .waits hb hpre (hisPos_of_peer hpeer), rfl⟩
      | slaveRecv a | slaveHandle a | endCalls a | slaveReply a =>
          obtain rfl := Option.some.inj he
          simp [step, hthread] at hstep
      | serve c a =>
          obtain rfl := Option.some.inj he
          simp [step, hthread] at hstep
      | _ => cases he
  | waits hb hpre hpeer =>
      cases e with
      | serve c a =>
          obtain rfl := Option.some.inj he
          simp only [step, hthread, Option.ite_none_right_eq_some] at hstep
          obtain rfl := Option.some.inj hstep.2
          exact ⟨_, .called hb, rfl⟩
      | slaveRecv a | slaveHandle a | call a | endCalls a | slaveReply a =>
          obtain rfl := Option.some.inj he
          simp [step, hthread] at hstep
      | _ => cases he

/-- A slave that waits for the answer to its own request only receives it. -/
theorem step_of_asking {cmd : RoundCmd} {id : Nat} {e : ControlEvent} (he : e.slave = some b)
    (hthread : (s.links b).thread = askThread cmd id)
    (hreply : e = .slaveReply b → (s.links b).toSlave = []) : s.step e = none := by
  cases cmd <;> simp only [askThread] at hthread <;>
  · cases e with
    | slaveRecv a | slaveHandle a | call a | endCalls a =>
        obtain rfl := Option.some.inj he
        simp [step, hthread]
    | serve c a =>
        obtain rfl := Option.some.inj he
        simp [step, hthread]
    | slaveReply a =>
        obtain rfl := Option.some.inj he
        simp [step, hthread, hreply rfl]
    | _ => cases he

end Blocked

section OneLink

variable {s t : ControlNet} {b : Int} {l : Link}

theorem links_self (h : t.links = Function.update s.links b l) : t.links b = l := by
  rw [h, Function.update_self]

theorem links_of_ne (h : t.links = Function.update s.links b l) {c : Int} (hne : c ≠ b) :
    t.links c = s.links c := by
  rw [h, Function.update_of_ne hne]

/-- The process at one socket has changed. -/
theorem registry_update (h : t.links = Function.update s.links b l)
    (hslaves : t.slaves = s.slaves) :
    t.registry = s.registry.setProc b l.slave := by
  simp only [registry, Registry.setProc, Registry.mk.injEq]
  refine ⟨hslaves, ?_⟩
  funext a
  rw [h, Function.update_apply, Function.update_apply]
  split <;> rfl

/-- The processes are as they were. -/
theorem procs_of_links (h : t.links = Function.update s.links b l)
    (hslave : l.slave = (s.links b).slave) : t.registry.procs = s.registry.procs := by
  funext a
  simp only [registry, h, Function.update_apply]
  split
  case isTrue heq => rw [hslave, heq]
  case isFalse => rfl

theorem registry_eq {r : Registry} (hslaves : s.slaves = r.slaves)
    (hprocs : s.registry.procs = r.procs) : s.registry = r := by
  cases r
  exact Registry.mk.injEq .. ▸ ⟨hslaves, hprocs⟩

theorem registry_of_links (h : t.links = Function.update s.links b l)
    (hslaves : t.slaves = s.slaves) (hslave : l.slave = (s.links b).slave) :
    t.registry = s.registry :=
  registry_eq hslaves (procs_of_links h hslave)

theorem registry_setLink (hslave : l.slave = (s.links b).slave) :
    (s.setLink b l).registry = s.registry :=
  registry_of_links rfl rfl hslave

end OneLink

end ControlNet

end DistributedDB
