import DistributedDB.RingInvariant
import DistributedDB.Routing
import DistributedDB.Slave

/-!
# Membership changes and clients, concurrently

The master, the slave processes and the clients as a system of guarded steps.
The master handles one request at a time: a registration changes its list and
then notifies every other slave, a departure notifies the others and then
changes the list, each notification waiting for the reply to the one before.  In
between, slaves receive notifications, clients fetch lists when the master is
free, and packets that carry the version of a client's list travel for any time.

The interval signal of the master is not part of this system.

**Results.**
* `Net.step`: the steps.
* `Net.Admitted`: the version check of a slave's main loop.
-/

namespace DistributedDB

open RingIndex

/-- Where a slave process is in its life. -/
inductive Phase where
  | down
  /-- `ADD_SLAVE` is sent, its reply not yet received. -/
  | registering
  /-- In `InitialSlave`, before the main loop. -/
  | initialising
  | serving
  /-- `DEL_SLAVE` is sent. -/
  | leaving
deriving DecidableEq, Repr

structure Process where
  phase : Phase
  slave : Slave

/-- What `NotifyAll` is called for. -/
inductive RoundCmd where
  | add
  | del
deriving DecidableEq, Repr

/-- Where the loop of `NotifyAll` stands with the node of its index. -/
inductive RoundStage where
  | ready
  | sent
  | replied
deriving DecidableEq, Repr

/-- A call of `NotifyAll(pos, ..)` at loop index `i`. -/
structure Round where
  cmd : RoundCmd
  pos : Nat
  i : Nat
  stage : RoundStage
deriving DecidableEq, Repr

/-- A client's `SET`, `GET` or `DEL`. -/
structure Packet where
  version : UInt32
  key : dbKey
  /-- The slave to whose socket it was sent. -/
  dest : Addr
deriving DecidableEq, Repr

structure Net where
  /-- The master's list. -/
  slaves : SlaveList
  /-- The request that the master is handling. -/
  task : Option Round
  procs : Addr → Process
  /-- Every list a client has received. -/
  fetched : List SlaveList
  /-- Every packet a client has sent; it may arrive at any time. -/
  packets : List Packet
  /-- The number of membership changes begun. -/
  changes : Nat

inductive NetEvent where
  /-- The master receives `ADD_SLAVE` and updates its list. -/
  | addSlave (sn : SlaveNode) (rand : Nat)
  /-- The master receives the `DEL_SLAVE` of the slave at an address. -/
  | delSlave (a : Addr)
  /-- The loop of `NotifyAll` sends to the node at its index, or skips it. -/
  | notify
  /-- That slave handles the notification and replies. -/
  | deliver
  /-- The master receives the reply. -/
  | recvReply
  /-- The loop is over: the master replies to the request. -/
  | finish
  /-- A new slave has its data and enters the main loop. -/
  | initialised (a : Addr)
  /-- A slave catches the interrupt and sends `DEL_SLAVE`. -/
  | shutDown (a : Addr)
  /-- A client fetches the list. -/
  | getList
  /-- A client sends a request on a key, using one of the fetched lists. -/
  | send (slaves : SlaveList) (key : dbKey)

namespace Net

def init : Net where
  slaves := SlaveList.empty
  task := none
  procs := fun _ => ⟨.down, ⟨SlaveList.empty, 0, ⟨∅, none, none, none⟩⟩⟩
  fetched := []
  packets := []
  changes := 0

/-- The address of node `j` in the master's list. -/
def addr (n : Net) (j : Nat) : Addr :=
  (n.slaves.node j).addr

/-- The process of node `j`. -/
def procAt (n : Net) (j : Nat) : Process :=
  n.procs (n.addr j)

def setProc (n : Net) (a : Addr) (p : Process) : Net :=
  { n with procs := Function.update n.procs a p }

/-- A notification to the slave at `a` is on its way. -/
def Outstanding (n : Net) (a : Addr) : Prop :=
  ∃ r, n.task = some r ∧ r.stage = .sent ∧ n.addr r.i = a

instance (n : Net) (a : Addr) : Decidable (n.Outstanding a) :=
  match h : n.task with
  | none => isFalse (by rintro ⟨r, hr, _⟩; simp [h] at hr)
  | some r =>
      decidable_of_iff (r.stage = .sent ∧ n.addr r.i = a) (by simp [Outstanding, h])

/-- A slave's handling of the notification of round `r`. -/
def handleNotice (n : Net) (r : Round) (s : Slave) : Slave :=
  match r.cmd with
  | .add => s.newSlave r.pos (n.slaves.node r.pos)
  | .del => s.rmSlave r.pos

/-- The list after round `r`. -/
def finishedList (n : Net) (r : Round) : SlaveList :=
  match r.cmd with
  | .add => n.slaves
  | .del => delFromSlaveList n.slaves r.pos

/-- The process that asked for round `r`, after the master's reply. -/
def finishedProc (n : Net) (r : Round) (p : Process) : Process :=
  match r.cmd with
  | .add => ⟨.initialising, { p.slave with slaves := n.slaves, pos := r.pos }⟩
  | .del => ⟨.down, p.slave⟩

/-- The master has handled the first part of `ADD_SLAVE`: its list is new. -/
def beginAdd (n : Net) (sn : SlaveNode) (rand : Nat) : Net :=
  let r := addToSlaveList n.slaves sn rand
  { n with
    slaves := r.1
    task := some ⟨.add, r.2, 0, .ready⟩
    changes := n.changes + 1 }.setProc sn.addr
      { n.procs sn.addr with phase := .registering }

/-- The master has received the `DEL_SLAVE` of the slave at `a`. -/
def beginDel (n : Net) (a : Addr) : Net :=
  { n with
    task := some ⟨.del, (n.procs a).slave.pos, 0, .ready⟩
    changes := n.changes + 1 }

/-- Where the loop of `NotifyAll` is after looking at the node of its index. -/
def notified (r : Round) : Round :=
  if r.i = r.pos then { r with i := r.i + 1 } else { r with stage := .sent }

/-- The slave at the index of round `r` has handled the notification. -/
def delivered (n : Net) (r : Round) : Net :=
  { n with task := some { r with stage := .replied } }.setProc (n.addr r.i)
    { n.procAt r.i with slave := n.handleNotice r (n.procAt r.i).slave }

/-- The master has replied to the request of round `r`. -/
def finished (n : Net) (r : Round) : Net :=
  { n with slaves := n.finishedList r, task := none }.setProc (n.addr r.pos)
    (n.finishedProc r (n.procAt r.pos))

/-- One step of the system; `none` when the event cannot happen.  A change after which the
version, an `unsigned int`, wraps around has no step: every run ends before it. -/
def step (n : Net) : NetEvent → Option Net
  | .addSlave sn rand =>
      if n.task = none ∧ n.slaves.num < MAX_SLAVE_NUM ∧ n.changes + 1 < 2 ^ 32 ∧
          (n.procs sn.addr).phase = .down then
        some (n.beginAdd sn rand)
      else none
  | .delSlave a =>
      if n.task = none ∧ n.changes + 1 < 2 ^ 32 ∧ (n.procs a).phase = .leaving then
        some (n.beginDel a)
      else none
  | .notify =>
      match n.task with
      | some r =>
          if r.stage = .ready ∧ r.i < n.slaves.num then
            some { n with task := some (notified r) }
          else none
      | none => none
  | .deliver =>
      match n.task with
      | some r =>
          if r.stage = .sent ∧ (n.procAt r.i).phase = .serving then some (n.delivered r)
          else none
      | none => none
  | .recvReply =>
      match n.task with
      | some r =>
          if r.stage = .replied then
            some { n with task := some { r with i := r.i + 1, stage := .ready } }
          else none
      | none => none
  | .finish =>
      match n.task with
      | some r =>
          if r.stage = .ready ∧ r.i = n.slaves.num then some (n.finished r) else none
      | none => none
  | .initialised a =>
      if (n.procs a).phase = .initialising then
        some (n.setProc a { n.procs a with phase := .serving })
      else none
  | .shutDown a =>
      if (n.procs a).phase = .serving ∧ ¬ n.Outstanding a then
        some (n.setProc a { n.procs a with phase := .leaving })
      else none
  | .getList =>
      if n.task = none then some { n with fetched := n.slaves :: n.fetched } else none
  | .send slaves key =>
      if slaves ∈ n.fetched then
        (getSocket slaves key).map fun i =>
          { n with packets :=
              ⟨slaves.version, key, (slaves.node i).addr⟩ :: n.packets }
      else none

/-- The main loop of the slave at `p.dest` would queue the packet. -/
def Admitted (n : Net) (p : Packet) : Prop :=
  p ∈ n.packets ∧ (n.procs p.dest).phase = .serving ∧
    ¬ p.version < (n.procs p.dest).slave.slaves.version

instance (n : Net) (p : Packet) : Decidable (n.Admitted p) := by
  unfold Admitted
  infer_instance

end Net

end DistributedDB
