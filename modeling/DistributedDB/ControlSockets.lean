import DistributedDB.Library.Run
import DistributedDB.Network
import DistributedDB.Slave

/-!
# The control sockets

The master and the slaves with the sockets between them, packet by packet.  Each
slave has one socket to the master, and both ends send requests on it.  Every
request is followed by a `RecvMsg` on the same socket: in `ExchangePacket` for the
slaves' `ADD_SLAVE` and `DEL_SLAVE` and for the master's `UPDATE_BACKUP12`, and in
the loop of `NotifyAll`.  The packets carry no request identifiers.  The number
that a packet has here is never looked at by a step; it only says in the log which
request a `RecvMsg` belongs to and which request the packet it got is or answers.
A tick needs a slave in the list, since `UpdateBackup` divides by its number.

Sockets deliver whole packets in order.  The SIGALRM handler `UpdateBackup` may run
between any two steps of the master, in particular between a `SendMsg` and its
`RecvMsg`, and the SIGINT handler `ShutDownSlave` between any two steps of a slave
that has finished `InitialSlave`.

A slave also waits in `CommunicateToSlave` for another slave, which serves the
request when it is in its main loop.  The files take no part in this.  A process is
named by its socket at the master.

Four things that the code can come to have no step, so that a run ends before them: a
`RecvMsg` from a process that has exited or aborted, which returns 0 in the code; a
registration when the list is full; a packet other than `ADD_SLAVE` and `DEL_SLAVE` that
`HandleRequest` receives; and a request on the socket of a slave while `errno` is `EINTR`,
which `MasterProcess` leaves unread.  The last one is no part of these steps at all: the
master's `errno` is in `ControlErrno`.

**Results.**
* `ControlNet.step`: the steps; `ControlNet.Transition`, what each of them does.
* `ControlNet.log`: what every `RecvMsg` of an exchange has returned.
-/

namespace DistributedDB

open RingIndex

/-- The commands on the control sockets, with what their packets carry. -/
inductive ControlMsg where
  | addSlave (port : Int)
  | addSlaveR (pos : Nat) (slaves : SlaveList)
  | delSlave (pos : Nat)
  | delSlaveR
  | newSlave (pos : Nat) (sn : SlaveNode)
  | newSlaveR
  | rmSlave (pos : Nat)
  | rmSlaveR
  | updateBackup12
  | updateBackup12R
deriving DecidableEq, Repr

/-- A request with the command that its reply has. -/
inductive ExchangeKind where
  | addSlave
  | delSlave
  | newSlave
  | rmSlave
  | updateBackup12
deriving DecidableEq, Repr

namespace ControlMsg

def isReply : ControlMsg → Bool
  | addSlaveR _ _ | delSlaveR | newSlaveR | rmSlaveR | updateBackup12R => true
  | addSlave _ | delSlave _ | newSlave _ _ | rmSlave _ | updateBackup12 => false

def kind : ControlMsg → ExchangeKind
  | addSlave _ | addSlaveR _ _ => .addSlave
  | delSlave _ | delSlaveR => .delSlave
  | newSlave _ _ | newSlaveR => .newSlave
  | rmSlave _ | rmSlaveR => .rmSlave
  | updateBackup12 | updateBackup12R => .updateBackup12

end ControlMsg

/-- One request and its reply. -/
structure Exchange where
  kind : ExchangeKind
  id : Nat
deriving DecidableEq, Repr

structure ControlPacket where
  msg : ControlMsg
  /-- The request that this is, or answers. -/
  id : Nat
deriving DecidableEq, Repr

def ControlPacket.exchange (p : ControlPacket) : Exchange :=
  ⟨p.msg.kind, p.id⟩

/-- What a slave does when its calls of `CommunicateToSlave` are through. -/
inductive After where
  /-- It enters the main loop: the calls were those of `InitialSlave`. -/
  | initialSlave
  /-- It goes back to the main loop: `RM_SLAVE` is already answered. -/
  | rmSlave
  /-- It answers `UPDATE_BACKUP12`. -/
  | updateBackup12 (id : Nat)
deriving DecidableEq, Repr

/-- Where a slave's main thread is. -/
inductive Thread where
  | down
  /-- In `RegisterAndLoadSlaves`, waiting for the reply. -/
  | registering (id : Nat)
  /-- In the main loop. -/
  | loop
  /-- `HandleMasterRequest` has received a packet. -/
  | handling (p : ControlPacket)
  /-- Before `CommunicateToSlave(k, ..)` for the `k` in the list. -/
  | calling (todo : List Int) (after : After)
  /-- In `CommunicateToSlave(k, ..)`, waiting for that slave. -/
  | waiting (k : Int) (todo : List Int) (after : After)
  /-- In `ShutDownSlave`, waiting for the reply. -/
  | leaving (id : Nat)
  /-- An assertion has failed. -/
  | aborted
deriving DecidableEq, Repr

/-- A slave process and its control socket, in both directions. -/
structure Link where
  thread : Thread
  slave : Slave
  toSlave : List ControlPacket
  toMaster : List ControlPacket

/-- A call of `HandleRequest` in the loop of `NotifyAll`. -/
structure Notifying where
  /-- The socket of the request that is being handled. -/
  requester : Int
  id : Nat
  cmd : RoundCmd
  pos : Nat
  i : Nat
  /-- The notification that awaits its reply. -/
  sent : Option Nat
deriving DecidableEq, Repr

/-- A `RecvMsg` in progress. -/
structure Await where
  sock : Int
  id : Nat
deriving DecidableEq, Repr

/-- A `RecvMsg` of an exchange, and the packet that it returned. -/
structure Returned where
  exchange : Exchange
  packet : ControlPacket
deriving DecidableEq, Repr

structure ControlNet where
  /-- The master's list. -/
  slaves : SlaveList
  /-- The request that the master is handling. -/
  base : Option Notifying
  /-- The `RecvMsg` of a running `UpdateBackup`. -/
  alarm : Option Await
  /-- The static variable `pos` of `UpdateBackup`. -/
  backupPos : Nat
  links : Int → Link
  /-- The number of requests sent. -/
  sent : Nat
  /-- Every packet returned in an exchange, the last one first. -/
  log : List Returned

inductive ControlEvent where
  /-- A slave connects and sends `ADD_SLAVE`. -/
  | register (sock : Int) (port : Int)
  /-- A slave in its main loop receives a packet of the master. -/
  | slaveRecv (sock : Int)
  /-- It handles the packet, up to the reply. -/
  | slaveHandle (sock : Int)
  /-- A slave starts its next `CommunicateToSlave`. -/
  | call (sock : Int)
  /-- A slave in its main loop serves the call of another one. -/
  | serve (sock caller : Int)
  /-- A slave's calls are through. -/
  | endCalls (sock : Int)
  /-- A slave catches SIGINT and sends `DEL_SLAVE`. -/
  | interrupt (sock : Int)
  /-- A slave's `ExchangePacket` with the master returns. -/
  | slaveReply (sock : Int)
  /-- The master's main loop receives a request. -/
  | masterRecv (sock : Int) (ip : Int) (rand : Nat)
  /-- The loop of `NotifyAll` sends to the node at its index, or skips it. -/
  | notify
  /-- The `RecvMsg` in the loop of `NotifyAll` returns. -/
  | masterReply
  /-- The loop is over: the master answers the request. -/
  | finish
  /-- The master catches SIGALRM and `UpdateBackup` sends its request. -/
  | tick
  /-- The `RecvMsg` of `UpdateBackup` returns. -/
  | tickReply
deriving DecidableEq, Repr

namespace ControlNet

def init : ControlNet where
  slaves := SlaveList.empty
  base := none
  alarm := none
  backupPos := 0
  links := fun _ => ⟨.down, ⟨SlaveList.empty, 0, ⟨∅, none, none, none⟩⟩, [], []⟩
  sent := 0
  log := []

/-- The socket of node `i` in the master's list. -/
def sock (s : ControlNet) (i : Nat) : Int :=
  (s.slaves.node i).sock

def setLink (s : ControlNet) (a : Int) (l : Link) : ControlNet :=
  { s with links := Function.update s.links a l }

/-- The calls of `CommunicateToSlave` in `InitialSlave`. -/
def initialCalls (num : Nat) : List Int :=
  (if 1 < num then [-1, 1] else []) ++ (if 2 < num then [-2, 2] else [])

/-- The calls of `CommunicateToSlave` after the reply to `RM_SLAVE(rmpos)`. -/
def rmCalls (s : Slave) (rmpos : Nat) : List Int :=
  if s.isPredecessor rmpos || s.isSecondPredecessor rmpos then [2] else []

/-- The slave to which the slave of link `l` connects in `CommunicateToSlave(k, ..)`. -/
def peer (l : Link) (k : Int) : Option Int :=
  (l.slave.hisPos k).map fun i => (l.slave.slaves.node i).sock

/-- `HandleMasterRequest` on a packet, up to the reply. -/
def handled (l : Link) (p : ControlPacket) : Link :=
  match p.msg with
  | .newSlave pos sn =>
      { l with
        thread := .loop
        slave := l.slave.newSlave pos sn
        toMaster := l.toMaster ++ [⟨.newSlaveR, p.id⟩] }
  | .rmSlave pos =>
      { l with
        thread := .calling (rmCalls (l.slave.rmSlave pos) pos) .rmSlave
        slave := l.slave.rmSlave pos
        toMaster := l.toMaster ++ [⟨.rmSlaveR, p.id⟩] }
  | .updateBackup12 => { l with thread := .calling [1, 2] (.updateBackup12 p.id) }
  | _ => { l with thread := .loop }

/-- The start of `CommunicateToSlave(k, ..)`: it connects to the other slave, if that is
not the slave itself.  `InitialSlave` gives up when its first call fails. -/
def called (s : ControlNet) (l : Link) (k : Int) (todo : List Int) (after : After) : Link :=
  match peer l k with
  | none => { l with thread := .calling todo after }
  | some b =>
      if (s.links b).thread = .down ∨ (s.links b).thread = .aborted then
        { l with thread := .calling (if k = -1 then [] else todo) after }
      else { l with thread := .waiting k todo after }

/-- The end of the calls. -/
def returned (l : Link) (after : After) : Link :=
  match after with
  | .updateBackup12 id =>
      { l with thread := .loop, toMaster := l.toMaster ++ [⟨.updateBackup12R, id⟩] }
  | .initialSlave | .rmSlave => { l with thread := .loop }

/-- The SIGINT handler is installed after `InitialSlave`. -/
def interruptible : Thread → Bool
  | .loop | .handling _ => true
  | .calling _ after | .waiting _ _ after => after != .initialSlave
  | .down | .registering _ | .leaving _ | .aborted => false

/-- The assertions after the exchanges of `RegisterAndLoadSlaves` and `ShutDownSlave`. -/
def registered (l : Link) (p : ControlPacket) : Link :=
  match p.msg with
  | .addSlaveR pos slaves =>
      { l with
        thread := .calling (initialCalls slaves.num) .initialSlave
        slave := { l.slave with slaves := slaves, pos := pos } }
  | _ => { l with thread := .aborted }

def left (l : Link) (p : ControlPacket) : Link :=
  match p.msg with
  | .delSlaveR => { l with thread := .down }
  | _ => { l with thread := .aborted }

/-- The notification that `NotifyAll` sends. -/
def notice (s : ControlNet) (r : Notifying) : ControlMsg :=
  match r.cmd with
  | .add => .newSlave r.pos (s.slaves.node r.pos)
  | .del => .rmSlave r.pos

/-- The kind of the exchange that `NotifyAll` is in. -/
def noticeKind : RoundCmd → ExchangeKind
  | .add => .newSlave
  | .del => .rmSlave

/-- The list and the reply when the master has handled a request. -/
def answer (s : ControlNet) (r : Notifying) : SlaveList × ControlMsg :=
  match r.cmd with
  | .add => (s.slaves, .addSlaveR r.pos s.slaves)
  | .del => (delFromSlaveList s.slaves r.pos, .delSlaveR)

/-- `HandleRequest` up to the loop of `NotifyAll`. -/
def beginRequest (s : ControlNet) (a ip : Int) (rand : Nat) (p : ControlPacket) :
    Option ControlNet :=
  match p.msg with
  | .addSlave port =>
      if s.slaves.num < MAX_SLAVE_NUM then
        let r := addToSlaveList s.slaves ⟨ip, port, a, 0⟩ rand
        some { s with slaves := r.1, base := some ⟨a, p.id, .add, r.2, 0, none⟩ }
      else none
  | .delSlave pos => some { s with base := some ⟨a, p.id, .del, pos, 0, none⟩ }
  | _ => none

/-- The slave whose turn the next tick is. -/
def nextTurn (s : ControlNet) : Nat :=
  (s.backupPos + 1) % s.slaves.num

/-- A request is appended to what the master has sent to a slave. -/
def request (s : ControlNet) (a : Int) (msg : ControlMsg) : ControlNet :=
  { s.setLink a { s.links a with toSlave := (s.links a).toSlave ++ [⟨msg, s.sent⟩] } with
    sent := s.sent + 1 }

/-- One step of the system; `none` when the event cannot happen. -/
def step (s : ControlNet) : ControlEvent → Option ControlNet
  | .register a port =>
      if (s.links a).thread = .down then
        some { s.setLink a
            { s.links a with
              thread := .registering s.sent
              toSlave := []
              toMaster := [⟨.addSlave port, s.sent⟩] } with
          sent := s.sent + 1 }
      else none
  | .slaveRecv a =>
      match (s.links a).thread, (s.links a).toSlave with
      | .loop, p :: rest =>
          some (s.setLink a { s.links a with thread := .handling p, toSlave := rest })
      | _, _ => none
  | .slaveHandle a =>
      match (s.links a).thread with
      | .handling p => some (s.setLink a (handled (s.links a) p))
      | _ => none
  | .call a =>
      match (s.links a).thread with
      | .calling (k :: todo) after => some (s.setLink a (s.called (s.links a) k todo after))
      | _ => none
  | .serve b a =>
      match (s.links a).thread with
      | .waiting k todo after =>
          if (s.links b).thread = .loop ∧ peer (s.links a) k = some b then
            some (s.setLink a { s.links a with thread := .calling todo after })
          else none
      | _ => none
  | .endCalls a =>
      match (s.links a).thread with
      | .calling [] after => some (s.setLink a (returned (s.links a) after))
      | _ => none
  | .interrupt a =>
      if interruptible (s.links a).thread then
        some { s.setLink a
            { s.links a with
              thread := .leaving s.sent
              toMaster := (s.links a).toMaster ++
                [⟨.delSlave (s.links a).slave.pos, s.sent⟩] } with
          sent := s.sent + 1 }
      else none
  | .slaveReply a =>
      match (s.links a).thread, (s.links a).toSlave with
      | .registering id, p :: rest =>
          some { s.setLink a (registered { s.links a with toSlave := rest } p) with
            log := ⟨⟨.addSlave, id⟩, p⟩ :: s.log }
      | .leaving id, p :: rest =>
          some { s.setLink a (left { s.links a with toSlave := rest } p) with
            log := ⟨⟨.delSlave, id⟩, p⟩ :: s.log }
      | _, _ => none
  | .masterRecv a ip rand =>
      match s.base, s.alarm, (s.links a).toMaster with
      | none, none, p :: rest =>
          (s.setLink a { s.links a with toMaster := rest }).beginRequest a ip rand p
      | _, _, _ => none
  | .notify =>
      match s.base, s.alarm with
      | some r, none =>
          if r.sent = none ∧ r.i < s.slaves.num then
            if r.i = r.pos then some { s with base := some { r with i := r.i + 1 } }
            else
              some { s.request (s.sock r.i) (s.notice r) with
                base := some { r with sent := some s.sent } }
          else none
      | _, _ => none
  | .masterReply =>
      match s.base, s.alarm with
      | some r, none =>
          match r.sent, (s.links (s.sock r.i)).toMaster with
          | some id, p :: rest =>
              some { s.setLink (s.sock r.i)
                  { s.links (s.sock r.i) with toMaster := rest } with
                base := some { r with i := r.i + 1, sent := none }
                log := ⟨⟨noticeKind r.cmd, id⟩, p⟩ :: s.log }
          | _, _ => none
      | _, _ => none
  | .finish =>
      match s.base, s.alarm with
      | some r, none =>
          if r.sent = none ∧ r.i = s.slaves.num then
            some { s.setLink r.requester
                { s.links r.requester with
                  toSlave := (s.links r.requester).toSlave ++ [⟨(s.answer r).2, r.id⟩] } with
              slaves := (s.answer r).1
              base := none }
          else none
      | _, _ => none
  | .tick =>
      if s.alarm = none ∧ 0 < s.slaves.num then
        some { s.request (s.sock s.nextTurn) .updateBackup12 with
          alarm := some ⟨s.sock s.nextTurn, s.sent⟩
          backupPos := s.nextTurn }
      else none
  | .tickReply =>
      match s.alarm with
      | some w =>
          match (s.links w.sock).toMaster with
          | p :: rest =>
              some { s.setLink w.sock { s.links w.sock with toMaster := rest } with
                alarm := none
                log := ⟨⟨.updateBackup12, w.id⟩, p⟩ :: s.log }
          | [] => none
      | none => none

/-- The `ExchangePacket` of a slave with the master has returned. -/
def slaveReturned (s : ControlNet) (a : Int) (l : Link) (x : Exchange) (p : ControlPacket) :
    ControlNet :=
  { s.setLink a l with log := ⟨x, p⟩ :: s.log }

/-- Everything that a step can do. -/
inductive Transition (s : ControlNet) : ControlEvent → ControlNet → Prop where
  | register (a port : Int) (hdown : (s.links a).thread = .down) :
      Transition s (.register a port)
        { s.setLink a
            { s.links a with
              thread := .registering s.sent
              toSlave := []
              toMaster := [⟨.addSlave port, s.sent⟩] } with
          sent := s.sent + 1 }
  | slaveRecv (a : Int) (p : ControlPacket) (rest : List ControlPacket)
      (hthread : (s.links a).thread = .loop) (hqueue : (s.links a).toSlave = p :: rest) :
      Transition s (.slaveRecv a)
        (s.setLink a { s.links a with thread := .handling p, toSlave := rest })
  | slaveHandle (a : Int) (p : ControlPacket) (hthread : (s.links a).thread = .handling p) :
      Transition s (.slaveHandle a) (s.setLink a (handled (s.links a) p))
  | call (a k : Int) (todo : List Int) (after : After)
      (hthread : (s.links a).thread = .calling (k :: todo) after) :
      Transition s (.call a) (s.setLink a (s.called (s.links a) k todo after))
  | serve (b a k : Int) (todo : List Int) (after : After)
      (hthread : (s.links a).thread = .waiting k todo after)
      (hloop : (s.links b).thread = .loop) (hpeer : peer (s.links a) k = some b) :
      Transition s (.serve b a) (s.setLink a { s.links a with thread := .calling todo after })
  | endCalls (a : Int) (after : After) (hthread : (s.links a).thread = .calling [] after) :
      Transition s (.endCalls a) (s.setLink a (returned (s.links a) after))
  | interrupt (a : Int) (hthread : interruptible (s.links a).thread = true) :
      Transition s (.interrupt a)
        { s.setLink a
            { s.links a with
              thread := .leaving s.sent
              toMaster := (s.links a).toMaster ++
                [⟨.delSlave (s.links a).slave.pos, s.sent⟩] } with
          sent := s.sent + 1 }
  | registered (a : Int) (id : Nat) (p : ControlPacket) (rest : List ControlPacket)
      (hthread : (s.links a).thread = .registering id)
      (hqueue : (s.links a).toSlave = p :: rest) :
      Transition s (.slaveReply a)
        (s.slaveReturned a (registered { s.links a with toSlave := rest } p)
          ⟨.addSlave, id⟩ p)
  | left (a : Int) (id : Nat) (p : ControlPacket) (rest : List ControlPacket)
      (hthread : (s.links a).thread = .leaving id) (hqueue : (s.links a).toSlave = p :: rest) :
      Transition s (.slaveReply a)
        (s.slaveReturned a (left { s.links a with toSlave := rest } p) ⟨.delSlave, id⟩ p)
  | masterRecv (a ip : Int) (rand : Nat) (p : ControlPacket) (rest : List ControlPacket)
      (t : ControlNet) (hbase : s.base = none) (halarm : s.alarm = none)
      (hqueue : (s.links a).toMaster = p :: rest)
      (hbegin : (s.setLink a { s.links a with toMaster := rest }).beginRequest a ip rand p =
        some t) :
      Transition s (.masterRecv a ip rand) t
  | skip (r : Notifying) (hbase : s.base = some r) (halarm : s.alarm = none)
      (hsent : r.sent = none) (hlt : r.i < s.slaves.num) (hself : r.i = r.pos) :
      Transition s .notify { s with base := some { r with i := r.i + 1 } }
  | notify (r : Notifying) (hbase : s.base = some r) (halarm : s.alarm = none)
      (hsent : r.sent = none) (hlt : r.i < s.slaves.num) (hother : r.i ≠ r.pos) :
      Transition s .notify
        { s.request (s.sock r.i) (s.notice r) with base := some { r with sent := some s.sent } }
  | masterReply (r : Notifying) (id : Nat) (p : ControlPacket) (rest : List ControlPacket)
      (hbase : s.base = some r) (halarm : s.alarm = none) (hsent : r.sent = some id)
      (hqueue : (s.links (s.sock r.i)).toMaster = p :: rest) :
      Transition s .masterReply
        { s.setLink (s.sock r.i) { s.links (s.sock r.i) with toMaster := rest } with
          base := some { r with i := r.i + 1, sent := none }
          log := ⟨⟨noticeKind r.cmd, id⟩, p⟩ :: s.log }
  | finish (r : Notifying) (hbase : s.base = some r) (halarm : s.alarm = none)
      (hsent : r.sent = none) (hi : r.i = s.slaves.num) :
      Transition s .finish
        { s.setLink r.requester
            { s.links r.requester with
              toSlave := (s.links r.requester).toSlave ++ [⟨(s.answer r).2, r.id⟩] } with
          slaves := (s.answer r).1
          base := none }
  | tick (halarm : s.alarm = none) (hnum : 0 < s.slaves.num) :
      Transition s .tick
        { s.request (s.sock s.nextTurn) .updateBackup12 with
          alarm := some ⟨s.sock s.nextTurn, s.sent⟩
          backupPos := s.nextTurn }
  | tickReply (w : Await) (p : ControlPacket) (rest : List ControlPacket)
      (halarm : s.alarm = some w) (hqueue : (s.links w.sock).toMaster = p :: rest) :
      Transition s .tickReply
        { s.setLink w.sock { s.links w.sock with toMaster := rest } with
          alarm := none
          log := ⟨⟨.updateBackup12, w.id⟩, p⟩ :: s.log }

section Transitions

variable {s t : ControlNet}

theorem transition_of_slaveReply {a : Int} (h : s.step (.slaveReply a) = some t) :
    s.Transition (.slaveReply a) t := by
  simp only [step] at h
  split at h
  case h_1 id p rest hthread hqueue =>
      obtain rfl := Option.some.inj h
      exact .registered a id p rest hthread hqueue
  case h_2 id p rest hthread hqueue =>
      obtain rfl := Option.some.inj h
      exact .left a id p rest hthread hqueue
  case h_3 => cases h

theorem transition_of_notify (h : s.step .notify = some t) : s.Transition .notify t := by
  simp only [step] at h
  split at h
  case h_2 => cases h
  case h_1 r hbase halarm =>
      simp only [Option.ite_none_right_eq_some] at h
      obtain ⟨⟨hsent, hlt⟩, h⟩ := h
      split at h
      case isTrue hself =>
          obtain rfl := Option.some.inj h
          exact .skip r hbase halarm hsent hlt hself
      case isFalse hother =>
          obtain rfl := Option.some.inj h
          exact .notify r hbase halarm hsent hlt hother

theorem transition_of_masterReply (h : s.step .masterReply = some t) :
    s.Transition .masterReply t := by
  simp only [step] at h
  split at h
  case h_2 => cases h
  case h_1 r hbase halarm =>
      split at h
      case h_2 => cases h
      case h_1 id p rest hsent hqueue =>
          obtain rfl := Option.some.inj h
          exact .masterReply r id p rest hbase halarm hsent hqueue

theorem transition_of_tickReply (h : s.step .tickReply = some t) :
    s.Transition .tickReply t := by
  simp only [step] at h
  split at h
  case h_2 => cases h
  case h_1 w halarm =>
      split at h
      case h_2 => cases h
      case h_1 p rest hqueue =>
          obtain rfl := Option.some.inj h
          exact .tickReply w p rest halarm hqueue

theorem transition_of_step {e : ControlEvent} (h : s.step e = some t) : s.Transition e t := by
  cases e with
  | register a port =>
      simp only [step, Option.ite_none_right_eq_some, Option.some.injEq] at h
      obtain ⟨hdown, rfl⟩ := h
      exact .register a port hdown
  | slaveRecv a =>
      simp only [step] at h
      split at h
      case h_2 => cases h
      case h_1 p rest hthread hqueue =>
          obtain rfl := Option.some.inj h
          exact .slaveRecv a p rest hthread hqueue
  | slaveHandle a =>
      simp only [step] at h
      split at h
      case h_2 => cases h
      case h_1 p hthread =>
          obtain rfl := Option.some.inj h
          exact .slaveHandle a p hthread
  | call a =>
      simp only [step] at h
      split at h
      case h_2 => cases h
      case h_1 k todo after hthread =>
          obtain rfl := Option.some.inj h
          exact .call a k todo after hthread
  | serve b a =>
      simp only [step] at h
      split at h
      case h_2 => cases h
      case h_1 k todo after hthread =>
          simp only [Option.ite_none_right_eq_some, Option.some.injEq] at h
          obtain ⟨⟨hloop, hpeer⟩, rfl⟩ := h
          exact .serve b a k todo after hthread hloop hpeer
  | endCalls a =>
      simp only [step] at h
      split at h
      case h_2 => cases h
      case h_1 after hthread =>
          obtain rfl := Option.some.inj h
          exact .endCalls a after hthread
  | interrupt a =>
      simp only [step, Option.ite_none_right_eq_some, Option.some.injEq] at h
      obtain ⟨hthread, rfl⟩ := h
      exact .interrupt a hthread
  | slaveReply a => exact transition_of_slaveReply h
  | masterRecv a ip rand =>
      simp only [step] at h
      split at h
      case h_1 p rest hbase halarm hqueue =>
          exact .masterRecv a ip rand p rest t hbase halarm hqueue h
      case h_2 => cases h
  | notify => exact transition_of_notify h
  | masterReply => exact transition_of_masterReply h
  | finish =>
      simp only [step] at h
      split at h
      case h_2 => cases h
      case h_1 r hbase halarm =>
          simp only [Option.ite_none_right_eq_some, Option.some.injEq] at h
          obtain ⟨⟨hsent, hi⟩, rfl⟩ := h
          exact .finish r hbase halarm hsent hi
  | tick =>
      simp only [step, Option.ite_none_right_eq_some, Option.some.injEq] at h
      obtain ⟨⟨halarm, hnum⟩, rfl⟩ := h
      exact .tick halarm hnum
  | tickReply => exact transition_of_tickReply h

end Transitions

end ControlNet

end DistributedDB
