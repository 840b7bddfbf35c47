import DistributedDB.Execution
import DistributedDB.Library.RingBuffer
import DistributedDB.Protocol

/-!
# The main loop, the queue and the connection records

The process of `dbserver.c` with its two worker threads, at the steps between which
another thread can run.  The main loop receives into its one buffer `szBuf`, looks up
the connection record, and hands the request on: to `HandleSlaveRequest`, to
`SendSlaveList`, or as a node with a pointer to `szBuf` into the circular queue of
`CircularQueue.c`.  A worker keeps a pointer to the queue slot of its node, follows the
node's pointer to the packet, and reads the command before the key and the payload.

`recv` leaves `szBuf` unchanged at an end-of-stream or an error, and the main loop does
not look at its result.  The records of `MemoryDB.c` are kept by socket; the handle of
a new record is whatever the stack held.  What the database functions return is left
open: `DBCreate` returns any handle, the others succeed or fail.

The histories at the end of the state are only written.

**Results.**
* `DBServer.step`: the steps; `DBServer.Transition`, what each of them does.
* `DBServer.RecordInv`: the record of a socket is for that socket.
-/

namespace DistributedDB

/-- `DataBase`, the address of an `OpenedDB`; `0` is `NULL`. -/
abbrev DataBase := Nat

/-- `ClientSockHandle`. -/
structure ClientSockHandle where
  sock : Int
  ip : Int
  app : DataBase
deriving DecidableEq, Repr

/-- Where the `buf` of a queue node points to. -/
inductive BufPtr where
  /-- The buffer that `InitQueue` allocates for the slot. -/
  | allocated (slot : Nat)
  | szBuf
deriving DecidableEq, Repr

structure QueueNode where
  hcsock : ClientSockHandle
  buf : BufPtr
  /-- The number of requests that were queued before. -/
  id : Nat
deriving DecidableEq, Repr

/-- What the main loop does with a packet. -/
inductive Gate where
  | handleSlaveRequest
  | sendSlaveList
  | enQueue
deriving DecidableEq, Repr

/-- The tests of the main loop on the packet in `szBuf`. -/
def gate (p : DBPacket) (version : UInt32) : Gate :=
  if CMD.ADD_SLAVE.code ≤ p.cmd.code then .handleSlaveRequest
  else if toUnsigned p.version < version ∧ p.cmd ≠ .OPEN ∧ p.cmd ≠ .CLOSE then
    .sendSlaveList
  else .enQueue

/-- Where the main thread is. -/
inductive MainStage where
  /-- In `epoll_wait`. -/
  | polling
  /-- `epoll_wait` has reported the socket. -/
  | ready (sock : Int)
  /-- `recv` has returned; `arrived` says whether with a packet. -/
  | received (sock : Int) (arrived : Bool)
  /-- `MDBGet` has returned. -/
  | found (sock : Int) (arrived : Bool) (phcsock : Option ClientSockHandle)
  /-- Before `sem_post`. -/
  | posting
  /-- The process has crashed. -/
  | crashed
deriving DecidableEq, Repr

/-- Where a worker is in the loop of `HandleDBRequest`. -/
inductive WorkerStage where
  /-- In `sem_wait`. -/
  | waiting
  /-- Before `DeQueue`. -/
  | woken
  /-- With `pnode = &Q[slot]`. -/
  | dequeued (slot : Nat)
  /-- It has copied the fields of the node. -/
  | fetched (node : QueueNode)
  /-- It has read the command. -/
  | decoded (node : QueueNode) (cmd : CMD)
  /-- Before `send`. -/
  | replying (hcsock : ClientSockHandle)
  /-- Before the `MDBSet` of `DBSendMsg`. -/
  | sent (hcsock : ClientSockHandle)
  /-- In `DBServiceStop`, before `close`. -/
  | closing (sock : Int)
  /-- In `DBServiceStop`, before `MDBDel`. -/
  | removing (sock : Int)
deriving DecidableEq, Repr

structure WorkerThread where
  stage : WorkerStage
  /-- The variable `sendhd.cmd`, which the loop does not reset. -/
  sendhd : CMD
deriving DecidableEq, Repr

/-- A packet that `recv` returned, with what the main loop does with it. -/
structure Arrival where
  sock : Int
  packet : DBPacket
  gate : Gate
deriving DecidableEq, Repr

/-- A packet that was queued, with the handle that the latest successful `OPEN` on its
connection had returned. -/
structure AdmittedPacket where
  sock : Int
  packet : DBPacket
  latest : Option DataBase
deriving DecidableEq, Repr

/-- What a worker executed for node `id`. -/
structure ExecutedPacket where
  id : Nat
  sock : Int
  cmd : CMD
  key : dbKey
  append : List UInt8
  hdb : DataBase
deriving DecidableEq, Repr

/-- The `OPEN`s on a connection. -/
structure Opens where
  /-- What the latest successful one returned. -/
  latest : Option DataBase
  /-- One has failed since. -/
  failed : Bool
deriving DecidableEq, Repr

/-- The `OPEN`s on a connection after one that returned `hdb`. -/
def Opens.after (o : Opens) (hdb : DataBase) : Opens :=
  if hdb = 0 then { o with failed := true } else ⟨some hdb, false⟩

structure DBServer where
  /-- The records by socket. -/
  MDB : Int → Option ClientSockHandle
  /-- The client sockets that are open. -/
  isOpen : Int → Bool
  szBuf : DBPacket
  /-- The buffers that `InitQueue` allocated. -/
  allocated : Nat → DBPacket
  Q : RingBuffer QueueNode MAX_QUEUE_LEN
  MSG_SEM : Nat
  /-- The version of the slave's list. -/
  version : UInt32
  main : MainStage
  workers : Fin THREADS_NUM → WorkerThread
  /-- The packets received, in order. -/
  arrivals : List Arrival
  /-- The requests given to `HandleSlaveRequest` or the queue, in order. -/
  handed : List Arrival
  admitted : List AdmittedPacket
  executed : List ExecutedPacket
  opens : Int → Opens

inductive DBServerEvent where
  /-- The main loop accepts a connection; `app` is what the stack holds. -/
  | accept (sock ip : Int) (app : DataBase)
  /-- `epoll_wait` reports a client socket. -/
  | poll (sock : Int)
  /-- `recv` returns a packet. -/
  | recv (p : DBPacket)
  /-- `recv` returns `0` or `-1`. -/
  | recvFails
  /-- The main loop looks up the record. -/
  | lookUp
  /-- The main loop hands the request on. -/
  | dispatch
  | post
  /-- `HandleMasterRequest` changes the list. -/
  | newVersion
  | wake (w : Fin THREADS_NUM)
  | deQueue (w : Fin THREADS_NUM)
  | fetch (w : Fin THREADS_NUM)
  | decode (w : Fin THREADS_NUM)
  /-- The worker reads key and payload and calls the database, which returns `hdb` or
  succeeds with `ok`. -/
  | execute (w : Fin THREADS_NUM) (hdb : DataBase) (ok : Bool)
  | send (w : Fin THREADS_NUM)
  /-- The `MDBSet` of `DBSendMsg`. -/
  | store (w : Fin THREADS_NUM)
  | close (w : Fin THREADS_NUM)
  /-- The `MDBDel` of `DBServiceStop`. -/
  | remove (w : Fin THREADS_NUM)
deriving DecidableEq, Repr

namespace DBServer

/-- A started process: the slots and their buffers hold anything. -/
def init (slots : Nat → QueueNode) (allocated : Nat → DBPacket) (sendhd : CMD)
    (version : UInt32) : DBServer where
  MDB := fun _ => none
  isOpen := fun _ => false
  szBuf := .zero
  allocated := allocated
  Q := .empty slots (by decide)
  MSG_SEM := 0
  version := version
  main := .polling
  workers := fun _ => ⟨.waiting, sendhd⟩
  arrivals := []
  handed := []
  admitted := []
  executed := []
  opens := fun _ => ⟨none, false⟩

/-- The packet behind a pointer. -/
def load (s : DBServer) : BufPtr → DBPacket
  | .szBuf => s.szBuf
  | .allocated slot => s.allocated slot

def setMain (s : DBServer) (main : MainStage) : DBServer :=
  { s with main := main }

def setStage (s : DBServer) (w : Fin THREADS_NUM) (stage : WorkerStage) : DBServer :=
  { s with workers := Function.update s.workers w { s.workers w with stage := stage } }

/-- `MDBSet` and `MDBDel`. -/
def setRecord (s : DBServer) (sock : Int) (record : Option ClientSockHandle) : DBServer :=
  { s with MDB := Function.update s.MDB sock record }

def setOpen (s : DBServer) (sock : Int) (isOpen : Bool) : DBServer :=
  { s with isOpen := Function.update s.isOpen sock isOpen }

/-- `EnQueue` of a node that points to `szBuf`. -/
def enQueue (s : DBServer) (sock : Int) (arrived : Bool) (hcsock : ClientSockHandle) :
    DBServer :=
  { s with
    Q := s.Q.enqueue ⟨hcsock, .szBuf, s.admitted.length⟩
    main := .posting
    handed := s.handed ++ [⟨hcsock.sock, s.szBuf, .enQueue⟩]
    admitted :=
      if arrived then s.admitted ++ [⟨sock, s.szBuf, (s.opens sock).latest⟩] else s.admitted }

/-- The main loop after `DBRecvMsg`. -/
def dispatched (s : DBServer) (sock : Int) (arrived : Bool) (phcsock : Option ClientSockHandle) :
    DBServer :=
  match gate s.szBuf s.version, phcsock with
  | .sendSlaveList, _ => s.setMain .polling
  | .handleSlaveRequest, some hcsock =>
      { (s.setMain .polling).setOpen hcsock.sock false with
        handed := s.handed ++ [⟨hcsock.sock, s.szBuf, .handleSlaveRequest⟩] }
  | .enQueue, some hcsock =>
      if s.Q.isFull then s.setMain .crashed else s.enQueue sock arrived hcsock
  | _, none => s.setMain .crashed

/-- The `switch` of `HandleDBRequest`: the handle and `sendhd.cmd` afterwards. -/
def handled (app : DataBase) (cmd sendhd : CMD) (hdb : DataBase) (ok : Bool) : DataBase × CMD :=
  match cmd with
  | .OPEN => (hdb, if hdb = 0 then .CMDFAIL else .OPEN_R)
  | .CLOSE => (app, if ok then .CLOSE_R else .CMDFAIL)
  | .SET => (app, if ok then .SET_R else .CMDFAIL)
  | .GET => (app, if ok then .GET_R else .CMDFAIL)
  | .DEL => (app, if ok then .DEL_R else .CMDFAIL)
  | _ => (app, sendhd)

/-- A worker executes the command that it has read, on the key and payload that are in
the buffer now. -/
def executes (s : DBServer) (w : Fin THREADS_NUM) (node : QueueNode) (cmd : CMD) (hdb : DataBase)
    (ok : Bool) : DBServer :=
  let p := s.load node.buf
  let r := handled node.hcsock.app cmd (s.workers w).sendhd hdb ok
  { s with
    workers := Function.update s.workers w ⟨.replying { node.hcsock with app := r.1 }, r.2⟩
    executed := s.executed ++
      [⟨node.id, node.hcsock.sock, cmd, p.key, p.append, node.hcsock.app⟩]
    opens :=
      if cmd = .OPEN then
        Function.update s.opens node.hcsock.sock ((s.opens node.hcsock.sock).after hdb)
      else s.opens }

/-- A step of a worker. -/
def workerStep (s : DBServer) : DBServerEvent → Option DBServer
  | .wake w =>
      if (s.workers w).stage = .waiting ∧ 0 < s.MSG_SEM then
        some { s.setStage w .woken with MSG_SEM := s.MSG_SEM - 1 }
      else none
  | .deQueue w =>
      if (s.workers w).stage = .woken then
        if s.Q.isEmpty then some (s.setMain .crashed)
        else some { s.setStage w (.dequeued s.Q.head) with Q := s.Q.dequeue }
      else none
  | .fetch w =>
      match (s.workers w).stage with
      | .dequeued slot => some (s.setStage w (.fetched (s.Q.slots slot)))
      | _ => none
  | .decode w =>
      match (s.workers w).stage with
      | .fetched node => some (s.setStage w (.decoded node (s.load node.buf).cmd))
      | _ => none
  | .execute w hdb ok =>
      match (s.workers w).stage with
      | .decoded node cmd => some (s.executes w node cmd hdb ok)
      | _ => none
  | .send w =>
      match (s.workers w).stage with
      | .replying hcsock => some (s.setStage w (.sent hcsock))
      | _ => none
  | .store w =>
      match (s.workers w).stage with
      | .sent hcsock =>
          some ((s.setRecord hcsock.sock hcsock).setStage w
            (if (s.workers w).sendhd = .CLOSE_R then .closing hcsock.sock else .waiting))
      | _ => none
  | .close w =>
      match (s.workers w).stage with
      | .closing sock =>
          match s.MDB sock with
          | some hcsock => some ((s.setOpen hcsock.sock false).setStage w (.removing hcsock.sock))
          | none => some (s.setMain .crashed)
      | _ => none
  | .remove w =>
      match (s.workers w).stage with
      | .removing sock => some ((s.setRecord sock none).setStage w .waiting)
      | _ => none
  | _ => none

/-- A step of the main thread. -/
def mainStep (s : DBServer) : DBServerEvent → Option DBServer
  | .accept sock ip app =>
      if s.main = .polling ∧ s.isOpen sock = false then
        some { (s.setRecord sock (some ⟨sock, ip, app⟩)).setOpen sock true with
          opens := Function.update s.opens sock ⟨none, false⟩ }
      else none
  | .poll sock =>
      if s.main = .polling ∧ s.isOpen sock then some (s.setMain (.ready sock)) else none
  | .recv p =>
      match s.main with
      | .ready sock =>
          if s.isOpen sock then
            some { s.setMain (.received sock true) with
              szBuf := p
              arrivals := s.arrivals ++ [⟨sock, p, gate p s.version⟩] }
          else none
      | _ => none
  | .recvFails =>
      match s.main with
      | .ready sock => some (s.setMain (.received sock false))
      | _ => none
  | .lookUp =>
      match s.main with
      | .received sock arrived => some (s.setMain (.found sock arrived (s.MDB sock)))
      | _ => none
  | .dispatch =>
      match s.main with
      | .found sock arrived phcsock => some (s.dispatched sock arrived phcsock)
      | _ => none
  | .post =>
      if s.main = .posting then some { s.setMain .polling with MSG_SEM := s.MSG_SEM + 1 }
      else none
  | .newVersion =>
      if s.main = .polling then some { s with version := s.version + 1 } else none
  | _ => none

/-- One step of the process; `none` when the event cannot happen. -/
def step (s : DBServer) (e : DBServerEvent) : Option DBServer :=
  if s.main = .crashed then none
  else
    match s.mainStep e with
    | some s' => some s'
    | none => s.workerStep e

/-- Everything that a step can do. -/
inductive Transition (s : DBServer) : DBServerEvent → DBServer → Prop where
  | accept (sock ip : Int) (app : DataBase) (hmain : s.main = .polling)
      (hclosed : s.isOpen sock = false) :
      Transition s (.accept sock ip app)
        { (s.setRecord sock (some ⟨sock, ip, app⟩)).setOpen sock true with
          opens := Function.update s.opens sock ⟨none, false⟩ }
  | poll (sock : Int) (hmain : s.main = .polling) :
      Transition s (.poll sock) (s.setMain (.ready sock))
  | recv (p : DBPacket) (sock : Int) (hmain : s.main = .ready sock) :
      Transition s (.recv p)
        { s.setMain (.received sock true) with
          szBuf := p
          arrivals := s.arrivals ++ [⟨sock, p, gate p s.version⟩] }
  | recvFails (sock : Int) (hmain : s.main = .ready sock) :
      Transition s .recvFails (s.setMain (.received sock false))
  | lookUp (sock : Int) (arrived : Bool) (hmain : s.main = .received sock arrived) :
      Transition s .lookUp (s.setMain (.found sock arrived (s.MDB sock)))
  | listSent (sock : Int) (arrived : Bool) (phcsock : Option ClientSockHandle)
      (hmain : s.main = .found sock arrived phcsock)
      (hgate : gate s.szBuf s.version = .sendSlaveList) :
      Transition s .dispatch (s.setMain .polling)
  | slaveRequest (sock : Int) (arrived : Bool) (hcsock : ClientSockHandle)
      (hmain : s.main = .found sock arrived (some hcsock))
      (hgate : gate s.szBuf s.version = .handleSlaveRequest) :
      Transition s .dispatch
        { (s.setMain .polling).setOpen hcsock.sock false with
          handed := s.handed ++ [⟨hcsock.sock, s.szBuf, .handleSlaveRequest⟩] }
  | queued (sock : Int) (arrived : Bool) (hcsock : ClientSockHandle)
      (hmain : s.main = .found sock arrived (some hcsock))
      (hgate : gate s.szBuf s.version = .enQueue) (hfull : s.Q.isFull = false) :
      Transition s .dispatch (s.enQueue sock arrived hcsock)
  | crash (e : DBServerEvent) : Transition s e (s.setMain .crashed)
  | post (hmain : s.main = .posting) :
      Transition s .post { s.setMain .polling with MSG_SEM := s.MSG_SEM + 1 }
  | newVersion (hmain : s.main = .polling) :
      Transition s .newVersion { s with version := s.version + 1 }
  | wake (w : Fin THREADS_NUM) (hw : (s.workers w).stage = .waiting) (hsem : 0 < s.MSG_SEM) :
      Transition s (.wake w) { s.setStage w .woken with MSG_SEM := s.MSG_SEM - 1 }
  | deQueue (w : Fin THREADS_NUM) (hw : (s.workers w).stage = .woken)
      (hempty : s.Q.isEmpty = false) :
      Transition s (.deQueue w) { s.setStage w (.dequeued s.Q.head) with Q := s.Q.dequeue }
  | fetch (w : Fin THREADS_NUM) (slot : Nat) (hw : (s.workers w).stage = .dequeued slot) :
      Transition s (.fetch w) (s.setStage w (.fetched (s.Q.slots slot)))
  | decode (w : Fin THREADS_NUM) (node : QueueNode) (hw : (s.workers w).stage = .fetched node) :
      Transition s (.decode w) (s.setStage w (.decoded node (s.load node.buf).cmd))
  | execute (w : Fin THREADS_NUM) (hdb : DataBase) (ok : Bool) (node : QueueNode) (cmd : CMD)
      (hw : (s.workers w).stage = .decoded node cmd) :
      Transition s (.execute w hdb ok) (s.executes w node cmd hdb ok)
  | send (w : Fin THREADS_NUM) (hcsock : ClientSockHandle)
      (hw : (s.workers w).stage = .replying hcsock) :
      Transition s (.send w) (s.setStage w (.sent hcsock))
  | store (w : Fin THREADS_NUM) (hcsock : ClientSockHandle)
      (hw : (s.workers w).stage = .sent hcsock) :
      Transition s (.store w)
        ((s.setRecord hcsock.sock hcsock).setStage w
          (if (s.workers w).sendhd = .CLOSE_R then .closing hcsock.sock else .waiting))
  | close (w : Fin THREADS_NUM) (sock : Int) (hcsock : ClientSockHandle)
      (hw : (s.workers w).stage = .closing sock) (hrecord : s.MDB sock = some hcsock) :
      Transition s (.close w)
        ((s.setOpen hcsock.sock false).setStage w (.removing hcsock.sock))
  | remove (w : Fin THREADS_NUM) (sock : Int) (hw : (s.workers w).stage = .removing sock) :
      Transition s (.remove w) ((s.setRecord sock none).setStage w .waiting)

section Inversion

variable {s s' : DBServer}

theorem transition_of_dispatched {sock : Int} {arrived : Bool}
    {phcsock : Option ClientSockHandle} (hmain : s.main = .found sock arrived phcsock) :
    s.Transition .dispatch (s.dispatched sock arrived phcsock) := by
  unfold dispatched
  split
  case h_1 hgate => exact .listSent sock arrived _ hmain hgate
  case h_2 hcsock hgate => exact .slaveRequest sock arrived hcsock hmain hgate
  case h_3 hcsock hgate =>
      split
      case isTrue => exact .crash _
      case isFalse hfull => exact .queued sock arrived hcsock hmain hgate (by simpa using hfull)
  case h_4 => exact .crash _

theorem transition_of_mainStep {e : DBServerEvent} (h : s.mainStep e = some s') :
    s.Transition e s' := by
  cases e with
  | accept sock ip app =>
      simp only [mainStep, Option.ite_none_right_eq_some] at h
      obtain ⟨⟨hmain, hclosed⟩, h⟩ := h
      obtain rfl := Option.some.inj h
      exact .accept sock ip app hmain hclosed
  | poll sock =>
      simp only [mainStep, Option.ite_none_right_eq_some] at h
      obtain rfl := Option.some.inj h.2
      exact .poll sock h.1.1
  | recv p =>
      simp only [mainStep] at h
      split at h
      case h_2 => cases h
      case h_1 sock hmain =>
          simp only [Option.ite_none_right_eq_some] at h
          obtain rfl := Option.some.inj h.2
          exact .recv p sock hmain
  | recvFails =>
      simp only [mainStep] at h
      split at h
      case h_2 => cases h
      case h_1 sock hmain =>
          obtain rfl := Option.some.inj h
          exact .recvFails sock hmain
  | lookUp =>
      simp only [mainStep] at h
      split at h
      case h_2 => cases h
      case h_1 sock arrived hmain =>
          obtain rfl := Option.some.inj h
          exact .lookUp sock arrived hmain
  | dispatch =>
      simp only [mainStep] at h
      split at h
      case h_2 => cases h
      case h_1 sock arrived phcsock hmain =>
          obtain rfl := Option.some.inj h
          exact transition_of_dispatched hmain
  | post =>
      simp only [mainStep, Option.ite_none_right_eq_some] at h
      obtain rfl := Option.some.inj h.2
      exact .post h.1
  | newVersion =>
      simp only [mainStep, Option.ite_none_right_eq_some] at h
      obtain rfl := Option.some.inj h.2
      exact .newVersion h.1
  | _ => cases h

theorem transition_of_workerStep {e : DBServerEvent} (h : s.workerStep e = some s') :
    s.Transition e s' := by
  cases e with
  | wake w =>
      simp only [workerStep, Option.ite_none_right_eq_some] at h
      obtain rfl := Option.some.inj h.2
      exact .wake w h.1.1 h.1.2
  | deQueue w =>
      simp only [workerStep, Option.ite_none_right_eq_some] at h
      obtain ⟨hstage, h⟩ := h
      split at h
      case isTrue =>
          obtain rfl := Option.some.inj h
          exact .crash _
      case isFalse hempty =>
          obtain rfl := Option.some.inj h
          exact .deQueue w hstage (by simpa using hempty)
  | fetch w =>
      simp only [workerStep] at h
      split at h
      case h_2 => cases h
      case h_1 slot hstage =>
          obtain rfl := Option.some.inj h
          exact .fetch w slot hstage
  | decode w =>
      simp only [workerStep] at h
      split at h
      case h_2 => cases h
      case h_1 node hstage =>
          obtain rfl := Option.some.inj h
          exact .decode w node hstage
  | execute w hdb ok =>
      simp only [workerStep] at h
      split at h
      case h_2 => cases h
      case h_1 node cmd hstage =>
          obtain rfl := Option.some.inj h
          exact .execute w hdb ok node cmd hstage
  | send w =>
      simp only [workerStep] at h
      split at h
      case h_2 => cases h
      case h_1 hcsock hstage =>
          obtain rfl := Option.some.inj h
          exact .send w hcsock hstage
  | store w =>
      simp only [workerStep] at h
      split at h
      case h_2 => cases h
      case h_1 hcsock hstage =>
          obtain rfl := Option.some.inj h
          exact .store w hcsock hstage
  | close w =>
      simp only [workerStep] at h
      split at h
      case h_2 => cases h
      case h_1 sock hstage =>
          split at h
          case h_1 hcsock hrecord =>
              obtain rfl := Option.some.inj h
              exact .close w sock hcsock hstage hrecord
          case h_2 =>
              obtain rfl := Option.some.inj h
              exact .crash _
  | remove w =>
      simp only [workerStep] at h
      split at h
      case h_2 => cases h
      case h_1 sock hstage =>
          obtain rfl := Option.some.inj h
          exact .remove w sock hstage
  | _ => cases h

/-- **A step does one of these things, and the process has not crashed before.** -/
theorem transition_of_step {e : DBServerEvent} (h : s.step e = some s') :
    s.main ≠ .crashed ∧ s.Transition e s' := by
  simp only [step, Option.ite_none_left_eq_some] at h
  obtain ⟨hcrashed, h⟩ := h
  refine ⟨hcrashed, ?_⟩
  split at h
  case h_1 hmain =>
      obtain rfl := Option.some.inj h
      exact transition_of_mainStep hmain
  case h_2 => exact transition_of_workerStep h

end Inversion

/-- The record of a socket is a record for that socket. -/
structure RecordInv (s : DBServer) : Prop where
  records : ∀ sock hcsock, s.MDB sock = some hcsock → hcsock.sock = sock
  found : ∀ sock arrived hcsock, s.main = .found sock arrived (some hcsock) → hcsock.sock = sock

theorem recordInv_init (slots : Nat → QueueNode) (allocated : Nat → DBPacket) (sendhd : CMD)
    (version : UInt32) : (init slots allocated sendhd version).RecordInv where
  records := nofun
  found := nofun

section Records

variable {s : DBServer}

theorem RecordInv.setRecord (h : s.RecordInv) {sock : Int} {record : Option ClientSockHandle}
    (hrecord : ∀ hcsock, record = some hcsock → hcsock.sock = sock) :
    ∀ a hcsock, (s.setRecord sock record).MDB a = some hcsock → hcsock.sock = a := by
  intro a hcsock ha
  simp only [DBServer.setRecord, Function.update_apply] at ha
  split at ha
  case isTrue heq => exact (hrecord hcsock ha).trans heq.symm
  case isFalse => exact h.records a hcsock ha

theorem RecordInv.step (h : s.RecordInv) {e : DBServerEvent} {s' : DBServer}
    (hstep : s.step e = some s') : s'.RecordInv := by
  obtain ⟨-, htransition⟩ := transition_of_step hstep
  cases htransition with
  | accept sock ip app hmain =>
      refine ⟨h.setRecord ?_, h.found⟩
      intro hcsock heq
      exact congrArg ClientSockHandle.sock (Option.some.inj heq).symm
  | lookUp sock arrived hmain =>
      refine ⟨h.records, ?_⟩
      intro sock' arrived' hcsock hfound
      obtain ⟨rfl, -, hrecord⟩ := MainStage.found.inj hfound
      exact h.records _ _ hrecord
  | store w hcsock hw =>
      refine ⟨h.setRecord ?_, h.found⟩
      intro hcsock' heq
      exact congrArg ClientSockHandle.sock (Option.some.inj heq).symm
  | remove w sock hw => exact ⟨h.setRecord nofun, h.found⟩
  | poll | recv | recvFails | listSent | slaveRequest | queued | crash | post =>
      exact ⟨h.records, nofun⟩
  | newVersion | wake | deQueue | fetch | decode | execute | send | close =>
      exact ⟨h.records, h.found⟩

end Records

end DBServer

end DistributedDB
