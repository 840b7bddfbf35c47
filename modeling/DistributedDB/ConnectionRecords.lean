import DistributedDB.Library.Run
import DistributedDB.MainLoop

/-!
# The records of the sockets

The main loop of `dbserver.c` and the workers at the calls of `MDBGet`, `close`, `MDBSet`
and `MDBDel`, over the descriptors of the process.  A descriptor that is closed may be
handed out again at once, for a connection or for anything else that a thread opens.
`listen_sock` and `master_sock` are registered with `EPOLLRDHUP`, the sockets of clients
without; `master_sock` never gets a record.  `HandleSlaveRequest` closes its socket, in two
of its branches twice, and leaves the record.

A connection has a number of its own, which only the histories use.

**Results.**
* `RecordServer.step`: the steps.
* `RecordServer.RecordsInv`: what is pending belongs to the connection that has the
  descriptor; each step that meets the condition keeps it.
* `RecordServer.recorded_of_allSteps`: every lookup finds the record of the connection that
  uses the descriptor if a connection is closed only when nothing else of it is pending,
  and its number is not accepted again before its record is deleted, and the master stays.
* `RecordServer.master_hangs_up`, `new_record_deleted`: lookups that find nothing.
-/

namespace DistributedDB

open Run

/-- What a descriptor is open for. -/
inductive DescriptorUse where
  /-- The connection of a client or of another slave. -/
  | connection (id : Nat)
  | other
deriving DecidableEq, Repr

/-- A record, with the connection that it was made for. -/
structure SocketRecord where
  hcsock : ClientSockHandle
  id : Nat
deriving DecidableEq, Repr

/-- A lookup in `DBRecvMsg` or `DBServiceStop`, with the use of the descriptor then. -/
structure RecordLookup where
  sock : Int
  found : Option SocketRecord
  use : Option DescriptorUse
deriving DecidableEq, Repr

/-- Where the main loop is. -/
inductive LoopStage where
  /-- In `epoll_wait`. -/
  | polling
  /-- In `DBServiceStart`, before `MDBSet`. -/
  | accepted (record : SocketRecord)
  /-- Before `recv`, and then before `MDBGet`. -/
  | ready (sock : Int)
  | received (sock : Int)
  /-- `DBRecvMsg` has returned. -/
  | found (sock : Int) (record : SocketRecord)
  /-- In `HandleSlaveRequest`, before so many calls of `close` and one more. -/
  | closing (sock : Int) (more : Nat)
  /-- In `DBServiceStop` for a hang-up: before `MDBGet`, `close` and `MDBDel`. -/
  | hangUp (sock : Int)
  | hangUpClosing (sock : Int)
  | hangUpRemoving (sock : Int)
  /-- A record that is `NULL` has been used. -/
  | crashed
deriving DecidableEq, Repr

/-- Where a worker is. -/
inductive HandlerStage where
  | waiting
  /-- With a request, up to the `MDBSet` of `DBSendMsg`. -/
  | handling (record : SocketRecord)
  /-- In `DBServiceStop`: before `MDBGet`, `close` and `MDBDel`. -/
  | stopping (record : SocketRecord)
  | closing (record : SocketRecord)
  | removing (sock : Int)
deriving DecidableEq, Repr

structure RecordServer where
  MDB : Int → Option SocketRecord
  /-- The open descriptors. -/
  fds : Int → Option DescriptorUse
  /-- The registered sockets, with whether `EPOLLRDHUP` is reported. -/
  epoll : Int → Option Bool
  listen_sock : Int
  master_sock : Int
  main : LoopStage
  /-- The records in the nodes of the queue. -/
  queue : List SocketRecord
  workers : Fin THREADS_NUM → HandlerStage
  /-- The number of connections that have been accepted. -/
  accepts : Nat
  lookups : List RecordLookup

inductive RecordEvent where
  /-- `accept` returns a descriptor; `app` is what the stack holds. -/
  | accept (sock ip : Int) (app : DataBase)
  /-- `MDBSet` and `epoll_ctl`. -/
  | start
  /-- `epoll_wait` reports a socket, and a hang-up. -/
  | poll (sock : Int)
  | hangUp (sock : Int)
  | recv
  /-- The `MDBGet` of `DBRecvMsg`. -/
  | lookUp
  /-- The packet goes to `HandleSlaveRequest`, which closes the socket again if `twice`. -/
  | slaveRequest (twice : Bool)
  /-- The packet is answered with the slave list. -/
  | sendSlaveList
  | enQueue
  /-- A `close` of `HandleSlaveRequest`. -/
  | closeSocket
  /-- The steps of `DBServiceStop` in the main loop. -/
  | hangUpGet
  | hangUpClose
  | hangUpDel
  | deQueue (w : Fin THREADS_NUM)
  /-- The `MDBSet` of `DBSendMsg`; `stops` when the reply is `CLOSE_R`. -/
  | store (w : Fin THREADS_NUM) (app : DataBase) (stops : Bool)
  /-- The steps of `DBServiceStop` in a worker. -/
  | get (w : Fin THREADS_NUM)
  | close (w : Fin THREADS_NUM)
  | del (w : Fin THREADS_NUM)
  /-- A thread opens or closes something else. -/
  | openOther (fd : Int)
  | closeOther (fd : Int)
deriving DecidableEq, Repr

namespace RecordServer

def init (listen_sock master_sock : Int) : RecordServer where
  MDB := fun _ => none
  fds := fun fd => if fd = listen_sock ∨ fd = master_sock then some .other else none
  epoll := fun fd => if fd = listen_sock ∨ fd = master_sock then some true else none
  listen_sock := listen_sock
  master_sock := master_sock
  main := .polling
  queue := []
  workers := fun _ => .waiting
  accepts := 0
  lookups := []

/-- `MDBSet` and `MDBDel`. -/
def setRecord (s : RecordServer) (sock : Int) (record : Option SocketRecord) : RecordServer :=
  { s with MDB := Function.update s.MDB sock record }

/-- `close`, which also takes the socket out of the epoll set. -/
def closeFd (s : RecordServer) (sock : Int) : RecordServer :=
  { s with
    fds := Function.update s.fds sock none
    epoll := Function.update s.epoll sock none }

/-- `MDBGet` in `DBRecvMsg` or `DBServiceStop`. -/
def logLookup (s : RecordServer) (sock : Int) : RecordServer :=
  { s with lookups := s.lookups ++ [⟨sock, s.MDB sock, s.fds sock⟩] }

def setMain (s : RecordServer) (main : LoopStage) : RecordServer :=
  { s with main := main }

def setWorker (s : RecordServer) (w : Fin THREADS_NUM) (stage : HandlerStage) : RecordServer :=
  { s with workers := Function.update s.workers w stage }

/-- A step of the main loop. -/
def mainStep (s : RecordServer) : RecordEvent → Option RecordServer
  | .accept sock ip app =>
      if s.main = .polling ∧ s.fds sock = none then
        some { s.setMain (.accepted ⟨⟨sock, ip, app⟩, s.accepts⟩) with
          fds := Function.update s.fds sock (some (.connection s.accepts))
          accepts := s.accepts + 1 }
      else none
  | .start =>
      match s.main with
      | .accepted record =>
          some { (s.setRecord record.hcsock.sock record).setMain .polling with
            epoll := Function.update s.epoll record.hcsock.sock (some false) }
      | _ => none
  | .poll sock =>
      if s.main = .polling ∧ s.epoll sock = some false then some (s.setMain (.ready sock))
      else none
  | .hangUp sock =>
      if s.main = .polling ∧ s.epoll sock = some true ∧ sock ≠ s.listen_sock then
        some (s.setMain (.hangUp sock))
      else none
  | .recv =>
      match s.main with
      | .ready sock => some (s.setMain (.received sock))
      | _ => none
  | .lookUp =>
      match s.main with
      | .received sock =>
          match s.MDB sock with
          | some record => some ((s.logLookup sock).setMain (.found sock record))
          | none => some ((s.logLookup sock).setMain .crashed)
      | _ => none
  | .slaveRequest twice =>
      match s.main with
      | .found _ record => some (s.setMain (.closing record.hcsock.sock twice.toNat))
      | _ => none
  | .sendSlaveList =>
      match s.main with
      | .found _ _ => some (s.setMain .polling)
      | _ => none
  | .enQueue =>
      match s.main with
      | .found _ record => some { s.setMain .polling with queue := s.queue ++ [record] }
      | _ => none
  | .closeSocket =>
      match s.main with
      | .closing sock 0 => some ((s.closeFd sock).setMain .polling)
      | .closing sock (more + 1) => some ((s.closeFd sock).setMain (.closing sock more))
      | _ => none
  | .hangUpGet =>
      match s.main with
      | .hangUp sock =>
          match s.MDB sock with
          | some record => some ((s.logLookup sock).setMain (.hangUpClosing record.hcsock.sock))
          | none => some ((s.logLookup sock).setMain .crashed)
      | _ => none
  | .hangUpClose =>
      match s.main with
      | .hangUpClosing sock => some ((s.closeFd sock).setMain (.hangUpRemoving sock))
      | _ => none
  | .hangUpDel =>
      match s.main with
      | .hangUpRemoving sock => some ((s.setRecord sock none).setMain .polling)
      | _ => none
  | _ => none

/-- A step of a worker, or of any thread on something else. -/
def workerStep (s : RecordServer) : RecordEvent → Option RecordServer
  | .deQueue w =>
      match s.workers w, s.queue with
      | .waiting, record :: queue => some { s.setWorker w (.handling record) with queue := queue }
      | _, _ => none
  | .store w app stops =>
      match s.workers w with
      | .handling record =>
          let record : SocketRecord := { record with hcsock := { record.hcsock with app := app } }
          some ((s.setRecord record.hcsock.sock record).setWorker w
            (if stops then .stopping record else .waiting))
      | _ => none
  | .get w =>
      match s.workers w with
      | .stopping record =>
          match s.MDB record.hcsock.sock with
          | some phcsock => some ((s.logLookup record.hcsock.sock).setWorker w (.closing phcsock))
          | none => some ((s.logLookup record.hcsock.sock).setMain .crashed)
      | _ => none
  | .close w =>
      match s.workers w with
      | .closing record =>
          some ((s.closeFd record.hcsock.sock).setWorker w (.removing record.hcsock.sock))
      | _ => none
  | .del w =>
      match s.workers w with
      | .removing sock => some ((s.setRecord sock none).setWorker w .waiting)
      | _ => none
  | .openOther fd =>
      if s.fds fd = none then some { s with fds := Function.update s.fds fd (some .other) }
      else none
  | .closeOther fd =>
      if s.fds fd = some .other ∧ fd ≠ s.listen_sock ∧ fd ≠ s.master_sock then
        some { s with fds := Function.update s.fds fd none }
      else none
  | _ => none

/-- One step of the process; `none` when the event cannot happen. -/
def step (s : RecordServer) (e : RecordEvent) : Option RecordServer :=
  if s.main = .crashed then none
  else
    match s.mainStep e with
    | some s' => some s'
    | none => s.workerStep e

/-- Every lookup has found the record of the connection that used the descriptor. -/
def Recorded (s : RecordServer) : Prop :=
  ∀ x ∈ s.lookups, ∃ record, x.found = some record ∧ x.use = some (.connection record.id)

end RecordServer

/-- The request that a worker is busy with. -/
def HandlerStage.record : HandlerStage → Option SocketRecord
  | .handling record | .stopping record | .closing record => some record
  | _ => none

/-- The record that a worker is about to close. -/
def HandlerStage.toClose : HandlerStage → Option SocketRecord
  | .closing record => some record
  | _ => none

/-- The record that the main loop has found. -/
def LoopStage.request : LoopStage → Option SocketRecord
  | .found _ record => some record
  | _ => none

/-- The socket that the main loop is busy with. -/
def LoopStage.sock : LoopStage → Option Int
  | .accepted record => some record.hcsock.sock
  | .ready sock | .received sock | .found sock _ | .closing sock _ => some sock
  | _ => none

namespace RecordServer

/-- No request for the socket is queued, and none is with a worker other than `w`. -/
def NothingPending (s : RecordServer) (sock : Int) (w : Option (Fin THREADS_NUM)) : Prop :=
  (∀ record ∈ s.queue, record.hcsock.sock ≠ sock) ∧
    ∀ w', some w' ≠ w → ∀ record ∈ (s.workers w').record, record.hcsock.sock ≠ sock

/-- The condition on a step: the master does not hang up; a connection is closed when
nothing else of it is pending; and its number is not accepted again before its record is
deleted. -/
def Orderly (s : RecordServer) : RecordEvent → Prop
  | .hangUp _ => False
  | .accept sock _ _ => ∀ w, s.workers w ≠ .removing sock
  | .slaveRequest _ => ∀ record ∈ s.main.request, s.NothingPending record.hcsock.sock none
  | .close w =>
      ∀ record ∈ (s.workers w).toClose,
        s.NothingPending record.hcsock.sock (some w) ∧ s.main.sock ≠ some record.hcsock.sock
  | _ => True

instance (s : RecordServer) (sock : Int) (w : Option (Fin THREADS_NUM)) :
    Decidable (s.NothingPending sock w) :=
  inferInstanceAs (Decidable (_ ∧ ∀ w', some w' ≠ w → _))

instance (s : RecordServer) (e : RecordEvent) : Decidable (s.Orderly e) :=
  match e with
  | .hangUp _ => isFalse id
  | .accept sock _ _ => inferInstanceAs (Decidable (∀ w, s.workers w ≠ .removing sock))
  | .slaveRequest _ =>
      inferInstanceAs (Decidable (∀ record ∈ s.main.request,
        s.NothingPending record.hcsock.sock none))
  | .close w =>
      inferInstanceAs (Decidable (∀ record ∈ (s.workers w).toClose,
        s.NothingPending record.hcsock.sock (some w) ∧ s.main.sock ≠ some record.hcsock.sock))
  | .start | .poll _ | .recv | .lookUp | .sendSlaveList | .enQueue | .closeSocket | .hangUpGet
  | .hangUpClose | .hangUpDel | .deQueue _ | .store _ _ _ | .get _ | .del _ | .openOther _
  | .closeOther _ => isTrue trivial

/-- The record is of the connection that has its descriptor. -/
def Live (s : RecordServer) (record : SocketRecord) : Prop :=
  s.fds record.hcsock.sock = some (.connection record.id)

/-- What holds of the socket that the main loop is busy with. -/
def MainInv (s : RecordServer) : Prop :=
  match s.main with
  | .polling => True
  | .accepted record => s.Live record ∧ s.NothingPending record.hcsock.sock none
  | .ready sock | .received sock => ∃ id, s.fds sock = some (.connection id)
  | .found sock record => record.hcsock.sock = sock ∧ s.Live record
  | .closing sock _ => s.NothingPending sock none
  | _ => False

/-- **The invariant of the orderly runs.** -/
structure RecordsInv (s : RecordServer) : Prop where
  main : s.MainInv
  recorded : ∀ sock id, s.fds sock = some (.connection id) →
    (∀ record, s.main = .accepted record → record.hcsock.sock ≠ sock) →
      ∃ record, s.MDB sock = some record ∧ record.id = id
  socks : ∀ sock record, s.MDB sock = some record → record.hcsock.sock = sock
  queued : ∀ record ∈ s.queue, s.Live record
  handled : ∀ w, ∀ record ∈ (s.workers w).record, s.Live record
  removed : ∀ w sock, s.workers w = .removing sock →
      ∀ id, s.fds sock ≠ some (.connection id)
  clients : ∀ sock, s.epoll sock = some false → ∃ id, s.fds sock = some (.connection id)
  lookups : s.Recorded

theorem recordsInv_init (listen_sock master_sock : Int) :
    (init listen_sock master_sock).RecordsInv where
  main := trivial
  recorded := by
    intro sock id h
    simp only [init] at h
    split at h <;> cases h
  socks := nofun
  queued := nofun
  handled := nofun
  removed := nofun
  clients := by
    intro sock h
    simp only [init] at h
    split at h <;> cases h
  lookups := nofun

section Parts

variable {s : RecordServer} {sock : Int} {record : SocketRecord}

theorem RecordsInv.setMain (h : s.RecordsInv) (hmain : ∀ record, s.main ≠ .accepted record)
    {main : LoopStage} (hinv : (s.setMain main).MainInv) : (s.setMain main).RecordsInv where
  main := hinv
  recorded := fun sock id hfds _ => h.recorded sock id hfds fun record hr =>
    absurd hr (hmain record)
  socks := h.socks
  queued := h.queued
  handled := h.handled
  removed := h.removed
  clients := h.clients
  lookups := h.lookups

/-- A record is written for the connection that has the descriptor. -/
theorem RecordsInv.setRecord (h : s.RecordsInv) (record : SocketRecord) (hlive : s.Live record) :
    (s.setRecord record.hcsock.sock (some record)).RecordsInv where
  main := h.main
  recorded := by
    intro sock id hfds hmain
    simp only [RecordServer.setRecord, Function.update_apply]
    split
    case isTrue heq =>
        have hsame : some (DescriptorUse.connection record.id) = some (.connection id) :=
          hlive.symm.trans (heq ▸ hfds)
        refine ⟨record, rfl, ?_⟩
        injection hsame with hsame
        injection hsame
    case isFalse => exact h.recorded sock id hfds hmain
  socks := by
    intro sock record' hr
    simp only [RecordServer.setRecord, Function.update_apply] at hr
    split at hr
    case isTrue heq => rw [heq, Option.some.inj hr]
    case isFalse => exact h.socks sock record' hr
  queued := h.queued
  handled := h.handled
  removed := h.removed
  clients := h.clients
  lookups := h.lookups

/-- The record of a descriptor that no connection has is deleted. -/
theorem RecordsInv.delRecord (h : s.RecordsInv)
    (hsock : ∀ id, s.fds sock ≠ some (.connection id)) :
    (s.setRecord sock none).RecordsInv where
  main := h.main
  recorded := by
    intro sock' id hfds hmain
    have hne : sock' ≠ sock := by
      rintro rfl
      exact hsock id hfds
    simp only [RecordServer.setRecord, Function.update_of_ne hne]
    exact h.recorded sock' id hfds hmain
  socks := by
    intro sock' record' hr
    simp only [RecordServer.setRecord, Function.update_apply] at hr
    split at hr
    case isTrue => cases hr
    case isFalse => exact h.socks sock' record' hr
  queued := h.queued
  handled := h.handled
  removed := h.removed
  clients := h.clients
  lookups := h.lookups

/-- Requests leave the queue. -/
theorem RecordsInv.of_queue (h : s.RecordsInv) {queue : List SocketRecord}
    (hsub : ∀ record ∈ queue, record ∈ s.queue) :
    ({ s with queue := queue } : RecordServer).RecordsInv where
  main := by
    have hmain := h.main
    unfold MainInv at hmain ⊢
    cases hs : s.main <;> rw [hs] at hmain <;> simp only
    case accepted record =>
      exact ⟨hmain.1, fun r hr => hmain.2.1 r (hsub r hr), hmain.2.2⟩
    case closing sock more => exact ⟨fun r hr => hmain.1 r (hsub r hr), hmain.2⟩
    all_goals exact hmain
  recorded := h.recorded
  socks := h.socks
  queued := fun record hr => h.queued record (hsub record hr)
  handled := h.handled
  removed := h.removed
  clients := h.clients
  lookups := h.lookups

/-- A lookup finds the record of the connection that has the descriptor. -/
theorem RecordsInv.logLookup (h : s.RecordsInv) (hfound : s.MDB sock = some record)
    (hfds : s.fds sock = some (.connection record.id)) : (s.logLookup sock).RecordsInv where
  main := h.main
  recorded := h.recorded
  socks := h.socks
  queued := h.queued
  handled := h.handled
  removed := h.removed
  clients := h.clients
  lookups := by
    intro x hx
    rcases List.mem_append.mp hx with hold | hnew
    · exact h.lookups x hold
    · rw [List.mem_singleton.mp hnew]
      exact ⟨record, hfound, hfds⟩

theorem nothingPending_setWorker {w : Fin THREADS_NUM} {stage : HandlerStage}
    (h : s.NothingPending sock none)
    (hstage : ∀ record ∈ stage.record, record.hcsock.sock ≠ sock) :
    (s.setWorker w stage).NothingPending sock none := by
  refine ⟨h.1, fun w' _ record hr => ?_⟩
  simp only [setWorker, Function.update_apply] at hr
  split at hr
  case isTrue => exact hstage record hr
  case isFalse => exact h.2 w' (by simp) record hr

/-- A worker goes on with a request that is live. -/
theorem RecordsInv.setWorker (h : s.RecordsInv) (w : Fin THREADS_NUM) (stage : HandlerStage)
    (hlive : ∀ record ∈ stage.record, s.Live record)
    (hold : ∀ record ∈ stage.record, ∀ sock, s.NothingPending sock none →
      record.hcsock.sock ≠ sock)
    (hremoved : ∀ sock, stage = .removing sock → ∀ id, s.fds sock ≠ some (.connection id)) :
    (s.setWorker w stage).RecordsInv where
  main := by
    have hmain := h.main
    unfold MainInv at hmain ⊢
    cases hs : s.main <;> rw [hs] at hmain <;> simp only [RecordServer.setWorker, hs]
    case accepted record =>
      exact ⟨hmain.1, nothingPending_setWorker hmain.2 fun r hr => hold r hr _ hmain.2⟩
    case closing sock more =>
      exact nothingPending_setWorker hmain fun r hr => hold r hr _ hmain
    all_goals exact hmain
  recorded := h.recorded
  socks := h.socks
  queued := h.queued
  handled := by
    intro w' record hr
    simp only [RecordServer.setWorker, Function.update_apply] at hr
    split at hr
    case isTrue => exact hlive record hr
    case isFalse => exact h.handled w' record hr
  removed := by
    intro w' sock hr
    simp only [RecordServer.setWorker, Function.update_apply] at hr
    split at hr
    case isTrue => exact hremoved sock hr
    case isFalse => exact h.removed w' sock hr
  clients := h.clients
  lookups := h.lookups

/-- A descriptor that no connection has is opened for something else, or closed. -/
theorem RecordsInv.of_fds (h : s.RecordsInv) {fd : Int}
    (hfd : ∀ id, s.fds fd ≠ some (.connection id)) {use : Option DescriptorUse}
    (huse : ∀ id, use ≠ some (.connection id)) :
    ({ s with fds := Function.update s.fds fd use } : RecordServer).RecordsInv := by
  have hkeep : ∀ sock id, s.fds sock = some (.connection id) →
      Function.update s.fds fd use sock = some (.connection id) := by
    intro sock id hsock
    rw [Function.update_of_ne]
    · exact hsock
    · rintro rfl
      exact hfd id hsock
  have hback : ∀ sock id, Function.update s.fds fd use sock = some (.connection id) →
      s.fds sock = some (.connection id) := by
    intro sock id hsock
    rw [Function.update_apply] at hsock
    split at hsock
    case isTrue => exact absurd hsock (huse id)
    case isFalse => exact hsock
  constructor
  case main =>
    have hmain := h.main
    unfold MainInv at hmain ⊢
    cases hs : s.main <;> rw [hs] at hmain <;> simp only
    case accepted record => exact ⟨hkeep _ _ hmain.1, hmain.2⟩
    case ready sock =>
      obtain ⟨id, hid⟩ := hmain
      exact ⟨id, hkeep _ _ hid⟩
    case received sock =>
      obtain ⟨id, hid⟩ := hmain
      exact ⟨id, hkeep _ _ hid⟩
    case found sock record => exact ⟨hmain.1, hkeep _ _ hmain.2⟩
    all_goals exact hmain
  case recorded => exact fun sock id hsock => h.recorded sock id (hback sock id hsock)
  case socks => exact h.socks
  case queued => exact fun record hr => hkeep _ _ (h.queued record hr)
  case handled => exact fun w record hr => hkeep _ _ (h.handled w record hr)
  case removed => exact fun w sock hr id hsock => h.removed w sock hr id (hback sock id hsock)
  case clients =>
    intro sock hsock
    obtain ⟨id, hid⟩ := h.clients sock hsock
    exact ⟨id, hkeep _ _ hid⟩
  case lookups => exact h.lookups

/-- A connection is closed when nothing of it is pending. -/
theorem RecordsInv.closeFd (h : s.RecordsInv) (hpending : s.NothingPending sock none)
    (hmain : s.main.sock ≠ some sock ∨ ∃ more, s.main = .closing sock more) :
    (s.closeFd sock).RecordsInv := by
  have hback : ∀ sock' id, (s.closeFd sock).fds sock' = some (.connection id) →
      s.fds sock' = some (.connection id) := by
    intro sock' id hsock
    simp only [RecordServer.closeFd, Function.update_apply] at hsock
    split at hsock
    case isTrue => cases hsock
    case isFalse => exact hsock
  have hkeep : ∀ sock', sock' ≠ sock → (s.closeFd sock).fds sock' = s.fds sock' :=
    fun sock' hne => Function.update_of_ne hne _ _
  constructor
  case main =>
    have hinv := h.main
    unfold MainInv at hinv ⊢
    cases hs : s.main <;> rw [hs] at hinv hmain <;>
      simp only [RecordServer.closeFd, hs] <;>
      simp only [LoopStage.sock, ne_eq, Option.some.injEq, reduceCtorEq, exists_false, or_false,
        not_false_eq_true] at hmain
    case accepted record => exact ⟨(hkeep _ hmain).trans hinv.1, hinv.2⟩
    case ready sock' => exact hinv.imp fun id hid => (hkeep _ hmain).trans hid
    case received sock' => exact hinv.imp fun id hid => (hkeep _ hmain).trans hid
    case found sock' record =>
      exact ⟨hinv.1, (hkeep _ (by rw [hinv.1]; exact hmain)).trans hinv.2⟩
    all_goals exact hinv
  case recorded => exact fun sock' id hsock => h.recorded sock' id (hback sock' id hsock)
  case socks => exact h.socks
  case queued =>
    exact fun record hr => (hkeep _ (hpending.1 record hr)).trans (h.queued record hr)
  case handled =>
    exact fun w record hr =>
      (hkeep _ (hpending.2 w (by simp) record hr)).trans (h.handled w record hr)
  case removed => exact fun w sock' hr id hsock => h.removed w sock' hr id (hback sock' id hsock)
  case clients =>
    intro sock' hsock
    simp only [RecordServer.closeFd, Function.update_apply] at hsock
    split at hsock
    case isTrue => cases hsock
    case isFalse hne =>
        obtain ⟨id, hid⟩ := h.clients sock' hsock
        exact ⟨id, (hkeep _ hne).trans hid⟩
  case lookups => exact h.lookups

/-- `accept` returns a descriptor that is not in use. -/
theorem RecordsInv.accept (h : s.RecordsInv) (record : SocketRecord) (hpolling : s.main = .polling)
    (hfree : s.fds record.hcsock.sock = none)
    (hremoved : ∀ w, s.workers w ≠ .removing record.hcsock.sock) {accepts : Nat} :
    ({ s.setMain (.accepted record) with
      fds := Function.update s.fds record.hcsock.sock (some (.connection record.id))
      accepts := accepts } : RecordServer).RecordsInv := by
  have hne : ∀ sock id, s.fds sock = some (.connection id) → sock ≠ record.hcsock.sock := by
    rintro sock id hsock rfl
    rw [hfree] at hsock
    cases hsock
  have hkeep : ∀ sock id, s.fds sock = some (.connection id) →
      Function.update s.fds record.hcsock.sock (some (.connection record.id)) sock =
        some (.connection id) :=
    fun sock id hsock => (Function.update_of_ne (hne sock id hsock) _ _).trans hsock
  constructor
  case main =>
    refine ⟨Function.update_self .., fun r hr => hne _ _ (h.queued r hr), fun w _ r hr => ?_⟩
    exact hne _ _ (h.handled w r hr)
  case recorded =>
    intro sock id hsock hmain
    have hother := (hmain record rfl).symm
    refine h.recorded sock id ((Function.update_of_ne hother _ _).symm.trans hsock) fun r hr => ?_
    rw [hpolling] at hr
    cases hr
  case socks => exact h.socks
  case queued => exact fun r hr => hkeep _ _ (h.queued r hr)
  case handled => exact fun w r hr => hkeep _ _ (h.handled w r hr)
  case removed =>
    intro w sock hr id hsock
    have hother : sock ≠ record.hcsock.sock := by
      rintro rfl
      exact hremoved w hr
    exact h.removed w sock hr id ((Function.update_of_ne hother _ _).symm.trans hsock)
  case clients =>
    intro sock hsock
    obtain ⟨id, hid⟩ := h.clients sock hsock
    exact ⟨id, hkeep _ _ hid⟩
  case lookups => exact h.lookups

/-- `MDBSet` and `epoll_ctl` for a new connection. -/
theorem RecordsInv.start (h : s.RecordsInv) (hmain : s.main = .accepted record) :
    ({ (s.setRecord record.hcsock.sock record).setMain .polling with
      epoll := Function.update s.epoll record.hcsock.sock (some false) } :
        RecordServer).RecordsInv := by
  have hlive : s.Live record := by
    have hinv := h.main
    rw [MainInv, hmain] at hinv
    exact hinv.1
  have hset := h.setRecord record hlive
  constructor
  case main => trivial
  case recorded =>
    intro sock id hsock _
    by_cases heq : sock = record.hcsock.sock
    · subst heq
      refine ⟨record, Function.update_self .., ?_⟩
      injection hlive.symm.trans hsock with hsame
      injection hsame
    · refine hset.recorded sock id hsock fun r hr => ?_
      injection hmain.symm.trans hr with hsame
      exact hsame ▸ Ne.symm heq
  case socks => exact hset.socks
  case queued => exact h.queued
  case handled => exact h.handled
  case removed => exact h.removed
  case clients =>
    intro sock hsock
    by_cases heq : sock = record.hcsock.sock
    · subst heq
      exact ⟨record.id, hlive⟩
    · exact h.clients sock ((Function.update_of_ne heq _ _).symm.trans hsock)
  case lookups => exact h.lookups

/-- `MDBGet` in `DBRecvMsg`. -/
theorem RecordsInv.lookUp (h : s.RecordsInv) (hmain : s.main = .received sock) :
    ∃ record, s.MDB sock = some record ∧
      ((s.logLookup sock).setMain (.found sock record)).RecordsInv := by
  have hinv := h.main
  rw [MainInv, hmain] at hinv
  obtain ⟨id, hfds⟩ := hinv
  obtain ⟨record, hfound, rfl⟩ := h.recorded sock id hfds (by rw [hmain]; nofun)
  have hsock := h.socks sock record hfound
  refine ⟨record, hfound, (h.logLookup hfound hfds).setMain ?_ ⟨hsock, ?_⟩⟩
  · rw [RecordServer.logLookup, hmain]
    nofun
  · rw [Live, hsock]
    exact hfds

/-- The packet is queued with its record. -/
theorem RecordsInv.enQueue (h : s.RecordsInv) (hmain : s.main = .found sock record) :
    ({ s.setMain .polling with queue := s.queue ++ [record] } : RecordServer).RecordsInv := by
  have hinv := h.main
  rw [MainInv, hmain] at hinv
  have hpolling : (s.setMain .polling).RecordsInv :=
    h.setMain (by rw [hmain]; nofun) trivial
  refine ⟨trivial, hpolling.recorded, h.socks, fun r hr => ?_, h.handled, h.removed, h.clients,
    h.lookups⟩
  rcases List.mem_append.mp hr with hold | hnew
  · exact h.queued r hold
  · rw [List.mem_singleton.mp hnew]
    exact hinv.2

/-- A `close` of `HandleSlaveRequest`. -/
theorem RecordsInv.closeSocket (h : s.RecordsInv) {more : Nat}
    (hmain : s.main = .closing sock more) {main : LoopStage}
    (hinv : s.NothingPending sock none → ((s.closeFd sock).setMain main).MainInv) :
    ((s.closeFd sock).setMain main).RecordsInv := by
  have hpending := h.main
  rw [MainInv, hmain] at hpending
  exact (h.closeFd hpending (Or.inr ⟨_, hmain⟩)).setMain
    (by rw [RecordServer.closeFd, hmain]; nofun) (hinv hpending)

/-- A worker takes a record from the queue. -/
theorem RecordsInv.deQueue (h : s.RecordsInv) (w : Fin THREADS_NUM) {queue : List SocketRecord}
    (hqueue : s.queue = record :: queue) :
    ({ s.setWorker w (.handling record) with queue := queue } : RecordServer).RecordsInv := by
  have hmem : record ∈ s.queue := hqueue ▸ List.mem_cons_self
  have hworker : (s.setWorker w (.handling record)).RecordsInv := by
    refine h.setWorker w _ ?_ ?_ nofun
    · rintro r ⟨⟩
      exact h.queued record hmem
    · rintro r ⟨⟩ sock hpending
      exact hpending.1 record hmem
  exact hworker.of_queue fun r hr => hqueue ▸ List.mem_cons_of_mem _ hr

/-- The `MDBSet` of `DBSendMsg`. -/
theorem RecordsInv.store (h : s.RecordsInv) {w : Fin THREADS_NUM}
    (hs : s.workers w = .handling record) (app : DataBase) (stops : Bool) :
    ((s.setRecord record.hcsock.sock (some { record with hcsock.app := app })).setWorker w
      (if stops then .stopping { record with hcsock.app := app } else .waiting)).RecordsInv := by
  have hlive : s.Live record := h.handled w record (by rw [hs]; rfl)
  have hset := h.setRecord { record with hcsock.app := app } hlive
  refine hset.setWorker w _ ?_ ?_ ?_
  · cases stops
    · nofun
    · rintro r ⟨⟩
      exact hlive
  · cases stops
    · nofun
    · rintro r ⟨⟩ sock hpending
      exact hpending.2 w (by simp) record (by rw [RecordServer.setRecord, hs]; rfl)
  · cases stops <;> nofun

/-- `MDBGet` in the `DBServiceStop` of a worker. -/
theorem RecordsInv.get (h : s.RecordsInv) {w : Fin THREADS_NUM}
    (hs : s.workers w = .stopping record) :
    ∃ phcsock, s.MDB record.hcsock.sock = some phcsock ∧
      ((s.logLookup record.hcsock.sock).setWorker w (.closing phcsock)).RecordsInv := by
  have hmem : record ∈ (s.workers w).record := by
    rw [hs]
    rfl
  have hlive : s.Live record := h.handled w record hmem
  obtain ⟨phcsock, hfound, hid⟩ := h.recorded _ _ hlive fun r hr => by
    have hinv := h.main
    rw [MainInv, hr] at hinv
    exact (hinv.2.2 w (by simp) record hmem).symm
  have hsock := h.socks _ phcsock hfound
  have hfds : s.fds record.hcsock.sock = some (.connection phcsock.id) := hid ▸ hlive
  refine ⟨phcsock, hfound, (h.logLookup hfound hfds).setWorker w _ ?_ ?_ nofun⟩
  · rintro r ⟨⟩
    rw [Live, hsock]
    exact hfds
  · rintro r ⟨⟩ sock hpending
    rw [hsock]
    exact hpending.2 w (by simp) record hmem

/-- The `close` of `DBServiceStop` in a worker. -/
theorem RecordsInv.close (h : s.RecordsInv) (w : Fin THREADS_NUM)
    (hpending : s.NothingPending record.hcsock.sock (some w))
    (hmain : s.main.sock ≠ some record.hcsock.sock) :
    ((s.closeFd record.hcsock.sock).setWorker w (.removing record.hcsock.sock)).RecordsInv := by
  obtain ⟨hqueue, hworkers⟩ := hpending
  -- the worker has no request any more
  have hidle : (s.setWorker w .waiting).RecordsInv := h.setWorker w _ nofun nofun nofun
  have hclosed : ((s.setWorker w .waiting).closeFd record.hcsock.sock).RecordsInv := by
    refine hidle.closeFd ⟨hqueue, fun w' _ r hr => ?_⟩ (Or.inl hmain)
    simp only [RecordServer.setWorker, Function.update_apply] at hr
    split at hr
    case isTrue => cases hr
    case isFalse hne => exact hworkers w' (by simpa using hne) r hr
  have hsame : (s.closeFd record.hcsock.sock).setWorker w (.removing record.hcsock.sock) =
      ((s.setWorker w .waiting).closeFd record.hcsock.sock).setWorker w
        (.removing record.hcsock.sock) := by
    simp only [RecordServer.setWorker, RecordServer.closeFd, Function.update_idem]
  rw [hsame]
  refine hclosed.setWorker w _ nofun nofun ?_
  rintro sock ⟨⟩ id hfds
  cases (Function.update_self (f := s.fds) ..).symm.trans hfds

end Parts

section Steps

variable {s s' : RecordServer} {e : RecordEvent}

/-- **A step of the main loop keeps the invariant.** -/
theorem RecordsInv.mainStep (h : s.RecordsInv) (hcond : s.Orderly e)
    (hstep : s.mainStep e = some s') : s'.RecordsInv := by
  have hinv := h.main
  cases e with
  | accept sock ip app =>
      simp only [RecordServer.mainStep, Option.ite_none_right_eq_some] at hstep
      obtain ⟨⟨hpolling, hfree⟩, heq⟩ := hstep
      obtain rfl := Option.some.inj heq
      exact h.accept ⟨⟨sock, ip, app⟩, s.accepts⟩ hpolling hfree hcond
  | start =>
      simp only [RecordServer.mainStep] at hstep
      split at hstep
      case h_1 record hs =>
          obtain rfl := Option.some.inj hstep
          exact h.start hs
      case h_2 => cases hstep
  | poll sock =>
      simp only [RecordServer.mainStep, Option.ite_none_right_eq_some] at hstep
      obtain ⟨⟨hpolling, hepoll⟩, heq⟩ := hstep
      obtain rfl := Option.some.inj heq
      exact h.setMain (by rw [hpolling]; nofun) (h.clients sock hepoll)
  | hangUp sock => exact hcond.elim
  | recv =>
      simp only [RecordServer.mainStep] at hstep
      split at hstep
      case h_1 sock hs =>
          obtain rfl := Option.some.inj hstep
          rw [MainInv, hs] at hinv
          exact h.setMain (by rw [hs]; nofun) hinv
      case h_2 => cases hstep
  | lookUp =>
      simp only [RecordServer.mainStep] at hstep
      split at hstep
      case h_1 sock hs =>
          obtain ⟨record, hfound, hnext⟩ := h.lookUp hs
          rw [hfound] at hstep
          obtain rfl := Option.some.inj hstep
          exact hnext
      case h_2 => cases hstep
  | slaveRequest twice =>
      simp only [RecordServer.mainStep] at hstep
      split at hstep
      case h_1 sock record hs =>
          obtain rfl := Option.some.inj hstep
          exact h.setMain (by rw [hs]; nofun) (hcond record (by rw [hs]; rfl))
      case h_2 => cases hstep
  | sendSlaveList =>
      simp only [RecordServer.mainStep] at hstep
      split at hstep
      case h_1 sock record hs =>
          obtain rfl := Option.some.inj hstep
          exact h.setMain (by rw [hs]; nofun) trivial
      case h_2 => cases hstep
  | enQueue =>
      simp only [RecordServer.mainStep] at hstep
      split at hstep
      case h_1 sock record hs =>
          obtain rfl := Option.some.inj hstep
          exact h.enQueue hs
      case h_2 => cases hstep
  | closeSocket =>
      simp only [RecordServer.mainStep] at hstep
      split at hstep
      case h_1 sock hs =>
          obtain rfl := Option.some.inj hstep
          exact h.closeSocket hs fun _ => trivial
      case h_2 sock more hs =>
          obtain rfl := Option.some.inj hstep
          exact h.closeSocket hs fun hpending => hpending
      case h_3 => cases hstep
  | hangUpGet =>
      simp only [RecordServer.mainStep] at hstep
      split at hstep
      case h_1 sock hs => rw [MainInv, hs] at hinv; exact hinv.elim
      case h_2 => cases hstep
  | hangUpClose =>
      simp only [RecordServer.mainStep] at hstep
      split at hstep
      case h_1 sock hs => rw [MainInv, hs] at hinv; exact hinv.elim
      case h_2 => cases hstep
  | hangUpDel =>
      simp only [RecordServer.mainStep] at hstep
      split at hstep
      case h_1 sock hs => rw [MainInv, hs] at hinv; exact hinv.elim
      case h_2 => cases hstep
  | deQueue w | store w app stops | get w | close w | del w | openOther fd | closeOther fd =>
      cases hstep

/-- **A step of a worker keeps the invariant.** -/
theorem RecordsInv.workerStep (h : s.RecordsInv) (hcond : s.Orderly e)
    (hstep : s.workerStep e = some s') : s'.RecordsInv := by
  cases e with
  | deQueue w =>
      simp only [RecordServer.workerStep] at hstep
      split at hstep
      case h_1 record queue hs hqueue =>
          obtain rfl := Option.some.inj hstep
          exact h.deQueue w hqueue
      case h_2 => cases hstep
  | store w app stops =>
      simp only [RecordServer.workerStep] at hstep
      split at hstep
      case h_1 record hs =>
          obtain rfl := Option.some.inj hstep
          exact h.store hs app stops
      case h_2 => cases hstep
  | get w =>
      simp only [RecordServer.workerStep] at hstep
      split at hstep
      case h_1 record hs =>
          obtain ⟨phcsock, hfound, hnext⟩ := h.get hs
          rw [hfound] at hstep
          obtain rfl := Option.some.inj hstep
          exact hnext
      case h_2 => cases hstep
  | close w =>
      simp only [RecordServer.workerStep] at hstep
      split at hstep
      case h_1 record hs =>
          obtain rfl := Option.some.inj hstep
          obtain ⟨hpending, hmain⟩ := hcond record (by rw [hs]; rfl)
          exact h.close w hpending hmain
      case h_2 => cases hstep
  | del w =>
      simp only [RecordServer.workerStep] at hstep
      split at hstep
      case h_1 sock hs =>
          obtain rfl := Option.some.inj hstep
          exact (h.delRecord (h.removed w sock hs)).setWorker w _ nofun nofun nofun
      case h_2 => cases hstep
  | openOther fd =>
      simp only [RecordServer.workerStep, Option.ite_none_right_eq_some] at hstep
      obtain ⟨hfree, heq⟩ := hstep
      obtain rfl := Option.some.inj heq
      exact h.of_fds (by rw [hfree]; nofun) nofun
  | closeOther fd =>
      simp only [RecordServer.workerStep, Option.ite_none_right_eq_some] at hstep
      obtain ⟨⟨hother, -⟩, heq⟩ := hstep
      obtain rfl := Option.some.inj heq
      exact h.of_fds (by rw [hother]; nofun) nofun
  | accept sock ip app | start | poll sock | hangUp sock | recv | lookUp | slaveRequest twice
  | sendSlaveList | enQueue | closeSocket | hangUpGet | hangUpClose | hangUpDel => cases hstep

theorem RecordsInv.step (h : s.RecordsInv) (hcond : s.Orderly e) (hstep : s.step e = some s') :
    s'.RecordsInv := by
  rw [RecordServer.step] at hstep
  split at hstep
  case isTrue => cases hstep
  case isFalse =>
      split at hstep
      case h_1 t ht => exact h.mainStep hcond (ht.trans hstep)
      case h_2 => exact h.workerStep hcond hstep

end Steps

/-- **Every lookup finds the right record if connections end in order**: in every run of the
main loop and the workers in which the master does not hang up, a connection is closed only
when no other request of it is queued, with a worker or with the main loop, and its number is
not accepted again before its record is deleted, every `MDBGet` in `DBRecvMsg` and
`DBServiceStop` finds the record of the connection that uses the descriptor. -/
theorem recorded_of_allSteps (listen_sock master_sock : Int) (events : List RecordEvent)
    (s : RecordServer) (hcond : allSteps step Orderly (init listen_sock master_sock) events)
    (hrun : run step (init listen_sock master_sock) events = some s) : s.Recorded :=
  (run_invariant_of_allSteps Orderly RecordsInv (fun _ _ _ h hcond hstep => h.step hcond hstep)
    hcond hrun (recordsInv_init listen_sock master_sock)).lookups

/-- A connection with two requests, and another one on its number. -/
def twoConnections : List RecordEvent :=
  [.accept 5 1 0, .start, .poll 5, .recv, .lookUp, .enQueue, .deQueue 0, .store 0 7 false, .poll 5,
    .recv, .lookUp, .enQueue, .deQueue 1, .store 1 7 true, .get 1, .close 1, .openOther 6, .del 1,
    .accept 5 2 7, .start, .poll 5, .recv, .lookUp, .slaveRequest true, .closeSocket,
    .closeSocket]

theorem recorded_of_allSteps_twoConnections :
    ∃ s, run step (init 3 4) twoConnections = some s ∧ s.lookups.length = 4 ∧ s.Recorded := by
  have hlength : (run step (init 3 4) twoConnections).map (fun s => s.lookups.length) =
      some 4 := by
    decide +kernel
  obtain ⟨s, hrun, hlength⟩ := Option.map_eq_some_iff.mp hlength
  exact ⟨s, hrun, hlength,
    recorded_of_allSteps 3 4 twoConnections s (by decide +kernel) hrun⟩

/-- The master hangs up, and its socket has no record. -/
theorem master_hangs_up :
    ∃ s, run step (init 3 4) [.hangUp 4, .hangUpGet] = some s ∧ s.main = .crashed ∧
      ¬ s.Recorded := by
  refine ⟨_, rfl, rfl, fun hrecorded => ?_⟩
  obtain ⟨record, hfound, -⟩ := hrecorded ⟨4, none, some .other⟩ List.mem_cons_self
  cases hfound

/-- A number is accepted again between the `close` and the `MDBDel` of a worker. -/
def acceptedBetween : List RecordEvent :=
  [.accept 5 1 0, .start, .poll 5, .recv, .lookUp, .enQueue, .deQueue 0, .store 0 7 true, .get 0,
    .close 0, .accept 5 2 7, .start, .del 0, .poll 5, .recv, .lookUp]

/-- The worker deletes the record of the new connection. -/
theorem new_record_deleted :
    (run step (init 3 4) acceptedBetween).map (fun s => (s.main, s.lookups.getLast?)) =
      some (.crashed, some ⟨5, none, some (.connection 1)⟩) := by
  decide +kernel

end RecordServer

end DistributedDB
