import DistributedDB.VersionGate

/-!
# The main loop and the worker threads

One slave process: the main loop of `dbserver.c`, which checks the version of a
client's packet and queues it, and handles `NEW_SLAVE` and `CLIP_DATA`, and the
threads of `HandleRequest.c`, which take packets from the queue and execute them.

A queue node has a pointer to the one receive buffer of the main loop, so a thread
that has taken a node reads whatever packet was received last.  The model's nodes
also name the request they were queued for, which no thread reads: it says what the
client that gets the reply had asked for.  A thread takes a node, reads the packet
and executes it in three steps, and the loop of `SplitByKey` visits one record at a
time; between any two steps another thread may run.  The iterator visits the records
that the file had when the split began.

The packets that reach a slave have an older version than the slave's list or were
routed with that list, which is what the version gate provides.

**Results.**
* `Server.step`: the steps; `Server.Transition`, what each of them does.
* `run_clip`: without other steps in between, the steps of `CLIP_DATA` are the
  handler as a whole.
* `owns_of_arrives`: the packets of the system of master, slaves and clients meet the
  guard on the packets that arrive here.
-/

namespace DistributedDB

open PartialMap RingIndex Run

abbrev THREADS_NUM : Nat := 2

instance : NeZero THREADS_NUM := ⟨by decide⟩

def MAX_QUEUE_LEN : Nat := 10

def MAX_QUEUE_USELEN : Nat := MAX_QUEUE_LEN - 1

/-- The commands on the open database. -/
inductive DBCommand where
  | set (value : dbValue)
  | get
  | del
deriving DecidableEq, Repr

structure DBRequest where
  version : UInt32
  key : dbKey
  cmd : DBCommand
deriving DecidableEq, Repr

/-- The request writes the key. -/
def DBRequest.writes (r : DBRequest) (key : dbKey) : Bool :=
  r.key == key && r.cmd != .get

inductive DBReply where
  | setR
  | getR (value : dbValue)
  | delR
  | cmdFail
deriving DecidableEq, Repr

/-- The branches `SET`, `GET` and `DEL` of `HandleDBRequest`: the file and the reply
afterwards. -/
def handleDBRequest (file : HDB) (r : DBRequest) : HDB × DBReply :=
  match r.cmd with
  | .set value => (file.insert r.key value, .setR)
  | .get =>
      match contents file r.key with
      | some value => (file, .getR value)
      | none => (file, .cmdFail)
  | .del =>
      if contents file r.key = none then (file, .cmdFail)
      else (file.erase r.key, .delR)

/-- A client's packet in the receive buffer, and whether the version check let it
pass. -/
structure Received where
  request : DBRequest
  admitted : Bool
deriving DecidableEq, Repr

/-- A node of the queue: the connection that gets the reply, and the request that was
admitted from it.  The packet itself is in `szBuf`. -/
structure Queued where
  sock : Nat
  request : DBRequest
deriving DecidableEq, Repr

/-- Where a thread is in the loop of `HandleDBRequest`. -/
inductive Worker where
  | waiting
  /-- It has taken a node but not read the packet. -/
  | dequeued (node : Queued)
  /-- It has read the packet; `none` when that is not a command of a client. -/
  | executing (node : Queued) (received : Option Received)
deriving DecidableEq, Repr

/-- Where the main thread is. -/
inductive MainThread where
  | loop
  /-- In the loop of `SplitByKey`, with the records that are still to be visited. -/
  | splitting (lower_b upper_b : dbKey) (todo : List dbKey)
deriving DecidableEq, Repr

/-- A completed `CLIP_DATA`: the file that was sent, for a node of the list. -/
structure Handover where
  slaves : SlaveList
  node : Nat
  file : HDB

/-- An executed packet with the reply to the connection of the node. -/
structure Executed where
  node : Queued
  received : Received
  reply : DBReply

structure Server where
  slave : Slave
  /-- The client's packet in `szBuf`, if that is what was received last. -/
  buf : Option Received
  /-- The queued nodes; all of them point to `szBuf`. -/
  queue : List Queued
  workers : Fin THREADS_NUM → Worker
  main : MainThread
  handed : List Handover
  /-- The executed packets, the last one first. -/
  log : List Executed

inductive ServerEvent where
  /-- The main loop receives a client's packet. -/
  | request (sock : Nat) (r : DBRequest)
  /-- It handles the `NEW_SLAVE` for a slave that has registered. -/
  | newSlave (sn : SlaveNode) (rand : Nat)
  /-- It receives `CLIP_DATA` and enters the loop of `SplitByKey`. -/
  | clipData
  /-- The loop of `SplitByKey` visits the next record. -/
  | visit
  /-- The loop is over and the file is sent. -/
  | clipEnd
  | dequeue (w : Fin THREADS_NUM)
  | read (w : Fin THREADS_NUM)
  | execute (w : Fin THREADS_NUM)
deriving DecidableEq, Repr

namespace Disk

/-- `CLIP_DATA` up to the loop of `SplitByKey`. -/
def beginClip (disk : Disk) : Disk :=
  { disk.mvBackup1 with file_tmp := some (openFile disk.file_tmp) }

/-- One round of the loop of `SplitByKey`. -/
def visit (disk : Disk) (lower_b upper_b key : dbKey) : Disk :=
  if inSplitRange lower_b upper_b key then
    let r := moveRecord (disk.file_master, openFile disk.file_tmp) key
    { disk with file_master := r.1, file_tmp := some r.2 }
  else disk

/-- `CLIP_DATA` after the loop of `SplitByKey`. -/
def endClip (disk : Disk) : Disk :=
  { disk with file_tmp := none, backup1 := some (openFile disk.file_tmp) }

end Disk

namespace Server

/-- The slave after the `NEW_SLAVE` for a registration that the master has put into
the same list. -/
def notified (s : Server) (sn : SlaveNode) (rand : Nat) : Slave :=
  s.slave.newSlave (addToSlaveList s.slave.slaves sn rand).2 (newNode s.slave.slaves sn rand)

/-- The position of the slave that `CLIP_DATA` cuts off. -/
def successor (s : Server) : Nat :=
  (s.slave.pos + 1) % s.slave.slaves.num

/-- The bounds of `CLIP_DATA`. -/
def lowerBound (s : Server) : dbKey :=
  toUnsigned (s.slave.slaves.node s.successor).key

def upperBound (s : Server) : dbKey :=
  toUnsigned (s.slave.slaves.node ((s.slave.pos + 2) % s.slave.slaves.num)).key

def setDisk (s : Server) (disk : Disk) : Server :=
  { s with slave := { s.slave with disk := disk } }

def setWorker (s : Server) (w : Fin THREADS_NUM) (worker : Worker) : Server :=
  { s with workers := Function.update s.workers w worker }

/-- `GetSocket` on the slave's own list selects the slave. -/
def Owns (s : Server) (key : dbKey) : Prop :=
  getSocket s.slave.slaves key = some s.slave.pos

instance (s : Server) (key : dbKey) : Decidable (s.Owns key) := by
  unfold Owns
  infer_instance

/-- The execution of a packet by a thread. -/
def executed (s : Server) (node : Queued) (received : Received) : Server :=
  let r := handleDBRequest s.slave.disk.file_master received.request
  { s.setDisk { s.slave.disk with file_master := r.1 } with
    log := ⟨node, received, r.2⟩ :: s.log }

/-- One step of the process; `none` when the event cannot happen. -/
def step (s : Server) : ServerEvent → Option Server
  | .request sock r =>
      if s.main = .loop ∧ (¬ r.version < s.slave.slaves.version → s.Owns r.key) then
        if r.version < s.slave.slaves.version then
          some { s with buf := some ⟨r, false⟩ }
        else if s.queue.length < MAX_QUEUE_USELEN then
          some { s with buf := some ⟨r, true⟩, queue := s.queue ++ [⟨sock, r⟩] }
        else none
      else none
  | .newSlave sn rand =>
      if s.main = .loop ∧ s.slave.slaves.num < MAX_SLAVE_NUM then
        some { s with slave := s.notified sn rand }
      else none
  | .clipData =>
      if s.main = .loop ∧ 1 < s.slave.slaves.num then
        some
          { s.setDisk s.slave.disk.beginClip with
            buf := none
            main := .splitting s.lowerBound s.upperBound s.slave.disk.file_master.keys }
      else none
  | .visit =>
      match s.main with
      | .splitting lower_b upper_b (key :: todo) =>
          some
            { s.setDisk (s.slave.disk.visit lower_b upper_b key) with
              main := .splitting lower_b upper_b todo }
      | _ => none
  | .clipEnd =>
      match s.main with
      | .splitting _ _ [] =>
          some
            { s.setDisk s.slave.disk.endClip with
              main := .loop
              handed :=
                ⟨s.slave.slaves, s.successor, openFile s.slave.disk.file_tmp⟩ :: s.handed }
      | _ => none
  | .dequeue w =>
      match s.workers w, s.queue with
      | .waiting, node :: queue => some { s.setWorker w (.dequeued node) with queue := queue }
      | _, _ => none
  | .read w =>
      match s.workers w with
      | .dequeued node => some (s.setWorker w (.executing node s.buf))
      | _ => none
  | .execute w =>
      match s.workers w with
      | .executing node (some received) =>
          some ((s.executed node received).setWorker w .waiting)
      -- "Unknown command.": no database command, and a reply with the last header
      | .executing _ none => some (s.setWorker w .waiting)
      | _ => none

/-- Everything that a step can do. -/
inductive Transition (s : Server) : ServerEvent → Server → Prop where
  | stale (sock : Nat) (r : DBRequest) (hloop : s.main = .loop)
      (hversion : r.version < s.slave.slaves.version) :
      Transition s (.request sock r) { s with buf := some ⟨r, false⟩ }
  | queued (sock : Nat) (r : DBRequest) (hloop : s.main = .loop)
      (hversion : ¬ r.version < s.slave.slaves.version) (howns : s.Owns r.key) :
      Transition s (.request sock r)
        { s with buf := some ⟨r, true⟩, queue := s.queue ++ [⟨sock, r⟩] }
  | newSlave (sn : SlaveNode) (rand : Nat) (hloop : s.main = .loop)
      (hmax : s.slave.slaves.num < MAX_SLAVE_NUM) :
      Transition s (.newSlave sn rand) { s with slave := s.notified sn rand }
  | clipData (hloop : s.main = .loop) (hnum : 1 < s.slave.slaves.num) :
      Transition s .clipData
        { s.setDisk s.slave.disk.beginClip with
          buf := none
          main := .splitting s.lowerBound s.upperBound s.slave.disk.file_master.keys }
  | visit (lower_b upper_b key : dbKey) (todo : List dbKey)
      (hmain : s.main = .splitting lower_b upper_b (key :: todo)) :
      Transition s .visit
        { s.setDisk (s.slave.disk.visit lower_b upper_b key) with
          main := .splitting lower_b upper_b todo }
  | clipEnd (lower_b upper_b : dbKey) (hmain : s.main = .splitting lower_b upper_b []) :
      Transition s .clipEnd
        { s.setDisk s.slave.disk.endClip with
          main := .loop
          handed := ⟨s.slave.slaves, s.successor, openFile s.slave.disk.file_tmp⟩ :: s.handed }
  | dequeue (w : Fin THREADS_NUM) (node : Queued) (queue : List Queued)
      (hqueue : s.queue = node :: queue) :
      Transition s (.dequeue w) { s.setWorker w (.dequeued node) with queue := queue }
  | read (w : Fin THREADS_NUM) (node : Queued) (hw : s.workers w = .dequeued node) :
      Transition s (.read w) (s.setWorker w (.executing node s.buf))
  | execute (w : Fin THREADS_NUM) (node : Queued) (received : Received)
      (hw : s.workers w = .executing node (some received)) :
      Transition s (.execute w) ((s.executed node received).setWorker w .waiting)
  | unknown (w : Fin THREADS_NUM) (node : Queued) (hw : s.workers w = .executing node none) :
      Transition s (.execute w) (s.setWorker w .waiting)

theorem transition_of_step {s s' : Server} {e : ServerEvent} (h : s.step e = some s') :
    s.Transition e s' := by
  cases e with
  | request sock r =>
      simp only [step, Option.ite_none_right_eq_some] at h
      obtain ⟨⟨hloop, hroute⟩, h⟩ := h
      split at h
      case isTrue hversion =>
          obtain rfl := Option.some.inj h
          exact .stale sock r hloop hversion
      case isFalse hversion =>
          simp only [Option.ite_none_right_eq_some] at h
          obtain rfl := Option.some.inj h.2
          exact .queued sock r hloop hversion (hroute hversion)
  | newSlave sn rand =>
      simp only [step, Option.ite_none_right_eq_some] at h
      obtain rfl := Option.some.inj h.2
      exact .newSlave sn rand h.1.1 h.1.2
  | clipData =>
      simp only [step, Option.ite_none_right_eq_some] at h
      obtain rfl := Option.some.inj h.2
      exact .clipData h.1.1 h.1.2
  | visit =>
      cases hmain : s.main with
      | loop => simp [step, hmain] at h
      | splitting lower_b upper_b todo =>
          cases todo with
          | nil => simp [step, hmain] at h
          | cons key todo =>
              simp only [step, hmain, Option.some.injEq] at h
              subst h
              exact .visit lower_b upper_b key todo hmain
  | clipEnd =>
      cases hmain : s.main with
      | loop => simp [step, hmain] at h
      | splitting lower_b upper_b todo =>
          cases todo with
          | cons key todo => simp [step, hmain] at h
          | nil =>
              simp only [step, hmain, Option.some.injEq] at h
              subst h
              exact .clipEnd lower_b upper_b hmain
  | dequeue w =>
      cases hw : s.workers w with
      | waiting =>
          cases hqueue : s.queue with
          | nil => simp [step, hw, hqueue] at h
          | cons node queue =>
              simp only [step, hw, hqueue, Option.some.injEq] at h
              subst h
              exact .dequeue w node queue hqueue
      | dequeued node => simp [step, hw] at h
      | executing node received => simp [step, hw] at h
  | read w =>
      cases hw : s.workers w with
      | waiting => simp [step, hw] at h
      | dequeued node =>
          simp only [step, hw, Option.some.injEq] at h
          subst h
          exact .read w node hw
      | executing node received => simp [step, hw] at h
  | execute w =>
      cases hw : s.workers w with
      | waiting => simp [step, hw] at h
      | dequeued node => simp [step, hw] at h
      | executing node received =>
          cases received with
          | none =>
              simp only [step, hw, Option.some.injEq] at h
              subst h
              exact .unknown w node hw
          | some received =>
              simp only [step, hw, Option.some.injEq] at h
              subst h
              exact .execute w node received hw

section Uninterrupted

variable {s : Server}

/-- The visits of a list of records are the loop of `SplitByKey`. -/
theorem foldl_visit (disk : Disk) (lower_b upper_b : dbKey) :
    ∀ (todo : List dbKey) (src dest : HDB),
      todo.foldl (fun d key => d.visit lower_b upper_b key)
          { disk with file_master := src, file_tmp := some dest } =
        { disk with
          file_master := (moveRecords (inSplitRange lower_b upper_b) todo (src, dest)).1
          file_tmp := some (moveRecords (inSplitRange lower_b upper_b) todo (src, dest)).2 }
  | [], src, dest => rfl
  | key :: todo, src, dest => by
      rw [List.foldl_cons, moveRecords]
      cases hrange : inSplitRange lower_b upper_b key with
      | true =>
          rw [if_pos rfl, ← foldl_visit disk lower_b upper_b todo]
          simp [Disk.visit, hrange, openFile]
      | false =>
          rw [if_neg (by decide), ← foldl_visit disk lower_b upper_b todo]
          simp [Disk.visit, hrange]

theorem run_visits (lower_b upper_b : dbKey) (todo : List dbKey) :
    ∀ s : Server, s.main = .splitting lower_b upper_b todo →
      run step s (List.replicate todo.length .visit) =
        some
          { s.setDisk (todo.foldl (fun d key => d.visit lower_b upper_b key) s.slave.disk) with
            main := .splitting lower_b upper_b [] } := by
  induction todo with
  | nil =>
      intro s hmain
      simp [setDisk, ← hmain]
  | cons key todo ih =>
      intro s hmain
      have hvisit : s.step .visit = some
          { s.setDisk (s.slave.disk.visit lower_b upper_b key) with
            main := .splitting lower_b upper_b todo } := by
        simp only [step, hmain]
      rw [List.length_cons, List.replicate_succ, run, hvisit, Option.bind_some, ih _ rfl]
      rfl

/-- Without other steps in between, the steps of `CLIP_DATA` are the handler as a
whole. -/
theorem run_clip (hloop : s.main = .loop) (hnum : 1 < s.slave.slaves.num) :
    run step s
        (.clipData :: (List.replicate s.slave.disk.file_master.keys.length .visit ++ [.clipEnd])) =
      some
        { s with
          slave := s.slave.clipData.1
          buf := none
          handed := ⟨s.slave.slaves, s.successor, s.slave.clipData.2⟩ :: s.handed } := by
  have hclip : s.step .clipData = some
      { s.setDisk s.slave.disk.beginClip with
        buf := none
        main := .splitting s.lowerBound s.upperBound s.slave.disk.file_master.keys } := by
    simp only [step, if_pos (And.intro hloop hnum)]
  have hfile : s.slave.disk.beginClip =
      { s.slave.disk.mvBackup1 with
        file_master := s.slave.disk.file_master
        file_tmp := some (openFile s.slave.disk.file_tmp) } := by
    rw [← file_master_mvBackup1]
    rfl
  rw [run, hclip, Option.bind_some, run_append, run_visits _ _ _ _ rfl, Option.bind_some]
  simp only [setDisk, hfile, foldl_visit]
  simp only [run, step, Option.bind_some, Slave.clipData, Disk.clip, splitByKey,
    file_master_mvBackup1, file_tmp_mvBackup1, hloop]
  rfl

end Uninterrupted

section Arrival

variable {s : Server}

/-- The packets that a serving slave can receive meet the guard of the main loop's
step. -/
theorem owns_of_arrives {n : Net} (h : n.NetInv) {p : Packet} (hp : p ∈ n.packets)
    (hserving : (n.procs p.dest).phase = .serving)
    (hslave : s.slave = (n.procs p.dest).slave)
    (hversion : ¬ p.version < s.slave.slaves.version) : s.Owns p.key := by
  rw [hslave] at hversion
  rw [Owns, hslave]
  exact (h.routed ⟨hp, hserving, hversion⟩).1

end Arrival

end Server

end DistributedDB
