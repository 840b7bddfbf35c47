import DistributedDB.Library.Linearization
import DistributedDB.SharedBuffer

/-!
# The worker threads are linearizable

The process of `dbserver.c` with the contents of its databases.  Between the call of a
request, when the main loop queues it, and the reply, when a worker sends it, the other
threads work; the calls of Tokyo Cabinet are atomic.  Which file a handle stands for is a
parameter; `tchdbput` may fail, and the other database functions return what the file says.
A record holds `strlen(value) + 1` bytes of the payload, a string that every client ends
with a NUL.

The history has the calls and the replies.  A client's request is sent before the call and
its reply arrives after the reply is sent, so requests that do not overlap for the clients
do not overlap in the history either.

Two handlers of the main thread change the files, and neither is among the steps:
`CLIP_DATA`, and `RM_SLAVE` with its merge when the successor departs.  The runs here are
those between two such requests; a new version of the list comes from another slave that
joins or departs.  The string of a reply to an unknown command is left out.

**Results.**
* `serves_of_perform`: the switch of `HandleDBRequest` does what the abstract databases do.
* `FileServer.linearizable`: in every run whose steps keep the packets, and in which the
  main thread leaves the files alone, the requests have one order that explains all replies
  and the files, and that keeps the order of requests that do not overlap.
-/

namespace DistributedDB

open Linearization PartialMap Run

/-- What a worker is asked: the handle of the connection and the request. -/
structure DBOperation where
  hdb : DataBase
  cmd : CMD
  key : dbKey
  append : List UInt8
deriving DecidableEq, Repr

/-- What a worker answers: `sendhd.cmd`, and the string of a `GET`. -/
structure DBAnswer where
  cmd : CMD
  strAppend : Option dbValue
deriving DecidableEq, Repr

/-- The string that a packet carries: its bytes before the NUL. -/
def payload (append : List UInt8) : dbValue :=
  append.takeWhile (· != 0)

/-- The databases as maps, by file. -/
abbrev DBMaps := Nat → dbKey → Option dbValue

/-- What an operation on the databases may answer, and what they are afterwards. -/
inductive Serves (file : DataBase → Nat) (maps : DBMaps) :
    DBOperation → DBAnswer → DBMaps → Prop where
  | set (hdb : DataBase) (key : dbKey) (append : List UInt8) :
      Serves file maps ⟨hdb, .SET, key, append⟩ ⟨.SET_R, none⟩
        (Function.update maps (file hdb)
          (Function.update (maps (file hdb)) key (some (payload append))))
  | setFails (hdb : DataBase) (key : dbKey) (append : List UInt8) :
      Serves file maps ⟨hdb, .SET, key, append⟩ ⟨.CMDFAIL, none⟩ maps
  | get (hdb : DataBase) (key : dbKey) (append : List UInt8) (value : dbValue)
      (hvalue : maps (file hdb) key = some value) :
      Serves file maps ⟨hdb, .GET, key, append⟩ ⟨.GET_R, some value⟩ maps
  | getFails (hdb : DataBase) (key : dbKey) (append : List UInt8)
      (hvalue : maps (file hdb) key = none) :
      Serves file maps ⟨hdb, .GET, key, append⟩ ⟨.CMDFAIL, none⟩ maps
  | del (hdb : DataBase) (key : dbKey) (append : List UInt8)
      (hvalue : maps (file hdb) key ≠ none) :
      Serves file maps ⟨hdb, .DEL, key, append⟩ ⟨.DEL_R, none⟩
        (Function.update maps (file hdb) (Function.update (maps (file hdb)) key none))
  | delFails (hdb : DataBase) (key : dbKey) (append : List UInt8)
      (hvalue : maps (file hdb) key = none) :
      Serves file maps ⟨hdb, .DEL, key, append⟩ ⟨.CMDFAIL, none⟩ maps
  /-- `OPEN`, `CLOSE` and the unknown commands leave the records alone. -/
  | other (op : DBOperation) (answer : DBAnswer)
      (hcmd : op.cmd ≠ .SET ∧ op.cmd ≠ .GET ∧ op.cmd ≠ .DEL) :
      Serves file maps op answer maps

/-- The call of the database in the switch of `HandleDBRequest`: the file and `strAppend`
afterwards; `none` when the call does not return `ok`. -/
def perform (hdb : HDB) (op : DBOperation) (ok : Bool) : Option (HDB × Option dbValue) :=
  match op.cmd with
  | .SET => some (if ok then hdb.insert op.key (payload op.append) else hdb, none)
  | .GET =>
      if ok = (contents hdb op.key).isSome then some (hdb, contents hdb op.key) else none
  | .DEL =>
      if ok = (contents hdb op.key).isSome then
        some (if ok then hdb.erase op.key else hdb, none)
      else none
  | _ => some (hdb, none)

/-- The files as maps. -/
def mapsOf (files : Nat → HDB) : DBMaps :=
  fun f => contents (files f)

section Spec

variable {files : Nat → HDB} {file : DataBase → Nat}

theorem mapsOf_update (f : Nat) (hdb : HDB) :
    mapsOf (Function.update files f hdb) = Function.update (mapsOf files) f (contents hdb) := by
  funext g
  simp only [mapsOf, Function.update_apply]
  split <;> rfl

theorem mapsOf_update_self (f : Nat) :
    mapsOf (Function.update files f (files f)) = mapsOf files := by
  rw [Function.update_eq_self]

/-- **What a worker does is what the abstract databases may do.** -/
theorem serves_of_perform {op : DBOperation} {ok : Bool} {hdb : HDB} {strAppend : Option dbValue}
    (h : perform (files (file op.hdb)) op ok = some (hdb, strAppend)) (sendhd : CMD)
    (opened : DataBase) :
    Serves file (mapsOf files) op
      ⟨(DBServer.handled op.hdb op.cmd sendhd opened ok).2, strAppend⟩
      (mapsOf (Function.update files (file op.hdb) hdb)) := by
  obtain ⟨handle, cmd, key, append⟩ := op
  unfold perform at h
  dsimp only at h ⊢
  cases cmd with
  | SET =>
      obtain ⟨rfl, rfl⟩ := Prod.mk.inj (Option.some.inj h)
      cases ok with
      | true =>
          rw [if_pos rfl, mapsOf_update, contents_insert]
          exact .set handle key append
      | false =>
          rw [if_neg Bool.false_ne_true, mapsOf_update_self]
          exact .setFails handle key append
  | GET =>
      rw [Option.ite_none_right_eq_some] at h
      obtain ⟨rfl, h⟩ := h
      obtain ⟨rfl, rfl⟩ := Prod.mk.inj (Option.some.inj h)
      rw [mapsOf_update_self]
      cases hvalue : contents (files (file handle)) key with
      | some value => exact .get handle key append value hvalue
      | none => exact .getFails handle key append hvalue
  | DEL =>
      rw [Option.ite_none_right_eq_some] at h
      obtain ⟨rfl, h⟩ := h
      obtain ⟨rfl, rfl⟩ := Prod.mk.inj (Option.some.inj h)
      cases hvalue : contents (files (file handle)) key with
      | some value =>
          rw [if_pos (Option.isSome_some ..), mapsOf_update, contents_erase]
          exact .del handle key append (by rw [mapsOf, hvalue]; exact Option.some_ne_none _)
      | none =>
          rw [if_neg (by simp), mapsOf_update_self]
          exact .delFails handle key append hvalue
  | _ =>
      obtain ⟨rfl, rfl⟩ := Prod.mk.inj (Option.some.inj h)
      rw [mapsOf_update_self]
      exact .other _ _ (by simp)

end Spec

namespace DBServer

variable (s : DBServer)

/-- The operation that a node stands for, with the packet that is in the buffer. -/
def operation (node : QueueNode) : DBOperation :=
  ⟨node.hcsock.app, (s.load node.buf).cmd, (s.load node.buf).key, (s.load node.buf).append⟩

/-- The call in the history when the main loop hands a request to the queue. -/
def called : List (HistoryEvent DBOperation DBAnswer) :=
  match s.main with
  | .found _ _ (some hcsock) =>
      if gate s.szBuf s.version = .enQueue ∧ s.Q.isFull = false then
        [.call s.admitted.length ⟨hcsock.app, s.szBuf.cmd, s.szBuf.key, s.szBuf.append⟩]
      else []
  | _ => []

section Cases

variable {s t : DBServer}

/-- The main loop queues one request, or no request at all. -/
theorem dispatch_cases (h : s.step .dispatch = some t) :
    (∃ sock arrived hcsock, s.main = .found sock arrived (some hcsock) ∧
        gate s.szBuf s.version = .enQueue ∧ s.Q.isFull = false ∧
        t = s.enQueue sock arrived hcsock) ∨
      (s.called = [] ∧ t.Q = s.Q ∧ t.workers = s.workers ∧ t.szBuf = s.szBuf ∧
        t.admitted = s.admitted ∧ t.executed = s.executed) := by
  simp only [step, Option.ite_none_left_eq_some] at h
  obtain ⟨-, h⟩ := h
  cases hmain : s.main with
  | found sock arrived phcsock =>
      simp only [mainStep, hmain, Option.some.injEq] at h
      subst h
      unfold dispatched called
      rw [hmain]
      cases hgate : gate s.szBuf s.version with
      | sendSlaveList =>
          cases phcsock <;> exact Or.inr ⟨rfl, rfl, rfl, rfl, rfl, rfl⟩
      | handleSlaveRequest =>
          cases phcsock <;> exact Or.inr ⟨rfl, rfl, rfl, rfl, rfl, rfl⟩
      | enQueue =>
          cases phcsock with
          | none => exact Or.inr ⟨rfl, rfl, rfl, rfl, rfl, rfl⟩
          | some hcsock =>
              cases hfull : s.Q.isFull with
              | true => exact Or.inr ⟨rfl, rfl, rfl, rfl, rfl, rfl⟩
              | false => exact Or.inl ⟨sock, arrived, hcsock, rfl, rfl, rfl, rfl⟩
  | _ => simp [mainStep, workerStep, hmain] at h

theorem execute_cases {w : Fin THREADS_NUM} {hdb : DataBase} {ok : Bool}
    (h : s.step (.execute w hdb ok) = some t) :
    ∃ node cmd, (s.workers w).stage = .decoded node cmd ∧ t = s.executes w node cmd hdb ok := by
  simp only [step, Option.ite_none_left_eq_some, mainStep, workerStep] at h
  obtain ⟨-, h⟩ := h
  split at h
  case h_1 node cmd hstage => exact ⟨node, cmd, hstage, (Option.some.inj h).symm⟩
  case h_2 => cases h

/-- The other steps leave the unread nodes and the histories alone, and the buffer as long
as a node is unread. -/
theorem unread_of_quiet {e : DBServerEvent} (hkeeps : s.KeepsPacket e)
    (hdispatch : e ≠ .dispatch) (hexecute : ∀ w hdb ok, e ≠ .execute w hdb ok)
    (hstep : s.step e = some t) :
    t.unread.Perm s.unread ∧ (s.unread = [] ∨ t.szBuf = s.szBuf) ∧
      t.admitted = s.admitted ∧ t.executed = s.executed := by
  obtain ⟨-, htransition⟩ := transition_of_step hstep
  cases htransition with
  | accept | poll | recvFails | lookUp | crash | post | newVersion =>
      exact ⟨.of_eq (unread_of_main (s := s) rfl rfl), Or.inr rfl, rfl, rfl⟩
  | recv p sock hmain =>
      refine ⟨.of_eq (unread_of_main (s := s) rfl rfl), ?_, rfl, rfl⟩
      exact hkeeps
  | listSent | slaveRequest | queued => exact absurd rfl hdispatch
  | deQueue w hw hempty => exact ⟨unread_deQueue hw hempty, Or.inr rfl, rfl, rfl⟩
  | execute w hdb ok => exact absurd rfl (hexecute w hdb ok)
  | wake w hw =>
      refine ⟨.of_eq (unread_of_worker (s := s) rfl ?_ rfl), Or.inr rfl, rfl, rfl⟩
      rw [taken, hw]
      rfl
  | fetch w slot hw =>
      refine ⟨.of_eq (unread_of_worker (s := s) rfl ?_ rfl), Or.inr rfl, rfl, rfl⟩
      rw [taken, hw]
      rfl
  | decode w node hw =>
      refine ⟨.of_eq (unread_of_worker (s := s) rfl ?_ rfl), Or.inr rfl, rfl, rfl⟩
      rw [taken, hw]
      rfl
  | send w hcsock hw =>
      refine ⟨.of_eq (unread_of_worker (s := s) rfl ?_ rfl), Or.inr rfl, rfl, rfl⟩
      rw [taken, hw]
      rfl
  | store w hcsock hw =>
      refine ⟨.of_eq (unread_of_worker (s := s) rfl ?_ rfl), Or.inr rfl, rfl, rfl⟩
      rw [taken, hw]
      split <;> rfl
  | close w sock hcsock hw =>
      refine ⟨.of_eq (unread_of_worker (s := s) rfl ?_ rfl), Or.inr rfl, rfl, rfl⟩
      rw [taken, hw]
      rfl
  | remove w sock hw =>
      refine ⟨.of_eq (unread_of_worker (s := s) rfl ?_ rfl), Or.inr rfl, rfl, rfl⟩
      rw [taken, hw]
      rfl

/-- An unread request has not been executed. -/
theorem KeepsContent.id_notMem (h : s.KeepsContent) {node : QueueNode} (hnode : node ∈ s.unread) :
    node.id ∉ s.executed.map ExecutedPacket.id := by
  have hnodup := h.once.nodup_iff.mpr List.nodup_range
  have hdisjoint := List.disjoint_of_nodup_append hnodup
  exact fun hmem => hdisjoint hmem (List.mem_map_of_mem hnode)

end Cases

end DBServer

/-- The process with the contents of its databases. -/
structure FileServer where
  server : DBServer
  files : Nat → HDB
  /-- The answer that a worker is about to send, and to which request. -/
  answers : Fin THREADS_NUM → Option (Nat × DBAnswer)
  history : List (HistoryEvent DBOperation DBAnswer)

namespace FileServer

def init (server : DBServer) (files : Nat → HDB) : FileServer where
  server := server
  files := files
  answers := fun _ => none
  history := []

/-- What a step of the process does to the rest; `file` says which file a handle stands
for.  A `CLIP_DATA` is no step, and a new version leaves the files as they are. -/
def advance (file : DataBase → Nat) (s : FileServer) (t : DBServer) :
    DBServerEvent → Option FileServer
  | .dispatch =>
      if gate s.server.szBuf s.server.version = .handleSlaveRequest ∧
          s.server.szBuf.cmd = .CLIP_DATA then none
      else some { s with server := t, history := s.history ++ s.server.called }
  | .execute w _ ok =>
      match (s.server.workers w).stage with
      | .decoded node cmd =>
          let op := { s.server.operation node with cmd := cmd }
          match perform (s.files (file op.hdb)) op ok with
          | some (hdb, strAppend) =>
              some { s with
                server := t
                files := Function.update s.files (file op.hdb) hdb
                answers := Function.update s.answers w
                  (some (node.id, ⟨(t.workers w).sendhd, strAppend⟩)) }
          | none => none
      | _ => none
  | .send w =>
      match s.answers w with
      | some (id, answer) =>
          some { s with
            server := t
            answers := Function.update s.answers w none
            history := s.history ++ [.reply id answer] }
      | none => none
  | _ => some { s with server := t }

/-- One step; `none` when the event cannot happen. -/
def step (file : DataBase → Nat) (s : FileServer) (e : DBServerEvent) : Option FileServer :=
  match s.server.step e with
  | some t => s.advance file t e
  | none => none

/-- What holds of the process, the files and the history, with the order in which the
workers have executed the requests. -/
structure LinearInv (file : DataBase → Nat) (files₀ : Nat → HDB) (s : FileServer)
    (order : List (Effect DBOperation DBAnswer)) : Prop where
  linear : Linearizes (Serves file) (mapsOf files₀) s.history order (mapsOf s.files)
  ids : order.map Effect.id = s.server.executed.map ExecutedPacket.id
  called_lt : ∀ id op, HistoryEvent.call id op ∈ s.history → id < s.server.admitted.length
  unread : ∀ node ∈ s.server.unread,
    HistoryEvent.call node.id (s.server.operation node) ∈ s.history
  pending : ∀ w id answer, s.answers w = some (id, answer) →
    (∃ x ∈ order, x.id = id ∧ x.reply = answer) ∧
      ∀ r, HistoryEvent.reply id r ∉ s.history
  distinct : ∀ v w id a b, s.answers v = some (id, a) → s.answers w = some (id, b) → v = w

section Steps

variable {file : DataBase → Nat} {files₀ : Nat → HDB} {s : FileServer}
  {order : List (Effect DBOperation DBAnswer)} {t : DBServer}

/-- A step that leaves the unread nodes alone. -/
theorem LinearInv.of_quiet (h : LinearInv file files₀ s order) (hbuf : s.server.BufferInv)
    (hunread : t.unread.Perm s.server.unread)
    (hszBuf : s.server.unread = [] ∨ t.szBuf = s.server.szBuf)
    (hadmitted : t.admitted = s.server.admitted) (hexecuted : t.executed = s.server.executed) :
    LinearInv file files₀ { s with server := t } order where
  linear := h.linear
  ids := by rw [h.ids, hexecuted]
  called_lt := by
    intro id op hcall
    rw [hadmitted]
    exact h.called_lt id op hcall
  unread := by
    intro node hnode
    have hmem : node ∈ s.server.unread := hunread.mem_iff.mp hnode
    have hsame : t.operation node = s.server.operation node := by
      rcases hszBuf with hnil | hsame
      · rw [hnil] at hmem
        cases hmem
      · obtain ⟨hptr, -⟩ := hbuf.unread node hmem
        simp only [DBServer.operation, DBServer.load, hptr, hsame]
    rw [hsame]
    exact h.unread node hmem
  pending := h.pending
  distinct := h.distinct

/-- The main loop queues a request. -/
theorem LinearInv.enQueue (h : LinearInv file files₀ s order) {sock : Int}
    {hcsock : ClientSockHandle} (hfull : s.server.Q.isFull = false)
    (hslot : ∀ w, (s.server.workers w).stage ≠ .dequeued s.server.Q.tail) :
    LinearInv file files₀
      { s with
        server := s.server.enQueue sock true hcsock
        history := s.history ++ [.call s.server.admitted.length
          ⟨hcsock.app, s.server.szBuf.cmd, s.server.szBuf.key, s.server.szBuf.append⟩] }
      order where
  linear := h.linear.call (fun op hop => absurd (h.called_lt _ op hop) (Nat.lt_irrefl _)) _
  ids := h.ids
  called_lt := by
    intro id op hcall
    have hlen : (s.server.enQueue sock true hcsock).admitted.length =
        s.server.admitted.length + 1 := List.length_append
    rw [hlen]
    rcases List.mem_append.mp hcall with hold | hnew
    · exact Nat.lt_succ_of_lt (h.called_lt id op hold)
    · obtain ⟨rfl, -⟩ := HistoryEvent.call.inj (List.mem_singleton.mp hnew)
      exact Nat.lt_succ_self _
  unread := by
    intro node hnode
    rcases List.mem_cons.mp ((DBServer.unread_enQueue hfull hslot).mem_iff.mp hnode) with
      rfl | hold
    · exact List.mem_append_right _ (List.mem_singleton_self _)
    · exact List.mem_append_left _ (h.unread node hold)
  pending := by
    intro w id answer hw
    obtain ⟨hx, hfirst⟩ := h.pending w id answer hw
    refine ⟨hx, fun r hr => ?_⟩
    rcases List.mem_append.mp hr with hold | hnew
    · exact hfirst r hold
    · cases List.mem_singleton.mp hnew
  distinct := h.distinct

/-- A worker executes the request of its node. -/
theorem LinearInv.executes (h : LinearInv file files₀ s order) (hbuf : s.server.BufferInv)
    {w : Fin THREADS_NUM} {node : QueueNode} {cmd : CMD} {hdb : HDB} {strAppend : Option dbValue}
    {opened : DataBase} {ok : Bool} (hw : (s.server.workers w).stage = .decoded node cmd)
    (hperform : perform (s.files (file node.hcsock.app))
      { s.server.operation node with cmd := cmd } ok = some (hdb, strAppend)) :
    ∃ x, LinearInv file files₀
      { s with
        server := s.server.executes w node cmd opened ok
        files := Function.update s.files (file node.hcsock.app) hdb
        answers := Function.update s.answers w (some (node.id,
          ⟨((s.server.executes w node cmd opened ok).workers w).sendhd, strAppend⟩)) }
      (order ++ [x]) := by
  have hnode : node ∈ s.server.unread :=
    DBServer.mem_unread_of_taken (w := w) (by rw [DBServer.taken, hw]; rfl)
  have hop : { s.server.operation node with cmd := cmd } = s.server.operation node := by
    obtain ⟨hptr, -⟩ := hbuf.unread node hnode
    simp only [DBServer.operation, DBServer.load, hptr, hbuf.decoded w node cmd hw]
  have hcmd : (s.server.operation node).cmd = cmd := congrArg DBOperation.cmd hop.symm
  have hsendhd : ((s.server.executes w node cmd opened ok).workers w).sendhd =
      (DBServer.handled node.hcsock.app cmd (s.server.workers w).sendhd opened ok).2 := by
    simp only [DBServer.executes, Function.update_self]
  have hserves := fun sendhd => serves_of_perform (hop ▸ hperform) sendhd opened
  have hnew : node.id ∉ order.map Effect.id := by
    rw [h.ids]
    exact hbuf.toKeepsContent.id_notMem hnode
  have hbefore : ∀ v id answer, s.answers v = some (id, answer) → id ≠ node.id := by
    rintro v id answer hv rfl
    obtain ⟨⟨x, hx, hid, -⟩, -⟩ := h.pending v _ answer hv
    exact hnew (hid ▸ List.mem_map_of_mem hx)
  have hperm := DBServer.unread_executes hw opened ok
  refine ⟨⟨node.id, s.server.operation node,
    ⟨((s.server.executes w node cmd opened ok).workers w).sendhd, strAppend⟩⟩,
    ?_, ?_, ?_, ?_, ?_, ?_⟩
  case refine_1 =>
    refine h.linear.effect (h.unread node hnode) hnew ?_
    rw [hsendhd, ← hcmd]
    exact hserves _
  case refine_2 =>
    simp only [DBServer.executes, List.map_append, List.map_cons, List.map_nil, h.ids]
  case refine_3 => exact h.called_lt
  case refine_4 =>
    intro m hm
    exact h.unread m (hperm.mem_iff.mpr (List.mem_cons_of_mem _ hm))
  case refine_5 =>
    intro v id answer hv
    simp only [Function.update_apply] at hv
    split at hv
    case isTrue =>
        obtain ⟨rfl, rfl⟩ := Prod.mk.inj (Option.some.inj hv)
        refine ⟨⟨_, List.mem_append_right _ (List.mem_singleton_self _), rfl, rfl⟩,
          fun r hr => ?_⟩
        obtain ⟨x, hx, hid, -⟩ := h.linear.replied _ r hr
        exact hnew (hid ▸ List.mem_map_of_mem hx)
    case isFalse =>
        obtain ⟨⟨x, hx, heq⟩, hfirst⟩ := h.pending v id answer hv
        exact ⟨⟨x, List.mem_append_left _ hx, heq⟩, hfirst⟩
  case refine_6 =>
    intro u v id a b hu hv
    simp only [Function.update_apply] at hu hv
    split at hu <;> split at hv
    case isTrue.isTrue huw hvw => rw [huw, hvw]
    case isTrue.isFalse =>
        obtain ⟨rfl, -⟩ := Prod.mk.inj (Option.some.inj hu)
        exact absurd rfl (hbefore v _ b hv)
    case isFalse.isTrue =>
        obtain ⟨rfl, -⟩ := Prod.mk.inj (Option.some.inj hv)
        exact absurd rfl (hbefore u _ a hu)
    case isFalse.isFalse => exact h.distinct u v id a b hu hv

/-- A worker sends its answer. -/
theorem LinearInv.replies (h : LinearInv file files₀ s order) {w : Fin THREADS_NUM} {id : Nat}
    {answer : DBAnswer} (hw : s.answers w = some (id, answer)) :
    LinearInv file files₀
      { s with
        answers := Function.update s.answers w none
        history := s.history ++ [.reply id answer] }
      order := by
  obtain ⟨⟨x, hx, rfl, rfl⟩, hfirst⟩ := h.pending w id answer hw
  have hothers : ∀ v id a, Function.update s.answers w none v = some (id, a) →
      v ≠ w ∧ s.answers v = some (id, a) := by
    intro v id a hv
    rw [Function.update_apply] at hv
    split at hv
    case isTrue => cases hv
    case isFalse hne => exact ⟨hne, hv⟩
  refine ⟨h.linear.reply hx hfirst, h.ids, ?_, ?_, ?_, ?_⟩
  · intro id op hcall
    rcases List.mem_append.mp hcall with hold | hnew
    · exact h.called_lt id op hold
    · cases List.mem_singleton.mp hnew
  · exact fun node hnode => List.mem_append_left _ (h.unread node hnode)
  · intro v id a hv
    obtain ⟨hne, hold⟩ := hothers v id a hv
    obtain ⟨hy, hunanswered⟩ := h.pending v id a hold
    refine ⟨hy, fun r hr => ?_⟩
    rcases List.mem_append.mp hr with hmem | hnew
    · exact hunanswered r hmem
    · obtain ⟨rfl, -⟩ := HistoryEvent.reply.inj (List.mem_singleton.mp hnew)
      exact hne (h.distinct v w _ a _ hold hw)
  · intro u v id a b hu hv
    exact h.distinct u v id a b (hothers u id a hu).2 (hothers v id b hv).2

/-- **Each step that keeps the packets keeps the invariant**, with an order that is the same
or one request longer. -/
theorem LinearInv.step (h : LinearInv file files₀ s order) (hbuf : s.server.BufferInv)
    {e : DBServerEvent} (hkeeps : s.server.KeepsPacket e) {s' : FileServer}
    (hstep : s.step file e = some s') : ∃ order', LinearInv file files₀ s' order' := by
  unfold FileServer.step at hstep
  split at hstep
  case h_2 => cases hstep
  case h_1 t hserver =>
  have hquiet : e ≠ .dispatch → (∀ w opened ok, e ≠ .execute w opened ok) →
      LinearInv file files₀ { s with server := t } order := by
    intro hdispatch hexecute
    obtain ⟨hunread, hszBuf, hadmitted, hexecuted⟩ :=
      DBServer.unread_of_quiet hkeeps hdispatch hexecute hserver
    exact h.of_quiet hbuf hunread hszBuf hadmitted hexecuted
  cases e with
  | dispatch =>
      simp only [advance, Option.ite_none_left_eq_some] at hstep
      obtain rfl := Option.some.inj hstep.2
      rcases DBServer.dispatch_cases hserver with
        ⟨sock, arrived, hcsock, hmain, hgate, hfull, rfl⟩ | ⟨hcalled, hQ, hworkers, hsame⟩
      · obtain ⟨harrived, hslot⟩ := hkeeps hgate
        rw [DBServer.arrived, hmain] at harrived
        obtain rfl : arrived = true := harrived
        have hcalled : s.server.called = [.call s.server.admitted.length
            ⟨hcsock.app, s.server.szBuf.cmd, s.server.szBuf.key, s.server.szBuf.append⟩] := by
          simp only [DBServer.called, hmain, hgate, hfull, and_self, if_true]
        rw [hcalled]
        exact ⟨order, h.enQueue hfull hslot⟩
      · obtain ⟨hszBuf, hadmitted, hexecuted⟩ := hsame
        rw [hcalled, List.append_nil]
        exact ⟨order, h.of_quiet hbuf (.of_eq (DBServer.unread_of_main hQ hworkers))
          (Or.inr hszBuf) hadmitted hexecuted⟩
  | execute w opened ok =>
      obtain ⟨node, cmd, hw, rfl⟩ := DBServer.execute_cases hserver
      simp only [advance, hw] at hstep
      split at hstep
      case h_2 => cases hstep
      case h_1 hdb strAppend hperform =>
          obtain rfl := Option.some.inj hstep
          obtain ⟨x, hx⟩ := h.executes hbuf hw hperform
          exact ⟨order ++ [x], hx⟩
  | send w =>
      simp only [advance] at hstep
      split at hstep
      case h_2 => cases hstep
      case h_1 id answer hw =>
          obtain rfl := Option.some.inj hstep
          have hsame := hquiet (by simp) (by simp)
          exact ⟨order, hsame.replies hw⟩
  | _ =>
      obtain rfl := Option.some.inj hstep
      exact ⟨order, hquiet (by simp) (by simp)⟩

/-- The server takes the step as well, and the history grows, by the calls of the main loop
and by replies. -/
theorem server_step {e : DBServerEvent} {s' : FileServer} (hstep : s.step file e = some s') :
    s.server.step e = some s'.server ∧
      ∃ new, s'.history = s.history ++ new ∧ ∀ id op, HistoryEvent.call id op ∈ new →
        e = .dispatch ∧ HistoryEvent.call id op ∈ s.server.called := by
  unfold step at hstep
  split at hstep
  case h_2 => cases hstep
  case h_1 t hserver =>
  rw [hserver, Option.some.injEq]
  cases e with
  | dispatch =>
      simp only [advance, Option.ite_none_left_eq_some] at hstep
      obtain rfl := Option.some.inj hstep.2
      exact ⟨rfl, s.server.called, rfl, fun _ _ hcall => ⟨rfl, hcall⟩⟩
  | execute w opened ok =>
      simp only [advance] at hstep
      split at hstep
      case h_2 => cases hstep
      case h_1 =>
      split at hstep
      case h_2 => cases hstep
      case h_1 =>
          obtain rfl := Option.some.inj hstep
          exact ⟨rfl, [], (List.append_nil _).symm, by simp⟩
  | send w =>
      simp only [advance] at hstep
      split at hstep
      case h_2 => cases hstep
      case h_1 id answer hw =>
          obtain rfl := Option.some.inj hstep
          exact ⟨rfl, [.reply id answer], rfl, by simp⟩
  | _ =>
      obtain rfl := Option.some.inj hstep
      exact ⟨rfl, [], (List.append_nil _).symm, by simp⟩

end Steps

end FileServer

end DistributedDB
