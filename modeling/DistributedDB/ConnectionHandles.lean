import DistributedDB.SharedBuffer

/-!
# The handles of the connections

The handle of a connection travels with its requests: the main loop copies the record
into the queue node, the worker takes the handle from there, and `DBSendMsg` writes the
record back when the reply has been sent.  So the record is behind the reply: a client
that has the reply to its `OPEN` may be quicker than the `MDBSet`, and its next `OPEN` may
be written back before the record of the request in between.  The handle of a new record
is garbage, and that of a failed `OPEN` is `NULL`; the code never tests for either.

**Results.**
* `HandleInv`: who carries the handle of a connection; each orderly step keeps it.
* `DBServer.own_handles`: in every orderly run of clients that wait for their replies,
  each operation runs with the handle of the latest successful `OPEN` on its connection.
* `DBServer.handle_lost`: a run in which an operation after a successful `OPEN` runs
  with garbage.
-/

namespace DistributedDB

open Run

/-- The commands that run with the handle of the connection. -/
def CMD.usesHandle : CMD → Bool
  | .SET | .GET | .DEL | .CLOSE => true
  | _ => false

namespace WorkerStage

/-- The connection whose reply is still to be sent. -/
def unsent : WorkerStage → Option ClientSockHandle
  | .replying hcsock => some hcsock
  | _ => none

/-- The connection whose reply is sent and whose record is still to be written back. -/
def unstored : WorkerStage → Option ClientSockHandle
  | .sent hcsock => some hcsock
  | _ => none

/-- The connection whose record is still to be written back. -/
def executed : WorkerStage → Option ClientSockHandle
  | .replying hcsock | .sent hcsock => some hcsock
  | _ => none

end WorkerStage

namespace DBServer

/-- The socket that the main loop is working on. -/
def polled (s : DBServer) : Option Int :=
  match s.main with
  | .ready sock | .received sock _ | .found sock _ _ => some sock
  | _ => none

/-- The records of requests behind the main loop that are not answered. -/
def pending (s : DBServer) : List ClientSockHandle :=
  s.unread.map QueueNode.hcsock ++ holdings fun w => (s.workers w).stage.unsent

/-- The sockets with a request that is not answered. -/
def unanswered (s : DBServer) : List Int :=
  s.pending.map ClientSockHandle.sock

/-- The sockets between the `send` and the `MDBSet` of `DBSendMsg`. -/
def unstored (s : DBServer) : List Int :=
  (holdings fun w => (s.workers w).stage.unstored).map ClientSockHandle.sock

/-- What the workers are about to write back for the socket is the record that it has, and
no `OPEN` of it has arrived in the meantime. -/
def Settled (s : DBServer) (sock : Int) : Prop :=
  ∀ w, ∀ hcsock ∈ (s.workers w).stage.unstored, hcsock.sock = sock →
    s.MDB sock = some hcsock ∧ s.szBuf.cmd ≠ .OPEN

instance (s : DBServer) (sock : Int) : Decidable (s.Settled sock) :=
  inferInstanceAs (Decidable (∀ w, ∀ hcsock ∈ (s.workers w).stage.unstored,
    hcsock.sock = sock → s.MDB sock = some hcsock ∧ s.szBuf.cmd ≠ .OPEN))

/-- Each client sends its next packet after the reply to the previous one. -/
def Synchronous (s : DBServer) : DBServerEvent → Prop
  | .recv _ => ∀ sock ∈ s.polled, sock ∉ s.unanswered
  | _ => True

/-- The condition on a step: the packets are kept, a record is not looked up before the
handle of an `OPEN` is written back, nor for an `OPEN` before any write-back, an operation
arrives only on a connection whose latest `OPEN` was successful, and a socket is not
accepted while a request of an earlier connection with its number is in progress. -/
def Orderly (s : DBServer) : DBServerEvent → Prop
  | .accept sock _ _ => sock ∉ s.unanswered ∧ sock ∉ s.unstored
  | .recv p => s.KeepsPacket (.recv p)
  | .lookUp => s.arrived = true → ∀ sock ∈ s.polled, s.Settled sock
  | .dispatch => s.KeepsPacket .dispatch ∧
      (gate s.szBuf s.version = .enQueue → s.szBuf.cmd.usesHandle = true →
        ∀ sock ∈ s.polled, (s.opens sock).latest.isSome = true ∧
          (s.opens sock).failed = false)
  | _ => True

instance (s : DBServer) (e : DBServerEvent) : Decidable (s.Synchronous e) :=
  match e with
  | .recv _ => inferInstanceAs (Decidable (∀ sock ∈ s.polled, sock ∉ s.unanswered))
  | .accept _ _ _ | .poll _ | .recvFails | .lookUp | .dispatch | .post | .newVersion | .wake _
  | .deQueue _ | .fetch _ | .decode _ | .execute _ _ _ | .send _ | .store _ | .close _
  | .remove _ => isTrue trivial

instance (s : DBServer) (e : DBServerEvent) : Decidable (s.Orderly e) :=
  match e with
  | .accept sock _ _ => inferInstanceAs (Decidable (sock ∉ s.unanswered ∧ sock ∉ s.unstored))
  | .recv p => inferInstanceAs (Decidable (s.KeepsPacket (.recv p)))
  | .lookUp =>
      inferInstanceAs (Decidable (s.arrived = true → ∀ sock ∈ s.polled, s.Settled sock))
  | .dispatch =>
      inferInstanceAs (Decidable (s.KeepsPacket .dispatch ∧
        (gate s.szBuf s.version = .enQueue → s.szBuf.cmd.usesHandle = true →
          ∀ sock ∈ s.polled,
            (s.opens sock).latest.isSome = true ∧ (s.opens sock).failed = false)))
  | .poll _ | .recvFails | .post | .newVersion | .wake _ | .deQueue _ | .fetch _ | .decode _
  | .execute _ _ _ | .send _ | .store _ | .close _ | .remove _ => isTrue trivial

/-- Every operation was executed for a request that had arrived on the connection, with
the handle that the latest successful `OPEN` on it had returned. -/
def OwnHandles (s : DBServer) : Prop :=
  ∀ x ∈ s.executed, x.cmd.usesHandle = true →
    ∃ a, s.admitted[x.id]? = some a ∧ a.sock = x.sock ∧ a.latest = some x.hdb

/-- The record that the main loop has looked up for a packet. -/
def accepted (s : DBServer) : List ClientSockHandle :=
  match s.main with
  | .found _ true (some hcsock) => [hcsock]
  | _ => []

/-- The records of requests in progress behind the main loop. -/
def inProgress (s : DBServer) : List ClientSockHandle :=
  s.unread.map QueueNode.hcsock ++ holdings fun w => (s.workers w).stage.executed

/-- The handle is the one that the connection has opened, if there is one. -/
def Agrees (s : DBServer) (hcsock : ClientSockHandle) : Prop :=
  ∀ hdb, s.opens hcsock.sock = ⟨some hdb, false⟩ → hcsock.app = hdb

/-- The request behind a node came when its connection had a handle. -/
def ArrivedOpen (s : DBServer) (node : QueueNode) : Prop :=
  ∃ a, s.admitted[node.id]? = some a ∧
    (a.packet.cmd.usesHandle = true →
      ∃ hdb, a.latest = some hdb ∧ s.opens node.hcsock.sock = ⟨some hdb, false⟩)

/-- The invariant of the orderly runs. -/
structure HandleInv (s : DBServer) : Prop where
  single : ((s.accepted ++ s.pending).map ClientSockHandle.sock).Nodup
  fresh : ∀ sock, s.main = .received sock true → sock ∉ s.unanswered
  carried : ∀ hcsock ∈ s.accepted ++ s.inProgress, s.Agrees hcsock
  stored : ∀ sock hcsock, s.MDB sock = some hcsock →
    s.Agrees hcsock ∨ sock ∈ s.inProgress.map ClientSockHandle.sock
  opening : s.szBuf.cmd = .OPEN →
    ∀ hcsock ∈ s.accepted ++ s.unread.map QueueNode.hcsock, hcsock.sock ∉ s.unstored
  arrivedOpen : ∀ node ∈ s.unread, s.ArrivedOpen node
  own : s.OwnHandles

theorem handleInv_init (slots : Nat → QueueNode) (allocated : Nat → DBPacket) (sendhd : CMD)
    (version : UInt32) : (init slots allocated sendhd version).HandleInv where
  single := List.nodup_nil
  fresh := nofun
  carried := nofun
  stored := nofun
  opening := nofun
  arrivedOpen := nofun
  own := nofun

section Steps

variable {s s' : DBServer}

theorem executed_eq_some {stage : WorkerStage} {hcsock : ClientSockHandle} :
    stage.executed = some hcsock ↔
      stage.unsent = some hcsock ∨ stage.unstored = some hcsock := by
  cases stage <;> simp [WorkerStage.executed, WorkerStage.unsent, WorkerStage.unstored]

theorem mem_unstored {sock : Int} :
    sock ∈ s.unstored ↔
      ∃ w hcsock, (s.workers w).stage.unstored = some hcsock ∧ hcsock.sock = sock := by
  rw [unstored, List.mem_map]
  constructor
  · rintro ⟨hcsock, hheld, hsock⟩
    obtain ⟨w, hw⟩ := mem_holdings.mp hheld
    exact ⟨w, hcsock, hw, hsock⟩
  · rintro ⟨w, hcsock, hw, hsock⟩
    exact ⟨hcsock, mem_holdings.mpr ⟨w, hw⟩, hsock⟩

/-- A request in progress is not answered, or its record is not written back. -/
theorem mem_of_inProgress {hcsock : ClientSockHandle} (h : hcsock ∈ s.inProgress) :
    hcsock ∈ s.pending ∨ ∃ w, (s.workers w).stage.unstored = some hcsock := by
  rcases List.mem_append.mp h with hunread | hexecuted
  · exact Or.inl (List.mem_append_left _ hunread)
  · obtain ⟨w, hw⟩ := mem_holdings.mp hexecuted
    rcases executed_eq_some.mp hw with hunsent | hunstored
    · exact Or.inl (List.mem_append_right _ (mem_holdings.mpr ⟨w, hunsent⟩))
    · exact Or.inr ⟨w, hunstored⟩

/-- The workers hold the same answered and unanswered requests. -/
def SameStages (s s' : DBServer) : Prop :=
  ∀ w, (s'.workers w).stage.unsent = (s.workers w).stage.unsent ∧
    (s'.workers w).stage.unstored = (s.workers w).stage.unstored

theorem pending_of_frame (hunread : s'.unread.Perm s.unread) (hstages : s.SameStages s') :
    s'.pending.Perm s.pending := by
  have hheld : (fun w => (s'.workers w).stage.unsent) = fun w => (s.workers w).stage.unsent :=
    funext fun w => (hstages w).1
  rw [pending, pending, hheld]
  exact (hunread.map _).append_right _

theorem inProgress_of_frame (hunread : s'.unread.Perm s.unread) (hstages : s.SameStages s') :
    s'.inProgress.Perm s.inProgress := by
  have hheld : (fun w => (s'.workers w).stage.executed) =
      fun w => (s.workers w).stage.executed := by
    funext w
    refine Option.ext fun hcsock => ?_
    rw [executed_eq_some, executed_eq_some, (hstages w).1, (hstages w).2]
  rw [inProgress, inProgress, hheld]
  exact (hunread.map _).append_right _

theorem unstored_of_frame (hstages : s.SameStages s') : s'.unstored = s.unstored := by
  have hheld : (fun w => (s'.workers w).stage.unstored) = fun w => (s.workers w).stage.unstored :=
    funext fun w => (hstages w).2
  rw [unstored, unstored, hheld]

/-- A step that takes no record into or out of progress, except that the main loop may
give one up. -/
theorem HandleInv.of_frame (h : s.HandleInv) (hunread : s'.unread.Perm s.unread)
    (hstages : s.SameStages s') (haccepted : s'.accepted = s.accepted ∨ s'.accepted = [])
    (hfresh : ∀ sock, s'.main = .received sock true → sock ∉ s.unanswered)
    (hMDB : ∀ sock hcsock, s'.MDB sock = some hcsock → s.MDB sock = some hcsock)
    (hbuf : s.unread = [] ∧ s'.accepted = [] ∨ s'.szBuf = s.szBuf) (hopens : s'.opens = s.opens)
    (hadmitted : s'.admitted = s.admitted) (hexecuted : s'.executed = s.executed) :
    s'.HandleInv := by
  have hpending := pending_of_frame hunread hstages
  have hprogress := inProgress_of_frame hunread hstages
  have hsub : ∀ {l l' : List ClientSockHandle}, l.Perm l' → ∃ rest : List ClientSockHandle,
      (s.accepted ++ l').Perm (rest ++ (s'.accepted ++ l)) := by
    intro l l' hl
    rcases haccepted with heq | heq
    · exact ⟨[], by rw [heq]; exact hl.symm.append_left _⟩
    · exact ⟨s.accepted, by rw [heq]; exact hl.symm.append_left _⟩
  have hagrees : ∀ hcsock, s.Agrees hcsock → s'.Agrees hcsock := by
    intro hcsock ha
    unfold Agrees
    rw [hopens]
    exact ha
  refine ⟨?_, ?_, ?_, ?_, ?_, ?_, ?_⟩
  · obtain ⟨rest, hperm⟩ := hsub hpending
    have hnodup := (hperm.map ClientSockHandle.sock).nodup_iff.mp h.single
    rw [List.map_append] at hnodup
    exact (List.nodup_append.mp hnodup).2.1
  · intro sock hmain hmem
    exact hfresh sock hmain ((hpending.map _).mem_iff.mp hmem)
  · intro hcsock hmem
    obtain ⟨rest, hperm⟩ := hsub hprogress
    exact hagrees _ (h.carried hcsock (hperm.mem_iff.mpr (List.mem_append_right _ hmem)))
  · intro sock hcsock hrecord
    rcases h.stored sock hcsock (hMDB sock hcsock hrecord) with ha | hmem
    · exact Or.inl (hagrees _ ha)
    · exact Or.inr ((hprogress.map _).mem_iff.mpr hmem)
  · intro hopen hcsock hmem
    rw [unstored_of_frame hstages]
    rcases hbuf with ⟨hnil, hnone⟩ | hsame
    · rw [hnil] at hunread
      rw [hnone, hunread.eq_nil] at hmem
      cases hmem
    · obtain ⟨rest, hperm⟩ := hsub (hunread.map QueueNode.hcsock)
      refine h.opening (hsame ▸ hopen) hcsock ?_
      exact hperm.mem_iff.mpr (List.mem_append_right _ hmem)
  · intro node hnode
    unfold ArrivedOpen
    rw [hadmitted, hopens]
    exact h.arrivedOpen node (hunread.mem_iff.mp hnode)
  · unfold OwnHandles
    rw [hexecuted, hadmitted]
    exact h.own

/-- A step of the main thread that gives up the record it has looked up. -/
theorem HandleInv.of_main (h : s.HandleInv) (hQ : s'.Q = s.Q) (hworkers : s'.workers = s.workers)
    (haccepted : s'.accepted = [])
    (hfresh : ∀ sock, s'.main = .received sock true → sock ∉ s.unanswered)
    (hMDB : s'.MDB = s.MDB) (hbuf : s.unread = [] ∨ s'.szBuf = s.szBuf)
    (hopens : s'.opens = s.opens) (hadmitted : s'.admitted = s.admitted)
    (hexecuted : s'.executed = s.executed) : s'.HandleInv := by
  have hunread : s'.unread = s.unread := unread_of_main hQ hworkers
  refine h.of_frame (by rw [hunread]) ?_ (Or.inr haccepted) hfresh
    (by rw [hMDB]; exact fun _ _ hr => hr) (hbuf.imp_left fun hnil => ⟨hnil, haccepted⟩) hopens
    hadmitted hexecuted
  intro w
  rw [hworkers]
  exact ⟨rfl, rfl⟩

/-- A step of a worker that has no request, or has not yet executed it. -/
theorem HandleInv.of_worker (h : s.HandleInv) {w : Fin THREADS_NUM} (stage : WorkerStage)
    (hworkers : s'.workers = (s.setStage w stage).workers) (hunread : s'.unread.Perm s.unread)
    (hbefore : (s.workers w).stage.executed = none) (hafter : stage.executed = none)
    (hmain : s'.main = s.main)
    (hMDB : ∀ sock hcsock, s'.MDB sock = some hcsock → s.MDB sock = some hcsock)
    (hbuf : s'.szBuf = s.szBuf) (hopens : s'.opens = s.opens)
    (hadmitted : s'.admitted = s.admitted) (hexecuted : s'.executed = s.executed) :
    s'.HandleInv := by
  have haccepted : s'.accepted = s.accepted := by
    unfold accepted
    rw [hmain]
  have hnone : ∀ {stage : WorkerStage}, stage.executed = none →
      stage.unsent = none ∧ stage.unstored = none := by
    intro stage hstage
    cases stage <;> first | exact ⟨rfl, rfl⟩ | cases hstage
  refine h.of_frame hunread ?_ (Or.inl haccepted) (fun sock hreceived => ?_) hMDB (Or.inr hbuf)
    hopens hadmitted hexecuted
  · intro v
    rw [hworkers, stage_setStage]
    split
    case isTrue heq =>
        rw [heq, (hnone hafter).1, (hnone hafter).2, (hnone hbefore).1, (hnone hbefore).2]
        exact ⟨rfl, rfl⟩
    case isFalse => exact ⟨rfl, rfl⟩
  · exact h.fresh sock (hmain ▸ hreceived)

/-- The main loop accepts a connection. -/
theorem HandleInv.accept (h : s.HandleInv) {sock ip : Int} {app : DataBase}
    (hmain : s.main = .polling) (hfree : sock ∉ s.unanswered ∧ sock ∉ s.unstored) :
    ({ (s.setRecord sock (some ⟨sock, ip, app⟩)).setOpen sock true with
      opens := Function.update s.opens sock ⟨none, false⟩ } : DBServer).HandleInv := by
  have hother : ∀ hcsock ∈ s.inProgress, hcsock.sock ≠ sock := by
    rintro hcsock hmem rfl
    rcases mem_of_inProgress hmem with hpending | ⟨w, hw⟩
    · exact hfree.1 (List.mem_map_of_mem hpending)
    · exact hfree.2 (mem_unstored.mpr ⟨w, hcsock, hw, rfl⟩)
  have hopens : ∀ a, a ≠ sock → Function.update s.opens sock ⟨none, false⟩ a =
      s.opens a :=
    fun a ha => Function.update_of_ne ha _ _
  have hnone : s.accepted = [] := by
    rw [accepted, hmain]
  refine ⟨h.single, h.fresh, ?_, ?_, h.opening, ?_, h.own⟩
  · intro hcsock hmem hdb hopen
    have hmem' : hcsock ∈ s.accepted ++ s.inProgress := hmem
    have hprogress := hmem'
    rw [hnone] at hprogress
    refine h.carried hcsock hmem' hdb ?_
    rw [← hopens _ (hother _ hprogress)]
    exact hopen
  · intro a hcsock hrecord
    simp only [setRecord, setOpen, Function.update_apply] at hrecord
    split at hrecord
    case isTrue heq =>
        obtain rfl := Option.some.inj hrecord
        refine Or.inl fun hdb hopen => ?_
        simp at hopen
    case isFalse hne =>
        rcases h.stored a hcsock hrecord with ha | hmem
        · refine Or.inl fun hdb hopen => ?_
          simp only [Function.update_apply] at hopen
          split at hopen
          case isTrue => cases hopen
          case isFalse => exact ha hdb hopen
        · exact Or.inr hmem
  · intro node hnode
    obtain ⟨a, ha, huses⟩ := h.arrivedOpen node hnode
    have hne := hother node.hcsock
      (List.mem_append_left _ (List.mem_map_of_mem (f := QueueNode.hcsock) hnode))
    refine ⟨a, ha, fun hcmd => ?_⟩
    obtain ⟨hdb, hlatest, hopen⟩ := huses hcmd
    exact ⟨hdb, hlatest, (hopens _ hne).trans hopen⟩

/-- The record that is looked up has the handle of the connection. -/
theorem HandleInv.agrees_of_settled (h : s.HandleInv) {sock : Int} {hcsock : ClientSockHandle}
    (hfresh : sock ∉ s.unanswered) (hsettled : s.Settled sock)
    (hrecord : s.MDB sock = some hcsock) : s.Agrees hcsock := by
  rcases h.stored sock hcsock hrecord with hagrees | hbusy
  · exact hagrees
  · -- it is also what some worker is about to write back
    obtain ⟨x, hx, hsock⟩ := List.mem_map.mp hbusy
    rcases mem_of_inProgress hx with hpending | ⟨w, hw⟩
    · exact absurd (hsock ▸ List.mem_map_of_mem hpending) hfresh
    · obtain rfl := Option.some.inj (hrecord.symm.trans (hsettled w x hw hsock).1)
      exact h.carried hcsock (List.mem_append_right _ hx)

/-- The main loop looks up the record of the socket. -/
theorem HandleInv.lookUp (h : s.HandleInv) (hrecords : s.RecordInv) {sock : Int} {arrived : Bool}
    (hmain : s.main = .received sock arrived) (hsettled : arrived = true → s.Settled sock) :
    (s.setMain (.found sock arrived (s.MDB sock))).HandleInv := by
  cases arrived with
  | false => exact h.of_main rfl rfl rfl nofun rfl (Or.inr rfl) rfl rfl rfl
  | true =>
      have hfresh := h.fresh sock hmain
      have hnone : s.accepted = [] := by
        rw [DBServer.accepted, hmain]
      have hsingle := h.single
      have hcarried := h.carried
      have hopening := h.opening
      rw [hnone] at hsingle hcarried hopening
      cases hrecord : s.MDB sock with
      | none => exact h.of_main rfl rfl rfl nofun rfl (Or.inr rfl) rfl rfl rfl
      | some hcsock =>
          have hsock := hrecords.records sock hcsock hrecord
          refine ⟨?_, nofun, ?_, h.stored, ?_, h.arrivedOpen, h.own⟩
          · refine List.nodup_cons.mpr ⟨?_, hsingle⟩
            rw [hsock]
            exact hfresh
          · intro x hx
            rcases List.mem_cons.mp hx with rfl | hmem
            · exact h.agrees_of_settled hfresh (hsettled rfl) hrecord
            · exact hcarried x hmem
          · intro hopen x hx
            rcases List.mem_cons.mp hx with rfl | hmem
            · intro hmem
              obtain ⟨w, y, hw, hy⟩ := mem_unstored.mp hmem
              exact (hsettled rfl w y hw (hy.trans hsock)).2 hopen
            · exact hopening hopen x hmem

/-- The main loop queues a request. -/
theorem HandleInv.enQueue (h : s.HandleInv) {sock : Int} {hcsock : ClientSockHandle}
    (hmain : s.main = .found sock true (some hcsock)) (hsock : hcsock.sock = sock)
    (hfull : s.Q.isFull = false) (hslot : ∀ w, (s.workers w).stage ≠ .dequeued s.Q.tail)
    (hopen : s.szBuf.cmd.usesHandle = true →
      (s.opens sock).latest.isSome = true ∧ (s.opens sock).failed = false) :
    (s.enQueue sock true hcsock).HandleInv := by
  have hperm : (s.enQueue sock true hcsock).unread.Perm
      (⟨hcsock, .szBuf, s.admitted.length⟩ :: s.unread) := unread_enQueue hfull hslot
  have hprogress : (s.enQueue sock true hcsock).inProgress.Perm (s.accepted ++ s.inProgress) := by
    rw [DBServer.accepted, hmain]
    exact (hperm.map QueueNode.hcsock).append_right _
  have hpending : (s.enQueue sock true hcsock).pending.Perm (s.accepted ++ s.pending) := by
    rw [DBServer.accepted, hmain]
    exact (hperm.map QueueNode.hcsock).append_right _
  have hold : ∀ {id a}, s.admitted[id]? = some a →
      (s.enQueue sock true hcsock).admitted[id]? = some a := fun ha =>
    List.getElem?_append_left (List.getElem?_eq_some_iff.mp ha).1 |>.trans ha
  refine ⟨?_, nofun, ?_, ?_, ?_, ?_, ?_⟩
  · exact (hpending.map _).nodup_iff.mpr h.single
  · intro x hx
    exact h.carried x (hprogress.mem_iff.mp hx)
  · intro a x hx
    refine (h.stored a x hx).imp_right fun hmem => ?_
    refine (hprogress.map _).mem_iff.mpr ?_
    rw [List.map_append]
    exact List.mem_append_right _ hmem
  · intro hopen x hx
    refine h.opening hopen x ?_
    rw [DBServer.accepted, hmain]
    exact (hperm.map QueueNode.hcsock).mem_iff.mp hx
  · intro node hnode
    rcases List.mem_cons.mp (hperm.mem_iff.mp hnode) with rfl | hmem
    · refine ⟨_, List.getElem?_concat_length, fun hcmd => ?_⟩
      obtain ⟨hsome, hfailed⟩ := hopen hcmd
      obtain ⟨hdb, hlatest⟩ := Option.isSome_iff_exists.mp hsome
      refine ⟨hdb, hlatest, ?_⟩
      have heta : s.opens hcsock.sock = ⟨(s.opens sock).latest, (s.opens sock).failed⟩ := by
        rw [hsock]
      rw [hlatest, hfailed] at heta
      exact heta
    · obtain ⟨a, ha, huses⟩ := h.arrivedOpen node hmem
      exact ⟨a, hold ha, huses⟩
  · intro x hx hcmd
    obtain ⟨a, ha, hconn, hlatest⟩ := h.own x hx hcmd
    exact ⟨a, hold ha, hconn, hlatest⟩

/-- `DBSendMsg` sends the reply. -/
theorem HandleInv.send (h : s.HandleInv) {w : Fin THREADS_NUM} {hcsock : ClientSockHandle}
    (hw : (s.workers w).stage = .replying hcsock) :
    (s.setStage w (.sent hcsock)).HandleInv := by
  have hunread : (s.setStage w (.sent hcsock)).unread = s.unread :=
    unread_of_worker rfl (by rw [taken, hw]; rfl) rfl
  have hstage : ∀ v, ((s.setStage w (.sent hcsock)).workers v).stage =
      if v = w then .sent hcsock else (s.workers v).stage := fun v => stage_setStage w v _
  have hheld : (holdings fun v => (s.workers v).stage.unsent).Perm (hcsock :: holdings fun v =>
      ((s.setStage w (.sent hcsock)).workers v).stage.unsent) := by
    refine holdings_take (w := w) ?_ ?_ fun v hv => ?_
    · rw [hstage, if_pos rfl]
      rfl
    · rw [hw]
      rfl
    · rw [hstage, if_neg hv]
  have hpending : s.pending.Perm (hcsock :: (s.setStage w (.sent hcsock)).pending) := by
    rw [pending, pending, hunread]
    exact (hheld.append_left _).trans List.perm_middle
  have hprogress : (s.setStage w (.sent hcsock)).inProgress = s.inProgress := by
    have hexec : (fun v => ((s.setStage w (.sent hcsock)).workers v).stage.executed) =
        fun v => (s.workers v).stage.executed := by
      funext v
      rw [hstage]
      split
      case isTrue heq => rw [heq, hw]; rfl
      case isFalse => rfl
    rw [inProgress, inProgress, hunread, hexec]
  have hbusy := (hpending.append_left s.accepted).trans List.perm_middle
  have hnodup := List.nodup_cons.mp ((hbusy.map ClientSockHandle.sock).nodup_iff.mp h.single)
  refine ⟨hnodup.2, fun sock hmain hmem => ?_, ?_, ?_, ?_, ?_, h.own⟩
  · refine h.fresh sock hmain ((hpending.map _).mem_iff.mpr ?_)
    exact List.mem_cons_of_mem _ hmem
  · rw [hprogress]
    exact h.carried
  · rw [hprogress]
    exact h.stored
  · -- the unanswered requests are of other connections
    intro hopen x hx hmem
    rw [hunread] at hx
    obtain ⟨v, y, hv, hy⟩ := mem_unstored.mp hmem
    rw [hstage] at hv
    split at hv
    case isTrue =>
        obtain rfl := Option.some.inj hv
        refine hnodup.1 (hy ▸ List.mem_map_of_mem ?_)
        rcases List.mem_append.mp hx with haccepted | hnode
        · exact List.mem_append_left _ haccepted
        · refine List.mem_append_right _ (List.mem_append_left _ ?_)
          rw [hunread]
          exact hnode
    case isFalse => exact h.opening hopen x hx (mem_unstored.mpr ⟨v, y, hv, hy⟩)
  · rw [hunread]
    exact h.arrivedOpen

/-- `DBSendMsg` writes the record back. -/
theorem HandleInv.store (h : s.HandleInv) {w : Fin THREADS_NUM} {hcsock : ClientSockHandle}
    (hw : (s.workers w).stage = .sent hcsock) {stage : WorkerStage}
    (hnode : stage.node s.Q.slots = none) (hexec : stage.executed = none) :
    ((s.setRecord hcsock.sock hcsock).setStage w stage).HandleInv := by
  have hunread : ((s.setRecord hcsock.sock hcsock).setStage w stage).unread = s.unread :=
    unread_of_worker rfl (by rw [hnode, taken, hw]; rfl) rfl
  have hstage : ∀ v, (((s.setRecord hcsock.sock hcsock).setStage w stage).workers v).stage =
      if v = w then stage else (s.workers v).stage := fun v => stage_setStage w v stage
  have hnone : stage.unsent = none ∧ stage.unstored = none := by
    cases stage <;> first | exact ⟨rfl, rfl⟩ | cases hexec
  have hheld : (holdings fun v => (s.workers v).stage.executed).Perm (hcsock :: holdings fun v =>
      (((s.setRecord hcsock.sock hcsock).setStage w stage).workers v).stage.executed) := by
    refine holdings_take (w := w) ?_ ?_ fun v hv => ?_
    · rw [hstage, if_pos rfl, hexec]
    · rw [hw]
      rfl
    · rw [hstage, if_neg hv]
  have hprogress : s.inProgress.Perm
      (hcsock :: ((s.setRecord hcsock.sock hcsock).setStage w stage).inProgress) := by
    rw [inProgress, inProgress, hunread]
    exact (hheld.append_left _).trans List.perm_middle
  have hbusy := (hprogress.append_left s.accepted).trans List.perm_middle
  have hpending : ((s.setRecord hcsock.sock hcsock).setStage w stage).pending = s.pending := by
    have hunsent : (fun v =>
        (((s.setRecord hcsock.sock hcsock).setStage w stage).workers v).stage.unsent) =
          fun v => (s.workers v).stage.unsent := by
      funext v
      rw [hstage]
      split
      case isTrue heq => rw [hnone.1, heq, hw]; rfl
      case isFalse => rfl
    rw [pending, pending, hunread, hunsent]
  have hagrees : s.Agrees hcsock :=
    h.carried hcsock (hbusy.mem_iff.mpr List.mem_cons_self)
  refine ⟨?_, ?_, ?_, ?_, ?_, ?_, h.own⟩
  · rw [hpending]
    exact h.single
  · rw [unanswered, hpending]
    exact h.fresh
  · intro x hx
    exact h.carried x (hbusy.mem_iff.mpr (List.mem_cons_of_mem _ hx))
  · intro a x hx
    simp only [setStage, setRecord, Function.update_apply] at hx
    split at hx
    case isTrue heq =>
        obtain rfl := Option.some.inj hx
        exact Or.inl hagrees
    case isFalse hne =>
        refine (h.stored a x hx).imp_right fun hmem => ?_
        have hmem' := (hprogress.map ClientSockHandle.sock).mem_iff.mp hmem
        exact (List.mem_cons.mp hmem').resolve_left hne
  · intro hopen x hx hmem
    rw [hunread] at hx
    obtain ⟨v, y, hv, hy⟩ := mem_unstored.mp hmem
    rw [hstage] at hv
    split at hv
    case isTrue =>
        rw [hnone.2] at hv
        cases hv
    case isFalse => exact h.opening hopen x hx (mem_unstored.mpr ⟨v, y, hv, hy⟩)
  · intro node hmem
    rw [hunread] at hmem
    exact h.arrivedOpen node hmem

theorem handled_app {app : DataBase} {cmd sendhd : CMD} {hdb : DataBase} {ok : Bool}
    (h : cmd ≠ .OPEN) : (handled app cmd sendhd hdb ok).1 = app := by
  cases cmd with
  | OPEN => exact absurd rfl h
  | _ => rfl

theorem latest_after {o : Opens} {hdb h : DataBase} (heq : o.after hdb = ⟨some h, false⟩) :
    hdb = h := by
  unfold Opens.after at heq
  split at heq
  case isTrue =>
      have hfailed : true = false := congrArg Opens.failed heq
      cases hfailed
  case isFalse => exact Option.some.inj (congrArg Opens.latest heq)

section Executes

variable {w : Fin THREADS_NUM} {node : QueueNode} {cmd : CMD}

/-- The requests in progress when a worker executes the packet of its node, before and
after. -/
theorem carriers_executes (held : WorkerStage → Option ClientSockHandle)
    (hdecoded : held (.decoded node cmd) = none) (hreplying : ∀ x, held (.replying x) = some x)
    (hw : (s.workers w).stage = .decoded node cmd) (hdb : DataBase) (ok : Bool) :
    let rest := (s.executes w node cmd hdb ok).unread.map QueueNode.hcsock ++
      holdings fun v => held (s.workers v).stage
    (s.unread.map QueueNode.hcsock ++ holdings fun v => held (s.workers v).stage).Perm
        (node.hcsock :: rest) ∧
      ((s.executes w node cmd hdb ok).unread.map QueueNode.hcsock ++
          holdings fun v => held ((s.executes w node cmd hdb ok).workers v).stage).Perm
        ({ node.hcsock with
            app := (handled node.hcsock.app cmd (s.workers w).sendhd hdb ok).1 } :: rest) := by
  refine ⟨((unread_executes hw hdb ok).map QueueNode.hcsock).append_right _, ?_⟩
  refine ((holdings_take (w := w) ?_ ?_ fun v hv => ?_).append_left _).trans List.perm_middle
  · rw [hw, hdecoded]
  · rw [stage_executes, if_pos rfl, hreplying]
  · rw [stage_executes, if_neg hv]

theorem unstored_executes (hw : (s.workers w).stage = .decoded node cmd) (hdb : DataBase)
    (ok : Bool) : (s.executes w node cmd hdb ok).unstored = s.unstored := by
  have hheld : (fun v => ((s.executes w node cmd hdb ok).workers v).stage.unstored) =
      fun v => (s.workers v).stage.unstored := by
    funext v
    rw [stage_executes]
    split
    case isTrue heq => rw [heq, hw]; rfl
    case isFalse => rfl
  rw [unstored, unstored, hheld]

/-- Only an `OPEN` changes which handle a connection has, and only that of its own. -/
theorem opens_executes (hdb : DataBase) (ok : Bool) {sock : Int}
    (h : cmd = .OPEN → sock ≠ node.hcsock.sock) :
    (s.executes w node cmd hdb ok).opens sock = s.opens sock := by
  simp only [DBServer.executes]
  split
  case isTrue hcmd => exact Function.update_of_ne (h hcmd) _ _
  case isFalse => rfl

/-- No other request of the connection is unanswered. -/
theorem HandleInv.sock_ne (h : s.HandleInv) (hw : (s.workers w).stage = .decoded node cmd)
    (hdb : DataBase) (ok : Bool) {hcsock : ClientSockHandle}
    (hmem : hcsock ∈ s.accepted ++
      ((s.executes w node cmd hdb ok).unread.map QueueNode.hcsock ++
        holdings fun v => (s.workers v).stage.unsent)) :
    hcsock.sock ≠ node.hcsock.sock := by
  have hperm := (carriers_executes WorkerStage.unsent rfl (fun _ => rfl) hw hdb ok).1
  have hbusy := (hperm.append_left s.accepted).trans List.perm_middle
  have hnodup := (hbusy.map ClientSockHandle.sock).nodup_iff.mp h.single
  exact fun heq => (List.nodup_cons.mp hnodup).1 (heq ▸ List.mem_map_of_mem hmem)

/-- While an `OPEN` is executed, no other request of the connection is in progress. -/
theorem HandleInv.sock_ne_of_open (h : s.HandleInv) (hbuffer : s.BufferInv)
    (hw : (s.workers w).stage = .decoded node cmd) (hcmd : cmd = .OPEN) (hdb : DataBase)
    (ok : Bool) {hcsock : ClientSockHandle}
    (hmem : hcsock ∈ s.accepted ++
      ((s.executes w node cmd hdb ok).unread.map QueueNode.hcsock ++
        holdings fun v => (s.workers v).stage.executed)) :
    hcsock.sock ≠ node.hcsock.sock := by
  rcases List.mem_append.mp hmem with haccepted | hmem
  · exact h.sock_ne hw hdb ok (List.mem_append_left _ haccepted)
  · rcases List.mem_append.mp hmem with hnode | hexecuted
    · exact h.sock_ne hw hdb ok (List.mem_append_right _ (List.mem_append_left _ hnode))
    · obtain ⟨v, hv⟩ := mem_holdings.mp hexecuted
      rcases executed_eq_some.mp hv with hunsent | hunstored
      · refine h.sock_ne hw hdb ok (List.mem_append_right _ (List.mem_append_right _ ?_))
        exact mem_holdings.mpr ⟨v, hunsent⟩
      · have hopen : s.szBuf.cmd = .OPEN := (hbuffer.decoded w node cmd hw).symm.trans hcmd
        have hunread : node ∈ s.unread := mem_unread_of_taken (by rw [taken, hw]; rfl)
        intro heq
        refine h.opening hopen node.hcsock ?_ (mem_unstored.mpr ⟨v, hcsock, hunstored, heq⟩)
        exact List.mem_append_right _ (List.mem_map_of_mem hunread)

/-- A worker executes the packet of its node. -/
theorem HandleInv.executes (h : s.HandleInv) (hbuffer : s.BufferInv) (hrecords : s.RecordInv)
    (hw : (s.workers w).stage = .decoded node cmd) (hdb : DataBase) (ok : Bool) :
    (s.executes w node cmd hdb ok).HandleInv := by
  have hunread := unread_executes hw hdb ok
  have hmem : node ∈ s.unread := mem_unread_of_taken (by rw [taken, hw]; rfl)
  obtain ⟨hbefore, hprogress⟩ :=
    carriers_executes WorkerStage.executed rfl (fun _ => rfl) hw hdb ok
  obtain ⟨hpbefore, hpending⟩ :=
    carriers_executes WorkerStage.unsent rfl (fun _ => rfl) hw hdb ok
  have hsocks : ((s.executes w node cmd hdb ok).inProgress.map ClientSockHandle.sock).Perm
      (s.inProgress.map ClientSockHandle.sock) :=
    (hprogress.map _).trans (hbefore.map ClientSockHandle.sock).symm
  have hpsocks : (s.executes w node cmd hdb ok).unanswered.Perm s.unanswered :=
    (hpending.map _).trans (hpbefore.map ClientSockHandle.sock).symm
  have hagrees : s.Agrees node.hcsock :=
    h.carried _ (List.mem_append_right _ (hbefore.mem_iff.mpr List.mem_cons_self))
  refine ⟨?_, fun sock hmain hanswer => ?_, ?_, ?_, ?_, ?_, ?_⟩
  · have hperm := hpsocks.append_left (s.accepted.map ClientSockHandle.sock)
    rw [unanswered, unanswered, ← List.map_append, ← List.map_append] at hperm
    exact hperm.nodup_iff.mpr h.single
  · exact h.fresh sock hmain (hpsocks.mem_iff.mp hanswer)
  · intro x hx
    have hx' := ((hprogress.append_left s.accepted).trans List.perm_middle).mem_iff.mp hx
    rcases List.mem_cons.mp hx' with rfl | hrest
    · intro h' hopen
      by_cases hcmd : cmd = .OPEN
      · subst hcmd
        simp only [DBServer.executes, if_true, Function.update_self] at hopen
        exact latest_after hopen
      · rw [opens_executes hdb ok fun heq => absurd heq hcmd] at hopen
        exact (handled_app hcmd).trans (hagrees h' hopen)
    · intro h' hopen
      rw [opens_executes hdb ok fun hcmd => h.sock_ne_of_open hbuffer hw hcmd hdb ok hrest] at hopen
      refine h.carried x ?_ h' hopen
      exact ((hbefore.append_left s.accepted).trans List.perm_middle).mem_iff.mpr
        (List.mem_cons_of_mem _ hrest)
  · intro a x hx
    by_cases ha : a = node.hcsock.sock
    · subst ha
      exact Or.inr ((hprogress.map _).mem_iff.mpr (List.mem_cons_self))
    · rcases h.stored a x hx with hx' | hmem'
      · refine Or.inl fun h' hopen => hx' h' ?_
        rw [hrecords.records a x hx] at hopen ⊢
        rwa [opens_executes hdb ok fun _ => ha] at hopen
      · exact Or.inr (hsocks.mem_iff.mpr hmem')
  · intro hopen x hx
    rw [unstored_executes hw]
    refine h.opening hopen x ?_
    rcases List.mem_append.mp hx with haccepted | hnode
    · exact List.mem_append_left _ haccepted
    · refine List.mem_append_right _ ((hunread.map QueueNode.hcsock).mem_iff.mpr ?_)
      exact List.mem_cons_of_mem _ hnode
  · intro m hm
    obtain ⟨a, ha, huses⟩ := h.arrivedOpen m (hunread.mem_iff.mpr (List.mem_cons_of_mem _ hm))
    refine ⟨a, ha, fun hcmd => ?_⟩
    obtain ⟨h', hlatest, hopen⟩ := huses hcmd
    have hne := h.sock_ne hw hdb ok (List.mem_append_right _
      (List.mem_append_left _ (List.mem_map_of_mem (f := QueueNode.hcsock) hm)))
    exact ⟨h', hlatest, (opens_executes hdb ok fun _ => hne).trans hopen⟩
  · intro x hx hcmd
    rcases List.mem_append.mp hx with hold | hnew
    · exact h.own x hold hcmd
    · rw [List.mem_singleton.mp hnew] at hcmd ⊢
      obtain ⟨a, ha, hsock, rfl, -⟩ := hbuffer.executing hw
      obtain ⟨a', ha', huses⟩ := h.arrivedOpen node hmem
      obtain rfl := Option.some.inj (ha.symm.trans ha')
      obtain ⟨h', hlatest, hopen⟩ := huses hcmd
      exact ⟨a, ha, hsock, by rw [hlatest, hagrees h' hopen]⟩

end Executes

/-- **Each orderly step keeps the invariant.** -/
theorem HandleInv.step (h : s.HandleInv) (hbuffer : s.BufferInv) (hrecords : s.RecordInv)
    {e : DBServerEvent} (hsync : s.Synchronous e) (horderly : s.Orderly e)
    (hstep : s.step e = some s') : s'.HandleInv := by
  obtain ⟨-, htransition⟩ := transition_of_step hstep
  cases htransition with
  | accept sock ip app hmain => exact h.accept hmain horderly
  | recv p sock hmain =>
      refine h.of_main rfl rfl rfl ?_ rfl horderly rfl rfl rfl
      intro sock' hreceived
      obtain ⟨rfl, -⟩ := MainStage.received.inj hreceived
      exact hsync sock (by rw [polled, hmain]; exact rfl)
  | poll | recvFails | listSent | slaveRequest | crash | post =>
      exact h.of_main rfl rfl rfl nofun rfl (Or.inr rfl) rfl rfl rfl
  | newVersion hmain =>
      have hnone : s.accepted = [] := by
        rw [accepted, hmain]
      exact h.of_main rfl rfl hnone h.fresh rfl (Or.inr rfl) rfl rfl rfl
  | lookUp sock arrived hmain =>
      refine h.lookUp hrecords hmain fun harrived => horderly ?_ sock ?_
      · rw [DBServer.arrived, hmain]
        exact harrived
      · rw [polled, hmain]
        exact rfl
  | queued sock arrived hcsock hmain hgate hfull =>
      obtain ⟨harrived, hslot⟩ := horderly.1 hgate
      rw [DBServer.arrived, hmain] at harrived
      have htrue : arrived = true := harrived
      subst htrue
      refine h.enQueue hmain (hrecords.found _ _ _ hmain) hfull hslot fun hcmd => ?_
      exact horderly.2 hgate hcmd sock (by rw [polled, hmain]; exact rfl)
  | wake w hw =>
      have hunread : ({ s.setStage w .woken with MSG_SEM := s.MSG_SEM - 1 } : DBServer).unread =
          s.unread := unread_of_worker rfl (by rw [taken, hw]; rfl) rfl
      exact h.of_worker .woken rfl (by rw [hunread]) (by rw [hw]; rfl) rfl rfl
        (fun _ _ hr => hr) rfl rfl rfl rfl
  | deQueue w hw hempty =>
      exact h.of_worker (.dequeued _) rfl (unread_deQueue hw hempty) (by rw [hw]; rfl) rfl rfl
        (fun _ _ hr => hr) rfl rfl rfl rfl
  | fetch w slot hw =>
      have hunread : (s.setStage w (.fetched (s.Q.slots slot))).unread = s.unread :=
        unread_of_worker rfl (by rw [taken, hw]; rfl) rfl
      exact h.of_worker (.fetched _) rfl (by rw [hunread]) (by rw [hw]; rfl) rfl rfl
        (fun _ _ hr => hr) rfl rfl rfl rfl
  | decode w node hw =>
      have hunread : (s.setStage w (.decoded node (s.load node.buf).cmd)).unread = s.unread :=
        unread_of_worker rfl (by rw [taken, hw]; rfl) rfl
      exact h.of_worker (.decoded _ _) rfl (by rw [hunread]) (by rw [hw]; rfl) rfl rfl
        (fun _ _ hr => hr) rfl rfl rfl rfl
  | execute w hdb ok node cmd hw => exact h.executes hbuffer hrecords hw hdb ok
  | send w hcsock hw => exact h.send hw
  | store w hcsock hw =>
      refine h.store hw ?_ ?_
      · split <;> rfl
      · split <;> rfl
  | close w sock hcsock hw =>
      have hunread : ((s.setOpen hcsock.sock false).setStage w (.removing hcsock.sock)).unread =
          s.unread := unread_of_worker rfl (by rw [taken, hw]; rfl) rfl
      exact h.of_worker (.removing _) rfl (by rw [hunread]) (by rw [hw]; rfl) rfl rfl
        (fun _ _ hr => hr) rfl rfl rfl rfl
  | remove w sock hw =>
      have hunread : ((s.setRecord sock none).setStage w .waiting).unread = s.unread :=
        unread_of_worker rfl (by rw [taken, hw]; rfl) rfl
      refine h.of_worker .waiting rfl (by rw [hunread]) (by rw [hw]; rfl) rfl rfl ?_
        rfl rfl rfl rfl
      intro a hcsock ha
      simp only [setStage, setRecord, Function.update_apply] at ha
      split at ha
      case isTrue => cases ha
      case isFalse => exact ha

theorem Orderly.keepsPacket {e : DBServerEvent} (h : s.Orderly e) : s.KeepsPacket e := by
  cases e with
  | recv p => exact h
  | dispatch => exact h.1
  | _ => exact trivial

end Steps

/-- **Each operation runs on its connection's own database** in every orderly run of
clients that wait for their replies. -/
theorem own_handles (slots : Nat → QueueNode) (allocated : Nat → DBPacket) (sendhd : CMD)
    (version : UInt32) (events : List DBServerEvent)
    (hsync : allSteps step Synchronous (init slots allocated sendhd version) events)
    (horderly : allSteps step Orderly (init slots allocated sendhd version) events)
    (s : DBServer) (hrun : run step (init slots allocated sendhd version) events = some s) :
    s.OwnHandles := by
  have hboth : allSteps step (fun s e => s.Synchronous e ∧ s.Orderly e)
      (init slots allocated sendhd version) events := allSteps_and hsync horderly
  have hinv : s.HandleInv ∧ s.BufferInv ∧ s.RecordInv :=
    run_invariant_of_allSteps (fun s e => s.Synchronous e ∧ s.Orderly e)
      (fun s => s.HandleInv ∧ s.BufferInv ∧ s.RecordInv)
      (fun _ _ _ h hcond hstep => ⟨h.1.step h.2.1 h.2.2 hcond.1 hcond.2 hstep,
        h.2.1.step h.2.2 hcond.2.keepsPacket hstep, h.2.2.step hstep⟩)
      hboth hrun
      ⟨handleInv_init _ _ _ _, bufferInv_init _ _ _ _, recordInv_init _ _ _ _⟩
  exact hinv.1.own

/-- A worker takes a node, executes it, sends the reply and writes the record back. -/
def serve (w : Fin THREADS_NUM) (hdb : DataBase) : List DBServerEvent :=
  work w hdb ++ [.send w, .store w]

/-- A client opens a database, sets a key, reads it and closes the database.  Its `GET` is
looked up before the worker has written the record of its `SET` back. -/
def session : List DBServerEvent :=
  List.flatten
    [[.accept 5 1 99], request 5 ⟨.OPEN, 0, 0, [100, 98, 0]⟩, serve 0 1,
      request 5 ⟨.SET, 1, 0, [65, 0]⟩, work 1 0, [.send 1], request 5 ⟨.GET, 1, 0, []⟩,
      [.store 1], serve 0 0, request 5 ⟨.CLOSE, 0, 0, []⟩, serve 1 0, [.close 1, .remove 1]]

theorem own_handles_session :
    ∃ s, run step started session = some s ∧
      s.executed.map (fun x => (x.cmd, x.hdb)) =
        [(.OPEN, 99), (.SET, 1), (.GET, 1), (.CLOSE, 1)] ∧
      s.OwnHandles := by
  have hmap : (run step started session).map
      (fun s => s.executed.map fun x => (x.cmd, x.hdb)) =
      some [(.OPEN, 99), (.SET, 1), (.GET, 1), (.CLOSE, 1)] := by
    decide +kernel
  obtain ⟨s, hrun, hmap⟩ := Option.map_eq_some_iff.mp hmap
  exact ⟨s, hrun, hmap,
    own_handles _ _ _ _ session (by decide +kernel) (by decide +kernel) s hrun⟩

/-- The client sends its `SET` when it has the reply to its `OPEN`, before the worker has
written the record back. -/
def quickSession : List DBServerEvent :=
  [.accept 5 1 99] ++ request 5 ⟨.OPEN, 0, 0, [100, 98, 0]⟩ ++ work 0 1 ++ [.send 0] ++
    request 5 ⟨.SET, 1, 0, [65, 0]⟩ ++ work 1 0

/-- The `OPEN` has returned handle `1`, and the `SET` runs with what was on the stack when
the connection was accepted. -/
theorem handle_lost :
    allSteps step Synchronous started quickSession ∧
      ∃ s, run step started quickSession = some s ∧
        s.admitted.map (fun a => (a.sock, a.packet.cmd, a.latest)) =
          [(5, .OPEN, none), (5, .SET, some 1)] ∧
        s.executed = [⟨0, 5, .OPEN, 0, [100, 98, 0], 99⟩, ⟨1, 5, .SET, 1, [65, 0], 99⟩] ∧
        ¬ s.OwnHandles := by
  refine ⟨by decide +kernel, ?_⟩
  have hmap : (run step started quickSession).map (fun s =>
      (s.admitted.map (fun a => (a.sock, a.packet.cmd, a.latest)),
        s.admitted.map AdmittedPacket.latest, s.executed)) =
      some ([(5, .OPEN, none), (5, .SET, some 1)], [none, some 1],
        [⟨0, 5, .OPEN, 0, [100, 98, 0], 99⟩, ⟨1, 5, .SET, 1, [65, 0], 99⟩]) := by
    decide +kernel
  obtain ⟨s, hrun, hmap⟩ := Option.map_eq_some_iff.mp hmap
  obtain ⟨hadmitted, hrest⟩ := Prod.mk.inj hmap
  obtain ⟨hlatest, hexecuted⟩ := Prod.mk.inj hrest
  refine ⟨s, hrun, hadmitted, hexecuted, fun hown => ?_⟩
  obtain ⟨a, ha, -, hhandle⟩ := hown ⟨1, 5, .SET, 1, [65, 0], 99⟩
    (by rw [hexecuted]; exact List.mem_cons_of_mem _ List.mem_cons_self) rfl
  have hget : (s.admitted.map AdmittedPacket.latest)[1]? = some a.latest := by
    rw [List.getElem?_map, ha]
    rfl
  rw [hlatest, hhandle] at hget
  cases hget

end DBServer

end DistributedDB
