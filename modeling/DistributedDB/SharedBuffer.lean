import DistributedDB.Library.Holdings
import DistributedDB.Library.Run
import DistributedDB.MainLoop

/-!
# The shared receive buffer

A queue node does not hold its packet: it points to `szBuf`, into which the main loop
receives the next packet.  The content of a request survives as long as the main loop
receives nothing else before the packet of every queued node has been read.  A worker
that has taken a node also still depends on its slot of the circular queue.

**Results.**
* `BufferInv`: every unread packet is the one in `szBuf`, and every request is either
  executed or waiting; each step that keeps the packet keeps it.
* `DBServer.keeps_content`: in every run whose steps keep the packet, each admitted
  packet is executed at most once, with its own content, and none is lost.
* `DBServer.packet_overwritten`: a run in which one packet is executed twice and
  another one never.
-/

namespace DistributedDB

open Run

/-- The node whose packet a worker at this stage has still to read. -/
def WorkerStage.node (slots : Nat → QueueNode) : WorkerStage → Option QueueNode
  | .dequeued slot => some (slots slot)
  | .fetched node | .decoded node _ => some node
  | _ => none

/-- The worker executed the packet, on behalf of its connection. -/
def AdmittedPacket.ExecutedAs (a : AdmittedPacket) (x : ExecutedPacket) : Prop :=
  x.sock = a.sock ∧ x.cmd = a.packet.cmd ∧ x.key = a.packet.key ∧ x.append = a.packet.append

namespace DBServer

def taken (s : DBServer) (w : Fin THREADS_NUM) : Option QueueNode :=
  (s.workers w).stage.node s.Q.slots

/-- The nodes whose packets are still to be read. -/
def unread (s : DBServer) : List QueueNode :=
  s.Q.contents ++ holdings s.taken

/-- The request that the main loop is working on came with a packet. -/
def arrived (s : DBServer) : Bool :=
  match s.main with
  | .received _ arrived | .found _ arrived _ => arrived
  | _ => true

/-- The condition on a step: a packet is received when all earlier ones have been read,
or it is the same packet again; and a request is queued only when a packet has arrived,
in a slot that no worker is about to read. -/
def KeepsPacket (s : DBServer) : DBServerEvent → Prop
  | .recv p => s.unread = [] ∨ p = s.szBuf
  | .dispatch => gate s.szBuf s.version = .enQueue →
      s.arrived = true ∧ ∀ w, (s.workers w).stage ≠ .dequeued s.Q.tail
  | _ => True

instance (s : DBServer) (e : DBServerEvent) : Decidable (s.KeepsPacket e) :=
  match e with
  | .recv p => inferInstanceAs (Decidable (s.unread = [] ∨ p = s.szBuf))
  | .dispatch =>
      inferInstanceAs (Decidable (gate s.szBuf s.version = .enQueue →
        s.arrived = true ∧ ∀ w, (s.workers w).stage ≠ .dequeued s.Q.tail))
  | .accept _ _ _ | .poll _ | .recvFails | .lookUp | .post | .newVersion | .wake _ | .deQueue _
  | .fetch _ | .decode _ | .execute _ _ _ | .send _ | .store _ | .close _ | .remove _ =>
      isTrue trivial

/-- Every admitted packet is executed once or still to be executed, and what was
executed is its content. -/
structure KeepsContent (s : DBServer) : Prop where
  content : ∀ x ∈ s.executed, ∃ a, s.admitted[x.id]? = some a ∧ a.ExecutedAs x
  once : (s.executed.map ExecutedPacket.id ++ s.unread.map QueueNode.id).Perm
    (List.range s.admitted.length)

/-- The node stands for the admitted packet that is in `szBuf`. -/
def Holds (s : DBServer) (node : QueueNode) : Prop :=
  node.buf = .szBuf ∧
    ∃ a, s.admitted[node.id]? = some a ∧ a.sock = node.hcsock.sock ∧ a.packet = s.szBuf

/-- The invariant of the runs that keep the packets. -/
structure BufferInv (s : DBServer) : Prop extends s.KeepsContent where
  unread : ∀ node ∈ s.unread, s.Holds node
  decoded : ∀ w node cmd, (s.workers w).stage = .decoded node cmd → cmd = s.szBuf.cmd

theorem bufferInv_init (slots : Nat → QueueNode) (allocated : Nat → DBPacket) (sendhd : CMD)
    (version : UInt32) : (init slots allocated sendhd version).BufferInv where
  content := nofun
  once := List.Perm.refl _
  unread := nofun
  decoded := nofun

section Steps

variable {s : DBServer}

theorem stage_setStage (w v : Fin THREADS_NUM) (stage : WorkerStage) :
    ((s.setStage w stage).workers v).stage = if v = w then stage else (s.workers v).stage := by
  simp only [setStage, Function.update_apply]
  split <;> rfl

theorem taken_setStage (w v : Fin THREADS_NUM) (stage : WorkerStage) :
    (s.setStage w stage).taken v = if v = w then stage.node s.Q.slots else s.taken v := by
  unfold taken
  rw [stage_setStage]
  split <;> rfl

theorem unread_of_main {s' : DBServer} (hQ : s'.Q = s.Q) (hworkers : s'.workers = s.workers) :
    s'.unread = s.unread := by
  have htaken : s'.taken = s.taken := by
    funext w
    rw [taken, taken, hQ, hworkers]
  rw [unread, unread, hQ, htaken]

/-- The worker keeps its node, or has none before and after. -/
theorem unread_of_worker {s' : DBServer} {w : Fin THREADS_NUM} {stage : WorkerStage}
    (hworkers : s'.workers = (s.setStage w stage).workers)
    (hnode : stage.node s.Q.slots = s.taken w) (hQ : s'.Q = s.Q) : s'.unread = s.unread := by
  have htaken : s'.taken = s.taken := by
    funext v
    rw [taken, hworkers, hQ]
    refine (taken_setStage w v stage).trans ?_
    split
    case isTrue heq => rw [heq, hnode]
    case isFalse => rfl
  rw [unread, unread, hQ, htaken]

/-- A new node is unread. -/
theorem unread_enQueue {sock : Int} {arrived : Bool} {hcsock : ClientSockHandle}
    (hfull : s.Q.isFull = false) (hslot : ∀ w, (s.workers w).stage ≠ .dequeued s.Q.tail) :
    (s.enQueue sock arrived hcsock).unread.Perm
      (⟨hcsock, .szBuf, s.admitted.length⟩ :: s.unread) := by
  let node : QueueNode := ⟨hcsock, .szBuf, s.admitted.length⟩
  have htaken : (s.enQueue sock arrived hcsock).taken = s.taken := by
    funext w
    have hsame : ∀ stage : WorkerStage, stage ≠ .dequeued s.Q.tail →
        stage.node (s.Q.enqueue node).slots = stage.node s.Q.slots := by
      intro stage hne
      cases stage with
      | dequeued slot =>
          have hslot : slot ≠ s.Q.tail := fun heq => hne (by rw [heq])
          simp only [WorkerStage.node, RingBuffer.slots_enqueue, if_neg hslot]
      | _ => rfl
    exact hsame _ (hslot w)
  have hcontents : (s.enQueue sock arrived hcsock).Q.contents = s.Q.contents ++ [node] :=
    RingBuffer.contents_enqueue node hfull
  rw [unread, unread, htaken, hcontents, List.append_assoc]
  exact List.perm_middle

/-- A node that is taken from the queue stays unread. -/
theorem unread_deQueue {w : Fin THREADS_NUM} (hw : (s.workers w).stage = .woken)
    (hempty : s.Q.isEmpty = false) :
    ({ s.setStage w (.dequeued s.Q.head) with Q := s.Q.dequeue } : DBServer).unread.Perm
      s.unread := by
  have hheld : (holdings (s.setStage w (.dequeued s.Q.head)).taken).Perm
      (s.Q.slots s.Q.head :: holdings s.taken) :=
    holdings_take (by rw [taken, hw]; rfl) ((taken_setStage w w _).trans (if_pos rfl))
      (fun v hv => (taken_setStage w v _).trans (if_neg hv))
  rw [unread, unread, RingBuffer.contents_eq_cons hempty]
  exact (hheld.append_left _).trans List.perm_middle

theorem stage_executes (w v : Fin THREADS_NUM) (node : QueueNode) (cmd : CMD) (hdb : DataBase)
    (ok : Bool) :
    ((s.executes w node cmd hdb ok).workers v).stage =
      if v = w then .replying { node.hcsock with
        app := (handled node.hcsock.app cmd (s.workers w).sendhd hdb ok).1 }
      else (s.workers v).stage := by
  unfold executes
  simp only [Function.update_apply]
  split <;> rfl

/-- The node of the packet that is executed is no longer unread. -/
theorem unread_executes {w : Fin THREADS_NUM} {node : QueueNode} {cmd : CMD}
    (hw : (s.workers w).stage = .decoded node cmd) (hdb : DataBase) (ok : Bool) :
    s.unread.Perm (node :: (s.executes w node cmd hdb ok).unread) := by
  have htaken : ∀ v, (s.executes w node cmd hdb ok).taken v =
      if v = w then none else s.taken v := by
    intro v
    rw [taken, stage_executes]
    split <;> rfl
  have hheld : (holdings s.taken).Perm
      (node :: holdings (s.executes w node cmd hdb ok).taken) :=
    holdings_take ((htaken w).trans (if_pos rfl)) (by rw [taken, hw]; rfl)
      (fun v hv => ((htaken v).trans (if_neg hv)).symm)
  exact (hheld.append_left _).trans List.perm_middle

/-- A step of the main thread that leaves the queue, the workers and the buffer alone. -/
theorem BufferInv.of_main (h : s.BufferInv) {s' : DBServer} (hbuf : s'.szBuf = s.szBuf)
    (hQ : s'.Q = s.Q) (hworkers : s'.workers = s.workers) (hadmitted : s'.admitted = s.admitted)
    (hexecuted : s'.executed = s.executed) : s'.BufferInv := by
  have hunread := unread_of_main hQ hworkers
  refine ⟨⟨?_, ?_⟩, ?_, ?_⟩
  · rw [hexecuted, hadmitted]
    exact h.content
  · rw [hexecuted, hadmitted, hunread]
    exact h.once
  · rw [hunread]
    intro node hnode
    unfold Holds
    rw [hadmitted, hbuf]
    exact h.unread node hnode
  · rw [hworkers, hbuf]
    exact h.decoded

/-- A step of a worker that takes no node and executes none. -/
theorem BufferInv.of_worker (h : s.BufferInv) {s' : DBServer} {w : Fin THREADS_NUM}
    (stage : WorkerStage) (hworkers : s'.workers = (s.setStage w stage).workers)
    (hnode : stage.node s.Q.slots = s.taken w)
    (hdecoded : ∀ node cmd, stage = .decoded node cmd → cmd = s.szBuf.cmd)
    (hbuf : s'.szBuf = s.szBuf) (hQ : s'.Q = s.Q) (hadmitted : s'.admitted = s.admitted)
    (hexecuted : s'.executed = s.executed) : s'.BufferInv := by
  have hunread := unread_of_worker hworkers hnode hQ
  refine ⟨⟨?_, ?_⟩, ?_, ?_⟩
  · rw [hexecuted, hadmitted]
    exact h.content
  · rw [hexecuted, hadmitted, hunread]
    exact h.once
  · rw [hunread]
    intro node hmem
    unfold Holds
    rw [hadmitted, hbuf]
    exact h.unread node hmem
  · intro v node cmd hv
    rw [hworkers, stage_setStage] at hv
    rw [hbuf]
    split at hv
    case isTrue => exact hdecoded node cmd hv
    case isFalse => exact h.decoded v node cmd hv

/-- The main loop receives a packet. -/
theorem BufferInv.recv (h : s.BufferInv) {p : DBPacket} (hkeeps : s.unread = [] ∨ p = s.szBuf)
    {sock : Int} {arrivals : List Arrival} :
    ({ s.setMain (.received sock true) with szBuf := p, arrivals := arrivals } :
      DBServer).BufferInv := by
  rcases hkeeps with hnil | rfl
  · refine ⟨⟨h.content, h.once⟩, ?_, ?_⟩
    · intro node hnode
      have hmem : node ∈ s.unread := hnode
      rw [hnil] at hmem
      cases hmem
    · intro w node cmd hw
      have hstage : (s.workers w).stage = .decoded node cmd := hw
      have hheld : holdings s.taken = [] := (List.append_eq_nil_iff.mp hnil).2
      have hnone := holdings_eq_nil_iff.mp hheld w
      rw [taken, hstage] at hnone
      cases hnone
  · exact h.of_main rfl rfl rfl rfl rfl

/-- The main loop queues a request. -/
theorem BufferInv.enQueue (h : s.BufferInv) {sock : Int} {hcsock : ClientSockHandle}
    {arrived : Bool} (hsock : hcsock.sock = sock)
    (hfull : s.Q.isFull = false) (harrived : arrived = true)
    (hslot : ∀ w, (s.workers w).stage ≠ .dequeued s.Q.tail) :
    (s.enQueue sock arrived hcsock).BufferInv := by
  subst harrived
  have hperm : (s.enQueue sock true hcsock).unread.Perm
      (⟨hcsock, .szBuf, s.admitted.length⟩ :: s.unread) := unread_enQueue hfull hslot
  have hold : ∀ {id a}, s.admitted[id]? = some a →
      (s.enQueue sock true hcsock).admitted[id]? = some a := fun ha =>
    List.getElem?_append_left (List.getElem?_eq_some_iff.mp ha).1 |>.trans ha
  refine ⟨⟨?_, ?_⟩, ?_, h.decoded⟩
  · intro x hx
    obtain ⟨a, ha, hexecuted⟩ := h.content x hx
    exact ⟨a, hold ha, hexecuted⟩
  · have hlen : (s.enQueue sock true hcsock).admitted.length = s.admitted.length + 1 :=
      List.length_append
    rw [hlen, List.range_succ]
    refine ((hperm.map QueueNode.id).append_left _).trans ?_
    refine List.Perm.trans ?_ (h.once.append_right _)
    rw [List.append_assoc]
    exact (List.perm_append_singleton _ _).symm.append_left _
  · intro m hm
    rcases List.mem_cons.mp (hperm.mem_iff.mp hm) with rfl | hmem
    · exact ⟨rfl, ⟨sock, s.szBuf, _⟩, List.getElem?_concat_length, hsock.symm, rfl⟩
    · obtain ⟨hptr, a, ha, hconn, hpacket⟩ := h.unread m hmem
      exact ⟨hptr, a, hold ha, hconn, hpacket⟩

/-- A worker takes the first node of the queue. -/
theorem BufferInv.deQueue (h : s.BufferInv) {w : Fin THREADS_NUM}
    (hw : (s.workers w).stage = .woken) (hempty : s.Q.isEmpty = false) :
    ({ s.setStage w (.dequeued s.Q.head) with Q := s.Q.dequeue } : DBServer).BufferInv := by
  have hperm := unread_deQueue hw hempty
  refine ⟨⟨h.content, ?_⟩, ?_, ?_⟩
  · exact ((hperm.map _).append_left _).trans h.once
  · intro node hnode
    exact h.unread node (hperm.mem_iff.mp hnode)
  · intro v node cmd hv
    have hstage : ((s.setStage w (.dequeued s.Q.head)).workers v).stage = .decoded node cmd := hv
    rw [stage_setStage] at hstage
    split at hstage
    case isTrue => cases hstage
    case isFalse => exact h.decoded v node cmd hstage

theorem mem_unread_of_taken {w : Fin THREADS_NUM} {node : QueueNode} (h : s.taken w = some node) :
    node ∈ s.unread :=
  List.mem_append_right _ (mem_holdings.mpr ⟨w, h⟩)

/-- What a worker executes is the packet that was admitted for its node. -/
theorem BufferInv.executing (h : s.BufferInv) {w : Fin THREADS_NUM} {node : QueueNode} {cmd : CMD}
    (hw : (s.workers w).stage = .decoded node cmd) :
    ∃ a, s.admitted[node.id]? = some a ∧ a.sock = node.hcsock.sock ∧ a.packet.cmd = cmd ∧
      a.packet = s.load node.buf := by
  have hmem : node ∈ s.unread := mem_unread_of_taken (by rw [taken, hw]; rfl)
  obtain ⟨hptr, a, ha, hsock, hpacket⟩ := h.unread node hmem
  refine ⟨a, ha, hsock, ?_, ?_⟩
  · rw [hpacket, h.decoded w node cmd hw]
  · rw [hptr, hpacket]
    rfl

/-- A worker executes the packet of its node. -/
theorem BufferInv.executes (h : s.BufferInv) {w : Fin THREADS_NUM} {node : QueueNode} {cmd : CMD}
    (hw : (s.workers w).stage = .decoded node cmd) (hdb : DataBase) (ok : Bool) :
    (s.executes w node cmd hdb ok).BufferInv := by
  obtain ⟨a, ha, hsock, hcmd, hload⟩ := h.executing hw
  have hperm := unread_executes hw hdb ok
  refine ⟨⟨?_, ?_⟩, ?_, ?_⟩
  · intro x hx
    rcases List.mem_append.mp hx with hold | hnew
    · exact h.content x hold
    · rw [List.mem_singleton.mp hnew]
      exact ⟨a, ha, hsock.symm, hcmd.symm, by rw [hload], by rw [hload]⟩
  · refine List.Perm.trans ?_ h.once
    have hids := (hperm.map QueueNode.id).append_left (s.executed.map ExecutedPacket.id)
    refine List.Perm.trans ?_ hids.symm
    simp [DBServer.executes]
  · intro m hm
    exact h.unread m (hperm.mem_iff.mpr (List.mem_cons_of_mem _ hm))
  · intro v m c hv
    rw [stage_executes] at hv
    split at hv
    case isTrue => cases hv
    case isFalse => exact h.decoded v m c hv

/-- **Each step that keeps the packets keeps the invariant.** -/
theorem BufferInv.step (h : s.BufferInv) (hrecords : s.RecordInv) {e : DBServerEvent}
    {s' : DBServer} (hkeeps : s.KeepsPacket e) (hstep : s.step e = some s') : s'.BufferInv := by
  obtain ⟨-, htransition⟩ := transition_of_step hstep
  cases htransition with
  | accept | poll | recvFails | lookUp | listSent | slaveRequest | crash | post | newVersion =>
      exact h.of_main rfl rfl rfl rfl rfl
  | recv p sock hmain => exact h.recv hkeeps
  | queued sock arrived hcsock hmain hgate hfull =>
      obtain ⟨harrived, hslot⟩ := hkeeps hgate
      rw [DBServer.arrived, hmain] at harrived
      exact h.enQueue (hrecords.found _ _ _ hmain) hfull harrived hslot
  | wake w hw =>
      refine h.of_worker .woken rfl ?_ nofun rfl rfl rfl rfl
      rw [taken, hw]
      rfl
  | deQueue w hw hempty => exact h.deQueue hw hempty
  | fetch w slot hw =>
      refine h.of_worker (.fetched _) rfl ?_ nofun rfl rfl rfl rfl
      rw [taken, hw]
      rfl
  | decode w node hw =>
      have htaken : s.taken w = some node := by
        rw [taken, hw]
        rfl
      refine h.of_worker (.decoded node _) rfl htaken.symm ?_ rfl rfl rfl rfl
      intro node' cmd heq
      obtain ⟨rfl, rfl⟩ := WorkerStage.decoded.inj heq
      rw [(h.unread _ (mem_unread_of_taken htaken)).1]
      rfl
  | execute w hdb ok node cmd hw => exact h.executes hw hdb ok
  | send w hcsock hw =>
      refine h.of_worker (.sent _) rfl ?_ nofun rfl rfl rfl rfl
      rw [taken, hw]
      rfl
  | store w hcsock hw =>
      refine h.of_worker _ rfl ?_ ?_ rfl rfl rfl rfl
      · rw [taken, hw]
        split <;> rfl
      · intro node cmd
        split <;> exact nofun
  | close w sock hcsock hw =>
      refine h.of_worker (.removing _) rfl ?_ nofun rfl rfl rfl rfl
      rw [taken, hw]
      rfl
  | remove w sock hw =>
      refine h.of_worker .waiting rfl ?_ nofun rfl rfl rfl rfl
      rw [taken, hw]
      rfl

end Steps

/-- **Queued requests keep their content** in every run whose steps keep the packets: each
admitted packet is executed once or still waits, and what was executed is its command,
key and payload. -/
theorem keeps_content (slots : Nat → QueueNode) (allocated : Nat → DBPacket) (sendhd : CMD)
    (version : UInt32) (events : List DBServerEvent)
    (hkeeps : allSteps step KeepsPacket (init slots allocated sendhd version) events)
    (s : DBServer) (hrun : run step (init slots allocated sendhd version) events = some s) :
    s.KeepsContent := by
  have hinv : s.BufferInv ∧ s.RecordInv :=
    run_invariant_of_allSteps KeepsPacket (fun s => s.BufferInv ∧ s.RecordInv)
      (fun _ _ _ h hcond hstep => ⟨h.1.step h.2 hcond hstep, h.2.step hstep⟩) hkeeps hrun
      ⟨bufferInv_init _ _ _ _, recordInv_init _ _ _ _⟩
  exact hinv.1.toKeepsContent

/-- A started process. -/
def started : DBServer :=
  init (fun _ => ⟨⟨0, 0, 0⟩, .szBuf, 0⟩) (fun _ => .zero) .SET 0

/-- The main loop receives a packet and hands it on. -/
def request (sock : Int) (p : DBPacket) : List DBServerEvent :=
  [.poll sock, .recv p, .lookUp, .dispatch, .post]

/-- A worker takes a node and executes it. -/
def work (w : Fin THREADS_NUM) (hdb : DataBase) : List DBServerEvent :=
  [.wake w, .deQueue w, .fetch w, .decode w, .execute w hdb true]

/-- Two clients send `SET`, each time with time for a worker to execute it. -/
def slowClients : List DBServerEvent :=
  [.accept 5 1 0, .accept 6 2 0] ++
    request 5 ⟨.SET, 1, 0, [65, 0]⟩ ++ work 0 0 ++
      request 6 ⟨.SET, 2, 0, [66, 0]⟩ ++ work 1 0

theorem keeps_content_slowClients :
    ∃ s, run step started slowClients = some s ∧ s.executed.length = 2 ∧ s.KeepsContent := by
  have hmap : (run step started slowClients).map (fun s => s.executed.length) = some 2 := by
    decide +kernel
  obtain ⟨s, hrun, hmap⟩ := Option.map_eq_some_iff.mp hmap
  exact ⟨s, hrun, hmap,
    keeps_content _ _ _ _ slowClients (by decide +kernel) s hrun⟩

/-- The second packet arrives before a worker has read the first one. -/
def quickClients : List DBServerEvent :=
  [.accept 5 1 0, .accept 6 2 0] ++
    request 5 ⟨.SET, 1, 0, [65, 0]⟩ ++ request 6 ⟨.SET, 2, 0, [66, 0]⟩ ++
      work 0 0 ++ work 1 0

/-- The packet of socket 5 is lost, and that of socket 6 is executed twice. -/
theorem packet_overwritten :
    ∃ s, run step started quickClients = some s ∧
      s.admitted = [⟨5, ⟨.SET, 1, 0, [65, 0]⟩, none⟩,
        ⟨6, ⟨.SET, 2, 0, [66, 0]⟩, none⟩] ∧
      s.executed = [⟨0, 5, .SET, 2, [66, 0], 0⟩, ⟨1, 6, .SET, 2, [66, 0], 0⟩] ∧
      ¬ s.KeepsContent := by
  have hmap : (run step started quickClients).map (fun s => (s.admitted, s.executed)) =
      some ([⟨5, ⟨.SET, 1, 0, [65, 0]⟩, none⟩, ⟨6, ⟨.SET, 2, 0, [66, 0]⟩, none⟩],
        [⟨0, 5, .SET, 2, [66, 0], 0⟩, ⟨1, 6, .SET, 2, [66, 0], 0⟩]) := by
    decide +kernel
  obtain ⟨s, hrun, hmap⟩ := Option.map_eq_some_iff.mp hmap
  obtain ⟨hadmitted, hexecuted⟩ := Prod.mk.inj hmap
  refine ⟨s, hrun, hadmitted, hexecuted, fun hkeeps => ?_⟩
  obtain ⟨a, ha, -, -, hkey, -⟩ := hkeeps.content ⟨0, 5, .SET, 2, [66, 0], 0⟩
    (by rw [hexecuted]; exact List.mem_cons_self)
  rw [hadmitted, List.getElem?_cons_zero, Option.some.injEq] at ha
  rw [← ha] at hkey
  cases hkey

end DBServer

end DistributedDB
