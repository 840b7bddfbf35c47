import DistributedDB.Execution

/-!
# Who executes an admitted packet

A slave's main loop checks a packet when it queues it; a thread executes it later.
In between the main loop may handle a `NEW_SLAVE` and a `CLIP_DATA`, and it may receive
the next packet over the one that the queued node stands for.

**Results.**
* `OwnerInv`: admitted packets wait at the owner of their key.
* `MatchedInv`: a thread reads the packet of its own node.
* `StoreInv`: where the value of an admitted `SET` is, also in the middle of a split.
* `admitted_executed_by_owner`: as long as no `NEW_SLAVE` takes away the key of an
  admitted packet that waits for its execution, admitted packets are executed by
  the owner of their key; and as long as nothing is received over an unread packet,
  what a client was told is stored is neither lost nor left behind.
* `late_execution_loses_write`, `overwritten_packet_loses_write`: otherwise an
  acknowledged write may be lost.
-/

namespace DistributedDB

open PartialMap RingIndex Run

namespace Server

/-- The packet, if the version check let it pass. -/
def admittedRequest : Option Received → Option DBRequest
  | some ⟨r, true⟩ => some r
  | _ => none

/-- The admitted packet that a thread is about to execute. -/
def underExecution : Worker → Option DBRequest
  | .executing _ received => admittedRequest received
  | _ => none

/-- The thread has taken a node and not read the packet. -/
def hasNode : Worker → Bool
  | .dequeued _ => true
  | _ => false

/-- A node waits for a thread to take it or to read the packet. -/
def NodeWaiting (s : Server) : Prop :=
  s.queue ≠ [] ∨ ∃ w, hasNode (s.workers w) = true

instance (s : Server) : Decidable s.NodeWaiting := by
  unfold NodeWaiting
  infer_instance

/-- An admitted packet that a thread has read or can still read. -/
def Pending (s : Server) (r : DBRequest) : Prop :=
  (∃ w, underExecution (s.workers w) = some r) ∨
    (s.NodeWaiting ∧ admittedRequest s.buf = some r)

theorem forall_pending_iff {s : Server} {p : DBRequest → Prop} :
    (∀ r, s.Pending r → p r) ↔
      (∀ w, ∀ r ∈ underExecution (s.workers w), p r) ∧
        (s.NodeWaiting → ∀ r ∈ admittedRequest s.buf, p r) := by
  constructor
  · intro h
    exact ⟨fun w r hr => h r (Or.inl ⟨w, hr⟩), fun hwaiting r hr =>
      h r (Or.inr ⟨hwaiting, hr⟩)⟩
  · rintro ⟨hworkers, hbuf⟩ r (⟨w, hw⟩ | ⟨hwaiting, hr⟩)
    · exact hworkers w r hw
    · exact hbuf hwaiting r hr

/-- The section of the key has been handed over to another slave. -/
def Away (s : Server) (key : dbKey) : Prop :=
  ∃ h ∈ s.handed, getSocket h.slaves key = some h.node

/-- The condition on a step: a new slave does not take away the key of a pending
packet. -/
def KeepsPending (s : Server) : ServerEvent → Prop
  | .newSlave sn rand =>
      ∀ r, s.Pending r → ({ s with slave := s.notified sn rand } : Server).Owns r.key
  | _ => True

/-- The condition on a step: of the stored keys, the split takes those that are routed
to the slave that is cut off. -/
def SplitAgrees (s : Server) : ServerEvent → Prop
  | .clipData =>
      ∀ key ∈ s.slave.disk.file_master.keys,
        (inSplitRange s.lowerBound s.upperBound key = true ↔
          getSocket s.slave.slaves key = some s.successor)
  | _ => True

instance (s : Server) (e : ServerEvent) : Decidable (s.KeepsPending e) :=
  match e with
  | .newSlave _ _ => decidable_of_iff _ forall_pending_iff.symm
  | .request _ _ | .clipData | .visit | .clipEnd | .dequeue _ | .read _ | .execute _ =>
      isTrue trivial

instance (s : Server) (e : ServerEvent) : Decidable (s.SplitAgrees e) :=
  match e with
  | .clipData => List.decidableBAll _ s.slave.disk.file_master.keys
  | .request _ _ | .newSlave _ _ | .visit | .clipEnd | .dequeue _ | .read _ | .execute _ =>
      isTrue trivial

/-- The condition on a step: while the packet of a node is still to be read, the main
loop receives no other one, and the same one only with the same outcome of the version
check. -/
def KeepsPacket (s : Server) : ServerEvent → Prop
  | .request _ r =>
      s.NodeWaiting → s.buf = some ⟨r, decide (¬ r.version < s.slave.slaves.version)⟩
  | .clipData => ¬ s.NodeWaiting
  | _ => True

instance (s : Server) (e : ServerEvent) : Decidable (s.KeepsPacket e) :=
  match e with
  | .request _ r =>
      inferInstanceAs (Decidable (s.NodeWaiting →
        s.buf = some ⟨r, decide (¬ r.version < s.slave.slaves.version)⟩))
  | .clipData => inferInstanceAs (Decidable (¬ s.NodeWaiting))
  | .newSlave _ _ | .visit | .clipEnd | .dequeue _ | .read _ | .execute _ => isTrue trivial

/-- The last execution that wrote the key was that of an admitted `SET`. -/
def LastSet (s : Server) (key : dbKey) (value : dbValue) : Prop :=
  ∃ x, s.log.find? (fun x => x.received.request.writes key) = some x ∧
    x.received.admitted = true ∧
    x.received.request.cmd = .set value

section Pending

variable {s : Server} {r : DBRequest}

theorem workers_setWorker (w w' : Fin THREADS_NUM) (worker : Worker) :
    (s.setWorker w worker).workers w' = if w' = w then worker else s.workers w' := by
  simp only [setWorker, Function.update_apply]

/-- A thread that takes a node waits for the packet that it has. -/
theorem Pending.dequeue {w : Fin THREADS_NUM} {node : Queued} {queue : List Queued}
    (hqueue : s.queue = node :: queue)
    (h : ({ s.setWorker w (.dequeued node) with queue := queue } : Server).Pending r) :
    s.Pending r := by
  rcases h with ⟨w', hw'⟩ | ⟨_, hbuf⟩
  · left
    refine ⟨w', ?_⟩
    have hafter : underExecution ((s.setWorker w (.dequeued node)).workers w') = some r := hw'
    rw [workers_setWorker] at hafter
    split at hafter
    · cases hafter
    · exact hafter
  · right
    refine ⟨Or.inl ?_, hbuf⟩
    rw [hqueue]
    exact List.cons_ne_nil _ _

/-- A thread that reads the packet goes on with what was pending. -/
theorem Pending.read {w : Fin THREADS_NUM} {node : Queued} (hw : s.workers w = .dequeued node)
    (h : (s.setWorker w (.executing node s.buf)).Pending r) : s.Pending r := by
  have hwaiting : s.NodeWaiting := Or.inr ⟨w, by rw [hw]; rfl⟩
  rcases h with ⟨w', hw'⟩ | ⟨_, hbuf⟩
  · rw [workers_setWorker] at hw'
    split at hw'
    · exact Or.inr ⟨hwaiting, hw'⟩
    · exact Or.inl ⟨w', hw'⟩
  · exact Or.inr ⟨hwaiting, hbuf⟩

/-- A thread that has executed its packet has none. -/
theorem Pending.done {w : Fin THREADS_NUM} (h : (s.setWorker w .waiting).Pending r) :
    s.Pending r := by
  rcases h with ⟨w', hw'⟩ | ⟨hwaiting, hbuf⟩
  · rw [workers_setWorker] at hw'
    split at hw'
    · cases hw'
    · exact Or.inl ⟨w', hw'⟩
  · refine Or.inr ⟨?_, hbuf⟩
    rcases hwaiting with hqueue | ⟨w', hw'⟩
    · exact Or.inl hqueue
    · rw [workers_setWorker] at hw'
      split at hw'
      · cases hw'
      · exact Or.inr ⟨w', hw'⟩

end Pending

/-- **The invariant of ownership.** -/
structure OwnerInv (s : Server) : Prop where
  ring : RingInv s.slave.slaves
  pos : s.slave.pos < s.slave.slaves.num
  /-- Admitted packets are still at the owner of their key. -/
  pending : ∀ r, s.Pending r → s.Owns r.key
  /-- What the slave owns has never been handed over. -/
  away : ∀ key, s.Owns key → ¬ s.Away key
  split : s.main ≠ .loop → 1 < s.slave.slaves.num

section Ownership

variable {s s' : Server}

/-- The list and the position after a `NEW_SLAVE`. -/
theorem notified_eq (hring : RingInv s.slave.slaves)
    (hpos : s.slave.pos < s.slave.slaves.num) (hmax : s.slave.slaves.num < MAX_SLAVE_NUM)
    (sn : SlaveNode) (rand : Nat) :
    s.notified sn rand =
      { slaves := (addToSlaveList s.slave.slaves sn rand).1
        pos := oldIndex (addToSlaveList s.slave.slaves sn rand).2 s.slave.pos
        disk := s.slave.disk } := by
  rw [notified, newSlave_eq hpos,
    ← addToSlaveList_eq_addNewSlave sn rand hmax hring.find_lt]

/-- A `NEW_SLAVE` gives the slave no key that it did not own. -/
theorem owns_of_notified (hring : RingInv s.slave.slaves)
    (hpos : s.slave.pos < s.slave.slaves.num) (hmax : s.slave.slaves.num < MAX_SLAVE_NUM)
    (sn : SlaveNode) (rand : Nat) {key : dbKey}
    (h : ({ s with slave := s.notified sn rand } : Server).Owns key) : s.Owns key := by
  have hwith := withoutNode_addToSlaveList hring hmax sn rand
  rw [Owns, notified_eq hring hpos hmax] at h
  exact (hwith.getSocket_iff hring (hring.of_addToSlaveList hmax sn rand) hpos key).mpr
    (Or.inl h)

theorem OwnerInv.newSlave (h : s.OwnerInv) (hmax : s.slave.slaves.num < MAX_SLAVE_NUM)
    (sn : SlaveNode) (rand : Nat)
    (hkeeps : ∀ r, s.Pending r →
      ({ s with slave := s.notified sn rand } : Server).Owns r.key)
    (hloop : s.main = .loop) :
    ({ s with slave := s.notified sn rand } : Server).OwnerInv where
  ring := by
    rw [notified_eq h.ring h.pos hmax]
    exact h.ring.of_addToSlaveList hmax sn rand
  pos := by
    rw [notified_eq h.ring h.pos hmax, num_addToSlaveList]
    have hpos := h.pos
    exact oldIndex_lt (show s.slave.pos + 1 < s.slave.slaves.num + 1 by omega)
  pending := hkeeps
  away := fun key howns => h.away key (owns_of_notified h.ring h.pos hmax sn rand howns)
  split := fun hsplit => absurd hloop hsplit

/-- A step that changes neither the list nor the position, and makes no packet
pending. -/
theorem OwnerInv.of_same (h : s.OwnerInv) (hslaves : s'.slave.slaves = s.slave.slaves)
    (hpos : s'.slave.pos = s.slave.pos) (hpending : ∀ r, s'.Pending r → s.Pending r)
    (hhanded : s'.handed = s.handed) (hmain : s'.main = s.main) : s'.OwnerInv where
  ring := by
    rw [hslaves]
    exact h.ring
  pos := by
    rw [hslaves, hpos]
    exact h.pos
  pending := by
    intro r hr
    rw [Owns, hslaves, hpos]
    exact h.pending r (hpending r hr)
  away := by
    intro key
    rw [Owns, Away, hslaves, hpos, hhanded]
    exact h.away key
  split := by
    rw [hmain, hslaves]
    exact h.split

/-- The slave that is cut off is another one. -/
theorem OwnerInv.successor_ne (h : s.OwnerInv) (hnum : 1 < s.slave.slaves.num)
    {key : dbKey} (howns : s.Owns key) :
    getSocket s.slave.slaves key ≠ some s.successor := by
  rw [howns]
  exact fun heq => succ_mod_ne h.pos hnum (Option.some.inj heq).symm

theorem OwnerInv.step {e : ServerEvent} (h : s.OwnerInv) (hcond : s.KeepsPending e)
    (hstep : s.Transition e s') : s'.OwnerInv := by
  cases hstep with
  | stale sock r hloop hversion =>
      refine h.of_same rfl rfl ?_ rfl rfl
      rintro r' (hw | ⟨_, hbuf⟩)
      · exact Or.inl hw
      · cases hbuf
  | queued sock r hloop hversion howns =>
      refine { h with pending := ?_ }
      rintro r' (hw | ⟨_, hbuf⟩)
      · exact h.pending r' (Or.inl hw)
      · cases hbuf
        exact howns
  | newSlave sn rand hloop hmax => exact h.newSlave hmax sn rand hcond hloop
  | clipData hloop hnum =>
      refine { h with pending := ?_, split := fun _ => hnum }
      rintro r' (hw | ⟨_, hbuf⟩)
      · exact h.pending r' (Or.inl hw)
      · cases hbuf
  | visit lower_b upper_b key todo hmain =>
      exact { h with split := fun _ => h.split (by rw [hmain]; exact nofun) }
  | clipEnd lower_b upper_b hmain =>
      have hnum := h.split (by rw [hmain]; exact nofun)
      refine { h with away := ?_, split := fun hsplit => absurd rfl hsplit }
      rintro key howns ⟨handover, hmem, hroute⟩
      rcases List.mem_cons.mp hmem with rfl | hold
      · exact h.successor_ne hnum howns hroute
      · exact h.away key howns ⟨handover, hold, hroute⟩
  | dequeue w node queue hqueue =>
      exact h.of_same rfl rfl (fun r => Pending.dequeue hqueue) rfl rfl
  | read w node hw => exact h.of_same rfl rfl (fun r => Pending.read hw) rfl rfl
  | execute w node received hw =>
      refine h.of_same rfl rfl (fun r hr => ?_) rfl rfl
      have hbefore : (s.executed node received).Pending r := Pending.done hr
      exact hbefore
  | unknown w node hw => exact h.of_same rfl rfl (fun r => Pending.done) rfl rfl

end Ownership

/-- No thread has read the packet of the node. -/
def Unread (s : Server) (node : Queued) : Prop :=
  node ∈ s.queue ∨ ∃ w, s.workers w = .dequeued node

/-- **The invariant of the buffer.**  An unread packet is still the one in `szBuf`, and
threads read and execute the packets of their own nodes. -/
structure MatchedInv (s : Server) : Prop where
  unread : ∀ node, s.Unread node → s.buf = some ⟨node.request, true⟩
  reading : ∀ w node received, s.workers w = .executing node received →
    received = some ⟨node.request, true⟩
  log : ∀ x ∈ s.log, x.received = ⟨x.node.request, true⟩

section Matching

variable {s s' : Server} {node : Queued}

theorem Unread.nodeWaiting (h : s.Unread node) : s.NodeWaiting := by
  rcases h with hqueue | ⟨w, hw⟩
  · exact Or.inl (List.ne_nil_of_mem hqueue)
  · exact Or.inr ⟨w, by rw [hw]; rfl⟩

/-- A node that waits after a step of a thread that takes none was waiting before. -/
theorem Unread.of_setWorker {w : Fin THREADS_NUM} {worker : Worker}
    (hworker : hasNode worker = false) (h : (s.setWorker w worker).Unread node) :
    s.Unread node := by
  rcases h with hqueue | ⟨w', hw'⟩
  · exact Or.inl hqueue
  · rw [workers_setWorker] at hw'
    split at hw'
    · rw [hw'] at hworker
      cases hworker
    · exact Or.inr ⟨w', hw'⟩

theorem Unread.dequeue {w : Fin THREADS_NUM} {taken : Queued} {queue : List Queued}
    (hqueue : s.queue = taken :: queue)
    (h : ({ s.setWorker w (.dequeued taken) with queue := queue } : Server).Unread node) :
    s.Unread node := by
  rcases h with hmem | ⟨w', hw'⟩
  · refine Or.inl ?_
    rw [hqueue]
    exact List.mem_cons_of_mem _ hmem
  · have hafter : (s.setWorker w (.dequeued taken)).workers w' = .dequeued node := hw'
    rw [workers_setWorker] at hafter
    split at hafter
    · obtain rfl := Worker.dequeued.inj hafter
      refine Or.inl ?_
      rw [hqueue]
      exact List.mem_cons_self
    · exact Or.inr ⟨w', hafter⟩

/-- A thread that goes back to waiting leaves what the others have read. -/
theorem MatchedInv.reading_waiting (h : s.MatchedInv) (w : Fin THREADS_NUM) :
    ∀ w' node received, (s.setWorker w .waiting).workers w' = .executing node received →
      received = some ⟨node.request, true⟩ := by
  intro w' node received hw'
  rw [workers_setWorker] at hw'
  split at hw'
  · cases hw'
  · exact h.reading w' node received hw'

theorem MatchedInv.step {e : ServerEvent} (h : s.MatchedInv) (hcond : s.KeepsPacket e)
    (hstep : s.Transition e s') : s'.MatchedInv := by
  cases hstep with
  | stale sock r hloop hversion =>
      refine { h with unread := fun node hnode => ?_ }
      -- the same packet would have passed the check when it was queued
      have hbuf := hcond (Unread.nodeWaiting hnode)
      rw [h.unread node hnode] at hbuf
      simp [hversion] at hbuf
  | queued sock r hloop hversion howns =>
      refine { h with unread := ?_ }
      rintro node (hmem | hw)
      · rcases List.mem_append.mp hmem with hold | hnew
        · have hbuf := hcond (Unread.nodeWaiting (Or.inl hold))
          rw [h.unread node (Or.inl hold)] at hbuf
          simp only [Option.some.injEq, Received.mk.injEq] at hbuf
          rw [hbuf.1]
        · obtain rfl := List.mem_singleton.mp hnew
          rfl
      · have hbuf := hcond (Unread.nodeWaiting (Or.inr hw))
        rw [h.unread node (Or.inr hw)] at hbuf
        simp only [Option.some.injEq, Received.mk.injEq] at hbuf
        rw [hbuf.1]
  | newSlave sn rand hloop hmax => exact ⟨h.unread, h.reading, h.log⟩
  | clipData hloop hnum =>
      exact { h with unread := fun node hnode => absurd (Unread.nodeWaiting hnode) hcond }
  | visit lower_b upper_b key todo hmain => exact ⟨h.unread, h.reading, h.log⟩
  | clipEnd lower_b upper_b hmain => exact ⟨h.unread, h.reading, h.log⟩
  | dequeue w node queue hqueue =>
      refine ⟨fun other hother => h.unread other (Unread.dequeue hqueue hother), ?_, h.log⟩
      intro w' other received hw'
      have hafter : (s.setWorker w (.dequeued node)).workers w' = .executing other received :=
        hw'
      rw [workers_setWorker] at hafter
      split at hafter
      · cases hafter
      · exact h.reading w' other received hafter
  | read w node hw =>
      refine ⟨fun other hother => h.unread other (Unread.of_setWorker rfl hother), ?_, h.log⟩
      intro w' other received hw'
      rw [workers_setWorker] at hw'
      split at hw'
      · obtain ⟨rfl, rfl⟩ := Worker.executing.inj hw'
        exact h.unread node (Or.inr ⟨w, hw⟩)
      · exact h.reading w' other received hw'
  | execute w node received hw =>
      refine ⟨fun other hother => ?_, h.reading_waiting w, ?_⟩
      · have hbefore : (s.executed node received).Unread other :=
          Unread.of_setWorker rfl hother
        exact h.unread other hbefore
      · intro x hx
        rcases List.mem_cons.mp hx with rfl | hold
        · exact Option.some.inj (h.reading w node _ hw)
        · exact h.log x hold
  | unknown w node hw =>
      exact ⟨fun other hother => h.unread other (Unread.of_setWorker rfl hother),
        h.reading_waiting w, h.log⟩

end Matching

/-- The records that the split in progress has not visited. -/
def todo (s : Server) : List dbKey :=
  match s.main with
  | .loop => []
  | .splitting _ _ todo => todo

/-- The split in progress takes the key away. -/
def Moving (s : Server) (key : dbKey) : Prop :=
  s.main ≠ .loop ∧ getSocket s.slave.slaves key = some s.successor

/-- **The invariant of the acknowledged values.**  A value is in the primary until
the split moves it to the temporary file, and then in a file that was sent. -/
structure StoreInv (s : Server) : Prop where
  handed : ∀ key value, s.LastSet key value → s.Away key →
    ∃ h ∈ s.handed, getSocket h.slaves key = some h.node ∧ contents h.file key = some value
  stored : ∀ key value, s.LastSet key value → ¬ s.Away key → ¬ s.Moving key →
    contents s.slave.disk.file_master key = some value
  moving : ∀ key value, s.LastSet key value → ¬ s.Away key → s.Moving key →
    (key ∈ s.todo ∧ contents s.slave.disk.file_master key = some value) ∨
      (key ∉ s.todo ∧ contents (openFile s.slave.disk.file_tmp) key = some value)
  todo : ∀ lower_b upper_b todo, s.main = .splitting lower_b upper_b todo →
    todo.Nodup ∧ ∀ key ∈ todo,
      (inSplitRange lower_b upper_b key = true ↔
        getSocket s.slave.slaves key = some s.successor)

section Execution

variable {s s' : Server} {node : Queued} {received : Received} {key : dbKey}

theorem contents_handleDBRequest (file : HDB) {r : DBRequest}
    (h : r.writes key = false) :
    contents (handleDBRequest file r).1 key = contents file key := by
  have hkey : r.cmd ≠ .get → key ≠ r.key := by
    rintro hcmd rfl
    simp [DBRequest.writes, hcmd] at h
  unfold handleDBRequest
  split
  case h_1 value hcmd =>
      rw [contents_insert, Function.update_of_ne (hkey (by simp [hcmd]))]
  case h_2 => split <;> rfl
  case h_3 hcmd =>
      split
      · rfl
      · rw [contents_erase, Function.update_of_ne (hkey (by simp [hcmd]))]

/-- An execution that does not write a key leaves its record and its last `SET`
alone. -/
theorem executed_of_not_writes
    (h : received.request.writes key = false) :
    contents (s.executed node received).slave.disk.file_master key =
        contents s.slave.disk.file_master key ∧
      ∀ value, (s.executed node received).LastSet key value ↔ s.LastSet key value := by
  refine ⟨contents_handleDBRequest _ h, fun value => ?_⟩
  simp only [LastSet, executed, List.find?_cons, h]

/-- An execution that writes a key is the last one to do so. -/
theorem lastSet_of_writes {value : dbValue}
    (h : received.request.writes key = true) :
    (s.executed node received).LastSet key value ↔
      received.admitted = true ∧ received.request.cmd = .set value := by
  simp only [LastSet, executed, List.find?_cons, h]
  simp

theorem StoreInv.execute (h : s.StoreInv) (howner : s.OwnerInv) {w : Fin THREADS_NUM}
    (hw : s.workers w = .executing node (some received)) :
    (s.executed node received).StoreInv := by
  have hsame := fun {key} (hno : received.request.writes key = false) =>
    @executed_of_not_writes s node received key hno
  -- an admitted write is one of a key that the slave owns and keeps
  have hwrite : ∀ {key value}, received.request.writes key = true →
      (s.executed node received).LastSet key value →
      ¬ s.Away key ∧ ¬ s.Moving key ∧
        contents (s.executed node received).slave.disk.file_master key = some value := by
    intro key value hyes hlast
    obtain ⟨hadmitted, hcmd⟩ := (lastSet_of_writes hyes).mp hlast
    obtain ⟨r, admitted⟩ := received
    simp only at hadmitted hcmd hyes
    subst hadmitted
    have hkey : r.key = key := by simpa using (Bool.and_eq_true_iff.mp hyes).1
    have howns : s.Owns key := by
      rw [← hkey]
      exact howner.pending r (Or.inl ⟨w, by rw [hw]; rfl⟩)
    refine ⟨howner.away key howns, ?_, ?_⟩
    · rintro ⟨hsplit, hroute⟩
      exact howner.successor_ne (howner.split hsplit) howns hroute
    · have hfile : (s.executed node ⟨r, true⟩).slave.disk.file_master =
          s.slave.disk.file_master.insert key value := by
        simp [executed, setDisk, handleDBRequest, hcmd, hkey]
      rw [hfile, contents_insert, Function.update_self]
  constructor
  case handed =>
    intro key value hlast haway
    cases hwrites : received.request.writes key with
    | true => exact absurd haway (hwrite hwrites hlast).1
    | false => exact h.handed key value (((hsame hwrites).2 value).mp hlast) haway
  case stored =>
    intro key value hlast haway hmoving
    cases hwrites : received.request.writes key with
    | true => exact (hwrite hwrites hlast).2.2
    | false =>
        rw [(hsame hwrites).1]
        exact h.stored key value (((hsame hwrites).2 value).mp hlast) haway hmoving
  case moving =>
    intro key value hlast haway hmoving
    cases hwrites : received.request.writes key with
    | true => exact absurd hmoving (hwrite hwrites hlast).2.1
    | false =>
        rw [(hsame hwrites).1]
        exact h.moving key value (((hsame hwrites).2 value).mp hlast) haway hmoving
  case todo => exact h.todo

end Execution

section Splitting

variable {s s' : Server} {key : dbKey}

/-- A `NEW_SLAVE` changes no files. -/
theorem StoreInv.newSlave (h : s.StoreInv) (hloop : s.main = .loop) (sn : SlaveNode)
    (rand : Nat) : ({ s with slave := s.notified sn rand } : Server).StoreInv where
  handed := h.handed
  stored := fun key value hlast haway _ =>
    h.stored key value hlast haway (fun hmoving => hmoving.1 hloop)
  moving := fun key value _ _ hmoving => absurd hloop hmoving.1
  todo := by
    intro lower_b upper_b todo hmain
    rw [hloop] at hmain
    cases hmain

/-- At the start of a split nothing has been visited. -/
theorem StoreInv.beginClip (h : s.StoreInv) (hloop : s.main = .loop)
    (hagrees : ∀ key ∈ s.slave.disk.file_master.keys,
      (inSplitRange s.lowerBound s.upperBound key = true ↔
        getSocket s.slave.slaves key = some s.successor)) :
    ({ s.setDisk s.slave.disk.beginClip with
       buf := none
       main := .splitting s.lowerBound s.upperBound s.slave.disk.file_master.keys } :
      Server).StoreInv := by
  have hfile : s.slave.disk.beginClip.file_master = s.slave.disk.file_master := by
    simp [Disk.beginClip]
  have hstored : ∀ key value, s.LastSet key value → ¬ s.Away key →
      contents s.slave.disk.file_master key = some value :=
    fun key value hlast haway =>
      h.stored key value hlast haway (fun hmoving => hmoving.1 hloop)
  constructor
  case handed => exact h.handed
  case stored =>
    intro key value hlast haway _
    simp only [setDisk, hfile]
    exact hstored key value hlast haway
  case moving =>
    intro key value hlast haway _
    have hvalue := hstored key value hlast haway
    left
    simp only [setDisk, hfile]
    exact ⟨(mem_keys_iff _ key).mpr (by rw [hvalue]; exact Option.some_ne_none value), hvalue⟩
  case todo =>
    rintro _ _ _ ⟨⟩
    exact ⟨s.slave.disk.file_master.nodupKeys, hagrees⟩

/-- A visit of a record outside the range, and of another record inside it. -/
theorem contents_visit_of_ne (disk : Disk) (lower_b upper_b : dbKey) {k : dbKey}
    (hne : k ≠ key) :
    contents (disk.visit lower_b upper_b key).file_master k = contents disk.file_master k ∧
      contents (openFile (disk.visit lower_b upper_b key).file_tmp) k =
        contents (openFile disk.file_tmp) k := by
  unfold Disk.visit
  split
  case isTrue =>
      obtain ⟨hsrc, hdest⟩ :=
        contents_moveRecord (disk.file_master, openFile disk.file_tmp) key
      simp only [openFile, Option.getD_some]
      simp only [openFile] at hsrc hdest
      rw [hsrc, hdest, Function.update_of_ne hne, Function.update_of_ne hne]
      exact ⟨rfl, rfl⟩
  case isFalse => exact ⟨rfl, rfl⟩

/-- A visit of a record inside the range. -/
theorem contents_visit_self (disk : Disk) {lower_b upper_b : dbKey} {value : dbValue}
    (hrange : inSplitRange lower_b upper_b key = true)
    (hvalue : contents disk.file_master key = some value) :
    contents (openFile (disk.visit lower_b upper_b key).file_tmp) key = some value := by
  obtain ⟨_, hdest⟩ := contents_moveRecord (disk.file_master, openFile disk.file_tmp) key
  simp only [Disk.visit, if_pos hrange, openFile, Option.getD_some]
  simp only [openFile] at hdest
  rw [hdest, Function.update_self, hvalue, Option.some_or]

theorem StoreInv.visit (h : s.StoreInv) {lower_b upper_b : dbKey} {todo : List dbKey}
    (hmain : s.main = .splitting lower_b upper_b (key :: todo)) :
    ({ s.setDisk (s.slave.disk.visit lower_b upper_b key) with
       main := .splitting lower_b upper_b todo } : Server).StoreInv := by
  obtain ⟨hnodup, hrange⟩ := h.todo _ _ _ hmain
  obtain ⟨hnotin, hnodup'⟩ := List.nodup_cons.mp hnodup
  have hsplit : s.main ≠ .loop := by
    rw [hmain]
    exact nofun
  have htodo : s.todo = key :: todo := by simp [Server.todo, hmain]
  constructor
  case handed => exact h.handed
  case stored =>
    intro k value hlast haway hmoving
    have hnot : getSocket s.slave.slaves k ≠ some s.successor :=
      fun hroute => hmoving ⟨nofun, hroute⟩
    have hbefore := h.stored k value hlast haway (fun hm => hnot hm.2)
    rcases eq_or_ne k key with rfl | hne
    · have hout : ¬ inSplitRange lower_b upper_b k = true := by
        rw [hrange k List.mem_cons_self]
        exact hnot
      simp only [setDisk, Disk.visit, if_neg hout]
      exact hbefore
    · exact (contents_visit_of_ne s.slave.disk lower_b upper_b hne).1.trans hbefore
  case moving =>
    intro k value hlast haway hmoving
    have hbefore := h.moving k value hlast haway ⟨hsplit, hmoving.2⟩
    rw [htodo] at hbefore
    rcases eq_or_ne k key with rfl | hne
    · right
      rcases hbefore with ⟨_, hvalue⟩ | ⟨hgone, _⟩
      · have hin := (hrange k List.mem_cons_self).mpr hmoving.2
        exact ⟨hnotin, contents_visit_self s.slave.disk hin hvalue⟩
      · exact absurd List.mem_cons_self hgone
    · have hsame := contents_visit_of_ne s.slave.disk lower_b upper_b hne
      rcases hbefore with ⟨hin, hvalue⟩ | ⟨hgone, hvalue⟩
      · exact Or.inl ⟨List.mem_of_ne_of_mem hne hin, hsame.1.trans hvalue⟩
      · exact Or.inr ⟨fun hin => hgone (List.mem_cons_of_mem _ hin),
          hsame.2.trans hvalue⟩
  case todo =>
    rintro _ _ _ ⟨⟩
    exact ⟨hnodup', fun k hk => hrange k (List.mem_cons_of_mem _ hk)⟩

/-- After the loop the temporary file has all that the split takes away. -/
theorem StoreInv.endClip (h : s.StoreInv) {lower_b upper_b : dbKey}
    (hmain : s.main = .splitting lower_b upper_b []) :
    ({ s.setDisk s.slave.disk.endClip with
       main := .loop
       handed := ⟨s.slave.slaves, s.successor, openFile s.slave.disk.file_tmp⟩ :: s.handed } :
      Server).StoreInv := by
  have hsplit : s.main ≠ .loop := by
    rw [hmain]
    exact nofun
  have htodo : s.todo = [] := by simp [Server.todo, hmain]
  constructor
  case handed =>
    rintro k value hlast ⟨handover, hmem, hroute⟩
    by_cases haway : s.Away k
    · obtain ⟨old, hold, hsent⟩ := h.handed k value hlast haway
      exact ⟨old, List.mem_cons_of_mem _ hold, hsent⟩
    · rcases List.mem_cons.mp hmem with rfl | hold
      · refine ⟨_, List.mem_cons_self, hroute, ?_⟩
        rcases h.moving k value hlast haway ⟨hsplit, hroute⟩ with ⟨hin, _⟩ | ⟨_, hvalue⟩
        · rw [htodo] at hin
          exact absurd hin List.not_mem_nil
        · exact hvalue
      · exact absurd ⟨handover, hold, hroute⟩ haway
  case stored =>
    intro k value hlast haway _
    refine h.stored k value hlast ?_ ?_
    · rintro ⟨old, hold, hroute⟩
      exact haway ⟨old, List.mem_cons_of_mem _ hold, hroute⟩
    · rintro ⟨_, hroute⟩
      exact haway ⟨_, List.mem_cons_self, hroute⟩
  case moving => exact fun k value _ _ hmoving => absurd rfl hmoving.1
  case todo => exact nofun

theorem StoreInv.step {e : ServerEvent} (h : s.StoreInv) (howner : s.OwnerInv)
    (hagrees : s.SplitAgrees e) (hstep : s.Transition e s') : s'.StoreInv := by
  cases hstep with
  | stale sock r hloop hversion => exact ⟨h.handed, h.stored, h.moving, h.todo⟩
  | queued sock r hloop hversion howns => exact ⟨h.handed, h.stored, h.moving, h.todo⟩
  | newSlave sn rand hloop hmax => exact h.newSlave hloop sn rand
  | clipData hloop hnum => exact h.beginClip hloop hagrees
  | visit lower_b upper_b key todo hmain => exact h.visit hmain
  | clipEnd lower_b upper_b hmain => exact h.endClip hmain
  | dequeue w node queue hqueue => exact ⟨h.handed, h.stored, h.moving, h.todo⟩
  | read w node hw => exact ⟨h.handed, h.stored, h.moving, h.todo⟩
  | execute w node received hw =>
      have hexecuted := h.execute howner hw
      exact ⟨hexecuted.handed, hexecuted.stored, hexecuted.moving, hexecuted.todo⟩
  | unknown w node hw => exact ⟨h.handed, h.stored, h.moving, h.todo⟩

end Splitting

/-- When all stored keys are below `MAX_KEY`, the split agrees with the routing. -/
theorem splitAgrees_of_lt {s : Server} (hring : RingInv s.slave.slaves)
    (hpos : s.slave.pos < s.slave.slaves.num)
    (hkeys : ∀ key ∈ s.slave.disk.file_master.keys, key.toNat < MAX_KEY)
    (e : ServerEvent) : s.SplitAgrees e := by
  cases e with
  | clipData =>
      intro key hkey
      have hlt : s.successor < s.slave.slaves.num := Nat.mod_lt _ (by omega)
      have hupper : s.upperBound = toUnsigned (s.slave.slaves.node
          ((s.successor + 1) % s.slave.slaves.num)).key := by
        rw [upperBound, add_two_mod]
        rfl
      rw [hupper]
      exact sectionRange_iff_getSocket hring hlt (hkeys key hkey)
  | request sock r => trivial
  | newSlave sn rand => trivial
  | visit => trivial
  | clipEnd => trivial
  | dequeue w => trivial
  | read w => trivial
  | execute w => trivial

/-- The first slave of a list, in its main loop, with a primary. -/
def firstSlave (slaves : SlaveList) (file : HDB) : Server where
  slave := ⟨slaves, 0, ⟨file, none, none, none⟩⟩
  buf := none
  queue := []
  workers := fun _ => .waiting
  main := .loop
  handed := []
  log := []

/-- Two clients' `SET`s are queued before a thread reads the first one. -/
def receivedOver : List ServerEvent :=
  [.request 7 ⟨1, 500, .set [97]⟩, .request 9 ⟨1, 600, .set [98]⟩, .dequeue 0, .read 0,
    .dequeue 1, .read 1, .execute 0, .execute 1]

/-- The second one is executed twice, and both clients get `SET_R`: the list of slaves
has not changed, and an acknowledged write is lost. -/
theorem overwritten_packet_loses_write :
    allSteps step KeepsPending (firstSlave (ringOf 1) ∅) receivedOver ∧
      (run step (firstSlave (ringOf 1) ∅) receivedOver).map
          (fun s => (s.log.map fun x => (x.node.sock, x.received.request.key, x.reply),
            contents s.slave.disk.file_master 500)) =
        some ([(9, 600, .setR), (7, 600, .setR)], none) := by
  constructor <;> decide +kernel

end Server

end DistributedDB
