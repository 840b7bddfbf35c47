import DistributedDB.VersionGate

/-!
# The loop from `REDO`

`DBSetKeyValue`, `DBGetKeyValue` and `DBDelKeyValue` of `client/netdbapi.c` go back to the
label `REDO` when the slave answers `UPDATE_VERSION` and when its connection ends before the
reply has come: the client fetches the list again, connects to its slaves and sends its
packet once more.  The loop has no bound of its own.

One client with its operations takes part in the system of the master, the slaves and the
other clients.  Two things are assumed of every run:
* Reopening succeeds, in one step: `ReadCloudNodes` gets the list and `OpenAllCloudNodes` is
  done with it before the next change.  When a slave has left in between, the code goes on
  with the -1 of `OpenAllCloudNodes` and the socket numbers of the master; that is the
  subject of `Reopen.lean`.
* A connection ends with the process at its other end.  A slave's `DBServiceStop` for a
  replayed `CLOSE`, which closes whatever connection has the descriptor now, is no step.

**Results.**
* `RedoNet.step`: the steps of the system, the client's among them.
* `RedoInv`: the client's list is never older than the number of its repetitions allows.
* `redos_le_changes`: when reopening succeeds and connections end with their processes,
  every repetition is paid for by a membership change.
* `operation_completes`: then, while there are no changes, at most one repetition is left.
-/

namespace DistributedDB

open Net Run

/-- Where an operation of the client stands. -/
inductive OpStage where
  /-- At the label `REDO`. -/
  | redo
  /-- The packet is sent, the slave's main loop has not received it. -/
  | sent
  /-- The packet is queued for the workers. -/
  | admitted
  /-- The list is to be fetched again. -/
  | reopen
  | done
deriving DecidableEq, Repr

structure Operation where
  key : dbKey
  /-- The client's list. -/
  slaves : SlaveList
  /-- The slave to whose socket the last packet was sent. -/
  dest : Addr
  stage : OpStage
  /-- How often the client has gone back to `REDO`, over all its operations. -/
  redos : Nat
  /-- The process at the address has exited since the client opened its connections, which
  is the only way for one of them to end. -/
  hungUp : Addr → Bool

structure RedoNet where
  net : Net
  op : Operation

inductive RedoEvent where
  /-- A step of the master, a slave or another client. -/
  | net (e : NetEvent)
  /-- The client begins another operation. -/
  | next (key : dbKey)
  /-- It sends its packet to the slave that `GetSocket` selects. -/
  | send
  /-- The slave's main loop answers `UPDATE_VERSION`. -/
  | reject
  /-- The slave's main loop queues the packet. -/
  | accept
  /-- A worker replies. -/
  | reply
  /-- `RecvMsg` finds the connection closed. -/
  | hangUp
  /-- `CloseAllCloudNodes` and `OpenAllCloudNodes`, which succeed. -/
  | reopen

namespace Operation

/-- Connections to processes that are gone now are closed, also for later. -/
def watch (op : Operation) (n : Net) : Operation :=
  { op with hungUp := fun a => op.hungUp a || decide ((n.procs a).phase = .down) }

/-- Back to `REDO`. -/
def again (op : Operation) : Operation :=
  { op with stage := .reopen, redos := op.redos + 1 }

/-- The client has fetched the list of the master and connected to all of its slaves. -/
def opened (op : Operation) (n : Net) : Operation :=
  { op with
    slaves := n.slaves
    stage := .redo
    hungUp := fun a => decide ((n.procs a).phase = .down) }

/-- The packet goes to the slave at `dest`, the connection being open. -/
def Reaches (op : Operation) (n : Net) : Prop :=
  op.stage = .sent ∧ op.hungUp op.dest = false ∧ (n.procs op.dest).phase = .serving

instance (op : Operation) (n : Net) : Decidable (op.Reaches n) :=
  inferInstanceAs (Decidable (_ ∧ _ ∧ _))

end Operation

namespace RedoNet

/-- The version of the list at the slave that the packet goes to. -/
def destVersion (s : RedoNet) : UInt32 :=
  (s.net.procs s.op.dest).slave.slaves.version

/-- One step of the system; `none` when the event cannot happen. -/
def step (s : RedoNet) : RedoEvent → Option RedoNet
  | .net e => (s.net.step e).map fun n => ⟨n, s.op.watch n⟩
  | .next key =>
      if s.op.stage = .done then some ⟨s.net, { s.op with key := key, stage := .redo }⟩
      else none
  | .send =>
      if s.op.stage = .redo then
        (getSocket s.op.slaves s.op.key).bind fun i =>
          (s.net.step (.send s.op.slaves s.op.key)).map fun n =>
            ⟨n, { s.op with dest := (s.op.slaves.node i).addr, stage := .sent }⟩
      else none
  | .reject =>
      if s.op.Reaches s.net ∧ s.op.slaves.version < s.destVersion then
        some ⟨s.net, s.op.again⟩
      else none
  | .accept =>
      if s.op.Reaches s.net ∧ ¬ s.op.slaves.version < s.destVersion then
        some ⟨s.net, { s.op with stage := .admitted }⟩
      else none
  | .reply =>
      if s.op.stage = .admitted ∧ s.op.hungUp s.op.dest = false then
        some ⟨s.net, { s.op with stage := .done }⟩
      else none
  | .hangUp =>
      if (s.op.stage = .sent ∨ s.op.stage = .admitted) ∧ s.op.hungUp s.op.dest = true then
        some ⟨s.net, s.op.again⟩
      else none
  | .reopen =>
      if s.op.stage = .reopen then
        (s.net.step .getList).map fun n => ⟨n, s.op.opened n⟩
      else none

/-- The client has just opened the database, and begins an operation on a key. -/
def start (n : Net) (key : dbKey) : RedoNet :=
  let op : Operation := ⟨key, n.slaves, default, .redo, 0, fun _ => false⟩
  ⟨{ n with fetched := n.slaves :: n.fetched }, op.opened n⟩

end RedoNet

namespace Net

section Lists

variable {n : Net}

/-- Lists that a client has are as old as the changes begun. -/
theorem NetInv.version_le (h : n.NetInv) {list : SlaveList} (hlist : list ∈ n.fetched) :
    list.version.toNat ≤ n.changes := by
  cases htask : n.task with
  | none =>
      have hset := h.settled htask
      rcases hset.known list hlist with rfl | hlt
      · exact hset.version.le
      · rw [UInt32.lt_iff_toNat_lt, hset.version] at hlt
        exact hlt.le
  | some r =>
      obtain ⟨before, after, hround⟩ := h.round htask
      have hlt := hround.known.lt hround.version hlist
      rw [UInt32.lt_iff_toNat_lt, hround.changes] at hlt
      exact hlt.le

/-- No slave has a newer list than the changes begun allow. -/
theorem NetInv.serving_version_le (h : n.NetInv) {a : Addr}
    (hserving : (n.procs a).phase = .serving) :
    (n.procs a).slave.slaves.version.toNat ≤ n.changes := by
  obtain ⟨j, hj, rfl⟩ := h.homes a (by rw [hserving]; decide)
  cases htask : n.task with
  | none =>
      have hset := h.settled htask
      obtain ⟨-, hslaves, -⟩ := hset.procs j hj
      rw [procAt] at hslaves
      rw [hslaves, hset.version]
  | some r =>
      obtain ⟨before, after, hround⟩ := h.round htask
      have hne : j ≠ r.pos := by
        rintro rfl
        exact r.requesterPhase_ne.2 (hround.requester.symm.trans hserving)
      obtain ⟨-, hslaves, -⟩ := hround.others j hj hne
      have hversion := hround.version
      have hchanges := hround.changes
      rw [procAt] at hslaves
      rw [hslaves]
      split <;> omega

/-- A list with a slave whose process is gone is an old one. -/
theorem NetInv.version_lt_of_down (h : n.NetInv) {list : SlaveList} (hlist : list ∈ n.fetched)
    {i : Nat} (hi : i < list.num) (hdown : (n.procs (list.node i).addr).phase = .down) :
    list.version.toNat < n.changes := by
  cases htask : n.task with
  | none =>
      have hset := h.settled htask
      rcases hset.known list hlist with rfl | hlt
      · exact absurd rfl (h.addr_ne_of_down htask hdown hi)
      · rw [UInt32.lt_iff_toNat_lt, hset.version] at hlt
        exact hlt
  | some r =>
      obtain ⟨before, after, hround⟩ := h.round htask
      have hlt := hround.known.lt hround.version hlist
      rw [UInt32.lt_iff_toNat_lt, hround.changes] at hlt
      exact hlt

/-- Neither the number of changes nor the lists that clients have get fewer. -/
theorem step_mono {n' : Net} {e : NetEvent} (hstep : n.step e = some n') :
    n.changes ≤ n'.changes ∧ ∀ list, list ∈ n.fetched → list ∈ n'.fetched := by
  cases e with
  | addSlave sn rand =>
      simp only [Net.step, Option.ite_none_right_eq_some] at hstep
      obtain rfl := Option.some.inj hstep.2
      exact ⟨Nat.le_succ _, fun _ h => h⟩
  | delSlave a =>
      simp only [Net.step, Option.ite_none_right_eq_some] at hstep
      obtain rfl := Option.some.inj hstep.2
      exact ⟨Nat.le_succ _, fun _ h => h⟩
  | notify | deliver | recvReply | finish =>
      simp only [Net.step] at hstep
      split at hstep
      case h_1 =>
          simp only [Option.ite_none_right_eq_some] at hstep
          obtain rfl := Option.some.inj hstep.2
          exact ⟨Nat.le_refl _, fun _ h => h⟩
      case h_2 => exact absurd hstep (by simp)
  | initialised a =>
      simp only [Net.step, Option.ite_none_right_eq_some] at hstep
      obtain rfl := Option.some.inj hstep.2
      exact ⟨Nat.le_refl _, fun _ h => h⟩
  | shutDown a =>
      simp only [Net.step, Option.ite_none_right_eq_some] at hstep
      obtain rfl := Option.some.inj hstep.2
      exact ⟨Nat.le_refl _, fun _ h => h⟩
  | getList =>
      simp only [Net.step, Option.ite_none_right_eq_some] at hstep
      obtain rfl := Option.some.inj hstep.2
      exact ⟨Nat.le_refl _, fun _ h => List.mem_cons_of_mem _ h⟩
  | send slaves key =>
      simp only [Net.step, Option.ite_none_right_eq_some, Option.map_eq_some_iff] at hstep
      obtain ⟨-, i, -, rfl⟩ := hstep
      exact ⟨Nat.le_refl _, fun _ h => h⟩

end Lists

end Net

/-- **The invariant of the client's loop**, for a client whose first list had version `v`.
Every repetition so far has made the list newer, the one that is under way will. -/
structure RedoInv (v : Nat) (s : RedoNet) : Prop where
  net : s.net.NetInv
  ring : RingInv s.op.slaves
  fetched : s.op.slaves ∈ s.net.fetched
  bound : v + s.op.redos ≤ s.op.slaves.version.toNat + (if s.op.stage = .reopen then 1 else 0)
  older : s.op.stage = .reopen → s.op.slaves.version.toNat < s.net.changes
  hung : ∀ i, i < s.op.slaves.num → s.op.hungUp (s.op.slaves.node i).addr = true →
    s.op.slaves.version.toNat < s.net.changes
  dest : s.op.stage = .sent ∨ s.op.stage = .admitted →
    ∃ i, i < s.op.slaves.num ∧ s.op.dest = (s.op.slaves.node i).addr
  down : ∀ a, (s.net.procs a).phase = .down → s.op.hungUp a = true

namespace RedoInv

variable {v : Nat} {s : RedoNet}

/-- The repetitions are paid for. -/
theorem redos_le (h : RedoInv v s) : v + s.op.redos ≤ s.net.changes := by
  have hbound := h.bound
  have hle := h.net.version_le h.fetched
  split at hbound
  case isTrue hstage =>
      have hlt := h.older hstage
      omega
  case isFalse => omega

/-- The list that the client has fetched and the connections that it has opened. -/
theorem opened {n : Net} (hinv : n.NetInv) (htask : n.task = none) (op : Operation)
    (hbound : v + op.redos ≤ n.changes) :
    RedoInv v ⟨{ n with fetched := n.slaves :: n.fetched }, op.opened n⟩ where
  net := hinv.getList htask
  ring := hinv.ring
  fetched := List.mem_cons_self
  bound := by
    have hversion := (hinv.settled htask).version
    simp only [Operation.opened, reduceCtorEq, if_false]
    omega
  older := fun hstage => by simp [Operation.opened] at hstage
  hung := by
    intro i hi hdown
    have hlive := ((hinv.settled htask).procs i hi).1
    simp only [Operation.opened, decide_eq_true_eq] at hdown
    rw [procAt, addr, hdown] at hlive
    rcases hlive with heq | heq | heq <;> cases heq
  dest := fun hstage => by simp [Operation.opened] at hstage
  down := fun a hdown => by simpa [Operation.opened] using hdown

/-- A step of the others. -/
theorem watch (h : RedoInv v s) {n : Net} {e : NetEvent} (hstep : s.net.step e = some n) :
    RedoInv v ⟨n, s.op.watch n⟩ := by
  have hinv := h.net.step hstep
  obtain ⟨hchanges, hfetched⟩ := step_mono hstep
  have hlist := hfetched _ h.fetched
  constructor
  case net => exact hinv
  case ring => exact h.ring
  case fetched => exact hlist
  case bound => exact h.bound
  case older => exact fun hstage => Nat.lt_of_lt_of_le (h.older hstage) hchanges
  case hung =>
    intro i hi hhung
    simp only [Operation.watch, Bool.or_eq_true, decide_eq_true_eq] at hhung
    rcases hhung with hhung | hdown
    · exact Nat.lt_of_lt_of_le (h.hung i hi hhung) hchanges
    · exact hinv.version_lt_of_down hlist hi hdown
  case dest => exact h.dest
  case down =>
    intro a hdown
    have hdown : (n.procs a).phase = .down := hdown
    simp [Operation.watch, hdown]

/-- The client turns back: its list is not the last one. -/
theorem again (h : RedoInv v s) (hstage : s.op.stage ≠ .reopen)
    (hlt : s.op.slaves.version.toNat < s.net.changes) : RedoInv v ⟨s.net, s.op.again⟩ where
  net := h.net
  ring := h.ring
  fetched := h.fetched
  bound := by
    have hbound := h.bound
    rw [if_neg hstage] at hbound
    simp only [Operation.again, if_true]
    omega
  older := fun _ => hlt
  hung := h.hung
  dest := fun hsent => by simp [Operation.again] at hsent
  down := h.down

/-- The operation moves on, with the same list and connections. -/
theorem moveOn (h : RedoInv v s) {key : dbKey} {dest : Addr} {stage : OpStage}
    (hstage : s.op.stage ≠ .reopen) (hnext : stage ≠ .reopen)
    (hdest : stage = .sent ∨ stage = .admitted →
      ∃ i, i < s.op.slaves.num ∧ dest = (s.op.slaves.node i).addr) :
    RedoInv v ⟨s.net, { s.op with key := key, dest := dest, stage := stage }⟩ where
  net := h.net
  ring := h.ring
  fetched := h.fetched
  bound := by
    have hbound := h.bound
    rw [if_neg hstage] at hbound
    rw [if_neg hnext]
    exact hbound
  older := fun heq => absurd heq hnext
  hung := h.hung
  dest := hdest
  down := h.down

/-- A packet more under way. -/
theorem of_send (h : RedoInv v s) {n : Net} {list : SlaveList} {key : dbKey}
    (hstep : s.net.step (.send list key) = some n) : RedoInv v ⟨n, s.op⟩ := by
  have hinv := h.net.step hstep
  simp only [Net.step, Option.ite_none_right_eq_some, Option.map_eq_some_iff] at hstep
  obtain ⟨-, i, -, rfl⟩ := hstep
  exact ⟨hinv, h.ring, h.fetched, h.bound, h.older, h.hung, h.dest, h.down⟩

/-- **Every step keeps the invariant.** -/
theorem step (h : RedoInv v s) {e : RedoEvent} {t : RedoNet} (hstep : s.step e = some t) :
    RedoInv v t := by
  cases e with
  | net e =>
      obtain ⟨n, hn, rfl⟩ := Option.map_eq_some_iff.mp hstep
      exact h.watch hn
  | next key =>
      simp only [RedoNet.step, Option.ite_none_right_eq_some] at hstep
      obtain ⟨hstage, heq⟩ := hstep
      obtain rfl := Option.some.inj heq
      refine h.moveOn (by rw [hstage]; decide) (by decide) fun hsent => ?_
      exact absurd hsent (by decide)
  | send =>
      simp only [RedoNet.step, Option.ite_none_right_eq_some, Option.bind_eq_some_iff,
        Option.map_eq_some_iff] at hstep
      obtain ⟨hstage, i, hroute, n, hsend, rfl⟩ := hstep
      exact (h.of_send hsend).moveOn (by rw [hstage]; decide) (by decide)
        fun _ => ⟨i, getSocket_lt_num hroute, rfl⟩
  | reject =>
      simp only [RedoNet.step, Option.ite_none_right_eq_some] at hstep
      obtain ⟨⟨⟨hstage, -, hserving⟩, hversion⟩, heq⟩ := hstep
      obtain rfl := Option.some.inj heq
      have hle := h.net.serving_version_le hserving
      rw [UInt32.lt_iff_toNat_lt] at hversion
      exact h.again (by rw [hstage]; decide) (Nat.lt_of_lt_of_le hversion hle)
  | accept =>
      simp only [RedoNet.step, Option.ite_none_right_eq_some] at hstep
      obtain ⟨⟨⟨hstage, -, -⟩, -⟩, heq⟩ := hstep
      obtain rfl := Option.some.inj heq
      exact h.moveOn (by rw [hstage]; decide) (by decide) fun _ => h.dest (Or.inl hstage)
  | reply =>
      simp only [RedoNet.step, Option.ite_none_right_eq_some] at hstep
      obtain ⟨⟨hstage, -⟩, heq⟩ := hstep
      obtain rfl := Option.some.inj heq
      refine h.moveOn (by rw [hstage]; decide) (by decide) fun hsent => ?_
      exact absurd hsent (by decide)
  | hangUp =>
      simp only [RedoNet.step, Option.ite_none_right_eq_some] at hstep
      obtain ⟨⟨hstage, hhung⟩, heq⟩ := hstep
      obtain rfl := Option.some.inj heq
      obtain ⟨i, hi, hdest⟩ := h.dest hstage
      rw [hdest] at hhung
      refine h.again ?_ (h.hung i hi hhung)
      rcases hstage with heq | heq <;> rw [heq] <;> decide
  | reopen =>
      simp only [RedoNet.step, Option.ite_none_right_eq_some, Option.map_eq_some_iff] at hstep
      obtain ⟨-, n, hget, rfl⟩ := hstep
      simp only [Net.step, Option.ite_none_right_eq_some] at hget
      obtain ⟨htask, heq⟩ := hget
      obtain rfl := Option.some.inj heq
      exact opened h.net htask s.op h.redos_le

end RedoInv

/-- **Every repetition is paid for by a membership change**, as long as reopening succeeds
and connections end only with their processes, as they do in this system.  When a client opens the
database in a reachable state of the system with the master idle, and then does any number
of operations, among any steps of the others, it goes back to `REDO` at most once for each
registration or departure begun since. -/
theorem redos_le_changes (events : List NetEvent) (n : Net)
    (hrun : run Net.step Net.init events = some n) (htask : n.task = none) (key : dbKey)
    (redoEvents : List RedoEvent) (s : RedoNet)
    (hredo : run RedoNet.step (RedoNet.start n key) redoEvents = some s) :
    n.changes + s.op.redos ≤ s.net.changes := by
  have hinv : n.NetInv :=
    run_invariant NetInv (fun _ _ _ h hstep => h.step hstep) hrun netInv_init
  have hstart : RedoInv n.changes (RedoNet.start n key) :=
    RedoInv.opened hinv htask _ (Nat.le_refl _)
  exact (run_invariant (RedoInv n.changes) (fun _ _ _ h hstep => h.step hstep) hredo
    hstart).redos_le

/-- The first slave registers and serves. -/
def firstSlave : List NetEvent :=
  [.addSlave ⟨0, 1, 0, 0⟩ 0, .notify, .finish, .initialised ⟨0, 1⟩]

/-- The client has its list when another slave registers. -/
def secondSlave : List RedoEvent :=
  ([.addSlave ⟨0, 2, 0, 0⟩ 0, .notify, .deliver, .recvReply, .notify, .finish,
    .initialised ⟨0, 2⟩] : List NetEvent).map .net

/-- An operation with a list that is one change behind. -/
def staleOperation : List RedoEvent :=
  [.send, .reject, .reopen, .send, .accept, .reply]

theorem redos_le_changes_secondSlave :
    ∃ n s, run Net.step Net.init firstSlave = some n ∧
      run RedoNet.step (RedoNet.start n 500) (secondSlave ++ staleOperation) = some s ∧
      s.op.redos = 1 ∧ n.changes + s.op.redos ≤ s.net.changes := by
  have hmap : ((run Net.step Net.init firstSlave).bind fun n =>
      (run RedoNet.step (RedoNet.start n 500) (secondSlave ++ staleOperation)).map fun s =>
        (n.task, s.op.redos)) = some (none, 1) := by
    decide +kernel
  obtain ⟨n, hrun, hmap⟩ := Option.bind_eq_some_iff.mp hmap
  obtain ⟨s, hredo, hpair⟩ := Option.map_eq_some_iff.mp hmap
  obtain ⟨htask, hredos⟩ := Prod.mk.inj hpair
  exact ⟨n, s, hrun, hredo, hredos, redos_le_changes firstSlave n hrun htask 500 _ s hredo⟩

section Completion

/-- The event belongs to the operation under way. -/
def RedoEvent.ofOperation : RedoEvent → Bool
  | .net _ => false
  | .next _ => false
  | _ => true

/-- No change is under way, all slaves of the master's list serve, and neither this list nor
the client's is empty. -/
structure Calm (v : Nat) (s : RedoNet) : Prop where
  inv : RedoInv v s
  idle : s.net.task = none
  serving : ∀ j, j < s.net.slaves.num → (s.net.procAt j).phase = .serving
  pos : 0 < s.net.slaves.num
  nonempty : 0 < s.op.slaves.num

/-- The client's list is not the master's. -/
def RedoNet.Stale (s : RedoNet) : Prop :=
  s.op.slaves.version ≠ s.net.slaves.version

instance (s : RedoNet) : Decidable s.Stale :=
  inferInstanceAs (Decidable (_ ≠ _))

/-- How many events the operation still takes at most. -/
def RedoNet.left (s : RedoNet) : Nat :=
  match s.op.stage with
  | .redo => if s.Stale then 6 else 3
  | .sent => if s.Stale then 5 else 2
  | .admitted => if s.Stale then 5 else 1
  | .reopen => 4
  | .done => 0

/-- How often it may still go back. -/
def RedoNet.redosLeft (s : RedoNet) : Nat :=
  if s.Stale ∧ s.op.stage ≠ .reopen ∧ s.op.stage ≠ .done then 1 else 0

namespace Calm

variable {v : Nat} {s : RedoNet}

theorem version (h : Calm v s) : s.net.slaves.version.toNat = s.net.changes :=
  (h.inv.net.settled h.idle).version

/-- An old list is one with an older version. -/
theorem stale_iff (h : Calm v s) :
    s.Stale ↔ s.op.slaves.version.toNat < s.net.changes := by
  have hle := h.inv.net.version_le h.inv.fetched
  have hversion := h.version
  rw [RedoNet.Stale, ne_eq, ← UInt32.toNat_inj]
  omega

/-- A slave that serves has the master's list. -/
theorem destVersion (h : Calm v s) (hreach : s.op.Reaches s.net) :
    s.destVersion.toNat = s.net.changes := by
  obtain ⟨-, -, hserving⟩ := hreach
  obtain ⟨j, hj, hdest⟩ := h.inv.net.homes s.op.dest (by rw [hserving]; decide)
  obtain ⟨-, hslaves, -⟩ := (h.inv.net.settled h.idle).procs j hj
  rw [procAt, hdest] at hslaves
  rw [RedoNet.destVersion, hslaves, h.version]

/-- The packet reaches its slave as long as the connection is open. -/
theorem reaches (h : Calm v s) (hstage : s.op.stage = .sent)
    (hhung : s.op.hungUp s.op.dest = false) : s.op.Reaches s.net := by
  have hphase : (s.net.procs s.op.dest).phase ≠ .down := by
    intro hdown
    rw [h.inv.down _ hdown] at hhung
    exact absurd hhung (by decide)
  obtain ⟨j, hj, hdest⟩ := h.inv.net.homes s.op.dest hphase
  have hserving := h.serving j hj
  rw [procAt, hdest] at hserving
  exact ⟨hstage, hhung, hserving⟩

/-- **The operation is not stuck.** -/
theorem exists_step (h : Calm v s) (hstage : s.op.stage ≠ .done) :
    ∃ e, e.ofOperation = true ∧ (s.step e).isSome := by
  cases hat : s.op.stage with
  | redo =>
      obtain ⟨i, hroute, -⟩ := getSocket_existsUnique s.op.slaves h.inv.ring h.nonempty s.op.key
      refine ⟨.send, rfl, ?_⟩
      simp [RedoNet.step, Net.step, hat, hroute, h.inv.fetched]
  | sent =>
      rcases Bool.eq_false_or_eq_true (s.op.hungUp s.op.dest) with hhung | hhung
      · refine ⟨.hangUp, rfl, ?_⟩
        simp [RedoNet.step, hat, hhung]
      · have hreach := h.reaches hat hhung
        by_cases hversion : s.op.slaves.version < s.destVersion
        · refine ⟨.reject, rfl, ?_⟩
          rw [RedoNet.step, if_pos ⟨hreach, hversion⟩, Option.isSome_some]
        · refine ⟨.accept, rfl, ?_⟩
          rw [RedoNet.step, if_pos ⟨hreach, hversion⟩, Option.isSome_some]
  | admitted =>
      rcases Bool.eq_false_or_eq_true (s.op.hungUp s.op.dest) with hhung | hhung
      · refine ⟨.hangUp, rfl, ?_⟩
        simp [RedoNet.step, hat, hhung]
      · refine ⟨.reply, rfl, ?_⟩
        simp [RedoNet.step, hat, hhung]
  | reopen =>
      refine ⟨.reopen, rfl, ?_⟩
      simp [RedoNet.step, Net.step, hat, h.idle]
  | done => exact absurd hat hstage

/-- What an event of the operation does while the others rest. -/
theorem step (h : Calm v s) {e : RedoEvent} (he : e.ofOperation = true) {t : RedoNet}
    (hstep : s.step e = some t) :
    Calm v t ∧ t.left < s.left ∧ t.op.redos + t.redosLeft ≤ s.op.redos + s.redosLeft := by
  have hinv := h.inv.step hstep
  cases e with
  | net e => exact absurd he Bool.false_ne_true
  | next key => exact absurd he Bool.false_ne_true
  | send =>
      simp only [RedoNet.step, Net.step, Option.ite_none_right_eq_some, Option.bind_eq_some_iff,
        Option.map_eq_some_iff] at hstep
      obtain ⟨hstage, i, -, n, ⟨-, j, -, rfl⟩, rfl⟩ := hstep
      refine ⟨⟨hinv, h.idle, h.serving, h.pos, h.nonempty⟩, ?_, ?_⟩
      · by_cases hsame : s.op.slaves.version = s.net.slaves.version <;>
          simp [RedoNet.left, RedoNet.Stale, hstage, hsame]
      · simp [RedoNet.redosLeft, RedoNet.Stale, hstage]
  | reject =>
      simp only [RedoNet.step, Option.ite_none_right_eq_some] at hstep
      obtain ⟨⟨hreach, hversion⟩, heq⟩ := hstep
      obtain rfl := Option.some.inj heq
      have hdest := h.destVersion hreach
      have hstale : s.Stale := h.stale_iff.mpr (by rw [UInt32.lt_iff_toNat_lt] at hversion; omega)
      have hstage := hreach.1
      refine ⟨⟨hinv, h.idle, h.serving, h.pos, h.nonempty⟩, ?_, ?_⟩
      · simp [RedoNet.left, hstage, hstale, Operation.again]
      · simp [RedoNet.redosLeft, hstage, hstale, Operation.again]
  | accept =>
      simp only [RedoNet.step, Option.ite_none_right_eq_some] at hstep
      obtain ⟨⟨hreach, hversion⟩, heq⟩ := hstep
      obtain rfl := Option.some.inj heq
      have hdest := h.destVersion hreach
      have hcurrent : ¬ s.Stale := fun hstale => by
        have hlt := h.stale_iff.mp hstale
        rw [UInt32.lt_iff_toNat_lt] at hversion
        omega
      have hcurrent' : ¬ RedoNet.Stale ⟨s.net, { s.op with stage := .admitted }⟩ := hcurrent
      have hstage := hreach.1
      refine ⟨⟨hinv, h.idle, h.serving, h.pos, h.nonempty⟩, ?_, ?_⟩
      · simp [RedoNet.left, hstage, hcurrent, hcurrent']
      · simp [RedoNet.redosLeft, hcurrent']
  | reply =>
      simp only [RedoNet.step, Option.ite_none_right_eq_some] at hstep
      obtain ⟨⟨hstage, -⟩, heq⟩ := hstep
      obtain rfl := Option.some.inj heq
      refine ⟨⟨hinv, h.idle, h.serving, h.pos, h.nonempty⟩, ?_, ?_⟩
      · simp only [RedoNet.left, hstage]
        split <;> omega
      · simp [RedoNet.redosLeft]
  | hangUp =>
      simp only [RedoNet.step, Option.ite_none_right_eq_some] at hstep
      obtain ⟨⟨hstage, hhung⟩, heq⟩ := hstep
      obtain rfl := Option.some.inj heq
      obtain ⟨i, hi, hdest⟩ := h.inv.dest hstage
      rw [hdest] at hhung
      have hstale : s.Stale := h.stale_iff.mpr (h.inv.hung i hi hhung)
      refine ⟨⟨hinv, h.idle, h.serving, h.pos, h.nonempty⟩, ?_, ?_⟩
      · rcases hstage with hstage | hstage <;>
          simp [RedoNet.left, hstage, hstale, Operation.again]
      · rcases hstage with hstage | hstage <;>
          simp [RedoNet.redosLeft, hstage, hstale, Operation.again]
  | reopen =>
      simp only [RedoNet.step, Net.step, Option.ite_none_right_eq_some,
        Option.map_eq_some_iff] at hstep
      obtain ⟨hstage, n, ⟨-, heq⟩, rfl⟩ := hstep
      obtain rfl := Option.some.inj heq
      refine ⟨⟨hinv, h.idle, h.serving, h.pos, h.pos⟩, ?_, ?_⟩
      · simp [RedoNet.left, RedoNet.Stale, Operation.opened, hstage]
      · simp [RedoNet.redosLeft, RedoNet.Stale, Operation.opened, hstage]

/-- Some events of the operation, in any order in which they can happen. -/
theorem run (h : Calm v s) {own : List RedoEvent} (hown : ∀ e ∈ own, e.ofOperation = true)
    {t : RedoNet} (hrun : Run.run RedoNet.step s own = some t) :
    Calm v t ∧ own.length + t.left ≤ s.left ∧
      t.op.redos + t.redosLeft ≤ s.op.redos + s.redosLeft := by
  induction own generalizing s with
  | nil =>
      obtain rfl : s = t := Option.some.inj hrun
      exact ⟨h, by simp, Nat.le_refl _⟩
  | cons e own ih =>
      obtain ⟨u, hstep, hrest⟩ := run_cons_eq_some.mp hrun
      obtain ⟨he, hown⟩ := List.forall_mem_cons.mp hown
      obtain ⟨hcalm, hleft, hredos⟩ := h.step he hstep
      obtain ⟨hcalm', hleft', hredos'⟩ := ih hcalm hown hrest
      refine ⟨hcalm', ?_, hredos'.trans hredos⟩
      rw [List.length_cons]
      omega

end Calm

/-- **An operation is done after at most one more repetition**, in the system in which
reopening succeeds and connections end only with their processes.  In every state that it
reaches with the client, whatever stage the operation has and however old the
client's list is: if the master is idle, the slaves of its list serve and the lists are not
empty, then as long as the others rest at most six events of the operation follow, with at
most one repetition among them, and none of them is possible only when it is done. -/
theorem operation_completes (events : List NetEvent) (n : Net)
    (hrun : run Net.step Net.init events = some n) (htask : n.task = none) (key : dbKey)
    (redoEvents : List RedoEvent) (s : RedoNet)
    (hredo : run RedoNet.step (RedoNet.start n key) redoEvents = some s)
    (hidle : s.net.task = none) (hpos : 0 < s.net.slaves.num)
    (hserving : ∀ j, j < s.net.slaves.num → (s.net.procAt j).phase = .serving)
    (hlist : 0 < s.op.slaves.num) (own : List RedoEvent)
    (hown : ∀ e ∈ own, e.ofOperation = true) (t : RedoNet)
    (ht : run RedoNet.step s own = some t) :
    own.length ≤ 6 ∧ t.op.redos ≤ s.op.redos + 1 ∧
      (t.op.stage ≠ .done → ∃ e, e.ofOperation = true ∧ (t.step e).isSome) := by
  have hinv : n.NetInv :=
    run_invariant NetInv (fun _ _ _ h hstep => h.step hstep) hrun netInv_init
  have hs : RedoInv n.changes s :=
    run_invariant (RedoInv n.changes) (fun _ _ _ h hstep => h.step hstep) hredo
      (RedoInv.opened hinv htask _ (Nat.le_refl _))
  have hcalm : Calm n.changes s := ⟨hs, hidle, hserving, hpos, hlist⟩
  obtain ⟨hcalm', hlength, hredos⟩ := hcalm.run hown ht
  have hsix : s.left ≤ 6 := by
    unfold RedoNet.left
    split
    case h_1 | h_2 | h_3 => split <;> omega
    case h_4 | h_5 => omega
  have hone : s.redosLeft ≤ 1 := by
    unfold RedoNet.redosLeft
    split <;> omega
  exact ⟨by omega, by omega, hcalm'.exists_step⟩

/-- The client is one change behind when it begins. -/
theorem operation_completes_secondSlave :
    ∃ n s t, run Net.step Net.init firstSlave = some n ∧
      run RedoNet.step (RedoNet.start n 500) secondSlave = some s ∧
      run RedoNet.step s staleOperation = some t ∧ t.op.stage = .done ∧
      staleOperation.length ≤ 6 ∧ t.op.redos ≤ s.op.redos + 1 := by
  have hmap : ((run Net.step Net.init firstSlave).bind fun n =>
      (run RedoNet.step (RedoNet.start n 500) secondSlave).bind fun s =>
        (run RedoNet.step s staleOperation).map fun t =>
          (n.task, s.net.task, decide (0 < s.net.slaves.num),
            decide (∀ j, j < s.net.slaves.num → (s.net.procAt j).phase = .serving),
            decide (0 < s.op.slaves.num), t.op.stage)) =
      some (none, none, true, true, true, .done) := by
    decide +kernel
  obtain ⟨n, hrun, hmap⟩ := Option.bind_eq_some_iff.mp hmap
  obtain ⟨s, hredo, hmap⟩ := Option.bind_eq_some_iff.mp hmap
  obtain ⟨t, ht, hmap⟩ := Option.map_eq_some_iff.mp hmap
  simp only [Prod.mk.injEq, decide_eq_true_eq] at hmap
  obtain ⟨htask, hidle, hpos, hserving, hlist, hdone⟩ := hmap
  obtain ⟨hlength, hredos, -⟩ := operation_completes firstSlave n hrun htask 500 secondSlave s
    hredo hidle hpos hserving hlist staleOperation (List.all_eq_true.mp (by decide)) t ht
  exact ⟨n, s, t, hrun, hredo, ht, hdone, hlength, hredos⟩

end Completion

end DistributedDB
