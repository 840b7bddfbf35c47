import DistributedDB.Library.Run
import DistributedDB.Slave

/-!
# Registrations and departures, one after the other

The master and the slave processes at the other ends of its sockets, when each
`ADD_SLAVE` and `DEL_SLAVE` is handled to its end before the next.  The master
sends its notifications to the sockets in its own list, and takes the position of
a departing slave from that slave's message.

A slave's work on its files takes no part in this, so only the lists and positions
of the processes matter here.

**Results.**
* `Registry.Agrees`: the master's list and the lists and positions of the slaves.
* `Agrees.addSlave`, `Agrees.delSlave`: a request keeps the agreement, for every
  position of the change relative to every slave.
* `Registry.slaves_agree`: the agreement in every state of every run, and the index
  that a slave would send in `DEL_SLAVE`.
-/

namespace DistributedDB

open RingIndex Run

/-- The notifications of `NotifyAll`. -/
inductive Notice where
  | newSlave
  | rmSlave
deriving DecidableEq, Repr

/-- `HandleMasterRequest` on a notification, up to the reply. -/
def Slave.handleNotice (s : Slave) (cmd : Notice) (pos : Nat) (sn : SlaveNode) : Slave :=
  match cmd with
  | .newSlave => s.newSlave pos sn
  | .rmSlave => s.rmSlave pos

structure Registry where
  /-- The master's list. -/
  slaves : SlaveList
  /-- The slave process that is connected to a socket of the master. -/
  procs : Int → Slave

inductive MasterRequest where
  /-- `ADD_SLAVE` on a newly accepted socket; the packet carries the port. -/
  | addSlave (sock ip port : Int) (rand : Nat)
  /-- `DEL_SLAVE` of the slave at a socket; the packet carries the slave's position. -/
  | delSlave (sock : Int)
deriving DecidableEq, Repr

namespace Registry

/-- The master when it starts. -/
def init (procs : Int → Slave) : Registry where
  slaves := SlaveList.empty
  procs := procs

/-- The socket of node `i` in the master's list. -/
def sock (r : Registry) (i : Nat) : Int :=
  (r.slaves.node i).sock

def setProc (r : Registry) (sock : Int) (s : Slave) : Registry :=
  { r with procs := Function.update r.procs sock s }

/-- One iteration of the loop of `NotifyAll`, with the slave's handling. -/
def notify (pos : Nat) (cmd : Notice) (r : Registry) (i : Nat) : Registry :=
  if i = pos then r
  else r.setProc (r.sock i) ((r.procs (r.sock i)).handleNotice cmd pos (r.slaves.node pos))

def notifyAll (r : Registry) (pos : Nat) (cmd : Notice) : Registry :=
  (List.range r.slaves.num).foldl (notify pos cmd) r

/-- `ADD_SLAVE`, up to the new slave's `RegisterAndLoadSlaves`. -/
def addSlave (r : Registry) (sock ip port : Int) (rand : Nat) : Registry :=
  let a := addToSlaveList r.slaves ⟨ip, port, sock, 0⟩ rand
  let r := { r with slaves := a.1 }.notifyAll a.2 .newSlave
  r.setProc sock { r.procs sock with slaves := a.1, pos := a.2 }

/-- `DEL_SLAVE`. -/
def delSlave (r : Registry) (sock : Int) : Registry :=
  let key := (r.procs sock).pos
  let r := r.notifyAll key .rmSlave
  { r with slaves := delFromSlaveList r.slaves key }

/-- A slave is connected at the socket. -/
def Live (r : Registry) (sock : Int) : Prop :=
  ∃ i, i < r.slaves.num ∧ r.sock i = sock

instance (r : Registry) (sock : Int) : Decidable (r.Live sock) :=
  inferInstanceAs (Decidable (∃ i, i < r.slaves.num ∧ r.sock i = sock))

/-- One request.  A newly accepted socket is not one that is still open, and a list
has at most `MAX_SLAVE_NUM` nodes. -/
def step (r : Registry) : MasterRequest → Option Registry
  | .addSlave sock ip port rand =>
      if r.slaves.num < MAX_SLAVE_NUM ∧ ¬ r.Live sock then
        some (r.addSlave sock ip port rand)
      else none
  | .delSlave sock =>
      if r.Live sock then some (r.delSlave sock) else none

/-- What holds between two requests. -/
structure Agrees (r : Registry) : Prop where
  ring : RingInv r.slaves
  sock_inj : ∀ i j, i < r.slaves.num → j < r.slaves.num → r.sock i = r.sock j → i = j
  slaves_eq : ∀ i, i < r.slaves.num → (r.procs (r.sock i)).slaves = r.slaves
  pos_eq : ∀ i, i < r.slaves.num → (r.procs (r.sock i)).pos = i

theorem agrees_init (procs : Int → Slave) : (init procs).Agrees where
  ring := ringInv_empty
  sock_inj := fun i _ hi => absurd hi (Nat.not_lt_zero i)
  slaves_eq := fun i hi => absurd hi (Nat.not_lt_zero i)
  pos_eq := fun i hi => absurd hi (Nat.not_lt_zero i)

section Loop

variable {r : Registry}

theorem procs_setProc (a b : Int) (s : Slave) :
    (r.setProc a s).procs b = if b = a then s else r.procs b := by
  simp [setProc, Function.update_apply]

@[simp] theorem slaves_notify (pos : Nat) (cmd : Notice) (i : Nat) :
    (notify pos cmd r i).slaves = r.slaves := by
  unfold notify
  split <;> rfl

/-- The first `n` iterations of the loop of `NotifyAll`. -/
theorem notify_loop (pos : Nat) (cmd : Notice) {num : Nat}
    (hinj : ∀ i j, i < num → j < num → r.sock i = r.sock j → i = j)
    (n : Nat) (hn : n ≤ num) :
    ((List.range n).foldl (notify pos cmd) r).slaves = r.slaves ∧
      ∀ i, i < num → ((List.range n).foldl (notify pos cmd) r).procs (r.sock i) =
        if i < n ∧ i ≠ pos then
          (r.procs (r.sock i)).handleNotice cmd pos (r.slaves.node pos)
        else r.procs (r.sock i) := by
  induction n with
  | zero => exact ⟨rfl, fun i _ => by simp⟩
  | succ n ih =>
      obtain ⟨hslaves, hprocs⟩ := ih (by omega)
      simp only [List.range_succ, List.foldl_append, List.foldl_cons, List.foldl_nil]
      generalize (List.range n).foldl (notify pos cmd) r = before at hslaves hprocs
      refine ⟨by rw [slaves_notify, hslaves], fun i hi => ?_⟩
      have hsock : ∀ j, before.sock j = r.sock j := fun j => by rw [sock, hslaves, sock]
      rcases eq_or_ne n pos with rfl | hne
      · have hiff : (i < n + 1 ∧ i ≠ n) ↔ (i < n ∧ i ≠ n) := by omega
        rw [notify, if_pos rfl, hprocs i hi]
        simp only [hiff]
      · rw [notify, if_neg hne, procs_setProc, hsock, hslaves, hprocs n (by omega),
          hprocs i hi]
        rcases eq_or_ne i n with rfl | hin
        · rw [if_pos rfl, if_neg (by omega), if_pos ⟨by omega, hne⟩]
        · have hiff : (i < n + 1 ∧ i ≠ pos) ↔ (i < n ∧ i ≠ pos) := by omega
          rw [if_neg (fun heq => hin (hinj i n hi (by omega) heq))]
          simp only [hiff]

/-- `NotifyAll` reaches every slave but the one at `pos`, once. -/
theorem procs_notifyAll (pos : Nat) (cmd : Notice)
    (hinj : ∀ i j, i < r.slaves.num → j < r.slaves.num → r.sock i = r.sock j → i = j)
    {i : Nat} (hi : i < r.slaves.num) (hne : i ≠ pos) :
    (r.notifyAll pos cmd).procs (r.sock i) =
      (r.procs (r.sock i)).handleNotice cmd pos (r.slaves.node pos) := by
  rw [notifyAll, (notify_loop pos cmd hinj _ (Nat.le_refl _)).2 i hi, if_pos ⟨hi, hne⟩]

theorem slaves_notifyAll (pos : Nat) (cmd : Notice)
    (hinj : ∀ i j, i < r.slaves.num → j < r.slaves.num → r.sock i = r.sock j → i = j) :
    (r.notifyAll pos cmd).slaves = r.slaves :=
  (notify_loop pos cmd hinj _ (Nat.le_refl _)).1

end Loop

section Add

variable {r : Registry} (sock ip port : Int) (rand : Nat)

/-- The sockets in the list after a registration. -/
theorem sock_addToSlaveList (hring : RingInv r.slaves) (hmax : r.slaves.num < MAX_SLAVE_NUM)
    {j : Nat} (hj : j ≤ r.slaves.num) :
    ((addToSlaveList r.slaves ⟨ip, port, sock, 0⟩ rand).1.node j).sock =
      if j = (addToSlaveList r.slaves ⟨ip, port, sock, 0⟩ rand).2 then sock
      else r.sock (newIndex (addToSlaveList r.slaves ⟨ip, port, sock, 0⟩ rand).2 j) := by
  have hnew := (newpos_eq r.slaves hring ⟨ip, port, sock, 0⟩ rand hmax).1
  rw [addToSlaveList_eq_addNewSlave _ rand hmax hring.find_lt, node_addNewSlave _ hnew hmax hj]
  rcases Nat.lt_trichotomy j (addToSlaveList r.slaves ⟨ip, port, sock, 0⟩ rand).2
    with hlt | heq | hgt
  · rw [if_pos hlt, if_neg (by omega), newIndex, if_neg (by omega)]
    rfl
  · rw [if_neg (by omega), if_pos heq, if_pos heq]
    exact newNode_sock _ rand hmax hring.find_lt
  · rw [if_neg (by omega), if_neg (by omega), if_neg (by omega), newIndex, if_pos hgt]
    rfl

/-- The sockets in the list after a registration are again distinct. -/
theorem Agrees.sock_inj_addToSlaveList (h : r.Agrees) (hmax : r.slaves.num < MAX_SLAVE_NUM)
    (hfresh : ¬ r.Live sock) (i j : Nat)
    (hi : i < (addToSlaveList r.slaves ⟨ip, port, sock, 0⟩ rand).1.num)
    (hj : j < (addToSlaveList r.slaves ⟨ip, port, sock, 0⟩ rand).1.num)
    (heq : ((addToSlaveList r.slaves ⟨ip, port, sock, 0⟩ rand).1.node i).sock =
      ((addToSlaveList r.slaves ⟨ip, port, sock, 0⟩ rand).1.node j).sock) :
    i = j := by
  rw [num_addToSlaveList] at hi hj
  have hi := Nat.le_of_lt_succ hi
  have hj := Nat.le_of_lt_succ hj
  have hnew := (newpos_eq r.slaves h.ring ⟨ip, port, sock, 0⟩ rand hmax).1
  have hold : ∀ i, i < r.slaves.num → r.sock i ≠ sock :=
    fun i hi heq => hfresh ⟨i, hi, heq⟩
  rw [sock_addToSlaveList sock ip port rand h.ring hmax hi,
    sock_addToSlaveList sock ip port rand h.ring hmax hj] at heq
  generalize (addToSlaveList r.slaves ⟨ip, port, sock, 0⟩ rand).2 = newpos at hnew heq
  rcases eq_or_ne i newpos with hin | hin <;> rcases eq_or_ne j newpos with hjn | hjn
  · omega
  · rw [if_pos hin, if_neg hjn] at heq
    exact absurd heq.symm (hold _ (newIndex_lt hnew hj hjn))
  · rw [if_neg hin, if_pos hjn] at heq
    exact absurd heq (hold _ (newIndex_lt hnew hi hin))
  · rw [if_neg hin, if_neg hjn] at heq
    exact newIndex_inj hin hjn
      (h.sock_inj _ _ (newIndex_lt hnew hi hin) (newIndex_lt hnew hj hjn) heq)

theorem Agrees.slaves_addSlave (h : r.Agrees) (hmax : r.slaves.num < MAX_SLAVE_NUM)
    (hfresh : ¬ r.Live sock) :
    (r.addSlave sock ip port rand).slaves =
      (addToSlaveList r.slaves ⟨ip, port, sock, 0⟩ rand).1 := by
  exact slaves_notifyAll (r := { r with slaves := _ }) _ .newSlave
    (h.sock_inj_addToSlaveList sock ip port rand hmax hfresh)

/-- Every process after a registration: the new slave has loaded the list, the others
have replayed the change. -/
theorem Agrees.procs_addSlave (h : r.Agrees) (hmax : r.slaves.num < MAX_SLAVE_NUM)
    (hfresh : ¬ r.Live sock) {j : Nat} (hj : j ≤ r.slaves.num) :
    ((r.addSlave sock ip port rand).procs ((r.addSlave sock ip port rand).sock j)).slaves =
        (r.addSlave sock ip port rand).slaves ∧
      ((r.addSlave sock ip port rand).procs ((r.addSlave sock ip port rand).sock j)).pos =
        j := by
  have hslaves := h.slaves_addSlave sock ip port rand hmax hfresh
  have hinj := h.sock_inj_addToSlaveList sock ip port rand hmax hfresh
  have hsock := sock_addToSlaveList sock ip port rand h.ring hmax hj
  have hnew := (newpos_eq r.slaves h.ring ⟨ip, port, sock, 0⟩ rand hmax).1
  have hnum := num_addToSlaveList r.slaves ⟨ip, port, sock, 0⟩ rand
  have hlist := addToSlaveList_eq_addNewSlave ⟨ip, port, sock, 0⟩ rand hmax h.ring.find_lt
  simp only [Registry.sock, hslaves]
  simp only [Registry.addSlave]
  unfold newNode at hlist
  generalize addToSlaveList r.slaves ⟨ip, port, sock, 0⟩ rand = a at *
  rw [procs_setProc]
  rcases eq_or_ne j a.2 with heq | hne
  · rw [if_pos (by rw [hsock, if_pos heq])]
    exact ⟨rfl, heq.symm⟩
  · rw [if_neg hne] at hsock
    have hlt := newIndex_lt hnew hj hne
    have hloop := procs_notifyAll (r := { r with slaves := a.1 }) a.2 .newSlave hinj
      (show j < a.1.num by omega) hne
    simp only [Registry.sock] at hloop
    have hlist_old := h.slaves_eq _ hlt
    have hpos_old := h.pos_eq _ hlt
    rw [if_neg (by rw [hsock]; exact fun heq => hfresh ⟨_, hlt, heq⟩), hloop, hsock,
      Slave.handleNotice, newSlave_eq (by rw [hlist_old, hpos_old]; exact hlt), hlist_old,
      hpos_old, oldIndex_newIndex hne]
    exact ⟨hlist.symm, rfl⟩

/-- A registration keeps the agreement. -/
theorem Agrees.addSlave (h : r.Agrees) (hmax : r.slaves.num < MAX_SLAVE_NUM)
    (hfresh : ¬ r.Live sock) : (r.addSlave sock ip port rand).Agrees := by
  have hslaves := h.slaves_addSlave sock ip port rand hmax hfresh
  have hnum : (r.addSlave sock ip port rand).slaves.num = r.slaves.num + 1 := by
    rw [hslaves, num_addToSlaveList]
  constructor
  case ring =>
    rw [hslaves]
    exact h.ring.of_addToSlaveList hmax _ rand
  case sock_inj =>
    intro i j hi hj heq
    simp only [Registry.sock, hslaves] at heq
    rw [hslaves] at hi hj
    exact h.sock_inj_addToSlaveList sock ip port rand hmax hfresh i j hi hj heq
  case slaves_eq =>
    exact fun i hi => (h.procs_addSlave sock ip port rand hmax hfresh (by omega)).1
  case pos_eq =>
    exact fun i hi => (h.procs_addSlave sock ip port rand hmax hfresh (by omega)).2

end Add

section Del

variable {r : Registry}

/-- The sockets in the list after a departure. -/
theorem sock_delFromSlaveList (hring : RingInv r.slaves) {pos : Nat}
    (hpos : pos < r.slaves.num) {j : Nat} (hj : j + 1 < r.slaves.num) :
    ((delFromSlaveList r.slaves pos).node j).sock = r.sock (oldIndex pos j) := by
  rw [delFromSlaveList_eq_removeSlave, node_removeSlave hpos hring.num_le hj, oldIndex]
  split <;> rfl

/-- A departure keeps the agreement. -/
theorem Agrees.delSlave (h : r.Agrees) {pos : Nat} (hpos : pos < r.slaves.num) :
    (r.delSlave (r.sock pos)).Agrees := by
  have hslaves : (r.delSlave (r.sock pos)).slaves = delFromSlaveList r.slaves pos := by
    simp only [Registry.delSlave, h.pos_eq pos hpos,
      slaves_notifyAll pos .rmSlave h.sock_inj]
  have hsock : ∀ j, j + 1 < r.slaves.num →
      (r.delSlave (r.sock pos)).sock j = r.sock (oldIndex pos j) := by
    intro j hj
    rw [Registry.sock, hslaves, sock_delFromSlaveList h.ring hpos hj]
  have hnum : (r.delSlave (r.sock pos)).slaves.num = r.slaves.num - 1 := by
    rw [hslaves]
    rfl
  -- every survivor has replayed the removal
  have hproc : ∀ j, j + 1 < r.slaves.num →
      (r.delSlave (r.sock pos)).procs (r.sock (oldIndex pos j)) =
        { slaves := removeSlave r.slaves pos
          pos := j
          disk := (r.procs (r.sock (oldIndex pos j))).disk } := by
    intro j hj
    have hlt := oldIndex_lt (r := pos) hj
    have hlist_old := h.slaves_eq _ hlt
    have hpos_old := h.pos_eq _ hlt
    have hloop := procs_notifyAll pos .rmSlave h.sock_inj hlt (oldIndex_ne pos j)
    simp only [Registry.delSlave, h.pos_eq pos hpos]
    rw [hloop, Slave.handleNotice, rmSlave_eq (by rw [hlist_old, hpos_old]; exact hlt),
      hlist_old, hpos_old, newIndex_oldIndex]
  constructor
  case ring =>
    rw [hslaves, delFromSlaveList_eq_removeSlave]
    exact h.ring.of_removeSlave hpos
  case sock_inj =>
    intro i j hi hj heq
    rw [hsock i (by omega), hsock j (by omega)] at heq
    exact oldIndex_inj (h.sock_inj _ _ (oldIndex_lt (by omega)) (oldIndex_lt (by omega)) heq)
  case slaves_eq =>
    intro j hj
    rw [hsock j (by omega), hproc j (by omega), hslaves]
    rfl
  case pos_eq =>
    intro j hj
    rw [hsock j (by omega), hproc j (by omega)]

end Del

theorem Agrees.step {r r' : Registry} (h : r.Agrees) {request : MasterRequest}
    (hstep : r.step request = some r') : r'.Agrees := by
  cases request with
  | addSlave sock ip port rand =>
      simp only [Registry.step, Option.ite_none_right_eq_some] at hstep
      obtain ⟨⟨hmax, hfresh⟩, hstep⟩ := hstep
      obtain rfl := Option.some.inj hstep
      exact h.addSlave sock ip port rand hmax hfresh
  | delSlave sock =>
      simp only [Registry.step, Option.ite_none_right_eq_some] at hstep
      obtain ⟨⟨pos, hpos, rfl⟩, hstep⟩ := hstep
      obtain rfl := Option.some.inj hstep
      exact h.delSlave hpos

/-- **Master and slaves agree on the list.**  After every sequence of registrations and
departures, a connected slave has the master's version, number and nodes, its position
is the one index of its own node, and that is the index it would send in `DEL_SLAVE`. -/
theorem slaves_agree (procs : Int → Slave) (requests : List MasterRequest) (r : Registry)
    (hrun : run step (init procs) requests = some r) (sock : Int) (hlive : r.Live sock) :
    (r.procs sock).slaves.version = r.slaves.version ∧
      (r.procs sock).slaves.num = r.slaves.num ∧
      (∀ j, j < r.slaves.num → (r.procs sock).slaves.node j = r.slaves.node j) ∧
      (r.procs sock).pos < r.slaves.num ∧
      (∀ i, i < r.slaves.num → (r.sock i = sock ↔ i = (r.procs sock).pos)) := by
  have h : r.Agrees :=
    run_invariant Agrees (fun _ _ _ h hstep => h.step hstep) hrun (agrees_init procs)
  obtain ⟨i, hi, rfl⟩ := hlive
  rw [h.slaves_eq i hi, h.pos_eq i hi]
  refine ⟨rfl, rfl, fun j _ => rfl, hi, fun j hj => ?_⟩
  exact ⟨h.sock_inj j i hj hi, fun heq => congrArg r.sock heq⟩

/-- Three registrations, the departure of the first slave, a registration on the socket
that it has left, and another departure. -/
def sampleRequests : List MasterRequest :=
  [.addSlave 5 0 1 7, .addSlave 6 0 2 0, .addSlave 7 0 3 0, .delSlave 5,
    .addSlave 5 0 4 0, .delSlave 7]

theorem slaves_agree_sampleRequests :
    ∃ r, run step (init fun _ =>
      ⟨SlaveList.empty, 0, ⟨∅, none, none, none⟩⟩) sampleRequests =
        some r ∧
      (r.procs 5).slaves.version = r.slaves.version ∧
      (r.procs 5).slaves.num = r.slaves.num ∧
      ∀ i, i < r.slaves.num → (r.sock i = 5 ↔ i = (r.procs 5).pos) := by
  have hmap : (run step (init fun _ => ⟨SlaveList.empty, 0, ⟨∅, none, none, none⟩⟩)
      sampleRequests).map (fun r => decide (r.Live 5)) = some true := by
    decide +kernel
  obtain ⟨r, hrun, hmap⟩ := Option.map_eq_some_iff.mp hmap
  have hlive := of_decide_eq_true hmap
  obtain ⟨hversion, hnum, _, _, hpos⟩ := slaves_agree _ sampleRequests r hrun 5 hlive
  exact ⟨r, hrun, hversion, hnum, hpos⟩

end Registry

end DistributedDB
