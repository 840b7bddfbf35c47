import DistributedDB.ListBounds

/-!
# The divisor `slaves.num`

The evaluations of `% slaves.num` in the master and in the slaves that it notifies, when
each `ADD_SLAVE` and `DEL_SLAVE` is handled to its end before the next.  A SIGALRM may come
at any time, and a registered slave may call `CommunicateToSlave` or serve another slave
at any time.  A list has at most `MAX_SLAVE_NUM` nodes.

**Results.**
* `Division.step`: the requests, the signals and the work of the slaves, with the divisors
  that are evaluated.
* `Division.divisors_ne_zero_iff`: no divisor is zero if and only if there is a slave at
  every SIGALRM.
-/

namespace DistributedDB

open RingIndex Run

/-- `AddToSlaveList`, with `FindLongestSection` and `GetLength`. -/
def addToSlaveListDivisors (slaves : SlaveList) : List Nat :=
  if slaves.num = 0 then [] else List.replicate (slaves.num + 1) slaves.num

/-- `CommunicateToSlave`. -/
def communicateDivisors (s : Slave) : List Nat :=
  [s.slaves.num]

/-- `HandleMasterRequest` on `NEW_SLAVE`. -/
def newSlaveDivisors (s : Slave) (key : Nat) (sn : SlaveNode) : List Nat :=
  if key ≤ s.pos then [(s.newSlave key sn).slaves.num] else []

/-- `HandleMasterRequest` on `RM_SLAVE`, with the backup for another slave. -/
def rmSlaveDivisors (s : Slave) (rmpos : Nat) : List Nat :=
  let num := (s.rmSlave rmpos).slaves.num
  (if rmpos < s.pos then [num] else []) ++
    if (s.rmSlave rmpos).isPredecessor rmpos then
      num :: communicateDivisors (s.rmSlave rmpos)
    else if (s.rmSlave rmpos).isSecondPredecessor rmpos then
      num :: num :: communicateDivisors (s.rmSlave rmpos)
    else [num, num]

/-- A slave's handling of a notification. -/
def noticeDivisors (s : Slave) (cmd : Notice) (pos : Nat) (sn : SlaveNode) : List Nat :=
  match cmd with
  | .newSlave => newSlaveDivisors s pos sn
  | .rmSlave => rmSlaveDivisors s pos

/-- What a slave does besides handling notifications. -/
inductive SlaveWork where
  /-- `CommunicateToSlave`: in `InitialSlave` and for `UPDATE_BACKUP12`. -/
  | communicate
  /-- `HandleSlaveRequest` on `CLIP_DATA`. -/
  | clipData
  /-- `HandleSlaveRequest` on `UPDATE_BACKUP2`. -/
  | updateBackup2
deriving DecidableEq, Repr

def workDivisors (s : Slave) : SlaveWork → List Nat
  | .communicate => communicateDivisors s
  | .clipData | .updateBackup2 => [s.slaves.num, s.slaves.num]

/-- `NotifyAll`, with the handling of the slaves. -/
def Registry.notifyAllDivisors (r : Registry) (pos : Nat) (cmd : Notice) : List Nat :=
  (List.range r.slaves.num).flatMap fun i =>
    if i = pos then [] else noticeDivisors (r.notified pos cmd i) cmd pos (r.slaves.node pos)

/-- `HandleRequest`. -/
def Registry.requestDivisors (r : Registry) : MasterRequest → List Nat
  | .addSlave sock ip port rand =>
      let a := addToSlaveList r.slaves ⟨ip, port, sock, 0⟩ rand
      addToSlaveListDivisors r.slaves ++
        { r with slaves := a.1 }.notifyAllDivisors a.2 .newSlave
  | .delSlave sock => r.notifyAllDivisors (r.procs sock).pos .rmSlave

/-- The master, its slaves and the divisors that they have evaluated. -/
structure Division where
  registry : Registry
  /-- The master has not been killed by SIGFPE. -/
  running : Bool
  divisors : List Nat

inductive DivisionEvent where
  | request (request : MasterRequest)
  /-- The master's SIGALRM. -/
  | tick
  | work (sock : Int) (work : SlaveWork)
deriving DecidableEq, Repr

namespace Division

def init (procs : Int → Slave) : Division where
  registry := .init procs
  running := true
  divisors := []

/-- `UpdateBackup`. -/
def updateBackup (s : Division) : Division :=
  { s with
    running := s.registry.slaves.num ≠ 0
    divisors := s.divisors ++ [s.registry.slaves.num] }

/-- One step of the master or of a slave; `none` when the event cannot happen. -/
def step (s : Division) : DivisionEvent → Option Division
  | .request request =>
      if s.running then
        (s.registry.step request).map fun r =>
          { s with registry := r, divisors := s.divisors ++ s.registry.requestDivisors request }
      else none
  | .tick => if s.running then some s.updateBackup else none
  | .work sock work =>
      if s.registry.Live sock then
        some { s with divisors := s.divisors ++ workDivisors (s.registry.procs sock) work }
      else none

/-- The condition on a step: at a SIGALRM there is a slave. -/
def HasSlave (s : Division) : DivisionEvent → Prop
  | .tick => 0 < s.registry.slaves.num
  | .request _ | .work _ _ => True

instance (s : Division) (e : DivisionEvent) : Decidable (s.HasSlave e) :=
  match e with
  | .tick => inferInstanceAs (Decidable (0 < s.registry.slaves.num))
  | .request _ | .work _ _ => isTrue trivial

section Slaves

variable {s : Slave} {d : Nat}

theorem ne_zero_of_mem_addToSlaveListDivisors {slaves : SlaveList}
    (h : d ∈ addToSlaveListDivisors slaves) : d ≠ 0 := by
  unfold addToSlaveListDivisors at h
  split at h
  case isTrue => cases h
  case isFalse hnum => rwa [List.eq_of_mem_replicate h]

theorem ne_zero_of_mem_newSlaveDivisors {key : Nat} {sn : SlaveNode}
    (h : d ∈ newSlaveDivisors s key sn) : d ≠ 0 := by
  unfold newSlaveDivisors at h
  split at h
  case isTrue =>
      rw [List.mem_singleton.mp h]
      exact Nat.succ_ne_zero _
  case isFalse => cases h

/-- A slave that is told of a removal stays in its own list. -/
theorem ne_zero_of_mem_rmSlaveDivisors {rmpos : Nat} (hnum : 1 < s.slaves.num)
    (h : d ∈ rmSlaveDivisors s rmpos) : d ≠ 0 := by
  have hleft : (s.rmSlave rmpos).slaves.num ≠ 0 := by
    simp only [Slave.rmSlave, num_removeSlave]
    omega
  have hall : ∀ d ∈ rmSlaveDivisors s rmpos, d = (s.rmSlave rmpos).slaves.num := by
    intro d hd
    simp only [rmSlaveDivisors, communicateDivisors] at hd
    rcases List.mem_append.mp hd with hmove | htest
    · split at hmove
      case isTrue => exact List.mem_singleton.mp hmove
      case isFalse => cases hmove
    · split at htest
      case isTrue => simpa using htest
      case isFalse =>
          split at htest
          case isTrue => simpa using htest
          case isFalse => simpa using htest
  rwa [hall d h]

theorem ne_zero_of_mem_workDivisors {work : SlaveWork} (hnum : 0 < s.slaves.num)
    (h : d ∈ workDivisors s work) : d ≠ 0 := by
  have hall : d = s.slaves.num := by
    cases work with
    | communicate => exact List.mem_singleton.mp h
    | clipData => simpa [workDivisors] using h
    | updateBackup2 => simpa [workDivisors] using h
  omega

end Slaves

section Requests

variable {r : Registry} {d : Nat}

/-- The divisors of a round are those of the slaves in their own lists. -/
theorem ne_zero_of_mem_notifyAllDivisors {pos : Nat} {cmd : Notice}
    (hinj : ∀ i j, i < r.slaves.num → j < r.slaves.num → r.sock i = r.sock j → i = j)
    (hslaves : ∀ j, j < r.slaves.num → j ≠ pos →
      ∀ d ∈ noticeDivisors (r.procs (r.sock j)) cmd pos (r.slaves.node pos), d ≠ 0)
    (h : d ∈ r.notifyAllDivisors pos cmd) : d ≠ 0 := by
  obtain ⟨j, hj, hd⟩ := List.mem_flatMap.mp h
  have hj := List.mem_range.mp hj
  split at hd
  case isTrue => cases hd
  case isFalse hne =>
      rw [r.notified_eq pos cmd hinj hj] at hd
      exact hslaves j hj hne d hd

/-- A request divides by no zero. -/
theorem ne_zero_of_mem_requestDivisors (hagrees : r.Agrees) {request : MasterRequest}
    {r' : Registry} (hstep : r.step request = some r')
    (h : d ∈ r.requestDivisors request) : d ≠ 0 := by
  cases request with
  | addSlave sock ip port rand =>
      simp only [Registry.step, Option.ite_none_right_eq_some] at hstep
      obtain ⟨⟨hroom, hfresh⟩, -⟩ := hstep
      rcases List.mem_append.mp h with hmaster | hround
      · exact ne_zero_of_mem_addToSlaveListDivisors hmaster
      · have hinj := hagrees.sock_inj_addToSlaveList sock ip port rand hroom hfresh
        refine ne_zero_of_mem_notifyAllDivisors (r := { r with slaves := _ }) hinj ?_ hround
        exact fun j _ _ d hd => ne_zero_of_mem_newSlaveDivisors hd
  | delSlave sock =>
      simp only [Registry.step, Option.ite_none_right_eq_some] at hstep
      obtain ⟨⟨pos, hpos, rfl⟩, -⟩ := hstep
      simp only [Registry.requestDivisors, hagrees.pos_eq pos hpos] at h
      refine ne_zero_of_mem_notifyAllDivisors hagrees.sock_inj ?_ h
      intro j hj hne d hd
      refine ne_zero_of_mem_rmSlaveDivisors ?_ hd
      rw [hagrees.slaves_eq j hj]
      omega

end Requests

/-- No divisor was zero. -/
def DividesByNoZero (s : Division) : Prop :=
  ∀ d ∈ s.divisors, d ≠ 0

section Steps

variable {s s' : Division} {e : DivisionEvent}

theorem registry_step (hstep : s.step e = some s') :
    s'.registry = s.registry ∨ ∃ request, s.registry.step request = some s'.registry := by
  cases e with
  | request request =>
      simp only [step, Option.ite_none_right_eq_some] at hstep
      obtain ⟨r, hr, rfl⟩ := Option.map_eq_some_iff.mp hstep.2
      exact Or.inr ⟨request, hr⟩
  | tick =>
      simp only [step, Option.ite_none_right_eq_some] at hstep
      obtain rfl := Option.some.inj hstep.2
      exact Or.inl rfl
  | work sock work =>
      simp only [step, Option.ite_none_right_eq_some] at hstep
      obtain rfl := Option.some.inj hstep.2
      exact Or.inl rfl

/-- The divisors of a step are zero exactly at a SIGALRM without slaves. -/
theorem divisors_step (hstep : s.step e = some s') :
    ∃ ds, s'.divisors = s.divisors ++ ds ∧
      (s.registry.Agrees → ((∀ d ∈ ds, d ≠ 0) ↔ s.HasSlave e)) := by
  cases e with
  | request request =>
      simp only [step, Option.ite_none_right_eq_some] at hstep
      obtain ⟨r, hr, rfl⟩ := Option.map_eq_some_iff.mp hstep.2
      refine ⟨_, rfl, fun hagrees => iff_of_true ?_ trivial⟩
      exact fun d hd => ne_zero_of_mem_requestDivisors hagrees hr hd
  | tick =>
      simp only [step, Option.ite_none_right_eq_some] at hstep
      obtain rfl := Option.some.inj hstep.2
      refine ⟨_, rfl, fun _ => ?_⟩
      rw [List.forall_mem_singleton]
      exact Nat.pos_iff_ne_zero.symm
  | work sock work =>
      simp only [step, Option.ite_none_right_eq_some] at hstep
      obtain ⟨⟨j, hj, rfl⟩, hstep⟩ := hstep
      obtain rfl := Option.some.inj hstep
      refine ⟨_, rfl, fun hagrees => iff_of_true (fun d hd => ?_) trivial⟩
      refine ne_zero_of_mem_workDivisors ?_ hd
      rw [hagrees.slaves_eq j hj]
      omega

theorem agrees_step (hagrees : s.registry.Agrees) (hstep : s.step e = some s') :
    s'.registry.Agrees := by
  rcases registry_step hstep with heq | ⟨request, hr⟩
  · rwa [heq]
  · exact hagrees.step hr

end Steps

/-- **No division by zero, exactly when there is a slave at every SIGALRM**: in every run of
the master and its slaves, each evaluation of `% slaves.num` has a divisor other than zero
if and only if the master has a slave whenever a SIGALRM comes. -/
theorem divisors_ne_zero_iff (procs : Int → Slave) (events : List DivisionEvent) (s : Division)
    (hrun : run step (init procs) events = some s) :
    s.DividesByNoZero ↔ allSteps step HasSlave (init procs) events := by
  refine run_iff_allSteps HasSlave DividesByNoZero (fun s => s.registry.Agrees) ?_ ?_ ?_ hrun
    nofun (Registry.agrees_init procs)
  · intro s e t hstep ht d hd
    obtain ⟨ds, hds, -⟩ := divisors_step hstep
    exact ht d (hds ▸ List.mem_append_left ds hd)
  · intro s e t hs hagrees hstep
    obtain ⟨ds, hds, hiff⟩ := divisors_step hstep
    rw [DividesByNoZero, hds, List.forall_mem_append, hiff hagrees]
    exact and_iff_right hs
  · exact fun s e t hagrees _ hstep => agrees_step hagrees hstep

/-- Slaves register and leave, with signals while there is one. -/
def ticksBetween : List DivisionEvent :=
  [.request (.addSlave 5 0 1 7), .tick, .request (.addSlave 6 0 2 0), .work 6 .communicate,
    .tick, .work 6 .communicate, .request (.delSlave 5), .tick, .request (.delSlave 6)]

theorem divisors_ne_zero_ticksBetween :
    ∃ s, run step (init fun _ =>
      ⟨SlaveList.empty, 0, ⟨∅, none, none, none⟩⟩) ticksBetween =
        some s ∧ s.divisors.length = 10 ∧ s.DividesByNoZero := by
  have hmap : (run step (init fun _ => ⟨SlaveList.empty, 0, ⟨∅, none, none, none⟩⟩)
      ticksBetween).map (fun s => s.divisors.length) = some 10 := by
    decide +kernel
  obtain ⟨s, hrun, hmap⟩ := Option.map_eq_some_iff.mp hmap
  exact ⟨s, hrun, hmap,
    (divisors_ne_zero_iff _ ticksBetween s hrun).mpr (by decide +kernel)⟩

/-- The master's first signal comes before a slave has registered. -/
theorem first_tick_divides_by_zero :
    ∃ s, run step (init fun _ => ⟨SlaveList.empty, 0, ⟨∅, none, none, none⟩⟩) [.tick] =
        some s ∧ s.running = false ∧ ¬ s.DividesByNoZero := by
  refine ⟨_, rfl, rfl, fun hall => ?_⟩
  exact hall 0 List.mem_cons_self rfl

end Division

end DistributedDB
