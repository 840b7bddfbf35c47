import DistributedDB.Membership

/-!
# The bounds of the list array

The indices of `slaves.nodes` that the master and the slaves it notifies read or write,
when each `ADD_SLAVE` and `DEL_SLAVE` is handled to its end before the next.  Neither side
compares the number of slaves with `MAX_SLAVE_NUM`.

**Results.**
* `ListAccess.step`: a request, with the indices that it uses.
* `ListAccess.in_bounds_iff`: every index is in the array and every number of slaves at
  most `MAX_SLAVE_NUM` if and only if each registration finds fewer slaves.
-/

namespace DistributedDB

open RingIndex Run

/-- `GetLength`. -/
def getLengthIndices (num pos : Int) : List Int :=
  [(pos + 1).tmod num, pos]

/-- The loop `for (i=num-1; i>=first; i--)` with `nodes[i+1] = nodes[i]`. -/
def shiftUpIndices (num first : Nat) : List Int :=
  (List.range' first (num - first)).reverse.flatMap fun i : Nat => [(i : Int), i + 1]

/-- The loop `for (i=pos; i<num-1; i++)` with `nodes[i] = nodes[i+1]`. -/
def shiftDownIndices (num pos : Nat) : List Int :=
  (List.range' pos (num - 1 - pos)).flatMap fun i : Nat => [(i : Int) + 1, i]

/-- `AddToSlaveList`. -/
def addToSlaveListIndices (slaves : SlaveList) : List Int :=
  if slaves.num = 0 then [0]
  else
    let pos := findLongestSection slaves
    (List.range slaves.num).flatMap (fun i : Nat => getLengthIndices slaves.num i) ++
      shiftUpIndices slaves.num (pos + 1).toNat ++
      getLengthIndices slaves.num pos ++ [pos, pos + 1]

/-- `DelFromSlaveList`. -/
def delFromSlaveListIndices (slaves : SlaveList) (pos : Nat) : List Int :=
  shiftDownIndices slaves.num pos

/-- `AddNewSlave`. -/
def addNewSlaveIndices (slaves : SlaveList) (pos : Nat) : List Int :=
  shiftUpIndices slaves.num pos ++ [(pos : Int)]

/-- `RemoveSlave`. -/
def removeSlaveIndices (slaves : SlaveList) (pos : Nat) : List Int :=
  shiftDownIndices slaves.num pos

/-- A slave's handling of a notification. -/
def noticeIndices (slaves : SlaveList) (cmd : Notice) (pos : Nat) : List Int :=
  match cmd with
  | .newSlave => addNewSlaveIndices slaves pos
  | .rmSlave => removeSlaveIndices slaves pos

namespace Registry

/-- The slave to which the loop of `NotifyAll` sends at index `i`, when it receives. -/
def notified (r : Registry) (pos : Nat) (cmd : Notice) (i : Nat) : Slave :=
  ((List.range i).foldl (notify pos cmd) r).procs (r.sock i)

/-- `NotifyAll`, with the handling of the slaves. -/
def notifyAllIndices (r : Registry) (pos : Nat) (cmd : Notice) : List Int :=
  (pos : Int) :: (List.range r.slaves.num).flatMap fun i : Nat =>
    if i = pos then [] else (i : Int) :: noticeIndices (r.notified pos cmd i).slaves cmd pos

/-- The numbers of slaves in the lists of the slaves that are notified. -/
def notifiedNums (r : Registry) (pos : Nat) (cmd : Notice) : List Nat :=
  ((List.range r.slaves.num).filter (· ≠ pos)).map fun i =>
    ((r.notified pos cmd i).handleNotice cmd pos (r.slaves.node pos)).slaves.num

/-- A slave finds itself where `NotifyAll` has not been yet. -/
theorem notified_eq {r : Registry} (pos : Nat) (cmd : Notice)
    (hinj : ∀ i j, i < r.slaves.num → j < r.slaves.num → r.sock i = r.sock j → i = j)
    {i : Nat} (hi : i < r.slaves.num) : r.notified pos cmd i = r.procs (r.sock i) := by
  rw [notified, (notify_loop pos cmd hinj i hi.le).2 i hi, if_neg (by omega)]

end Registry

/-- The master, its slaves and the indices that they have used. -/
structure ListAccess where
  registry : Registry
  indices : List Int
  /-- The numbers of slaves in all lists. -/
  nums : List Nat

namespace ListAccess

def init (procs : Int → Slave) : ListAccess where
  registry := .init procs
  indices := []
  nums := [0]

/-- `ADD_SLAVE`; the new slave receives the master's list. -/
def addSlave (s : ListAccess) (sock ip port : Int) (rand : Nat) : ListAccess :=
  let a := addToSlaveList s.registry.slaves ⟨ip, port, sock, 0⟩ rand
  let r := { s.registry with slaves := a.1 }
  { registry := s.registry.addSlave sock ip port rand
    indices := s.indices ++ addToSlaveListIndices s.registry.slaves ++
      r.notifyAllIndices a.2 .newSlave
    nums := s.nums ++ r.notifiedNums a.2 .newSlave ++ [a.1.num] }

/-- `DEL_SLAVE`, with the position that the departing slave sends. -/
def delSlave (s : ListAccess) (sock : Int) : ListAccess :=
  let key := (s.registry.procs sock).pos
  { registry := s.registry.delSlave sock
    indices := s.indices ++ s.registry.notifyAllIndices key .rmSlave ++
      delFromSlaveListIndices (s.registry.notifyAll key .rmSlave).slaves key
    nums := s.nums ++ s.registry.notifiedNums key .rmSlave ++
      [(s.registry.delSlave sock).slaves.num] }

/-- One request.  The number of slaves is not looked at. -/
def step (s : ListAccess) : MasterRequest → Option ListAccess
  | .addSlave sock ip port rand =>
      if s.registry.Live sock then none else some (s.addSlave sock ip port rand)
  | .delSlave sock => if s.registry.Live sock then some (s.delSlave sock) else none

/-- Every index is in the array, and no list has more slaves than fit. -/
structure InBounds (s : ListAccess) : Prop where
  indices : ∀ i ∈ s.indices, 0 ≤ i ∧ i < MAX_SLAVE_NUM
  nums : ∀ n ∈ s.nums, n ≤ MAX_SLAVE_NUM

/-- The condition on a request: a registration finds room. -/
def HasRoom (s : ListAccess) : MasterRequest → Prop
  | .addSlave _ _ _ _ => s.registry.slaves.num < MAX_SLAVE_NUM
  | .delSlave _ => True

instance (s : ListAccess) (e : MasterRequest) : Decidable (s.HasRoom e) :=
  match e with
  | .addSlave _ _ _ _ => inferInstanceAs (Decidable (s.registry.slaves.num < MAX_SLAVE_NUM))
  | .delSlave _ => isTrue trivial

section Indices

variable {slaves : SlaveList} {num pos : Nat} {i : Int}

theorem of_mem_shiftUpIndices (h : i ∈ shiftUpIndices num pos) : 0 ≤ i ∧ i ≤ num := by
  simp only [shiftUpIndices, List.mem_flatMap, List.mem_reverse, List.mem_range'_1,
    List.mem_cons, List.not_mem_nil, or_false] at h
  omega

theorem of_mem_shiftDownIndices (h : i ∈ shiftDownIndices num pos) : 0 ≤ i ∧ i < num := by
  simp only [shiftDownIndices, List.mem_flatMap, List.mem_range'_1, List.mem_cons,
    List.not_mem_nil, or_false] at h
  omega

theorem of_mem_getLengthIndices (hpos : pos < num) (h : i ∈ getLengthIndices num pos) :
    0 ≤ i ∧ i < num := by
  simp only [getLengthIndices, List.mem_cons, List.not_mem_nil, or_false] at h
  rcases h with rfl | rfl
  · rw [Int.tmod_eq_emod_of_nonneg (by omega)]
    exact ⟨Int.emod_nonneg _ (by omega), Int.emod_lt_of_pos _ (by omega)⟩
  · omega

/-- `FindLongestSection` returns an index of the list. -/
theorem findLongestSection_eq (h : RingInv slaves) (hnum : 0 < slaves.num) :
    ∃ p : Nat, p < slaves.num ∧ findLongestSection slaves = p := by
  obtain ⟨n, hn⟩ : ∃ n, slaves.num = n + 1 := ⟨slaves.num - 1, by omega⟩
  obtain ⟨p, hp, hfold, -⟩ := longestSection_loop h n (by omega)
  refine ⟨p, by omega, ?_⟩
  rw [findLongestSection, hn, hfold]

/-- `AddToSlaveList` goes up to one index past the list. -/
theorem of_mem_addToSlaveListIndices (h : RingInv slaves)
    (hi : i ∈ addToSlaveListIndices slaves) : 0 ≤ i ∧ i ≤ slaves.num := by
  unfold addToSlaveListIndices at hi
  split at hi
  case isTrue hnum =>
      rw [List.mem_singleton.mp hi]
      omega
  case isFalse hnum =>
      obtain ⟨p, hp, heq⟩ := findLongestSection_eq h (by omega)
      simp only [heq, List.mem_append, List.mem_flatMap, List.mem_range] at hi
      rcases hi with ((⟨j, hj, hi⟩ | hi) | hi) | hi
      · have := of_mem_getLengthIndices hj hi
        omega
      · exact of_mem_shiftUpIndices hi
      · have := of_mem_getLengthIndices hp hi
        omega
      · simp only [List.mem_cons, List.not_mem_nil, or_false] at hi
        omega

/-- It uses the index behind the list. -/
theorem num_mem_addToSlaveListIndices (h : RingInv slaves) (hnum : 0 < slaves.num) :
    (slaves.num : Int) ∈ addToSlaveListIndices slaves := by
  obtain ⟨p, hp, heq⟩ := findLongestSection_eq h hnum
  have hne : slaves.num ≠ 0 := by omega
  simp only [addToSlaveListIndices, if_neg hne, heq, List.mem_append]
  rcases Nat.lt_or_ge (p + 1) slaves.num with hlt | hge
  · left; left; right
    refine List.mem_flatMap.mpr ⟨slaves.num - 1, ?_, ?_⟩
    · rw [List.mem_reverse, List.mem_range'_1]
      omega
    · refine List.mem_cons_of_mem _ (List.mem_singleton.mpr ?_)
      omega
  · right
    refine List.mem_cons_of_mem _ (List.mem_singleton.mpr ?_)
    omega

theorem of_mem_addNewSlaveIndices (hpos : pos ≤ slaves.num)
    (h : i ∈ addNewSlaveIndices slaves pos) : 0 ≤ i ∧ i ≤ slaves.num := by
  rcases List.mem_append.mp h with hshift | hlast
  · exact of_mem_shiftUpIndices hshift
  · rw [List.mem_singleton.mp hlast]
    omega

end Indices

section Notifications

variable {r : Registry} {pos : Nat} {cmd : Notice}

/-- The indices that a round uses, by those that each slave uses in its own list. -/
theorem of_mem_notifyAllIndices
    (hinj : ∀ i j, i < r.slaves.num → j < r.slaves.num → r.sock i = r.sock j → i = j)
    (bound : Nat) (hpos : pos < bound) (hnum : r.slaves.num ≤ bound)
    (hslaves : ∀ j, j < r.slaves.num → j ≠ pos →
      ∀ i ∈ noticeIndices (r.procs (r.sock j)).slaves cmd pos, 0 ≤ i ∧ i < bound)
    {i : Int} (h : i ∈ r.notifyAllIndices pos cmd) : 0 ≤ i ∧ i < bound := by
  rcases List.mem_cons.mp h with rfl | hloop
  · omega
  · obtain ⟨j, hj, hi⟩ := List.mem_flatMap.mp hloop
    have hj := List.mem_range.mp hj
    split at hi
    case isTrue => cases hi
    case isFalse hne =>
        rw [r.notified_eq pos cmd hinj hj] at hi
        rcases List.mem_cons.mp hi with rfl | hslave
        · omega
        · exact hslaves j hj hne i hslave

/-- The numbers of slaves after a round, by the number in each slave's own list. -/
theorem of_mem_notifiedNums
    (hinj : ∀ i j, i < r.slaves.num → j < r.slaves.num → r.sock i = r.sock j → i = j)
    {bound : Nat} (hslaves : ∀ j, j < r.slaves.num → j ≠ pos →
      ((r.procs (r.sock j)).handleNotice cmd pos (r.slaves.node pos)).slaves.num ≤ bound)
    {n : Nat} (h : n ∈ r.notifiedNums pos cmd) : n ≤ bound := by
  obtain ⟨j, hj, rfl⟩ := List.mem_map.mp h
  obtain ⟨hj, hne⟩ := List.mem_filter.mp hj
  have hj := List.mem_range.mp hj
  rw [r.notified_eq pos cmd hinj hj]
  exact hslaves j hj (by simpa using hne)

end Notifications

section Steps

variable {s : ListAccess}

/-- A registration that finds room stays in bounds. -/
theorem InBounds.addSlave (h : s.InBounds) (hagrees : s.registry.Agrees) {sock : Int}
    (hfresh : ¬ s.registry.Live sock) (hroom : s.registry.slaves.num < MAX_SLAVE_NUM)
    (ip port : Int) (rand : Nat) : (s.addSlave sock ip port rand).InBounds := by
  have hinj := hagrees.sock_inj_addToSlaveList sock ip port rand hroom hfresh
  have hnew := (newpos_eq s.registry.slaves hagrees.ring ⟨ip, port, sock, 0⟩ rand hroom).1
  have hnum := num_addToSlaveList s.registry.slaves ⟨ip, port, sock, 0⟩ rand
  have hsock := fun j hj =>
    Registry.sock_addToSlaveList (j := j) sock ip port rand hagrees.ring hroom hj
  simp only [ListAccess.addSlave]
  generalize addToSlaveList s.registry.slaves ⟨ip, port, sock, 0⟩ rand = a at *
  -- The slaves that are notified still have the old list.
  have hlist : ∀ j, j < a.1.num → j ≠ a.2 →
      (s.registry.procs (a.1.node j).sock).slaves = s.registry.slaves := by
    intro j hj hne
    rw [hsock j (by omega), if_neg hne]
    exact hagrees.slaves_eq _ (newIndex_lt hnew (by omega) hne)
  constructor
  case indices =>
    intro i hi
    rcases List.mem_append.mp hi with hold | hround
    · rcases List.mem_append.mp hold with hold | hmaster
      · exact h.indices i hold
      · have := of_mem_addToSlaveListIndices hagrees.ring hmaster
        omega
    · have hbound := of_mem_notifyAllIndices (r := { s.registry with slaves := a.1 }) hinj
        (s.registry.slaves.num + 1) (by omega) (by simp only [hnum]; omega) ?_ hround
      · omega
      · intro j hj hne i hi
        simp only [Registry.sock, hlist j hj hne] at hi
        have := of_mem_addNewSlaveIndices hnew hi
        omega
  case nums =>
    intro n hn
    rcases List.mem_append.mp hn with hold | hmaster
    · rcases List.mem_append.mp hold with hold | hround
      · exact h.nums n hold
      · refine of_mem_notifiedNums (r := { s.registry with slaves := a.1 }) hinj ?_ hround
        intro j hj hne
        simp only [Registry.sock, Slave.handleNotice, Slave.newSlave, num_addNewSlave,
          hlist j hj hne]
        omega
    · rw [List.mem_singleton.mp hmaster]
      omega

/-- A departure stays in bounds. -/
theorem InBounds.delSlave (h : s.InBounds) (hagrees : s.registry.Agrees) {pos : Nat}
    (hpos : pos < s.registry.slaves.num) :
    (s.delSlave (s.registry.sock pos)).InBounds := by
  have hkey := hagrees.pos_eq pos hpos
  have hmax := hagrees.ring.num_le
  have hslaves := Registry.slaves_notifyAll (r := s.registry) pos .rmSlave hagrees.sock_inj
  have hdel : (s.registry.delSlave (s.registry.sock pos)).slaves =
      delFromSlaveList s.registry.slaves pos := by
    simp only [Registry.delSlave, hkey, hslaves]
  simp only [ListAccess.delSlave, hkey, hslaves, hdel]
  constructor
  case indices =>
    intro i hi
    rcases List.mem_append.mp hi with hold | hmaster
    · rcases List.mem_append.mp hold with hold | hround
      · exact h.indices i hold
      · have hbound := of_mem_notifyAllIndices hagrees.sock_inj _ hpos le_rfl ?_ hround
        · omega
        · intro j hj hne i hi
          rw [hagrees.slaves_eq j hj] at hi
          exact of_mem_shiftDownIndices hi
    · have := of_mem_shiftDownIndices hmaster
      omega
  case nums =>
    intro n hn
    rcases List.mem_append.mp hn with hold | hmaster
    · rcases List.mem_append.mp hold with hold | hround
      · exact h.nums n hold
      · refine of_mem_notifiedNums hagrees.sock_inj ?_ hround
        intro j hj hne
        simp only [Slave.handleNotice, Slave.rmSlave, num_removeSlave, hagrees.slaves_eq j hj]
        omega
    · rw [List.mem_singleton.mp hmaster]
      simp only [delFromSlaveList]
      omega

/-- A registration that stays in bounds has found room. -/
theorem hasRoom_of_inBounds {sock ip port : Int} {rand : Nat}
    (h : (s.addSlave sock ip port rand).InBounds) :
    s.registry.slaves.num < MAX_SLAVE_NUM := by
  have hnum := h.nums _ (List.mem_append_right _ (List.mem_singleton_self _))
  rw [num_addToSlaveList] at hnum
  exact hnum

theorem inBounds_step {e : MasterRequest} {s' : ListAccess} (h : s.InBounds)
    (hagrees : s.registry.Agrees) (hstep : s.step e = some s') :
    s'.InBounds ↔ s.HasRoom e := by
  cases e with
  | addSlave sock ip port rand =>
      simp only [step, Option.ite_none_left_eq_some] at hstep
      obtain ⟨hfresh, hstep⟩ := hstep
      obtain rfl := Option.some.inj hstep
      exact ⟨hasRoom_of_inBounds, fun hroom => h.addSlave hagrees hfresh hroom ip port rand⟩
  | delSlave sock =>
      simp only [step, Option.ite_none_right_eq_some] at hstep
      obtain ⟨⟨pos, hpos, rfl⟩, hstep⟩ := hstep
      obtain rfl := Option.some.inj hstep
      exact iff_of_true (h.delSlave hagrees hpos) trivial

/-- Indices and numbers are only added. -/
theorem inBounds_of_step {e : MasterRequest} {s' : ListAccess} (hstep : s.step e = some s')
    (h : s'.InBounds) : s.InBounds := by
  cases e with
  | addSlave sock ip port rand =>
      simp only [step, Option.ite_none_left_eq_some] at hstep
      obtain rfl := Option.some.inj hstep.2
      exact ⟨fun i hi => h.indices i (List.mem_append_left _ (List.mem_append_left _ hi)),
        fun n hn => h.nums n (List.mem_append_left _ (List.mem_append_left _ hn))⟩
  | delSlave sock =>
      simp only [step, Option.ite_none_right_eq_some] at hstep
      obtain rfl := Option.some.inj hstep.2
      exact ⟨fun i hi => h.indices i (List.mem_append_left _ (List.mem_append_left _ hi)),
        fun n hn => h.nums n (List.mem_append_left _ (List.mem_append_left _ hn))⟩

/-- A request that finds room keeps the agreement of master and slaves. -/
theorem agrees_step {e : MasterRequest} {s' : ListAccess} (hagrees : s.registry.Agrees)
    (hroom : s.HasRoom e) (hstep : s.step e = some s') : s'.registry.Agrees := by
  cases e with
  | addSlave sock ip port rand =>
      simp only [step, Option.ite_none_left_eq_some] at hstep
      obtain ⟨hfresh, hstep⟩ := hstep
      obtain rfl := Option.some.inj hstep
      exact hagrees.addSlave sock ip port rand hroom hfresh
  | delSlave sock =>
      simp only [step, Option.ite_none_right_eq_some] at hstep
      obtain ⟨⟨pos, hpos, rfl⟩, hstep⟩ := hstep
      obtain rfl := Option.some.inj hstep
      exact hagrees.delSlave hpos

end Steps

/-- **The list array is used in bounds, exactly when every registration finds room**: in
every run, the master and the slaves use only indices of the array and have at most
`MAX_SLAVE_NUM` slaves in their lists if and only if there are fewer slaves at every
`ADD_SLAVE`. -/
theorem in_bounds_iff (procs : Int → Slave) (requests : List MasterRequest) (s : ListAccess)
    (hrun : run step (init procs) requests = some s) :
    s.InBounds ↔ allSteps step HasRoom (init procs) requests := by
  refine run_iff_allSteps HasRoom InBounds (fun s => s.registry.Agrees) ?_ ?_ ?_ hrun ?_
    (Registry.agrees_init procs)
  · exact fun s e t hstep ht => inBounds_of_step hstep ht
  · exact fun s e t hs hagrees hstep => inBounds_step hs hagrees hstep
  · exact fun s e t hagrees hroom hstep => agrees_step hagrees hroom hstep
  · refine ⟨nofun, fun n hn => ?_⟩
    rw [List.mem_singleton.mp hn]
    exact Nat.zero_le _

/-- Three registrations, and the departure of the slave at socket 6. -/
def roomyRequests : List MasterRequest :=
  [.addSlave 5 0 1 7, .addSlave 6 0 2 0, .addSlave 7 0 3 0, .delSlave 6]

theorem in_bounds_roomyRequests :
    ∃ s, run step (init fun _ =>
      ⟨SlaveList.empty, 0, ⟨∅, none, none, none⟩⟩) roomyRequests =
        some s ∧ s.registry.slaves.num = 2 ∧ s.InBounds := by
  have hmap : (run step (init fun _ => ⟨SlaveList.empty, 0, ⟨∅, none, none, none⟩⟩)
      roomyRequests).map (fun s => s.registry.slaves.num) = some 2 := by
    decide +kernel
  obtain ⟨s, hrun, hmap⟩ := Option.map_eq_some_iff.mp hmap
  exact ⟨s, hrun, hmap,
    (in_bounds_iff _ roomyRequests s hrun).mpr (by decide +kernel)⟩

/-- Slaves register on the sockets 0, 1, .... -/
def registrations (n : Nat) : List MasterRequest :=
  (List.range n).map fun i : Nat => .addSlave i 0 0 0

/-- As many slaves as fit can register. -/
theorem run_registrations (procs : Int → Slave) {n : Nat} (hn : n ≤ MAX_SLAVE_NUM) :
    ∃ s, run step (init procs) (registrations n) = some s ∧ s.registry.Agrees ∧
      s.registry.slaves.num = n ∧ ∀ sock, s.registry.Live sock → sock < n := by
  induction n with
  | zero =>
      refine ⟨_, rfl, Registry.agrees_init procs, rfl, ?_⟩
      rintro sock ⟨i, hi, -⟩
      exact absurd hi (Nat.not_lt_zero i)
  | succ n ih =>
      obtain ⟨s, hrun, hagrees, hnum, hlive⟩ := ih (by omega)
      have hfresh : ¬ s.registry.Live n := fun hl => absurd (hlive n hl) (lt_irrefl _)
      have hroom : s.registry.slaves.num < MAX_SLAVE_NUM := by omega
      have hslaves := hagrees.slaves_addSlave n 0 0 0 hroom hfresh
      have hnum' : (s.registry.addSlave n 0 0 0).slaves.num = n + 1 := by
        rw [hslaves, num_addToSlaveList, hnum]
      refine ⟨s.addSlave n 0 0 0, ?_, hagrees.addSlave n 0 0 0 hroom hfresh, hnum', ?_⟩
      · rw [registrations, List.range_succ, List.map_append, run_append, ← registrations, hrun]
        simp [run, step, hfresh]
      · rintro sock ⟨i, hi, rfl⟩
        have hi' : i < n + 1 := hnum' ▸ hi
        have hnew := (newpos_eq s.registry.slaves hagrees.ring ⟨0, 0, n, 0⟩ 0 hroom).1
        have hsock := Registry.sock_addToSlaveList (r := s.registry) (j := i) n 0 0 0
          hagrees.ring hroom (by omega)
        have heq : (s.registry.addSlave n 0 0 0).sock i =
            ((addToSlaveList s.registry.slaves ⟨0, 0, n, 0⟩ 0).1.node i).sock := by
          rw [Registry.sock, hslaves]
        refine lt_of_eq_of_lt (heq.trans hsock) ?_
        split
        case isTrue => omega
        case isFalse hne =>
            have hold := hlive _ ⟨_, newIndex_lt hnew (by omega) hne, rfl⟩
            omega

/-- The 33rd registration uses index 32 of the array. -/
theorem array_overrun :
    ∃ s, run step (init fun _ => ⟨SlaveList.empty, 0, ⟨∅, none, none, none⟩⟩)
        (registrations 33) = some s ∧ (MAX_SLAVE_NUM : Int) ∈ s.indices ∧ ¬ s.InBounds := by
  obtain ⟨s, hrun, hagrees, hnum, hlive⟩ :=
    run_registrations (fun _ => ⟨SlaveList.empty, 0, ⟨∅, none, none, none⟩⟩) (le_refl _)
  have hfresh : ¬ s.registry.Live (32 : Nat) := fun hl => absurd (hlive _ hl) (by decide)
  have hmem : (MAX_SLAVE_NUM : Int) ∈ (s.addSlave (32 : Nat) 0 0 0).indices := by
    refine List.mem_append_left _ (List.mem_append_right _ ?_)
    rw [← hnum]
    exact num_mem_addToSlaveListIndices hagrees.ring (by rw [hnum]; decide)
  refine ⟨s.addSlave (32 : Nat) 0 0 0, ?_, hmem, fun h => ?_⟩
  · rw [registrations, List.range_succ, List.map_append, run_append, ← registrations]
    rw [MAX_SLAVE_NUM] at hrun
    rw [hrun]
    simp only [List.map_cons, List.map_nil, Option.bind_some, run, step, if_neg hfresh]
  · exact absurd (h.indices _ hmem).2 (lt_irrefl _)

end ListAccess

end DistributedDB
