import DistributedDB.RingInvariant

/-!
# Registrations keep the ring balanced

`AddToSlaveList` puts the new node into the middle of a longest section, which is the only
one that changes: of its length `L` the two parts have the lower and the upper half.  So the
longest section does not grow, and no section is ever more than about twice as long as
another while there are no departures.

**Results.**
* `sectionLength_middle`: the two parts of a section that is cut in the middle.
* `RingInv.getLength_addToSlaveList`: every section after a registration.
* `RingInv.sectionLengths_addToSlaveList`: the lengths as a multiset.
* `adds_balanced`: what one registration does, and the bound over runs of them.
-/

namespace DistributedDB

open CyclicOrder Run

/-- The arithmetic of `GetLength` on two keys. -/
def sectionLength (key next : Int) : Int :=
  (next - key + MAX_KEY - 1).tmod MAX_KEY + 1

theorem getLength_eq (slaves : SlaveList) (pos : Nat) :
    getLength slaves pos =
      sectionLength (slaves.node pos).key (slaves.node ((pos + 1) % slaves.num)).key := rfl

/-- **A section that is cut in the middle**: the lower part has the lower half of its
length. -/
theorem sectionLength_middle {key next : Int} (hlo : 0 ≤ key) (hhi : key < MAX_KEY)
    (hlo' : 0 ≤ next) (hlen : 2 ≤ sectionLength key next) :
    sectionLength key (((sectionLength key next).tdiv 2 + key).tmod MAX_KEY) =
        sectionLength key next / 2 ∧
      sectionLength (((sectionLength key next).tdiv 2 + key).tmod MAX_KEY) next =
        (sectionLength key next + 1) / 2 := by
  have hL : sectionLength key next = (next - key + MAX_KEY - 1) % MAX_KEY + 1 := by
    rw [sectionLength, Int.tmod_eq_emod_of_nonneg (by omega)]
  have hmid : ((sectionLength key next).tdiv 2 + key).tmod MAX_KEY =
      (sectionLength key next / 2 + key) % MAX_KEY := by
    rw [Int.tdiv_eq_ediv_of_nonneg (by omega), Int.tmod_eq_emod_of_nonneg (by omega)]
  have hpart : ∀ a b : Int, a < MAX_KEY → 0 ≤ b →
      sectionLength a b = (b - a + MAX_KEY - 1) % MAX_KEY + 1 := by
    intro a b ha hb
    rw [sectionLength, Int.tmod_eq_emod_of_nonneg (by omega)]
  rw [hmid]
  generalize sectionLength key next = L at *
  have hmax : (0 : Int) < MAX_KEY := by decide
  rw [hpart key _ hhi (Int.emod_nonneg _ hmax.ne'), hpart _ next (Int.emod_lt_of_pos _ hmax) hlo']
  simp only [MAX_KEY] at *
  omega

section Sections

variable {slaves : SlaveList}

/-- The lengths of the sections. -/
def sectionLengths (slaves : SlaveList) : Multiset Int :=
  ((List.range slaves.num).map (getLength slaves) : List Int)

theorem mem_sectionLengths {len : Int} :
    len ∈ sectionLengths slaves ↔ ∃ i, i < slaves.num ∧ getLength slaves i = len := by
  simp [sectionLengths]

/-- Behind an inserted node every node has the successor that it had before: the one after
the last is the first. -/
theorem node_next_addNewSlave (sn : SlaveNode) {p j : Nat} (hp : p < slaves.num)
    (hmax : slaves.num < MAX_SLAVE_NUM) (hpj : p < j) (hj : j ≤ slaves.num) :
    (addNewSlave slaves (p + 1) sn).node ((j + 1) % (slaves.num + 1)) =
      slaves.node (j % slaves.num) := by
  rcases Nat.lt_or_ge j slaves.num with hin | hlast
  · have hmod : (j + 1) % (slaves.num + 1) = j + 1 := Nat.mod_eq_of_lt (by omega)
    rw [hmod, Nat.mod_eq_of_lt hin, node_addNewSlave _ hp hmax (by omega), if_neg (by omega),
      if_neg (by omega), Nat.add_sub_cancel]
  · obtain rfl : j = slaves.num := by omega
    rw [Nat.mod_self, Nat.mod_self, node_addNewSlave _ hp hmax (Nat.zero_le _),
      if_pos (by omega)]

/-- **The sections after a registration**: the one at `p` is cut in the middle, and those
behind it move up by one. -/
theorem RingInv.getLength_addNewSlave (h : RingInv slaves) (hmax : slaves.num < MAX_SLAVE_NUM)
    (sn : SlaveNode) {p : Nat} (hp : p < slaves.num) (hlen : 2 ≤ getLength slaves p) {j : Nat}
    (hj : j ≤ slaves.num) :
    getLength (addNewSlave slaves (p + 1) { sn with key := middleKey slaves p }) j =
      if j < p then getLength slaves j
      else if j = p then getLength slaves p / 2
      else if j = p + 1 then (getLength slaves p + 1) / 2
      else getLength slaves (j - 1) := by
  obtain ⟨hlo, hhi⟩ := h.key_range p hp
  obtain ⟨hlo', -⟩ := h.key_range ((p + 1) % slaves.num) (Nat.mod_lt _ (by omega))
  obtain ⟨hlower, hupper⟩ := sectionLength_middle hlo hhi hlo' hlen
  have hnode : ∀ i, i ≤ slaves.num →
      (addNewSlave slaves (p + 1) { sn with key := middleKey slaves p }).node i =
        if i < p + 1 then slaves.node i
        else if i = p + 1 then { sn with key := middleKey slaves p }
        else slaves.node (i - 1) := fun i hi => node_addNewSlave _ hp hmax hi
  rw [getLength_eq, num_addNewSlave, hnode j hj]
  rcases Nat.lt_trichotomy j p with hlt | rfl | hgt
  · have hnext : (j + 1) % (slaves.num + 1) = j + 1 := Nat.mod_eq_of_lt (by omega)
    have hnext' : (j + 1) % slaves.num = j + 1 := Nat.mod_eq_of_lt (by omega)
    rw [hnext, hnode (j + 1) (by omega), if_pos (by omega), if_pos (by omega), if_pos hlt,
      getLength_eq, hnext']
  · have hnext : (j + 1) % (slaves.num + 1) = j + 1 := Nat.mod_eq_of_lt (by omega)
    rw [hnext, hnode (j + 1) (by omega), if_pos (by omega), if_neg (by omega), if_pos rfl,
      if_neg (by omega), if_pos rfl]
    exact hlower
  · have hnext := node_next_addNewSlave { sn with key := middleKey slaves p } hp hmax hgt hj
    rcases Nat.lt_or_ge (p + 1) j with hbehind | hnew
    · rw [hnext, if_neg (by omega), if_neg (by omega), if_neg (by omega), if_neg (by omega),
        if_neg (by omega), getLength_eq, Nat.sub_add_cancel (by omega)]
    · obtain rfl : j = p + 1 := by omega
      rw [hnext, if_neg (by omega), if_pos rfl, if_neg (by omega), if_neg (by omega), if_pos rfl]
      exact hupper

/-- The lengths before and after a registration. -/
theorem RingInv.sectionLengths_addNewSlave (h : RingInv slaves)
    (hmax : slaves.num < MAX_SLAVE_NUM) (sn : SlaveNode) {p : Nat} (hp : p < slaves.num)
    (hlen : 2 ≤ getLength slaves p) :
    ∃ rest, sectionLengths slaves = getLength slaves p ::ₘ rest ∧
      sectionLengths (addNewSlave slaves (p + 1) { sn with key := middleKey slaves p }) =
        getLength slaves p / 2 ::ₘ (getLength slaves p + 1) / 2 ::ₘ rest := by
  let t := addNewSlave slaves (p + 1) { sn with key := middleKey slaves p }
  obtain ⟨q, hq⟩ : ∃ q, slaves.num = p + (1 + q) := ⟨slaves.num - p - 1, by omega⟩
  have hlength : ∀ j, j ≤ slaves.num → getLength t j = _ := fun j hj =>
    h.getLength_addNewSlave hmax sn hp hlen hj
  have hbefore : (List.range p).map (getLength t) = (List.range p).map (getLength slaves) := by
    refine List.map_congr_left fun j hj => ?_
    have hlt := List.mem_range.mp hj
    rw [hlength j (by omega), if_pos hlt]
  have hbehind : (List.range q).map (fun k => getLength t (p + (2 + k))) =
      (List.range q).map (fun k => getLength slaves (p + (1 + k))) := by
    refine List.map_congr_left fun k hk => ?_
    have hlt := List.mem_range.mp hk
    rw [hlength _ (by omega), if_neg (by omega), if_neg (by omega), if_neg (by omega)]
    congr 1
    omega
  have hsplit : (List.range slaves.num).map (getLength slaves) =
      (List.range p).map (getLength slaves) ++ getLength slaves p ::
        (List.range q).map (fun k => getLength slaves (p + (1 + k))) := by
    rw [hq, List.range_add, List.range_add]
    simp [Function.comp_def]
  have hsplit' : (List.range t.num).map (getLength t) =
      (List.range p).map (getLength t) ++ getLength t p :: getLength t (p + 1) ::
        (List.range q).map (fun k => getLength t (p + (2 + k))) := by
    have hnum : t.num = p + (2 + q) := by
      show slaves.num + 1 = _
      omega
    rw [hnum, List.range_add, List.range_add]
    simp [Function.comp_def, List.range_succ]
  have hlower : getLength t p = getLength slaves p / 2 := by
    rw [hlength p (by omega), if_neg (by omega), if_pos rfl]
  have hupper : getLength t (p + 1) = (getLength slaves p + 1) / 2 := by
    rw [hlength (p + 1) (by omega), if_neg (by omega), if_neg (by omega), if_pos rfl]
  refine ⟨((List.range p).map (getLength slaves) ++
    (List.range q).map (fun k => getLength slaves (p + (1 + k))) : List Int), ?_, ?_⟩
  · rw [sectionLengths, hsplit]
    exact Multiset.coe_eq_coe.mpr List.perm_middle
  · rw [sectionLengths, show (addNewSlave slaves (p + 1) _).num = t.num from rfl, hsplit', hbefore,
      hbehind, hlower, hupper]
    exact Multiset.coe_eq_coe.mpr (List.perm_middle.trans (List.perm_middle.cons _))

/-- **What one registration does to the sections.**  `AddToSlaveList` cuts the longest
section in the middle and leaves the others alone. -/
structure Halves (slaves t : SlaveList) (newpos : Nat) : Prop where
  newpos_pos : 0 < newpos
  longest : newpos - 1 < slaves.num ∧
    ∀ i, i < slaves.num → getLength slaves i ≤ getLength slaves (newpos - 1)
  lower : getLength t (newpos - 1) = getLength slaves (newpos - 1) / 2
  upper : getLength t newpos = (getLength slaves (newpos - 1) + 1) / 2
  others : ∃ rest, sectionLengths slaves = getLength slaves (newpos - 1) ::ₘ rest ∧
    sectionLengths t = getLength slaves (newpos - 1) / 2 ::ₘ
      (getLength slaves (newpos - 1) + 1) / 2 ::ₘ rest

theorem RingInv.halves_addToSlaveList (h : RingInv slaves) (hpos : 0 < slaves.num)
    (hmax : slaves.num < MAX_SLAVE_NUM) (sn : SlaveNode) (rand : Nat) :
    Halves slaves (addToSlaveList slaves sn rand).1 (addToSlaveList slaves sn rand).2 := by
  have hlen := h.two_le_longest hpos hmax
  have hlongest := h.findLongestSection_spec hpos
  rw [addToSlaveList_of_pos sn rand hpos hmax hlongest.1]
  generalize (findLongestSection slaves).toNat = p at *
  have hlength := fun j => h.getLength_addNewSlave hmax sn hlongest.1 hlen (j := j)
  refine ⟨Nat.succ_pos p, hlongest, ?_, ?_,
    h.sectionLengths_addNewSlave hmax sn hlongest.1 hlen⟩
  · refine (hlength p (by omega)).trans ?_
    rw [if_neg (by omega), if_pos rfl]
    rfl
  · refine (hlength (p + 1) (by omega)).trans ?_
    rw [if_neg (by omega), if_neg (by omega), if_pos rfl]
    rfl

/-- Every section is one of the halves, or one of the others. -/
theorem Halves.cases {t : SlaveList} {newpos : Nat} (h : Halves slaves t newpos) {i : Nat}
    (hi : i < t.num) :
    getLength t i = getLength slaves (newpos - 1) / 2 ∨
      getLength t i = (getLength slaves (newpos - 1) + 1) / 2 ∨
      ∃ j, j < slaves.num ∧ getLength t i = getLength slaves j := by
  obtain ⟨rest, hold, hnew⟩ := h.others
  have hmem : getLength t i ∈ sectionLengths t := mem_sectionLengths.mpr ⟨i, hi, rfl⟩
  rw [hnew, Multiset.mem_cons, Multiset.mem_cons] at hmem
  refine hmem.imp_right (Or.imp_right fun hrest => ?_)
  have hmem' : getLength t i ∈ sectionLengths slaves := by
    rw [hold]
    exact Multiset.mem_cons_of_mem hrest
  obtain ⟨j, hj, heq⟩ := mem_sectionLengths.mp hmem'
  exact ⟨j, hj, heq.symm⟩

/-- The longest section does not grow. -/
theorem Halves.le_longest {t : SlaveList} {newpos : Nat} (h : Halves slaves t newpos)
    (hlen : 1 ≤ getLength slaves (newpos - 1)) {i : Nat} (hi : i < t.num) :
    getLength t i ≤ getLength slaves (newpos - 1) := by
  rcases h.cases hi with heq | heq | ⟨j, hj, heq⟩
  · omega
  · omega
  · exact heq.le.trans (h.longest.2 j hj)

/-- No section is more than about twice as long as another. -/
def Balanced (slaves : SlaveList) : Prop :=
  ∀ i j, i < slaves.num → j < slaves.num → getLength slaves i ≤ 2 * getLength slaves j + 1

/-- **A registration keeps the balance**: every section is at least half of the one that
was the longest. -/
theorem Halves.balanced {t : SlaveList} {newpos : Nat} (h : Halves slaves t newpos)
    (hlen : 1 ≤ getLength slaves (newpos - 1)) (hbalanced : Balanced slaves) : Balanced t := by
  intro i j hi hj
  have hle := h.le_longest hlen hi
  rcases h.cases hj with heq | heq | ⟨k, hk, heq⟩
  · omega
  · omega
  · have hold := hbalanced (newpos - 1) k h.longest.1 hk
    omega

end Sections

/-- Registrations only. -/
def registrations (adds : List (SlaveNode × Nat)) : List ListChange :=
  adds.map fun a => .add a.1 a.2

/-- Registrations keep a ring balanced. -/
theorem balanced_of_run {start slaves : SlaveList} {adds : List (SlaveNode × Nat)}
    (hring : RingInv start) (hpos : 0 < start.num) (hbalanced : Balanced start)
    (hrun : run changeList start (registrations adds) = some slaves) : Balanced slaves := by
  induction adds generalizing start with
  | nil =>
      obtain rfl : start = slaves := Option.some.inj hrun
      exact hbalanced
  | cons a adds ih =>
      obtain ⟨t, hstep, hrest⟩ := run_cons_eq_some.mp hrun
      simp only [changeList, Option.ite_none_right_eq_some, Option.some.injEq] at hstep
      obtain ⟨hmax, rfl⟩ := hstep
      have hhalves := hring.halves_addToSlaveList hpos hmax a.1 a.2
      have hlen := (hring.getLength_range hhalves.longest.1).1
      refine ih (hring.of_addToSlaveList hmax a.1 a.2) ?_ (hhalves.balanced hlen hbalanced) hrest
      rw [num_addToSlaveList]
      omega

/-- **Adds keep the ring balanced**: each cuts a longest section into its two halves and
leaves the other lengths as they are, so that the longest section never grows; and after
any adds to a ring of one node no section is longer than twice another one plus one. -/
theorem adds_balanced :
    (∀ (slaves : SlaveList) (sn : SlaveNode) (rand : Nat), RingInv slaves → 0 < slaves.num →
      slaves.num < MAX_SLAVE_NUM →
        Halves slaves (addToSlaveList slaves sn rand).1 (addToSlaveList slaves sn rand).2 ∧
        ∀ i, i < (addToSlaveList slaves sn rand).1.num →
          getLength (addToSlaveList slaves sn rand).1 i ≤
            getLength slaves ((addToSlaveList slaves sn rand).2 - 1)) ∧
    ∀ (start slaves : SlaveList) (adds : List (SlaveNode × Nat)), RingInv start →
      start.num = 1 → run changeList start (registrations adds) = some slaves →
        ∀ i j, i < slaves.num → j < slaves.num →
          getLength slaves i ≤ 2 * getLength slaves j + 1 := by
  constructor
  · intro slaves sn rand hring hpos hmax
    have hhalves := hring.halves_addToSlaveList hpos hmax sn rand
    exact ⟨hhalves, fun i hi =>
      hhalves.le_longest (hring.getLength_range hhalves.longest.1).1 hi⟩
  · intro start slaves adds hring hone hrun
    refine balanced_of_run hring (by omega) ?_ hrun
    intro i j hi hj
    obtain rfl : i = 0 := by omega
    obtain rfl : j = 0 := by omega
    have hlen := (hring.getLength_range (i := 0) (by omega)).1
    omega

/-- An add to a ring of two nodes, and adds to the ring of one node with the last key. -/
theorem adds_balanced_lastKey :
    Halves (ringOf 2) (addToSlaveList (ringOf 2) ⟨0, 3, 0, 0⟩ 0).1
      (addToSlaveList (ringOf 2) ⟨0, 3, 0, 0⟩ 0).2 ∧
    ∃ slaves, run changeList (addToSlaveList .empty ⟨0, 1, 0, 0⟩ 3999).1
        (registrations [(⟨0, 2, 0, 0⟩, 0), (⟨0, 3, 0, 0⟩, 0)]) = some slaves ∧
      slaves.keys = [3999, 999, 1999] ∧
      ∀ i j, i < slaves.num → j < slaves.num →
        getLength slaves i ≤ 2 * getLength slaves j + 1 := by
  have hmap : (run changeList (addToSlaveList .empty ⟨0, 1, 0, 0⟩ 3999).1
      (registrations [(⟨0, 2, 0, 0⟩, 0), (⟨0, 3, 0, 0⟩, 0)])).map SlaveList.keys =
      some [3999, 999, 1999] := by decide
  obtain ⟨slaves, hrun, hkeys⟩ := Option.map_eq_some_iff.mp hmap
  have hring : RingInv (addToSlaveList .empty ⟨0, 1, 0, 0⟩ 3999).1 :=
    ringInv_empty.of_addToSlaveList (by decide) _ _
  exact ⟨(adds_balanced.1 (ringOf 2) _ 0 (ringInv_ringOf (by decide)) (by decide) (by decide)).1,
    slaves, hrun, hkeys, adds_balanced.2 _ slaves _ hring rfl hrun⟩

end DistributedDB
