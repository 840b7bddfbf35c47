import DistributedDB.ListReplay
import Mathlib.Algebra.BigOperators.Intervals

/-!
# The ring invariant over every sequence of list changes

The master's list starts empty and changes by `AddToSlaveList` and
`DelFromSlaveList` only.  The keys of every list so reached are the points of a
circle of `MAX_KEY` values in cyclic order.

Deleting a node merges two sections.  Adding one halves the longest section:
with fewer than `MAX_SLAVE_NUM` nodes it is at least two long, so that the new
key lies strictly inside it.

**Results.**
* `RingInv.of_addToSlaveList` and `RingInv.of_removeSlave`: each change keeps
  the ring invariant.
* `ring_of_changes`: every reachable non-empty list is a ring, and its section
  lengths are in `[1, MAX_KEY]` and add up to `MAX_KEY`.
-/

namespace DistributedDB

open ArrayShift CyclicOrder Run

section Lengths

variable {slaves : SlaveList}

/-- On a ring the truncating remainder of `GetLength` is the forward distance. -/
theorem RingInv.getLength_eq_gap (h : RingInv slaves) {i : Nat}
    (hi : i < slaves.num) :
    getLength slaves i =
      gap (MAX_KEY : Int) (slaves.node i).key
        (slaves.node ((i + 1) % slaves.num)).key := by
  obtain ⟨hlo, hhi⟩ := h.key_range i hi
  obtain ⟨hlo', hhi'⟩ := h.key_range ((i + 1) % slaves.num) (Nat.mod_lt _ (by omega))
  simp only [getLength, gap, MAX_KEY] at *
  rw [Int.tmod_eq_emod_of_nonneg (by omega)]
  split <;> omega

theorem RingInv.getLength_range (h : RingInv slaves) {i : Nat}
    (hi : i < slaves.num) :
    1 ≤ getLength slaves i ∧ getLength slaves i ≤ MAX_KEY := by
  obtain ⟨hlo, hhi⟩ := h.key_range i hi
  obtain ⟨hlo', hhi'⟩ := h.key_range ((i + 1) % slaves.num) (Nat.mod_lt _ (by omega))
  rw [h.getLength_eq_gap hi]
  simp only [gap, MAX_KEY] at *
  split <;> omega

/-- The section lengths of a ring add up to the size of the key space. -/
theorem RingInv.sum_getLength (h : RingInv slaves) (hpos : 0 < slaves.num) :
    ∑ i ∈ Finset.range slaves.num, getLength slaves i = MAX_KEY := by
  have hsum := sum_gap_sections (MAX_KEY : Int) h.sorted (SlaveList.keys_ne_nil hpos)
  have hmap : (List.range slaves.num).map (getLength slaves) =
      (sections slaves.keys).map (fun s => gap (MAX_KEY : Int) s.1 s.2) := by
    refine List.ext_getElem (by simp) ?_
    intro i hi hi'
    have hin : i < slaves.num := by simpa using hi
    have hnext : (i + 1) % slaves.keys.length < slaves.keys.length :=
      Nat.mod_lt _ (by simpa using hpos)
    simp only [List.getElem_map, List.getElem_range]
    rw [getElem_sections slaves.keys i (by simpa using hin) (by simpa using hin) hnext]
    simpa using h.getLength_eq_gap hin
  calc
    ∑ i ∈ Finset.range slaves.num, getLength slaves i
      = ((List.range slaves.num).map (getLength slaves)).sum := rfl
    _ = MAX_KEY := by rw [hmap, hsum]

/-- After `n` iterations the loop of `FindLongestSection` holds the index of a
longest section among the first `n`. -/
theorem longestSection_loop (h : RingInv slaves) :
    ∀ n, n + 1 ≤ slaves.num →
      ∃ p : Nat, p < n + 1 ∧
        (List.range (n + 1)).foldl (longerSection slaves) (-1, -1) =
          (getLength slaves p, (p : Int)) ∧
        ∀ j, j < n + 1 → getLength slaves j ≤ getLength slaves p := by
  intro n
  induction n with
  | zero =>
      intro hn
      have hlen := h.getLength_range (i := 0) hn
      refine ⟨0, by omega, ?_, ?_⟩
      · have hlt : (-1 : Int) < getLength slaves 0 := by omega
        simp [longerSection, hlt]
      · intro j hj
        rw [show j = 0 by omega]
  | succ n ih =>
      intro hn
      obtain ⟨p, hp, hfold, hmax⟩ := ih (by omega)
      rw [List.range_succ, List.foldl_append, hfold, List.foldl_cons, List.foldl_nil]
      rcases lt_or_ge (getLength slaves p) (getLength slaves (n + 1)) with hlt | hge
      · refine ⟨n + 1, by omega, by simp [longerSection, hlt], ?_⟩
        intro j hj
        rcases Nat.lt_succ_iff_lt_or_eq.mp hj with hj | rfl
        · exact (hmax j hj).trans hlt.le
        · exact le_rfl
      · refine ⟨p, by omega, by simp [longerSection, not_lt.mpr hge], ?_⟩
        intro j hj
        rcases Nat.lt_succ_iff_lt_or_eq.mp hj with hj | rfl
        · exact hmax j hj
        · exact hge

/-- `FindLongestSection` returns the index of a longest section. -/
theorem RingInv.findLongestSection_spec (h : RingInv slaves) (hpos : 0 < slaves.num) :
    (findLongestSection slaves).toNat < slaves.num ∧
      ∀ j, j < slaves.num →
        getLength slaves j ≤ getLength slaves (findLongestSection slaves).toNat := by
  obtain ⟨n, hn⟩ : ∃ n, slaves.num = n + 1 := ⟨slaves.num - 1, by omega⟩
  obtain ⟨p, hp, hfold, hmax⟩ := longestSection_loop h n (by omega)
  have hfind : (findLongestSection slaves).toNat = p := by
    rw [findLongestSection, hn, hfold]
    simp
  rw [hfind, hn]
  exact ⟨hp, hmax⟩

/-- The pigeonhole bound: with fewer than `MAX_SLAVE_NUM` nodes the longest
section can be halved. -/
theorem RingInv.two_le_longest (h : RingInv slaves) (hpos : 0 < slaves.num)
    (hnum : slaves.num < MAX_SLAVE_NUM) :
    2 ≤ getLength slaves (findLongestSection slaves).toNat := by
  obtain ⟨_, hmax⟩ := h.findLongestSection_spec hpos
  have hsum := h.sum_getLength hpos
  have hle : ∑ i ∈ Finset.range slaves.num, getLength slaves i ≤
      slaves.num * getLength slaves (findLongestSection slaves).toNat := by
    have := Finset.sum_le_card_nsmul (Finset.range slaves.num) (getLength slaves) _
      (fun i hi => hmax i (Finset.mem_range.mp hi))
    simpa using this
  rw [hsum] at hle
  by_contra hlt
  have hone : getLength slaves (findLongestSection slaves).toNat ≤ 1 := by omega
  have hnle : (slaves.num : Int) *
      getLength slaves (findLongestSection slaves).toNat ≤ slaves.num * 1 :=
    mul_le_mul_of_nonneg_left hone (by omega)
  simp only [MAX_KEY, MAX_SLAVE_NUM] at *
  omega

/-- The index of the longest section, as the master uses it. -/
theorem RingInv.find_lt (h : RingInv slaves) (hpos : 0 < slaves.num) :
    (findLongestSection slaves).toNat < slaves.num :=
  (h.findLongestSection_spec hpos).1

end Lengths

section Changes

variable {slaves : SlaveList}

theorem ringInv_empty : RingInv SlaveList.empty where
  num_le := by simp [SlaveList.empty]
  key_range := by
    intro i hi
    simp [SlaveList.empty] at hi
  sorted := cyclicSorted_nil

/-- The middle of a section of length at least two lies strictly inside it. -/
theorem RingInv.middleKey_inside (h : RingInv slaves) {i : Nat}
    (hi : i < slaves.num) (hlen : 2 ≤ getLength slaves i) :
    0 ≤ middleKey slaves i ∧ middleKey slaves i < MAX_KEY ∧
      CyclicIoo (slaves.node i).key
        (slaves.node ((i + 1) % slaves.num)).key (middleKey slaves i) := by
  obtain ⟨hlo, hhi⟩ := h.key_range i hi
  obtain ⟨hlo', hhi'⟩ := h.key_range ((i + 1) % slaves.num) (Nat.mod_lt _ (by omega))
  have hgap := h.getLength_eq_gap hi
  have hmid : middleKey slaves i =
      (getLength slaves i / 2 + (slaves.node i).key) % (MAX_KEY : Int) := by
    rw [middleKey, Int.tdiv_eq_ediv_of_nonneg (by omega),
      Int.tmod_eq_emod_of_nonneg (by omega)]
  generalize (slaves.node ((i + 1) % slaves.num)).key = next at *
  rw [hmid]
  simp only [gap, MAX_KEY] at *
  rcases lt_or_ge (slaves.node i).key next with hlt | hge
  · rw [if_pos hlt] at hgap
    rw [cyclicIoo_of_lt hlt]
    omega
  · rw [if_neg (not_lt.mpr hge)] at hgap
    rw [cyclicIoo_of_le hge]
    omega

/-- A registration keeps the ring invariant. -/
theorem RingInv.of_addToSlaveList (h : RingInv slaves)
    (hmax : slaves.num < MAX_SLAVE_NUM) (sn : SlaveNode) (rand : Nat) :
    RingInv (addToSlaveList slaves sn rand).1 := by
  rcases Nat.eq_zero_or_pos slaves.num with hzero | hpos
  · rw [addToSlaveList_of_empty sn rand hzero]
    have hkeys : slaves.keys = [] := by
      rw [← List.length_eq_zero_iff, SlaveList.length_keys, hzero]
    refine ⟨by simpa using hmax, ?_, ?_⟩
    · intro i hi
      have hi0 : i = 0 := by simp [hzero] at hi; omega
      rw [node_addNewSlave _ (by omega) hmax (by omega), hi0]
      simp only [Nat.lt_irrefl, if_false, if_true, MAX_KEY]
      omega
    · rw [keys_addNewSlave _ (by omega) hmax, hkeys]
      exact cyclicSorted_singleton _
  · have hfind := h.find_lt hpos
    have hmid := h.middleKey_inside hfind (h.two_le_longest hpos hmax)
    rw [addToSlaveList_of_pos sn rand hpos hmax hfind]
    generalize (findLongestSection slaves).toNat = p at hfind hmid ⊢
    refine ⟨by simpa using hmax, ?_, ?_⟩
    · intro i hi
      have hin : i ≤ slaves.num := by simp at hi; omega
      rw [node_addNewSlave _ hfind hmax hin]
      rcases Nat.lt_trichotomy i (p + 1) with hlt | rfl | hgt
      · rw [if_pos hlt]
        exact h.key_range i (by omega)
      · rw [if_neg (Nat.lt_irrefl _), if_pos rfl]
        exact ⟨hmid.1, hmid.2.1⟩
      · rw [if_neg (by omega), if_neg (by omega)]
        exact h.key_range (i - 1) (by omega)
    · rw [keys_addNewSlave _ hfind hmax]
      have hp : p < slaves.keys.length := by simpa using hfind
      have hnext : (p + 1) % slaves.keys.length < slaves.keys.length :=
        Nat.mod_lt _ (by omega)
      refine h.sorted.insertIdx hp hnext ?_
      simpa using hmid.2.2

/-- A departure keeps the ring invariant. -/
theorem RingInv.of_removeSlave (h : RingInv slaves) {pos : Nat}
    (hpos : pos < slaves.num) :
    RingInv (removeSlave slaves pos) where
  num_le := by
    have := h.num_le
    simp only [num_removeSlave]
    omega
  key_range := by
    intro i hi
    have hi' : i + 1 < slaves.num := by simp at hi; omega
    rw [node_removeSlave hpos h.num_le hi']
    split
    · exact h.key_range i (by omega)
    · exact h.key_range (i + 1) hi'
  sorted := by
    rw [keys_removeSlave hpos h.num_le]
    exact h.sorted.eraseIdx pos

/-- Every accepted change keeps the ring invariant. -/
theorem RingInv.of_changeList {change : ListChange} {slaves' : SlaveList}
    (h : RingInv slaves) (hchange : changeList slaves change = some slaves') :
    RingInv slaves' := by
  cases change with
  | add sn rand =>
      simp only [changeList, Option.ite_none_right_eq_some,
        Option.some.injEq] at hchange
      obtain ⟨hmax, rfl⟩ := hchange
      exact h.of_addToSlaveList hmax sn rand
  | del pos =>
      simp only [changeList, Option.ite_none_right_eq_some,
        Option.some.injEq] at hchange
      obtain ⟨hpos, rfl⟩ := hchange
      exact h.of_removeSlave hpos

end Changes

/-- Every list reached by registrations and departures is a ring. -/
theorem ringInv_of_run {changes : List ListChange} {slaves : SlaveList}
    (hrun : run changeList SlaveList.empty changes = some slaves) :
    RingInv slaves :=
  run_invariant RingInv (fun _ _ _ h hstep => h.of_changeList hstep) hrun ringInv_empty

/-- The announced position lies behind an existing node, or is the first. -/
theorem newpos_eq (slaves : SlaveList) (hring : RingInv slaves) (sn : SlaveNode)
    (rand : Nat) (hmax : slaves.num < MAX_SLAVE_NUM) :
    (addToSlaveList slaves sn rand).2 ≤ slaves.num ∧
      (0 < slaves.num → 0 < (addToSlaveList slaves sn rand).2) := by
  rcases Nat.eq_zero_or_pos slaves.num with hzero | hpos
  · rw [addToSlaveList_of_empty sn rand hzero]
    exact ⟨Nat.zero_le _, fun hpos => absurd hpos (by omega)⟩
  · have hfind := hring.find_lt hpos
    rw [addToSlaveList_of_pos sn rand hpos hmax hfind]
    exact ⟨hfind, fun _ => Nat.succ_pos _⟩

/-- The ring of `n` slaves that register one after another from the ports 1 to
`n`, the first one with key 0. -/
def ringOf : Nat → SlaveList
  | 0 => SlaveList.empty
  | n + 1 => (addToSlaveList (ringOf n) ⟨0, (n + 1 : Nat), 0, 0⟩ 0).1

theorem num_addToSlaveList (slaves : SlaveList) (sn : SlaveNode) (rand : Nat) :
    (addToSlaveList slaves sn rand).1.num = slaves.num + 1 := by
  unfold addToSlaveList
  split <;> rfl

theorem num_ringOf (n : Nat) : (ringOf n).num = n := by
  induction n with
  | zero => rfl
  | succ n ih => rw [ringOf, num_addToSlaveList, ih]

theorem ringInv_ringOf {n : Nat} (hn : n ≤ MAX_SLAVE_NUM) : RingInv (ringOf n) := by
  induction n with
  | zero => exact ringInv_empty
  | succ n ih =>
      have hmax : (ringOf n).num < MAX_SLAVE_NUM := by
        rw [num_ringOf]
        omega
      exact (ih (by omega)).of_addToSlaveList hmax _ 0

/-- **The ring invariant over whole runs.**  In every non-empty list reached by
registrations and departures, the keys are in range, pairwise distinct and a
rotation of a strictly increasing sequence, and the sections have lengths in
`[1, MAX_KEY]` that add up to `MAX_KEY`. -/
theorem ring_of_changes (changes : List ListChange) (slaves : SlaveList)
    (hrun : run changeList SlaveList.empty changes = some slaves)
    (hpos : 0 < slaves.num) :
    (∀ i, i < slaves.num →
        0 ≤ (slaves.node i).key ∧ (slaves.node i).key < MAX_KEY) ∧
      (∀ i j, i < slaves.num → j < slaves.num → i ≠ j →
        (slaves.node i).key ≠ (slaves.node j).key) ∧
      (∃ s : List Int, s ~r slaves.keys ∧ s.Pairwise (· < ·)) ∧
      (∀ i, i < slaves.num →
        1 ≤ getLength slaves i ∧ getLength slaves i ≤ MAX_KEY) ∧
      ∑ i ∈ Finset.range slaves.num, getLength slaves i = MAX_KEY := by
  have hring := ringInv_of_run hrun
  refine ⟨hring.key_range, ?_, hring.sorted, ?_, hring.sum_getLength hpos⟩
  · intro i j hi hj hij
    exact hring.key_ne hi hj hij
  · intro i hi
    exact hring.getLength_range hi

/-- Three registrations, a departure from the middle, and one more registration. -/
def sampleChanges : List ListChange :=
  [.add ⟨0, 1, 0, 0⟩ 7, .add ⟨0, 2, 0, 0⟩ 0, .add ⟨0, 3, 0, 0⟩ 0, .del 1,
    .add ⟨0, 4, 0, 0⟩ 0]

theorem ring_of_sampleChanges :
    ∃ slaves, run changeList SlaveList.empty sampleChanges = some slaves ∧
      slaves.keys = [7, 1007, 2007] ∧
      ∑ i ∈ Finset.range slaves.num, getLength slaves i = MAX_KEY := by
  cases hrun : run changeList SlaveList.empty sampleChanges with
  | none => exact absurd hrun (by decide)
  | some slaves =>
      have hkeys : (run changeList SlaveList.empty sampleChanges).map SlaveList.keys =
          some [7, 1007, 2007] := by decide
      rw [hrun] at hkeys
      have hk : slaves.keys = [7, 1007, 2007] := by simpa using hkeys
      have hpos : 0 < slaves.num := by
        rw [← slaves.length_keys, hk]
        decide
      exact ⟨slaves, rfl, hk, (ring_of_changes sampleChanges slaves hrun hpos).2.2.2.2⟩

end DistributedDB
