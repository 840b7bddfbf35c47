import Mathlib.Tactic

/-!
# Positions in a ring of nodes

Positions `0, …, n - 1` in a ring, addressed forwards and backwards modulo `n`,
and how they shift when a node is inserted or removed.

**Results.**
* `exists_turn`: one turn round the ring visits every position.
* `back_add`: going back and forth.
* `oldIndex_succ`: removing node `r` keeps the successor of every node but the
  predecessor of `r`; `oldIndex_back_succ` and `oldIndex_back_two` are about that
  one.
* `newIndex_succ`: the same read as an insertion.
-/

namespace DistributedDB
namespace RingIndex

theorem mod_of_lt_two_mul {i num : Nat} (h : i < 2 * num) :
    i % num = if i < num then i else i - num := by
  rcases Nat.lt_or_ge i num with hlt | hge
  · rw [if_pos hlt, Nat.mod_eq_of_lt hlt]
  · rw [if_neg (by omega), Nat.mod_eq_sub_mod hge, Nat.mod_eq_of_lt (by omega)]

/-- The successor of a position. -/
theorem succ_mod {n j : Nat} (hj : j < n) :
    (j + 1) % n = if j + 1 < n then j + 1 else 0 := by
  rw [mod_of_lt_two_mul (by omega)]
  split <;> omega

theorem succ_mod_ne {n j : Nat} (hj : j < n) (hn : 1 < n) : (j + 1) % n ≠ j := by
  rw [succ_mod hj]
  split <;> omega

theorem two_mod_ne {n j : Nat} (hj : j < n) (hn : 2 < n) : (j + 2) % n ≠ j := by
  rw [mod_of_lt_two_mul (by omega)]
  split <;> omega

/-- In a ring of at most two nodes the second successor is the node itself. -/
theorem two_mod_eq {n j : Nat} (hj : j < n) (hn : n ≤ 2) : (j + 2) % n = j := by
  rcases Nat.lt_or_ge 1 n with htwo | hone
  · obtain rfl : n = 2 := by omega
    omega
  · obtain rfl : n = 1 := by omega
    omega

theorem add_two_mod (n j : Nat) : (j + 2) % n = ((j + 1) % n + 1) % n := by
  rw [Nat.mod_add_mod]

/-- Going round from any number on comes to every position within one turn. -/
theorem exists_turn {n i : Nat} (p : Nat) (hi : i < n) :
    ∃ m, 0 < m ∧ m ≤ n ∧ (p + m) % n = i := by
  have hlt := Nat.mod_lt p (Nat.lt_of_le_of_lt (Nat.zero_le _) hi)
  have hmod : ∀ m, (p + m) % n = (p % n + m) % n := by
    intro m
    rw [Nat.mod_add_mod]
  rcases Nat.lt_or_ge (p % n) i with hpi | hpi
  · refine ⟨i - p % n, by omega, by omega, ?_⟩
    rw [hmod, Nat.add_sub_cancel' (by omega), Nat.mod_eq_of_lt hi]
  · refine ⟨i + n - p % n, by omega, by omega, ?_⟩
    rw [hmod, Nat.add_sub_cancel' (by omega), Nat.add_mod_right, Nat.mod_eq_of_lt hi]

/-- The position `k` places back. -/
def back (n i k : Nat) : Nat :=
  (i + n - k) % n

section Back

variable {n i j k : Nat}

theorem back_lt (hn : 0 < n) : back n i k < n :=
  Nat.mod_lt _ hn

theorem back_eq (hi : i ≤ n) (hk : k ≤ n) (hpos : 0 < k) :
    back n i k = if k ≤ i then i - k else i + n - k := by
  unfold back
  rw [mod_of_lt_two_mul (by omega)]
  split <;> split <;> omega

/-- Going back and forth. -/
theorem back_add (m : Nat) (hk : k ≤ n) :
    (back n i k + (k + m)) % n = (i + m) % n := by
  unfold back
  rw [Nat.mod_add_mod]
  have hsum : i + n - k + (k + m) = i + m + n := by omega
  rw [hsum, Nat.add_mod_right]

theorem back_one_succ (hi : i < n) : (back n i 1 + 1) % n = i := by
  have h := back_add (i := i) 0 (show 1 ≤ n by omega)
  simp only [Nat.add_zero, Nat.mod_eq_of_lt hi] at h
  exact h

theorem back_one_ne (hi : i < n) (hn : 1 < n) : back n i 1 ≠ i := by
  rw [back_eq (by omega) (by omega) (by omega)]
  split <;> omega

theorem back_two_ne (hi : i < n) (hn : 2 < n) : back n i 2 ≠ i := by
  rw [back_eq (by omega) (by omega) (by omega)]
  split <;> omega

theorem back_one_ne_back_two (hi : i ≤ n) (hn : 1 < n) : back n i 1 ≠ back n i 2 := by
  rw [back_eq hi (by omega) (by omega), back_eq hi (by omega) (by omega)]
  split <;> split <;> omega

/-- The successor is one place back exactly when the node is two places back. -/
theorem succ_eq_back_iff (hi : i ≤ n) (hj : j < n) (hk : k + 1 ≤ n) (hpos : 0 < k) :
    (j + 1) % n = back n i k ↔ j = back n i (k + 1) := by
  rw [succ_mod hj, back_eq hi (by omega) hpos, back_eq hi hk (by omega)]
  split <;> split <;> split <;> omega

/-- The second successor is one place back exactly when the node is three places
back. -/
theorem add_two_eq_back_one_iff (hi : i ≤ n) (hj : j < n) (hn : 2 < n) :
    (j + 2) % n = back n i 1 ↔ j = back n i 3 := by
  rw [add_two_mod, succ_eq_back_iff hi (Nat.mod_lt _ (by omega)) (by omega) (by omega),
    succ_eq_back_iff hi hj (by omega) (by omega)]

/-- The successor is node `i` exactly when the node is one place back. -/
theorem succ_eq_iff (hi : i < n) (hj : j < n) :
    (j + 1) % n = i ↔ j = back n i 1 := by
  rw [succ_mod hj, back_eq (by omega) (by omega) (by omega)]
  split <;> split <;> omega

end Back

/-- The position before the removal of node `r` of the node at `j` after it. -/
def oldIndex (r j : Nat) : Nat :=
  if j < r then j else j + 1

/-- The position after the removal of node `r` of another node at `i`. -/
def newIndex (r i : Nat) : Nat :=
  if r < i then i - 1 else i

section Removal

variable {n r i j : Nat}

theorem oldIndex_lt (hj : j + 1 < n) : oldIndex r j < n := by
  simp only [oldIndex]
  split <;> omega

theorem oldIndex_ne (r j : Nat) : oldIndex r j ≠ r := by
  simp only [oldIndex]
  split <;> omega

theorem newIndex_lt (hr : r ≤ n) (hi : i ≤ n) (hne : i ≠ r) : newIndex r i < n := by
  simp only [newIndex]
  split <;> omega

theorem oldIndex_newIndex (hne : i ≠ r) : oldIndex r (newIndex r i) = i := by
  simp only [oldIndex, newIndex]
  split <;> split <;> omega

theorem newIndex_oldIndex (r j : Nat) : newIndex r (oldIndex r j) = j := by
  simp only [oldIndex, newIndex]
  split <;> split <;> omega

theorem oldIndex_inj (h : oldIndex r i = oldIndex r j) : i = j := by
  rw [← newIndex_oldIndex r i, h, newIndex_oldIndex]

theorem newIndex_inj (hi : i ≠ r) (hj : j ≠ r) (h : newIndex r i = newIndex r j) :
    i = j := by
  rw [← oldIndex_newIndex hi, h, oldIndex_newIndex hj]

/-- The predecessor of the removed node, before and after. -/
theorem oldIndex_back (hr : r ≤ n) (hn : 0 < n) :
    oldIndex r (back n r 1) = back (n + 1) r 1 := by
  rw [back_eq hr (by omega) (by omega), back_eq (by omega) (by omega) (by omega), oldIndex]
  split <;> split <;> omega

/-- The removed node came behind its predecessor. -/
theorem oldIndex_back_succ (hr : r ≤ n) (hn : 0 < n) :
    (oldIndex r (back n r 1) + 1) % (n + 1) = r := by
  rw [oldIndex_back hr hn]
  exact back_one_succ (by omega)

/-- All other successors stay. -/
theorem oldIndex_succ (hr : r ≤ n) (hj : j < n) (hne : j ≠ back n r 1) :
    oldIndex r ((j + 1) % n) = (oldIndex r j + 1) % (n + 1) := by
  rw [back_eq hr (by omega) (by omega)] at hne
  rw [succ_mod hj, succ_mod (oldIndex_lt (show j + 1 < n + 1 by omega))]
  simp only [oldIndex]
  split_ifs at hne ⊢ <;> omega

/-- The predecessor's new successor is its old second successor. -/
theorem oldIndex_back_two (hr : r ≤ n) (hn : 0 < n) :
    oldIndex r ((back n r 1 + 1) % n) = (oldIndex r (back n r 1) + 2) % (n + 1) := by
  rw [add_two_mod, oldIndex_back_succ hr hn, succ_mod (back_lt hn), succ_mod (by omega),
    back_eq hr (by omega) (by omega)]
  simp only [oldIndex]
  split_ifs <;> omega

/-- The second predecessor's second successor was the removed node. -/
theorem oldIndex_back_two_add_two (hr : r ≤ n) (hn : 1 < n) :
    (oldIndex r (back n r 2) + 2) % (n + 1) = r := by
  have hne := back_one_ne_back_two (i := r) hr hn
  have hsucc := (succ_eq_back_iff (i := r) (k := 1) hr
    (back_lt (i := r) (k := 2) (show 0 < n by omega)) (by omega) (by omega)).mpr rfl
  rw [add_two_mod, ← oldIndex_succ hr (back_lt (by omega)) hne.symm, hsucc]
  exact oldIndex_back_succ hr (by omega)

/-- All other second successors stay. -/
theorem oldIndex_add_two (hr : r ≤ n) (hj : j < n) (hn : 1 < n)
    (hone : j ≠ back n r 1) (htwo : j ≠ back n r 2) :
    oldIndex r ((j + 2) % n) = (oldIndex r j + 2) % (n + 1) := by
  have hsucc : (j + 1) % n ≠ back n r 1 := by
    rw [ne_eq, succ_eq_back_iff hr hj (by omega) (by omega)]
    exact htwo
  rw [add_two_mod n, add_two_mod (n + 1), ← oldIndex_succ hr hj hone,
    oldIndex_succ hr (Nat.mod_lt _ (by omega)) hsucc]

end Removal

section Insertion

variable {n r i : Nat}

/-- Seen from the ring with the additional node `r`: the predecessor of `r`. -/
theorem newIndex_eq_back_iff (hr : r ≤ n) (hn : 0 < n) (hne : i ≠ r) :
    newIndex r i = back n r 1 ↔ i = back (n + 1) r 1 := by
  rw [← oldIndex_back hr hn]
  constructor
  · intro h
    rw [← h, oldIndex_newIndex hne]
  · rintro rfl
    exact newIndex_oldIndex r _

/-- Inserting node `r` keeps the successor of every node but its predecessor. -/
theorem newIndex_succ (hr : r ≤ n) (hi : i ≤ n) (hne : i ≠ r)
    (hpre : i ≠ back (n + 1) r 1) :
    newIndex r ((i + 1) % (n + 1)) = (newIndex r i + 1) % n := by
  have hlt := newIndex_lt hr hi hne
  have hback : newIndex r i ≠ back n r 1 := by
    rw [ne_eq, newIndex_eq_back_iff hr (by omega) hne]
    exact hpre
  have hsucc := oldIndex_succ hr hlt hback
  rw [oldIndex_newIndex hne] at hsucc
  rw [← hsucc, newIndex_oldIndex]

/-- It keeps the second successor of every node but its two predecessors. -/
theorem newIndex_add_two (hr : r ≤ n) (hi : i ≤ n) (hn : 0 < n) (hne : i ≠ r)
    (hone : i ≠ back (n + 1) r 1) (htwo : i ≠ back (n + 1) r 2) :
    newIndex r ((i + 2) % (n + 1)) = (newIndex r i + 2) % n := by
  have hsucc : (i + 1) % (n + 1) ≠ r := by
    rw [ne_eq, succ_eq_iff (by omega) (by omega)]
    exact hone
  have hsucc' : (i + 1) % (n + 1) ≠ back (n + 1) r 1 := by
    rw [ne_eq, succ_eq_back_iff (by omega) (by omega) (by omega) (by omega)]
    exact htwo
  have hlt := Nat.mod_lt (i + 1) (show 0 < n + 1 by omega)
  rw [add_two_mod (n + 1), newIndex_succ hr (by omega) hsucc hsucc',
    newIndex_succ hr hi hne hone, ← add_two_mod]

/-- The old successor of the new node's predecessor comes behind the new node. -/
theorem newIndex_back_succ (hr : r ≤ n) (hn : 0 < n) :
    newIndex r ((r + 1) % (n + 1)) = (newIndex r (back (n + 1) r 1) + 1) % n := by
  have htwo := oldIndex_back_two hr hn
  have hsucc : (back (n + 1) r 1 + 2) % (n + 1) = (r + 1) % (n + 1) :=
    back_add 1 (by omega)
  rw [oldIndex_back hr hn, hsucc] at htwo
  rw [← htwo, newIndex_oldIndex, ← oldIndex_back hr hn, newIndex_oldIndex]

end Insertion

end RingIndex
end DistributedDB
