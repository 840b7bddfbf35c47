import Mathlib.Data.List.Rotate
import Mathlib.Data.List.Count
import Mathlib.Algebra.BigOperators.Group.List.Basic
import Mathlib.Algebra.Order.Group.Defs
import Mathlib.Tactic

/-!
# Rings of points on a circle

A ring is a list whose consecutive entries, closed up from the last entry back
to the first, cut a circle into half-open sections.  The points come from an
arbitrary linear order; a list is in cyclic order when some rotation of it is
strictly increasing.

**Results.**
* `countP_sections_eq_one` and `existsUnique_section`: the sections of a ring
  in cyclic order partition the order, so every point has one owner.
* `sum_gap_sections`: the lengths of the sections add up to the circumference.
* `CyclicSorted.insertIdx` and `CyclicSorted.eraseIdx`: inserting a point inside
  a section and deleting any point keep the cyclic order.
-/

namespace DistributedDB
namespace CyclicOrder

universe u

variable {α : Type u}

section Intervals

variable [LinearOrder α]

/-- The half-open arc from `a` (excluded) forward to `b` (included); the whole
circle when the two ends coincide. -/
def CyclicIoc (a b x : α) : Prop :=
  if a < b then a < x ∧ x ≤ b else a < x ∨ x ≤ b

/-- The open arc from `a` forward to `b`. -/
def CyclicIoo (a b x : α) : Prop :=
  if a < b then a < x ∧ x < b else a < x ∨ x < b

instance (a b x : α) : Decidable (CyclicIoc a b x) := by
  unfold CyclicIoc
  infer_instance

instance (a b x : α) : Decidable (CyclicIoo a b x) := by
  unfold CyclicIoo
  infer_instance

theorem cyclicIoc_of_lt {a b : α} (hab : a < b) (x : α) :
    CyclicIoc a b x ↔ a < x ∧ x ≤ b := by
  simp [CyclicIoc, hab]

theorem cyclicIoc_of_le {a b : α} (hba : b ≤ a) (x : α) :
    CyclicIoc a b x ↔ a < x ∨ x ≤ b := by
  simp [CyclicIoc, not_lt.mpr hba]

theorem cyclicIoo_of_lt {a b : α} (hab : a < b) (x : α) :
    CyclicIoo a b x ↔ a < x ∧ x < b := by
  simp [CyclicIoo, hab]

theorem cyclicIoo_of_le {a b : α} (hba : b ≤ a) (x : α) :
    CyclicIoo a b x ↔ a < x ∨ x < b := by
  simp [CyclicIoo, not_lt.mpr hba]

end Intervals

/-- The consecutive pairs of a ring, the last one closing the circle. -/
def sections (l : List α) : List (α × α) :=
  l.zip (l.rotate 1)

@[simp] theorem length_sections (l : List α) :
    (sections l).length = l.length := by
  simp [sections]

theorem getElem_sections (l : List α) (i : Nat)
    (hs : i < (sections l).length)
    (hi : i < l.length) (hnext : (i + 1) % l.length < l.length) :
    (sections l)[i] = (l[i], l[(i + 1) % l.length]) := by
  simp [sections, List.getElem_rotate]

/-- Turning a ring turns its sections with it. -/
theorem sections_rotate (l : List α) (n : Nat) :
    sections (l.rotate n) = (sections l).rotate n := by
  have hlen : l.length = (l.rotate 1).length := by simp
  have hzip := List.zipWith_rotate_distrib Prod.mk l (l.rotate 1) n hlen
  simp only [sections, List.zip]
  rw [hzip, List.rotate_rotate, List.rotate_rotate, Nat.add_comm n 1]

theorem sections_perm {s l : List α} (h : s ~r l) :
    (sections s).Perm (sections l) := by
  obtain ⟨n, rfl⟩ := h
  rw [sections_rotate]
  exact (List.rotate_perm _ n).symm

/-- A closed chain of at least one point lists its consecutive pairs. -/
theorem sections_cons (c : α) (cs : List α) :
    sections (c :: cs) = (c :: cs).zip (cs ++ [c]) := by
  simp [sections]

theorem insertIdx_eq_take_drop (x : α) :
    ∀ (l : List α) (i : Nat), i ≤ l.length →
      l.insertIdx i x = l.take i ++ x :: l.drop i
  | _, 0, _ => by simp
  | [], i + 1, h => by simp at h
  | a :: l, i + 1, h => by
      have hi : i ≤ l.length := by simpa using h
      simp [insertIdx_eq_take_drop x l i hi]

/-- Inserting a point behind index `i` is, up to a turn, putting it in front of
the ring that starts after `i`. -/
theorem insertIdx_isRotated (l : List α) {i : Nat} (hi : i < l.length) (x : α) :
    (x :: l.rotate (i + 1)) ~r l.insertIdx (i + 1) x := by
  have hle : i + 1 ≤ l.length := hi
  rw [List.rotate_eq_drop_append_take hle, insertIdx_eq_take_drop x l _ hle]
  exact List.isRotated_append (l := x :: l.drop (i + 1))

/-- A list is in cyclic order when some rotation of it is strictly increasing. -/
def CyclicSorted [LT α] (l : List α) : Prop :=
  ∃ s : List α, s ~r l ∧ s.Pairwise (· < ·)

section Partition

variable [LinearOrder α]

/-- Every point of an increasing list is at most its last. -/
theorem le_getLast {l : List α} (hs : l.Pairwise (· < ·))
    (hne : l ≠ []) {y : α} (hy : y ∈ l) :
    y ≤ l.getLast hne :=
  (hs.imp le_of_lt).rel_getLast hy

/-- Along an increasing chain from `c` to `z`, the pairs that contain `x` are
counted once when `x` lies between the ends, and the closing pair counts for
itself. -/
theorem countP_chain (x e z : α) :
    ∀ (c : α) (cs : List α), (c :: cs).Pairwise (· < ·) →
      (c :: cs).getLast (List.cons_ne_nil c cs) = z →
      ((c :: cs).zip (cs ++ [e])).countP (fun s => CyclicIoc s.1 s.2 x) =
        (if c < x ∧ x ≤ z then 1 else 0) + (if CyclicIoc z e x then 1 else 0)
  | c, [], _, hz => by
      have hcz : c = z := hz
      subst hcz
      have hno : ¬ (c < x ∧ x ≤ c) := fun h => absurd h.1 (not_lt.mpr h.2)
      simp [List.countP_cons, hno]
  | c, d :: ds, hs, hz => by
      have hcd : c < d := (List.pairwise_cons.mp hs).1 d (by simp)
      have hds := (List.pairwise_cons.mp hs).2
      rw [List.getLast_cons (List.cons_ne_nil d ds)] at hz
      have hdz : d ≤ z := hz ▸ le_getLast hds (List.cons_ne_nil d ds) (by simp)
      have ih := countP_chain x e z d ds hds hz
      rw [List.cons_append, List.zip_cons_cons, List.countP_cons, ih]
      simp only [cyclicIoc_of_lt hcd, decide_eq_true_eq]
      by_cases h1 : c < x
      · by_cases h2 : x ≤ d
        · have h3 : x ≤ z := h2.trans hdz
          simp only [h1, h2, h3, not_lt.mpr h2, and_true, and_self,
            if_true, if_false]
          omega
        · have h4 : d < x := not_le.mp h2
          simp only [h1, h2, h4, true_and, if_false, Nat.add_zero]
      · have h4 : ¬ d < x := fun h => h1 (hcd.trans h)
        simp only [h1, h4, false_and, if_false, Nat.add_zero]

/-- **The sections of a ring partition the circle.** -/
theorem countP_sections_eq_one {l : List α}
    (hl : CyclicSorted l) (hne : l ≠ []) (x : α) :
    (sections l).countP (fun s => CyclicIoc s.1 s.2 x) = 1 := by
  obtain ⟨s, hrot, hs⟩ := hl
  rw [← (sections_perm hrot).countP_eq]
  cases s with
  | nil => exact absurd (List.isRotated_nil_iff'.mp hrot).symm hne
  | cons c cs =>
      have hlast := le_getLast hs (List.cons_ne_nil c cs) (by simp : c ∈ c :: cs)
      rw [sections_cons, countP_chain x c _ c cs hs rfl]
      generalize (c :: cs).getLast (List.cons_ne_nil c cs) = z at hlast ⊢
      simp only [cyclicIoc_of_le hlast]
      by_cases h1 : c < x
      · by_cases h2 : x ≤ z
        · simp [h1, h2, not_lt.mpr h2]
        · simp [h2, not_le.mp h2]
      · simp [h1, not_lt.mp h1]

/-- A predicate that holds of one entry of a list holds at one index. -/
theorem existsUnique_of_countP_eq_one {β : Type*} (p : β → Bool) :
    ∀ l : List β, l.countP p = 1 →
      ∃! i, ∃ h : i < l.length, p l[i] = true
  | [], h => by simp at h
  | b :: l, h => by
      rw [List.countP_cons] at h
      by_cases hb : p b = true
      · have hz : l.countP p = 0 := by simpa [hb] using h
        refine ⟨0, ⟨by simp, by simpa using hb⟩, ?_⟩
        rintro (_ | j) ⟨hj, hpj⟩
        · rfl
        · have hjl : j < l.length := by simpa using hj
          have hno := (List.countP_eq_zero.mp hz) l[j] (List.getElem_mem hjl)
          exact absurd (by simpa using hpj) hno
      · have hone : l.countP p = 1 := by simpa [hb] using h
        obtain ⟨i, ⟨hi, hpi⟩, huniq⟩ := existsUnique_of_countP_eq_one p l hone
        refine ⟨i + 1, ⟨by simpa using hi, by simpa using hpi⟩, ?_⟩
        rintro (_ | j) ⟨hj, hpj⟩
        · exact absurd (by simpa using hpj) hb
        · have := huniq j ⟨by simpa using hj, by simpa using hpj⟩
          omega

/-- **Every point of the circle is owned by one section of the ring.** -/
theorem existsUnique_section {l : List α}
    (hl : CyclicSorted l) (hne : l ≠ []) (x : α) :
    ∃! i, ∃ h : i < (sections l).length,
      CyclicIoc (sections l)[i].1 (sections l)[i].2 x := by
  have hone := countP_sections_eq_one hl hne x
  simpa using existsUnique_of_countP_eq_one _ _ hone

end Partition

section Gaps

variable [AddCommGroup α] [LinearOrder α]

/-- The forward distance from `a` to `b` on a circle of circumference `m`. -/
def gap (m a b : α) : α :=
  if a < b then b - a else b - a + m

theorem sum_gap_chain (m e : α) :
    ∀ (c : α) (cs : List α), (c :: cs).Pairwise (· < ·) →
      (((c :: cs).zip (cs ++ [e])).map (fun s => gap m s.1 s.2)).sum =
        ((c :: cs).getLast (List.cons_ne_nil c cs) - c) +
          gap m ((c :: cs).getLast (List.cons_ne_nil c cs)) e
  | c, [], _ => by simp
  | c, d :: ds, hs => by
      have hcd : c < d := (List.pairwise_cons.mp hs).1 d (by simp)
      have hgap : gap m c d = d - c := by simp [gap, hcd]
      have ih := sum_gap_chain m e d ds (List.pairwise_cons.mp hs).2
      rw [List.cons_append, List.zip_cons_cons, List.map_cons, List.sum_cons, ih]
      rw [List.getLast_cons (List.cons_ne_nil d ds), hgap]
      abel

/-- **The sections of a ring add up to the circumference.** -/
theorem sum_gap_sections (m : α) {l : List α}
    (hl : CyclicSorted l) (hne : l ≠ []) :
    ((sections l).map (fun s => gap m s.1 s.2)).sum = m := by
  obtain ⟨s, hrot, hs⟩ := hl
  rw [← ((sections_perm hrot).map _).sum_eq]
  cases s with
  | nil => exact absurd (List.isRotated_nil_iff'.mp hrot).symm hne
  | cons c cs =>
      have hlast := le_getLast hs (List.cons_ne_nil c cs) (by simp : c ∈ c :: cs)
      rw [sections_cons, sum_gap_chain m c c cs hs]
      generalize (c :: cs).getLast (List.cons_ne_nil c cs) = z at hlast ⊢
      have hgap : gap m z c = c - z + m := by simp [gap, not_lt.mpr hlast]
      rw [hgap]
      abel

end Gaps

section Changes

variable [LinearOrder α]

theorem CyclicSorted.of_isRotated {s l : List α}
    (hs : CyclicSorted s) (h : s ~r l) :
    CyclicSorted l := by
  obtain ⟨t, hrot, ht⟩ := hs
  exact ⟨t, hrot.trans h, ht⟩

theorem CyclicSorted.nodup {l : List α} (hl : CyclicSorted l) : l.Nodup := by
  obtain ⟨s, hrot, hs⟩ := hl
  exact hrot.nodup_iff.mp (hs.imp (fun h => ne_of_lt h))

theorem cyclicSorted_nil : CyclicSorted ([] : List α) :=
  ⟨[], List.IsRotated.refl _, List.Pairwise.nil⟩

theorem cyclicSorted_singleton (a : α) : CyclicSorted [a] :=
  ⟨[a], List.IsRotated.refl _, List.pairwise_singleton _ a⟩

/-- A ring in cyclic order is two increasing runs, every entry of the second
below every entry of the first. -/
theorem CyclicSorted.exists_append {l : List α} (hl : CyclicSorted l) :
    ∃ a b : List α, l = a ++ b ∧ (b ++ a).Pairwise (· < ·) := by
  obtain ⟨s, hrot, hs⟩ := hl
  obtain ⟨n, hn, rfl⟩ := List.isRotated_iff_mod.mp hrot
  refine ⟨s.drop n, s.take n, List.rotate_eq_drop_append_take hn, ?_⟩
  rw [List.take_append_drop]
  exact hs

theorem cyclicSorted_append {a b : List α}
    (h : (b ++ a).Pairwise (· < ·)) :
    CyclicSorted (a ++ b) :=
  ⟨b ++ a, List.isRotated_append, h⟩

/-- Deleting a point keeps the cyclic order. -/
theorem CyclicSorted.eraseIdx {l : List α}
    (hl : CyclicSorted l) (i : Nat) :
    CyclicSorted (l.eraseIdx i) := by
  obtain ⟨a, b, rfl, hs⟩ := hl.exists_append
  by_cases hi : i < a.length
  · rw [List.eraseIdx_append_of_lt_length hi]
    have hsub := (List.Sublist.refl b).append (List.eraseIdx_sublist a i)
    exact cyclicSorted_append (hs.sublist hsub)
  · rw [List.eraseIdx_append_of_length_le (not_lt.mp hi)]
    have hsub := (List.eraseIdx_sublist b (i - a.length)).append (List.Sublist.refl a)
    exact cyclicSorted_append (hs.sublist hsub)

/-- Putting a point of the closing section in front keeps the cyclic order. -/
theorem CyclicSorted.cons {m : List α}
    (hm : CyclicSorted m) (hne : m ≠ []) {x : α}
    (hx : CyclicIoo (m.getLast hne) (m.head hne) x) :
    CyclicSorted (x :: m) := by
  obtain ⟨a, b, rfl, hs⟩ := hm.exists_append
  obtain ⟨hb, ha, hba⟩ := List.pairwise_append.mp hs
  -- One run is empty: the closing section passes the top of the order.
  have hone : ∀ c : List α, ∀ hc : c ≠ [], c.Pairwise (· < ·) →
      CyclicIoo (c.getLast hc) (c.head hc) x → CyclicSorted (x :: c) := by
    intro c hc hcs hcx
    obtain ⟨d, ds, rfl⟩ := List.exists_cons_of_ne_nil hc
    have hlast := le_getLast hcs hc (by simp : d ∈ d :: ds)
    rcases (cyclicIoo_of_le hlast x).mp hcx with hgt | hlt
    · have hsnoc : ((d :: ds) ++ [x]).Pairwise (· < ·) := by
        refine List.pairwise_append.mpr ⟨hcs, List.pairwise_singleton _ x, ?_⟩
        intro y hy z hz
        rw [List.mem_singleton.mp hz]
        exact lt_of_le_of_lt (le_getLast hcs hc hy) hgt
      exact cyclicSorted_append (a := [x]) hsnoc
    · have hcons : (x :: d :: ds).Pairwise (· < ·) := by
        refine List.pairwise_cons.mpr ⟨?_, hcs⟩
        intro y hy
        rcases List.mem_cons.mp hy with rfl | hy
        · exact hlt
        · exact hlt.trans ((List.pairwise_cons.mp hcs).1 y hy)
      exact ⟨_, List.IsRotated.refl _, hcons⟩
  cases a with
  | nil =>
      simp only [List.nil_append] at hne hx ⊢
      exact hone b hne hb hx
  | cons d ds =>
      cases b with
      | nil =>
          simp only [List.append_nil] at hne hx ⊢
          exact hone (d :: ds) hne ha hx
      | cons e es =>
          have hlast := List.getLast_mem (List.cons_ne_nil e es)
          have hends := hba _ hlast d (by simp)
          rw [List.getLast_append_of_ne_nil _ (List.cons_ne_nil e es)] at hx
          have hxd := (cyclicIoo_of_lt hends x).mp hx
          refine cyclicSorted_append (a := x :: d :: ds) (List.pairwise_append.mpr ⟨hb, ?_, ?_⟩)
          · refine List.pairwise_cons.mpr ⟨?_, ha⟩
            intro y hy
            rcases List.mem_cons.mp hy with rfl | hy
            · exact hxd.2
            · exact hxd.2.trans ((List.pairwise_cons.mp ha).1 y hy)
          · intro y hy z hz
            rcases List.mem_cons.mp hz with rfl | hz
            · exact lt_of_le_of_lt (le_getLast hb (List.cons_ne_nil e es) hy) hxd.1
            · exact hba y hy z hz

/-- **Inserting a point of a section behind its lower end keeps the cyclic
order.** -/
theorem CyclicSorted.insertIdx {l : List α}
    (hl : CyclicSorted l) {i : Nat}
    (hi : i < l.length) (hnext : (i + 1) % l.length < l.length) {x : α}
    (hx : CyclicIoo l[i] l[(i + 1) % l.length] x) :
    CyclicSorted (l.insertIdx (i + 1) x) := by
  have hrot : CyclicSorted (l.rotate (i + 1)) :=
    hl.of_isRotated (List.IsRotated.forall l (i + 1)).symm
  have hne : l.rotate (i + 1) ≠ [] := by
    rw [Ne, List.rotate_eq_nil_iff]
    rintro rfl
    simp at hi
  have hfirst : (l.rotate (i + 1)).head hne = l[(i + 1) % l.length] := by
    simp [List.head_eq_getElem, List.getElem_rotate]
  have hlast : (l.rotate (i + 1)).getLast hne = l[i] := by
    have hturn : (l.length - 1 + (i + 1)) % l.length = i := by
      rw [show l.length - 1 + (i + 1) = i + l.length by omega]
      rw [Nat.add_mod_right, Nat.mod_eq_of_lt hi]
    simp [List.getLast_eq_getElem, List.getElem_rotate, hturn]
  refine (hrot.cons hne ?_).of_isRotated (insertIdx_isRotated l hi x)
  rw [hfirst, hlast]
  exact hx

end Changes

end CyclicOrder
end DistributedDB
