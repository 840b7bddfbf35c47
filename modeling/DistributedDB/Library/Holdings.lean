import Mathlib.Tactic

/-!
# What a group of workers holds

Each of `n` workers holds at most one item.  A worker that takes an item adds it to
what the group holds, and, read backwards, one that lets go of it removes it; up to the
order the other items stay.

**Results.**
* `holdings_take`: one worker takes an item.
-/

namespace DistributedDB

universe u

variable {α : Type u} {n : Nat}

/-- The items that the workers hold. -/
def holdings (held : Fin n → Option α) : List α :=
  (List.finRange n).filterMap held

theorem mem_holdings {held : Fin n → Option α} {x : α} :
    x ∈ holdings held ↔ ∃ w, held w = some x := by
  simp [holdings, List.mem_filterMap]

theorem holdings_eq_nil_iff {held : Fin n → Option α} :
    holdings held = [] ↔ ∀ w, held w = none := by
  simp [holdings, List.filterMap_eq_nil_iff]

/-- Along a list of workers without repetition. -/
theorem filterMap_take_perm {workers : List (Fin n)} (hnodup : workers.Nodup) {w : Fin n}
    (hw : w ∈ workers) {held held' : Fin n → Option α} {x : α} (hfree : held w = none)
    (htaken : held' w = some x) (hothers : ∀ v, v ≠ w → held' v = held v) :
    (workers.filterMap held').Perm (x :: workers.filterMap held) := by
  induction workers with
  | nil => cases hw
  | cons v workers ih =>
      obtain ⟨hv, hrest⟩ := List.nodup_cons.mp hnodup
      rcases eq_or_ne v w with rfl | hne
      · have hsame : workers.filterMap held' = workers.filterMap held := by
          refine List.filterMap_congr fun u hu => hothers u ?_
          rintro rfl
          exact hv hu
        rw [List.filterMap_cons_some htaken, List.filterMap_cons_none hfree, hsame]
      · have hperm := ih hrest ((List.mem_cons.mp hw).resolve_left hne.symm)
        cases hheld : held v with
        | none =>
            rw [List.filterMap_cons_none hheld,
              List.filterMap_cons_none ((hothers v hne).trans hheld)]
            exact hperm
        | some y =>
            rw [List.filterMap_cons_some hheld,
              List.filterMap_cons_some ((hothers v hne).trans hheld)]
            exact (hperm.cons y).trans (List.Perm.swap x y _)

/-- **A worker without an item takes one.** -/
theorem holdings_take {held held' : Fin n → Option α} {w : Fin n} {x : α}
    (hfree : held w = none) (htaken : held' w = some x)
    (hothers : ∀ v, v ≠ w → held' v = held v) :
    (holdings held').Perm (x :: holdings held) :=
  filterMap_take_perm (List.nodup_finRange n) (List.mem_finRange w) hfree htaken hothers

end DistributedDB
