import Mathlib.Algebra.BigOperators.Group.Finset.Basic
import DistributedDB.Library.Run

/-!
# Potentials

A run whose steps are paid for from a potential, and from what some of the events bring in,
is not longer than both together.  A potential that is the sum of one weight for each of
infinitely many parts changes with the one part that changes.

**Results.**
* `length_add_le`: the length of a run, and what is left of the potential.
* `owes_add_sum`: what a run adds up.
* `Total.update`: the sum after one part has changed.
-/

namespace DistributedDB
namespace Potential

open Run

universe u v

section Runs

variable {σ : Type u} {ε : Type v} {step : σ → ε → Option σ} {owes : σ → Nat → Prop}
  {cost : ε → Nat}

/-- **A run is not longer than the potential and what the events bring in.** -/
theorem length_add_le
    (hstep : ∀ s e t k, owes s k → step s e = some t → ∃ k', owes t k' ∧
      k' + 1 ≤ k + cost e)
    {s t : σ} {es : List ε} (hrun : run step s es = some t) {k : Nat} (hs : owes s k) :
    ∃ k', owes t k' ∧ k' + es.length ≤ k + (es.map cost).sum := by
  induction es generalizing s k with
  | nil =>
      obtain rfl : s = t := Option.some.inj hrun
      exact ⟨k, hs, le_rfl⟩
  | cons e es ih =>
      obtain ⟨m, hm, hrest⟩ := run_cons_eq_some.mp hrun
      obtain ⟨k', hk', hpaid⟩ := hstep s e m k hs hm
      obtain ⟨j, hj, hlength⟩ := ih hrest hk'
      refine ⟨j, hj, ?_⟩
      rw [List.length_cons, List.map_cons, List.sum_cons]
      omega

/-- **A run adds up what its events bring in**, when each step adds what its event does. -/
theorem owes_add_sum {ok : ε → Prop}
    (hstep : ∀ s e t k, owes s k → ok e → step s e = some t → owes t (k + cost e))
    {s t : σ} {es : List ε} (hrun : run step s es = some t) (hok : ∀ e ∈ es, ok e) {k : Nat}
    (hs : owes s k) : owes t (k + (es.map cost).sum) := by
  induction es generalizing s k with
  | nil =>
      obtain rfl : s = t := Option.some.inj hrun
      exact hs
  | cons e es ih =>
      obtain ⟨m, hm, hrest⟩ := run_cons_eq_some.mp hrun
      obtain ⟨he, hothers⟩ := List.forall_mem_cons.mp hok
      rw [List.map_cons, List.sum_cons, ← Nat.add_assoc]
      exact ih hrest hothers (hstep s e m k hs he hm)

end Runs

section Totals

variable {α : Type u}

/-- The weights are zero outside a finite set, and `k` is their sum. -/
def Total (w : α → Nat) (k : Nat) : Prop :=
  ∃ S : Finset α, (∀ a, a ∉ S → w a = 0) ∧ ∑ a ∈ S, w a = k

theorem total_zero : Total (fun _ : α => 0) 0 :=
  ⟨∅, fun _ _ => rfl, rfl⟩

/-- **The sum changes with one weight.** -/
theorem Total.update [DecidableEq α] {w : α → Nat} {k : Nat} (h : Total w k)
    (a : α) (x : Nat) :
    ∃ k', Total (Function.update w a x) k' ∧ k' + w a = k + x := by
  obtain ⟨S, hzero, rfl⟩ := h
  have hsum : ∑ b ∈ S, w b = w a + ∑ b ∈ S.erase a, w b := by
    by_cases ha : a ∈ S
    · exact (Finset.add_sum_erase S w ha).symm
    · rw [Finset.erase_eq_of_notMem ha, hzero a ha, Nat.zero_add]
  have hrest : ∑ b ∈ S.erase a, Function.update w a x b = ∑ b ∈ S.erase a, w b :=
    Finset.sum_congr rfl fun b hb => Function.update_of_ne (Finset.ne_of_mem_erase hb) _ _
  refine ⟨x + ∑ b ∈ S.erase a, w b, ⟨insert a (S.erase a), fun b hb => ?_, ?_⟩, ?_⟩
  · rw [Finset.mem_insert, not_or] at hb
    rw [Function.update_of_ne hb.1]
    exact hzero b fun hmem => hb.2 (Finset.mem_erase.mpr ⟨hb.1, hmem⟩)
  · rw [Finset.sum_insert (Finset.notMem_erase a S), Function.update_self, hrest]
  · rw [hsum]
    omega

end Totals

end Potential
end DistributedDB
