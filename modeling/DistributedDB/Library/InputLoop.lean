import Mathlib.Tactic

/-!
# Loops that are fed from outside

A loop whose body takes one input in each iteration, over an infinite sequence of inputs.
Each iteration goes on or ends the loop with a result; a loop that has ended stays so.
Whether it ends can depend on all of the inputs.

**Results.**
* `iterate_running`: the loop runs as long as the inputs keep it running.
* `ended_iff`: it ends with a result of a kind exactly when the first input that stops it
  is of that kind.
* `exists_first`, `exists_stop`: the first input with a property, the first one that stops
  the loop.
-/

namespace DistributedDB
namespace InputLoop

universe u v w

variable {σ : Type u} {ι : Type v} {ρ : Type w}

/-- A loop between two iterations. -/
inductive LoopState (σ : Type u) (ρ : Type w) where
  | running (s : σ)
  | ended (r : ρ)
deriving DecidableEq, Repr

/-- The loop after `n` iterations. -/
def iterate (body : σ → ι → LoopState σ ρ) (inputs : Nat → ι) (s : σ) :
    Nat → LoopState σ ρ
  | 0 => .running s
  | n + 1 =>
      match iterate body inputs s n with
      | .running t => body t (inputs n)
      | .ended r => .ended r

variable {body : σ → ι → LoopState σ ρ} {inputs : Nat → ι} {s : σ}

theorem iterate_succ_of_running {n : Nat} {t : σ} (h : iterate body inputs s n = .running t) :
    iterate body inputs s (n + 1) = body t (inputs n) := by
  rw [iterate, h]

/-- A loop that has ended stays so. -/
theorem iterate_of_ended {n m : Nat} {r : ρ} (h : iterate body inputs s n = .ended r)
    (hle : n ≤ m) : iterate body inputs s m = .ended r := by
  induction m, hle using Nat.le_induction with
  | base => exact h
  | succ m _ ih => rw [iterate, ih]

/-- A loop ends with one result. -/
theorem ended_unique {n m : Nat} {r r' : ρ} (h : iterate body inputs s n = .ended r)
    (h' : iterate body inputs s m = .ended r') : r = r' := by
  rcases le_total n m with hle | hle
  · exact LoopState.ended.inj ((iterate_of_ended h hle).symm.trans h')
  · exact LoopState.ended.inj (h.symm.trans (iterate_of_ended h' hle))

/-- The first number with a property. -/
theorem exists_first {p : Nat → Prop} (h : ∃ n, p n) : ∃ n, p n ∧ ∀ i, i < n →
    ¬ p i := by
  classical
  exact ⟨Nat.find h, Nat.find_spec h, fun _ => Nat.find_min h⟩

/-- The loop stops in a good way when all inputs that stop it up to some number do. -/
theorem exists_stop {goesOn good : Nat → Prop} {n : Nat} (hnot : ¬ goesOn n) (hgood : good n)
    (hearlier : ∀ m, m < n → ¬ goesOn m → good m) :
    ∃ m, (∀ i, i < m → goesOn i) ∧ ¬ goesOn m ∧ good m := by
  obtain ⟨m, hm, hbefore⟩ := exists_first (p := fun m => ¬ goesOn m) ⟨n, hnot⟩
  refine ⟨m, fun i hi => not_not.mp (hbefore i hi), hm, ?_⟩
  rcases lt_trichotomy m n with hlt | rfl | hgt
  · exact hearlier m hlt hm
  · exact hgood
  · exact absurd hnot (hbefore n hgt)

section Rules

variable (inv : Nat → σ → Prop) (goesOn : Nat → Prop)

/-- **The loop runs as long as the inputs keep it running.** -/
theorem iterate_running (hinit : inv 0 s)
    (hstep : ∀ n t, inv n t → goesOn n → ∃ t', body t (inputs n) = .running t' ∧
      inv (n + 1) t')
    {n : Nat} (h : ∀ i, i < n → goesOn i) :
    ∃ t, iterate body inputs s n = .running t ∧ inv n t := by
  induction n with
  | zero => exact ⟨s, rfl, hinit⟩
  | succ n ih =>
      obtain ⟨t, ht, hinv⟩ := ih fun i hi => h i (Nat.lt_succ_of_lt hi)
      obtain ⟨t', hbody, hinv'⟩ := hstep n t hinv (h n (Nat.lt_succ_self n))
      exact ⟨t', (iterate_succ_of_running ht).trans hbody, hinv'⟩

/-- **The loop ends with a result of a kind exactly when the first input that stops it is
good for that.** -/
theorem ended_iff (result : ρ → Prop) (good : Nat → Prop) (hinit : inv 0 s)
    (hstep : ∀ n t, inv n t → goesOn n → ∃ t', body t (inputs n) = .running t' ∧
      inv (n + 1) t')
    (hstop : ∀ n t, inv n t → ¬ goesOn n → ∃ r, body t (inputs n) = .ended r ∧
      (result r ↔ good n)) :
    (∃ n r, iterate body inputs s n = .ended r ∧ result r) ↔
      ∃ n, (∀ i, i < n → goesOn i) ∧ ¬ goesOn n ∧ good n := by
  have hend : ∀ n, (∀ i, i < n → goesOn i) → ¬ goesOn n →
      ∃ r, iterate body inputs s (n + 1) = .ended r ∧ (result r ↔ good n) := by
    intro n hbefore hnot
    obtain ⟨t, ht, hinv⟩ := iterate_running inv goesOn hinit hstep hbefore
    obtain ⟨r, hbody, hgood⟩ := hstop n t hinv hnot
    exact ⟨r, (iterate_succ_of_running ht).trans hbody, hgood⟩
  constructor
  · rintro ⟨n, r, hr, hresult⟩
    have hstops : ∃ i, ¬ goesOn i := by
      by_contra hnever
      obtain ⟨t, ht, -⟩ := iterate_running inv goesOn (n := n) hinit hstep fun i _ =>
        not_not.mp fun hnot => hnever ⟨i, hnot⟩
      cases ht.symm.trans hr
    obtain ⟨m, hnot, hbefore⟩ := exists_first hstops
    have hbefore' : ∀ i, i < m → goesOn i := fun i hi => not_not.mp (hbefore i hi)
    obtain ⟨r', hr', hgood⟩ := hend m hbefore' hnot
    obtain rfl := ended_unique hr hr'
    exact ⟨m, hbefore', hnot, hgood.mp hresult⟩
  · rintro ⟨n, hbefore, hnot, hgood⟩
    obtain ⟨r, hr, hiff⟩ := hend n hbefore hnot
    exact ⟨n + 1, r, hr, hiff.mpr hgood⟩

end Rules

end InputLoop
end DistributedDB
