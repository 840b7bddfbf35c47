import Mathlib.Data.Multiset.AddSub
import Mathlib.Data.Nat.Log
import Mathlib.Tactic

/-!
# Halving a largest part, again and again

A whole is cut into parts.  Each step takes a largest part and replaces it by its two
halves, rounded down and up.  As long as there are parts of one generation left to halve,
no part of the next one is halved, so that the parts never belong to more than two
generations.

**Results.**
* `lower` and `upper`: between them lie the parts of generation `k`.
* `Spread.halve`: a step keeps the parts within two generations.
* `Spread.bounds`: the bounds on every part, from the number of the parts.
-/

namespace Halving

/-- The whole `n`, halved `k` times and rounded down. -/
def lower (n : Int) (k : Nat) : Int := n / 2 ^ k

/-- The whole `n`, halved `k` times and rounded up. -/
def upper (n : Int) (k : Nat) : Int := (n + 2 ^ k - 1) / 2 ^ k

section Generations

variable {n : Int}

@[simp] theorem lower_zero : lower n 0 = n := by
  simp [lower]

@[simp] theorem upper_zero : upper n 0 = n := by
  simp [upper]

theorem lower_succ (k : Nat) : lower n (k + 1) = lower n k / 2 := by
  rw [lower, lower, Int.ediv_ediv_of_nonneg (by positivity), pow_succ]

theorem upper_succ (k : Nat) : upper n (k + 1) = (upper n k + 1) / 2 := by
  have hpow : (0 : Int) < 2 ^ k := by positivity
  have hone : upper n k + 1 = (n + 2 ^ k - 1 + 1 * 2 ^ k) / 2 ^ k := by
    rw [Int.add_mul_ediv_right _ _ hpow.ne', upper]
  rw [hone, Int.ediv_ediv_of_nonneg hpow.le, upper, pow_succ]
  congr 1
  ring

theorem lower_pos (hn : 0 ≤ n) (k : Nat) : 0 ≤ lower n k :=
  Int.ediv_nonneg hn (by positivity)

theorem upper_pos (hn : 1 ≤ n) (k : Nat) : 1 ≤ upper n k := by
  induction k with
  | zero => simpa using hn
  | succ k ih =>
      rw [upper_succ]
      omega

/-- Two parts of one generation differ by at most one. -/
theorem upper_le (hn : 1 ≤ n) (k : Nat) : lower n k ≤ upper n k ∧
    upper n k ≤ lower n k + 1 := by
  induction k with
  | zero => simp
  | succ k ih =>
      rw [upper_succ, lower_succ]
      have hlower := lower_pos (n := n) (by omega) k
      omega

/-- A part of generation `k`. -/
def IsPart (n : Int) (k : Nat) (part : Int) : Prop :=
  lower n k ≤ part ∧ part ≤ upper n k

theorem isPart_half {k : Nat} {part : Int} (h : IsPart n k part) :
    IsPart n (k + 1) (part / 2) ∧ IsPart n (k + 1) ((part + 1) / 2) := by
  obtain ⟨hlo, hhi⟩ := h
  simp only [IsPart, lower_succ, upper_succ]
  omega

end Generations

/-- The parts belong to the generations `k` and `k + 1`, and halving those of generation `k`
would give `2 ^ (k + 1)` parts. -/
def Spread (n : Int) (k : Nat) (parts : Multiset Int) : Prop :=
  ∃ old young : Multiset Int, parts = old + young ∧
    (∀ part ∈ old, IsPart n k part) ∧ (∀ part ∈ young, IsPart n (k + 1) part) ∧
    2 * old.card + young.card = 2 ^ (k + 1)

section Spread

variable {n : Int} {k : Nat} {parts rest : Multiset Int} {longest : Int}

/-- The whole itself. -/
theorem spread_whole (n : Int) : Spread n 0 {n} := by
  refine ⟨{n}, 0, by simp, ?_, by simp, by simp⟩
  simp [IsPart]

theorem Spread.card (h : Spread n k parts) :
    2 ^ k ≤ parts.card ∧ parts.card ≤ 2 ^ (k + 1) := by
  obtain ⟨old, young, rfl, -, -, hcard⟩ := h
  rw [Multiset.card_add]
  rw [pow_succ] at *
  omega

/-- When the whole generation is halved, the next one is the old one. -/
theorem Spread.next (h : Spread n k parts) (hfull : parts.card = 2 ^ (k + 1)) :
    Spread n (k + 1) parts := by
  obtain ⟨old, young, rfl, -, hyoung, hcard⟩ := h
  rw [Multiset.card_add] at hfull
  have hold : old = 0 := Multiset.card_eq_zero.mp (by omega)
  subst hold
  refine ⟨young, 0, by simp, hyoung, by simp, ?_⟩
  rw [pow_succ 2 (k + 1), ← hfull]
  simp [Nat.mul_comm]

/-- A largest part belongs to the old generation while there is one. -/
theorem longest_mem_old (hn : 1 ≤ n) {old young : Multiset Int}
    (hold : ∀ part ∈ old, IsPart n k part) (hyoung : ∀ part ∈ young, IsPart n (k + 1) part)
    (hmem : longest ∈ old + young) (hmax : ∀ part ∈ old + young, part ≤ longest)
    (htwo : 2 ≤ longest) (hleft : 0 < old.card) : longest ∈ old := by
  rcases Multiset.mem_add.mp hmem with hmem | hmem
  · exact hmem
  · -- Then it is not longer than a part of the old generation, which is one that is left.
    obtain ⟨part, hpart⟩ := Multiset.card_pos_iff_exists_mem.mp hleft
    have hle := hmax part (Multiset.mem_add.mpr (Or.inl hpart))
    obtain ⟨hlo, -⟩ := hold part hpart
    obtain ⟨-, hhi⟩ := hyoung longest hmem
    rw [upper_succ] at hhi
    obtain ⟨-, hone⟩ := upper_le hn k
    obtain rfl : part = longest := by omega
    exact hpart

/-- **A step halves a part of the old generation.** -/
theorem Spread.halve (h : Spread n k parts) (hn : 1 ≤ n) (hcard : parts.card < 2 ^ (k + 1))
    (hparts : parts = longest ::ₘ rest) (hmax : ∀ part ∈ parts, part ≤ longest)
    (htwo : 2 ≤ longest) :
    Spread n k (longest / 2 ::ₘ (longest + 1) / 2 ::ₘ rest) := by
  obtain ⟨old, young, rfl, hold, hyoung, hsum⟩ := h
  rw [Multiset.card_add] at hcard
  have hmem : longest ∈ old + young := by
    rw [hparts]
    exact Multiset.mem_cons_self _ _
  have hlongest := longest_mem_old hn hold hyoung hmem hmax htwo (by omega)
  obtain ⟨others, rfl⟩ := Multiset.exists_cons_of_mem hlongest
  have hrest : rest = others + young := by
    rw [Multiset.cons_add] at hparts
    exact ((Multiset.cons_inj_right longest).mp hparts).symm
  obtain ⟨hdown, hup⟩ := isPart_half (hold longest hlongest)
  refine ⟨others, longest / 2 ::ₘ (longest + 1) / 2 ::ₘ young, ?_, ?_, ?_, ?_⟩
  · rw [hrest, Multiset.add_cons, Multiset.add_cons]
  · exact fun part hpart => hold part (Multiset.mem_cons_of_mem hpart)
  · intro part hpart
    rcases Multiset.mem_cons.mp hpart with rfl | hpart
    · exact hdown
    · rcases Multiset.mem_cons.mp hpart with rfl | hpart
      · exact hup
      · exact hyoung part hpart
  · rw [Multiset.card_cons] at hsum
    rw [Multiset.card_cons, Multiset.card_cons]
    omega

/-- A step, also when it is the first one of a generation. -/
theorem Spread.step (h : Spread n k parts) (hn : 1 ≤ n)
    (hparts : parts = longest ::ₘ rest) (hmax : ∀ part ∈ parts, part ≤ longest)
    (htwo : 2 ≤ longest) :
    ∃ j, Spread n j (longest / 2 ::ₘ (longest + 1) / 2 ::ₘ rest) := by
  rcases Nat.lt_or_ge parts.card (2 ^ (k + 1)) with hcard | hcard
  · exact ⟨k, h.halve hn hcard hparts hmax htwo⟩
  · have hfull : parts.card = 2 ^ (k + 1) := Nat.le_antisymm h.card.2 hcard
    refine ⟨k + 1, (h.next hfull).halve hn ?_ hparts hmax htwo⟩
    rw [hfull]
    exact Nat.pow_lt_pow_right (by decide) (by omega)

/-- The number of the parts tells the generation. -/
theorem Spread.of_card (h : Spread n k parts) : Spread n (Nat.log 2 parts.card) parts := by
  obtain ⟨hlo, hhi⟩ := h.card
  have hne : parts.card ≠ 0 := (Nat.lt_of_lt_of_le (Nat.two_pow_pos k) hlo).ne'
  rcases Nat.lt_or_ge parts.card (2 ^ (k + 1)) with hlt | hge
  · rwa [(Nat.log_eq_iff (Or.inr ⟨by decide, hne⟩)).mpr ⟨hlo, hlt⟩]
  · have hfull : parts.card = 2 ^ (k + 1) := Nat.le_antisymm hhi hge
    rw [hfull, Nat.log_pow (by decide)]
    exact h.next hfull

/-- **The bounds on every part.** -/
theorem Spread.bounds (h : Spread n k parts) (hn : 1 ≤ n) {part : Int} (hpart : part ∈ parts) :
    lower n (k + 1) ≤ part ∧ part ≤ upper n k := by
  have hlower := lower_pos (n := n) (by omega) k
  have hupper := upper_pos hn k
  obtain ⟨old, young, rfl, hold, hyoung, -⟩ := h
  rcases Multiset.mem_add.mp hpart with hpart | hpart
  · obtain ⟨hlo, hhi⟩ := hold part hpart
    rw [lower_succ]
    omega
  · obtain ⟨hlo, hhi⟩ := hyoung part hpart
    rw [upper_succ] at hhi
    omega

end Spread

end Halving
