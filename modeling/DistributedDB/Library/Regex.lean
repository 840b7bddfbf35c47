import Mathlib.Data.List.Basic
import Mathlib.Data.List.MinMax
import Mathlib.Tactic

/-!
# Regular expressions with anchors and word boundaries

Regular expressions over an arbitrary alphabet, matched inside a text: what they match
depends on what stands before and after.  `lengths` computes the matches that begin at a
place, `search` the leftmost and there the longest one.

**Results.**
* `mem_lengths`: `lengths` finds all matches and nothing else.
* `search_eq_some`, `search_eq_none_iff`: what `search` returns.
* `eq_of_runs`: the run at the begin of a text is unique.
* `found_delimited_class`, `found_delimited`, `found_rest`: the first delimited match, the
  first word of a text, and the rest of a text from its first word on.
* `runs_apart`: the words of a text.
-/

namespace DistributedDB

universe u

/-- The syntax. -/
inductive Regex (α : Type u) where
  | eps
  /-- One character of a class. -/
  | chars (p : α → Bool)
  /-- The begin of the text. -/
  | bol
  /-- The end of the text. -/
  | eol
  /-- Between a character of a class and one that is not in it. -/
  | boundary (p : α → Bool)
  | seq (a b : Regex α)
  | alt (a b : Regex α)
  | star (a : Regex α)

namespace Regex

variable {α : Type u}

section Forms

def plus (a : Regex α) : Regex α :=
  seq a (star a)

def opt (a : Regex α) : Regex α :=
  alt a eps

def pow (a : Regex α) : Nat → Regex α
  | 0 => eps
  | n + 1 => seq a (pow a n)

/-- From `lo` to `hi` times. -/
def between (lo hi : Nat) (a : Regex α) : Regex α :=
  seq (pow a lo) (pow (opt a) (hi - lo))

/-- One after the other. -/
def seqs : List (Regex α) → Regex α
  | [] => eps
  | a :: as => seq a (seqs as)

/-- With a boundary at both ends. -/
def delimited (p : α → Bool) (a : Regex α) : Regex α :=
  seq (boundary p) (seq a (boundary p))

end Forms

section Semantics

/-- Exactly one of the neighbours is in the class. -/
def atBoundary (p : α → Bool) (l t : List α) : Bool :=
  l.getLast?.any p != t.head?.any p

/-- Matches of `R` one after the other. -/
inductive Iterated (R : List α → List α → List α → Prop) : List α → List α →
    List α → Prop where
  | nil (l t : List α) : Iterated R l [] t
  | cons {l m₁ m₂ t : List α} (hfirst : R l m₁ (m₂ ++ t))
      (hrest : Iterated R (l ++ m₁) m₂ t) :
      Iterated R l (m₁ ++ m₂) t

/-- The expression matches `m` between `l` and `t`. -/
def Matches : Regex α → List α → List α → List α → Prop
  | eps, _, m, _ => m = []
  | chars p, _, m, _ => ∃ c, m = [c] ∧ p c
  | bol, l, m, _ => m = [] ∧ l = []
  | eol, _, m, t => m = [] ∧ t = []
  | boundary p, l, m, t => m = [] ∧ atBoundary p l t
  | seq a b, l, m, t =>
      ∃ m₁ m₂, m = m₁ ++ m₂ ∧ Matches a l m₁ (m₂ ++ t) ∧
        Matches b (l ++ m₁) m₂ t
  | alt a b, l, m, t => Matches a l m t ∨ Matches b l m t
  | star a, l, m, t => Iterated (Matches a) l m t

end Semantics

section Search

/-- The iterations of a match that are not empty. -/
def starLengths (f : List α → List α → List Nat) : Nat → List α → List α → List Nat
  | 0, _, _ => [0]
  | fuel + 1, l, s =>
      0 :: (f l s).flatMap fun n =>
        if n = 0 then [] else (starLengths f fuel (l ++ s.take n) (s.drop n)).map (n + ·)

/-- The lengths of the matches at the begin of `s`, after `l`. -/
def lengths : Regex α → List α → List α → List Nat
  | eps, _, _ => [0]
  | chars _, _, [] => []
  | chars p, _, c :: _ => if p c then [1] else []
  | bol, l, _ => if l.isEmpty then [0] else []
  | eol, _, s => if s.isEmpty then [0] else []
  | boundary p, l, s => if atBoundary p l s then [0] else []
  | seq a b, l, s =>
      (lengths a l s).flatMap fun n =>
        (lengths b (l ++ s.take n) (s.drop n)).map (n + ·)
  | alt a b, l, s => lengths a l s ++ lengths b l s
  | star a, l, s => starLengths (lengths a) s.length l s

/-- The first match in `s`, after `l`, and the longest there: its begin and its end. -/
def searchFrom (r : Regex α) (l : List α) : List α → Option (Nat × Nat)
  | [] => (lengths r l []).max?.map fun n => (l.length, l.length + n)
  | c :: s =>
      match (lengths r l (c :: s)).max? with
      | some n => some (l.length, l.length + n)
      | none => searchFrom r (l ++ [c]) s

def search (r : Regex α) (s : List α) : Option (Nat × Nat) :=
  searchFrom r [] s

end Search

section Correctness

variable {R : List α → List α → List α → Prop}

/-- Empty iterations can be left out. -/
theorem Iterated.cases_nonempty {l m t : List α} (h : Iterated R l m t) :
    m = [] ∨ ∃ m₁ m₂, m₁ ≠ [] ∧ m = m₁ ++ m₂ ∧ R l m₁ (m₂ ++ t) ∧
      Iterated R (l ++ m₁) m₂ t := by
  induction h with
  | nil l t => exact Or.inl rfl
  | @cons l m₁ m₂ t hfirst hrest ih =>
      cases m₁ with
      | nil =>
          rw [List.append_nil] at ih
          exact ih
      | cons c m₁ => exact Or.inr ⟨c :: m₁, m₂, List.cons_ne_nil _ _, rfl, hfirst, hrest⟩

theorem mem_starLengths {f : List α → List α → List Nat}
    (hf : ∀ l s n, n ∈ f l s ↔ ∃ m t, s = m ++ t ∧ m.length = n ∧ R l m t)
    {fuel : Nat} {l s : List α} {n : Nat} (hfuel : s.length ≤ fuel) :
    n ∈ starLengths f fuel l s ↔ ∃ m t, s = m ++ t ∧ m.length = n ∧ Iterated R l m t := by
  induction fuel generalizing l s n with
  | zero =>
      rw [List.eq_nil_of_length_eq_zero (Nat.le_zero.mp hfuel), starLengths, List.mem_singleton]
      constructor
      · rintro rfl
        exact ⟨[], [], rfl, rfl, .nil l []⟩
      · rintro ⟨m, t, hs, rfl, -⟩
        rw [(List.append_eq_nil_iff.mp hs.symm).1, List.length_nil]
  | succ fuel ih =>
      rw [starLengths, List.mem_cons, List.mem_flatMap]
      constructor
      · rintro (rfl | ⟨k, hk, hn⟩)
        · exact ⟨[], s, rfl, rfl, .nil l s⟩
        · obtain ⟨m₁, t₁, rfl, rfl, hfirst⟩ := (hf l s k).mp hk
          by_cases hzero : m₁.length = 0
          · rw [if_pos hzero] at hn
            cases hn
          · rw [if_neg hzero, List.take_left, List.drop_left, List.mem_map] at hn
            obtain ⟨j, hj, rfl⟩ := hn
            rw [List.length_append] at hfuel
            obtain ⟨m₂, t, rfl, rfl, hrest⟩ := (ih (by omega)).mp hj
            exact ⟨m₁ ++ m₂, t, (List.append_assoc _ _ _).symm, List.length_append,
              .cons hfirst hrest⟩
      · rintro ⟨m, t, rfl, rfl, hiter⟩
        rcases hiter.cases_nonempty with rfl | ⟨m₁, m₂, hne, rfl, hfirst, hrest⟩
        · exact Or.inl rfl
        · have hzero : m₁.length ≠ 0 := List.length_eq_zero_iff.not.mpr hne
          have hassoc : m₁ ++ m₂ ++ t = m₁ ++ (m₂ ++ t) := List.append_assoc _ _ _
          refine Or.inr ⟨m₁.length, (hf _ _ _).mpr ⟨m₁, m₂ ++ t, hassoc, rfl, hfirst⟩,
            ?_⟩
          rw [if_neg hzero, hassoc, List.take_left, List.drop_left, List.mem_map]
          simp only [List.length_append] at hfuel
          have hlen : (m₂ ++ t).length ≤ fuel := by
            rw [List.length_append]
            omega
          exact ⟨m₂.length, (ih hlen).mpr ⟨m₂, t, rfl, rfl, hrest⟩,
            List.length_append.symm⟩

/-- The expressions that match between two characters. -/
theorem mem_ite_zero {P : Prop} [Decidable P] {s : List α} {n : Nat} :
    (n ∈ if P then [0] else []) ↔ ∃ m t, s = m ++ t ∧ m.length = n ∧ m = [] ∧ P := by
  by_cases h : P
  · rw [if_pos h, List.mem_singleton]
    constructor
    · rintro rfl
      exact ⟨[], s, rfl, rfl, rfl, h⟩
    · rintro ⟨m, t, -, rfl, rfl, -⟩
      rfl
  · rw [if_neg h]
    refine iff_of_false List.not_mem_nil ?_
    rintro ⟨m, t, -, -, -, hp⟩
    exact h hp

/-- **`lengths` finds all matches and nothing else.** -/
theorem mem_lengths {r : Regex α} {l s : List α} {n : Nat} :
    n ∈ lengths r l s ↔ ∃ m t, s = m ++ t ∧ m.length = n ∧ Matches r l m t := by
  induction r generalizing l s n with
  | eps =>
      rw [lengths, List.mem_singleton]
      constructor
      · rintro rfl
        exact ⟨[], s, rfl, rfl, rfl⟩
      · rintro ⟨m, t, -, rfl, hm⟩
        rw [show m = [] from hm, List.length_nil]
  | chars p =>
      cases s with
      | nil =>
          refine iff_of_false List.not_mem_nil ?_
          rintro ⟨m, t, hs, -, c, rfl, -⟩
          cases hs
      | cons c s =>
          rw [lengths]
          constructor
          · intro h
            split at h
            next hp =>
              rw [List.mem_singleton] at h
              exact ⟨[c], s, rfl, h.symm, c, rfl, hp⟩
            next => cases h
          · rintro ⟨m, t, hs, rfl, d, rfl, hp⟩
            obtain ⟨rfl, rfl⟩ := List.cons.inj hs
            rw [if_pos hp, List.mem_singleton, List.length_singleton]
  | bol =>
      rw [lengths, mem_ite_zero (s := s)]
      simp only [List.isEmpty_iff, Matches]
  | eol =>
      rw [lengths, mem_ite_zero (s := s)]
      refine exists_congr fun m => exists_congr fun t => and_congr_right fun hs =>
        and_congr_right fun _ => and_congr_right fun hm => ?_
      rw [hs, hm, List.nil_append, List.isEmpty_iff]
  | boundary p =>
      rw [lengths, mem_ite_zero (s := s)]
      refine exists_congr fun m => exists_congr fun t => and_congr_right fun hs =>
        and_congr_right fun _ => and_congr_right fun hm => ?_
      rw [hs, hm, List.nil_append]
  | seq a b iha ihb =>
      rw [lengths, List.mem_flatMap]
      constructor
      · rintro ⟨k, hk, hn⟩
        obtain ⟨m₁, t₁, rfl, rfl, hfirst⟩ := iha.mp hk
        rw [List.take_left, List.drop_left, List.mem_map] at hn
        obtain ⟨j, hj, rfl⟩ := hn
        obtain ⟨m₂, t, rfl, rfl, hrest⟩ := ihb.mp hj
        exact ⟨m₁ ++ m₂, t, (List.append_assoc _ _ _).symm, List.length_append,
          m₁, m₂, rfl, hfirst, hrest⟩
      · rintro ⟨m, t, rfl, rfl, m₁, m₂, rfl, hfirst, hrest⟩
        have hassoc : m₁ ++ m₂ ++ t = m₁ ++ (m₂ ++ t) := List.append_assoc _ _ _
        refine ⟨m₁.length, iha.mpr ⟨m₁, m₂ ++ t, hassoc, rfl, hfirst⟩, ?_⟩
        rw [hassoc, List.take_left, List.drop_left, List.mem_map]
        exact ⟨m₂.length, ihb.mpr ⟨m₂, t, rfl, rfl, hrest⟩, List.length_append.symm⟩
  | alt a b iha ihb =>
      rw [lengths, List.mem_append, iha, ihb]
      simp only [Matches, ← exists_or, ← and_or_left]
  | star a ih =>
      have hf : ∀ l s n, n ∈ lengths a l s ↔ ∃ m t, s = m ++ t ∧ m.length = n ∧
          Matches a l m t :=
        fun _ _ _ => ih
      exact mem_starLengths hf le_rfl

/-- `m` is the leftmost match in `s`, and the longest there. -/
structure Found (r : Regex α) (s l m t : List α) : Prop where
  text : s = l ++ m ++ t
  isMatch : Matches r l m t
  leftmost {l' m' t' : List α} (htext : s = l' ++ m' ++ t') (hmatch : Matches r l' m' t') :
    l.length ≤ l'.length
  longest {l' m' t' : List α} (htext : s = l' ++ m' ++ t') (hmatch : Matches r l' m' t')
    (hlen : l'.length = l.length) : m'.length ≤ m.length

/-- A match that begins right behind `l`. -/
theorem eq_of_text {l s l' m t : List α} (htext : l ++ s = l' ++ m ++ t)
    (hlen : l'.length = l.length) : l' = l ∧ s = m ++ t := by
  rw [List.append_assoc] at htext
  obtain ⟨hl, hs⟩ := List.append_inj htext hlen.symm
  exact ⟨hl.symm, hs⟩

theorem found_of_max {r : Regex α} {l s : List α} {n : Nat} (h : (lengths r l s).max? = some n)
    (hbefore : ∀ l' m t, l ++ s = l' ++ m ++ t → Matches r l' m t → l.length ≤ l'.length) :
    ∃ m t, m.length = n ∧ Found r (l ++ s) l m t := by
  obtain ⟨hmem, hmax⟩ := List.max?_eq_some_iff.mp h
  obtain ⟨m, t, rfl, hlen, hmatch⟩ := mem_lengths.mp hmem
  refine ⟨m, t, hlen, (List.append_assoc _ _ _).symm, hmatch,
    fun htext => hbefore _ _ _ htext, ?_⟩
  intro l' m' t' htext hmatch' heq
  obtain ⟨rfl, hs⟩ := eq_of_text htext heq
  rw [hlen]
  exact hmax _ (mem_lengths.mpr ⟨m', t', hs, rfl, hmatch'⟩)

theorem not_matches_of_max {r : Regex α} {l s : List α} (h : (lengths r l s).max? = none)
    {l' m t : List α} (htext : l ++ s = l' ++ m ++ t) (hlen : l'.length = l.length) :
    ¬ Matches r l' m t := by
  intro hmatch
  obtain ⟨rfl, hs⟩ := eq_of_text htext hlen
  have hmem := mem_lengths.mpr ⟨m, t, hs, rfl, hmatch⟩
  rw [List.max?_eq_none_iff.mp h] at hmem
  cases hmem

theorem searchFrom_eq_some {r : Regex α} {l s : List α} {ij : Nat × Nat}
    (h : searchFrom r l s = some ij)
    (hbefore : ∀ l' m t, l ++ s = l' ++ m ++ t → Matches r l' m t → l.length ≤ l'.length) :
    ∃ l' m t, Found r (l ++ s) l' m t ∧ ij = (l'.length, l'.length + m.length) := by
  induction s generalizing l with
  | nil =>
      obtain ⟨n, hmax, rfl⟩ := Option.map_eq_some_iff.mp h
      obtain ⟨m, t, rfl, hfound⟩ := found_of_max hmax hbefore
      exact ⟨l, m, t, hfound, rfl⟩
  | cons c s ih =>
      rw [searchFrom] at h
      split at h
      next n hmax =>
        obtain ⟨m, t, rfl, hfound⟩ := found_of_max hmax hbefore
        exact ⟨l, m, t, hfound, (Option.some.inj h).symm⟩
      next hmax =>
        have hassoc : l ++ c :: s = l ++ [c] ++ s := List.append_cons l c s
        rw [hassoc]
        refine ih h fun l' m t htext hmatch => ?_
        rw [← hassoc] at htext
        have hle := hbefore l' m t htext hmatch
        have hne : l'.length ≠ l.length := fun heq => not_matches_of_max hmax htext heq hmatch
        rw [List.length_append, List.length_singleton]
        omega

theorem searchFrom_eq_none {r : Regex α} {l s : List α} (h : searchFrom r l s = none)
    {l' m t : List α} (htext : l ++ s = l' ++ m ++ t) (hle : l.length ≤ l'.length) :
    ¬ Matches r l' m t := by
  induction s generalizing l with
  | nil =>
      have hmax := Option.map_eq_none_iff.mp h
      have hlen := congrArg List.length htext
      simp only [List.length_append, List.length_nil] at hlen
      exact not_matches_of_max hmax htext (by omega)
  | cons c s ih =>
      rw [searchFrom] at h
      split at h
      next n hmax => cases h
      next hmax =>
        rcases Nat.eq_or_lt_of_le hle with heq | hlt
        · exact not_matches_of_max hmax htext heq.symm
        · rw [List.append_cons] at htext
          refine ih h htext ?_
          rw [List.length_append, List.length_singleton]
          exact hlt

/-- **`search` finds nothing exactly when there is no match.** -/
theorem search_eq_none_iff {r : Regex α} {s : List α} :
    search r s = none ↔ ∀ l m t, s = l ++ m ++ t → ¬ Matches r l m t := by
  constructor
  · intro h l m t htext
    exact searchFrom_eq_none h htext (Nat.zero_le _)
  · intro h
    cases hsearch : search r s with
    | none => rfl
    | some ij =>
        obtain ⟨l, m, t, hfound, -⟩ := searchFrom_eq_some hsearch fun _ _ _ _ _ => Nat.zero_le _
        exact absurd hfound.isMatch (h l m t hfound.text)

/-- **`search` returns the leftmost longest match.** -/
theorem search_eq_some {r : Regex α} {s l m t : List α} (h : Found r s l m t) :
    search r s = some (l.length, l.length + m.length) := by
  cases hsearch : search r s with
  | none => exact absurd h.isMatch (search_eq_none_iff.mp hsearch l m t h.text)
  | some ij =>
      obtain ⟨l', m', t', hfound, rfl⟩ :=
        searchFrom_eq_some hsearch fun _ _ _ _ _ => Nat.zero_le _
      have hl : l'.length = l.length :=
        le_antisymm (hfound.leftmost h.text h.isMatch) (h.leftmost hfound.text hfound.isMatch)
      have hm : m'.length = m.length :=
        le_antisymm (h.longest hfound.text hfound.isMatch hl)
          (hfound.longest h.text h.isMatch hl.symm)
      rw [hl, hm]

end Correctness

section Classes

variable {p w : α → Bool} {l m t : List α}

theorem iterated_chars :
    Iterated (fun _ m _ => ∃ c, m = [c] ∧ p c) l m t ↔ ∀ c ∈ m, p c := by
  constructor
  · intro h
    induction h with
    | nil => exact List.forall_mem_nil _
    | cons hfirst _ ih =>
        obtain ⟨c, rfl, hc⟩ := hfirst
        exact List.forall_mem_cons.mpr ⟨hc, ih⟩
  · intro h
    induction m generalizing l with
    | nil => exact .nil l t
    | cons c m ih =>
        obtain ⟨hc, hm⟩ := List.forall_mem_cons.mp h
        have hcons : Iterated (fun _ m _ => ∃ c, m = [c] ∧ p c) l ([c] ++ m) t :=
          .cons ⟨c, rfl, hc⟩ (ih hm)
        exact hcons

theorem matches_star_chars : Matches (star (chars p)) l m t ↔ ∀ c ∈ m, p c :=
  iterated_chars

theorem matches_plus_chars : Matches (plus (chars p)) l m t ↔ m ≠ [] ∧ ∀ c ∈ m, p c := by
  constructor
  · rintro ⟨m₁, m₂, rfl, ⟨c, rfl, hc⟩, hrest⟩
    exact ⟨List.cons_ne_nil _ _, List.forall_mem_cons.mpr ⟨hc, matches_star_chars.mp hrest⟩⟩
  · rintro ⟨hne, hall⟩
    cases m with
    | nil => exact absurd rfl hne
    | cons c m =>
        obtain ⟨hc, hm⟩ := List.forall_mem_cons.mp hall
        exact ⟨[c], m, rfl, ⟨c, rfl, hc⟩, matches_star_chars.mpr hm⟩

theorem matches_pow_chars {n : Nat} :
    Matches (pow (chars p) n) l m t ↔ m.length = n ∧ ∀ c ∈ m, p c := by
  induction n generalizing l m with
  | zero =>
      constructor
      · intro h
        rw [show m = [] from h]
        exact ⟨rfl, List.forall_mem_nil _⟩
      · exact fun h => List.eq_nil_of_length_eq_zero h.1
  | succ n ih =>
      constructor
      · rintro ⟨m₁, m₂, rfl, ⟨c, rfl, hc⟩, hrest⟩
        obtain ⟨hlen, hall⟩ := ih.mp hrest
        exact ⟨congrArg (· + 1) hlen, List.forall_mem_cons.mpr ⟨hc, hall⟩⟩
      · rintro ⟨hlen, hall⟩
        cases m with
        | nil => cases hlen
        | cons c m =>
            obtain ⟨hc, hm⟩ := List.forall_mem_cons.mp hall
            exact ⟨[c], m, rfl, ⟨c, rfl, hc⟩, ih.mpr ⟨Nat.succ.inj hlen, hm⟩⟩

theorem matches_pow_opt_chars {n : Nat} :
    Matches (pow (opt (chars p)) n) l m t ↔ m.length ≤ n ∧ ∀ c ∈ m, p c := by
  induction n generalizing l m with
  | zero =>
      constructor
      · intro h
        rw [show m = [] from h]
        exact ⟨le_rfl, List.forall_mem_nil _⟩
      · exact fun h => List.eq_nil_of_length_eq_zero (Nat.le_zero.mp h.1)
  | succ n ih =>
      constructor
      · rintro ⟨m₁, m₂, rfl, ⟨c, rfl, hc⟩ | hnil, hrest⟩
        · obtain ⟨hlen, hall⟩ := ih.mp hrest
          exact ⟨Nat.succ_le_succ hlen, List.forall_mem_cons.mpr ⟨hc, hall⟩⟩
        · obtain rfl : m₁ = [] := hnil
          obtain ⟨hlen, hall⟩ := ih.mp hrest
          exact ⟨Nat.le_succ_of_le hlen, hall⟩
      · rintro ⟨hlen, hall⟩
        cases m with
        | nil =>
            exact ⟨[], [], rfl, Or.inr rfl, ih.mpr ⟨Nat.zero_le n, List.forall_mem_nil _⟩⟩
        | cons c m =>
            obtain ⟨hc, hm⟩ := List.forall_mem_cons.mp hall
            exact ⟨[c], m, rfl, Or.inl ⟨c, rfl, hc⟩,
              ih.mpr ⟨Nat.le_of_succ_le_succ hlen, hm⟩⟩

theorem matches_between_chars {lo hi : Nat} (hle : lo ≤ hi) :
    Matches (between lo hi (chars p)) l m t ↔
      lo ≤ m.length ∧ m.length ≤ hi ∧ ∀ c ∈ m, p c := by
  constructor
  · rintro ⟨m₁, m₂, rfl, hfirst, hrest⟩
    obtain ⟨hlen₁, hall₁⟩ := matches_pow_chars.mp hfirst
    obtain ⟨hlen₂, hall₂⟩ := matches_pow_opt_chars.mp hrest
    rw [List.length_append]
    exact ⟨by omega, by omega, List.forall_mem_append.mpr ⟨hall₁, hall₂⟩⟩
  · rintro ⟨hlo, hhi, hall⟩
    have htake : (m.take lo).length = lo := List.length_take_of_le hlo
    refine ⟨m.take lo, m.drop lo, (List.take_append_drop lo m).symm, ?_, ?_⟩
    · exact matches_pow_chars.mpr ⟨htake, fun c hc => hall c (List.mem_of_mem_take hc)⟩
    · refine matches_pow_opt_chars.mpr ⟨?_, fun c hc => hall c (List.mem_of_mem_drop hc)⟩
      rw [List.length_drop]
      omega

end Classes

section Words

variable {p : α → Bool} {a : Regex α} {l m t : List α}

theorem matches_delimited :
    Matches (delimited p a) l m t ↔
      atBoundary p l (m ++ t) ∧ Matches a l m t ∧ atBoundary p (l ++ m) t := by
  constructor
  · rintro ⟨_, m₁, rfl, ⟨rfl, hbegin⟩, m₂, _, rfl, hmatch, rfl, hend⟩
    simp only [List.append_nil, List.nil_append] at *
    exact ⟨hbegin, hmatch, hend⟩
  · rintro ⟨hbegin, hmatch, hend⟩
    refine ⟨[], m, rfl, ⟨rfl, hbegin⟩, m, [], (List.append_nil m).symm, ?_, rfl, ?_⟩
    · rw [List.append_nil]
      exact hmatch
    · rw [List.append_nil]
      exact hend

/-- The text begins outside a word. -/
theorem getLast?_any_eq_false (h : ∀ c ∈ l, p c = false) : l.getLast?.any p = false := by
  cases hlast : l.getLast? with
  | none => rfl
  | some c => exact h c (List.mem_of_getLast? hlast)

/-- Before a character in the class and behind none there is a boundary. -/
theorem atBoundary_cons {c : α} (hl : ∀ c ∈ l, p c = false) :
    atBoundary p l (c :: t) = p c := by
  rw [atBoundary, getLast?_any_eq_false hl, List.head?_cons, Option.any_some, Bool.false_bne]

/-- A text that is cut in two ways. -/
theorem prefix_of_length_lt {l m s t : List α} (h : l ++ s = m ++ t) (hlt : m.length < l.length) :
    ∃ c k, l = m ++ c :: k ∧ t = c :: k ++ s := by
  obtain ⟨k, hl, ht⟩ | ⟨k, hm, hs⟩ := List.append_eq_append_iff.mp h.symm
  · cases k with
    | nil =>
        rw [hl, List.append_nil] at hlt
        exact absurd hlt (lt_irrefl _)
    | cons c k => exact ⟨c, k, hl, ht⟩
  · rw [hm, List.length_append] at hlt
    omega

/-- A run of a class ends where a character outside the class follows. -/
theorem takeWhile_run (hl : ∀ c ∈ l, p c) (ht : t.head?.any p = false) :
    (l ++ t).takeWhile p = l := by
  rw [List.takeWhile_append_of_pos hl]
  cases t with
  | nil => rw [List.takeWhile_nil, List.append_nil]
  | cons c t =>
      have hc : ¬ p c := Bool.eq_false_iff.mp ht
      rw [List.takeWhile_cons_of_neg hc, List.append_nil]

theorem dropWhile_run (hl : ∀ c ∈ l, p c) (ht : t.head?.any p = false) :
    (l ++ t).dropWhile p = t := by
  have heq := List.takeWhile_append_dropWhile (p := p) (l := l ++ t)
  rw [takeWhile_run hl ht] at heq
  exact List.append_cancel_left heq

/-- **The run at the begin of a text is unique.** -/
theorem eq_of_runs {l' t' : List α} (h : l ++ t = l' ++ t') (hl : ∀ c ∈ l, p c)
    (hl' : ∀ c ∈ l', p c) (ht : t.head?.any p = false) (ht' : t'.head?.any p = false) :
    l = l' ∧ t = t' := by
  have heq : l = l' := by
    rw [← takeWhile_run hl ht, h, takeWhile_run hl' ht']
  rw [heq] at h
  exact ⟨heq, List.append_cancel_left h⟩

/-- **The first delimited match**, for an expression whose matches begin in a word and have
characters of a class `q` only: it ends where no character of `q` follows. -/
theorem found_delimited_class {q : α → Bool} {s : List α} (hs : s = l ++ m ++ t)
    (hruns : ∀ l m t, Matches a l m t → m.head?.any p ∧ ∀ c ∈ m, q c)
    (hl : ∀ c ∈ l, p c = false) (hmatch : Matches a l m t) (hlast : m.getLast?.any p)
    (ht : t.head?.any p = false) (hend : t.head?.any q = false) :
    Found (delimited p a) s l m t := by
  obtain ⟨hfirst, -⟩ := hruns l m t hmatch
  refine ⟨hs, ?_, ?_, ?_⟩
  · refine matches_delimited.mpr ⟨?_, hmatch, ?_⟩
    · cases m with
      | nil => cases hfirst
      | cons c m =>
          rw [List.cons_append, atBoundary_cons hl]
          exact hfirst
    · have hlast' : (l ++ m).getLast?.any p = true := by
        cases hm : m.getLast? with
        | none =>
            rw [hm] at hlast
            cases hlast
        | some c =>
            rw [hm] at hlast
            rw [List.getLast?_append, hm, Option.some_or]
            exact hlast
      rw [atBoundary, hlast', ht]
      rfl
  · intro l' m' t' htext hmatch'
    obtain ⟨hfirst', -⟩ := hruns _ _ _ (matches_delimited.mp hmatch').2.1
    by_contra hlt
    rw [hs, List.append_assoc, List.append_assoc] at htext
    obtain ⟨c, k, hcut, hrest⟩ := prefix_of_length_lt htext (not_le.mp hlt)
    cases m' with
    | nil => cases hfirst'
    | cons d m' =>
        obtain ⟨rfl, -⟩ := List.cons.inj hrest
        have hin : d ∈ l := by
          rw [hcut]
          exact List.mem_append_right _ List.mem_cons_self
        have hd : p d := hfirst'
        rw [hl d hin] at hd
        cases hd
  · intro l' m' t' htext hmatch' hlen
    obtain ⟨-, hall'⟩ := hruns _ _ _ (matches_delimited.mp hmatch').2.1
    by_contra hlt
    rw [hs, List.append_assoc] at htext
    obtain ⟨rfl, hrest⟩ := eq_of_text htext hlen
    obtain ⟨c, k, rfl, rfl⟩ := prefix_of_length_lt hrest.symm (not_le.mp hlt)
    have hc : q c := hall' c (List.mem_append_right _ List.mem_cons_self)
    rw [List.cons_append, List.head?_cons, Option.any_some, hc] at hend
    cases hend

/-- **The first word of a text**, for an expression that matches runs in words. -/
theorem found_delimited {s : List α} (hs : s = l ++ m ++ t)
    (hruns : ∀ l m t, Matches a l m t → m ≠ [] ∧ ∀ c ∈ m, p c)
    (hl : ∀ c ∈ l, p c = false) (hmatch : Matches a l m t) (ht : t.head?.any p = false) :
    Found (delimited p a) s l m t := by
  obtain ⟨hne, hall⟩ := hruns l m t hmatch
  have hlast : m.getLast?.any p := by
    rw [List.getLast?_eq_some_getLast hne]
    exact hall _ (List.getLast_mem hne)
  refine found_delimited_class hs ?_ hl hmatch hlast ht ht
  intro l' m' t' hmatch'
  obtain ⟨hne', hall'⟩ := hruns l' m' t' hmatch'
  refine ⟨?_, hall'⟩
  cases m' with
  | nil => exact absurd rfl hne'
  | cons c m' => exact hall' c List.mem_cons_self

/-- From a boundary to the end. -/
theorem matches_rest :
    Matches (seq (boundary p) (plus (chars fun _ => true))) l m t ↔
      atBoundary p l (m ++ t) ∧ m ≠ [] := by
  constructor
  · rintro ⟨_, m₁, rfl, ⟨rfl, hbegin⟩, hplus⟩
    exact ⟨hbegin, (matches_plus_chars.mp hplus).1⟩
  · rintro ⟨hbegin, hne⟩
    refine ⟨[], m, rfl, ⟨rfl, hbegin⟩, matches_plus_chars.mpr ⟨hne, fun _ _ => rfl⟩⟩

/-- **The rest of a text from its first word on.** -/
theorem found_rest {s : List α} {c : α} (hs : s = l ++ c :: m) (hl : ∀ c ∈ l, p c = false)
    (hc : p c) : Found (seq (boundary p) (plus (chars fun _ => true))) s l (c :: m) [] := by
  refine ⟨by rw [hs, List.append_nil], ?_, ?_, ?_⟩
  · refine matches_rest.mpr ⟨?_, List.cons_ne_nil c m⟩
    rw [List.append_nil, atBoundary_cons hl]
    exact hc
  · intro l' m' t' htext hmatch
    by_contra hlt
    rw [hs, List.append_assoc] at htext
    obtain ⟨d, k, rfl, hrest⟩ := prefix_of_length_lt htext (not_le.mp hlt)
    obtain ⟨hl', hdk⟩ := List.forall_mem_append.mp hl
    have hbegin := (matches_rest.mp hmatch).1
    rw [hrest, List.cons_append, atBoundary_cons hl', hdk d List.mem_cons_self] at hbegin
    cases hbegin
  · intro l' m' t' htext hmatch hlen
    rw [hs] at htext
    have hlens := congrArg List.length htext
    simp only [List.length_append] at hlens
    omega

/-- Without a word there is no boundary. -/
theorem search_rest_eq_none {s : List α} (h : ∀ c ∈ s, p c = false) :
    search (seq (boundary p) (plus (chars fun _ => true))) s = none := by
  refine search_eq_none_iff.mpr fun l m t hs hmatch => ?_
  obtain ⟨hbegin, hne⟩ := matches_rest.mp hmatch
  rw [hs, List.append_assoc] at h
  obtain ⟨hl, hrest⟩ := List.forall_mem_append.mp h
  cases m with
  | nil => exact hne rfl
  | cons c m =>
      rw [List.cons_append, atBoundary_cons hl, hrest c List.mem_cons_self] at hbegin
      cases hbegin

end Words

section Runs

variable {p : α → Bool} {a : Regex α} {l m t l' m' t' : List α}

/-- What begins behind a part of a text lies behind it. -/
theorem exists_behind {s : List α} (h : l ++ s = l' ++ t') (hle : l.length ≤ l'.length) :
    ∃ k, l' = l ++ k ∧ s = k ++ t' := by
  obtain ⟨k, hl', hs⟩ | ⟨k, hl, ht'⟩ := List.append_eq_append_iff.mp h
  · exact ⟨k, hl', hs⟩
  · obtain rfl : k = [] := by
      rw [hl, List.length_append] at hle
      exact List.eq_nil_of_length_eq_zero (by omega)
    exact ⟨[], by rw [hl, List.append_nil, List.append_nil], ht'.symm⟩

/-- A part that begins behind the begin of a run, and not in the middle of a word. -/
theorem length_le_of_lt (h : l ++ m ++ t = l' ++ t') (hm : ∀ c ∈ m, p c)
    (hl' : l'.getLast?.any p = false) (hlt : l.length < l'.length) :
    l.length + m.length ≤ l'.length := by
  by_contra hlong
  rw [List.append_assoc] at h
  obtain ⟨k, rfl, hk⟩ := exists_behind h hlt.le
  rw [List.length_append] at hlt hlong
  obtain ⟨j, rfl, -⟩ := exists_behind hk.symm (by omega)
  have hne : k ≠ [] := List.ne_nil_of_length_pos (by omega)
  have hlast : p (k.getLast hne) := hm _ (List.mem_append_left j (List.getLast_mem hne))
  rw [List.getLast?_append, List.getLast?_eq_some_getLast hne, Option.some_or, Option.any_some,
    hlast] at hl'
  cases hl'

/-- **Two maximal runs of a class in a text are the same, or apart.** -/
theorem runs_apart (h : l ++ m ++ t = l' ++ m' ++ t') (hm : ∀ c ∈ m, p c)
    (hm' : ∀ c ∈ m', p c) (hl : l.getLast?.any p = false) (hl' : l'.getLast?.any p = false)
    (ht : t.head?.any p = false) (ht' : t'.head?.any p = false) :
    l = l' ∧ m = m' ∨ l.length + m.length ≤ l'.length ∨
      l'.length + m'.length ≤ l.length := by
  rcases Nat.lt_trichotomy l.length l'.length with hlt | heq | hlt
  · rw [List.append_assoc l'] at h
    exact Or.inr (Or.inl (length_le_of_lt h hm hl' hlt))
  · rw [List.append_assoc, List.append_assoc] at h
    obtain ⟨rfl, hs⟩ := List.append_inj h heq
    exact Or.inl ⟨rfl, (eq_of_runs hs hm hm' ht ht').1⟩
  · rw [List.append_assoc l] at h
    exact Or.inr (Or.inr (length_le_of_lt h.symm hm' hl hlt))

/-- A delimited match of an expression that matches runs is a maximal run. -/
theorem run_of_delimited (hruns : ∀ l m t, Matches a l m t → m ≠ [] ∧ ∀ c ∈ m, p c)
    (h : Matches (delimited p a) l m t) :
    m ≠ [] ∧ (∀ c ∈ m, p c) ∧ l.getLast?.any p = false ∧ t.head?.any p = false := by
  obtain ⟨hbegin, hmatch, hend⟩ := matches_delimited.mp h
  obtain ⟨hne, hall⟩ := hruns l m t hmatch
  refine ⟨hne, hall, ?_, ?_⟩
  · obtain ⟨c, m, rfl⟩ := List.exists_cons_of_ne_nil hne
    rw [atBoundary, List.cons_append, List.head?_cons, Option.any_some, hall c List.mem_cons_self,
      Bool.bne_true, Bool.not_eq_true'] at hbegin
    exact hbegin
  · rw [atBoundary, List.getLast?_append, List.getLast?_eq_some_getLast hne, Option.some_or,
      Option.any_some, hall _ (List.getLast_mem hne), Bool.true_bne, Bool.not_eq_true'] at hend
    exact hend

end Runs

end Regex
end DistributedDB
