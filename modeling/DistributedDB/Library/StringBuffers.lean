import Mathlib.Data.List.Basic
import Mathlib.Logic.Function.Basic
import Mathlib.Tactic

/-!
# Strings in arrays

Arrays of fixed sizes with terminated strings, and programs that copy and append strings.
A program is checked on bounds for the lengths alone.

**Results.**
* `exec_of_fits`: within the bounds an operation does not write past the end, and the new
  bounds hold after it.
* `exec_cases`: what an operation does to the arrays.
* `executes_append`: programs one after the other.
* `executes_strcpy`, `executes_strcat`: what a program needs that runs to its end.
-/

namespace DistributedDB
namespace StringBuffers

universe u v

variable {B : Type u} {α : Type v}

/-- A text, or what is in an array. -/
inductive Source (B : Type u) (α : Type v) where
  | text (s : List α)
  | buffer (b : B)

inductive Op (B : Type u) (α : Type v) where
  | strcpy (dst : B) (src : Source B α)
  /-- `strcat`, if none of the guards is empty. -/
  | strcat (guards : List (Source B α)) (dst : B) (src : Source B α)
  /-- A string that comes from elsewhere. -/
  | receive (dst : B)

namespace Source

def value (strings : B → List α) : Source B α → List α
  | text s => s
  | buffer b => strings b

def bound (bounds : B → Nat) : Source B α → Nat
  | text s => s.length
  | buffer b => bounds b

end Source

/-- The array that is written. -/
def Op.dst : Op B α → B
  | strcpy dst _ | strcat _ dst _ | receive dst => dst

section Semantics

variable [DecidableEq B] (size : B → Nat)

/-- A string and its terminator are written, if there is room for them. -/
def write (strings : B → List α) (dst : B) (s : List α) : Option (B → List α) :=
  if s.length < size dst then some (Function.update strings dst s) else none

/-- `none`: the array is written past its end. -/
def exec (received : List α) (strings : B → List α) : Op B α → Option (B → List α)
  | .strcpy dst src => write size strings dst (src.value strings)
  | .strcat guards dst src =>
      if guards.all fun g => !(g.value strings).isEmpty then
        write size strings dst (strings dst ++ src.value strings)
      else some strings
  | .receive dst => write size strings dst received

/-- The program runs to its end. -/
inductive Executes : (B → List α) → List (Op B α) → (B → List α) → Prop where
  | nil (strings : B → List α) : Executes strings [] strings
  | cons {received : List α} {strings strings' strings'' : B → List α} {op : Op B α}
      {ops : List (Op B α)} (hop : exec size received strings op = some strings')
      (hops : Executes strings' ops strings'') : Executes strings (op :: ops) strings''

/-- The bounds after an operation; `limit` is one for what comes from elsewhere. -/
def Op.next (limit : Nat) (bounds : B → Nat) : Op B α → B → Nat
  | strcpy dst src => Function.update bounds dst (src.bound bounds)
  | strcat _ dst src => Function.update bounds dst (bounds dst + src.bound bounds)
  | receive dst => Function.update bounds dst limit

/-- All writes are within the arrays. -/
def fits (limit : Nat) : (B → Nat) → List (Op B α) → Bool
  | _, [] => true
  | bounds, op :: ops =>
      op.next limit bounds op.dst < size op.dst && fits limit (op.next limit bounds) ops

end Semantics

section Bounds

variable {strings strings' : B → List α} {bounds : B → Nat}

/-- The bounds hold. -/
def Bounded (bounds : B → Nat) (strings : B → List α) : Prop :=
  ∀ b, (strings b).length ≤ bounds b

theorem length_value_le (h : Bounded bounds strings) (src : Source B α) :
    (src.value strings).length ≤ src.bound bounds := by
  cases src with
  | text s => exact le_rfl
  | buffer b => exact h b

variable [DecidableEq B] {size : B → Nat} {limit : Nat} {received s : List α} {dst : B}
  {op : Op B α} {ops : List (Op B α)}

theorem write_eq_some : write size strings dst s = some strings' ↔
    s.length < size dst ∧ strings' = Function.update strings dst s := by
  rw [write, Option.ite_none_right_eq_some, Option.some.injEq, eq_comm (a := strings')]

/-- A write within the bounds. -/
theorem write_of_bound (h : Bounded bounds strings) {k : Nat} (hs : s.length ≤ k)
    (hk : k < size dst) :
    ∃ strings', write size strings dst s = some strings' ∧
      Bounded (Function.update bounds dst k) strings' := by
  refine ⟨_, write_eq_some.mpr ⟨lt_of_le_of_lt hs hk, rfl⟩, fun b => ?_⟩
  by_cases hb : b = dst
  · rw [hb, Function.update_self, Function.update_self]
    exact hs
  · rw [Function.update_of_ne hb, Function.update_of_ne hb]
    exact h b

/-- **Within the bounds an operation does not write past the end.** -/
theorem exec_of_fits (h : Bounded bounds strings) (hreceived : received.length ≤ limit)
    (hfits : op.next limit bounds op.dst < size op.dst) :
    ∃ strings', exec size received strings op = some strings' ∧
      Bounded (op.next limit bounds) strings' := by
  cases op with
  | strcpy dst src =>
      rw [Op.next, Op.dst, Function.update_self] at hfits
      exact write_of_bound h (length_value_le h src) hfits
  | strcat guards dst src =>
      rw [Op.next, Op.dst, Function.update_self] at hfits
      rw [exec]
      by_cases hguards : (guards.all fun g => !(g.value strings).isEmpty) = true
      · rw [if_pos hguards]
        refine write_of_bound h ?_ hfits
        rw [List.length_append]
        exact Nat.add_le_add (h dst) (length_value_le h src)
      · rw [if_neg hguards]
        refine ⟨strings, rfl, fun b => ?_⟩
        by_cases hb : b = dst
        · rw [Op.next, hb, Function.update_self]
          exact Nat.le_add_right_of_le (h dst)
        · rw [Op.next, Function.update_of_ne hb]
          exact h b
  | receive dst =>
      rw [Op.next, Op.dst, Function.update_self] at hfits
      exact write_of_bound h hreceived hfits

/-- What an operation does. -/
theorem exec_cases (h : exec size received strings op = some strings') :
    (∃ s : List α, s.length < size op.dst ∧ strings' = Function.update strings op.dst s) ∨
      strings' = strings := by
  cases op with
  | strcpy dst src => exact Or.inl ⟨_, write_eq_some.mp h⟩
  | strcat guards dst src =>
      rw [exec] at h
      by_cases hguards : (guards.all fun g => !(g.value strings).isEmpty) = true
      · rw [if_pos hguards] at h
        exact Or.inl ⟨_, write_eq_some.mp h⟩
      · rw [if_neg hguards] at h
        exact Or.inr (Option.some.inj h).symm
  | receive dst => exact Or.inl ⟨_, write_eq_some.mp h⟩

/-- The other arrays stay as they are. -/
theorem exec_frame (h : exec size received strings op = some strings') {b : B} (hb : b ≠ op.dst) :
    strings' b = strings b := by
  rcases exec_cases h with ⟨s, -, rfl⟩ | rfl
  · exact Function.update_of_ne hb ..
  · rfl

theorem next_of_ne {b : B} (hb : b ≠ op.dst) : op.next limit bounds b = bounds b := by
  cases op with
  | strcpy dst src => exact Function.update_of_ne hb ..
  | strcat guards dst src => exact Function.update_of_ne hb ..
  | receive dst => exact Function.update_of_ne hb ..

/-- Strings stay within their arrays. -/
theorem exec_lt_size (h : exec size received strings op = some strings')
    (hlt : ∀ b, (strings b).length < size b) (b : B) : (strings' b).length < size b := by
  rcases exec_cases h with ⟨s, hroom, rfl⟩ | rfl
  · by_cases hb : b = op.dst
    · rw [hb, Function.update_self]
      exact hroom
    · rw [Function.update_of_ne hb]
      exact hlt b
  · exact hlt b

end Bounds

section Programs

variable [DecidableEq B] {size : B → Nat} {strings strings' : B → List α}
  {ops ops' : List (Op B α)}

/-- Programs one after the other. -/
theorem executes_append : Executes size strings (ops ++ ops') strings' ↔
    ∃ m, Executes size strings ops m ∧ Executes size m ops' strings' := by
  constructor
  · intro h
    induction ops generalizing strings with
    | nil => exact ⟨strings, .nil _, h⟩
    | cons op ops ih =>
        cases h with
        | cons hop hops =>
            obtain ⟨m, hfirst, hrest⟩ := ih hops
            exact ⟨m, .cons hop hfirst, hrest⟩
  · rintro ⟨m, hfirst, hrest⟩
    induction hfirst with
    | nil => exact hrest
    | cons hop _ ih => exact .cons hop (ih hrest)

@[simp] theorem executes_strcpy {dst : B} {src : Source B α} :
    Executes size strings (.strcpy dst src :: ops) strings' ↔
      (src.value strings).length < size dst ∧
        Executes size (Function.update strings dst (src.value strings)) ops strings' := by
  constructor
  · intro h
    cases h with
    | cons hop hops =>
        obtain ⟨hroom, rfl⟩ := write_eq_some.mp hop
        exact ⟨hroom, hops⟩
  · rintro ⟨hroom, hops⟩
    have hop : exec size [] strings (.strcpy dst src) = some _ := write_eq_some.mpr ⟨hroom, rfl⟩
    exact .cons hop hops

@[simp] theorem executes_strcat {dst : B} {src : Source B α} :
    Executes size strings (.strcat [] dst src :: ops) strings' ↔
      (strings dst ++ src.value strings).length < size dst ∧
        Executes size (Function.update strings dst (strings dst ++ src.value strings)) ops
          strings' := by
  constructor
  · intro h
    cases h with
    | cons hop hops =>
        obtain ⟨hroom, rfl⟩ := write_eq_some.mp hop
        exact ⟨hroom, hops⟩
  · rintro ⟨hroom, hops⟩
    have hop : exec size [] strings (.strcat [] dst src) = some _ :=
      write_eq_some.mpr ⟨hroom, rfl⟩
    exact .cons hop hops

end Programs

end StringBuffers
end DistributedDB
