import Mathlib.Data.List.Basic
import Mathlib.Tactic

/-!
# Interleavings of independent processes

Several processes take steps in some order on a shared state; each step belongs
to one process and changes only that process's part of the state.

**Results.**
* `history`: the steps of one process, in the order in which it takes them.
* `foldl_eq_localRun`: when every step does to its process what a local function
  of that process's own part says, an interleaving leaves every process where its
  own history alone takes it, whatever the order.
-/

namespace DistributedDB
namespace Interleaving

universe u v w x

variable {σ : Type u} {ε : Type v} {ι : Type w} {τ : Type x}

section History

variable [DecidableEq ι] (proc : ε → ι)

/-- The steps of process `i`, in order. -/
def history (sched : List ε) (i : ι) : List ε :=
  sched.filter (fun e => proc e == i)

@[simp] theorem history_nil (i : ι) : history proc [] i = [] := rfl

theorem history_append_self (sched : List ε) (e : ε) :
    history proc (sched ++ [e]) (proc e) = history proc sched (proc e) ++ [e] := by
  simp [history]

theorem history_append_of_ne (sched : List ε) {e : ε} {i : ι} (h : i ≠ proc e) :
    history proc (sched ++ [e]) i = history proc sched i := by
  simp [history, Ne.symm h]

/-- A history grows along the schedule. -/
theorem history_prefix_append (sched : List ε) (e : ε) (i : ι) :
    history proc sched i <+: history proc (sched ++ [e]) i := by
  simp [history, List.filter_append]

end History

section LocalRuns

variable (localStep : ι → τ → ε → τ)

/-- What the steps `es` alone make of a process's part. -/
def localRun (i : ι) (t : τ) (es : List ε) : τ :=
  es.foldl (localStep i) t

theorem localRun_append (i : ι) (t : τ) (es : List ε) (e : ε) :
    localRun localStep i t (es ++ [e]) = localStep i (localRun localStep i t es) e := by
  simp [localRun]

variable [DecidableEq ι]
variable (proc : ε → ι)
  -- the processes that take part
  (active : ι → Prop)
  -- the histories that a process may have
  (allowed : ι → List ε → Prop)
  -- a process's part of the state
  (part : σ → ι → τ)
  (step : σ → ε → σ)

/-- Every process is where its own history alone takes it. -/
def AgreesWithLocal (s₀ s : σ) (sched : List ε) : Prop :=
  ∀ i, active i → part s i = localRun localStep i (part s₀ i) (history proc sched i)

/-- **The order does not matter.**  A step has to act locally only in states that
agree with the local runs so far. -/
theorem foldl_eq_localRun
    (s₀ : σ)
    (hpre : ∀ i es es', allowed i es' → es <+: es' → allowed i es)
    (hstep : ∀ sched e,
      active (proc e) →
      (∀ i, active i → allowed i (history proc (sched ++ [e]) i)) →
      AgreesWithLocal localStep proc active part s₀ (sched.foldl step s₀) sched →
      ∀ i, active i →
        part (step (sched.foldl step s₀) e) i =
          if i = proc e then localStep i (part (sched.foldl step s₀) i) e
          else part (sched.foldl step s₀) i)
    (sched : List ε)
    (hactive : ∀ e, e ∈ sched → active (proc e))
    (hallowed : ∀ i, active i → allowed i (history proc sched i)) :
    AgreesWithLocal localStep proc active part s₀ (sched.foldl step s₀) sched := by
  induction sched using List.reverseRecOn with
  | nil =>
      intro i _
      rfl
  | append_singleton sched e ih =>
      have hrest := ih
        (fun e' he' => hactive e' (List.mem_append_left [e] he'))
        (fun i hi => hpre i _ _ (hallowed i hi) (history_prefix_append proc sched e i))
      intro i hi
      rw [List.foldl_append, List.foldl_cons, List.foldl_nil,
        hstep sched e (hactive e (by simp)) hallowed hrest i hi]
      rcases eq_or_ne i (proc e) with rfl | hne
      · rw [if_pos rfl, hrest (proc e) hi, history_append_self, localRun_append]
      · rw [if_neg hne, hrest i hi, history_append_of_ne proc sched hne]

end LocalRuns

end Interleaving
end DistributedDB
