import Mathlib.Tactic

/-!
# Runs of a guarded step function

A system is a partial step function: `none` means that the event is not enabled
in the state.  A run executes a list of events from a state.

**Results.**
* `run_invariant`: a property kept by every enabled step is kept by every run.
* `run_invariant_of_allSteps`: the same when every step of the run also meets a
  side condition.
* `run_iff_allSteps`: a property that a step breaks exactly when it does not meet the
  condition, and that is not regained, holds at the end of a run exactly when every step
  meets the condition.
* `run_simulates`: a relation to an abstract state kept by every step relates the
  end of every run to what the abstract steps make of the abstract state.
* `run_append`: runs compose.
* `exists_run`: a system that is never stuck runs on.
* `run_project`: a run of a system is a run of a part of it, with the events of the part.
-/

namespace DistributedDB
namespace Run

universe u v w

variable {σ : Type u} {ε : Type v}

/-- Execute the events in order; fails at the first event that is not enabled. -/
def run (step : σ → ε → Option σ) : σ → List ε → Option σ
  | s, [] => some s
  | s, e :: es => (step s e).bind (fun t => run step t es)

/-- Every step of the run meets the condition in the state it is taken from. -/
def allSteps (step : σ → ε → Option σ) (cond : σ → ε → Prop) :
    σ → List ε → Prop
  | _, [] => True
  | s, e :: es => cond s e ∧ ∀ t, step s e = some t → allSteps step cond t es

variable {step : σ → ε → Option σ}

instance decidableAllSteps (cond : σ → ε → Prop) [∀ s e, Decidable (cond s e)] :
    ∀ s es, Decidable (allSteps step cond s es)
  | _, [] => isTrue trivial
  | s, e :: es =>
      have := fun t => decidableAllSteps cond t es
      decidable_of_iff (cond s e ∧ ∀ t ∈ step s e, allSteps step cond t es) Iff.rfl

@[simp] theorem run_nil (s : σ) : run step s [] = some s := rfl

theorem run_cons_eq_some {s t : σ} {e : ε} {es : List ε} :
    run step s (e :: es) = some t ↔
      ∃ m, step s e = some m ∧ run step m es = some t := by
  simp [run, Option.bind_eq_some_iff]

/-- Runs compose. -/
theorem run_append (s : σ) (xs ys : List ε) :
    run step s (xs ++ ys) = (run step s xs).bind (fun t => run step t ys) := by
  induction xs generalizing s with
  | nil => rfl
  | cons e xs ih =>
      simp only [List.cons_append, run, Option.bind_assoc]
      exact Option.bind_congr (fun t _ => ih t)

/-- **A property kept by every step that meets the side condition holds at the
end of every run whose steps all meet it.** -/
theorem run_invariant_of_allSteps
    (cond : σ → ε → Prop) (inv : σ → Prop)
    (hstep : ∀ s e t, inv s → cond s e → step s e = some t → inv t)
    {s t : σ} {es : List ε}
    (hcond : allSteps step cond s es)
    (hrun : run step s es = some t)
    (hs : inv s) :
    inv t := by
  induction es generalizing s with
  | nil =>
      have hst : s = t := by simpa using hrun
      exact hst ▸ hs
  | cons e es ih =>
      obtain ⟨m, hm, hrest⟩ := run_cons_eq_some.mp hrun
      exact ih (hcond.2 m hm) hrest (hstep s e m hs hcond.1 hm)

/-- A property that is not regained held in every state before. -/
theorem run_antitone
    (prop : σ → Prop)
    (hback : ∀ s e t, step s e = some t → prop t → prop s)
    {s t : σ} {es : List ε}
    (hrun : run step s es = some t)
    (ht : prop t) :
    prop s := by
  induction es generalizing s with
  | nil =>
      have hst : s = t := by simpa using hrun
      exact hst ▸ ht
  | cons e es ih =>
      obtain ⟨m, hm, hrest⟩ := run_cons_eq_some.mp hrun
      exact hback s e m hm (ih hrest)

/-- **A property that breaks with the first step that does not meet the condition, and is
not regained, holds at the end of a run exactly when every step meets the condition.** -/
theorem run_iff_allSteps
    (cond : σ → ε → Prop) (prop inv : σ → Prop)
    (hback : ∀ s e t, step s e = some t → prop t → prop s)
    (hiff : ∀ s e t, prop s → inv s → step s e = some t → (prop t ↔ cond s e))
    (hstep : ∀ s e t, inv s → cond s e → step s e = some t → inv t)
    {s t : σ} {es : List ε}
    (hrun : run step s es = some t)
    (hprop : prop s) (hs : inv s) :
    prop t ↔ allSteps step cond s es := by
  induction es generalizing s with
  | nil =>
      have hst : s = t := by simpa using hrun
      exact ⟨fun _ => trivial, fun _ => hst ▸ hprop⟩
  | cons e es ih =>
      obtain ⟨m, hm, hrest⟩ := run_cons_eq_some.mp hrun
      have hcond := hiff s e m hprop hs hm
      constructor
      · intro ht
        have hpm : prop m := run_antitone prop hback hrest ht
        have hc := hcond.mp hpm
        refine ⟨hc, fun m' hm' => ?_⟩
        rw [hm] at hm'
        obtain rfl := Option.some.inj hm'
        exact (ih hrest hpm (hstep s e m hs hc hm)).mp ht
      · intro hall
        have hpm : prop m := hcond.mpr hall.1
        exact (ih hrest hpm (hstep s e m hs hall.1 hm)).mpr (hall.2 m hm)

/-- **A relation to an abstract state kept by every step holds at the end of every
run.** -/
theorem run_simulates
    {α : Type w} (abstractStep : α → ε → α) (rel : σ → α → Prop)
    (hstep : ∀ s a e t, rel s a → step s e = some t → rel t (abstractStep a e))
    {s t : σ} {a : α} {es : List ε}
    (hrun : run step s es = some t)
    (hs : rel s a) :
    rel t (es.foldl abstractStep a) := by
  induction es generalizing s a with
  | nil =>
      have hst : s = t := by simpa using hrun
      exact hst ▸ hs
  | cons e es ih =>
      obtain ⟨m, hm, hrest⟩ := run_cons_eq_some.mp hrun
      exact ih hrest (hstep s a e m hs hm)

/-- Two side conditions at once. -/
theorem allSteps_and {cond cond' : σ → ε → Prop} {s : σ} {es : List ε}
    (h : allSteps step cond s es) (h' : allSteps step cond' s es) :
    allSteps step (fun s e => cond s e ∧ cond' s e) s es := by
  induction es generalizing s with
  | nil => trivial
  | cons e es ih =>
      exact ⟨⟨h.1, h'.1⟩, fun t ht => ih (h.2 t ht) (h'.2 t ht)⟩

/-- Every run meets the trivial side condition. -/
theorem allSteps_true (s : σ) (es : List ε) :
    allSteps step (fun _ _ => True) s es := by
  induction es generalizing s with
  | nil => trivial
  | cons e es ih => exact ⟨trivial, fun t _ => ih t⟩

/-- A side condition on the events alone. -/
theorem allSteps_of_forall_mem {cond : ε → Prop} (s : σ) {es : List ε}
    (h : ∀ e ∈ es, cond e) :
    allSteps step (fun _ e => cond e) s es := by
  induction es generalizing s with
  | nil => trivial
  | cons e es ih =>
      obtain ⟨he, hes⟩ := List.forall_mem_cons.mp h
      exact ⟨he, fun t _ => ih t hes⟩

/-- **A property kept by every step holds at the end of every run.** -/
theorem run_invariant
    (inv : σ → Prop)
    (hstep : ∀ s e t, inv s → step s e = some t → inv t)
    {s t : σ} {es : List ε}
    (hrun : run step s es = some t)
    (hs : inv s) :
    inv t :=
  run_invariant_of_allSteps (fun _ _ => True) inv
    (fun s e t hi _ he => hstep s e t hi he) (allSteps_true s es) hrun hs

/-- **When every event of a class has a step, which keeps the property, every list of such
events has a run.** -/
theorem exists_run (inv : σ → Prop) (ok : ε → Prop)
    (hstep : ∀ s e, inv s → ok e → ∃ t, step s e = some t ∧ inv t)
    {s : σ} {es : List ε} (hs : inv s) (hes : ∀ e ∈ es, ok e) :
    ∃ t, run step s es = some t := by
  induction es generalizing s with
  | nil => exact ⟨s, rfl⟩
  | cons e es ih =>
      obtain ⟨he, hrest⟩ := List.forall_mem_cons.mp hes
      obtain ⟨m, hm, hinv⟩ := hstep s e hs he
      obtain ⟨t, ht⟩ := ih hinv hrest
      exact ⟨t, run_cons_eq_some.mpr ⟨m, hm, ht⟩⟩

/-- **A run of a system is a run of the part that takes part in some of its events**, and
meets the part's condition. -/
theorem run_project {σ' : Type w} {ε' : Type*} (inner : σ' → ε' → Option σ')
    {cond : σ → ε → Prop} (cond' : σ' → ε' → Prop) (part : σ → σ')
    (visible : ε → Option ε')
    (hvisible : ∀ s e e' t, visible e = some e' → step s e = some t →
      inner (part s) e' = some (part t))
    (hhidden : ∀ s e t, visible e = none → step s e = some t → part t = part s)
    (hmeets : ∀ s e e', visible e = some e' → cond s e → cond' (part s) e')
    {s t : σ} {es : List ε}
    (hcond : allSteps step cond s es)
    (hrun : run step s es = some t) :
    run inner (part s) (es.filterMap visible) = some (part t) ∧
      allSteps inner cond' (part s) (es.filterMap visible) := by
  induction es generalizing s with
  | nil =>
      have hst : s = t := by simpa using hrun
      exact ⟨by rw [hst]; rfl, trivial⟩
  | cons e es ih =>
      obtain ⟨m, hm, hrest⟩ := run_cons_eq_some.mp hrun
      obtain ⟨hrun', hcond'⟩ := ih (hcond.2 m hm) hrest
      cases hvis : visible e with
      | none =>
          rw [List.filterMap_cons_none hvis, ← hhidden s e m hvis hm]
          exact ⟨hrun', hcond'⟩
      | some e' =>
          have hinner := hvisible s e e' m hvis hm
          rw [List.filterMap_cons_some hvis]
          refine ⟨run_cons_eq_some.mpr ⟨part m, hinner, hrun'⟩,
            hmeets s e e' hvis hcond.1, ?_⟩
          intro m' hm'
          rw [hinner] at hm'
          obtain rfl := Option.some.inj hm'
          exact hcond'

end Run
end DistributedDB
