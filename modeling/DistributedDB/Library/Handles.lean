import DistributedDB.Library.Run

/-!
# One handle at a time

Handles are created, used and deleted.  The live handles are computed from these events,
and a session that holds at most one handle creates one when it holds none, and uses and
deletes the one it holds.

**Results.**
* `live_of_run`: a session holds exactly the live handles.
* `inOrder_of_run`: at most one handle is live, the events are on it, and a deleted handle
  is not touched until it is created again.
-/

namespace DistributedDB
namespace Handles

open Run

universe u

variable {H : Type u}

inductive Event (H : Type u) where
  | created (h : H)
  | used (h : H)
  | deleted (h : H)
deriving DecidableEq, Repr

/-- The event is on a handle that must be live. -/
def Event.On : Event H → H → Prop
  | created _, _ => False
  | used h, h' | deleted h, h' => h = h'

variable [DecidableEq H]

/-- The live handles after an event. -/
def liveStep (handles : List H) : Event H → List H
  | .created h => h :: handles
  | .used _ => handles
  | .deleted h => handles.erase h

def live (events : List (Event H)) : List H :=
  events.foldl liveStep []

/-- A session with the handle that it holds. -/
def hold : Option H → Event H → Option (Option H)
  | none, .created h => some (some h)
  | some h, .used h' => if h = h' then some (some h) else none
  | some h, .deleted h' => if h = h' then some none else none
  | _, _ => none

/-- The order of the events. -/
structure InOrder (events : List (Event H)) : Prop where
  one_live {before after : List (Event H)} (h : events = before ++ after) :
    (live before).length ≤ 1
  on_live {before after : List (Event H)} {e : Event H} {h : H}
    (hevents : events = before ++ e :: after) (he : e.On h) : h ∈ live before
  created_again {before between after : List (Event H)} {e : Event H} {h : H}
    (hevents : events = before ++ .deleted h :: (between ++ e :: after)) (he : e.On h) :
    .created h ∈ between

section Step

variable {o o' : Option H} {h h' : H}

theorem hold_created (hstep : hold o (.created h) = some o') : o = none ∧ o' = some h := by
  cases o with
  | none => exact ⟨rfl, (Option.some.inj hstep).symm⟩
  | some h' => cases hstep

theorem hold_used (hstep : hold o (.used h) = some o') : o = some h ∧ o' = some h := by
  cases o with
  | none => cases hstep
  | some h' =>
      obtain ⟨rfl, ho'⟩ := Option.ite_none_right_eq_some.mp hstep
      exact ⟨rfl, (Option.some.inj ho').symm⟩

theorem hold_deleted (hstep : hold o (.deleted h) = some o') : o = some h ∧ o' = none := by
  cases o with
  | none => cases hstep
  | some h' =>
      obtain ⟨rfl, ho'⟩ := Option.ite_none_right_eq_some.mp hstep
      exact ⟨rfl, (Option.some.inj ho').symm⟩

theorem hold_on {e : Event H} (hstep : hold o e = some o') (he : e.On h) : o = some h := by
  cases e with
  | created h' => cases he
  | used h' =>
      obtain rfl : h' = h := he
      exact (hold_used hstep).1
  | deleted h' =>
      obtain rfl : h' = h := he
      exact (hold_deleted hstep).1

end Step

/-- A handle that is held is used. -/
theorem run_used (h : H) : run hold (some h) [.used h] = some (some h) := by
  rw [run, hold, if_pos rfl]
  rfl

theorem run_deleted (h : H) : run hold (some h) [.deleted h] = some none := by
  rw [run, hold, if_pos rfl]
  rfl

section Runs

variable {o o' : Option H} {events before after between : List (Event H)} {e : Event H} {h : H}

/-- **A session holds exactly the live handles.** -/
theorem live_of_run (hrun : run hold none events = some o) : live events = o.toList := by
  refine run_simulates liveStep (fun (o : Option H) handles => handles = o.toList) ?_ hrun rfl
  intro o handles e o' hhandles hstep
  cases e with
  | created h =>
      obtain ⟨rfl, rfl⟩ := hold_created hstep
      rw [hhandles]
      rfl
  | used h =>
      obtain ⟨rfl, rfl⟩ := hold_used hstep
      exact hhandles
  | deleted h =>
      obtain ⟨rfl, rfl⟩ := hold_deleted hstep
      rw [hhandles]
      exact List.erase_cons_head ..

/-- A handle that is held was created, or held before. -/
theorem created_of_run (hrun : run hold o events = some (some h)) :
    o = some h ∨ .created h ∈ events := by
  induction events generalizing o with
  | nil => exact Or.inl (Option.some.inj hrun)
  | cons e events ih =>
      obtain ⟨o', hstep, hrest⟩ := run_cons_eq_some.mp hrun
      rcases ih hrest with rfl | hmem
      · cases e with
        | created h' =>
            obtain ⟨-, hh⟩ := hold_created hstep
            obtain rfl := Option.some.inj hh
            exact Or.inr List.mem_cons_self
        | used h' =>
            obtain ⟨rfl, hh⟩ := hold_used hstep
            exact Or.inl hh.symm
        | deleted h' => cases (hold_deleted hstep).2
      · exact Or.inr (List.mem_cons_of_mem e hmem)

/-- The state before an event of a run. -/
theorem run_split (hrun : run hold o (before ++ e :: after) = some o') :
    ∃ m m', run hold o before = some m ∧ hold m e = some m' ∧
      run hold m' after = some o' := by
  rw [run_append] at hrun
  obtain ⟨m, hbefore, hrest⟩ := Option.bind_eq_some_iff.mp hrun
  obtain ⟨m', hstep, hafter⟩ := run_cons_eq_some.mp hrest
  exact ⟨m, m', hbefore, hstep, hafter⟩

/-- **The events of a session are in order.** -/
theorem inOrder_of_run (hrun : run hold none events = some o) : InOrder events := by
  refine ⟨?_, ?_, ?_⟩
  · rintro before after rfl
    rw [run_append] at hrun
    obtain ⟨m, hbefore, -⟩ := Option.bind_eq_some_iff.mp hrun
    rw [live_of_run hbefore]
    exact Option.length_toList_le
  · rintro before after e h rfl he
    obtain ⟨m, m', hbefore, hstep, -⟩ := run_split hrun
    rw [live_of_run hbefore, hold_on hstep he]
    exact List.mem_singleton_self h
  · rintro before between after e h rfl he
    obtain ⟨m, m', -, hdeleted, hrest⟩ := run_split hrun
    obtain ⟨k, k', hbetween, hstep, -⟩ := run_split hrest
    obtain ⟨-, rfl⟩ := hold_deleted hdeleted
    obtain rfl := hold_on hstep he
    exact (created_of_run hbetween).resolve_left (Option.some_ne_none h).symm

end Runs

end Handles
end DistributedDB
