import DistributedDB.Refinement

/-!
# What a graceful shutdown keeps

Client writes interleave with refresh ticks, and then a slave shuts down.  It
hands nothing over: its predecessor merges the copy it has, so the writes since
the predecessor's last refresh are lost with the slave.

**Results.**
* `lastCopy`: the leaving slave's primary at the predecessor's last refresh.
* `backup1_eq_lastCopy`: that is what the predecessor's `backup1` holds.
* `clientGet_leave`: what clients read after the departure, from the files before
  it.
* `read_after_leave`: the same over runs.
-/

namespace DistributedDB

open PartialMap Interleaving RingIndex Run

/-- What happens in a ring whose membership does not change. -/
inductive Request where
  | set (key : dbKey) (value : dbValue)
  | del (key : dbKey)
  | tick

namespace Cluster

def requestStep (c : Cluster) : Request → Option Cluster
  | .set key value => c.clientSet key value
  | .del key => c.clientDel key
  | .tick => some c.updateBackup

/-- Every primary holds only keys that are routed to its slave. -/
def Placed (c : Cluster) : Prop :=
  ∀ i, i < c.slaves.num → ∀ key, contents (c.primary i) key ≠ none →
    getSocket c.slaves key = some i

/-- A copy holds only keys that are routed to node `r`. -/
def CopyPlaced (c : Cluster) (r : Nat) (copy : dbKey → Option dbValue) : Prop :=
  ∀ key, copy key ≠ none → getSocket c.slaves key = some r

/-- The copy of the primary of `r` after a request: a new one when the predecessor
of `r` has its turn to refresh. -/
def copyAfter (c : Cluster) (r : Nat) (copy : dbKey → Option dbValue) :
    Request → (dbKey → Option dbValue)
  | .tick => if c.nextTurn = back c.slaves.num r 1 then contents (c.primary r) else copy
  | _ => copy

/-- The primary of `r` at the predecessor's last refresh in a run; `copy` if there
was none. -/
def lastCopy (r : Nat) :
    Cluster → List Request → (dbKey → Option dbValue) → (dbKey → Option dbValue)
  | _, [], copy => copy
  | c, e :: es, copy =>
      match c.requestStep e with
      | none => copy
      | some c' => lastCopy r c' es (c.copyAfter r copy e)

/-- What the `backup1` of the predecessor of `r` holds. -/
def copyOfRemoved (c : Cluster) (r : Nat) : dbKey → Option dbValue :=
  contents (openFile (c.diskAt (back c.slaves.num r 1)).backup1)

section Requests

variable {c c' : Cluster} {e : Request}

/-- A write replaces one primary, by one that differs in the written key. -/
theorem requestStep_write (he : e ≠ .tick) (hstep : c.requestStep e = some c') :
    ∃ i key v file, getSocket c.slaves key = some i ∧ c' = c.setPrimary i file ∧
      contents file = Function.update (contents (c.primary i)) key v := by
  cases e with
  | set key value =>
      obtain ⟨i, hroute, rfl⟩ := clientSet_eq_some.mp hstep
      exact ⟨i, key, some value, _, hroute, rfl, contents_insert _ key value⟩
  | del key =>
      obtain ⟨i, hroute, rfl⟩ := clientDel_eq_some.mp hstep
      exact ⟨i, key, none, _, hroute, rfl, contents_erase _ key⟩
  | tick => exact absurd rfl he

theorem slaves_requestStep (hstep : c.requestStep e = some c') :
    c'.slaves = c.slaves := by
  cases e with
  | tick =>
      obtain rfl := Option.some.inj hstep
      exact slaves_updateBackup
  | set key value =>
      obtain ⟨i, _, _, _, _, rfl, _⟩ := requestStep_write (by simp) hstep
      rfl
  | del key =>
      obtain ⟨i, _, _, _, _, rfl, _⟩ := requestStep_write (by simp) hstep
      rfl

theorem Wf.requestStep (h : c.Wf) (hstep : c.requestStep e = some c') : c'.Wf := by
  cases e with
  | tick =>
      obtain rfl := Option.some.inj hstep
      exact h.updateBackup
  | set key value =>
      obtain ⟨i, _, _, _, hroute, rfl, _⟩ := requestStep_write (by simp) hstep
      exact h.setPrimary (getSocket_lt h.ring hroute) _
  | del key =>
      obtain ⟨i, _, _, _, hroute, rfl, _⟩ := requestStep_write (by simp) hstep
      exact h.setPrimary (getSocket_lt h.ring hroute) _

/-- A write of a routed key keeps every key where it is routed. -/
theorem Placed.setPrimary (h : c.Wf) (hplaced : c.Placed) {i : Nat} {key : dbKey}
    {v : Option dbValue} {file : HDB} (hroute : getSocket c.slaves key = some i)
    (hfile : contents file = Function.update (contents (c.primary i)) key v) :
    (c.setPrimary i file).Placed := by
  intro j hj k hk
  have hi := getSocket_lt h.ring hroute
  have hj' : j < c.slaves.num := hj
  rw [h.primary_setPrimary hi hj'] at hk
  rcases eq_or_ne j i with rfl | hne
  · rw [if_pos rfl, hfile] at hk
    rcases eq_or_ne k key with rfl | hkey
    · exact hroute
    · rw [Function.update_of_ne hkey] at hk
      exact hplaced j hj' k hk
  · rw [if_neg hne] at hk
    exact hplaced j hj' k hk

theorem Placed.requestStep (h : c.Wf) (hplaced : c.Placed)
    (hstep : c.requestStep e = some c') : c'.Placed := by
  cases e with
  | tick =>
      obtain rfl := Option.some.inj hstep
      intro i hi key hkey
      rw [slaves_updateBackup] at hi ⊢
      rw [h.primary_updateBackup hi] at hkey
      exact hplaced i hi key hkey
  | set key value =>
      obtain ⟨i, _, _, _, hroute, rfl, hfile⟩ := requestStep_write (by simp) hstep
      exact hplaced.setPrimary h hroute hfile
  | del key =>
      obtain ⟨i, _, _, _, hroute, rfl, hfile⟩ := requestStep_write (by simp) hstep
      exact hplaced.setPrimary h hroute hfile

/-- The files besides the primary survive a write. -/
theorem Wf.backup1_setPrimary (h : c.Wf) {i j : Nat} (hi : i < c.slaves.num)
    (hj : j < c.slaves.num) (file : HDB) :
    ((c.setPrimary i file).diskAt j).backup1 = (c.diskAt j).backup1 := by
  rw [diskAt, Cluster.setPrimary, h.slaveAt_setProc hi hj]
  split
  case isTrue heq => rw [heq]
  case isFalse => rfl

/-- **One request: the predecessor's `backup1` follows the ghost copy.** -/
theorem Wf.copyOfRemoved_requestStep (h : c.Wf) (hnum : 2 ≤ c.slaves.num) {r : Nat}
    (hr : r < c.slaves.num) (hstep : c.requestStep e = some c') :
    c'.copyOfRemoved r = c.copyAfter r (c.copyOfRemoved r) e := by
  have hpre := back_lt (i := r) (k := 1) (show 0 < c.slaves.num by omega)
  have hslaves := slaves_requestStep hstep
  cases e with
  | tick =>
      obtain rfl := Option.some.inj hstep
      simp only [copyOfRemoved, copyAfter, hslaves]
      rw [diskAt, h.slaveAt_updateBackup hpre]
      rcases eq_or_ne c.nextTurn (back c.slaves.num r 1) with heq | hne
      · rw [if_pos heq.symm, if_pos heq]
        simp only [refreshed, back_one_succ hr]
        rw [if_neg (back_one_ne hr hnum).symm]
        rfl
      · rw [if_neg hne.symm, if_neg hne]
        rfl
  | set key value =>
      obtain ⟨i, _, _, _, hroute, rfl, _⟩ := requestStep_write (by simp) hstep
      simp only [copyOfRemoved, copyAfter, hslaves]
      rw [h.backup1_setPrimary (getSocket_lt h.ring hroute) hpre]
  | del key =>
      obtain ⟨i, _, _, _, hroute, rfl, _⟩ := requestStep_write (by simp) hstep
      simp only [copyOfRemoved, copyAfter, hslaves]
      rw [h.backup1_setPrimary (getSocket_lt h.ring hroute) hpre]

end Requests

section Runs

/-- What a run of requests keeps. -/
theorem run_requests {c₀ c : Cluster} (h : c₀.Wf) {reqs : List Request}
    (hrun : run requestStep c₀ reqs = some c) :
    c.Wf ∧ c.slaves = c₀.slaves ∧ (c₀.Placed → c.Placed) := by
  refine run_invariant (fun c => c.Wf ∧ c.slaves = c₀.slaves ∧ (c₀.Placed → c.Placed))
    ?_ hrun ⟨h, rfl, id⟩
  rintro s e t ⟨hwf, hslaves, hplaced⟩ hstep
  refine ⟨hwf.requestStep hstep, (slaves_requestStep hstep).trans hslaves, ?_⟩
  exact fun hstart => (hplaced hstart).requestStep hwf hstep

/-- **The predecessor's `backup1` is the primary of `r` at its last refresh.** -/
theorem backup1_eq_lastCopy {c₀ c : Cluster} (h : c₀.Wf) (hnum : 2 ≤ c₀.slaves.num)
    {r : Nat} (hr : r < c₀.slaves.num) {reqs : List Request}
    (hrun : run requestStep c₀ reqs = some c) :
    c.copyOfRemoved r = lastCopy r c₀ reqs (c₀.copyOfRemoved r) := by
  induction reqs generalizing c₀ with
  | nil =>
      obtain rfl : c₀ = c := by simpa using hrun
      rfl
  | cons e es ih =>
      obtain ⟨c₁, hstep, hrest⟩ := run_cons_eq_some.mp hrun
      have hslaves := slaves_requestStep hstep
      simp only [lastCopy, hstep]
      rw [← h.copyOfRemoved_requestStep hnum hr hstep]
      exact ih (h.requestStep hstep) (by rw [hslaves]; exact hnum)
        (by rw [hslaves]; exact hr) hrest

/-- Copies of a placed primary are placed. -/
theorem lastCopy_placed {c₀ : Cluster} (h : c₀.Wf) (hplaced : c₀.Placed) {r : Nat}
    (hr : r < c₀.slaves.num) (reqs : List Request) (copy : dbKey → Option dbValue)
    (hcopy : c₀.CopyPlaced r copy) : c₀.CopyPlaced r (lastCopy r c₀ reqs copy) := by
  induction reqs generalizing c₀ copy with
  | nil => exact hcopy
  | cons e es ih =>
      simp only [lastCopy]
      cases hstep : c₀.requestStep e with
      | none => exact hcopy
      | some c₁ =>
          have hslaves := slaves_requestStep hstep
          have hafter : c₀.CopyPlaced r (c₀.copyAfter r copy e) := by
            cases e with
            | tick =>
                simp only [copyAfter]
                split
                · exact hplaced r hr
                · exact hcopy
            | set key value => exact hcopy
            | del key => exact hcopy
          have hrest := ih (h.requestStep hstep) (hplaced.requestStep h hstep)
            (by rw [hslaves]; exact hr) (c₀.copyAfter r copy e)
            (by rw [CopyPlaced, hslaves]; exact hafter)
          rw [CopyPlaced, hslaves] at hrest
          exact hrest

end Runs

section Departure

variable {c : Cluster}

/-- **What clients read after a departure.**  A key whose owner was neither the
removed slave nor its predecessor reads as before, any other one as the
predecessor's `backup1` has it or else its primary. -/
theorem clientGet_leave (h : c.Wf) (hnum : 2 ≤ c.slaves.num) {r : Nat}
    (hr : r < c.slaves.num) {sched : List RmStep}
    (hsched : IsSchedule c.slaves.num r sched) (key : dbKey) :
    (c.leave r sched).clientGet key =
      if getSocket c.slaves key = some r ∨
          getSocket c.slaves key = some (back c.slaves.num r 1) then
        (c.copyOfRemoved r key).or (contents (c.primary (back c.slaves.num r 1)) key)
      else c.clientGet key := by
  have hwf := h.leave hr hsched
  have hwith : WithoutNode (c.leave r sched).slaves c.slaves r :=
    withoutNode_removeSlave hr h.ring.num_le
  have hnum' : (c.leave r sched).slaves.num = c.slaves.num - 1 := rfl
  have hpos : 0 < (c.leave r sched).slaves.num := by omega
  obtain ⟨j, ⟨hj, hin⟩, _⟩ := hwf.ring.existsUnique_inSection hpos (circleKey key)
  have hroute := (getSocket_eq_some_iff hwf.ring key j).mpr ⟨hj, hin⟩
  have hread : (c.leave r sched).clientGet key =
      contents ((c.leave r sched).primary j) key := by
    simp only [clientGet, hroute]
    rfl
  have hold : oldIndex r (back (c.slaves.num - 1) r 1) = back c.slaves.num r 1 := by
    have hback := oldIndex_back hwith.pos hpos
    rw [← hwith.num] at hback
    exact hback
  rw [hread, h.primary_leave hr hsched (by omega)]
  rcases eq_or_ne j (back (c.slaves.num - 1) r 1) with rfl | hne
  · have howner := (hwith.getSocket_back hwf.ring h.ring hpos key).mp hroute
    rw [if_pos rfl, if_pos howner.symm, hold]
    rfl
  · have howner := (hwith.getSocket_of_ne hwf.ring h.ring hj hne key).mp hroute
    have hother : ¬ (getSocket c.slaves key = some r ∨
        getSocket c.slaves key = some (back c.slaves.num r 1)) := by
      rw [howner]
      rintro (heq | heq)
      · exact oldIndex_ne r j (Option.some.inj heq)
      · rw [← hold] at heq
        exact hne (oldIndex_inj (Option.some.inj heq))
    rw [if_neg hne, if_neg hother]
    simp only [clientGet, howner]
    rfl

end Departure

/-- **What clients read after a graceful shutdown.**  In every ring of at least
two slaves, after every interleaving of client writes with refresh ticks, the
departure of node `r` leaves the map that clients read as it was, except that the
keys of `r` and of its predecessor read as the predecessor's last copy of the
primary of `r` has them, or else as the predecessor's own primary does.  When
primaries and copies hold only the keys routed to them, only the keys of `r` are
concerned. -/
theorem read_after_leave (c₀ : Cluster) (h₀ : c₀.Wf) (hnum : 2 ≤ c₀.slaves.num)
    (reqs : List Request) (c : Cluster) (hrun : run requestStep c₀ reqs = some c)
    (r : Nat) (hr : r < c₀.slaves.num) (sched : List RmStep)
    (hsched : IsSchedule c₀.slaves.num r sched) :
    (∀ key, (c.leave r sched).clientGet key =
      if getSocket c.slaves key = some r ∨
          getSocket c.slaves key = some (back c.slaves.num r 1) then
        (lastCopy r c₀ reqs (c₀.copyOfRemoved r) key).or
          (contents (c.primary (back c.slaves.num r 1)) key)
      else c.clientGet key) ∧
    (c₀.Placed → c₀.CopyPlaced r (c₀.copyOfRemoved r) →
      ∀ key, (c.leave r sched).clientGet key =
        if getSocket c.slaves key = some r then
          lastCopy r c₀ reqs (c₀.copyOfRemoved r) key
        else c.clientGet key) := by
  obtain ⟨hwf, hslaves, hplaced⟩ := run_requests h₀ hrun
  have hcopy := backup1_eq_lastCopy h₀ hnum hr hrun
  have hread := fun key => clientGet_leave hwf (by rw [hslaves]; exact hnum)
    (by rw [hslaves]; exact hr) (by rw [hslaves]; exact hsched) key
  rw [hcopy] at hread
  refine ⟨hread, ?_⟩
  intro hstart hcopied key
  have hpre : back c.slaves.num r 1 < c.slaves.num := by
    rw [hslaves]
    exact back_lt (by omega)
  have hne : back c.slaves.num r 1 ≠ r := by
    rw [hslaves]
    exact back_one_ne hr hnum
  have hlast := lastCopy_placed h₀ hstart hr reqs _ hcopied
  rw [CopyPlaced, ← hslaves] at hlast
  rw [hread key]
  rcases eq_or_ne (getSocket c.slaves key) (some r) with howner | hother
  · -- the predecessor's own primary does not hold a key of `r`
    have hnone : contents (c.primary (back c.slaves.num r 1)) key = none := by
      by_contra hsome
      have := hplaced hstart _ hpre key hsome
      rw [howner] at this
      exact hne (Option.some.inj this).symm
    rw [if_pos (Or.inl howner), if_pos howner, hnone, Option.or_none]
  · rw [if_neg hother]
    rcases eq_or_ne (getSocket c.slaves key) (some (back c.slaves.num r 1))
      with hback | hback
    · have hnone : lastCopy r c₀ reqs (c₀.copyOfRemoved r) key = none := by
        by_contra hsome
        exact hother (hlast key hsome)
      rw [if_pos (Or.inr hback), hnone, Option.none_or]
      simp only [clientGet, hback]
      rfl
    · rw [if_neg (fun hc => hc.elim hother hback)]

/-- Node 0 stores one key and node 1 nothing. -/
def onlyNodeZero (i : Nat) : HDB :=
  if i = 0 then (∅ : HDB).insert 600 [97] else ∅

/-- A write before a refresh of node 1, and a write after it. -/
theorem read_after_leave_twoNodes :
    ∃ c, run requestStep (replicated (ringOf 2) onlyNodeZero)
        [.set 500 [98], .tick, .set 700 [99]] = some c ∧
      ∀ key, (c.leave 0 (oneByOne 2 0)).clientGet key =
        if getSocket c.slaves key = some 0 ∨
            getSocket c.slaves key = some (back c.slaves.num 0 1) then
          (lastCopy 0 (replicated (ringOf 2) onlyNodeZero)
            [.set 500 [98], .tick, .set 700 [99]]
            ((replicated (ringOf 2) onlyNodeZero).copyOfRemoved 0) key).or
            (contents (c.primary (back c.slaves.num 0 1)) key)
        else c.clientGet key := by
  have hsome : (run requestStep (replicated (ringOf 2) onlyNodeZero)
      [.set 500 [98], .tick, .set 700 [99]]).isSome := by
    decide
  obtain ⟨c, hrun⟩ := Option.isSome_iff_exists.mp hsome
  have hwf := wf_replicated onlyNodeZero (ringInv_ringOf (n := 2) (by decide)) (by decide)
  exact ⟨c, hrun, (read_after_leave _ hwf (by decide) _ c hrun 0 (by decide)
    (oneByOne 2 0) (by decide)).1⟩

/-- Node 0 leaves after an acknowledged write and an acknowledged deletion that
its predecessor has not copied: clients miss the key 500 and find the key 600
again. -/
theorem leave_loses_writes :
    (replicated (ringOf 2) onlyNodeZero).Wf ∧
      (run requestStep (replicated (ringOf 2) onlyNodeZero)
          [.set 500 [98], .del 600]).map
        (fun c => (c.clientGet 500, (c.leave 0 (oneByOne 2 0)).clientGet 500,
          c.clientGet 600, (c.leave 0 (oneByOne 2 0)).clientGet 600)) =
        some (some [98], none, none, some [97]) :=
  ⟨wf_replicated onlyNodeZero (ringInv_ringOf (by decide)) (by decide), by decide⟩

end Cluster

end DistributedDB
