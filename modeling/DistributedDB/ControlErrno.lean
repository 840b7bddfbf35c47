import DistributedDB.ControlRefinement
import DistributedDB.MasterLoop

/-!
# The control sockets and the errno test

`MasterProcess` takes a request on the socket of a slave only if `errno` is not `EINTR`; a new
connection, with its `ADD_SLAVE`, it always takes.  A SIGALRM that interrupts `epoll_wait`
leaves `EINTR` in `errno`, and no call that succeeds takes it away.  So after a tick at rest
the master receives no `DEL_SLAVE` until one of its calls fails during a request.

The steps here are those of `ControlSockets` with this test.  An iteration of the loop that
ends with the test is no step, and neither is the `accept` in which the loop waits for the
next connection when a SIGALRM follows a connection.

**Results.**
* `ErrnoNet.step`: the steps.
* `ControlNet.links_of_step`: a step changes one link, and only SIGINT puts a `DEL_SLAVE` on
  the way to the master.
* `ErrnoNet.Undisturbed`: while `errno` is `EINTR`, no `DEL_SLAVE` waits for the master.
* `ErrnoNet.simulates_registry`: one operation at a time, with departures only while `errno`
  is not `EINTR`.
* `ErrnoNet.settles`: whether a run meets the condition and ends at rest, computed along
  the run.
-/

namespace DistributedDB

open Run

namespace ControlNet

/-- The process at whose link the event happens. -/
def place (s : ControlNet) : ControlEvent → Int
  | .register a _ | .slaveRecv a | .slaveHandle a | .call a | .serve _ a | .endCalls a
  | .interrupt a | .slaveReply a | .masterRecv a _ _ => a
  | .notify | .masterReply => (s.base.map fun r => s.sock r.i).getD 0
  | .finish => (s.base.map Notifying.requester).getD 0
  | .tick => s.sock s.nextTurn
  | .tickReply => (s.alarm.map Await.sock).getD 0

/-- A packet that the master has not received yet, or one that is no `DEL_SLAVE`. -/
def OldOrOther (old : List ControlPacket) (p : ControlPacket) : Prop :=
  p ∈ old ∨ ∀ pos, p.msg ≠ .delSlave pos

section Links

variable {s t : ControlNet}

theorem oldOrOther_append {old new : List ControlPacket}
    (hnew : ∀ p ∈ new, ∀ pos, p.msg ≠ .delSlave pos) :
    ∀ p ∈ old ++ new, OldOrOther old p := by
  intro p hp
  rcases List.mem_append.mp hp with hold | hp
  · exact Or.inl hold
  · exact Or.inr (hnew p hp)

theorem oldOrOther_singleton {old : List ControlPacket} {p : ControlPacket}
    (hp : ∀ pos, p.msg ≠ .delSlave pos) : ∀ q ∈ old ++ [p], OldOrOther old q := by
  refine oldOrOther_append fun q hq => ?_
  rw [List.mem_singleton.mp hq]
  exact hp

theorem oldOrOther_handled (l : Link) (p : ControlPacket) :
    ∀ q ∈ (handled l p).toMaster, OldOrOther l.toMaster q := by
  unfold handled
  split
  case h_1 | h_2 => exact oldOrOther_singleton fun pos => by simp
  case h_3 | h_4 => exact fun q hq => Or.inl hq

theorem oldOrOther_returned (l : Link) (after : After) :
    ∀ q ∈ (returned l after).toMaster, OldOrOther l.toMaster q := by
  cases after with
  | updateBackup12 id => exact oldOrOther_singleton fun pos => by simp
  | initialSlave | rmSlave => exact fun q hq => Or.inl hq

theorem toMaster_called (l : Link) (k : Int) (todo : List Int) (after : After) :
    (s.called l k todo after).toMaster = l.toMaster := by
  unfold called
  split
  · rfl
  · split <;> rfl

theorem toMaster_registered (l : Link) (p : ControlPacket) :
    (registered l p).toMaster = l.toMaster := by
  unfold registered
  split <;> rfl

theorem toMaster_left (l : Link) (p : ControlPacket) : (left l p).toMaster = l.toMaster := by
  unfold left
  split <;> rfl

theorem links_beginRequest {a ip : Int} {rand : Nat} {p : ControlPacket}
    (h : s.beginRequest a ip rand p = some t) : t.links = s.links := by
  unfold beginRequest at h
  split at h
  case h_1 =>
      rw [Option.ite_none_right_eq_some] at h
      obtain rfl := Option.some.inj h.2
      rfl
  case h_2 =>
      obtain rfl := Option.some.inj h
      rfl
  case h_3 => cases h

/-- **A step changes one link**, and only SIGINT puts a `DEL_SLAVE` on the way to the
master. -/
theorem links_of_step {e : ControlEvent} (hstep : s.step e = some t) :
    ∃ l, t.links = Function.update s.links (s.place e) l ∧
      ((∃ a, e = .interrupt a) ∨
        ∀ p ∈ l.toMaster, OldOrOther (s.links (s.place e)).toMaster p) := by
  -- the master reads one packet, and leaves the rest
  have hrest : ∀ {a : Int} {p : ControlPacket} {rest : List ControlPacket},
      (s.links a).toMaster = p :: rest → ∀ q ∈ rest, OldOrOther (s.links a).toMaster q := by
    intro a p rest hqueue q hq
    rw [hqueue]
    exact Or.inl (List.mem_cons_of_mem _ hq)
  cases transition_of_step hstep with
  | register a port hdown =>
      refine ⟨_, rfl, Or.inr fun p hp => Or.inr fun pos => ?_⟩
      rw [List.mem_singleton.mp hp]
      exact fun heq => by cases heq
  | slaveRecv | serve => exact ⟨_, rfl, Or.inr fun p hp => Or.inl hp⟩
  | slaveHandle a p hthread => exact ⟨_, rfl, Or.inr (oldOrOther_handled _ p)⟩
  | call a k todo after hthread =>
      refine ⟨_, rfl, Or.inr fun p hp => Or.inl ?_⟩
      rwa [toMaster_called] at hp
  | endCalls a after hthread => exact ⟨_, rfl, Or.inr (oldOrOther_returned _ after)⟩
  | interrupt a hthread => exact ⟨_, rfl, Or.inl ⟨a, rfl⟩⟩
  | registered a id p rest hthread hqueue =>
      refine ⟨_, rfl, Or.inr fun q hq => Or.inl ?_⟩
      rwa [toMaster_registered] at hq
  | left a id p rest hthread hqueue =>
      refine ⟨_, rfl, Or.inr fun q hq => Or.inl ?_⟩
      rwa [toMaster_left] at hq
  | masterRecv a ip rand p rest t hbase halarm hqueue hbegin =>
      exact ⟨_, links_beginRequest hbegin, Or.inr (hrest hqueue)⟩
  | skip r hbase halarm hsent hlt hself =>
      exact ⟨_, (Function.update_eq_self _ _).symm, Or.inr fun p hp => Or.inl hp⟩
  | notify r hbase halarm hsent hlt hother =>
      have hplace : s.place .notify = s.sock r.i := by rw [place, hbase]; rfl
      rw [hplace]
      exact ⟨_, rfl, Or.inr fun p hp => Or.inl hp⟩
  | masterReply r id p rest hbase halarm hsent hqueue =>
      have hplace : s.place .masterReply = s.sock r.i := by rw [place, hbase]; rfl
      rw [hplace]
      exact ⟨_, rfl, Or.inr (hrest hqueue)⟩
  | finish r hbase halarm hsent hi =>
      have hplace : s.place .finish = r.requester := by rw [place, hbase]; rfl
      rw [hplace]
      exact ⟨_, rfl, Or.inr fun p hp => Or.inl hp⟩
  | tick halarm hnum => exact ⟨_, rfl, Or.inr fun p hp => Or.inl hp⟩
  | tickReply w p rest halarm hqueue =>
      have hplace : s.place .tickReply = w.sock := by rw [place, halarm]; rfl
      rw [hplace]
      exact ⟨_, rfl, Or.inr (hrest hqueue)⟩

/-- A `DEL_SLAVE` that waits for the master was sent with SIGINT, or waited before. -/
theorem mem_toMaster_of_step {e : ControlEvent} (hstep : s.step e = some t)
    (hint : ∀ a, e ≠ .interrupt a) {b : Int} {p : ControlPacket}
    (hp : p ∈ (t.links b).toMaster) {pos : Nat} (hmsg : p.msg = .delSlave pos) :
    p ∈ (s.links b).toMaster := by
  obtain ⟨l, hlinks, hnew⟩ := links_of_step hstep
  rw [hlinks, Function.update_apply] at hp
  split at hp
  case isTrue heq =>
      subst heq
      rcases hnew with ⟨a, rfl⟩ | hnew
      · exact absurd rfl (hint a)
      · exact (hnew p hp).resolve_right fun hother => hother pos hmsg
  case isFalse => exact hp

/-- The other links are as before. -/
theorem links_step_of_ne {e : ControlEvent} (hstep : s.step e = some t) {b : Int}
    (hne : b ≠ s.place e) : t.links b = s.links b := by
  obtain ⟨l, hlinks, -⟩ := links_of_step hstep
  rw [hlinks, Function.update_of_ne hne]

/-- Only a tick and its end change whether `UpdateBackup` is running. -/
theorem alarm_of_step {e : ControlEvent} (hstep : s.step e = some t) (htick : e ≠ .tick)
    (hreply : e ≠ .tickReply) : t.alarm = s.alarm := by
  cases transition_of_step hstep with
  | masterRecv a ip rand p rest t hbase halarm hqueue hbegin =>
      unfold beginRequest at hbegin
      split at hbegin
      case h_1 =>
          rw [Option.ite_none_right_eq_some] at hbegin
          obtain rfl := Option.some.inj hbegin.2
          rfl
      case h_2 =>
          obtain rfl := Option.some.inj hbegin
          rfl
      case h_3 => cases hbegin
  | tick => exact absurd rfl htick
  | tickReply => exact absurd rfl hreply
  | _ => rfl

end Links

end ControlNet

/-- The control sockets with the master's `errno`. -/
structure ErrnoNet where
  net : ControlNet
  errno : Int

inductive ErrnoEvent where
  | net (e : ControlEvent)
  /-- A system call of the master fails while it handles a request. -/
  | callFails (errno : Int)
deriving DecidableEq, Repr

/-- The event on the control sockets. -/
def ErrnoEvent.control : ErrnoEvent → Option ControlEvent
  | net e => some e
  | callFails _ => none

namespace ErrnoNet

def init (errno : Int) : ErrnoNet :=
  ⟨ControlNet.init, errno⟩

/-- The next packet on the socket comes with a new connection. -/
def connects (s : ErrnoNet) (a : Int) : Bool :=
  match (s.net.links a).toMaster with
  | ⟨.addSlave _, _⟩ :: _ => true
  | _ => false

/-- The test in `MasterProcess`, before it handles the request of a slave. -/
def ignores (s : ErrnoNet) : ControlEvent → Bool
  | .masterRecv a _ _ => !s.connects a && s.errno == EINTR
  | _ => false

/-- `errno` after a step: the tick has interrupted `epoll_wait`, when no request is being
handled; a `RecvMsg` goes on after it. -/
def errnoAfter (s : ErrnoNet) : ControlEvent → Int
  | .tickReply => if s.net.base.isNone then EINTR else s.errno
  | _ => s.errno

/-- One step; `none` when the event cannot happen. -/
def step (s : ErrnoNet) : ErrnoEvent → Option ErrnoNet
  | .net e =>
      if s.ignores e then none else (s.net.step e).map fun n => ⟨n, s.errnoAfter e⟩
  | .callFails errno =>
      if s.net.base.isSome ∧ errno ≠ EINTR then some { s with errno := errno } else none

/-- The condition on a step: an operation starts only when nothing is going on, a slave
registers only when there is room for it, and leaves only while the master receives it. -/
def StartsAtRest (s : ErrnoNet) : ErrnoEvent → Prop
  | .net (.interrupt a) => s.net.StartsAtRest (.interrupt a) ∧ s.errno ≠ EINTR
  | .net e => s.net.StartsAtRest e
  | .callFails _ => True

/-- Something can happen that is not a new operation. -/
def Goes (s : ErrnoNet) : Prop :=
  ∃ e : ControlEvent, e.isStart = false ∧ (s.step (.net e)).isSome

/-- **While `errno` is `EINTR`, or a tick is going on, no `DEL_SLAVE` waits for the
master.** -/
def Undisturbed (s : ErrnoNet) : Prop :=
  s.errno = EINTR ∨ s.net.alarm ≠ none →
    ∀ b, ∀ p ∈ (s.net.links b).toMaster, ∀ pos, p.msg ≠ .delSlave pos

section Steps

variable {s t : ErrnoNet}

theorem startsAtRest_net {e : ControlEvent} (h : s.StartsAtRest (.net e)) :
    s.net.StartsAtRest e := by
  cases e with
  | interrupt a => exact h.1
  | _ => exact h

theorem step_net {e : ControlEvent} (hstep : s.step (.net e) = some t) :
    s.net.step e = some t.net ∧ t.errno = s.errnoAfter e := by
  simp only [step, Option.ite_none_left_eq_some, Option.map_eq_some_iff] at hstep
  obtain ⟨-, n, hn, rfl⟩ := hstep
  exact ⟨hn, rfl⟩

theorem Undisturbed.step (h : s.Undisturbed) {e : ErrnoEvent} (hcond : s.StartsAtRest e)
    (hstep : s.step e = some t) : t.Undisturbed := by
  cases e with
  | callFails errno =>
      simp only [ErrnoNet.step, Option.ite_none_right_eq_some, Option.some.injEq] at hstep
      obtain ⟨⟨-, herrno⟩, rfl⟩ := hstep
      exact fun hbusy => h (Or.inr (hbusy.resolve_left herrno))
  | net e =>
      obtain ⟨hnet, herrno⟩ := step_net hstep
      rintro hbusy b p hp pos hmsg
      have hbefore : (∀ a, e ≠ .interrupt a) → p ∈ (s.net.links b).toMaster :=
        fun hint => ControlNet.mem_toMaster_of_step hnet hint hp hmsg
      cases e with
      | interrupt a =>
          -- it starts at rest, where neither is the case
          have halarm := ControlNet.alarm_of_step hnet (by simp) (by simp)
          rw [herrno, halarm] at hbusy
          exact hbusy.elim hcond.2 (absurd hcond.1.alarm)
      | tick =>
          have hempty := (hcond.links b).toMaster
          rw [hempty] at hbefore
          exact absurd (hbefore (by simp)) List.not_mem_nil
      | tickReply =>
          have halarm : s.net.alarm ≠ none := by
            intro hnone
            simp [ControlNet.step, hnone] at hnet
          exact h (Or.inr halarm) b p (hbefore (by simp)) pos hmsg
      | _ =>
          have halarm := ControlNet.alarm_of_step hnet (by simp) (by simp)
          rw [herrno, halarm] at hbusy
          exact h hbusy b p (hbefore (by simp)) pos hmsg

/-- The test keeps the master from nothing that it has to do. -/
theorem Undisturbed.goes (h : s.Undisturbed) (hgoes : s.net.Goes) : s.Goes := by
  obtain ⟨e, hstart, henabled⟩ := hgoes
  refine ⟨e, hstart, ?_⟩
  have htakes : s.ignores e = false := by
    cases e with
    | masterRecv a ip rand =>
        rw [ignores, Bool.and_eq_false_iff, Bool.not_eq_false', beq_eq_false_iff_ne]
        obtain ⟨n, hn⟩ := Option.isSome_iff_exists.mp henabled
        cases ControlNet.transition_of_step hn with
        | masterRecv _ _ _ p rest _ hbase halarm hqueue hbegin =>
            obtain ⟨msg, id⟩ := p
            unfold ControlNet.beginRequest at hbegin
            cases msg with
            | addSlave port => exact Or.inl (by rw [connects, hqueue])
            | delSlave pos =>
                refine Or.inr fun herrno => ?_
                exact h (Or.inl herrno) a _ (by rw [hqueue]; exact List.mem_cons_self) pos rfl
            | _ => cases hbegin
    | _ => rfl
  rw [ErrnoNet.step, htakes, if_neg Bool.false_ne_true, Option.isSome_map]
  exact henabled

end Steps

/-- **One operation at a time.**  In every run of the master, with its test of `errno`, and
the slaves in which slaves register and leave and the alarm goes off only while nothing is
going on, and leave only while `errno` is not `EINTR`: something can happen as long as
something is going on, and whenever nothing is going on the master's list and the processes
are those that the requests of the run make, in the order in which they were started, and
all agree. -/
theorem simulates_registry (errno : Int) {es : List ErrnoEvent} {s : ErrnoNet}
    (hrun : run step (init errno) es = some s)
    (hcond : allSteps step StartsAtRest (init errno) es) :
    (s.net.AtRest ∨ s.Goes) ∧
      (s.net.AtRest → s.net.registry.Agrees ∧ ∃ requests,
        requests.map MasterRequest.start =
            (es.filterMap ErrnoEvent.control).filter ControlEvent.isRequest ∧
          run Registry.step (Registry.init ControlNet.init.registry.procs) requests =
            some s.net.registry) := by
  obtain ⟨hnet, hrests⟩ := run_project ControlNet.step ControlNet.StartsAtRest ErrnoNet.net
    ErrnoEvent.control
    (by
      intro s e e' t hcontrol hstep
      cases e with
      | net e =>
          obtain rfl := Option.some.inj hcontrol
          exact (step_net hstep).1
      | callFails => cases hcontrol)
    (by
      intro s e t hcontrol hstep
      cases e with
      | net e => cases hcontrol
      | callFails errno =>
          simp only [step, Option.ite_none_right_eq_some, Option.some.injEq] at hstep
          rw [← hstep.2])
    (by
      intro s e e' hcontrol hmeets
      cases e with
      | net e =>
          obtain rfl := Option.some.inj hcontrol
          exact startsAtRest_net hmeets
      | callFails => cases hcontrol)
    hcond hrun
  have hundisturbed : s.Undisturbed :=
    run_invariant_of_allSteps StartsAtRest Undisturbed (fun _ _ _ h hc hs => h.step hc hs) hcond
      hrun fun _ _ p hp => absurd hp List.not_mem_nil
  obtain ⟨hgoes, hregistry⟩ := ControlNet.registry_of_run hnet hrests
  exact ⟨hgoes.imp_right hundisturbed.goes, hregistry⟩

section Settles

variable {s : ErrnoNet}

instance (l : Link) : Decidable l.Still :=
  decidable_of_iff
    ((l.toSlave = [] ∧ l.toMaster = []) ∧ (l.thread = .loop ∨ l.thread = .down))
    ⟨fun h => ⟨⟨h.1.1, h.1.2⟩, h.2⟩,
      fun h => ⟨⟨h.toSlave, h.toMaster⟩, h.thread⟩⟩

/-- Nothing is going on at these places, nor at the master. -/
def restsOn (s : ErrnoNet) (places : List Int) : Bool :=
  s.net.base.isNone && s.net.alarm.isNone && places.all fun a => (s.net.links a).Still

/-- The condition on a step, when all other places rest. -/
def startsOn (s : ErrnoNet) (places : List Int) : ErrnoEvent → Bool
  | .net (.register _ _) => s.restsOn places && s.net.slaves.num < MAX_SLAVE_NUM
  | .net (.interrupt _) => s.restsOn places && s.errno != EINTR
  | .net .tick => s.restsOn places
  | _ => true

/-- The places after an event. -/
def placesWith (s : ErrnoNet) (places : List Int) : ErrnoEvent → List Int
  | .net e => s.net.place e :: places
  | .callFails _ => places

/-- A run that begins with rest at all other places meets the condition and ends at rest. -/
def settles (s : ErrnoNet) (places : List Int) : List ErrnoEvent → Bool
  | [] => s.restsOn places
  | e :: es =>
      s.startsOn places e &&
        match s.step e with
        | some t => t.settles (s.placesWith places e) es
        | none => true

theorem atRest_of_restsOn {places : List Int} (hothers : ∀ a ∉ places, (s.net.links a).Still)
    (h : s.restsOn places = true) : s.net.AtRest := by
  simp only [restsOn, Bool.and_eq_true, Option.isNone_iff_eq_none, List.all_eq_true,
    decide_eq_true_eq] at h
  obtain ⟨⟨hbase, halarm⟩, hplaces⟩ := h
  refine ⟨hbase, halarm, fun a => ?_⟩
  by_cases ha : a ∈ places
  · exact hplaces a ha
  · exact hothers a ha

theorem startsAtRest_of_startsOn {places : List Int}
    (hothers : ∀ a ∉ places, (s.net.links a).Still) {e : ErrnoEvent}
    (h : s.startsOn places e = true) : s.StartsAtRest e := by
  cases e with
  | callFails errno => trivial
  | net e =>
      cases e with
      | register a port =>
          simp only [startsOn, Bool.and_eq_true, decide_eq_true_eq] at h
          exact ⟨atRest_of_restsOn hothers h.1, h.2⟩
      | interrupt a =>
          simp only [startsOn, Bool.and_eq_true, bne_iff_ne] at h
          exact ⟨atRest_of_restsOn hothers h.1, h.2⟩
      | tick => exact atRest_of_restsOn hothers h
      | _ => trivial

/-- The other places still rest after a step. -/
theorem still_of_step {places : List Int} (hothers : ∀ a ∉ places, (s.net.links a).Still)
    {e : ErrnoEvent} {t : ErrnoNet} (hstep : s.step e = some t) :
    ∀ a ∉ s.placesWith places e, (t.net.links a).Still := by
  intro a ha
  cases e with
  | callFails errno =>
      simp only [step, Option.ite_none_right_eq_some, Option.some.injEq] at hstep
      rw [← hstep.2]
      exact hothers a ha
  | net e =>
      rw [placesWith, List.mem_cons, not_or] at ha
      obtain ⟨hne, hold⟩ := ha
      rw [ControlNet.links_step_of_ne (step_net hstep).1 hne]
      exact hothers a hold

theorem allSteps_of_settles {places : List Int} {es : List ErrnoEvent}
    (hothers : ∀ a ∉ places, (s.net.links a).Still) (h : s.settles places es = true) :
    allSteps step StartsAtRest s es ∧ ∀ t, run step s es = some t → t.net.AtRest := by
  induction es generalizing s places with
  | nil =>
      refine ⟨trivial, fun t ht => ?_⟩
      obtain rfl := Option.some.inj ht
      exact atRest_of_restsOn hothers h
  | cons e es ih =>
      rw [settles, Bool.and_eq_true] at h
      have hrest : ∀ t, s.step e = some t →
          allSteps step StartsAtRest t es ∧
            ∀ t', run step t es = some t' → t'.net.AtRest := by
        intro t ht
        have hsettles := h.2
        rw [ht] at hsettles
        exact ih (still_of_step hothers ht) hsettles
      refine ⟨⟨startsAtRest_of_startsOn hothers h.1, fun t ht => (hrest t ht).1⟩, ?_⟩
      intro t' ht'
      obtain ⟨t, ht, hrun⟩ := run_cons_eq_some.mp ht'
      exact (hrest t ht).2 t' hrun

end Settles

/-- The master notifies slave `b`. -/
def notified (b : Int) : List ControlEvent :=
  [.notify, .slaveRecv b, .slaveHandle b, .masterReply]

/-- Slave `a` calls slave `b`. -/
def served (b a : Int) : List ControlEvent :=
  [.call a, .serve b a]

/-- Two slaves register. -/
def twoJoins : List ControlEvent :=
  List.flatten
    [[.register 5 1, .masterRecv 5 0 0, .notify, .finish, .slaveReply 5, .endCalls 5],
      [.register 6 2, .masterRecv 6 0 0], notified 5, [.notify, .finish, .slaveReply 6],
      served 5 6, served 5 6, [.endCalls 6]]

/-- A tick in the ring of two. -/
def oneTick : List ControlEvent :=
  List.flatten
    [[.tick, .slaveRecv 6, .slaveHandle 6], served 5 6, [.call 6, .endCalls 6, .tickReply]]

/-- A third slave sends its `ADD_SLAVE`. -/
def thirdRequest : List ControlEvent :=
  [.register 7 3, .masterRecv 7 0 0]

/-- It registers behind the first one. -/
def thirdJoin : List ControlEvent :=
  List.flatten
    [notified 5, [.notify], notified 6, [.finish, .slaveReply 7], served 5 7, served 6 7,
      served 6 7, served 5 7, [.endCalls 7]]

/-- The second slave leaves; the others look for a slave two places behind them. -/
def departure : List ControlEvent :=
  List.flatten
    [[.interrupt 6, .masterRecv 6 0 0], notified 5, [.call 5, .endCalls 5], notified 7,
      [.notify, .finish, .slaveReply 6, .call 7, .endCalls 7]]

/-- A tick, and a departure after a call of the master has failed while it handled a
registration. -/
def tickAndDeparture : List ErrnoEvent :=
  (twoJoins ++ oneTick ++ thirdRequest).map .net ++ [.callFails 25] ++
    (thirdJoin ++ departure).map .net

theorem simulates_registry_tickAndDeparture :
    ∃ s requests, run step (init 0) tickAndDeparture = some s ∧
      s.net.slaves.keys = [0, 1000] ∧
      s.net.registry.Agrees ∧
      requests.map MasterRequest.start =
        [.register 5 1, .register 6 2, .register 7 3, .interrupt 6] ∧
      run Registry.step (Registry.init ControlNet.init.registry.procs) requests =
        some s.net.registry := by
  have hmap : (run step (init 0) tickAndDeparture).map (fun s => s.net.slaves.keys) =
      some [0, 1000] := by
    decide +kernel
  obtain ⟨s, hrun, hkeys⟩ := Option.map_eq_some_iff.mp hmap
  have hothers : ∀ a ∉ ([] : List Int), ((init 0).net.links a).Still :=
    fun a _ => ControlNet.atRest_init.links a
  have hsettles : (init 0).settles [] tickAndDeparture = true := by
    decide +kernel
  obtain ⟨hcond, hrest⟩ := allSteps_of_settles hothers hsettles
  obtain ⟨hagrees, requests, hstarts, hrequests⟩ :=
    (simulates_registry 0 hrun hcond).2 (hrest s hrun)
  exact ⟨s, requests, hrun, hkeys, hagrees, hstarts.trans (by decide), hrequests⟩

end ErrnoNet
end DistributedDB
