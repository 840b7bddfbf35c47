import DistributedDB.ControlSteps

/-!
# One operation at a time on the control sockets

The packets of `ControlSockets` against the requests of `Membership`, for a master that takes
every request on its sockets (the test of `errno` is in `ControlErrno`).  When a slave
registers or leaves, and the alarm goes off, only while nothing is going on, the protocol
never gets stuck, whatever order the processes take their steps in, and whenever nothing is
going on the master and the slaves are where the requests, one after the other, bring them.

After a departure two slaves may call others.  One may wait for the other, but the other
then waits for a slave in its main loop.

**Results.**
* `Phase.goes`: something can happen as long as something is going on.
* `Phase.step`, `Phase.run`: every step leads on in the operation.
* `registry_of_run`: both, over all runs of a master that takes every request.
-/

namespace DistributedDB

open RingIndex Run

namespace ControlNet

section Progress

variable {r R : Registry} {s : ControlNet} {request : MasterRequest} {cmd : RoundCmd} {a : Int}
  {pos id i n : Nat}

/-- Something can happen that is not a new operation. -/
def Goes (s : ControlNet) : Prop :=
  ∃ e : ControlEvent, e.isStart = false ∧ (s.step e).isSome

/-- The slave that `CommunicateToSlave` connects to, at a slave with the current list. -/
theorem peer_of_agrees (hr : r.Agrees) (hregistry : s.registry = r) {m : Nat}
    (hm : m < r.slaves.num) {k : Int} (hpeer : (s.links (r.sock m)).slave.hisPos k ≠ none) :
    relPos m k r.slaves.num ≠ m ∧
      peer (s.links (r.sock m)) k = some (r.sock (relPos m k r.slaves.num)) := by
  have hslave : (s.links (r.sock m)).slave = r.procs (r.sock m) :=
    congrFun (congrArg Registry.procs hregistry) _
  rw [hslave, Slave.hisPos, hr.slaves_eq m hm, hr.pos_eq m hm] at hpeer
  have hne : relPos m k r.slaves.num ≠ m := fun heq => hpeer (if_pos heq)
  refine ⟨hne, ?_⟩
  rw [peer, hslave, Slave.hisPos, hr.slaves_eq m hm, hr.pos_eq m hm, if_neg hne]
  rfl

/-- A slave in its main loop serves the slave that waits for it. -/
theorem goes_of_waiting {b : Int} {k : Int} {todo : List Int} {after : After}
    (hthread : (s.links a).thread = .waiting k todo after) (hpeer : peer (s.links a) k = some b)
    (hloop : (s.links b).thread = .loop) : s.Goes := by
  refine ⟨.serve b a, rfl, ?_⟩
  simp [step, hthread, hpeer, hloop]

theorem goes_of_calling {todo : List Int} {after : After}
    (hthread : (s.links a).thread = .calling todo after) : s.Goes := by
  cases todo with
  | nil => exact ⟨.endCalls a, rfl, by simp [step, hthread]⟩
  | cons k todo => exact ⟨.call a, rfl, by simp [step, hthread]⟩

theorem Calling.goes {after : After} {alarm : Option Await} (hr : r.Agrees)
    (h : Calling r a after alarm s) : s.Goes := by
  have hcaller := h.caller
  obtain ⟨m, hm, rfl⟩ := h.live
  generalize hthread : (s.links (r.sock m)).thread = thread at hcaller
  cases hcaller with
  | calling todo => exact goes_of_calling hthread
  | waiting k todo hpeer =>
      obtain ⟨hne, hpeer⟩ := peer_of_agrees hr h.registry hm hpeer
      have hlt := relPos_lt (show 0 < r.slaves.num by omega) m k
      refine goes_of_waiting hthread hpeer ((h.others _ fun heq => hne ?_).up ⟨_, hlt, rfl⟩)
      exact hr.sock_inj _ _ hlt hm heq

theorem Asked.goes {msg : ControlMsg} {start : ControlEvent} (hasks : Asks r cmd a msg start)
    (h : Asked r cmd a id msg s) : s.Goes := by
  have hslaves : s.slaves = r.slaves := congrArg Registry.slaves h.registry
  refine ⟨.masterRecv a 0 0, rfl, ?_⟩
  cases hasks with
  | add _ port hmax _ =>
      simp [ControlNet.step, h.base, h.alarm, h.toMaster, beginRequest, setLink, hslaves, hmax]
  | del _ _ => simp [ControlNet.step, h.base, h.alarm, h.toMaster, beginRequest]

theorem Looping.goes (h : Looping R cmd a pos id i s) : s.Goes := by
  have hnum := congrArg SlaveList.num h.slaves_eq
  rcases Nat.lt_or_eq_of_le h.le_num with hlt | heq
  · refine ⟨.notify, rfl, ?_⟩
    simp only [ControlNet.step, h.base, h.alarm, hnum, hlt, and_self, if_true]
    split <;> rfl
  · refine ⟨.finish, rfl, ?_⟩
    simp [ControlNet.step, h.base, h.alarm, hnum, heq]

theorem Telling.goes {id' : Nat} (h : Telling R cmd a pos id i n id' s) : s.Goes := by
  have hsock : s.sock i = R.sock i := by
    rw [ControlNet.sock, h.slaves_eq]
    rfl
  have hnotified := h.notified
  generalize hlink : s.links (R.sock i) = link at hnotified
  cases hnotified with
  | sent _ hthread htoSlave _ =>
      exact ⟨.slaveRecv (R.sock i), rfl, by simp [ControlNet.step, hlink, hthread, htoSlave]⟩
  | handling _ hthread _ =>
      exact ⟨.slaveHandle (R.sock i), rfl, by simp [ControlNet.step, hlink, hthread]⟩
  | replied _ p _ _ htoMaster =>
      refine ⟨.masterReply, rfl, ?_⟩
      simp [ControlNet.step, h.base, h.alarm, hsock, hlink, htoMaster]

theorem Answered.goes (h : Answered R cmd a pos id s) : s.Goes := by
  refine ⟨.slaveReply a, rfl, ?_⟩
  have hthread := h.thread
  cases cmd <;> simp only [askThread] at hthread <;> simp [ControlNet.step, hthread, h.toSlave]

theorem Ticking.goes (h : Ticking r a id s) : s.Goes := by
  have hrefreshed := h.refreshed
  generalize hlink : s.links a = link at hrefreshed
  cases hrefreshed with
  | sent hthread htoSlave _ =>
      exact ⟨.slaveRecv a, rfl, by simp [ControlNet.step, hlink, hthread, htoSlave]⟩
  | handling hthread _ =>
      exact ⟨.slaveHandle a, rfl, by simp [ControlNet.step, hlink, hthread]⟩
  | answered p _ _ htoMaster =>
      exact ⟨.tickReply, rfl, by simp [ControlNet.step, h.alarm, hlink, htoMaster]⟩

/-- The slaves that call after a departure are the two predecessors. -/
theorem back_of_agrees (hr : r.Agrees) (hregistry : s.registry = r) {m : Nat}
    (hm : m < r.slaves.num) (hpos : pos ≤ r.slaves.num)
    (hpre : (s.links (r.sock m)).slave.isPredecessor pos ||
      (s.links (r.sock m)).slave.isSecondPredecessor pos) :
    m = back r.slaves.num pos 1 ∨ m = back r.slaves.num pos 2 := by
  have hslave : (s.links (r.sock m)).slave = r.procs (r.sock m) :=
    congrFun (congrArg Registry.procs hregistry) _
  have hone : relPos pos (-1) r.slaves.num = back r.slaves.num pos 1 := relPos_sub 1 (by omega)
  rw [hslave, Slave.isPredecessor, Slave.isSecondPredecessor, hr.slaves_eq m hm, hr.pos_eq m hm,
    hone, relPos_sub_two (show 0 < r.slaves.num by omega)] at hpre
  simpa using hpre

/-- Slave `m` waits for the slave two places behind it, after the departure of the slave that
was at `pos`. -/
structure WaitsFor (r : Registry) (pos m : Nat) (s : ControlNet) : Prop where
  thread : (s.links (r.sock m)).thread = .waiting 2 [] .rmSlave
  back : m = back r.slaves.num pos 1 ∨ m = back r.slaves.num pos 2
  three : 2 < r.slaves.num
  peer : peer (s.links (r.sock m)) 2 = some (r.sock ((m + 2) % r.slaves.num))

theorem Gone.member_cases (hR : R.Agrees) (hpos : pos < R.slaves.num)
    (h : Gone R (R.delSlave (R.sock pos)) pos s) {m : Nat}
    (hm : m < (R.delSlave (R.sock pos)).slaves.num) :
    (s.links ((R.delSlave (R.sock pos)).sock m)).thread = .loop ∨ s.Goes ∨
      WaitsFor (R.delSlave (R.sock pos)) pos m s := by
  have hr := hR.delSlave hpos
  have hle : pos ≤ (R.delSlave (R.sock pos)).slaves.num := by
    rw [delSlave_eq hR hpos]
    exact Nat.le_sub_one_of_lt hpos
  obtain ⟨hlive, hne⟩ := (live_delSlave hR hpos).mp ⟨m, hm, rfl⟩
  have hmember := (h.others _ hne).member
  generalize hthread : (s.links ((R.delSlave (R.sock pos)).sock m)).thread = thread at hmember
  cases hmember with
  | down hb => exact absurd hlive hb
  | loop _ => exact Or.inl rfl
  | called _ => exact Or.inr (Or.inl (goes_of_calling hthread))
  | calls _ _ => exact Or.inr (Or.inl (goes_of_calling hthread))
  | waits _ hpre hpeer =>
      obtain ⟨hturn, hpeer⟩ := peer_of_agrees hr h.registry hm hpeer
      have htwo : relPos m 2 _ = (m + 2) % (R.delSlave (R.sock pos)).slaves.num := relPos_add 2
      rw [htwo] at hturn hpeer
      refine Or.inr (Or.inr ⟨hthread, back_of_agrees hr h.registry hm hle hpre, ?_, hpeer⟩)
      by_contra hsmall
      exact hturn (two_mod_eq hm (Nat.le_of_not_lt hsmall))

/-- After a departure somebody goes on, until all slaves are in their main loops: a slave
that waits, waits for one that does not, or for one that waits for such a one. -/
theorem Gone.goes (hR : R.Agrees) (hpos : pos < R.slaves.num)
    (h : Gone R (R.delSlave (R.sock pos)) pos s) : s.AtRest ∨ s.Goes := by
  by_cases hgoes : s.Goes
  · exact Or.inr hgoes
  have hle : pos ≤ (R.delSlave (R.sock pos)).slaves.num := by
    rw [delSlave_eq hR hpos]
    exact Nat.le_sub_one_of_lt hpos
  have hcases := fun m hm => h.member_cases hR hpos (m := m) hm
  have hlive := fun b => live_delSlave hR hpos (b := b)
  generalize R.delSlave (R.sock pos) = r at *
  have hturn : ∀ m, WaitsFor r pos m s → WaitsFor r pos ((m + 2) % r.slaves.num) s := by
    intro m hwaits
    have hlt := Nat.mod_lt (m + 2) (show 0 < r.slaves.num from lt_trans (by decide) hwaits.three)
    rcases hcases _ hlt with hloop | hgoes' | hwaits'
    · exact absurd (goes_of_waiting hwaits.thread hwaits.peer hloop) hgoes
    · exact absurd hgoes' hgoes
    · exact hwaits'
  have hup : ∀ m, m < r.slaves.num → (s.links (r.sock m)).thread = .loop := by
    intro m hm
    rcases hcases m hm with hloop | hgoes' | hwaits
    · exact hloop
    · exact absurd hgoes' hgoes
    · have hsecond := hturn m hwaits
      have hthird := hturn _ hsecond
      obtain ⟨hone, htwo⟩ := not_back_of_turns hle hm hwaits.three hwaits.back hsecond.back
      exact absurd hthird.back (not_or.mpr ⟨hone, htwo⟩)
  refine Or.inl ⟨h.base, h.alarm, fun b => ?_⟩
  rcases eq_or_ne b (R.sock pos) with rfl | hne
  · exact ⟨h.empty, Or.inr h.thread⟩
  · refine ⟨(h.others b hne).toEmpty, ?_⟩
    by_cases hb : R.Live b
    · obtain ⟨m, hm, rfl⟩ := (hlive b).mpr ⟨hb, hne⟩
      exact Or.inl (hup m hm)
    · exact Or.inr ((h.others b hne).member.down_of_not_live hb)

end Progress

section Phases

variable {r : Registry} {pending : List ControlEvent} {s t : ControlNet}

/-- **The protocol never gets stuck.**  Something can happen as long as something is going
on. -/
theorem Phase.goes (hr : r.Agrees) (h : Phase r pending s) : s.AtRest ∨ s.Goes := by
  cases h with
  | rest h =>
      refine Or.inl ⟨h.base, h.alarm, fun b => ⟨(h.links b).toEmpty, ?_⟩⟩
      by_cases hb : r.Live b
      · exact Or.inl ((h.links b).up hb)
      · exact Or.inr ((h.links b).down hb)
  | asked hasks h => exact Or.inr (h.goes hasks)
  | looping _ h => exact Or.inr h.goes
  | telling _ h => exact Or.inr h.goes
  | answered _ h => exact Or.inr h.goes
  | joining h => exact Or.inr (h.goes hr)
  | gone hpos hagrees hr' h =>
      subst hr'
      exact h.goes hagrees hpos
  | ticking h => exact Or.inr h.goes
  | refreshing h => exact Or.inr (h.goes hr)

/-- When nothing is going on, no operation is going on. -/
theorem Phase.rest_of_atRest (h : Phase r pending s) (hrest : s.AtRest) :
    Rest r s ∧ pending = [] := by
  have hnot : ∀ {a : Int} {after : After} {alarm : Option Await},
      ¬ Calling r a after alarm s := by
    intro a after alarm h
    obtain ⟨hloop, hdown⟩ := h.caller.busy
    exact (hrest.links a).thread.elim hloop hdown
  cases h with
  | rest h => exact ⟨h, rfl⟩
  | asked _ h =>
      exact absurd (h.toMaster.symm.trans (hrest.links _).toMaster) (List.cons_ne_nil _ _)
  | looping _ h => exact absurd (h.base.symm.trans hrest.base) (Option.some_ne_none _)
  | telling _ h => exact absurd (h.base.symm.trans hrest.base) (Option.some_ne_none _)
  | answered _ h =>
      exact absurd (h.toSlave.symm.trans (hrest.links _).toSlave) (List.cons_ne_nil _ _)
  | joining h => exact absurd h hnot
  | @gone R _ _ pos hpos hagrees hr h =>
      subst hr
      refine ⟨⟨h.base, h.alarm, h.registry, fun b => ?_⟩, rfl⟩
      rcases eq_or_ne b (R.sock pos) with rfl | hne
      · refine ⟨h.empty, fun hup => ?_, fun _ => h.thread⟩
        exact absurd rfl ((live_delSlave hagrees hpos).mp hup).2
      · refine ⟨(h.others b hne).toEmpty, fun hup => ?_, fun hdown => ?_⟩
        · have hlive := ((live_delSlave hagrees hpos).mp hup).1
          exact (hrest.links b).thread.resolve_right ((h.others b hne).member.ne_down hlive)
        · exact (h.others b hne).member.down_of_not_live fun hup =>
            hdown ((live_delSlave hagrees hpos).mpr ⟨hup, hne⟩)
  | ticking h => exact absurd (h.alarm.symm.trans hrest.alarm) (Option.some_ne_none _)
  | refreshing h => exact absurd h hnot

/-- Where the operations are after some events, in a phase of `r` with `pending`. -/
def LeadsTo (r : Registry) (pending : List ControlEvent) (es : List ControlEvent)
    (t : ControlNet) : Prop :=
  ∃ requests r' pending', run Registry.step r requests = some r' ∧ Phase r' pending' t ∧
    pending ++ es.filter ControlEvent.isRequest = requests.map MasterRequest.start ++ pending'

/-- A step that does not end a change of the list. -/
theorem Phase.leadsTo (h : Phase r pending t) {e : ControlEvent} (hstart : e.isRequest = false) :
    LeadsTo r pending [e] t :=
  ⟨[], r, pending, rfl, h, by simp [hstart]⟩

theorem leadsTo_of_step {r' : Registry} {request : MasterRequest} {e : ControlEvent}
    (hr : r.step request = some r') (h : Phase r' [] t) (hstart : e.isRequest = false) :
    LeadsTo r [request.start] [e] t :=
  ⟨[request], r', [], run_cons_eq_some.mpr ⟨r', hr, rfl⟩, h, by simp [hstart]⟩

/-- A start of an operation. -/
theorem Rest.start (hr : r.Agrees) (h : Rest r s) {e : ControlEvent} (hstart : e.isStart = true)
    (hcond : s.StartsAtRest e) (hstep : s.step e = some t) : LeadsTo r [] [e] t := by
  cases e with
  | register a port =>
      obtain ⟨id, hasks, hasked⟩ := h.register hcond.2 hstep
      exact ⟨[], r, _, rfl, .asked hasks hasked, rfl⟩
  | interrupt a =>
      obtain ⟨id, msg, hasks, hasked⟩ := h.interrupt hr hstep
      exact ⟨[], r, _, rfl, .asked hasks hasked, rfl⟩
  | tick =>
      obtain ⟨a, id, hticking⟩ := h.tick hstep
      exact (Phase.ticking hticking).leadsTo rfl
  | _ => cases hstart

/-- **Every step leads on in the operation.** -/
theorem Phase.step (hr : r.Agrees) (h : Phase r pending s) {e : ControlEvent}
    (hcond : s.StartsAtRest e) (hstep : s.step e = some t) : LeadsTo r pending [e] t := by
  cases hstart : e.isStart with
  | true =>
      have hrest : s.AtRest := by
        cases e with
        | register a port => exact hcond.1
        | interrupt a => exact hcond
        | tick => exact hcond
        | _ => cases hstart
      obtain ⟨hidle, rfl⟩ := h.rest_of_atRest hrest
      exact hidle.start hr hstart hcond hstep
  | false =>
  have hrequest : e.isRequest = false := by
    cases e with
    | register | interrupt => cases hstart
    | _ => rfl
  cases h with
  | rest h =>
      rw [h.step_eq_none hstart] at hstep
      cases hstep
  | asked hasks h =>
      obtain ⟨request, pos, R, rfl, hchange, hlooping⟩ := h.step hasks hr hstart hstep
      exact (Phase.looping hchange hlooping).leadsTo hrequest
  | looping hchange h =>
      rcases h.step hchange hr hstart hstep with ⟨i', h⟩ | ⟨i', n, id', h⟩ | h
      · exact (Phase.looping hchange h).leadsTo hrequest
      · exact (Phase.telling hchange h).leadsTo hrequest
      · exact (Phase.answered hchange h).leadsTo hrequest
  | telling hchange h =>
      rcases h.step hchange hr hstart hstep with ⟨n', h⟩ | h
      · exact (Phase.telling hchange h).leadsTo hrequest
      · exact (Phase.looping hchange h).leadsTo hrequest
  | answered hchange h =>
      rcases h.step hchange hr hstart hstep with h | ⟨r', hr', h⟩ | ⟨hpos, hagrees, hr', h⟩
      · exact (Phase.answered hchange h).leadsTo hrequest
      · exact leadsTo_of_step hr' (.joining h) hrequest
      · exact leadsTo_of_step hr' (.gone hpos hagrees rfl h) hrequest
  | joining h =>
      rcases h.step hstart hstep with hcalling | rfl
      · exact (Phase.joining hcalling).leadsTo hrequest
      · exact (Phase.rest h.rest).leadsTo hrequest
  | gone hpos hagrees hr' h =>
      exact (Phase.gone hpos hagrees hr' (h.step hstart hstep)).leadsTo hrequest
  | ticking h =>
      rcases h.step hstart hstep with h | h | h
      · exact (Phase.ticking h).leadsTo hrequest
      · exact (Phase.refreshing h).leadsTo hrequest
      · exact (Phase.rest h).leadsTo hrequest
  | refreshing h =>
      rcases h.step hstart hstep with hcalling | rfl
      · exact (Phase.refreshing hcalling).leadsTo hrequest
      · exact (Phase.ticking h.ticking).leadsTo hrequest

/-- The whole run. -/
theorem Phase.run (hr : r.Agrees) (h : Phase r pending s) {es : List ControlEvent}
    (hcond : allSteps ControlNet.step StartsAtRest s es)
    (hrun : Run.run ControlNet.step s es = some t) : LeadsTo r pending es t := by
  induction es generalizing s r pending with
  | nil =>
      obtain rfl : s = t := Option.some.inj hrun
      exact ⟨[], r, pending, rfl, h, by simp⟩
  | cons e es ih =>
      obtain ⟨m, hm, hrest⟩ := run_cons_eq_some.mp hrun
      obtain ⟨requests, r₁, pending₁, hrequests, hphase, hstarts⟩ := h.step hr hcond.1 hm
      have hr₁ : r₁.Agrees :=
        run_invariant Registry.Agrees (fun _ _ _ h hstep => h.step hstep) hrequests hr
      obtain ⟨requests', r₂, pending₂, hrequests', hphase', hstarts'⟩ :=
        ih hr₁ hphase (hcond.2 m hm) hrest
      refine ⟨requests ++ requests', r₂, pending₂, ?_, hphase', ?_⟩
      · rw [run_append, hrequests]
        exact hrequests'
      · rw [List.map_append, List.append_assoc, ← hstarts', ← List.append_assoc, ← hstarts,
          List.append_assoc, ← List.filter_append, List.singleton_append]

end Phases

/-- **One operation at a time**, when the master takes every request.  In every run in which
slaves register and leave and the alarm goes off only while nothing is going on: something
can happen as long as something is going on, and whenever nothing is going on the master's
list and the processes are those that the requests of the run make, in the order in which
they were started, and all agree. -/
theorem registry_of_run {es : List ControlEvent} {s : ControlNet}
    (hrun : Run.run ControlNet.step init es = some s)
    (hcond : allSteps ControlNet.step StartsAtRest init es) :
    (s.AtRest ∨ s.Goes) ∧
      (s.AtRest → s.registry.Agrees ∧ ∃ requests,
        requests.map MasterRequest.start = es.filter ControlEvent.isRequest ∧
          Run.run Registry.step (Registry.init init.registry.procs) requests =
            some s.registry) := by
  have hempty : ∀ b, ¬ (Registry.init init.registry.procs).Live b := by
    rintro b ⟨i, hi, -⟩
    exact absurd hi (Nat.not_lt_zero i)
  have hinit : Phase (Registry.init init.registry.procs) [] init := by
    refine .rest ⟨rfl, rfl, rfl, fun b => ⟨⟨rfl, rfl⟩, fun hup => ?_, fun _ => rfl⟩⟩
    exact absurd hup (hempty b)
  have hagrees := Registry.agrees_init init.registry.procs
  obtain ⟨requests, r, pending, hrequests, hphase, hstarts⟩ := hinit.run hagrees hcond hrun
  have hr : r.Agrees :=
    run_invariant Registry.Agrees (fun _ _ _ h hstep => h.step hstep) hrequests hagrees
  refine ⟨hphase.goes hr, fun hrest => ?_⟩
  obtain ⟨h, rfl⟩ := hphase.rest_of_atRest hrest
  rw [h.registry]
  refine ⟨hr, requests, ?_, hrequests⟩
  rw [List.append_nil, List.nil_append] at hstarts
  exact hstarts.symm

theorem atRest_init : init.AtRest where
  base := rfl
  alarm := rfl
  links := fun _ => ⟨⟨rfl, rfl⟩, Or.inr rfl⟩

end ControlNet

end DistributedDB
