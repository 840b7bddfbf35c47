import DistributedDB.SharedBuffer

/-!
# Disconnects

When `recv` returns an end-of-stream or an error, `szBuf` keeps the packet that was
received last, and the main loop goes on as if that packet had arrived on the
connection.  Only the version check can keep it from handing the packet on.

**Results.**
* `DBServer.settled_step`: a step hands on what it receives, or replays `szBuf`.
* `DBServer.handed_eq_passed_iff`: in a run that ends in `epoll_wait`, the requests
  handed on are the packets received that the version check lets pass if and only if
  the version check has caught every failed `recv`.
* `DBServer.last_packet_replayed`: a run in which a disconnect repeats the `DEL` of
  another client.
-/

namespace DistributedDB

open Run

namespace DBServer

/-- The packets received, without those that are answered with the slave list. -/
def passed (s : DBServer) : List Arrival :=
  s.arrivals.filter fun a => a.gate != .sendSlaveList

/-- The condition on a step: when `recv` fails, the packet in `szBuf` is one that the
version check does not let pass. -/
def ReplaysNothing (s : DBServer) : DBServerEvent → Prop
  | .recvFails => gate s.szBuf s.version = .sendSlaveList
  | _ => True

instance (s : DBServer) (e : DBServerEvent) : Decidable (s.ReplaysNothing e) :=
  match e with
  | .recvFails => inferInstanceAs (Decidable (gate s.szBuf s.version = .sendSlaveList))
  | .accept _ _ _ | .poll _ | .recv _ | .lookUp | .dispatch | .post | .newVersion | .wake _
  | .deQueue _ | .fetch _ | .decode _ | .execute _ _ _ | .send _ | .store _ | .close _
  | .remove _ => isTrue trivial

/-- What the main loop is about to hand on for a socket. -/
def about (s : DBServer) (sock : Int) : List Arrival :=
  if gate s.szBuf s.version = .sendSlaveList then []
  else [⟨sock, s.szBuf, gate s.szBuf s.version⟩]

/-- The requests handed on, and the one that the main loop is about to hand on. -/
def settled (s : DBServer) : List Arrival :=
  s.handed ++
    match s.main with
    | .received sock _ | .found sock _ _ => s.about sock
    | _ => []

section Steps

variable {s s' : DBServer} {e : DBServerEvent}

/-- The step has handed on what it received. -/
def Passes (s s' : DBServer) : Prop :=
  ∃ new, s'.settled = s.settled ++ new ∧ s'.passed = s.passed ++ new

theorem passes_of_same (hsettled : s'.settled = s.settled) (hpassed : s'.passed = s.passed) :
    Passes s s' :=
  ⟨[], by rw [hsettled, List.append_nil], by rw [hpassed, List.append_nil]⟩

/-- A step of a worker changes nothing that the main loop looks at. -/
theorem passes_of_worker (hmain : s'.main = s.main) (hbuf : s'.szBuf = s.szBuf)
    (hversion : s'.version = s.version) (hhanded : s'.handed = s.handed)
    (harrivals : s'.arrivals = s.arrivals) : Passes s s' := by
  refine passes_of_same ?_ ?_
  · unfold settled about
    rw [hmain, hbuf, hversion, hhanded]
  · unfold passed
    rw [harrivals]

theorem passed_append (a : Arrival) :
    (s.arrivals ++ [a]).filter (fun a => a.gate != .sendSlaveList) =
      s.passed ++ if a.gate = .sendSlaveList then [] else [a] := by
  rw [List.filter_append, passed]
  congr 1
  cases hgate : a.gate <;> simp [hgate]

/-- The main loop hands on what it was about to hand on. -/
theorem settled_dispatch {sock : Int} {arrived : Bool} {phcsock : Option ClientSockHandle}
    (hmain : s.main = .found sock arrived phcsock) {hcsock : ClientSockHandle}
    (hsock : hcsock.sock = sock) {g : Gate} (hgate : gate s.szBuf s.version = g)
    (hlist : g ≠ .sendSlaveList) : s.settled = s.handed ++ [⟨hcsock.sock, s.szBuf, g⟩] := by
  rw [settled, hmain]
  simp only [about]
  rw [hgate, if_neg hlist, hsock]

/-- **A step hands on what it receives, or `recv` fails and the packet in `szBuf` is taken
for another one.** -/
theorem settled_step (hrecords : s.RecordInv) (hstep : s.step e = some s')
    (hrunning : s'.main ≠ .crashed) :
    (s.ReplaysNothing e ∧ Passes s s') ∨
      (¬ s.ReplaysNothing e ∧ ∃ a, s'.settled = s.settled ++ [a] ∧
        s'.passed = s.passed) := by
  obtain ⟨-, htransition⟩ := transition_of_step hstep
  cases htransition with
  | accept sock ip app hmain => exact Or.inl ⟨trivial, passes_of_worker rfl rfl rfl rfl rfl⟩
  | poll sock hmain =>
      refine Or.inl ⟨trivial, passes_of_same ?_ rfl⟩
      simp [settled, setMain, hmain]
  | recv p sock hmain =>
      refine Or.inl ⟨trivial, if gate p s.version = .sendSlaveList then [] else
        [⟨sock, p, gate p s.version⟩], ?_, passed_append _⟩
      rw [settled, settled, hmain, List.append_nil]
      rfl
  | recvFails sock hmain =>
      by_cases hgate : gate s.szBuf s.version = .sendSlaveList
      · refine Or.inl ⟨hgate, passes_of_same ?_ rfl⟩
        simp [settled, about, setMain, hmain, hgate]
      · refine Or.inr ⟨hgate, ⟨sock, s.szBuf, gate s.szBuf s.version⟩, ?_, rfl⟩
        simp [settled, about, setMain, hmain, hgate]
  | lookUp sock arrived hmain =>
      refine Or.inl ⟨trivial, passes_of_same ?_ rfl⟩
      rw [settled, settled, hmain]
      rfl
  | listSent sock arrived phcsock hmain hgate =>
      refine Or.inl ⟨trivial, passes_of_same ?_ rfl⟩
      simp [settled, about, setMain, hmain, hgate]
  | slaveRequest sock arrived hcsock hmain hgate =>
      refine Or.inl ⟨trivial, passes_of_same ?_ rfl⟩
      rw [settled_dispatch hmain (hrecords.found _ _ _ hmain) hgate nofun]
      exact List.append_nil _
  | queued sock arrived hcsock hmain hgate hfull =>
      refine Or.inl ⟨trivial, passes_of_same ?_ rfl⟩
      rw [settled_dispatch hmain (hrecords.found _ _ _ hmain) hgate nofun]
      exact List.append_nil _
  | crash => exact absurd rfl hrunning
  | post hmain =>
      refine Or.inl ⟨trivial, passes_of_same ?_ rfl⟩
      simp [settled, setMain, hmain]
  | newVersion hmain =>
      refine Or.inl ⟨trivial, passes_of_same ?_ rfl⟩
      simp [settled, hmain]
  | wake | deQueue | fetch | decode | execute | send | store | close | remove =>
      exact Or.inl ⟨trivial, passes_of_worker rfl rfl rfl rfl rfl⟩

/-- A process that goes on has not crashed. -/
theorem running_of_run {events : List DBServerEvent} (hrun : run step s events = some s')
    (hrunning : s'.main ≠ .crashed) : s.main ≠ .crashed := by
  cases events with
  | nil =>
      obtain rfl := Option.some.inj hrun
      exact hrunning
  | cons e events =>
      obtain ⟨m, hm, -⟩ := run_cons_eq_some.mp hrun
      exact (transition_of_step hm).1

/-- Requests are only added, and one too many when a replay is not caught. -/
theorem length_settled_run {events : List DBServerEvent} (hrecords : s.RecordInv)
    (hrun : run step s events = some s') (hrunning : s'.main ≠ .crashed) :
    s.settled.length + s'.passed.length ≤ s'.settled.length + s.passed.length ∧
      (¬ allSteps step ReplaysNothing s events →
        s.settled.length + s'.passed.length < s'.settled.length + s.passed.length) := by
  induction events generalizing s with
  | nil =>
      obtain rfl := Option.some.inj hrun
      exact ⟨le_rfl, fun hbad => absurd trivial hbad⟩
  | cons e events ih =>
      obtain ⟨m, hm, hrest⟩ := run_cons_eq_some.mp hrun
      obtain ⟨hle, hlt⟩ := ih (hrecords.step hm) hrest
      rcases settled_step hrecords hm (running_of_run hrest hrunning) with
        ⟨hgood, new, hsettled, hpassed⟩ | ⟨hbad, a, hsettled, hpassed⟩
      · simp only [hsettled, hpassed, List.length_append] at hle hlt
        refine ⟨by omega, fun hsteps => ?_⟩
        have hrestbad : ¬ allSteps step ReplaysNothing m events := by
          intro hall
          refine hsteps ⟨hgood, fun t ht => ?_⟩
          rw [hm] at ht
          exact Option.some.inj ht ▸ hall
        have := hlt hrestbad
        omega
      · simp only [hsettled, hpassed, List.length_append, List.length_singleton] at hle
        exact ⟨by omega, fun _ => by omega⟩

/-- When every replay is caught, the requests are the packets received. -/
theorem settled_run {events : List DBServerEvent} (hrecords : s.RecordInv)
    (hrun : run step s events = some s') (hrunning : s'.main ≠ .crashed)
    (hcaught : allSteps step ReplaysNothing s events) (h : s.settled = s.passed) :
    s'.settled = s'.passed := by
  induction events generalizing s with
  | nil =>
      obtain rfl := Option.some.inj hrun
      exact h
  | cons e events ih =>
      obtain ⟨m, hm, hrest⟩ := run_cons_eq_some.mp hrun
      refine ih (hrecords.step hm) hrest (hcaught.2 m hm) ?_
      rcases settled_step hrecords hm (running_of_run hrest hrunning) with
        ⟨-, new, hsettled, hpassed⟩ | ⟨hbad, -⟩
      · rw [hsettled, hpassed, h]
      · exact absurd hcaught.1 hbad

end Steps

/-- **A disconnect executes nothing, exactly when the version check catches it**: in a run
that ends in `epoll_wait`, the requests handed to `HandleSlaveRequest` or to the workers
are the packets received that the version check lets pass if and only if, whenever
`recv` failed, `szBuf` held a packet that the version check does not let pass. -/
theorem handed_eq_passed_iff (slots : Nat → QueueNode) (allocated : Nat → DBPacket)
    (sendhd : CMD) (version : UInt32) (events : List DBServerEvent) (s : DBServer)
    (hrun : run step (init slots allocated sendhd version) events = some s)
    (hpolling : s.main = .polling) :
    s.handed = s.passed ↔
      allSteps step ReplaysNothing (init slots allocated sendhd version) events := by
  have hrunning : s.main ≠ .crashed := by
    rw [hpolling]
    exact nofun
  have hhanded : s.settled = s.handed := by
    rw [settled, hpolling]
    exact List.append_nil _
  have hrecords := recordInv_init slots allocated sendhd version
  constructor
  · intro heq
    by_contra hbad
    have hlt := (length_settled_run hrecords hrun hrunning).2 hbad
    rw [hhanded, heq] at hlt
    exact absurd hlt (by simp [settled, passed, init])
  · intro hcaught
    rw [← hhanded]
    exact settled_run hrecords hrun hrunning hcaught rfl

theorem handed_eq_passed_slowClients :
    ∃ s, run step started slowClients = some s ∧ s.handed.length = 2 ∧
      s.handed = s.passed := by
  have hmap : (run step started slowClients).map (fun s => (s.main, s.handed.length)) =
      some (.polling, 2) := by
    decide +kernel
  obtain ⟨s, hrun, hmap⟩ := Option.map_eq_some_iff.mp hmap
  obtain ⟨hmain, hlength⟩ := Prod.mk.inj hmap
  exact ⟨s, hrun, hlength,
    (handed_eq_passed_iff _ _ _ _ slowClients s hrun hmain).mpr (by decide +kernel)⟩

/-- A client deletes a key, and then another client hangs up. -/
def hangUp : List DBServerEvent :=
  [.accept 5 1 0, .accept 6 2 0] ++ request 6 ⟨.DEL, 7, 0, []⟩ ++ work 0 0 ++
    [.poll 5, .recvFails, .lookUp, .dispatch, .post] ++ work 1 0

/-- The `DEL` is executed a second time, for the connection that was closed. -/
theorem last_packet_replayed :
    ∃ s, run step started hangUp = some s ∧ s.main = .polling ∧
      s.passed = [⟨6, ⟨.DEL, 7, 0, []⟩, .enQueue⟩] ∧
      s.handed = [⟨6, ⟨.DEL, 7, 0, []⟩, .enQueue⟩,
        ⟨5, ⟨.DEL, 7, 0, []⟩, .enQueue⟩] ∧
      s.executed.map (fun x => (x.sock, x.cmd, x.key)) = [(6, .DEL, 7), (5, .DEL, 7)] := by
  have hhanded : (run step started hangUp).map (fun s => (s.main, s.passed, s.handed)) =
      some (.polling, [⟨6, ⟨.DEL, 7, 0, []⟩, .enQueue⟩],
        [⟨6, ⟨.DEL, 7, 0, []⟩, .enQueue⟩, ⟨5, ⟨.DEL, 7, 0, []⟩, .enQueue⟩]) := by
    decide +kernel
  have hexecuted : (run step started hangUp).map
      (fun s => s.executed.map fun x => (x.sock, x.cmd, x.key)) =
      some [(6, .DEL, 7), (5, .DEL, 7)] := by
    decide +kernel
  obtain ⟨s, hrun, hhanded⟩ := Option.map_eq_some_iff.mp hhanded
  rw [hrun] at hexecuted
  simp only [Prod.mk.injEq] at hhanded
  exact ⟨s, hrun, hhanded.1, hhanded.2.1, hhanded.2.2, Option.some.inj hexecuted⟩

end DBServer

end DistributedDB
