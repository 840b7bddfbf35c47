import DistributedDB.Library.Run

/-!
# The loop of the master

`MasterProcess` between two calls of `epoll_wait`.  The loop tells an interrupt from a
request by `errno` and by what is in `event`, and both outlast the iteration: successful
calls leave `errno` alone, and an interrupted `epoll_wait` leaves `event` alone.

What a request changes in the list is its number of slaves, by which `UpdateBackup`
divides in the SIGALRM handler.  The rest of `HandleRequest` is not looked at here.

**Results.**
* `MasterLoop.step`: one iteration.
* `MasterLoop.dispatches_iff`: every ready request is handled if and only if `errno` is
  never `EINTR` when a slave's request is reported.
* `MasterLoop.ignored_after_alarm`: after an interrupt no slave's request is handled any
  more, as long as no call fails.
-/

namespace DistributedDB

open Run

def EINTR : Int := 4

/-- What `epoll_wait` reports. -/
inductive WaitResult where
  /-- A SIGALRM has been handled. -/
  | interrupted
  /-- A connection on the listening socket. -/
  | connection
  | slave (sock : Int)
deriving DecidableEq, Repr

inductive MasterCall where
  | accept
  | handleRequest (sock : Int)
deriving DecidableEq, Repr

/-- The requests, as far as they change the number of slaves. -/
inductive RequestCmd where
  | ADD_SLAVE
  | DEL_SLAVE
  | other
deriving DecidableEq, Repr

/-- What an iteration found and did. -/
structure Iteration where
  reported : WaitResult
  calls : List MasterCall
deriving DecidableEq, Repr

structure MasterLoop where
  listen_sock : Int
  /-- `event.data.fd`. -/
  fd : Int
  errno : Int
  /-- `slaves.num`. -/
  num : Int
  /-- The accepted sockets in the epoll set. -/
  watched : Int → Bool
  /-- The process has not been killed by SIGFPE. -/
  running : Bool
  log : List Iteration

inductive LoopEvent where
  /-- A SIGALRM outside of `epoll_wait`. -/
  | alarm
  /-- An iteration: `acsock` is the next free descriptor, `cmd` the request on the socket
  and `failure` what a failing call during its handling leaves in `errno`. -/
  | iterate (w : WaitResult) (acsock : Int) (cmd : RequestCmd) (failure : Option Int)
deriving DecidableEq, Repr

namespace MasterLoop

def init (listen_sock errno : Int) : MasterLoop where
  listen_sock := listen_sock
  fd := listen_sock
  errno := errno
  num := 0
  watched := fun _ => false
  running := true
  log := []

/-- `HandleRequest`: the socket stays open after `ADD_SLAVE` only. -/
def handleRequest (s : MasterLoop) (sock : Int) (cmd : RequestCmd) (failure : Option Int) :
    MasterLoop :=
  match cmd with
  | .ADD_SLAVE => { s with num := s.num + 1, errno := failure.getD s.errno }
  | .DEL_SLAVE =>
      { s with
        num := s.num - 1
        watched := Function.update s.watched sock false
        errno := failure.getD s.errno }
  | .other =>
      { s with
        watched := Function.update s.watched sock false
        errno := failure.getD s.errno }

/-- `UpdateBackup`, as the handler of SIGALRM; `none` when it divides by zero. -/
def updateBackup (s : MasterLoop) : Option MasterLoop :=
  if s.num = 0 then none else some s

/-- `epoll_wait`. -/
def wait (s : MasterLoop) : WaitResult → Option MasterLoop
  | .interrupted => s.updateBackup.map fun s => { s with errno := EINTR }
  | .connection => some { s with fd := s.listen_sock }
  | .slave sock => some { s with fd := sock }

/-- SIGFPE kills the process. -/
def killed (s : MasterLoop) : MasterLoop :=
  { s with running := false }

def record (s : MasterLoop) (w : WaitResult) (calls : List MasterCall) : MasterLoop :=
  { s with log := s.log ++ [⟨w, calls⟩] }

/-- `ServiceStart`, and the request on the new connection. -/
def connect (s : MasterLoop) (acsock : Int) (cmd : RequestCmd) (failure : Option Int) :
    MasterLoop :=
  ({ s with
    fd := acsock
    watched := Function.update s.watched acsock true } : MasterLoop).handleRequest acsock cmd
      failure

/-- The rest of the iteration. -/
def body (s : MasterLoop) (w : WaitResult) (acsock : Int) (cmd : RequestCmd)
    (failure : Option Int) : MasterLoop :=
  if s.fd = s.listen_sock then
    (s.connect acsock cmd failure).record w [.accept, .handleRequest acsock]
  else if s.errno = EINTR then s.record w []
  else (s.handleRequest s.fd cmd failure).record w [.handleRequest s.fd]

/-- `epoll_wait` can return this. -/
def CanReport (s : MasterLoop) : WaitResult → Prop
  | .slave sock => s.watched sock = true ∧ sock ≠ s.listen_sock
  | .interrupted | .connection => True

instance (s : MasterLoop) (w : WaitResult) : Decidable (s.CanReport w) :=
  match w with
  | .slave sock => inferInstanceAs (Decidable (s.watched sock = true ∧ sock ≠ s.listen_sock))
  | .interrupted | .connection => isTrue trivial

/-- One iteration of the loop, or a signal in it; `none` when the event cannot happen. -/
def step (s : MasterLoop) : LoopEvent → Option MasterLoop
  | .alarm => if s.running then some (s.updateBackup.getD s.killed) else none
  | .iterate w acsock cmd failure =>
      if s.running ∧ s.CanReport w ∧ s.watched acsock = false ∧ acsock ≠ s.listen_sock then
        match s.wait w with
        | some s => some (s.body w acsock cmd failure)
        | none => some s.killed
      else none

/-- Everything that a step can do. -/
inductive Transition (s : MasterLoop) : LoopEvent → MasterLoop → Prop where
  | alarm (hnum : s.num ≠ 0) : Transition s .alarm s
  | alarmKills (hnum : s.num = 0) : Transition s .alarm s.killed
  | kills (acsock : Int) (cmd : RequestCmd) (failure : Option Int) (hnum : s.num = 0) :
      Transition s (.iterate .interrupted acsock cmd failure) s.killed
  | interrupted (acsock : Int) (cmd : RequestCmd) (failure : Option Int)
      (hfd : s.fd ≠ s.listen_sock) :
      Transition s (.iterate .interrupted acsock cmd failure)
        ({ s with errno := EINTR }.record .interrupted [])
  | misled (acsock : Int) (cmd : RequestCmd) (failure : Option Int) (hnum : s.num ≠ 0)
      (hfd : s.fd = s.listen_sock) :
      Transition s (.iterate .interrupted acsock cmd failure)
        ((({ s with errno := EINTR } : MasterLoop).connect acsock cmd failure).record
          .interrupted [.accept, .handleRequest acsock])
  | connected (acsock : Int) (cmd : RequestCmd) (failure : Option Int)
      (hnew : acsock ≠ s.listen_sock) :
      Transition s (.iterate .connection acsock cmd failure)
        ((s.connect acsock cmd failure).record .connection [.accept, .handleRequest acsock])
  | skipped (sock acsock : Int) (cmd : RequestCmd) (failure : Option Int)
      (hsock : sock ≠ s.listen_sock) (herrno : s.errno = EINTR) :
      Transition s (.iterate (.slave sock) acsock cmd failure)
        ({ s with fd := sock }.record (.slave sock) [])
  | handled (sock acsock : Int) (cmd : RequestCmd) (failure : Option Int)
      (hsock : sock ≠ s.listen_sock) (herrno : s.errno ≠ EINTR) :
      Transition s (.iterate (.slave sock) acsock cmd failure)
        ((({ s with fd := sock } : MasterLoop).handleRequest sock cmd failure).record
          (.slave sock) [.handleRequest sock])

theorem transition_of_step {s s' : MasterLoop} {e : LoopEvent} (hstep : s.step e = some s') :
    s.Transition e s' := by
  cases e with
  | alarm =>
      simp only [step, Option.ite_none_right_eq_some] at hstep
      obtain rfl := Option.some.inj hstep.2
      unfold updateBackup
      split
      case isTrue hnum => exact .alarmKills hnum
      case isFalse hnum => exact .alarm hnum
  | iterate w acsock cmd failure =>
      simp only [step, Option.ite_none_right_eq_some] at hstep
      obtain ⟨⟨-, hreport, -, hnew⟩, hstep⟩ := hstep
      cases w with
      | interrupted =>
          by_cases hnum : s.num = 0
          · simp only [wait, updateBackup, if_pos hnum, Option.map_none] at hstep
            obtain rfl := Option.some.inj hstep
            exact .kills acsock cmd failure hnum
          · simp only [wait, updateBackup, if_neg hnum, Option.map_some, body, if_true] at hstep
            obtain rfl := Option.some.inj hstep
            split
            case isTrue hfd => exact .misled acsock cmd failure hnum hfd
            case isFalse hfd => exact .interrupted acsock cmd failure hfd
      | connection =>
          simp only [wait, body, if_true] at hstep
          obtain rfl := Option.some.inj hstep
          exact .connected acsock cmd failure hnew
      | slave sock =>
          simp only [wait, body, if_neg hreport.2] at hstep
          obtain rfl := Option.some.inj hstep
          split
          case isTrue herrno => exact .skipped sock acsock cmd failure hreport.2 herrno
          case isFalse herrno => exact .handled sock acsock cmd failure hreport.2 herrno

end MasterLoop

/-- A ready slave socket is handled, and nothing is done after an interrupt. -/
def Iteration.Dispatches (x : Iteration) : Prop :=
  match x.reported with
  | .interrupted => x.calls = []
  | .connection => True
  | .slave sock => x.calls = [.handleRequest sock]

namespace MasterLoop

/-- The condition on an iteration: `errno` is not `EINTR` when a slave's request is
reported. -/
def ErrnoClear (s : MasterLoop) : LoopEvent → Prop
  | .iterate (.slave _) _ _ _ => s.errno ≠ EINTR
  | _ => True

instance (s : MasterLoop) (e : LoopEvent) : Decidable (s.ErrnoClear e) :=
  match e with
  | .iterate (.slave _) _ _ _ => inferInstanceAs (Decidable (s.errno ≠ EINTR))
  | .iterate .interrupted _ _ _ | .iterate .connection _ _ _ | .alarm => isTrue trivial

/-- `event` holds the listening socket at the start only, when there are no slaves. -/
def EventInv (s : MasterLoop) : Prop :=
  s.fd = s.listen_sock → s.num = 0

/-- Every iteration has dispatched what was reported. -/
def Dispatches (s : MasterLoop) : Prop :=
  ∀ x ∈ s.log, x.Dispatches

section Steps

variable {s s' : MasterLoop} {e : LoopEvent}

theorem handleRequest_frame (sock : Int) (cmd : RequestCmd) (failure : Option Int) :
    (s.handleRequest sock cmd failure).fd = s.fd ∧
      (s.handleRequest sock cmd failure).listen_sock = s.listen_sock ∧
      (s.handleRequest sock cmd failure).errno = failure.getD s.errno ∧
      (s.handleRequest sock cmd failure).log = s.log := by
  cases cmd <;> exact ⟨rfl, rfl, rfl, rfl⟩

/-- After a request `event` holds the socket of the request. -/
theorem eventInv_handleRequest {sock : Int} (hfd : s.fd ≠ s.listen_sock) (cmd : RequestCmd)
    (failure : Option Int) (w : WaitResult) (calls : List MasterCall) :
    ((s.handleRequest sock cmd failure).record w calls).EventInv := by
  intro heq
  obtain ⟨hfd', hlisten, -, -⟩ := handleRequest_frame (s := s) sock cmd failure
  have heq' : (s.handleRequest sock cmd failure).fd =
      (s.handleRequest sock cmd failure).listen_sock := heq
  rw [hfd', hlisten] at heq'
  exact absurd heq' hfd

theorem EventInv.step (h : s.EventInv) (hstep : s.step e = some s') : s'.EventInv := by
  cases transition_of_step hstep with
  | alarm => exact h
  | alarmKills => exact h
  | kills => exact h
  | interrupted acsock cmd failure hfd => exact fun heq => absurd heq hfd
  | misled acsock cmd failure hnum hfd => exact absurd (h hfd) hnum
  | connected acsock cmd failure hnew => exact eventInv_handleRequest hnew _ _ _ _
  | skipped sock acsock cmd failure hsock => exact fun heq => absurd heq hsock
  | handled sock acsock cmd failure hsock => exact eventInv_handleRequest hsock _ _ _ _

/-- The log only grows. -/
theorem log_step (hstep : s.step e = some s') : ∃ xs, s'.log = s.log ++ xs := by
  cases transition_of_step hstep with
  | alarm => exact ⟨[], (List.append_nil _).symm⟩
  | alarmKills => exact ⟨[], (List.append_nil _).symm⟩
  | kills => exact ⟨[], (List.append_nil _).symm⟩
  | interrupted => exact ⟨_, rfl⟩
  | misled => exact ⟨_, congrArg (· ++ _) (handleRequest_frame _ _ _).2.2.2⟩
  | connected => exact ⟨_, congrArg (· ++ _) (handleRequest_frame _ _ _).2.2.2⟩
  | skipped => exact ⟨_, rfl⟩
  | handled => exact ⟨_, congrArg (· ++ _) (handleRequest_frame _ _ _).2.2.2⟩

/-- One more iteration that dispatches what is reported, or not. -/
theorem dispatches_record (m : MasterLoop) (hlog : m.log = s.log) (w : WaitResult)
    (calls : List MasterCall) :
    (m.record w calls).Dispatches ↔
      s.Dispatches ∧ Iteration.Dispatches ⟨w, calls⟩ := by
  simp only [Dispatches, record, hlog, List.forall_mem_append, List.forall_mem_singleton]

/-- An iteration dispatches what is reported exactly when `errno` is clear. -/
theorem dispatches_step (h : s.EventInv) (hstep : s.step e = some s') :
    s'.Dispatches ↔ s.Dispatches ∧ s.ErrnoClear e := by
  cases transition_of_step hstep with
  | alarm => exact (and_iff_left trivial).symm
  | alarmKills => exact (and_iff_left trivial).symm
  | kills => exact (and_iff_left trivial).symm
  | interrupted =>
      refine (dispatches_record (s := s) _ rfl _ _).trans ?_
      exact and_congr_right fun _ => iff_of_true rfl trivial
  | misled acsock cmd failure hnum hfd => exact absurd (h hfd) hnum
  | connected acsock cmd failure =>
      have hlog : (s.connect acsock cmd failure).log = s.log := (handleRequest_frame _ _ _).2.2.2
      refine (dispatches_record _ hlog _ _).trans ?_
      exact and_congr_right fun _ => iff_of_true trivial trivial
  | skipped sock acsock cmd failure hsock herrno =>
      refine (dispatches_record (s := s) _ rfl _ _).trans ?_
      exact and_congr_right fun _ => iff_of_false nofun fun hclear => hclear herrno
  | handled sock acsock cmd failure hsock herrno =>
      have hlog : (({ s with fd := sock } : MasterLoop).handleRequest sock cmd failure).log =
          s.log := (handleRequest_frame _ _ _).2.2.2
      refine (dispatches_record _ hlog _ _).trans ?_
      exact and_congr_right fun _ => iff_of_true rfl herrno

end Steps

section Runs

variable {s s' : MasterLoop}

/-- **Every ready request is handled, exactly when `errno` is clear**: in every run, each
iteration in which a slave socket is reported handles it and each interrupted one does
nothing if and only if `errno` is never `EINTR` when a slave socket is reported. -/
theorem dispatches_iff (listen_sock errno : Int) (events : List LoopEvent) (s : MasterLoop)
    (hrun : run step (init listen_sock errno) events = some s) :
    s.Dispatches ↔ allSteps step ErrnoClear (init listen_sock errno) events := by
  refine run_iff_allSteps ErrnoClear Dispatches EventInv ?_ ?_ ?_ hrun nofun
    fun _ => rfl
  · intro s e t hstep ht x hx
    obtain ⟨xs, hlog⟩ := log_step hstep
    exact ht x (hlog ▸ List.mem_append_left xs hx)
  · intro s e t hs hinv hstep
    rw [dispatches_step hinv hstep]
    exact and_iff_right hs
  · exact fun s e t hinv _ hstep => hinv.step hstep

/-- Two slaves register, the first one leaves, and then an alarm comes. -/
def alarmLast : List LoopEvent :=
  [.iterate .connection 5 .ADD_SLAVE none, .iterate .connection 6 .ADD_SLAVE none,
    .iterate (.slave 5) 7 .DEL_SLAVE none, .iterate .interrupted 7 .other none]

theorem dispatches_alarmLast :
    ∃ s, run step (init 3 0) alarmLast = some s ∧ s.log.length = 4 ∧ s.Dispatches := by
  have hmap : (run step (init 3 0) alarmLast).map (fun s => s.log.length) = some 4 := by
    decide
  obtain ⟨s, hrun, hmap⟩ := Option.map_eq_some_iff.mp hmap
  exact ⟨s, hrun, hmap,
    (dispatches_iff 3 0 alarmLast s hrun).mpr (by decide)⟩

/-- The alarm comes before the first slave leaves. -/
def alarmFirst : List LoopEvent :=
  [.iterate .connection 5 .ADD_SLAVE none, .iterate .connection 6 .ADD_SLAVE none,
    .iterate .interrupted 7 .other none, .iterate (.slave 5) 7 .DEL_SLAVE none]

/-- The `DEL_SLAVE` is taken for the alarm. -/
theorem request_ignored :
    ∃ s, run step (init 3 0) alarmFirst = some s ∧ ⟨.slave 5, []⟩ ∈ s.log ∧
      ¬ s.Dispatches := by
  have hmap : (run step (init 3 0) alarmFirst).map
      (fun s => decide ((⟨.slave 5, []⟩ : Iteration) ∈ s.log)) = some true := by
    decide
  obtain ⟨s, hrun, hmap⟩ := Option.map_eq_some_iff.mp hmap
  have hmem := of_decide_eq_true hmap
  exact ⟨s, hrun, hmem, fun hall => absurd (hall _ hmem) nofun⟩

/-- No call in the iteration fails. -/
def LoopEvent.Succeeds : LoopEvent → Prop
  | .alarm => True
  | .iterate _ _ _ failure => failure = none

/-- When `errno` is `EINTR` and no call fails, it stays so, and no slave's request is
handled. -/
theorem ignored_step (h : s.EventInv) (herrno : s.errno = EINTR) {e : LoopEvent}
    (hsucceed : LoopEvent.Succeeds e) (hstep : s.step e = some s') :
    s'.errno = EINTR ∧ ∃ xs, s'.log = s.log ++ xs ∧
      ∀ x ∈ xs, ∀ sock, x.reported = .slave sock → x.calls = [] := by
  cases transition_of_step hstep with
  | alarm => exact ⟨herrno, [], (List.append_nil _).symm, nofun⟩
  | alarmKills => exact ⟨herrno, [], (List.append_nil _).symm, nofun⟩
  | kills => exact ⟨herrno, [], (List.append_nil _).symm, nofun⟩
  | interrupted =>
      refine ⟨rfl, _, rfl, ?_⟩
      rw [List.forall_mem_singleton]
      exact nofun
  | misled acsock cmd failure hnum hfd => exact absurd (h hfd) hnum
  | connected acsock cmd failure =>
      obtain rfl : failure = none := hsucceed
      obtain ⟨-, -, herrno', hlog⟩ := handleRequest_frame (s := ({ s with
        fd := acsock
        watched := Function.update s.watched acsock true } : MasterLoop)) acsock cmd none
      refine ⟨herrno'.trans herrno, _, congrArg (· ++ _) hlog, ?_⟩
      rw [List.forall_mem_singleton]
      exact nofun
  | skipped sock acsock cmd failure =>
      refine ⟨herrno, _, rfl, ?_⟩
      rw [List.forall_mem_singleton]
      exact fun _ _ => rfl
  | handled sock acsock cmd failure hsock hclear => exact absurd herrno hclear

/-- **After an interrupt the slaves' requests are ignored**, as long as no call fails. -/
theorem ignored_after_alarm (h : s.EventInv) (herrno : s.errno = EINTR)
    (events : List LoopEvent) (hsucceed : ∀ e ∈ events, LoopEvent.Succeeds e)
    (hrun : run step s events = some s') :
    ∃ xs, s'.log = s.log ++ xs ∧
      ∀ x ∈ xs, ∀ sock, x.reported = .slave sock → x.calls = [] := by
  induction events generalizing s with
  | nil =>
      obtain rfl := Option.some.inj hrun
      exact ⟨[], (List.append_nil _).symm, nofun⟩
  | cons e events ih =>
      obtain ⟨m, hm, hrest⟩ := run_cons_eq_some.mp hrun
      obtain ⟨he, hevents⟩ := List.forall_mem_cons.mp hsucceed
      obtain ⟨herrno', xs, hlog, hxs⟩ := ignored_step h herrno he hm
      obtain ⟨ys, hlog', hys⟩ := ih (h.step hm) herrno' hevents hrest
      refine ⟨xs ++ ys, by rw [hlog', hlog, List.append_assoc], fun x hx => ?_⟩
      rcases List.mem_append.mp hx with hold | hnew
      · exact hxs x hold
      · exact hys x hnew

end Runs

end MasterLoop

end DistributedDB
