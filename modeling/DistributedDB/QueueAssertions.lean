import DistributedDB.CircularQueue
import DistributedDB.SharedBuffer

/-!
# The assertions of the queue in a running server

The main loop calls `EnQueue` and then `sem_post`; a worker calls `sem_wait` and then
`DeQueue`.  Both calls assert that there is room, or a node, and an assertion that fails
stops the process.

A post comes after its node, so the semaphore together with the workers that it has woken
never counts more nodes than there are: `DeQueue` finds one.  Nothing keeps the main loop
from calling `EnQueue` on a full queue.

**Results.**
* `DBServer.QueueInv.step`: the semaphore, the woken workers and the queue agree.
* `DBServer.asserted_iff_allSteps`: no assertion fails exactly when each packet is queued
  with fewer than `MAX_QUEUE_LEN - 1` others not yet taken out.
-/

namespace DistributedDB

open Run

/-- The assertions of `CircularQueue.c`. -/
inductive QueueAssertion where
  /-- `isQueueFull() == 0`, in `EnQueue`. -/
  | isQueueFull
  /-- `isQueueEmpty() == 0`, in `DeQueue`. -/
  | isQueueEmpty
deriving DecidableEq, Repr

/-- The nodes that are in the queue and not yet posted. -/
def MainStage.unposted : MainStage → Nat
  | .posting => 1
  | _ => 0

namespace DBServer

/-- The main loop calls `EnQueue`. -/
def callsEnQueue (s : DBServer) : DBServerEvent → Bool
  | .dispatch =>
      match s.main with
      | .found _ _ (some _) => decide (gate s.szBuf s.version = .enQueue)
      | _ => false
  | _ => false

/-- A worker calls `DeQueue`. -/
def callsDeQueue (s : DBServer) : DBServerEvent → Bool
  | .deQueue w => decide ((s.workers w).stage = .woken)
  | _ => false

/-- The assertion that fails. -/
def failing (s : DBServer) (e : DBServerEvent) : Option QueueAssertion :=
  if s.callsEnQueue e ∧ CircularQueue.isQueueFull s.Q ≠ 0 then some .isQueueFull
  else if s.callsDeQueue e ∧ CircularQueue.isQueueEmpty s.Q ≠ 0 then some .isQueueEmpty
  else none

/-- The server with its calls of `EnQueue` and `DeQueue` and the assertion that failed. -/
structure QueueTraffic where
  server : DBServer
  enQueued : Nat
  deQueued : Nat
  failed : Option QueueAssertion

namespace QueueTraffic

/-- A started server. -/
def init (slots : Nat → QueueNode) (allocated : Nat → DBPacket) (sendhd : CMD)
    (version : UInt32) : QueueTraffic :=
  ⟨.init slots allocated sendhd version, 0, 0, none⟩

def step (t : QueueTraffic) (e : DBServerEvent) : Option QueueTraffic :=
  (t.server.step e).map fun s => {
    server := s
    enQueued := t.enQueued + (t.server.callsEnQueue e).toNat
    deQueued := t.deQueued + (t.server.callsDeQueue e).toNat
    failed := t.failed.or (t.server.failing e) }

/-- A packet is queued only while fewer than `MAX_QUEUE_LEN - 1` are waiting to be taken
out. -/
def roomLeft (t : QueueTraffic) (e : DBServerEvent) : Prop :=
  t.server.callsEnQueue e → t.enQueued < t.deQueued + (MAX_QUEUE_LEN - 1)

instance (t : QueueTraffic) (e : DBServerEvent) : Decidable (t.roomLeft e) := by
  unfold roomLeft
  infer_instance

end QueueTraffic

/-- The permit that a woken worker has got from the semaphore. -/
def permit (s : DBServer) (w : Fin THREADS_NUM) : Option Unit :=
  if (s.workers w).stage = .woken then some () else none

/-- The number of workers between `sem_wait` and `DeQueue`. -/
def woken (s : DBServer) : Nat :=
  (holdings s.permit).length

section Permits

variable {s : DBServer}

theorem permit_setStage (w v : Fin THREADS_NUM) (stage : WorkerStage) :
    (s.setStage w stage).permit v =
      if v = w then (if stage = .woken then some () else none) else s.permit v := by
  unfold permit
  rw [stage_setStage]
  split <;> rfl

/-- A worker that has left `sem_wait` has a permit. -/
theorem woken_wake {w : Fin THREADS_NUM} (hw : (s.workers w).stage ≠ .woken) :
    (s.setStage w .woken).woken = s.woken + 1 :=
  (holdings_take (if_neg hw) ((permit_setStage w w _).trans (by rw [if_pos rfl, if_pos rfl]))
    (fun v hv => (permit_setStage w v _).trans (if_neg hv))).length_eq

/-- `DeQueue` uses the permit up. -/
theorem woken_deQueue {w : Fin THREADS_NUM} {stage : WorkerStage}
    (hw : (s.workers w).stage = .woken) (hstage : stage ≠ .woken) :
    s.woken = (s.setStage w stage).woken + 1 :=
  (holdings_take ((permit_setStage w w _).trans (by rw [if_pos rfl, if_neg hstage])) (if_pos hw)
    (fun v hv => ((permit_setStage w v _).trans (if_neg hv)).symm)).length_eq

/-- The other steps of a worker leave the permits alone. -/
theorem woken_of_stage {t : DBServer} {w : Fin THREADS_NUM} (hw : (s.workers w).stage ≠ .woken)
    (hnew : (t.workers w).stage ≠ .woken)
    (hothers : ∀ v, v ≠ w → (t.workers v).stage = (s.workers v).stage) :
    t.woken = s.woken := by
  have hpermit : t.permit = s.permit := by
    funext v
    unfold permit
    rcases eq_or_ne v w with rfl | hne
    · rw [if_neg hw, if_neg hnew]
    · rw [hothers v hne]
  rw [woken, hpermit, woken]

theorem woken_setStage {w : Fin THREADS_NUM} {stage : WorkerStage}
    (hw : (s.workers w).stage ≠ .woken) (hstage : stage ≠ .woken) :
    (s.setStage w stage).woken = s.woken := by
  refine woken_of_stage hw ?_ fun v hv => ?_
  · rw [stage_setStage, if_pos rfl]
    exact hstage
  · rw [stage_setStage, if_neg hv]

theorem woken_of_workers {t : DBServer} (h : t.workers = s.workers) : t.woken = s.woken := by
  have hpermit : t.permit = s.permit := by
    funext v
    unfold permit
    rw [h]
  rw [woken, hpermit, woken]

end Permits

/-- The nodes that the semaphore, the woken workers and the main loop before `sem_post`
stand for. -/
def account (s : DBServer) : Nat :=
  s.MSG_SEM + s.woken + s.main.unposted

section Account

variable {s s' : DBServer}

/-- A step of the main thread that calls neither function. -/
theorem account_of_main (hsem : s'.MSG_SEM = s.MSG_SEM) (hworkers : s'.workers = s.workers)
    (hmain : s.main.unposted = 0) (hmain' : s'.main.unposted = 0) :
    s'.account = s.account := by
  rw [account, account, hsem, woken_of_workers hworkers, hmain, hmain']

/-- A step of a worker that does not touch the semaphore. -/
theorem account_of_woken (hsem : s'.MSG_SEM = s.MSG_SEM) (hmain : s'.main = s.main)
    (hwoken : s'.woken = s.woken) : s'.account = s.account := by
  rw [account, account, hsem, hmain, hwoken]

/-- A worker goes on without having been woken, and nothing else that counts changes. -/
theorem account_setStage {t : DBServer} {w : Fin THREADS_NUM} {old stage : WorkerStage}
    (hsem : t.MSG_SEM = s.MSG_SEM) (hmain : t.main = s.main) (hworkers : t.workers = s.workers)
    (hw : (s.workers w).stage = old) (hold : old ≠ .woken) (hstage : stage ≠ .woken) :
    (t.setStage w stage).account = s.account := by
  have hnot : (t.workers w).stage ≠ .woken := by
    rw [hworkers, hw]
    exact hold
  exact account_of_woken hsem hmain
    ((woken_setStage hnot hstage).trans (woken_of_workers hworkers))

/-- **The account changes with the calls, and so does the queue.** -/
theorem account_step {e : DBServerEvent} (h : s.step e = some s') (hlive : s'.main ≠ .crashed) :
    s'.account + (s.callsDeQueue e).toNat = s.account + (s.callsEnQueue e).toNat ∧
    s'.Q.size + (s.callsDeQueue e).toNat = s.Q.size + (s.callsEnQueue e).toNat := by
  obtain ⟨-, htransition⟩ := transition_of_step h
  cases htransition with
  | crash => exact absurd rfl hlive
  | accept sock ip app hmain =>
      have hsame : s.main.unposted = 0 := by rw [hmain]; rfl
      exact ⟨account_of_main rfl rfl hsame hsame, rfl⟩
  | poll sock hmain =>
      exact ⟨account_of_main rfl rfl (by rw [hmain]; rfl) rfl, rfl⟩
  | recv p sock hmain =>
      exact ⟨account_of_main rfl rfl (by rw [hmain]; rfl) rfl, rfl⟩
  | recvFails sock hmain =>
      exact ⟨account_of_main rfl rfl (by rw [hmain]; rfl) rfl, rfl⟩
  | lookUp sock arrived hmain =>
      exact ⟨account_of_main rfl rfl (by rw [hmain]; rfl) rfl, rfl⟩
  | listSent sock arrived phcsock hmain hgate =>
      have hcalls : s.callsEnQueue .dispatch = false := by
        unfold callsEnQueue
        cases phcsock <;> simp [hmain, hgate]
      rw [hcalls]
      exact ⟨account_of_main rfl rfl (by rw [hmain]; rfl) rfl, rfl⟩
  | slaveRequest sock arrived hcsock hmain hgate =>
      have hcalls : s.callsEnQueue .dispatch = false := by simp [callsEnQueue, hmain, hgate]
      rw [hcalls]
      exact ⟨account_of_main rfl rfl (by rw [hmain]; rfl) rfl, rfl⟩
  | queued sock arrived hcsock hmain hgate hfull =>
      have hcalls : s.callsEnQueue .dispatch = true := by simp [callsEnQueue, hmain, hgate]
      have hwoken : (s.enQueue sock arrived hcsock).woken = s.woken := woken_of_workers rfl
      have hposted : s.main.unposted = 0 := by rw [hmain]; rfl
      rw [hcalls]
      refine ⟨?_, RingBuffer.size_enqueue _ hfull⟩
      rw [account, account, hwoken, hposted]
      rfl
  | post hmain =>
      have hposting : s.main.unposted = 1 := by rw [hmain]; rfl
      refine ⟨?_, rfl⟩
      rw [account, account, hposting, woken_of_workers (s := s) rfl]
      show s.MSG_SEM + 1 + s.woken = s.MSG_SEM + s.woken + 1
      omega
  | newVersion hmain =>
      have hsame : s.main.unposted = 0 := by rw [hmain]; rfl
      exact ⟨account_of_main rfl rfl hsame hsame, rfl⟩
  | wake w hw hsem =>
      have hwoken : (s.setStage w .woken).woken = s.woken + 1 :=
        woken_wake (by rw [hw]; exact WorkerStage.noConfusion)
      refine ⟨?_, rfl⟩
      show s.MSG_SEM - 1 + (s.setStage w .woken).woken + s.main.unposted =
        s.MSG_SEM + s.woken + s.main.unposted
      omega
  | deQueue w hw hempty =>
      have hcalls : s.callsDeQueue (.deQueue w) = true := by simp [callsDeQueue, hw]
      have hwoken : s.woken = (s.setStage w (.dequeued s.Q.head)).woken + 1 :=
        woken_deQueue hw WorkerStage.noConfusion
      rw [hcalls]
      refine ⟨?_, (RingBuffer.size_eq_succ hempty).symm⟩
      show s.MSG_SEM + (s.setStage w (.dequeued s.Q.head)).woken + s.main.unposted + 1 =
        s.MSG_SEM + s.woken + s.main.unposted
      omega
  | fetch w slot hw =>
      exact ⟨account_setStage rfl rfl rfl hw WorkerStage.noConfusion WorkerStage.noConfusion,
        rfl⟩
  | decode w node hw =>
      exact ⟨account_setStage rfl rfl rfl hw WorkerStage.noConfusion WorkerStage.noConfusion,
        rfl⟩
  | execute w hdb ok node cmd hw =>
      refine ⟨account_of_woken rfl rfl (woken_of_stage (w := w) ?_ ?_ ?_), rfl⟩
      · rw [hw]
        exact WorkerStage.noConfusion
      · rw [stage_executes, if_pos rfl]
        exact WorkerStage.noConfusion
      · intro v hv
        rw [stage_executes, if_neg hv]
  | send w hcsock hw =>
      exact ⟨account_setStage rfl rfl rfl hw WorkerStage.noConfusion WorkerStage.noConfusion,
        rfl⟩
  | store w hcsock hw =>
      refine ⟨account_setStage (t := s.setRecord _ _) rfl rfl rfl hw WorkerStage.noConfusion ?_,
        rfl⟩
      split
      · exact WorkerStage.noConfusion
      · exact WorkerStage.noConfusion
  | close w sock hcsock hw =>
      exact ⟨account_setStage (t := s.setOpen _ _) rfl rfl rfl hw WorkerStage.noConfusion
        WorkerStage.noConfusion, rfl⟩
  | remove w sock hw =>
      exact ⟨account_setStage (t := s.setRecord _ _) rfl rfl rfl hw WorkerStage.noConfusion
        WorkerStage.noConfusion, rfl⟩

end Account

namespace QueueTraffic

/-- The semaphore's account and the calls made both give the number of nodes. -/
structure QueueInv (t : QueueTraffic) : Prop where
  posted : t.server.main ≠ .crashed → t.server.account = t.server.Q.size
  counted : t.server.main ≠ .crashed → t.enQueued = t.deQueued + t.server.Q.size

variable {t t' : QueueTraffic} {e : DBServerEvent}

theorem queueInv_init (slots : Nat → QueueNode) (allocated : Nat → DBPacket) (sendhd : CMD)
    (version : UInt32) : (init slots allocated sendhd version).QueueInv := by
  have hwoken : (init slots allocated sendhd version).server.woken = 0 :=
    List.length_eq_zero_iff.mpr (holdings_eq_nil_iff.mpr fun _ => rfl)
  refine ⟨fun _ => ?_, fun _ => rfl⟩
  rw [account, hwoken]
  rfl

theorem QueueInv.step (h : t.QueueInv) (hstep : t.step e = some t') : t'.QueueInv := by
  obtain ⟨s, hs, rfl⟩ := Option.map_eq_some_iff.mp hstep
  have hlive := (transition_of_step hs).1
  have hposted := h.posted hlive
  have hcounted := h.counted hlive
  refine ⟨fun hlive' => ?_, fun hlive' => ?_⟩
  · obtain ⟨haccount, hsize⟩ := account_step hs hlive'
    show s.account = s.Q.size
    omega
  · obtain ⟨-, hsize⟩ := account_step hs hlive'
    show t.enQueued + _ = t.deQueued + _ + s.Q.size
    omega

/-- A woken worker finds a node. -/
theorem QueueInv.not_empty (h : t.QueueInv) (hlive : t.server.main ≠ .crashed)
    (hcalls : t.server.callsDeQueue e = true) : CircularQueue.isQueueEmpty t.server.Q = 0 := by
  unfold callsDeQueue at hcalls
  split at hcalls
  case h_2 => cases hcalls
  case h_1 w =>
      have hpermit : t.server.permit w = some () := if_pos (of_decide_eq_true hcalls)
      have hwoken : 0 < t.server.woken :=
        List.length_pos_of_mem (mem_holdings.mpr ⟨w, hpermit⟩)
      have hposted := h.posted hlive
      unfold account at hposted
      rw [CircularQueue.isQueueEmpty_eq_zero, ← Bool.not_eq_true, RingBuffer.isEmpty_iff]
      omega

/-- There is room exactly when the condition holds. -/
theorem QueueInv.not_full_iff (h : t.QueueInv) (hlive : t.server.main ≠ .crashed) :
    CircularQueue.isQueueFull t.server.Q = 0 ↔
      t.enQueued < t.deQueued + (MAX_QUEUE_LEN - 1) := by
  have hsize := t.server.Q.size_lt
  have hcounted := h.counted hlive
  rw [CircularQueue.isQueueFull_eq_zero, ← Bool.not_eq_true, RingBuffer.isFull_iff]
  omega

/-- **A step fails an assertion exactly when it queues a packet without room.** -/
theorem QueueInv.failing_eq_none_iff (h : t.QueueInv) (hlive : t.server.main ≠ .crashed) :
    t.server.failing e = none ↔ t.roomLeft e := by
  have hempty : ¬ (t.server.callsDeQueue e = true ∧
      CircularQueue.isQueueEmpty t.server.Q ≠ 0) :=
    fun hcalls => hcalls.2 (h.not_empty hlive hcalls.1)
  rw [failing, if_neg hempty, ite_eq_right_iff, roomLeft, ← h.not_full_iff hlive]
  constructor
  · intro hnone hcalls
    by_contra hfull
    cases hnone ⟨hcalls, hfull⟩
  · rintro hroom ⟨hcalls, hfull⟩
    exact absurd (hroom hcalls) hfull

theorem QueueInv.failing_ne_isQueueEmpty (h : t.QueueInv) (hlive : t.server.main ≠ .crashed) :
    t.server.failing e ≠ some .isQueueEmpty := by
  unfold failing
  split
  case isTrue => exact fun heq => by cases heq
  case isFalse =>
      rw [if_neg fun hcalls => hcalls.2 (h.not_empty hlive hcalls.1)]
      exact fun heq => by cases heq

/-- A run in which the assertion of `DeQueue` has not failed. -/
def NeverEmpty (t : QueueTraffic) : Prop :=
  t.failed ≠ some .isQueueEmpty

theorem NeverEmpty.step (h : t.NeverEmpty ∧ t.QueueInv) (hstep : t.step e = some t') :
    t'.NeverEmpty ∧ t'.QueueInv := by
  refine ⟨?_, h.2.step hstep⟩
  obtain ⟨s, hs, rfl⟩ := Option.map_eq_some_iff.mp hstep
  have hlive := (transition_of_step hs).1
  have hold : t.failed ≠ some .isQueueEmpty := h.1
  show t.failed.or (t.server.failing e) ≠ some .isQueueEmpty
  cases hfailed : t.failed with
  | none => exact h.2.failing_ne_isQueueEmpty hlive
  | some a =>
      rw [hfailed] at hold
      exact hold

end QueueTraffic

open QueueTraffic in
/-- **Over any arrivals and any schedule the assertion of `DeQueue` never fails, and no
assertion fails exactly when each packet is queued with fewer than `MAX_QUEUE_LEN - 1`
others waiting.** -/
theorem asserted_iff_allSteps (slots : Nat → QueueNode) (allocated : Nat → DBPacket)
    (sendhd : CMD) (version : UInt32) (es : List DBServerEvent) (t : QueueTraffic)
    (hrun : run QueueTraffic.step (.init slots allocated sendhd version) es = some t) :
    t.failed ≠ some .isQueueEmpty ∧
    (t.failed = none ↔
      allSteps QueueTraffic.step roomLeft (.init slots allocated sendhd version) es) := by
  have hinit := queueInv_init slots allocated sendhd version
  constructor
  · have hnever : (QueueTraffic.init slots allocated sendhd version).NeverEmpty := by
      intro heq
      cases heq
    exact (run_invariant (fun t => t.NeverEmpty ∧ t.QueueInv) (fun _ _ _ => NeverEmpty.step) hrun
      ⟨hnever, hinit⟩).1
  · refine run_iff_allSteps roomLeft (fun t => t.failed = none) QueueInv ?_ ?_ ?_ hrun rfl hinit
    · intro t e t' hstep hnone
      obtain ⟨s, -, rfl⟩ := Option.map_eq_some_iff.mp hstep
      exact (Option.or_eq_none_iff.mp hnone).1
    · intro t e t' hnone hinv hstep
      obtain ⟨s, hs, rfl⟩ := Option.map_eq_some_iff.mp hstep
      rw [← hinv.failing_eq_none_iff (transition_of_step hs).1]
      show t.failed.or _ = none ↔ _
      rw [hnone, Option.none_or]
    · exact fun t e t' hinv _ hstep => hinv.step hstep

/-- A client connects and its request is received and queued. -/
def arrives (sock : Int) : List DBServerEvent :=
  [.accept sock 0 0, .poll sock, .recv ⟨.GET, 7, 0, []⟩, .lookUp, .dispatch]

/-- Two clients, whose requests the workers take out. -/
theorem asserted_iff_allSteps_two :
    ∃ t, run QueueTraffic.step (.init (fun _ => ⟨⟨0, 0, 0⟩, .szBuf, 0⟩) (fun _ =>
      .zero) .GET 0)
        (arrives 10 ++ [.post] ++ arrives 11 ++ [.wake 1, .post, .wake 0, .deQueue 0, .deQueue 1]) =
        some t ∧
      t.failed = none := by
  have hmap : (run QueueTraffic.step
      (.init (fun _ => ⟨⟨0, 0, 0⟩, .szBuf, 0⟩) (fun _ => .zero) .GET 0)
      (arrives 10 ++ [.post] ++ arrives 11 ++
        [.wake 1, .post, .wake 0, .deQueue 0, .deQueue 1])).map (fun t => t.enQueued) =
      some 2 := by decide +kernel
  obtain ⟨t, hrun, -⟩ := Option.map_eq_some_iff.mp hmap
  have hspec :=
    asserted_iff_allSteps (fun _ => ⟨⟨0, 0, 0⟩, .szBuf, 0⟩) (fun _ => .zero) .GET 0 _ t
    hrun
  exact ⟨t, hrun, hspec.2.mpr (by decide +kernel)⟩

/-- Ten clients send a request before a worker takes the first one out. -/
theorem ten_outstanding :
    (run QueueTraffic.step (.init (fun _ => ⟨⟨0, 0, 0⟩, .szBuf, 0⟩) (fun _ => .zero) .GET 0)
      (((List.range 9).flatMap fun i => arrives (10 + i) ++ [.post]) ++ arrives 19)).map
        (fun t => (t.failed, t.server.main)) =
      some (some .isQueueFull, .crashed) := by
  decide +kernel

end DBServer

end DistributedDB
