import DistributedDB.ControlSockets

/-!
# Replies and requests on the control sockets

Both ends of a control socket take the next packet that arrives for the reply to
their request.  That is right as long as requests do not cross: the master sends one
on a free socket only, where it waits for nothing and has answered the slave, and a
slave sends one when it has answered the master.  Then each request is in exactly one
place, on its way, being handled, or answered, and replies come before requests.

When requests cross it fails.  When a slave sends `DEL_SLAVE` while a notification for
it is on its way, `NotifyAll` takes the `DEL_SLAVE` for the reply, and the slave takes
the notification for the answer to its `DEL_SLAVE`.

**Results.**
* `LinkInv`: where the exchanges of a socket are; each step keeps it.
* `ControlNet.replies_match`: in every run that sends requests on free sockets only,
  every `RecvMsg` returns the reply to its own request.
* `ControlNet.delSlave_lost`: a run in which a `DEL_SLAVE` is lost and the assertion of
  `ShutDownSlave` fails.
-/

namespace DistributedDB

open Run

/-- The requests among the packets, in their order. -/
def requests (packets : List ControlPacket) : List Exchange :=
  (packets.filter fun p => !p.msg.isReply).map ControlPacket.exchange

/-- The requests that the replies among the packets answer. -/
def replies (packets : List ControlPacket) : List Exchange :=
  (packets.filter fun p => p.msg.isReply).map ControlPacket.exchange

namespace Thread

/-- The request of the master that the slave is handling and has not answered. -/
def answering : Thread → List Exchange
  | handling p => requests [p]
  | calling _ (.updateBackup12 id) | waiting _ _ (.updateBackup12 id) => [⟨.updateBackup12, id⟩]
  | _ => []

/-- The slave's own request whose reply it waits for. -/
def asking : Thread → List Exchange
  | registering id => [⟨.addSlave, id⟩]
  | leaving id => [⟨.delSlave, id⟩]
  | _ => []

end Thread

/-- The requests of the master that the slave has not answered. -/
def Link.askedOf (l : Link) : List Exchange :=
  l.thread.answering ++ requests l.toSlave

/-- The kind of the request that the master is handling. -/
def requestKind : RoundCmd → ExchangeKind
  | .add => .addSlave
  | .del => .delSlave

namespace ControlNet

/-- The notification whose reply `NotifyAll` waits for on socket `a`. -/
def baseAwaited (s : ControlNet) (a : Int) : List Exchange :=
  match s.base with
  | some r =>
      match r.sent with
      | some id => if s.sock r.i = a then [⟨noticeKind r.cmd, id⟩] else []
      | none => []
  | none => []

/-- The request whose reply `UpdateBackup` waits for on socket `a`. -/
def alarmAwaited (s : ControlNet) (a : Int) : List Exchange :=
  match s.alarm with
  | some w => if w.sock = a then [⟨.updateBackup12, w.id⟩] else []
  | none => []

/-- The requests whose replies the master waits for on socket `a`, oldest first. -/
def awaited (s : ControlNet) (a : Int) : List Exchange :=
  s.baseAwaited a ++ s.alarmAwaited a

/-- The request of the slave at socket `a` that the master is handling. -/
def serving (s : ControlNet) (a : Int) : List Exchange :=
  match s.base with
  | some r => if r.requester = a then [⟨requestKind r.cmd, r.id⟩] else []
  | none => []

/-- The requests of the slave at socket `a` that the master has not answered. -/
def askedBy (s : ControlNet) (a : Int) : List Exchange :=
  s.serving a ++ requests (s.links a).toMaster

/-- The master waits for no reply on socket `a`, and has answered the slave's requests. -/
def Free (s : ControlNet) (a : Int) : Prop :=
  s.awaited a = [] ∧ s.askedBy a = []

instance (s : ControlNet) (a : Int) : Decidable (s.Free a) :=
  inferInstanceAs (Decidable (s.awaited a = [] ∧ s.askedBy a = []))

/-- The condition on a step: the master sends a request on a free socket only, and a slave
when it has answered the requests of the master. -/
def SendsOnFree (s : ControlNet) : ControlEvent → Prop
  | .register a _ => s.awaited a = []
  | .interrupt a => (s.links a).askedOf = []
  | .notify => ∀ r ∈ s.base, r.i ≠ r.pos → s.Free (s.sock r.i)
  | .tick => s.Free (s.sock s.nextTurn)
  | _ => True

instance (s : ControlNet) (e : ControlEvent) : Decidable (s.SendsOnFree e) :=
  match e with
  | .register a _ => inferInstanceAs (Decidable (s.awaited a = []))
  | .interrupt a => inferInstanceAs (Decidable ((s.links a).askedOf = []))
  | .notify => inferInstanceAs (Decidable (∀ r ∈ s.base, r.i ≠ r.pos → s.Free (s.sock r.i)))
  | .tick => inferInstanceAs (Decidable (s.Free (s.sock s.nextTurn)))
  | .slaveRecv _ | .slaveHandle _ | .call _ | .serve _ _ | .endCalls _ | .slaveReply _
  | .masterRecv _ _ _ | .masterReply | .finish | .tickReply => isTrue trivial

/-- Every `RecvMsg` of an exchange has returned the reply to its own request, no
assertion has failed, and no `DEL_SLAVE` is lost. -/
structure Matched (s : ControlNet) : Prop where
  returned : ∀ x ∈ s.log, x.packet.msg.isReply = true ∧ x.packet.exchange = x.exchange
  asserted : ∀ a, (s.links a).thread ≠ .aborted
  kept : ∀ a id, (s.links a).thread = .leaving id →
    ⟨.delSlave, id⟩ ∈ requests (s.links a).toMaster ∨
      ⟨.delSlave, id⟩ ∈ s.serving a ∨
      ⟨.delSlave, id⟩ ∈ replies (s.links a).toSlave

end ControlNet

/-- No reply comes behind a request. -/
def RepliesFirst (packets : List ControlPacket) : Prop :=
  packets.Pairwise fun p p' => p'.msg.isReply = true → p.msg.isReply = true

/-- Where the exchanges on one socket are.  What the master waits for is answered, being
handled by the slave or on its way to it, and what the slave waits for likewise; only one
end at a time has requests that are not answered. -/
structure LinkInv (awaited serving : List Exchange) (l : Link) : Prop where
  master : awaited = replies l.toMaster ++ l.askedOf
  slave : l.thread.asking = replies l.toSlave ++ (serving ++ requests l.toMaster)
  single : awaited.length ≤ 1
  oneSided : l.askedOf = [] ∨ serving ++ requests l.toMaster = []
  toMaster : RepliesFirst l.toMaster
  toSlave : RepliesFirst l.toSlave
  kinds : ∀ x ∈ awaited, x.kind ≠ .addSlave ∧ x.kind ≠ .delSlave
  asserted : l.thread ≠ .aborted

section Packets

variable (p : ControlPacket) (packets packets' : List ControlPacket)

@[simp] theorem requests_nil : requests [] = [] := rfl

@[simp] theorem replies_nil : replies [] = [] := rfl

@[simp] theorem requests_append :
    requests (packets ++ packets') = requests packets ++ requests packets' := by
  simp [requests]

@[simp] theorem replies_append :
    replies (packets ++ packets') = replies packets ++ replies packets' := by
  simp [replies]

variable {p} in
theorem requests_cons_of_request (h : p.msg.isReply = false) :
    requests (p :: packets) = p.exchange :: requests packets := by
  simp [requests, h]

variable {p} in
theorem requests_cons_of_reply (h : p.msg.isReply = true) :
    requests (p :: packets) = requests packets := by
  simp [requests, h]

variable {p} in
theorem replies_cons_of_reply (h : p.msg.isReply = true) :
    replies (p :: packets) = p.exchange :: replies packets := by
  simp [replies, h]

variable {p} in
theorem replies_cons_of_request (h : p.msg.isReply = false) :
    replies (p :: packets) = replies packets := by
  simp [replies, h]

end Packets

theorem RepliesFirst.append_request {packets : List ControlPacket} (h : RepliesFirst packets)
    {p : ControlPacket} (hp : p.msg.isReply = false) : RepliesFirst (packets ++ [p]) := by
  refine List.pairwise_append.mpr ⟨h, List.pairwise_singleton _ _, fun q _ p' hp' => ?_⟩
  rw [List.mem_singleton.mp hp', hp]
  exact nofun

theorem repliesFirst_of_replies {packets : List ControlPacket} (h : requests packets = []) :
    RepliesFirst packets := by
  refine List.pairwise_of_forall_mem_list fun p hp _ _ _ => ?_
  cases hreply : p.msg.isReply with
  | true => rfl
  | false =>
      have hmem : p.exchange ∈ requests packets := by
        refine List.mem_map_of_mem (List.mem_filter.mpr ⟨hp, ?_⟩)
        rw [hreply]
        rfl
      rw [h] at hmem
      exact absurd hmem List.not_mem_nil

/-- Behind a request there is no reply. -/
theorem RepliesFirst.replies_eq_nil {p : ControlPacket} {rest : List ControlPacket}
    (h : RepliesFirst (p :: rest)) (hp : p.msg.isReply = false) : replies rest = [] := by
  simp only [replies, List.map_eq_nil_iff, List.filter_eq_nil_iff]
  intro q hq hreply
  have := (List.pairwise_cons.mp h).1 q hq hreply
  rw [hp] at this
  cases this

namespace LinkInv

variable {awaited serving : List Exchange} {l : Link} {p : ControlPacket}
  {rest : List ControlPacket}

/-- A step of the slave that neither receives nor answers anything. -/
theorem of_thread (h : LinkInv awaited serving l) {t : Thread}
    (hanswering : t.answering = l.thread.answering) (hasking : t.asking = l.thread.asking)
    (haborted : t ≠ .aborted) : LinkInv awaited serving { l with thread := t } := by
  have hasked : ({ l with thread := t } : Link).askedOf = l.askedOf := by
    simp only [Link.askedOf, hanswering]
  exact ⟨by rw [hasked]; exact h.master, by rw [hasking]; exact h.slave, h.single,
    by rw [hasked]; exact h.oneSided, h.toMaster, h.toSlave, h.kinds, haborted⟩

/-- A slave goes on with its calls of other slaves. -/
theorem calls (h : LinkInv awaited serving l) {after : After} {todo : List Int}
    {t : Thread}
    (hthread : (∃ k, l.thread = .waiting k todo after) ∨ l.thread = .calling todo after)
    (ht : (∃ k todo, t = .waiting k todo after) ∨ ∃ todo, t = .calling todo after) :
    LinkInv awaited serving { l with thread := t } := by
  have hsame : t.answering = l.thread.answering ∧ t.asking = l.thread.asking ∧
      t ≠ .aborted := by
    rcases hthread with ⟨k, hthread⟩ | hthread <;>
      rcases ht with ⟨k', todo', rfl⟩ | ⟨todo', rfl⟩
    all_goals
      rw [hthread]
      exact ⟨by cases after <;> rfl, rfl, by simp⟩
  exact h.of_thread hsame.1 hsame.2.1 hsame.2.2

/-- The slave's main loop receives a packet: it is a request. -/
theorem recv_slave (h : LinkInv awaited serving l) (hloop : l.thread = .loop)
    (hqueue : l.toSlave = p :: rest) :
    LinkInv awaited serving { l with thread := .handling p, toSlave := rest } := by
  have hslave := h.slave
  rw [hloop, hqueue] at hslave
  have hrequest : p.msg.isReply = false := by
    cases hreply : p.msg.isReply with
    | false => rfl
    | true => simp [Thread.asking, replies_cons_of_reply, hreply] at hslave
  rw [replies_cons_of_request _ hrequest] at hslave
  have hasked : ({ l with thread := .handling p, toSlave := rest } : Link).askedOf =
      l.askedOf := by
    simp [Link.askedOf, Thread.answering, hloop, hqueue, requests_cons_of_request, hrequest]
  have hfirst := h.toSlave
  rw [hqueue] at hfirst
  exact ⟨by rw [hasked]; exact h.master, hslave, h.single, by rw [hasked]; exact h.oneSided,
    h.toMaster, hfirst.of_cons, h.kinds, nofun⟩

/-- The slave answers the request that it was handling. -/
theorem answer_slave (h : LinkInv awaited serving l) {t : Thread} {slave : Slave} {x : Exchange}
    (hanswering : l.thread.answering = [x]) (hthread : t.answering = [])
    (hasking : t.asking = l.thread.asking) (haborted : t ≠ .aborted)
    (hreply : p.msg.isReply = true) (hx : p.exchange = x) :
    LinkInv awaited serving
      { l with thread := t, slave := slave, toMaster := l.toMaster ++ [p] } := by
  have hopen : l.askedOf ≠ [] := by
    simp [Link.askedOf, hanswering]
  have hasked := h.oneSided.resolve_left hopen
  have hrequests : requests (l.toMaster ++ [p]) = requests l.toMaster := by
    rw [requests_append, requests_cons_of_reply _ hreply, requests_nil, List.append_nil]
  refine ⟨?_, ?_, h.single, Or.inr (by rw [hrequests]; exact hasked), ?_, h.toSlave, h.kinds,
    haborted⟩
  · rw [h.master, Link.askedOf, Link.askedOf, hanswering, hthread, replies_append,
      replies_cons_of_reply _ hreply, hx]
    simp
  · rw [hasking, hrequests]
    exact h.slave
  · exact repliesFirst_of_replies (hrequests.trans (List.append_eq_nil_iff.mp hasked).2)

/-- `HandleMasterRequest` keeps the invariant: it answers the request, or goes on with
the calls of `UPDATE_BACKUP12`. -/
theorem handled (h : LinkInv awaited serving l) (hthread : l.thread = .handling p) :
    LinkInv awaited serving (ControlNet.handled l p) := by
  have hkinds : p.msg.isReply = false → p.msg.kind ≠ .addSlave ∧
      p.msg.kind ≠ .delSlave := by
    intro hrequest
    refine h.kinds p.exchange ?_
    rw [h.master, Link.askedOf, hthread, Thread.answering, requests_cons_of_request _ hrequest]
    simp
  have hidle : p.msg.isReply = true → ControlNet.handled l p = { l with thread := .loop } →
      LinkInv awaited serving (ControlNet.handled l p) := by
    intro hreply heq
    rw [heq]
    refine h.of_thread ?_ (by rw [hthread]; rfl) nofun
    rw [hthread, Thread.answering, requests_cons_of_reply _ hreply]
    rfl
  have hanswering : p.msg.isReply = false → l.thread.answering = [⟨p.msg.kind, p.id⟩] := by
    intro hrequest
    rw [hthread, Thread.answering, requests_cons_of_request _ hrequest]
    rfl
  unfold ControlNet.handled at hidle ⊢
  cases hmsg : p.msg with
  | newSlave pos sn =>
      exact h.answer_slave (hanswering (by rw [hmsg]; rfl)) rfl (by rw [hthread]; rfl) nofun rfl
        (by rw [hmsg]; rfl)
  | rmSlave pos =>
      exact h.answer_slave (hanswering (by rw [hmsg]; rfl)) rfl (by rw [hthread]; rfl) nofun rfl
        (by rw [hmsg]; rfl)
  | updateBackup12 =>
      refine h.of_thread ?_ (by rw [hthread]; rfl) nofun
      rw [hanswering (by rw [hmsg]; rfl), hmsg]
      rfl
  | addSlave port => exact absurd (by rw [hmsg]; rfl) (hkinds (by rw [hmsg]; rfl)).1
  | delSlave pos => exact absurd (by rw [hmsg]; rfl) (hkinds (by rw [hmsg]; rfl)).2
  | addSlaveR pos slaves => simpa [hmsg] using hidle (by rw [hmsg]; rfl) (by rw [hmsg])
  | delSlaveR => simpa [hmsg] using hidle (by rw [hmsg]; rfl) (by rw [hmsg])
  | newSlaveR => simpa [hmsg] using hidle (by rw [hmsg]; rfl) (by rw [hmsg])
  | rmSlaveR => simpa [hmsg] using hidle (by rw [hmsg]; rfl) (by rw [hmsg])
  | updateBackup12R => simpa [hmsg] using hidle (by rw [hmsg]; rfl) (by rw [hmsg])

/-- The slave's calls are through. -/
theorem returned (h : LinkInv awaited serving l) {after : After}
    (hthread : l.thread = .calling [] after) :
    LinkInv awaited serving (ControlNet.returned l after) := by
  cases after with
  | initialSlave => exact h.of_thread (by rw [hthread]; rfl) (by rw [hthread]; rfl) nofun
  | rmSlave => exact h.of_thread (by rw [hthread]; rfl) (by rw [hthread]; rfl) nofun
  | updateBackup12 id =>
      have hanswering : l.thread.answering = [⟨.updateBackup12, id⟩] := by
        rw [hthread]
        rfl
      exact h.answer_slave hanswering rfl (by rw [hthread]; rfl) nofun rfl rfl

/-- The slave sends `DEL_SLAVE` when it has answered the master's requests. -/
theorem ask_slave (h : LinkInv awaited serving l) (hfree : l.askedOf = [])
    (hidle : l.thread.asking = []) {t : Thread} (hanswering : t.answering = [])
    (haborted : t ≠ .aborted) (hasking : t.asking = [p.exchange])
    (hrequest : p.msg.isReply = false) :
    LinkInv awaited serving { l with thread := t, toMaster := l.toMaster ++ [p] } := by
  have hslave := h.slave
  rw [hidle, eq_comm, List.append_eq_nil_iff, List.append_eq_nil_iff] at hslave
  obtain ⟨hanswers, hserving, hrequests⟩ := hslave
  have hsent := (List.append_eq_nil_iff.mp hfree).2
  refine ⟨?_, ?_, h.single, Or.inl ?_, h.toMaster.append_request hrequest, h.toSlave, h.kinds,
    haborted⟩
  · have hmaster := h.master
    rw [hfree] at hmaster
    simp [hmaster, Link.askedOf, hanswering, hsent, replies_cons_of_request, hrequest]
  · simp [hasking, hanswers, hserving, hrequests, requests_cons_of_request, hrequest]
  · simp [Link.askedOf, hanswering, hsent]

/-- The slave connects and sends `ADD_SLAVE`. -/
theorem connect (h : LinkInv [] serving l) (hidle : l.thread.asking = []) {t : Thread}
    (hanswering : t.answering = []) (haborted : t ≠ .aborted)
    (hasking : t.asking = [p.exchange]) (hrequest : p.msg.isReply = false) :
    LinkInv [] serving { l with thread := t, toSlave := [], toMaster := [p] } := by
  have hslave := h.slave
  rw [hidle, eq_comm, List.append_eq_nil_iff, List.append_eq_nil_iff] at hslave
  refine ⟨?_, ?_, h.single, Or.inl ?_, List.pairwise_singleton _ _, List.Pairwise.nil, h.kinds,
    haborted⟩
  · simp [Link.askedOf, hanswering, replies_cons_of_request, hrequest]
  · simp [hasking, hslave.2.1, requests_cons_of_request, hrequest]
  · simp [Link.askedOf, hanswering]

/-- The packet that the slave's own `RecvMsg` returns, and the socket afterwards. -/
theorem recv_reply (h : LinkInv awaited serving l) {x : Exchange}
    (hasking : l.thread.asking = [x]) (hanswering : l.thread.answering = [])
    (hqueue : l.toSlave = p :: rest) :
    (p.msg.isReply = true ∧ p.exchange = x) ∧
      ∀ l' : Link, l'.thread.asking = [] → l'.thread.answering = [] →
        l'.thread ≠ .aborted → l'.toSlave = rest → l'.toMaster = l.toMaster →
          LinkInv awaited serving l' := by
  have hslave := h.slave
  have hfirst := h.toSlave
  rw [hqueue] at hfirst
  rw [hasking, hqueue] at hslave
  have hreply : p.msg.isReply = true := by
    cases hreply : p.msg.isReply with
    | true => rfl
    | false =>
        have hopen : l.askedOf ≠ [] := by
          simp [Link.askedOf, hqueue, requests_cons_of_request, hreply]
        rw [replies_cons_of_request _ hreply, hfirst.replies_eq_nil hreply,
          h.oneSided.resolve_left hopen] at hslave
        cases hslave
  rw [replies_cons_of_reply _ hreply] at hslave
  simp only [List.cons_append, List.cons.injEq] at hslave
  obtain ⟨heq, hrest⟩ := hslave
  refine ⟨⟨hreply, heq.symm⟩, fun l' hasking' hanswering' haborted htoSlave htoMaster => ?_⟩
  have hasked : l'.askedOf = l.askedOf := by
    simp [Link.askedOf, hanswering, hanswering', htoSlave, hqueue, requests_cons_of_reply, hreply]
  exact ⟨by rw [hasked, htoMaster]; exact h.master,
    by rw [hasking', htoSlave, htoMaster]; exact hrest, h.single,
    by rw [hasked, htoMaster]; exact h.oneSided, by rw [htoMaster]; exact h.toMaster,
    by rw [htoSlave]; exact hfirst.of_cons, h.kinds, haborted⟩

/-- The packet that the master's `RecvMsg` returns. -/
theorem recv_master (h : LinkInv awaited serving l) {x : Exchange} (hx : awaited = [x])
    (hqueue : l.toMaster = p :: rest) :
    (p.msg.isReply = true ∧ p.exchange = x) ∧
      LinkInv [] serving { l with toMaster := rest } := by
  have hmaster := h.master
  have hslave := h.slave
  have hfirst := h.toMaster
  have honeSided := h.oneSided
  rw [hqueue] at hfirst
  rw [hx, hqueue] at hmaster
  rw [hqueue] at hslave honeSided
  have hreply : p.msg.isReply = true := by
    cases hreply : p.msg.isReply with
    | true => rfl
    | false =>
        have hopen : ¬ serving ++ requests (p :: rest) = [] := by
          simp [requests_cons_of_request, hreply]
        rw [replies_cons_of_request _ hreply, hfirst.replies_eq_nil hreply,
          honeSided.resolve_right hopen] at hmaster
        cases hmaster
  rw [replies_cons_of_reply _ hreply] at hmaster
  rw [requests_cons_of_reply _ hreply] at hslave honeSided
  simp only [List.cons_append, List.cons.injEq] at hmaster
  exact ⟨⟨hreply, hmaster.1.symm⟩, hmaster.2, hslave, Nat.zero_le 1, honeSided,
    hfirst.of_cons, h.toSlave, nofun, h.asserted⟩

/-- The master sends a request on a free socket. -/
theorem ask_master (h : LinkInv [] serving l) (hfree : serving ++ requests l.toMaster = [])
    (hrequest : p.msg.isReply = false)
    (hkind : p.msg.kind ≠ .addSlave ∧ p.msg.kind ≠ .delSlave) :
    LinkInv [p.exchange] serving { l with toSlave := l.toSlave ++ [p] } := by
  have hmaster := h.master
  rw [eq_comm, Link.askedOf, List.append_eq_nil_iff, List.append_eq_nil_iff] at hmaster
  obtain ⟨hreplies, hanswering, hrequests⟩ := hmaster
  refine ⟨?_, ?_, Nat.le_refl 1, Or.inr hfree, h.toMaster, h.toSlave.append_request hrequest, ?_,
    h.asserted⟩
  · simp [Link.askedOf, hreplies, hanswering, hrequests, requests_cons_of_request, hrequest]
  · rw [replies_append, replies_cons_of_request _ hrequest, replies_nil, List.append_nil]
    exact h.slave
  · rintro x hx
    rw [List.mem_singleton.mp hx]
    exact hkind

/-- The master's main loop receives a request. -/
theorem accept_master (h : LinkInv awaited [] l) (hqueue : l.toMaster = p :: rest)
    (hrequest : p.msg.isReply = false) :
    LinkInv awaited [p.exchange] { l with toMaster := rest } := by
  have hslave := h.slave
  have hmaster := h.master
  have honeSided := h.oneSided
  have hfirst := h.toMaster
  rw [hqueue] at hfirst
  rw [hqueue, requests_cons_of_request _ hrequest] at hslave honeSided
  rw [hqueue, replies_cons_of_request _ hrequest] at hmaster
  exact ⟨hmaster, hslave, h.single, honeSided, hfirst.of_cons, h.toSlave, h.kinds, h.asserted⟩

/-- The master answers the request that it was handling. -/
theorem answer_master {x : Exchange} (h : LinkInv awaited [x] l)
    (hreply : p.msg.isReply = true) (hx : p.exchange = x) (hasking : l.thread.asking.length ≤ 1) :
    LinkInv awaited [] { l with toSlave := l.toSlave ++ [p] } := by
  have hslave := h.slave
  have hfree := h.oneSided.resolve_right (List.cons_ne_nil _ _)
  have hlen := congrArg List.length hslave
  simp only [List.length_append, List.length_cons, List.length_nil] at hlen
  have hnil : requests l.toMaster = [] := List.eq_nil_of_length_eq_zero (by omega)
  have hrequests : requests (l.toSlave ++ [p]) = requests l.toSlave := by
    rw [requests_append, requests_cons_of_reply _ hreply, requests_nil, List.append_nil]
  have hasked : ({ l with toSlave := l.toSlave ++ [p] } : Link).askedOf = l.askedOf := by
    simp only [Link.askedOf, hrequests]
  refine ⟨by rw [hasked]; exact h.master, ?_, h.single, Or.inr (by simpa using hnil), h.toMaster,
    repliesFirst_of_replies (hrequests.trans (List.append_eq_nil_iff.mp hfree).2), h.kinds,
    h.asserted⟩
  rw [hslave, replies_append, replies_cons_of_reply _ hreply, hx]
  simp [hnil]

end LinkInv

namespace ControlNet

/-- The invariant of every socket, and of the log. -/
structure ReplyInv (s : ControlNet) : Prop where
  links : ∀ a, LinkInv (s.awaited a) (s.serving a) (s.links a)
  returned : ∀ x ∈ s.log, x.packet.msg.isReply = true ∧ x.packet.exchange = x.exchange

theorem replyInv_init : init.ReplyInv where
  links := fun _ => ⟨rfl, rfl, Nat.zero_le 1, Or.inl rfl, List.Pairwise.nil, List.Pairwise.nil,
    nofun, nofun⟩
  returned := nofun

theorem asking_length_le (t : Thread) : t.asking.length ≤ 1 := by
  cases t <;> simp [Thread.asking]

theorem asking_of_interruptible {t : Thread} (h : interruptible t = true) : t.asking = [] := by
  cases t with
  | registering id => cases h
  | leaving id => cases h
  | _ => rfl

section Steps

variable {s : ControlNet}

theorem links_setLink (a b : Int) (l : Link) :
    (s.setLink a l).links b = if b = a then l else s.links b := by
  simp [setLink, Function.update_apply]

/-- A step of one slave: the master waits for the same replies as before. -/
theorem ReplyInv.setLink (h : s.ReplyInv) {a : Int} {l : Link}
    (hl : LinkInv (s.awaited a) (s.serving a) l) : (s.setLink a l).ReplyInv where
  links := by
    intro b
    rw [links_setLink]
    split
    case isTrue heq => exact heq ▸ hl
    case isFalse => exact h.links b
  returned := h.returned

/-- A step after which the master waits on one socket for other replies than before. -/
theorem ReplyInv.of_links (h : s.ReplyInv) {s' : ControlNet} (a : Int)
    (hothers : ∀ b, b ≠ a → s'.links b = s.links b ∧ s'.awaited b = s.awaited b ∧
      s'.serving b = s.serving b)
    (hl : LinkInv (s'.awaited a) (s'.serving a) (s'.links a))
    (hlog : ∀ x ∈ s'.log, x.packet.msg.isReply = true ∧ x.packet.exchange = x.exchange) :
    s'.ReplyInv where
  links := by
    intro b
    rcases eq_or_ne b a with rfl | hne
    · exact hl
    · obtain ⟨hlink, hawaited, hserving⟩ := hothers b hne
      rw [hlink, hawaited, hserving]
      exact h.links b
  returned := hlog

theorem awaited_of_idle (hbase : s.base = none) (halarm : s.alarm = none) (a : Int) :
    s.awaited a = [] := by
  simp [awaited, baseAwaited, alarmAwaited, hbase, halarm]

theorem baseAwaited_of_sent_none {r : Notifying} (hbase : s.base = some r)
    (hsent : r.sent = none) (a : Int) : s.baseAwaited a = [] := by
  simp [baseAwaited, hbase, hsent]

theorem awaited_of_sent_none {r : Notifying} (hbase : s.base = some r)
    (hsent : r.sent = none) (halarm : s.alarm = none) (a : Int) : s.awaited a = [] := by
  rw [awaited, baseAwaited_of_sent_none hbase hsent]
  simp [alarmAwaited, halarm]

theorem awaited_of_sent {r : Notifying} {id : Nat} (hbase : s.base = some r)
    (hsent : r.sent = some id) (halarm : s.alarm = none) (a : Int) :
    s.awaited a = if s.sock r.i = a then [⟨noticeKind r.cmd, id⟩] else [] := by
  simp [awaited, baseAwaited, alarmAwaited, hbase, hsent, halarm]

/-- A slave connects and sends `ADD_SLAVE`. -/
theorem ReplyInv.register (h : s.ReplyInv) {a port : Int}
    (hfree : s.SendsOnFree (.register a port)) (hdown : (s.links a).thread = .down) :
    LinkInv (s.awaited a) (s.serving a)
      { s.links a with
        thread := .registering s.sent
        toSlave := []
        toMaster := [⟨.addSlave port, s.sent⟩] } := by
  have hlink := h.links a
  have hasking : (s.links a).thread.asking = [] := by
    rw [hdown]
    rfl
  rw [hfree] at hlink ⊢
  exact hlink.connect hasking rfl (by simp) rfl rfl

/-- A slave sends `DEL_SLAVE`. -/
theorem ReplyInv.interrupt (h : s.ReplyInv) {a : Int} (hfree : s.SendsOnFree (.interrupt a))
    (hthread : interruptible (s.links a).thread = true) :
    LinkInv (s.awaited a) (s.serving a)
      { s.links a with
        thread := .leaving s.sent
        toMaster := (s.links a).toMaster ++ [⟨.delSlave (s.links a).slave.pos, s.sent⟩] } :=
  (h.links a).ask_slave hfree (asking_of_interruptible hthread) rfl (by simp) rfl rfl

/-- The master sends a request. -/
theorem ReplyInv.request (h : s.ReplyInv) {a : Int} (hfree : s.Free a) {m : ControlMsg}
    (hrequest : m.isReply = false) (hkind : m.kind ≠ .addSlave ∧ m.kind ≠ .delSlave)
    {s' : ControlNet} (hlinks : s'.links = (s.request a m).links)
    (hlog : s'.log = s.log) (hserving : ∀ b, s'.serving b = s.serving b)
    (hself : s'.awaited a = [⟨m.kind, s.sent⟩])
    (hothers : ∀ b, b ≠ a → s'.awaited b = s.awaited b) : s'.ReplyInv := by
  have hlink := h.links a
  rw [hfree.1] at hlink
  have hl := hlink.ask_master (p := ⟨m, s.sent⟩) hfree.2 hrequest hkind
  refine h.of_links a (fun b hne => ⟨?_, hothers b hne, hserving b⟩) ?_ ?_
  · rw [hlinks]
    exact (links_setLink a b _).trans (if_neg hne)
  · rw [hlinks, hself, hserving]
    have hself' : (s.request a m).links a =
        { s.links a with toSlave := (s.links a).toSlave ++ [⟨m, s.sent⟩] } :=
      (links_setLink a a _).trans (if_pos rfl)
    rw [hself']
    exact hl
  · rw [hlog]
    exact h.returned

/-- The replies of the slaves' own exchanges. -/
theorem msg_of_addSlave {p : ControlPacket} {id : Nat}
    (h : p.msg.isReply = true ∧ p.exchange = ⟨.addSlave, id⟩) :
    ∃ pos slaves, p.msg = .addSlaveR pos slaves := by
  obtain ⟨hreply, hexchange⟩ := h
  have hkind := congrArg Exchange.kind hexchange
  simp only [ControlPacket.exchange] at hkind
  cases hmsg : p.msg with
  | addSlaveR pos slaves => exact ⟨pos, slaves, rfl⟩
  | _ => simp_all [ControlMsg.isReply, ControlMsg.kind]

theorem msg_of_delSlave {p : ControlPacket} {id : Nat}
    (h : p.msg.isReply = true ∧ p.exchange = ⟨.delSlave, id⟩) : p.msg = .delSlaveR := by
  obtain ⟨hreply, hexchange⟩ := h
  have hkind := congrArg Exchange.kind hexchange
  simp only [ControlPacket.exchange] at hkind
  cases hmsg : p.msg with
  | delSlaveR => rfl
  | _ => simp_all [ControlMsg.isReply, ControlMsg.kind]

/-- The master begins to handle a request that it has received from a slave. -/
theorem ReplyInv.accept (h : s.ReplyInv) {a : Int} {p : ControlPacket}
    {rest : List ControlPacket} (hbase : s.base = none) (halarm : s.alarm = none)
    (hqueue : (s.links a).toMaster = p :: rest) (hrequest : p.msg.isReply = false)
    {r : Notifying} (hrequester : r.requester = a) (hsent : r.sent = none)
    (hx : p.exchange = ⟨requestKind r.cmd, r.id⟩) {s' : ControlNet}
    (hlinks : s'.links = (s.setLink a { s.links a with toMaster := rest }).links)
    (hbase' : s'.base = some r) (halarm' : s'.alarm = none) (hlog : s'.log = s.log) :
    s'.ReplyInv := by
  have hidle := awaited_of_idle hbase halarm
  have hawaited : ∀ b, s'.awaited b = [] := awaited_of_sent_none hbase' hsent halarm'
  have hlink := h.links a
  rw [hidle, serving, hbase] at hlink
  refine h.of_links a (fun b hne => ⟨?_, ?_, ?_⟩) ?_ (by rw [hlog]; exact h.returned)
  · rw [hlinks, links_setLink, if_neg hne]
  · rw [hawaited, hidle]
  · simp [serving, hbase, hbase', hrequester, hne.symm]
  · have hserving : s'.serving a = [p.exchange] := by
      simp [serving, hbase', hrequester, hx]
    rw [hawaited, hserving, hlinks, links_setLink, if_pos rfl]
    exact hlink.accept_master hqueue hrequest

theorem ReplyInv.beginRequest (h : s.ReplyInv) {a ip : Int} {rand : Nat} {p : ControlPacket}
    {rest : List ControlPacket} (hbase : s.base = none) (halarm : s.alarm = none)
    (hqueue : (s.links a).toMaster = p :: rest) {s' : ControlNet}
    (hstep : (s.setLink a { s.links a with toMaster := rest }).beginRequest a ip rand p =
      some s') : s'.ReplyInv := by
  unfold ControlNet.beginRequest at hstep
  split at hstep
  case h_1 port hmsg =>
      simp only [Option.ite_none_right_eq_some] at hstep
      obtain rfl := Option.some.inj hstep.2
      exact h.accept hbase halarm hqueue (by rw [hmsg]; rfl) rfl rfl
        (by rw [ControlPacket.exchange, hmsg]; rfl) rfl rfl halarm rfl
  case h_2 pos hmsg =>
      obtain rfl := Option.some.inj hstep
      exact h.accept hbase halarm hqueue (by rw [hmsg]; rfl) rfl rfl
        (by rw [ControlPacket.exchange, hmsg]; rfl) rfl rfl halarm rfl
  case h_3 => cases hstep

/-- The master receives the reply that it waits for, and waits for nothing else on the
socket. -/
theorem ReplyInv.recv (h : s.ReplyInv) {a : Int} {x : Exchange} {p : ControlPacket}
    {rest : List ControlPacket} (hx : s.awaited a = [x])
    (hqueue : (s.links a).toMaster = p :: rest) {s' : ControlNet}
    (hlinks : s'.links = (s.setLink a { s.links a with toMaster := rest }).links)
    (hlog : s'.log = ⟨x, p⟩ :: s.log) (hserving : ∀ b, s'.serving b = s.serving b)
    (hself : s'.awaited a = []) (hothers : ∀ b, b ≠ a → s'.awaited b = s.awaited b) :
    s'.ReplyInv := by
  obtain ⟨hmatch, hlink⟩ := (h.links a).recv_master hx hqueue
  refine h.of_links a (fun b hne => ⟨?_, hothers b hne, hserving b⟩) ?_ ?_
  · rw [hlinks, links_setLink, if_neg hne]
  · rw [hself, hserving, hlinks, links_setLink, if_pos rfl]
    exact hlink
  · intro y hy
    rw [hlog] at hy
    rcases List.mem_cons.mp hy with rfl | hold
    · exact hmatch
    · exact h.returned y hold

/-- A slave starts its next call of another slave. -/
theorem ReplyInv.call (h : s.ReplyInv) {a k : Int} {todo : List Int} {after : After}
    (hthread : (s.links a).thread = .calling (k :: todo) after) :
    LinkInv (s.awaited a) (s.serving a) (s.called (s.links a) k todo after) := by
  unfold called
  split
  case h_1 => exact (h.links a).calls (Or.inr hthread) (Or.inr ⟨_, rfl⟩)
  case h_2 b _ =>
      split
      · exact (h.links a).calls (Or.inr hthread) (Or.inr ⟨_, rfl⟩)
      · exact (h.links a).calls (Or.inr hthread) (Or.inl ⟨_, _, rfl⟩)

/-- A slave receives the reply to its own request. -/
theorem ReplyInv.slaveReturned (h : s.ReplyInv) {a : Int} {l : Link} {x : Exchange}
    {p : ControlPacket} (hmatch : p.msg.isReply = true ∧ p.exchange = x)
    (hl : LinkInv (s.awaited a) (s.serving a) l) : (s.slaveReturned a l x p).ReplyInv := by
  refine ⟨(h.setLink hl).links, fun y hy => ?_⟩
  rcases List.mem_cons.mp hy with rfl | hold
  · exact hmatch
  · exact h.returned y hold

theorem ReplyInv.registered (h : s.ReplyInv) {a : Int} {id : Nat} {p : ControlPacket}
    {rest : List ControlPacket} (hthread : (s.links a).thread = .registering id)
    (hqueue : (s.links a).toSlave = p :: rest) :
    (s.slaveReturned a (registered { s.links a with toSlave := rest } p)
      ⟨.addSlave, id⟩ p).ReplyInv := by
  obtain ⟨hmatch, hlink⟩ := (h.links a).recv_reply (x := ⟨.addSlave, id⟩)
    (by rw [hthread]; rfl) (by rw [hthread]; rfl) hqueue
  refine h.slaveReturned hmatch ?_
  obtain ⟨pos, slaves, hmsg⟩ := msg_of_addSlave hmatch
  unfold ControlNet.registered
  rw [hmsg]
  exact hlink _ rfl rfl (by simp) rfl rfl

theorem ReplyInv.left (h : s.ReplyInv) {a : Int} {id : Nat} {p : ControlPacket}
    {rest : List ControlPacket} (hthread : (s.links a).thread = .leaving id)
    (hqueue : (s.links a).toSlave = p :: rest) :
    (s.slaveReturned a (left { s.links a with toSlave := rest } p)
      ⟨.delSlave, id⟩ p).ReplyInv := by
  obtain ⟨hmatch, hlink⟩ := (h.links a).recv_reply (x := ⟨.delSlave, id⟩)
    (by rw [hthread]; rfl) (by rw [hthread]; rfl) hqueue
  refine h.slaveReturned hmatch ?_
  unfold ControlNet.left
  rw [msg_of_delSlave hmatch]
  exact hlink _ rfl rfl (by simp) rfl rfl

/-- The loop of `NotifyAll` passes over the node of the request. -/
theorem ReplyInv.skip (h : s.ReplyInv) {r : Notifying} (hbase : s.base = some r)
    (halarm : s.alarm = none) (hsent : r.sent = none) :
    ReplyInv { s with base := some { r with i := r.i + 1 } } := by
  refine ⟨fun b => ?_, h.returned⟩
  have hlink := h.links b
  rw [awaited_of_sent_none hbase hsent halarm, serving, hbase] at hlink
  have hnil : ControlNet.awaited { s with base := some { r with i := r.i + 1 } } b = [] := by
    refine awaited_of_sent_none (r := { r with i := r.i + 1 }) ?_ hsent ?_ b
    exacts [rfl, halarm]
  rw [hnil]
  exact hlink

/-- A notification is a request, and not one of a slave. -/
theorem notice_isRequest (s : ControlNet) (r : Notifying) :
    (s.notice r).isReply = false ∧ (s.notice r).kind = noticeKind r.cmd ∧
      noticeKind r.cmd ≠ .addSlave ∧ noticeKind r.cmd ≠ .delSlave := by
  unfold notice noticeKind
  cases r.cmd <;> simp [ControlMsg.isReply, ControlMsg.kind]

/-- The loop of `NotifyAll` sends to the next slave. -/
theorem ReplyInv.notify (h : s.ReplyInv) {r : Notifying} (hfree : s.Free (s.sock r.i))
    (hbase : s.base = some r) (halarm : s.alarm = none) (hsent : r.sent = none) :
    ReplyInv
      { s.request (s.sock r.i) (s.notice r) with
        base := some { r with sent := some s.sent } } := by
  have hawaited := awaited_of_sent_none hbase hsent halarm
  obtain ⟨hrequest, hkind, hkinds⟩ := s.notice_isRequest r
  rw [← hkind] at hkinds
  refine h.request hfree hrequest hkinds rfl rfl ?_ ?_ ?_
  · intro b
    simp [serving, hbase]
  · rw [hkind]
    refine (awaited_of_sent (r := { r with sent := some s.sent }) ?_ rfl ?_ _).trans (if_pos rfl)
    exacts [rfl, halarm]
  · intro b hother
    rw [hawaited]
    refine (awaited_of_sent (r := { r with sent := some s.sent }) ?_ rfl ?_ _).trans
      (if_neg (Ne.symm hother))
    exacts [rfl, halarm]

/-- `NotifyAll` receives a reply. -/
theorem ReplyInv.masterReply (h : s.ReplyInv) {r : Notifying} {id : Nat} {p : ControlPacket}
    {rest : List ControlPacket} (hbase : s.base = some r) (halarm : s.alarm = none)
    (hsent : r.sent = some id) (hqueue : (s.links (s.sock r.i)).toMaster = p :: rest) :
    ReplyInv
      { s.setLink (s.sock r.i) { s.links (s.sock r.i) with toMaster := rest } with
        base := some { r with i := r.i + 1, sent := none }
        log := ⟨⟨noticeKind r.cmd, id⟩, p⟩ :: s.log } := by
  have hawaited := awaited_of_sent hbase hsent halarm
  refine h.recv ((hawaited _).trans (if_pos rfl)) hqueue rfl rfl ?_ ?_ ?_
  · intro b
    simp [serving, hbase]
  · refine awaited_of_sent_none (r := { r with i := r.i + 1, sent := none }) ?_ rfl ?_ _
    exacts [rfl, halarm]
  · intro b hne
    rw [hawaited, if_neg (Ne.symm hne)]
    refine awaited_of_sent_none (r := { r with i := r.i + 1, sent := none }) ?_ rfl ?_ b
    exacts [rfl, halarm]

/-- The master answers the request that it was handling. -/
theorem ReplyInv.finish (h : s.ReplyInv) {r : Notifying} (hbase : s.base = some r)
    (halarm : s.alarm = none) (hsent : r.sent = none) :
    ReplyInv
      { s.setLink r.requester
          { s.links r.requester with
            toSlave := (s.links r.requester).toSlave ++ [⟨(s.answer r).2, r.id⟩] } with
        slaves := (s.answer r).1
        base := none } := by
  have hold := awaited_of_sent_none hbase hsent halarm
  have hlink := h.links r.requester
  rw [hold, serving, hbase] at hlink
  simp only [if_true] at hlink
  refine h.of_links r.requester (fun b hne => ⟨?_, ?_, ?_⟩) ?_ h.returned
  · exact (links_setLink _ b _).trans (if_neg hne)
  · rw [hold]
    refine awaited_of_idle ?_ ?_ b
    exacts [rfl, halarm]
  · simp [serving, hbase, hne.symm]
  · have hl := hlink.answer_master (p := ⟨(s.answer r).2, r.id⟩)
      (by unfold answer; cases r.cmd <;> rfl)
      (by unfold answer ControlPacket.exchange; cases r.cmd <;> rfl)
      (asking_length_le _)
    have hself : ∀ l, (s.setLink r.requester l).links r.requester = l := fun l =>
      (links_setLink _ _ l).trans (if_pos rfl)
    have hnil : ∀ {t : ControlNet}, t.base = none → t.alarm = none →
        t.awaited r.requester = [] := fun hb ha => awaited_of_idle hb ha _
    rw [hnil]
    · rw [hself]
      exact hl
    exacts [rfl, halarm]

/-- `UpdateBackup` sends its request. -/
theorem ReplyInv.tick (h : s.ReplyInv) (hfree : s.SendsOnFree .tick) (halarm : s.alarm = none) :
    ReplyInv
      { s.request (s.sock s.nextTurn) .updateBackup12 with
        alarm := some ⟨s.sock s.nextTurn, s.sent⟩
        backupPos := s.nextTurn } := by
  have hbase : s.baseAwaited (s.sock s.nextTurn) = [] := (List.append_eq_nil_iff.mp hfree.1).1
  refine h.request hfree (m := .updateBackup12) rfl (by simp [ControlMsg.kind]) rfl rfl
    (fun b => rfl) ?_ ?_
  · refine (congrArg (· ++ _) hbase).trans ?_
    simp [alarmAwaited, ControlMsg.kind]
  · intro b hne
    refine congrArg (s.baseAwaited b ++ ·) ?_
    simp [alarmAwaited, halarm, Ne.symm hne]

/-- `UpdateBackup` receives its reply. -/
theorem ReplyInv.tickReply (h : s.ReplyInv) {w : Await} {p : ControlPacket}
    {rest : List ControlPacket} (halarm : s.alarm = some w)
    (hqueue : (s.links w.sock).toMaster = p :: rest) :
    ReplyInv
      { s.setLink w.sock { s.links w.sock with toMaster := rest } with
        alarm := none
        log := ⟨⟨.updateBackup12, w.id⟩, p⟩ :: s.log } := by
  have halarmed : s.alarmAwaited w.sock = [⟨.updateBackup12, w.id⟩] := by
    simp [alarmAwaited, halarm]
  have hlen := (h.links w.sock).single
  rw [awaited, halarmed, List.length_append, List.length_singleton] at hlen
  have hbase : s.baseAwaited w.sock = [] := List.eq_nil_of_length_eq_zero (by omega)
  refine h.recv (x := ⟨.updateBackup12, w.id⟩) ?_ hqueue rfl rfl (fun b => rfl) ?_ ?_
  · rw [awaited, hbase, halarmed]
    rfl
  · exact (List.append_nil _).trans hbase
  · intro b hne
    refine congrArg (s.baseAwaited b ++ ·) ?_
    simp [alarmAwaited, halarm, Ne.symm hne]

/-- **Each step that sends its requests on free sockets keeps the invariant.** -/
theorem ReplyInv.step (h : s.ReplyInv) {e : ControlEvent} {s' : ControlNet}
    (hfree : s.SendsOnFree e) (hstep : s.step e = some s') : s'.ReplyInv := by
  cases transition_of_step hstep with
  | register a port hdown =>
      have hset := h.setLink (h.register hfree hdown)
      exact ⟨hset.links, hset.returned⟩
  | slaveRecv a p rest hloop hqueue => exact h.setLink ((h.links a).recv_slave hloop hqueue)
  | slaveHandle a p hthread => exact h.setLink ((h.links a).handled hthread)
  | call a k todo after hthread => exact h.setLink (h.call hthread)
  | serve b a k todo after hthread hloop hpeer =>
      exact h.setLink ((h.links a).calls (Or.inl ⟨k, hthread⟩) (Or.inr ⟨todo, rfl⟩))
  | endCalls a after hthread => exact h.setLink ((h.links a).returned hthread)
  | interrupt a hthread =>
      have hset := h.setLink (h.interrupt hfree hthread)
      exact ⟨hset.links, hset.returned⟩
  | registered a id p rest hthread hqueue => exact h.registered hthread hqueue
  | left a id p rest hthread hqueue => exact h.left hthread hqueue
  | masterRecv a ip rand p rest t hbase halarm hqueue hbegin =>
      exact h.beginRequest hbase halarm hqueue hbegin
  | skip r hbase halarm hsent hlt hself => exact h.skip hbase halarm hsent
  | notify r hbase halarm hsent hlt hother =>
      exact h.notify (hfree r hbase hother) hbase halarm hsent
  | masterReply r id p rest hbase halarm hsent hqueue =>
      exact h.masterReply hbase halarm hsent hqueue
  | finish r hbase halarm hsent hi => exact h.finish hbase halarm hsent
  | tick halarm hnum => exact h.tick hfree halarm
  | tickReply w p rest halarm hqueue => exact h.tickReply halarm hqueue

end Steps

/-- What the invariant says about the replies. -/
theorem ReplyInv.matched {s : ControlNet} (h : s.ReplyInv) : s.Matched where
  returned := h.returned
  asserted := fun a => (h.links a).asserted
  kept := by
    intro a id hthread
    have hmem : (⟨.delSlave, id⟩ : Exchange) ∈ (s.links a).thread.asking := by
      rw [hthread]
      exact List.mem_singleton_self _
    rw [(h.links a).slave, List.mem_append, List.mem_append] at hmem
    rcases hmem with hanswer | hserving | hrequest
    · exact Or.inr (Or.inr hanswer)
    · exact Or.inr (Or.inl hserving)
    · exact Or.inl hrequest

/-- **Replies match requests** in every state of a run in which every request is sent on
a free socket: each `RecvMsg` has returned the reply to its own request, no `DEL_SLAVE`
is lost and no assertion has failed. -/
theorem replies_match (events : List ControlEvent)
    (hfree : allSteps step SendsOnFree init events) (s : ControlNet)
    (hrun : run step init events = some s) : s.Matched := by
  have hinv : s.ReplyInv :=
    run_invariant_of_allSteps SendsOnFree ReplyInv
      (fun _ _ _ h hcond hstep => h.step hcond hstep) hfree hrun replyInv_init
  exact hinv.matched

/-- A slave registers and enters its main loop. -/
def firstJoin (a : Int) : List ControlEvent :=
  [.register a 1, .masterRecv a 0 0, .notify, .finish, .slaveReply a, .endCalls a]

/-- A second slave registers, a tick refreshes the first one, and the second one leaves. -/
def freeRun : List ControlEvent :=
  firstJoin 5 ++
    [.register 6 2, .masterRecv 6 0 0, .notify, .slaveRecv 5, .slaveHandle 5, .masterReply,
      .notify, .finish, .slaveReply 6, .call 6, .serve 5 6, .call 6, .serve 5 6, .endCalls 6,
      .tick, .slaveRecv 6, .slaveHandle 6, .call 6, .serve 5 6, .call 6, .endCalls 6, .tickReply,
      .interrupt 6, .masterRecv 6 0 0, .notify, .slaveRecv 5, .slaveHandle 5, .masterReply,
      .notify, .finish, .slaveReply 6]

theorem replies_match_freeRun :
    ∃ s, run step init freeRun = some s ∧ s.log.length = 6 ∧ s.Matched := by
  have hmap : (run step init freeRun).map (fun s => s.log.length) = some 6 := by
    decide +kernel
  obtain ⟨s, hrun, hmap⟩ := Option.map_eq_some_iff.mp hmap
  exact ⟨s, hrun, hmap, replies_match freeRun (by decide +kernel) s hrun⟩

/-- The first slave is interrupted when a notification for it is on its way. -/
def crossingRun : List ControlEvent :=
  firstJoin 5 ++
    [.register 6 2, .masterRecv 6 0 0, .notify, .interrupt 5, .masterReply, .slaveReply 5]

/-- `NotifyAll` takes the `DEL_SLAVE` for the reply to its `NEW_SLAVE`, and `ShutDownSlave`
the `NEW_SLAVE` for the reply to its `DEL_SLAVE`. -/
theorem delSlave_lost :
    ∃ s, run step init crossingRun = some s ∧
      s.log.take 2 =
        [⟨⟨.delSlave, 3⟩, ⟨.newSlave 1 ⟨0, 2, 6, 2000⟩, 2⟩⟩,
          ⟨⟨.newSlave, 2⟩, ⟨.delSlave 0, 3⟩⟩] ∧
      (s.links 5).thread = .aborted ∧ ¬ s.Matched := by
  have hmap : (run step init crossingRun).map (fun s => (s.log.take 2, (s.links 5).thread)) =
      some ([⟨⟨.delSlave, 3⟩, ⟨.newSlave 1 ⟨0, 2, 6, 2000⟩, 2⟩⟩,
        ⟨⟨.newSlave, 2⟩, ⟨.delSlave 0, 3⟩⟩], .aborted) := by
    decide +kernel
  obtain ⟨s, hrun, hmap⟩ := Option.map_eq_some_iff.mp hmap
  obtain ⟨hlog, haborted⟩ := Prod.mk.inj hmap
  exact ⟨s, hrun, hlog, haborted, fun hmatched => hmatched.asserted 5 haborted⟩

end ControlNet

end DistributedDB
