import DistributedDB.Library.Run
import DistributedDB.Wire

/-!
# Packets on a byte stream

One direction of a connection.  `SendMsg` puts the bytes of a packet on the stream;
`RecvMsg` and `DBRecvMsg` call `recv` once, which takes any number of the bytes that are
available, up to the size of the buffer, and overwrites the buffer with these from its
start on.  What the buffer of the next call holds before is arbitrary: the callers use
buffers of their own, or pack their replies into it.

**Results.**
* `framed_iff`: the buffers hold the packets in order, whatever is sent and received
  into, exactly when every `recv` returns a whole packet.
-/

namespace DistributedDB

open Run

inductive StreamEvent where
  /-- `SendMsg`. -/
  | send
  /-- A call of `RecvMsg` in which `recv` returns `n` bytes. -/
  | recv (n : Nat)
deriving DecidableEq, Repr

/-- What is sent, and what the buffers hold before the calls. -/
structure Traffic where
  /-- The packets in the order in which they are sent. -/
  packets : Nat → PacketBuf
  /-- The buffer of the `n`-th call of `RecvMsg`. -/
  bufs : Nat → PacketBuf

structure Stream where
  /-- The number of packets sent. -/
  sent : Nat
  /-- The bytes that are available. -/
  pending : List UInt8
  /-- The buffers after the calls of `RecvMsg`. -/
  received : List PacketBuf

namespace Stream

def init : Stream :=
  ⟨0, [], []⟩

/-- One call; `none` when `recv` cannot return so many bytes. -/
def step (t : Traffic) (s : Stream) : StreamEvent → Option Stream
  | .send =>
      some { s with
        sent := s.sent + 1
        pending := s.pending ++ (t.packets s.sent).sendMsg }
  | .recv n =>
      if h : 1 ≤ n ∧ n ≤ MAX_BUF_LEN ∧ n ≤ s.pending.length then
        some { s with
          pending := s.pending.drop n
          received := s.received ++
            [(t.bufs s.received.length).recvMsg (s.pending.take n)
              ((List.length_take_le n s.pending).trans h.2.1)] }
      else none

/-- The buffers after the calls are the packets, in order. -/
def InOrder (t : Traffic) (s : Stream) : Prop :=
  s.received = (List.range s.received.length).map t.packets

end Stream

/-- An order of calls in which no `recv` returns more bytes than there are. -/
def Feasible : Nat → List StreamEvent → Prop
  | _, [] => True
  | available, .send :: events => Feasible (available + MAX_BUF_LEN) events
  | available, .recv n :: events =>
      1 ≤ n ∧ n ≤ MAX_BUF_LEN ∧ n ≤ available ∧ Feasible (available - n) events

/-- One way to deliver the byte stream: the order of the calls, with what `recv`
returns. -/
structure Delivery where
  events : List StreamEvent
  feasible : Feasible 0 events

/-- The packets arrive in order, whatever is sent and whatever the buffers hold. -/
def Delivery.Framed (d : Delivery) : Prop :=
  ∀ t s, run (Stream.step t) Stream.init d.events = some s → s.InOrder t

/-- Every `recv` returns a whole packet. -/
def Delivery.Whole (d : Delivery) : Prop :=
  ∀ n, .recv n ∈ d.events → n = MAX_BUF_LEN

namespace Stream

variable {t : Traffic} {s s' : Stream}

/-- What a step does. -/
theorem step_recv {n : Nat} (h : s.step t (.recv n) = some s') :
    1 ≤ n ∧ n ≤ MAX_BUF_LEN ∧ n ≤ s.pending.length ∧
      ∃ hn : (s.pending.take n).length ≤ MAX_BUF_LEN,
        s' = ⟨s.sent, s.pending.drop n, s.received ++
          [(t.bufs s.received.length).recvMsg (s.pending.take n) hn]⟩ := by
  simp only [step] at h
  split at h
  case isTrue hn =>
      cases h
      exact ⟨hn.1, hn.2.1, hn.2.2, _, rfl⟩
  case isFalse => cases h

section Whole

/-- The bytes of the packets from `first` on. -/
def bytesFrom (t : Traffic) (first count : Nat) : List UInt8 :=
  (List.range' first count).flatMap fun k => (t.packets k).sendMsg

theorem bytesFrom_succ (first count : Nat) :
    bytesFrom t first (count + 1) =
      (t.packets first).sendMsg ++ bytesFrom t (first + 1) count := by
  rw [bytesFrom, List.range'_succ, List.flatMap_cons, bytesFrom]

theorem bytesFrom_concat (first count : Nat) :
    bytesFrom t first (count + 1) =
      bytesFrom t first count ++ (t.packets (first + count)).sendMsg := by
  rw [bytesFrom, List.range'_1_concat, List.flatMap_append, bytesFrom, List.flatMap_singleton]

/-- Between whole packets: the received ones are in order, and the others are on the
stream. -/
structure Aligned (t : Traffic) (s : Stream) : Prop where
  le : s.received.length ≤ s.sent
  received : s.InOrder t
  pending : s.pending = bytesFrom t s.received.length (s.sent - s.received.length)

theorem aligned_init : Aligned t init :=
  ⟨le_rfl, rfl, rfl⟩

theorem Aligned.send (h : Aligned t s) :
    Aligned t ⟨s.sent + 1, s.pending ++ (t.packets s.sent).sendMsg, s.received⟩ where
  le := h.le.trans (Nat.le_succ _)
  received := h.received
  pending := by
    have hcount : s.sent + 1 - s.received.length = s.sent - s.received.length + 1 := by
      have := h.le
      omega
    have hlast : s.received.length + (s.sent - s.received.length) = s.sent :=
      Nat.add_sub_cancel' h.le
    rw [hcount, bytesFrom_concat, hlast, ← h.pending]

/-- A `recv` of a whole packet leaves the next packet in the buffer. -/
theorem Aligned.recv (h : Aligned t s) (hle : MAX_BUF_LEN ≤ s.pending.length)
    (hn : (s.pending.take MAX_BUF_LEN).length ≤ MAX_BUF_LEN) :
    Aligned t ⟨s.sent, s.pending.drop MAX_BUF_LEN, s.received ++
      [(t.bufs s.received.length).recvMsg (s.pending.take MAX_BUF_LEN) hn]⟩ := by
  obtain ⟨count, hcount⟩ : ∃ count, s.sent - s.received.length = count + 1 := by
    cases hsub : s.sent - s.received.length with
    | zero =>
        have hempty : s.pending = [] := by
          rw [h.pending, hsub]
          rfl
        rw [hempty] at hle
        exact absurd hle (by decide)
    | succ count => exact ⟨count, rfl⟩
  have hpending : s.pending = (t.packets s.received.length).sendMsg ++
      bytesFrom t (s.received.length + 1) count := by
    rw [h.pending, hcount, bytesFrom_succ]
  have htake : s.pending.take MAX_BUF_LEN = (t.packets s.received.length).sendMsg := by
    rw [hpending]
    exact List.take_left' (t.packets s.received.length).length_sendMsg
  have hdrop : s.pending.drop MAX_BUF_LEN = bytesFrom t (s.received.length + 1) count := by
    rw [hpending]
    exact List.drop_left' (t.packets s.received.length).length_sendMsg
  refine ⟨?_, ?_, ?_⟩
  · simp only [List.length_append, List.length_singleton]
    omega
  · simp only [InOrder, htake, PacketBuf.recvMsg_sendMsg, List.length_append,
      List.length_singleton, List.range_succ, List.map_append, List.map_singleton]
    rw [← h.received]
  · simp only [List.length_append, List.length_singleton, hdrop]
    congr 1
    omega

theorem aligned_of_whole {events : List StreamEvent}
    (hwhole : ∀ n, .recv n ∈ events → n = MAX_BUF_LEN) (hs : Aligned t s)
    (hrun : run (step t) s events = some s') : Aligned t s' := by
  induction events generalizing s with
  | nil =>
      cases hrun
      exact hs
  | cons e events ih =>
      obtain ⟨m, hm, hrest⟩ := run_cons_eq_some.mp hrun
      refine ih (fun n hn => hwhole n (List.mem_cons_of_mem _ hn)) ?_ hrest
      cases e with
      | send =>
          cases hm
          exact hs.send
      | recv n =>
          obtain ⟨-, -, hle, hn, rfl⟩ := step_recv hm
          obtain rfl := hwhole n List.mem_cons_self
          exact hs.recv hle hn

end Whole

section Partial

/-- The calls go on, whatever is sent. -/
theorem run_of_feasible (t : Traffic) {events : List StreamEvent} {s : Stream}
    (h : Feasible s.pending.length events) : ∃ s', run (step t) s events = some s' := by
  induction events generalizing s with
  | nil => exact ⟨s, rfl⟩
  | cons e events ih =>
      cases e with
      | send =>
          have hlen : (s.pending ++ (t.packets s.sent).sendMsg).length =
              s.pending.length + MAX_BUF_LEN := by
            rw [List.length_append, PacketBuf.length_sendMsg]
          exact ih (s := ⟨s.sent + 1, s.pending ++ (t.packets s.sent).sendMsg, s.received⟩)
            (by rw [hlen]; exact h)
      | recv n =>
          obtain ⟨hpos, hmax, hle, hrest⟩ := h
          rw [← List.length_drop] at hrest
          obtain ⟨s', hs'⟩ := ih (s := ⟨s.sent, s.pending.drop n, s.received ++
            [(t.bufs s.received.length).recvMsg (s.pending.take n)
              ((List.length_take_le n s.pending).trans hmax)]⟩) hrest
          exact ⟨s', run_cons_eq_some.mpr ⟨_, dif_pos ⟨hpos, hmax, hle⟩, hs'⟩⟩

/-- What is received stays. -/
theorem received_prefix {events : List StreamEvent}
    (hrun : run (step t) s events = some s') : s.received <+: s'.received := by
  induction events generalizing s with
  | nil =>
      cases hrun
      exact List.prefix_rfl
  | cons e events ih =>
      obtain ⟨m, hm, hrest⟩ := run_cons_eq_some.mp hrun
      refine List.IsPrefix.trans ?_ (ih hrest)
      cases e with
      | send =>
          cases hm
          exact List.prefix_rfl
      | recv n =>
          obtain ⟨-, -, -, hn, rfl⟩ := step_recv hm
          exact List.prefix_append _ _

/-- Packets of ones, received into zeroed buffers. -/
def ones : Traffic where
  packets := fun _ => ⟨List.replicate MAXPACKETLEN 1, List.length_replicate⟩
  bufs := fun _ => ByteBuffer.zero MAXPACKETLEN

/-- A `recv` of less leaves the end of the buffer as it was. -/
theorem ne_of_recv_lt {data : List UInt8} (h : data.length ≤ MAX_BUF_LEN)
    (hlt : data.length < MAX_BUF_LEN) (i j : Nat) :
    (ones.bufs i).recvMsg data h ≠ ones.packets j := by
  intro heq
  have hlast := congrArg (fun b : PacketBuf => b.bytes.drop 1023) heq
  have hkeep : ((ones.bufs i).recvMsg data h).bytes.drop 1023 =
      (ByteBuffer.zero MAXPACKETLEN).bytes.drop 1023 := by
    refine ByteBuffer.drop_write_of_le _ _ ?_
    simp only [MAX_BUF_LEN] at hlt
    omega
  have hne : (ByteBuffer.zero MAXPACKETLEN).bytes.drop 1023 ≠
      (ones.packets j).bytes.drop 1023 := by
    rw [ones, ByteBuffer.zero, List.drop_replicate, List.drop_replicate]
    decide
  exact hne (hkeep.symm.trans hlast)

theorem not_inOrder_of_recv_lt {pre post : List StreamEvent} {n : Nat}
    (hn : n ≠ MAX_BUF_LEN) {s : Stream}
    (hrun : run (step ones) init (pre ++ .recv n :: post) = some s) : ¬ s.InOrder ones := by
  rw [run_append] at hrun
  obtain ⟨m, -, hrest⟩ := Option.bind_eq_some_iff.mp hrun
  obtain ⟨m', hm', hpost⟩ := run_cons_eq_some.mp hrest
  obtain ⟨-, hmax, hle, hlen, rfl⟩ := step_recv hm'
  obtain ⟨later, hlater⟩ := received_prefix hpost
  intro horder
  have hlt : (m.pending.take n).length < MAX_BUF_LEN := by
    rw [List.length_take]
    omega
  have hmem : (ones.bufs m.received.length).recvMsg (m.pending.take n) hlen ∈ s.received := by
    rw [← hlater]
    simp
  rw [horder] at hmem
  obtain ⟨j, -, hj⟩ := List.mem_map.mp hmem
  exact ne_of_recv_lt hlen hlt _ j hj.symm

end Partial

end Stream

/-- **The packets arrive in order, whatever they are, exactly when every `recv` returns a
whole packet.** -/
theorem framed_iff (d : Delivery) : d.Framed ↔ d.Whole := by
  constructor
  · intro h n hn
    by_contra hne
    obtain ⟨pre, post, hevents⟩ := List.append_of_mem hn
    obtain ⟨s, hs⟩ := Stream.run_of_feasible Stream.ones (s := Stream.init) d.feasible
    have horder := h Stream.ones s hs
    rw [hevents] at hs
    exact Stream.not_inOrder_of_recv_lt hne hs horder
  · intro h t s hs
    exact (Stream.aligned_of_whole h Stream.aligned_init hs).received

/-- A `recv` returns the 16 bytes of the header, with the rest still to come. -/
def headerFirst : Delivery where
  events := [.send, .recv 16]
  feasible := by
    simp only [Feasible]
    decide

/-- The request `SET 7` with the value `b`, received where `SET 5` with `a` was before. -/
def overwritten : Traffic where
  packets := fun _ => PacketBuf.pack (ByteBuffer.zero MAXPACKETLEN) ⟨0, CMD.SET.word, 7, 0⟩ [98]
  bufs := fun _ => PacketBuf.pack (ByteBuffer.zero MAXPACKETLEN) ⟨0, CMD.SET.word, 5, 0⟩ [97]

/-- The buffer has the key of one packet and the value of the other. -/
theorem header_mixed :
    ((run (Stream.step overwritten) Stream.init headerFirst.events).map fun s =>
        s.received.map PacketBuf.packet) = some [some ⟨.SET, 7, 0, [97]⟩] ∧
      ¬ headerFirst.Framed := by
  have hmixed : ((run (Stream.step overwritten) Stream.init headerFirst.events).map fun s =>
      s.received.map PacketBuf.packet) = some [some ⟨.SET, 7, 0, [97]⟩] := by
    decide +kernel
  refine ⟨hmixed, fun h => ?_⟩
  obtain ⟨s, hs⟩ := Stream.run_of_feasible overwritten (s := Stream.init) headerFirst.feasible
  rw [hs, Option.map_some, Option.some_inj, h overwritten s hs, List.map_map] at hmixed
  have hmem : some ⟨.SET, 7, 0, [97]⟩ ∈
      (List.range s.received.length).map (PacketBuf.packet ∘ overwritten.packets) := by
    rw [hmixed]
    exact List.mem_singleton_self _
  obtain ⟨j, -, hj⟩ := List.mem_map.mp hmem
  have hsent : PacketBuf.packet (overwritten.packets 0) = some ⟨.SET, 7, 0, [98]⟩ := by
    decide +kernel
  have hne := hsent.symm.trans hj
  exact absurd hne (by decide)

end DistributedDB
