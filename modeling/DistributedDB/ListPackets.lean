import DistributedDB.Library.Layout
import DistributedDB.Membership
import DistributedDB.Wire

/-!
# The slave list in packets

How the master, the slaves and the clients exchange the list: `ADD_SLAVE`, `DEL_SLAVE` and
`GET_LIST` of `HandleRequest` and `NotifyAll` in `master.c`, `RegisterAndLoadSlaves`,
`ShutDownSlave` and `HandleMasterRequest` of `slave.c`, and `ReadCloudNodes` of `netdbapi.c`,
with the packets as bytes.  A `SlaveNode` and a `SlaveList` are copied as they stand in
memory; both ends are little-endian.

The requests come one after the other, as in `Registry`.  The variables that the code does
not set before it sends them, and the static buffer of `ExchangePacket`, hold anything.

**Results.**
* `SlaveNode.layout`, `SlaveList.layout`: the structures in memory, 16 and 520 bytes.
* `structAt_append`: a structure that fits a packet arrives.
* `WireRegistry.refines_registry`: over all runs, the processes that exchange packets do
  what `Registry` does with the values, and a client reads the master's list.
-/

namespace DistributedDB

open ArrayShift Run

/-- The values of a C `int`. -/
def IsInt (i : Int) : Prop :=
  -2147483648 ≤ i ∧ i < 2147483648

instance (i : Int) : Decidable (IsInt i) :=
  inferInstanceAs (Decidable (-2147483648 ≤ i ∧ i < 2147483648))

/-- An `int` in memory. -/
def intLayout : Layout Int :=
  Layout.word.via toUnsigned (fun w => w.toInt32.toInt) IsInt (fun _ _ => trivial)
    (fun _ hi => toInt_toInt32_toUnsigned hi.1 hi.2)

def SlaveNode.IsInt (sn : SlaveNode) : Prop :=
  DistributedDB.IsInt sn.ip ∧ DistributedDB.IsInt sn.port ∧ DistributedDB.IsInt sn.sock ∧
    DistributedDB.IsInt sn.key

/-- A `SlaveNode` in memory. -/
def SlaveNode.layout : Layout SlaveNode :=
  (intLayout.pair (intLayout.pair (intLayout.pair intLayout))).via
    (fun sn => (sn.ip, sn.port, sn.sock, sn.key))
    (fun t => ⟨t.1, t.2.1, t.2.2.1, t.2.2.2⟩) SlaveNode.IsInt (fun _ h => h) (fun _ _ => rfl)

/-- Every cell of the array, also behind the last node, has `int` fields. -/
def SlaveList.IsInt (slaves : SlaveList) : Prop :=
  slaves.num ≤ MAX_SLAVE_NUM ∧ ∀ i (hi : i < MAX_SLAVE_NUM), (slaves.nodes[i]).IsInt

/-- A `SlaveList` in memory. -/
def SlaveList.layout : Layout SlaveList :=
  (Layout.word.pair (intLayout.pair (SlaveNode.layout.array MAX_SLAVE_NUM))).via
    (fun slaves => (slaves.version, (slaves.num : Int), slaves.nodes))
    (fun t => ⟨t.1, t.2.1.toNat, t.2.2⟩) SlaveList.IsInt
    (by
      rintro slaves ⟨hnum, hnodes⟩
      refine ⟨trivial, ⟨?_, ?_⟩, hnodes⟩
      · exact le_trans (by decide) (Int.natCast_nonneg _)
      · exact lt_of_le_of_lt (Int.ofNat_le.mpr hnum) (by decide))
    (fun _ _ => rfl)

example : SlaveNode.layout.size = 16 ∧ SlaveList.layout.size = 520 := ⟨rfl, rfl⟩

namespace PacketBuf

/-- `*(T *)GetAppend(phd)`. -/
def structAt {α : Type} (c : Layout α) (buf : PacketBuf) : α :=
  c.decode (buf.bytes.drop HEADERSIZE)

/-- `phd->key`, an `int`. -/
def intKey (buf : PacketBuf) : Int :=
  buf.getHeader.key.toInt32.toInt

/-- **A structure that fits a packet arrives**, whatever the buffer held before. -/
theorem structAt_append {α : Type} (c : Layout α) (buf : PacketBuf) (hd : DBPacketHeader) {a : α}
    (ha : c.Valid a) (hfit : c.size ≤ APPENDSIZE) :
    structAt c ((buf.writeHeader hd).append (c.encode a)).2 = a := by
  have hlen : (c.encode a).length ≤ APPENDSIZE := by rwa [c.length_encode]
  obtain ⟨h, h', heq⟩ := append_writeHeader_of_le buf hd hlen
  have hsize : 0 + (encode32 (UInt32.ofNat HEADERSIZE +
      UInt32.ofNat (c.encode a).length)).length ≤ HEADERSIZE := by
    rw [length_encode32]
    decide
  rw [structAt, heq, ByteBuffer.drop_write_of_le _ h' hsize, ByteBuffer.drop_write _ h,
    c.decode_append a ha]

theorem intKey_append (buf : PacketBuf) (hd : DBPacketHeader) (data : List UInt8) :
    intKey ((buf.writeHeader hd).append data).2 = hd.key.toInt32.toInt := by
  obtain ⟨size, hheader⟩ := getHeader_append buf hd data
  rw [intKey, hheader]

theorem cmd_append (buf : PacketBuf) (hd : DBPacketHeader) (data : List UInt8) :
    ((buf.writeHeader hd).append data).2.getHeader.cmd = hd.cmd := by
  obtain ⟨size, hheader⟩ := getHeader_append buf hd data
  rw [hheader]

end PacketBuf

section Shifts

variable {α : Type} [Inhabited α] {n : Nat} {P : α → Prop}

/-- What holds of every cell holds after a write of such a value. -/
theorem forall_cell_set {xs : Vector α n} (hxs : ∀ j, P (cell xs j)) (i : Nat) {a : α}
    (ha : P a) :
    ∀ j, P (cell (xs.setIfInBounds i a) j) := by
  intro j
  rw [cell_set]
  split
  · exact ha
  · exact hxs j

/-- The loops only copy cells. -/
theorem forall_cell_shiftUp {xs : Vector α n} (hxs : ∀ j, P (cell xs j)) (first count : Nat) :
    ∀ j, P (cell (shiftUp xs first count) j) := by
  induction count generalizing xs with
  | zero => exact hxs
  | succ count ih => exact ih (forall_cell_set hxs _ (hxs _))

theorem forall_cell_shiftDown {xs : Vector α n} (hxs : ∀ j, P (cell xs j)) (first count : Nat) :
    ∀ j, P (cell (shiftDown xs first count) j) := by
  induction count generalizing xs first with
  | zero => exact hxs
  | succ count ih => exact ih (forall_cell_set hxs _ (hxs _)) _

end Shifts

section Lists

variable {slaves : SlaveList}

theorem SlaveList.isInt_iff : slaves.IsInt ↔
    slaves.num ≤ MAX_SLAVE_NUM ∧ ∀ j, (slaves.node j).IsInt := by
  have hcell : ∀ i (hi : i < MAX_SLAVE_NUM), slaves.node i = slaves.nodes[i] := by
    intro i hi
    rw [SlaveList.node, cell, Vector.getElem?_eq_getElem hi, Option.getD_some]
  constructor
  · rintro ⟨hnum, hnodes⟩
    refine ⟨hnum, fun j => ?_⟩
    rcases Nat.lt_or_ge j MAX_SLAVE_NUM with hj | hj
    · rw [hcell j hj]
      exact hnodes j hj
    · rw [SlaveList.node, cell, Vector.getElem?_eq_none hj, Option.getD_none]
      exact ⟨by decide, by decide, by decide, by decide⟩
  · rintro ⟨hnum, hnodes⟩
    exact ⟨hnum, fun i hi => hcell i hi ▸ hnodes i⟩

theorem isInt_empty : SlaveList.empty.IsInt := by
  rw [SlaveList.isInt_iff]
  refine ⟨Nat.zero_le _, fun j => ?_⟩
  have hdefault : SlaveList.empty.node j = default := by
    rw [SlaveList.node, cell, SlaveList.empty, Vector.getElem?_replicate]
    split <;> rfl
  rw [hdefault]
  exact ⟨by decide, by decide, by decide, by decide⟩

/-- A remainder by `MAX_KEY` is an `int`. -/
theorem isInt_tmod (i : Int) : IsInt (i.tmod MAX_KEY) := by
  have habs := Int.natAbs_tmod i MAX_KEY
  have hlt : i.natAbs % (MAX_KEY : Int).natAbs < 4000 := Nat.mod_lt _ (by decide)
  unfold IsInt
  omega

theorem SlaveList.IsInt.addToSlaveList (h : slaves.IsInt) (hmax : slaves.num < MAX_SLAVE_NUM)
    {sn : SlaveNode} (hsn : sn.IsInt) (rand : Nat) : (addToSlaveList slaves sn rand).1.IsInt := by
  rw [SlaveList.isInt_iff] at h ⊢
  refine ⟨by rw [num_addToSlaveList]; exact hmax, ?_⟩
  obtain ⟨hip, hport, hsock, -⟩ := hsn
  unfold DistributedDB.addToSlaveList
  split
  case isTrue =>
      refine forall_cell_set h.2 0 ⟨hip, hport, hsock, ?_⟩
      have hlt : rand % MAX_KEY < 4000 := Nat.mod_lt _ (by decide)
      unfold DistributedDB.IsInt
      dsimp only
      omega
  case isFalse =>
      exact forall_cell_set (forall_cell_shiftUp h.2 _ _) _ ⟨hip, hport, hsock, isInt_tmod _⟩

theorem SlaveList.IsInt.delFromSlaveList (h : slaves.IsInt) (pos : Nat) :
    (delFromSlaveList slaves pos).IsInt := by
  rw [SlaveList.isInt_iff] at h ⊢
  exact ⟨le_trans (Nat.sub_le _ _) h.1, forall_cell_shiftDown h.2 _ _⟩

end Lists

/-- What stands in memory that the code does not set before it sends a packet. -/
structure Unset where
  /-- The static buffer of `ExchangePacket`. -/
  szBuf : PacketBuf
  /-- `hd.key` and `hd.version` on the master's stack. -/
  key : UInt32
  version : UInt32
  /-- `hd.version` in `ExchangePacket`. -/
  hdVersion : UInt32

/-- The packet that `ExchangePacket` sends, with nothing appended. -/
def exchangePacketRequest (u : Unset) (cmd : CMD) (key : Int) : PacketBuf :=
  ((u.szBuf.writeHeader ⟨0, cmd.word, toUnsigned key, u.hdVersion⟩).append []).2

/-- `HandleMasterRequest` on a packet, as far as the list is concerned. -/
def Slave.handleMasterRequest (s : Slave) (packet : PacketBuf) : Slave :=
  match CMD.ofWord packet.getHeader.cmd with
  | some .NEW_SLAVE =>
      s.newSlave packet.intKey.toNat (packet.structAt SlaveNode.layout)
  | some .RM_SLAVE => s.rmSlave packet.intKey.toNat
  | _ => s

/-- The command of a notification. -/
def Notice.cmd : Notice → CMD
  | .newSlave => .NEW_SLAVE
  | .rmSlave => .RM_SLAVE

namespace WireRegistry

/-- The packet of `NotifyAll`. -/
def noticePacket (slaves : SlaveList) (pos : Nat) (notice : Notice) (version : UInt32) :
    PacketBuf :=
  ((PacketBuf.writeHeader (ByteBuffer.zero MAXPACKETLEN)
    ⟨0, notice.cmd.word, toUnsigned pos, version⟩).append
      (SlaveNode.layout.encode (slaves.node pos))).2

/-- One iteration of the loop of `NotifyAll`, with the slave's handling. -/
def notify (pos : Nat) (szBuf : PacketBuf) (r : Registry) (i : Nat) : Registry :=
  if i = pos then r
  else r.setProc (r.sock i) ((r.procs (r.sock i)).handleMasterRequest szBuf)

def notifyAll (r : Registry) (pos : Nat) (notice : Notice) (version : UInt32) : Registry :=
  (List.range r.slaves.num).foldl (notify pos (noticePacket r.slaves pos notice version)) r

/-- A reply with the list. -/
def packList (hd : DBPacketHeader) (slaves : SlaveList) : PacketBuf :=
  ((PacketBuf.writeHeader (ByteBuffer.zero MAXPACKETLEN) hd).append
    (SlaveList.layout.encode slaves)).2

/-- `HandleRequest` on a packet: the processes afterwards and the reply. -/
def handleRequest (r : Registry) (sock ip : Int) (rand : Nat) (u : Unset) (packet : PacketBuf) :
    Registry × PacketBuf :=
  match CMD.ofWord packet.getHeader.cmd with
  | some .GET_LIST => (r, packList ⟨0, CMD.GET_LIST_R.word, u.key, u.version⟩ r.slaves)
  | some .ADD_SLAVE =>
      let a := addToSlaveList r.slaves ⟨ip, packet.intKey, sock, 0⟩ rand
      let r := notifyAll { r with slaves := a.1 } a.2 .newSlave u.version
      (r, packList ⟨0, CMD.ADD_SLAVE_R.word, toUnsigned a.2, u.version⟩ r.slaves)
  | some .DEL_SLAVE =>
      let key := packet.intKey.toNat
      let r := notifyAll r key .rmSlave u.version
      ({ r with slaves := delFromSlaveList r.slaves key },
        PacketBuf.writeHeader (ByteBuffer.zero MAXPACKETLEN)
          ⟨0, CMD.DEL_SLAVE_R.word, u.key, u.version⟩)
  | _ => (r, ByteBuffer.zero MAXPACKETLEN)

/-- `RegisterAndLoadSlaves` of the process at `sock`; `none` when the assertion fails. -/
def registerAndLoadSlaves (r : Registry) (sock ip port : Int) (rand : Nat) (u : Unset) :
    Option Registry :=
  let (r, phd) := handleRequest r sock ip rand u (exchangePacketRequest u .ADD_SLAVE port)
  if phd.getHeader.cmd = CMD.ADD_SLAVE_R.word then
    some (r.setProc sock { r.procs sock with
      pos := phd.intKey.toNat
      slaves := phd.structAt SlaveList.layout })
  else none

/-- `ShutDownSlave` of the process at `sock`; `none` when the assertion fails. -/
def shutDownSlave (r : Registry) (sock : Int) (u : Unset) : Option Registry :=
  let (r, phd) := handleRequest r sock 0 0 u
    (exchangePacketRequest u .DEL_SLAVE (r.procs sock).pos)
  if phd.getHeader.cmd = CMD.DEL_SLAVE_R.word then some r else none

/-- `ReadCloudNodes` of a client; `none` when the assertion fails. -/
def readCloudNodes (r : Registry) (sock ip : Int) (rand : Nat) (u : Unset) : Option SlaveList :=
  let (_, phd) := handleRequest r sock ip rand u (exchangePacketRequest u .GET_LIST 0)
  if phd.getHeader.cmd = CMD.GET_LIST_R.word then some (phd.structAt SlaveList.layout) else none

/-- One request, with packets; the guards are those of `Registry.step`. -/
def step (r : Registry) (e : MasterRequest × Unset) : Option Registry :=
  match e.1 with
  | .addSlave sock ip port rand =>
      if r.slaves.num < MAX_SLAVE_NUM ∧ ¬ r.Live sock then
        registerAndLoadSlaves r sock ip port rand e.2
      else none
  | .delSlave sock => if r.Live sock then shutDownSlave r sock e.2 else none

end WireRegistry

/-- The fields of a request are `int` values. -/
def MasterRequest.IsInt : MasterRequest → Prop
  | .addSlave sock ip port _ =>
      DistributedDB.IsInt sock ∧ DistributedDB.IsInt ip ∧ DistributedDB.IsInt port
  | .delSlave _ => True

section Refinement

variable {r : Registry} {u : Unset}

theorem cmd_exchangePacketRequest (cmd : CMD) (key : Int) :
    CMD.ofWord (exchangePacketRequest u cmd key).getHeader.cmd = some cmd := by
  rw [exchangePacketRequest, PacketBuf.cmd_append, CMD.ofWord_word]

theorem intKey_exchangePacketRequest (cmd : CMD) {key : Int} (hkey : IsInt key) :
    (exchangePacketRequest u cmd key).intKey = key := by
  rw [exchangePacketRequest, PacketBuf.intKey_append, toInt_toInt32_toUnsigned hkey.1 hkey.2]

theorem isInt_of_le {n : Nat} (h : n ≤ MAX_SLAVE_NUM) : IsInt (n : Int) :=
  ⟨le_trans (by decide) (Int.natCast_nonneg n), lt_of_le_of_lt (Int.ofNat_le.mpr h) (by decide)⟩

/-- **A slave replays the change that the master notifies it of.** -/
theorem handleMasterRequest_noticePacket (s : Slave) {slaves : SlaveList} (h : slaves.IsInt)
    {pos : Nat} (hpos : pos ≤ MAX_SLAVE_NUM) (notice : Notice) (version : UInt32) :
    s.handleMasterRequest (WireRegistry.noticePacket slaves pos notice version) =
      s.handleNotice notice pos (slaves.node pos) := by
  have hint := isInt_of_le hpos
  have hkey : (WireRegistry.noticePacket slaves pos notice version).intKey.toNat = pos := by
    rw [WireRegistry.noticePacket, PacketBuf.intKey_append,
      toInt_toInt32_toUnsigned hint.1 hint.2]
    exact Int.toNat_natCast pos
  have hnode : (WireRegistry.noticePacket slaves pos notice version).structAt SlaveNode.layout =
      slaves.node pos :=
    PacketBuf.structAt_append SlaveNode.layout _ _ ((SlaveList.isInt_iff.mp h).2 pos) (by decide)
  have hcmd : CMD.ofWord
      (WireRegistry.noticePacket slaves pos notice version).getHeader.cmd = some notice.cmd := by
    rw [WireRegistry.noticePacket, PacketBuf.cmd_append, CMD.ofWord_word]
  unfold Slave.handleMasterRequest Slave.handleNotice
  rw [hcmd]
  cases notice with
  | newSlave =>
      dsimp only [Notice.cmd]
      rw [hkey, hnode]
  | rmSlave =>
      dsimp only [Notice.cmd]
      rw [hkey]

/-- The loop of `NotifyAll` with packets is the loop with values. -/
theorem notifyAll_eq (h : r.slaves.IsInt) {pos : Nat} (hpos : pos ≤ MAX_SLAVE_NUM)
    (notice : Notice) (version : UInt32) :
    WireRegistry.notifyAll r pos notice version = r.notifyAll pos notice := by
  have hloop : ∀ (is : List Nat) (t : Registry), t.slaves = r.slaves →
      is.foldl (WireRegistry.notify pos
          (WireRegistry.noticePacket r.slaves pos notice version)) t =
        is.foldl (Registry.notify pos notice) t := by
    intro is
    induction is with
    | nil => exact fun t _ => rfl
    | cons i is ih =>
        intro t ht
        have hstep : WireRegistry.notify pos
            (WireRegistry.noticePacket r.slaves pos notice version) t i =
              Registry.notify pos notice t i := by
          unfold WireRegistry.notify Registry.notify
          rw [handleMasterRequest_noticePacket _ h hpos, ht]
        rw [List.foldl_cons, List.foldl_cons, hstep]
        exact ih _ ((Registry.slaves_notify pos notice i).trans ht)
  exact hloop _ r rfl

theorem structAt_packList (hd : DBPacketHeader) {slaves : SlaveList} (h : slaves.IsInt) :
    (WireRegistry.packList hd slaves).structAt SlaveList.layout = slaves :=
  PacketBuf.structAt_append SlaveList.layout _ _ h (by decide)

theorem cmd_packList (hd : DBPacketHeader) (slaves : SlaveList) :
    (WireRegistry.packList hd slaves).getHeader.cmd = hd.cmd :=
  PacketBuf.cmd_append _ _ _

theorem intKey_packList (hd : DBPacketHeader) (slaves : SlaveList) :
    (WireRegistry.packList hd slaves).intKey = hd.key.toInt32.toInt :=
  PacketBuf.intKey_append _ _ _

/-- A client reads the master's list. -/
theorem readCloudNodes_eq (h : r.slaves.IsInt) (sock ip : Int) (rand : Nat) :
    WireRegistry.readCloudNodes r sock ip rand u = some r.slaves := by
  simp only [WireRegistry.readCloudNodes, WireRegistry.handleRequest, cmd_exchangePacketRequest,
    cmd_packList, structAt_packList _ h, if_true]

/-- A registration with packets. -/
theorem registerAndLoadSlaves_eq (hagrees : r.Agrees) (h : r.slaves.IsInt)
    (hmax : r.slaves.num < MAX_SLAVE_NUM) {sock ip port : Int} (hfresh : ¬ r.Live sock)
    (hsock : IsInt sock) (hip : IsInt ip) (hport : IsInt port) (rand : Nat) :
    WireRegistry.registerAndLoadSlaves r sock ip port rand u =
      some (r.addSlave sock ip port rand) := by
  have hnode : SlaveNode.layout.Valid ⟨ip, port, sock, 0⟩ :=
    ⟨hip, hport, hsock, show IsInt 0 by decide⟩
  have hlist := h.addToSlaveList hmax hnode rand
  have hpos : (addToSlaveList r.slaves ⟨ip, port, sock, 0⟩ rand).2 ≤ MAX_SLAVE_NUM :=
    (newpos_eq r.slaves hagrees.ring ⟨ip, port, sock, 0⟩ rand hmax).1.trans hmax.le
  have hslaves := hagrees.slaves_addSlave sock ip port rand hmax hfresh
  have hint := isInt_of_le hpos
  simp only [WireRegistry.registerAndLoadSlaves, WireRegistry.handleRequest,
    cmd_exchangePacketRequest, intKey_exchangePacketRequest _ hport, cmd_packList,
    intKey_packList, notifyAll_eq (r := { r with slaves := _ }) hlist hpos, if_true]
  have hnotified : (({ r with
      slaves := (addToSlaveList r.slaves ⟨ip, port, sock, 0⟩ rand).1 } : Registry).notifyAll
        (addToSlaveList r.slaves ⟨ip, port, sock, 0⟩ rand).2 .newSlave).slaves =
          (addToSlaveList r.slaves ⟨ip, port, sock, 0⟩ rand).1 := hslaves
  rw [hnotified, structAt_packList _ hlist, toInt_toInt32_toUnsigned hint.1 hint.2,
    Int.toNat_natCast]
  rfl

/-- A departure with packets. -/
theorem shutDownSlave_eq (hagrees : r.Agrees) (h : r.slaves.IsInt) {sock : Int}
    (hlive : r.Live sock) : WireRegistry.shutDownSlave r sock u = some (r.delSlave sock) := by
  obtain ⟨pos, hpos, rfl⟩ := hlive
  have hle : (r.procs (r.sock pos)).pos ≤ MAX_SLAVE_NUM := by
    rw [hagrees.pos_eq pos hpos]
    exact hpos.le.trans h.1
  simp only [WireRegistry.shutDownSlave, WireRegistry.handleRequest, cmd_exchangePacketRequest,
    intKey_exchangePacketRequest _ (isInt_of_le hle), Int.toNat_natCast, notifyAll_eq h hle,
    PacketBuf.getHeader_writeHeader, if_true]
  rfl

/-- What holds between two requests. -/
structure WireInv (r : Registry) : Prop where
  agrees : r.Agrees
  isInt : r.slaves.IsInt

theorem wireInv_init (procs : Int → Slave) : WireInv (Registry.init procs) :=
  ⟨Registry.agrees_init procs, isInt_empty⟩

theorem WireInv.step {request : MasterRequest} {r' : Registry} (h : WireInv r)
    (hrequest : request.IsInt) (hstep : r.step request = some r') : WireInv r' := by
  refine ⟨h.agrees.step hstep, ?_⟩
  cases request with
  | addSlave sock ip port rand =>
      simp only [Registry.step, Option.ite_none_right_eq_some] at hstep
      obtain ⟨⟨hmax, hfresh⟩, hstep⟩ := hstep
      obtain rfl := Option.some.inj hstep
      obtain ⟨hsock, hip, hport⟩ := hrequest
      rw [h.agrees.slaves_addSlave sock ip port rand hmax hfresh]
      exact h.isInt.addToSlaveList hmax ⟨hip, hport, hsock, show IsInt 0 by decide⟩ rand
  | delSlave sock =>
      simp only [Registry.step, Option.ite_none_right_eq_some] at hstep
      obtain rfl := Option.some.inj hstep.2
      have hslaves : (r.delSlave sock).slaves = delFromSlaveList r.slaves (r.procs sock).pos :=
        congrArg (delFromSlaveList · (r.procs sock).pos)
          (Registry.slaves_notifyAll (r.procs sock).pos .rmSlave h.agrees.sock_inj)
      rw [hslaves]
      exact h.isInt.delFromSlaveList _

/-- **A request with packets does what the request with values does.** -/
theorem WireInv.step_eq (h : WireInv r) {request : MasterRequest} (hrequest : request.IsInt)
    (u : Unset) : WireRegistry.step r (request, u) = r.step request := by
  cases request with
  | addSlave sock ip port rand =>
      obtain ⟨hsock, hip, hport⟩ := hrequest
      simp only [WireRegistry.step, Registry.step]
      split
      case isTrue hguard =>
          exact registerAndLoadSlaves_eq h.agrees h.isInt hguard.1 hguard.2 hsock hip hport rand
      case isFalse => rfl
  | delSlave sock =>
      simp only [WireRegistry.step, Registry.step]
      split
      case isTrue hlive => exact shutDownSlave_eq h.agrees h.isInt hlive
      case isFalse => rfl

/-- A run with packets is the run with values. -/
theorem WireInv.run_eq {events : List (MasterRequest × Unset)} (h : WireInv r)
    (hints : ∀ e ∈ events, e.1.IsInt) :
    run WireRegistry.step r events = run Registry.step r (events.map Prod.fst) ∧
      ∀ t, run WireRegistry.step r events = some t → WireInv t := by
  induction events generalizing r with
  | nil =>
      refine ⟨rfl, fun t ht => ?_⟩
      obtain rfl : r = t := Option.some.inj ht
      exact h
  | cons e events ih =>
      obtain ⟨he, hrest⟩ := List.forall_mem_cons.mp hints
      obtain ⟨request, u⟩ := e
      have hstep := h.step_eq he u
      cases hnext : r.step request with
      | none =>
          rw [hnext] at hstep
          simp only [run, hstep, hnext, List.map_cons, Option.bind_none, true_and]
          exact fun t ht => absurd ht.symm (Option.some_ne_none t)
      | some r' =>
          rw [hnext] at hstep
          simp only [run, hstep, hnext, List.map_cons, Option.bind_some]
          exact ih (h.step he hnext) hrest

end Refinement

/-- **The processes agree through packets alone.**  For every sequence of registrations and
departures with `int` addresses and sockets, whatever the memory holds that is not set: the
run with packets is possible exactly when the run with values is, it ends in the same
processes, and there every client reads the master's list. -/
theorem WireRegistry.refines_registry (procs : Int → Slave)
    (events : List (MasterRequest × Unset)) (hints : ∀ e ∈ events, e.1.IsInt) :
    run WireRegistry.step (Registry.init procs) events =
        run Registry.step (Registry.init procs) (events.map Prod.fst) ∧
      ∀ r, run WireRegistry.step (Registry.init procs) events = some r →
        ∀ sock ip rand u, WireRegistry.readCloudNodes r sock ip rand u = some r.slaves := by
  obtain ⟨heq, hinv⟩ := (wireInv_init procs).run_eq hints
  exact ⟨heq, fun r hr sock ip rand u => readCloudNodes_eq (hinv r hr).isInt sock ip rand⟩

/-- Memory that is not zero. -/
def unset : Unset where
  szBuf := ⟨List.replicate MAXPACKETLEN 255, List.length_replicate⟩
  key := 1
  version := 1
  hdVersion := 1

/-- Two registrations and the departure of the first slave. -/
def twoSlaves : List (MasterRequest × Unset) :=
  [(.addSlave 5 16777343 4001 7, unset), (.addSlave 6 16777343 4002 0, unset),
    (.delSlave 5, unset)]

theorem WireRegistry.refines_registry_twoSlaves :
    ∃ r, run WireRegistry.step
        (Registry.init fun _ => ⟨SlaveList.empty, 0, ⟨∅, none, none, none⟩⟩) twoSlaves =
          some r ∧
      r.slaves.toList = [⟨16777343, 4002, 6, 2007⟩] ∧
      WireRegistry.readCloudNodes r 9 0 0 unset = some r.slaves := by
  have hints : ∀ e ∈ twoSlaves, e.1.IsInt := by
    intro e he
    simp only [twoSlaves, List.mem_cons, List.not_mem_nil, or_false] at he
    rcases he with rfl | rfl | rfl
    · exact ⟨by decide, by decide, by decide⟩
    · exact ⟨by decide, by decide, by decide⟩
    · trivial
  obtain ⟨heq, hreads⟩ := WireRegistry.refines_registry
    (fun _ => ⟨SlaveList.empty, 0, ⟨∅, none, none, none⟩⟩) twoSlaves hints
  have hmap : (run Registry.step
      (Registry.init fun _ => ⟨SlaveList.empty, 0, ⟨∅, none, none, none⟩⟩)
        (twoSlaves.map Prod.fst)).map (fun r => r.slaves.toList) =
          some [⟨16777343, 4002, 6, 2007⟩] := by
    decide +kernel
  obtain ⟨r, hrun, hlist⟩ := Option.map_eq_some_iff.mp hmap
  have hwire := heq.trans hrun
  exact ⟨r, hwire, hlist, hreads r hwire 9 0 0 unset⟩

end DistributedDB
