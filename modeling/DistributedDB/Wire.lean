import DistributedDB.Library.ByteBuffer
import DistributedDB.Protocol
import DistributedDB.TcDB

/-!
# Packets as bytes

`WriteHeader`, `GetHeader`, `Append` and `GetAppend` of `dbProtocol.c` on a packet buffer,
and what `SendMsg` and `RecvMsg` of `Socket.c` do with it.  Every `int` of the header is
a word of four bytes.  `Append` refuses data that does not fit, or a buffer that has
something appended already; its callers do not look at the result.

**Results.**
* `getHeader_append`, `getAppend_pack`: what a packed buffer holds, whatever it held
  before.
* `getAppend_pack_of_lt`: after a refused `Append` the old bytes are the payload.
* `packet_pack`: a packet whose string fits is the one that is read back.
-/

namespace DistributedDB

def MAX_BUF_LEN : Nat := 1024

/-- `char buf[MAXPACKETLEN]`. -/
abbrev PacketBuf := ByteBuffer MAXPACKETLEN

structure DBPacketHeader where
  size : UInt32
  cmd : UInt32
  key : UInt32
  version : UInt32
deriving DecidableEq, Repr

/-- The header in memory. -/
def DBPacketHeader.bytes (hd : DBPacketHeader) : List UInt8 :=
  encode32 hd.size ++ (encode32 hd.cmd ++ (encode32 hd.key ++ encode32 hd.version))

@[simp] theorem DBPacketHeader.length_bytes (hd : DBPacketHeader) :
    hd.bytes.length = HEADERSIZE := rfl

theorem DBPacketHeader.fits (hd : DBPacketHeader) :
    0 + hd.bytes.length ≤ MAXPACKETLEN := by
  rw [length_bytes]
  decide

/-- The enumerator as it stands in a header. -/
def CMD.word (cmd : CMD) : UInt32 :=
  UInt32.ofNat cmd.code

namespace PacketBuf

/-- `WriteHeader`. -/
def writeHeader (buf : PacketBuf) (header : DBPacketHeader) : PacketBuf :=
  let hBuf : DBPacketHeader := { header with size := UInt32.ofNat HEADERSIZE }
  buf.write 0 hBuf.bytes hBuf.fits

/-- `GetHeader`. -/
def getHeader (buf : PacketBuf) : DBPacketHeader :=
  ⟨buf.word 0, buf.word 4, buf.word 8, buf.word 12⟩

/-- `Append`: the result and the buffer. -/
def append (buf : PacketBuf) (data : List UInt8) : Int × PacketBuf :=
  let size := buf.getHeader.size
  if hsize : size.toNat > HEADERSIZE then (-1, buf)
  else if hlen : data.length > APPENDSIZE then (-1, buf)
  else
    let copied := buf.write size.toNat data (by
      simp only [HEADERSIZE, APPENDSIZE, MAXPACKETLEN] at *
      omega)
    (0, copied.write 0 (encode32 (size + UInt32.ofNat data.length)) (by
      rw [length_encode32]
      decide))

/-- The string at `GetAppend`. -/
def getAppend (buf : PacketBuf) : Option dbValue :=
  buf.cstring HEADERSIZE

/-- `SendMsg`: the bytes that go out. -/
def sendMsg (buf : PacketBuf) : List UInt8 :=
  buf.read 0 MAX_BUF_LEN

/-- `RecvMsg`, when `recv` returns these bytes. -/
def recvMsg (buf : PacketBuf) (received : List UInt8) (h : received.length ≤ MAX_BUF_LEN) :
    PacketBuf :=
  buf.write 0 received (by
    rw [Nat.zero_add]
    exact h)

/-- `WriteHeader`, then `Append` of a string with its NUL byte. -/
def pack (buf : PacketBuf) (header : DBPacketHeader) (s : dbValue) : PacketBuf :=
  ((buf.writeHeader header).append (s ++ [0])).2

variable (buf : PacketBuf) (hd : DBPacketHeader)

theorem getHeader_write (h : 0 + hd.bytes.length ≤ MAXPACKETLEN) :
    getHeader (buf.write 0 hd.bytes h) = hd := by
  have hword : ∀ k, k + 4 ≤ HEADERSIZE → ByteBuffer.word (buf.write 0 hd.bytes h) k =
      decode32 ((hd.bytes.drop k).take 4) := by
    intro k hk
    have hk' := ByteBuffer.word_write buf h hk
    rwa [Nat.zero_add] at hk'
  have h0 : (hd.bytes.drop 0).take 4 = encode32 hd.size := rfl
  have h4 : (hd.bytes.drop 4).take 4 = encode32 hd.cmd := rfl
  have h8 : (hd.bytes.drop 8).take 4 = encode32 hd.key := rfl
  have h12 : (hd.bytes.drop 12).take 4 = encode32 hd.version := rfl
  rw [getHeader, hword 0 (by decide), hword 4 (by decide), hword 8 (by decide),
    hword 12 (by decide), h0, h4, h8, h12]
  simp only [decode32_encode32]

theorem getHeader_writeHeader :
    (buf.writeHeader hd).getHeader = { hd with size := UInt32.ofNat HEADERSIZE } :=
  getHeader_write buf _ (DBPacketHeader.fits _)

theorem size_writeHeader : (buf.writeHeader hd).getHeader.size = UInt32.ofNat HEADERSIZE := by
  rw [getHeader_writeHeader]

/-- `WriteHeader` leaves alone what stands behind the header. -/
theorem getAppend_writeHeader : (buf.writeHeader hd).getAppend = buf.getAppend :=
  ByteBuffer.cstring_write_of_le buf (DBPacketHeader.fits _) (by
    rw [DBPacketHeader.length_bytes, Nat.zero_add])

/-- A refused `Append` leaves the buffer as `WriteHeader` left it. -/
theorem append_writeHeader_of_lt {data : List UInt8} (hlen : APPENDSIZE < data.length) :
    (buf.writeHeader hd).append data = (-1, buf.writeHeader hd) := by
  have hsize : ¬ (UInt32.ofNat HEADERSIZE).toNat > HEADERSIZE := by decide
  simp only [append, size_writeHeader, hsize, dite_false, gt_iff_lt, hlen, dite_true]

/-- After `WriteHeader`, data that fits is put behind the header. -/
theorem append_writeHeader_of_le {data : List UInt8} (hlen : data.length ≤ APPENDSIZE) :
    ∃ (h : HEADERSIZE + data.length ≤ MAXPACKETLEN) (h' : 0 + 4 ≤ MAXPACKETLEN),
      (buf.writeHeader hd).append data =
        (0, ((buf.writeHeader hd).write HEADERSIZE data h).write 0
          (encode32 (UInt32.ofNat HEADERSIZE + UInt32.ofNat data.length)) h') := by
  have hsize : ¬ (UInt32.ofNat HEADERSIZE).toNat > HEADERSIZE := by decide
  refine ⟨by simp only [HEADERSIZE, APPENDSIZE, MAXPACKETLEN] at *; omega, by decide, ?_⟩
  simp only [append, size_writeHeader, hsize, dite_false, gt_iff_lt, not_lt.mpr hlen]
  rfl

/-- What is appended does not touch the other fields of the header. -/
theorem getHeader_append (data : List UInt8) :
    ∃ size, ((buf.writeHeader hd).append data).2.getHeader = { hd with size := size } := by
  refine ⟨((buf.writeHeader hd).append data).2.getHeader.size, ?_⟩
  have hfield : ∀ k, 4 ≤ k → k + 4 ≤ HEADERSIZE →
      ByteBuffer.word ((buf.writeHeader hd).append data).2 k =
        ByteBuffer.word (buf.writeHeader hd) k := by
    intro k hk hk'
    rcases le_or_gt data.length APPENDSIZE with hle | hlt
    · obtain ⟨h, h', heq⟩ := append_writeHeader_of_le buf hd hle
      rw [heq, ByteBuffer.word_write_of_ge _ h' (by rw [length_encode32]; omega),
        ByteBuffer.word_write_of_le _ h hk']
    · rw [append_writeHeader_of_lt buf hd hlt]
  have hheader := getHeader_writeHeader buf hd
  simp only [getHeader, DBPacketHeader.mk.injEq] at hheader ⊢
  obtain ⟨-, hcmd, hkey, hversion⟩ := hheader
  rw [hfield 4 (by decide) (by decide), hfield 8 (by decide) (by decide),
    hfield 12 (by decide) (by decide)]
  exact ⟨trivial, hcmd, hkey, hversion⟩

theorem getHeader_pack (s : dbValue) :
    ∃ size, (buf.pack hd s).getHeader = { hd with size := size } :=
  getHeader_append buf hd (s ++ [0])

/-- A string that fits is read back. -/
theorem getAppend_pack {s : dbValue} (hs : 0 ∉ s) (hlen : s.length + 1 ≤ APPENDSIZE) :
    (buf.pack hd s).getAppend = some s := by
  have hle : (s ++ [0]).length ≤ APPENDSIZE := by simpa using hlen
  obtain ⟨h, h', heq⟩ := append_writeHeader_of_le buf hd hle
  rw [pack, heq, getAppend,
    ByteBuffer.cstring_write_of_le _ h' (by rw [length_encode32]; decide),
    ByteBuffer.cstring_write _ hs h]

/-- A string that does not fit is not sent: the bytes behind the header stay. -/
theorem getAppend_pack_of_lt {s : dbValue} (hlen : APPENDSIZE < s.length + 1) :
    (buf.pack hd s).getAppend = buf.getAppend := by
  have hlt : APPENDSIZE < (s ++ [0]).length := by simpa using hlen
  rw [pack, append_writeHeader_of_lt buf hd hlt]
  exact getAppend_writeHeader buf hd

/-- Data that fits is read back. -/
theorem read_append {data : List UInt8} (hlen : data.length ≤ APPENDSIZE) :
    ((buf.writeHeader hd).append data).2.read HEADERSIZE data.length = data := by
  obtain ⟨h, h', heq⟩ := append_writeHeader_of_le buf hd hlen
  have hsize : 0 + (encode32 (UInt32.ofNat HEADERSIZE + UInt32.ofNat data.length)).length ≤
      HEADERSIZE := by
    rw [length_encode32]
    decide
  rw [heq, ByteBuffer.read, ByteBuffer.drop_write_of_le _ h' hsize]
  exact ByteBuffer.read_write _ h

theorem length_sendMsg : buf.sendMsg.length = MAX_BUF_LEN := by
  rw [sendMsg, ByteBuffer.read, List.drop_zero, List.length_take, buf.length_eq]
  rfl

/-- A packet that arrives whole replaces the buffer. -/
theorem recvMsg_sendMsg (packet : PacketBuf) :
    buf.recvMsg packet.sendMsg packet.length_sendMsg.le = packet := by
  apply ByteBuffer.ext
  have hall : packet.sendMsg = packet.bytes := by
    rw [sendMsg, ByteBuffer.read, List.drop_zero]
    exact List.take_of_length_le packet.length_eq.le
  exact (ByteBuffer.bytes_write_all buf packet.length_sendMsg _).trans hall

end PacketBuf

/-- The enumerator with a value. -/
def CMD.ofWord (w : UInt32) : Option CMD :=
  if w.toNat ≤ CMD.UPDATE_VERSION.code then some (CMD.ofNat w.toNat) else none

theorem CMD.ofWord_word (cmd : CMD) : CMD.ofWord cmd.word = some cmd := by
  cases cmd <;> rfl

/-- The header that is written for a packet. -/
def DBPacket.header (p : DBPacket) : DBPacketHeader :=
  ⟨0, p.cmd.word, p.key, toUnsigned p.version⟩

/-- The packet in a buffer. -/
def PacketBuf.packet (buf : PacketBuf) : Option DBPacket :=
  match CMD.ofWord buf.getHeader.cmd, buf.getAppend with
  | some cmd, some append =>
      some ⟨cmd, buf.getHeader.key, buf.getHeader.version.toInt32.toInt, append⟩
  | _, _ => none

/-- The value of an `unsigned` that is converted to `int`. -/
theorem toInt_toInt32 (x : UInt32) :
    x.toInt32.toInt = if x.toNat < 2147483648 then (x.toNat : Int) else x.toNat - 4294967296 := by
  have hx := x.toNat_lt
  rw [Int32.toInt, UInt32.toBitVec_toInt32, BitVec.toInt_eq_toNat_bmod, UInt32.toNat_toBitVec,
    Int.bmod]
  split <;> split <;> omega

/-- An `int` survives the conversion to `unsigned` and back. -/
theorem toInt_toInt32_toUnsigned {i : Int} (hlo : -2147483648 ≤ i) (hhi : i < 2147483648) :
    (toUnsigned i).toInt32.toInt = i := by
  have hnat : ((toUnsigned i).toNat : Int) = i % 4294967296 := by
    rw [toUnsigned, UInt32.ofInt, UInt32.toNat_ofNat']
    omega
  rw [Int32.toInt, UInt32.toBitVec_toInt32, BitVec.toInt_eq_toNat_bmod, UInt32.toNat_toBitVec,
    hnat, Int.bmod]
  omega

/-- **A packet whose string fits is read back.** -/
theorem PacketBuf.packet_pack (buf : PacketBuf) (p : DBPacket)
    (hlo : -2147483648 ≤ p.version) (hhi : p.version < 2147483648)
    (hs : 0 ∉ p.append) (hlen : p.append.length + 1 ≤ APPENDSIZE) :
    (buf.pack p.header p.append).packet = some p := by
  obtain ⟨size, hheader⟩ := buf.getHeader_pack p.header p.append
  rw [packet, hheader, getAppend_pack _ _ hs hlen]
  simp only [DBPacket.header, CMD.ofWord_word, toInt_toInt32_toUnsigned hlo hhi]

end DistributedDB
