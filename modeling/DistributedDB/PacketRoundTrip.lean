import DistributedDB.Wire

/-!
# Packets of any length

`Append` of `dbProtocol.c` on a block of `len` bytes, where `len` is any `int`.  Both of its
tests compare an `int` with a `size_t`, so a negative value stands for a very large one; the
test on the size field refuses a buffer that has something appended already.

**Results.**
* `PacketBuf.appendLen_of_nonneg`, `PacketBuf.appendLen_of_neg`: on a length that is not
  negative it is the function on the bytes, and on a negative one it refuses.
* `PacketBuf.getHeader_append_of_le`: the header after an `Append` that fits.
* `PacketBuf.packet_round_trip`: encoding and decoding are inverse, and bounded.
-/

namespace DistributedDB

/-- The conversion from `int` to `size_t`. -/
def sizeT (i : Int32) : Nat :=
  (i.toInt % 18446744073709551616).toNat

/-- The first bytes at an address. -/
def block (data : Nat → UInt8) (len : Nat) : List UInt8 :=
  (List.range len).map data

@[simp] theorem length_block (data : Nat → UInt8) (len : Nat) :
    (block data len).length = len := by
  rw [block, List.length_map, List.length_range]

section Conversions

variable (x : UInt32) {len : Int32}

/-- A size field that is not small is refused, whatever its sign. -/
theorem sizeT_toInt32_gt_iff : sizeT x.toInt32 > HEADERSIZE ↔ x.toNat > HEADERSIZE := by
  have hx := x.toNat_lt
  rw [sizeT, toInt_toInt32, HEADERSIZE]
  split <;> omega

theorem sizeT_toInt32_of_le (h : x.toNat ≤ HEADERSIZE) : sizeT x.toInt32 = x.toNat := by
  rw [HEADERSIZE] at h
  rw [sizeT, toInt_toInt32, if_pos (by omega)]
  omega

theorem sizeT_of_nonneg (h : 0 ≤ len.toInt) : sizeT len = len.toInt.toNat := by
  have hlen := len.toInt_lt
  rw [sizeT]
  omega

theorem sizeT_of_neg (h : len.toInt < 0) : sizeT len > APPENDSIZE := by
  have hlen := len.le_toInt
  rw [sizeT, APPENDSIZE, MAXPACKETLEN, HEADERSIZE]
  omega

/-- The sum that is written into the size field. -/
theorem toUInt32_add (h : 0 ≤ len.toInt) :
    (x.toInt32 + len).toUInt32 = x + UInt32.ofNat len.toInt.toNat := by
  have hlen := len.toInt_lt
  have hword : len.toUInt32 = UInt32.ofNat len.toInt.toNat := by
    have hle : (0 : Int32) ≤ len := Int32.le_iff_toInt_le.mpr h
    apply UInt32.toNat_inj.mp
    rw [Int32.toNat_toUInt32_of_le hle, UInt32.toNat_ofNat']
    show len.toInt.toNat = len.toInt.toNat % 4294967296
    omega
  rw [Int32.toUInt32_add, hword, UInt32.toUInt32_toInt32]

end Conversions

namespace PacketBuf

/-- `Append` with the length as the code takes it. -/
def appendLen (buf : PacketBuf) (data : Nat → UInt8) (len : Int32) : Int × PacketBuf :=
  let size := buf.getHeader.size.toInt32
  if hsize : sizeT size > HEADERSIZE then (-1, buf)
  else if hlen : sizeT len > APPENDSIZE then (-1, buf)
  else
    let copied := buf.write (sizeT size) (block data (sizeT len)) (by
      simp only [length_block, HEADERSIZE, APPENDSIZE, MAXPACKETLEN] at *
      omega)
    (0, copied.write 0 (encode32 (size + len).toUInt32) (by
      rw [length_encode32]
      decide))

variable (buf : PacketBuf) (hd : DBPacketHeader) (data : Nat → UInt8) (len : Int32)

/-- **On a length that is not negative, it is the function on the bytes.** -/
theorem appendLen_of_nonneg (h : 0 ≤ len.toInt) :
    buf.appendLen data len = buf.append (block data len.toInt.toNat) := by
  have hlen := sizeT_of_nonneg h
  unfold appendLen append
  simp only [sizeT_toInt32_gt_iff, hlen, length_block, toUInt32_add _ h]
  split
  case isTrue => rfl
  case isFalse hsize =>
      simp only [sizeT_toInt32_of_le _ (not_lt.mp hsize)]

/-- **A negative length is refused.** -/
theorem appendLen_of_neg (h : len.toInt < 0) : buf.appendLen data len = (-1, buf) := by
  have hlen := sizeT_of_neg h
  simp only [appendLen, hlen, dite_true, dite_eq_ite, ite_self]

/-- The header after data that fits. -/
theorem getHeader_append_of_le {data : List UInt8} (hlen : data.length ≤ APPENDSIZE) :
    ((buf.writeHeader hd).append data).2.getHeader =
      { hd with size := UInt32.ofNat (HEADERSIZE + data.length) } := by
  obtain ⟨size, hheader⟩ := getHeader_append buf hd data
  obtain ⟨h, h', heq⟩ := append_writeHeader_of_le buf hd hlen
  have hsize : ((buf.writeHeader hd).append data).2.getHeader.size =
      UInt32.ofNat (HEADERSIZE + data.length) := by
    have hword : ByteBuffer.word ((buf.writeHeader hd).append data).2 0 =
        decode32 (encode32 (UInt32.ofNat HEADERSIZE + UInt32.ofNat data.length)) := by
      rw [heq]
      exact ByteBuffer.word_write _ h' (k := 0) (length_encode32 _).ge
    rw [UInt32.ofNat_add]
    exact hword.trans (decode32_encode32 _)
  rw [hheader] at hsize
  have hvalue : size = UInt32.ofNat (HEADERSIZE + data.length) := hsize
  rw [hheader, hvalue]

/-- Data that fits changes no byte behind it, and neither does `WriteHeader`. -/
theorem drop_append {data : List UInt8} (hlen : data.length ≤ APPENDSIZE) :
    ((buf.writeHeader hd).append data).2.bytes.drop (HEADERSIZE + data.length) =
      buf.bytes.drop (HEADERSIZE + data.length) := by
  obtain ⟨h, h', heq⟩ := append_writeHeader_of_le buf hd hlen
  have hbehind : 0 + 4 ≤ HEADERSIZE + data.length := by
    rw [HEADERSIZE]
    omega
  have hheader : 0 + ({ hd with size := UInt32.ofNat HEADERSIZE } : DBPacketHeader).bytes.length ≤
      HEADERSIZE + data.length := by
    rw [DBPacketHeader.length_bytes]
    omega
  rw [heq, ByteBuffer.drop_write_of_le _ h' hbehind, ByteBuffer.drop_write_of_le _ h le_rfl]
  exact ByteBuffer.drop_write_of_le buf (DBPacketHeader.fits _) hheader

/-- A buffer that has something appended refuses every further `Append`. -/
theorem appendLen_refused (hsize : buf.getHeader.size.toNat > HEADERSIZE) :
    buf.appendLen data len = (-1, buf) := by
  have hword := (sizeT_toInt32_gt_iff _).mpr hsize
  simp only [appendLen, hword, dite_true]

/-- One `Append` after the other: the results, and the buffer at the end. -/
def appends (buf : PacketBuf) : List ((Nat → UInt8) × Int32) → List Int × PacketBuf
  | [] => ([], buf)
  | (data, len) :: rest =>
      let r := buf.appendLen data len
      let rs := appends r.2 rest
      (r.1 :: rs.1, rs.2)

theorem appends_refused (blocks : List ((Nat → UInt8) × Int32))
    (hsize : buf.getHeader.size.toNat > HEADERSIZE) :
    buf.appends blocks = (List.replicate blocks.length (-1), buf) := by
  induction blocks with
  | nil => rfl
  | cons b blocks ih =>
      rw [appends, appendLen_refused buf b.1 b.2 hsize]
      simp only [ih, List.length_cons, List.replicate_succ]

/-- An `Append` after `WriteHeader` succeeds on the lengths that fit. -/
theorem appendLen_writeHeader :
    (buf.writeHeader hd).appendLen data len =
      if 0 ≤ len.toInt ∧ len.toInt ≤ (APPENDSIZE : Int) then
        (0, ((buf.writeHeader hd).append (block data len.toInt.toNat)).2)
      else (-1, buf.writeHeader hd) := by
  split
  case isTrue hfits =>
      have hle : (block data len.toInt.toNat).length ≤ APPENDSIZE := by
        rw [length_block]
        omega
      obtain ⟨h, h', heq⟩ := append_writeHeader_of_le buf hd hle
      rw [appendLen_of_nonneg _ _ _ hfits.1, heq]
  case isFalse hnot =>
      rcases lt_or_ge len.toInt 0 with hneg | hnonneg
      · exact appendLen_of_neg _ _ _ hneg
      · rw [appendLen_of_nonneg _ _ _ hnonneg]
        refine append_writeHeader_of_lt buf hd ?_
        rw [length_block]
        omega

/-- **Packets of any length are read back as they were written, and nothing else is
touched.** -/
theorem packet_round_trip :
    (((buf.writeHeader hd).appendLen data len).1 = 0 ↔
      0 ≤ len.toInt ∧ len.toInt ≤ (APPENDSIZE : Int)) ∧
    (((buf.writeHeader hd).appendLen data len).1 = 0 →
      ((buf.writeHeader hd).appendLen data len).2.getHeader =
        ⟨UInt32.ofNat (16 + len.toInt.toNat), hd.cmd, hd.key, hd.version⟩ ∧
      ((buf.writeHeader hd).appendLen data len).2.read HEADERSIZE len.toInt.toNat =
        block data len.toInt.toNat ∧
      ((buf.writeHeader hd).appendLen data len).2.bytes.drop (16 + len.toInt.toNat) =
        buf.bytes.drop (16 + len.toInt.toNat) ∧
      (len.toInt ≠ 0 → ∀ blocks : List ((Nat → UInt8) × Int32),
        ((buf.writeHeader hd).appendLen data len).2.appends blocks =
          (List.replicate blocks.length (-1),
            ((buf.writeHeader hd).appendLen data len).2))) ∧
    (((buf.writeHeader hd).appendLen data len).1 ≠ 0 →
      (buf.writeHeader hd).appendLen data len = (-1, buf.writeHeader hd)) := by
  rw [appendLen_writeHeader]
  split
  case isFalse hnot =>
      have hfail : (-1 : Int) ≠ 0 := by decide
      exact ⟨iff_of_false hfail hnot, fun h => absurd h hfail, fun _ => rfl⟩
  case isTrue hfits =>
      have hlen := length_block data len.toInt.toNat
      have hle : (block data len.toInt.toNat).length ≤ APPENDSIZE := by omega
      have hheader := getHeader_append_of_le buf hd hle
      rw [hlen] at hheader
      refine ⟨iff_of_true rfl hfits, fun _ => ⟨hheader, ?_, ?_, fun hne blocks => ?_⟩,
        fun h => absurd rfl h⟩
      · have hread := read_append buf hd hle
        rwa [hlen] at hread
      · have hdrop := drop_append buf hd hle
        rwa [hlen] at hdrop
      · refine appends_refused _ blocks ?_
        simp only [hheader, HEADERSIZE, APPENDSIZE, MAXPACKETLEN, UInt32.toNat_ofNat'] at hfits ⊢
        omega

/-- A block of twelve bytes. -/
theorem packet_round_trip_twelve :
    ((writeHeader (ByteBuffer.zero MAXPACKETLEN) ⟨0, CMD.SET.word, 100, 7⟩).appendLen
        (fun _ => 72) 12).2.getHeader = ⟨28, CMD.SET.word, 100, 7⟩ ∧
    (writeHeader (ByteBuffer.zero MAXPACKETLEN) ⟨0, CMD.SET.word, 100, 7⟩).appendLen
        (fun _ => 72) (-1) = (-1, writeHeader (ByteBuffer.zero MAXPACKETLEN)
          ⟨0, CMD.SET.word, 100, 7⟩) := by
  have hspec := packet_round_trip (ByteBuffer.zero MAXPACKETLEN) ⟨0, CMD.SET.word, 100, 7⟩
    (fun _ => 72) 12
  have hneg := packet_round_trip (ByteBuffer.zero MAXPACKETLEN) ⟨0, CMD.SET.word, 100, 7⟩
    (fun _ => 72) (-1)
  exact ⟨(hspec.2.1 (hspec.1.mpr (by decide))).1, hneg.2.2 fun h => absurd (hneg.1.mp h)
    (by decide)⟩

end PacketBuf

end DistributedDB
