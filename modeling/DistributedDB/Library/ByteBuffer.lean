import Mathlib.Data.List.TakeWhile
import Mathlib.Tactic.Common

/-!
# Byte buffers

Buffers of a fixed number of bytes, written at an offset, with little-endian words of
four bytes and strings that end at the first NUL byte.  A write takes the proof that it
fits.  Reading a string gives nothing when no NUL byte follows in the buffer.

**Results.**
* `decode32_encode32`: a word survives being stored.
* `read_write`, `word_write`, `read_write_of_le`, `drop_write_of_le`: what a write
  changes and what it leaves alone.
* `cstring_write`: a string without NUL bytes is read back up to its terminator.
-/

namespace DistributedDB

/-- The four bytes of a word, the least significant first. -/
def encode32 (x : UInt32) : List UInt8 :=
  [UInt8.ofNat (x.toNat % 256), UInt8.ofNat (x.toNat / 256 % 256),
    UInt8.ofNat (x.toNat / 65536 % 256), UInt8.ofNat (x.toNat / 16777216)]

/-- The word of four bytes. -/
def decode32 : List UInt8 → UInt32
  | [a, b, c, d] =>
      UInt32.ofNat
        (a.toNat + 256 * b.toNat + 65536 * c.toNat + 16777216 * d.toNat)
  | _ => 0

@[simp] theorem length_encode32 (x : UInt32) : (encode32 x).length = 4 := rfl

theorem toNat_ofNat_byte {n : Nat} (h : n < 256) : (UInt8.ofNat n).toNat = n := by
  simp only [UInt8.toNat_ofNat']
  omega

@[simp] theorem decode32_encode32 (x : UInt32) : decode32 (encode32 x) = x := by
  have hx : x.toNat < 4294967296 := x.toNat_lt
  apply UInt32.toNat_inj.mp
  simp only [encode32, decode32]
  rw [toNat_ofNat_byte (by omega), toNat_ofNat_byte (by omega),
    toNat_ofNat_byte (by omega), toNat_ofNat_byte (by omega), UInt32.toNat_ofNat']
  omega

/-- A buffer of `n` bytes. -/
@[ext]
structure ByteBuffer (n : Nat) where
  bytes : List UInt8
  length_eq : bytes.length = n
deriving DecidableEq, Repr

namespace ByteBuffer

variable {n : Nat}

/-- A zeroed buffer. -/
def zero (n : Nat) : ByteBuffer n :=
  ⟨List.replicate n 0, List.length_replicate⟩

/-- `memcpy` of the data to an offset. -/
def write (b : ByteBuffer n) (off : Nat) (data : List UInt8)
    (h : off + data.length ≤ n) : ByteBuffer n where
  bytes := b.bytes.take off ++ (data ++ b.bytes.drop (off + data.length))
  length_eq := by
    have hlen := b.length_eq
    simp only [List.length_append, List.length_take, List.length_drop]
    omega

/-- `len` bytes from an offset on. -/
def read (b : ByteBuffer n) (off len : Nat) : List UInt8 :=
  (b.bytes.drop off).take len

/-- The word at an offset. -/
def word (b : ByteBuffer n) (off : Nat) : UInt32 :=
  decode32 (b.read off 4)

/-- The string at an offset, if a NUL byte follows. -/
def cstring (b : ByteBuffer n) (off : Nat) : Option (List UInt8) :=
  if 0 ∈ b.bytes.drop off then some ((b.bytes.drop off).takeWhile (· != 0)) else none

variable (b : ByteBuffer n)

theorem length_drop (off : Nat) : (b.bytes.drop off).length = n - off := by
  rw [List.length_drop, b.length_eq]

section Write

variable {off : Nat} {data : List UInt8} (h : off + data.length ≤ n)

theorem drop_write :
    (b.write off data h).bytes.drop off = data ++ b.bytes.drop (off + data.length) := by
  have hlen : (b.bytes.take off).length = off := by
    rw [List.length_take, b.length_eq]
    omega
  exact List.drop_left' hlen

/-- What was written is read back. -/
theorem read_write : (b.write off data h).read off data.length = data := by
  rw [read, drop_write, List.take_left]

/-- The word at a place inside what was written. -/
theorem word_write {k : Nat} (hk : k + 4 ≤ data.length) :
    (b.write off data h).word (off + k) = decode32 ((data.drop k).take 4) := by
  have hlen : 4 ≤ (data.drop k).length := by
    rw [List.length_drop]
    omega
  rw [word, read, ← List.drop_drop, drop_write, List.drop_append_of_le_length (by omega),
    List.take_append_of_le_length hlen]

/-- A write changes nothing before it. -/
theorem read_write_of_le {off' len : Nat} (hle : off' + len ≤ off) :
    (b.write off data h).read off' len = b.read off' len := by
  have hlen : (b.bytes.take off).length = off := by
    rw [List.length_take, b.length_eq]
    omega
  have hfit : len ≤ ((b.bytes.take off).drop off').length := by
    rw [List.length_drop, hlen]
    omega
  rw [read, write, List.drop_append_of_le_length (by omega),
    List.take_append_of_le_length hfit, List.drop_take, List.take_take,
    Nat.min_eq_left (by omega), read]

/-- A write changes nothing behind it. -/
theorem drop_write_of_le {off' : Nat} (hle : off + data.length ≤ off') :
    (b.write off data h).bytes.drop off' = b.bytes.drop off' := by
  obtain ⟨k, rfl⟩ := Nat.exists_eq_add_of_le hle
  rw [Nat.add_assoc, ← List.drop_drop, drop_write, List.drop_length_add_append,
    List.drop_drop, Nat.add_assoc]

/-- A write of the whole buffer. -/
theorem bytes_write_all (hall : data.length = n) (h0 : 0 + data.length ≤ n) :
    (b.write 0 data h0).bytes = data := by
  have hdrop : b.bytes.drop (0 + data.length) = [] := by
    apply List.drop_of_length_le
    rw [b.length_eq]
    omega
  simp only [write, hdrop, List.take_zero, List.append_nil, List.nil_append]

theorem word_write_of_le {off' : Nat} (hle : off' + 4 ≤ off) :
    (b.write off data h).word off' = b.word off' := by
  rw [word, read_write_of_le b h hle, word]

theorem word_write_of_ge {off' : Nat} (hle : off + data.length ≤ off') :
    (b.write off data h).word off' = b.word off' := by
  rw [word, read, drop_write_of_le b h hle, word, read]

theorem cstring_write_of_le {off' : Nat} (hle : off + data.length ≤ off') :
    (b.write off data h).cstring off' = b.cstring off' := by
  rw [cstring, drop_write_of_le b h hle, cstring]

end Write

/-- A string without NUL bytes is read back up to its terminator. -/
theorem cstring_write {off : Nat} {s : List UInt8} (hs : 0 ∉ s)
    (h : off + (s ++ [0]).length ≤ n) :
    (b.write off (s ++ [0]) h).cstring off = some s := by
  have hall : ∀ x ∈ s, (x != 0) = true := by
    intro x hx
    simp only [bne_iff_ne]
    rintro rfl
    exact hs hx
  rw [cstring, drop_write, List.append_assoc, List.takeWhile_append_of_pos hall]
  simp

end ByteBuffer

end DistributedDB
