import DistributedDB.FileExchange
import DistributedDB.Library.InputLoop
import Mathlib.Algebra.BigOperators.Intervals

/-!
# Whether the transfer of a file ends

The loops of `SendFile` and `RecvFile` in `slave.c` on everything that comes from outside:
the bytes that `fread` returns, what `fwrite` takes, and what the other side sends.  A
`RecvMsg` gets a whole packet, or it returns `0` or `-1` and leaves the buffer as it was
sent; `ExchangePacket` does not say which.  A `send` on a closed connection fails.

`SendFile` goes on while it is answered, also when it has nothing to send.  `RecvFile` adds
the key of whatever is in the buffer, which is 0 in its own packet, and writes that many
bytes of the payload; a key that the payload does not hold reads outside the buffer.

**Results.**
* `sendLoop_ends_iff`, `recvLoop_ends_iff`: when the loops end as they should.
* `transfer_ends_iff`: both together.
* `unending_transfers`: an emptied file, a closed connection and an oversized last packet.
-/

namespace DistributedDB

open InputLoop

/-- How a loop ends. -/
inductive LoopResult where
  | returned (res : Int)
  /-- `finish_size` overflows, or bytes outside the buffer are read. -/
  | undefined
deriving DecidableEq, Repr

/-- What one iteration of `SendFile` gets. -/
structure SendInput where
  /-- What the header on the stack has besides. -/
  hd : DBPacketHeader
  /-- The bytes that `fread` returns. -/
  chunk : List UInt8
  chunk_le : chunk.length ≤ APPENDSIZE
  /-- The packet that `RecvMsg` gets. -/
  reply : Option PacketBuf

/-- The variables of the loop of `SendFile`. -/
structure SendVars where
  finish_size : Int
  /-- The buffer of `ExchangePacket`. -/
  szBuf : PacketBuf

/-- The loop of `SendFile`. -/
def sendBody (flen : Int32) (v : SendVars) (i : SendInput) : LoopState SendVars LoopResult :=
  if v.finish_size < flen.toInt then
    let len : Int := i.chunk.length
    let szBuf := exchangePacket i.hd v.szBuf .FILETRANS (UInt32.ofNat i.chunk.length) i.chunk
    let phd := i.reply.getD szBuf
    if phd.getHeader.cmd ≠ CMD.FILETRANS_R.word then .ended (.returned (-1))
    else if v.finish_size + len < 2147483648 then .running ⟨v.finish_size + len, phd⟩
    else .ended .undefined
  else .ended (.returned 0)

/-- What one iteration of `RecvFile` gets. -/
structure RecvInput where
  hd : DBPacketHeader
  /-- The packet that `RecvMsg` gets. -/
  packet : Option PacketBuf
  /-- The bytes that the file still takes. -/
  room : Nat

/-- The variables of the loop of `RecvFile`, with the file. -/
structure RecvVars where
  finish_size : Int
  szBuf : PacketBuf
  file : List UInt8

/-- The loop of `RecvFile`: the result, and the file.  The `fopen` before the loop has
succeeded: a failing one, after which `fwrite` gets a `NULL` stream, is left out. -/
def recvBody (total_size : Int32) (v : RecvVars) (i : RecvInput) :
    LoopState RecvVars (LoopResult × List UInt8) :=
  if v.finish_size < total_size.toInt then
    let szBuf := exchangePacket i.hd v.szBuf .FILETRANS_R 0 []
    let phd := i.packet.getD szBuf
    let key := phd.getHeader.key.toInt32.toInt
    if 0 ≤ key ∧ key ≤ APPENDSIZE then
      let write_len := min i.room key.toNat
      let file := v.file ++ phd.read HEADERSIZE write_len
      if (write_len : Int) < key then .ended (.returned (-1), file)
      else if v.finish_size + key < 2147483648 then .running ⟨v.finish_size + key, phd, file⟩
      else .ended (.undefined, file)
    else .ended (.undefined, v.file)
  else .ended (.returned 0, v.file)

/-- The other side has answered with `FILETRANS_R`. -/
def SendInput.Acked (i : SendInput) : Prop :=
  ∃ packet, i.reply = some packet ∧ packet.getHeader.cmd = CMD.FILETRANS_R.word

/-- The length that `RecvFile` takes from the buffer. -/
def RecvInput.key (i : RecvInput) : Int :=
  match i.packet with
  | some packet => packet.getHeader.key.toInt32.toInt
  | none => 0

/-- The payload holds that many bytes. -/
def RecvInput.Fits (i : RecvInput) : Prop :=
  0 ≤ i.key ∧ i.key ≤ APPENDSIZE

/-- The file takes all of them. -/
def RecvInput.Written (i : RecvInput) : Prop :=
  i.key ≤ i.room

section Sums

/-- What `fread` has returned before iteration `n`. -/
def sentBefore (inputs : Nat → SendInput) (n : Nat) : Int :=
  ∑ i ∈ Finset.range n, ((inputs i).chunk.length : Int)

/-- The sum of the keys before iteration `n`. -/
def keysBefore (inputs : Nat → RecvInput) (n : Nat) : Int :=
  ∑ i ∈ Finset.range n, (inputs i).key

/-- The condition on the inputs of `SendFile`: they come to the announced length, or an
answer is missing, while an `int` holds the sum. -/
def SendEnds (flen : Int32) (inputs : Nat → SendInput) : Prop :=
  ∃ n, sentBefore inputs n < 2147483648 ∧
    (flen.toInt ≤ sentBefore inputs n ∨ ¬ (inputs n).Acked)

/-- The condition on the inputs of `RecvFile`: payloads that hold their bytes and are
written add up to exactly the announced length, or a write falls short before. -/
def RecvEnds (total_size : Int32) (inputs : Nat → RecvInput) : Prop :=
  ∃ n, (∀ i, i < n → (inputs i).Fits ∧ (inputs i).Written) ∧
    (keysBefore inputs n = total_size.toInt ∨
      keysBefore inputs n < total_size.toInt ∧ (inputs n).Fits ∧ ¬ (inputs n).Written)

theorem sentBefore_succ (inputs : Nat → SendInput) (n : Nat) :
    sentBefore inputs (n + 1) = sentBefore inputs n + ((inputs n).chunk.length : Int) :=
  Finset.sum_range_succ _ n

theorem keysBefore_succ (inputs : Nat → RecvInput) (n : Nat) :
    keysBefore inputs (n + 1) = keysBefore inputs n + (inputs n).key :=
  Finset.sum_range_succ _ n

theorem sentBefore_mono {inputs : Nat → SendInput} {m n : Nat} (hle : m ≤ n) :
    sentBefore inputs m ≤ sentBefore inputs n := by
  induction n, hle using Nat.le_induction with
  | base => exact le_rfl
  | succ n _ ih =>
      rw [sentBefore_succ]
      omega

theorem keysBefore_mono {inputs : Nat → RecvInput} {m n : Nat} (hle : m ≤ n)
    (h : ∀ i, i < n → (inputs i).Fits) : keysBefore inputs m ≤ keysBefore inputs n := by
  induction n, hle using Nat.le_induction with
  | base => exact le_rfl
  | succ n _ ih =>
      have hkey := (h n (Nat.lt_succ_self n)).1
      have hprev := ih fun i hi => h i (Nat.lt_succ_of_lt hi)
      rw [keysBefore_succ]
      omega

end Sums

section Sender

variable {flen : Int32} {v : SendVars} {i : SendInput}

/-- The packet in the buffer is an answer only when one has come. -/
theorem cmd_eq_iff_acked (szBuf : PacketBuf) (hd : DBPacketHeader) (key : UInt32)
    (data : List UInt8) :
    (i.reply.getD (exchangePacket hd szBuf .FILETRANS key data)).getHeader.cmd =
      CMD.FILETRANS_R.word ↔ i.Acked := by
  unfold SendInput.Acked
  cases i.reply with
  | some packet => simp
  | none =>
      rw [Option.getD_none, (Transfer.getHeader_exchangePacket szBuf .FILETRANS key data).1]
      refine iff_of_false (by decide) ?_
      rintro ⟨packet, ⟨⟩, -⟩

theorem sendBody_acked (hlt : v.finish_size < flen.toInt) (h : i.Acked) :
    ∃ szBuf, sendBody flen v i =
      if v.finish_size + i.chunk.length < 2147483648 then
        .running ⟨v.finish_size + i.chunk.length, szBuf⟩
      else .ended .undefined := by
  have hcmd := (cmd_eq_iff_acked v.szBuf i.hd (UInt32.ofNat i.chunk.length) i.chunk).mpr h
  simp only [sendBody, if_pos hlt, ne_eq, hcmd, not_true, if_false]
  exact ⟨_, rfl⟩

theorem sendBody_not_acked (hlt : v.finish_size < flen.toInt) (h : ¬ i.Acked) :
    sendBody flen v i = .ended (.returned (-1)) := by
  have hcmd := (cmd_eq_iff_acked v.szBuf i.hd (UInt32.ofNat i.chunk.length) i.chunk).not.mpr h
  simp only [sendBody, if_pos hlt, ne_eq, hcmd, not_false_eq_true, if_true]

/-- The iteration goes on. -/
def SendGoesOn (flen : Int32) (inputs : Nat → SendInput) (n : Nat) : Prop :=
  sentBefore inputs n < flen.toInt ∧ (inputs n).Acked ∧ sentBefore inputs (n + 1) < 2147483648

/-- The iteration returns. -/
def SendReturns (flen : Int32) (inputs : Nat → SendInput) (n : Nat) : Prop :=
  flen.toInt ≤ sentBefore inputs n ∨ ¬ (inputs n).Acked

theorem sendBody_goesOn {inputs : Nat → SendInput} {n : Nat}
    (hinv : v.finish_size = sentBefore inputs n) (hgo : SendGoesOn flen inputs n) :
    ∃ v', sendBody flen v (inputs n) = .running v' ∧
      v'.finish_size = sentBefore inputs (n + 1) := by
  obtain ⟨hlt, hacked, hsum⟩ := hgo
  rw [sentBefore_succ, ← hinv] at hsum
  obtain ⟨szBuf, hbody⟩ := sendBody_acked (hinv ▸ hlt) hacked
  rw [if_pos hsum] at hbody
  exact ⟨_, hbody, by rw [sentBefore_succ, hinv]⟩

theorem sendBody_stops {inputs : Nat → SendInput} {n : Nat}
    (hinv : v.finish_size = sentBefore inputs n) (hstop : ¬ SendGoesOn flen inputs n) :
    ∃ r, sendBody flen v (inputs n) = .ended r ∧
      ((∃ res, r = .returned res) ↔ SendReturns flen inputs n) := by
  by_cases hlt : sentBefore inputs n < flen.toInt
  · by_cases hacked : (inputs n).Acked
    · have hsum : ¬ v.finish_size + (inputs n).chunk.length < 2147483648 := by
        rw [hinv, ← sentBefore_succ]
        exact fun hsum => hstop ⟨hlt, hacked, hsum⟩
      obtain ⟨szBuf, hbody⟩ := sendBody_acked (hinv ▸ hlt) hacked
      rw [if_neg hsum] at hbody
      refine ⟨_, hbody, iff_of_false ?_ (not_or.mpr ⟨not_le.mpr hlt, not_not.mpr hacked⟩)⟩
      rintro ⟨res, ⟨⟩⟩
    · exact ⟨_, sendBody_not_acked (hinv ▸ hlt) hacked,
        iff_of_true ⟨_, rfl⟩ (Or.inr hacked)⟩
  · exact ⟨.returned 0, if_neg (hinv ▸ hlt),
      iff_of_true ⟨_, rfl⟩ (Or.inl (not_lt.mp hlt))⟩

/-- **`SendFile` returns exactly when `fread` comes to the announced length or an answer is
missing.** -/
theorem sendLoop_ends_iff (flen : Int32) (szBuf : PacketBuf) (inputs : Nat → SendInput) :
    (∃ n r, iterate (sendBody flen) inputs ⟨0, szBuf⟩ n = .ended r ∧
      ∃ res, r = .returned res) ↔
      SendEnds flen inputs := by
  have hrule := ended_iff (fun n (v : SendVars) => v.finish_size = sentBefore inputs n)
    (SendGoesOn flen inputs) (fun r => ∃ res, r = LoopResult.returned res)
    (SendReturns flen inputs)
    (show (⟨0, szBuf⟩ : SendVars).finish_size = sentBefore inputs 0 from rfl)
    (fun n v hinv hgo => sendBody_goesOn hinv hgo)
    (fun n v hinv hstop => sendBody_stops hinv hstop)
  rw [hrule]
  constructor
  · rintro ⟨n, hbefore, -, hreturns⟩
    refine ⟨n, ?_, hreturns⟩
    cases n with
    | zero => exact (by decide : (0 : Int) < 2147483648)
    | succ n => exact (hbefore n (Nat.lt_succ_self n)).2.2
  · rintro ⟨n, hsum, hreturns⟩
    have hnot : ¬ SendGoesOn flen inputs n := fun hgo =>
      hreturns.elim (not_le.mpr hgo.1) (absurd hgo.2.1)
    refine exists_stop hnot hreturns fun m hlt hm => ?_
    -- the sum after iteration `m` fits, so that it is not the overflow that stops there
    have hnext : sentBefore inputs (m + 1) < 2147483648 := (sentBefore_mono hlt).trans_lt hsum
    exact or_iff_not_and_not.mpr fun h => hm ⟨not_le.mp h.1, not_not.mp h.2, hnext⟩

end Sender

section Receiver

variable {total_size : Int32} {v : RecvVars} {i : RecvInput}

/-- What is in the buffer after `ExchangePacket`. -/
def RecvInput.phd (i : RecvInput) (szBuf : PacketBuf) : PacketBuf :=
  i.packet.getD (exchangePacket i.hd szBuf .FILETRANS_R 0 [])

/-- The key of the own packet is 0. -/
theorem key_phd (szBuf : PacketBuf) : (i.phd szBuf).getHeader.key.toInt32.toInt = i.key := by
  unfold RecvInput.phd RecvInput.key
  cases i.packet with
  | some packet => rfl
  | none =>
      rw [Option.getD_none, (Transfer.getHeader_exchangePacket szBuf .FILETRANS_R 0 []).2]
      rfl

theorem length_payload (phd : PacketBuf) {len : Nat} (h : len ≤ APPENDSIZE) :
    (phd.read HEADERSIZE len).length = len := by
  rw [ByteBuffer.read, List.length_take, List.length_drop, phd.length_eq]
  exact Nat.min_eq_left h

/-- The iteration goes on. -/
def RecvGoesOn (total_size : Int32) (inputs : Nat → RecvInput) (n : Nat) : Prop :=
  keysBefore inputs n < total_size.toInt ∧ (inputs n).Fits ∧ (inputs n).Written ∧
    keysBefore inputs (n + 1) < 2147483648

/-- The iteration returns, and `0` only for a file of the announced length. -/
def RecvReturns (total_size : Int32) (inputs : Nat → RecvInput) (n : Nat) : Prop :=
  keysBefore inputs n = total_size.toInt ∨
    keysBefore inputs n < total_size.toInt ∧ (inputs n).Fits ∧ ¬ (inputs n).Written

/-- A result that the loop should have. -/
def RecvResult (total_size : Int32) (r : LoopResult × List UInt8) : Prop :=
  ∃ res, r.1 = .returned res ∧ (res = 0 → (r.2.length : Int) = total_size.toInt)

/-- The variables before iteration `n`. -/
def RecvInv (inputs : Nat → RecvInput) (n : Nat) (v : RecvVars) : Prop :=
  v.finish_size = keysBefore inputs n ∧ (v.file.length : Int) = keysBefore inputs n

/-- The file after an iteration that is written in full. -/
def RecvVars.write (v : RecvVars) (i : RecvInput) : List UInt8 :=
  v.file ++ (i.phd v.szBuf).read HEADERSIZE i.key.toNat

theorem length_write (hfits : i.Fits) : ((v.write i).length : Int) = v.file.length + i.key := by
  obtain ⟨hnonneg, hle⟩ := hfits
  rw [RecvVars.write, List.length_append, length_payload _ (Int.toNat_le.mpr hle), Nat.cast_add,
    Int.toNat_of_nonneg hnonneg]

theorem recvBody_written (hlt : v.finish_size < total_size.toInt) (hfits : i.Fits)
    (hwritten : i.Written) :
    recvBody total_size v i =
      if v.finish_size + i.key < 2147483648 then
        .running ⟨v.finish_size + i.key, i.phd v.szBuf, v.write i⟩
      else .ended (.undefined, v.write i) := by
  obtain ⟨hnonneg, hle⟩ := hfits
  have hlen : min i.room i.key.toNat = i.key.toNat :=
    Nat.min_eq_right (Int.toNat_le.mpr hwritten)
  have hcast : ((i.key.toNat : Nat) : Int) = i.key := Int.toNat_of_nonneg hnonneg
  have hkey := key_phd (i := i) v.szBuf
  rw [RecvInput.phd] at hkey
  simp only [recvBody, if_pos hlt, hkey, hnonneg, hle, and_self, if_true, hlen, hcast,
    lt_irrefl, if_false, RecvInput.phd, RecvVars.write]

/-- On packets that are written in full `RecvFile` does what it does in `FileExchange`. -/
theorem recvBody_eq_recvMsg {r : FileReceiver} {finish_size : Int} {packet : PacketBuf}
    (rescmd : CMD) (szBuf : PacketBuf) (hpacket : i.packet = some packet)
    (hstage : r.stage = .awaitChunk finish_size total_size.toInt)
    (hlt : finish_size < total_size.toInt) (hfits : i.Fits) (hwritten : i.Written)
    (hsum : finish_size + i.key < 2147483648) :
    ∃ r' reply, r.recvMsg i.hd rescmd packet = some (r', reply) ∧
      recvBody total_size ⟨finish_size, szBuf, r.dest⟩ i =
        .running ⟨finish_size + i.key, packet, r'.dest⟩ := by
  have hphd : i.phd szBuf = packet := by
    rw [RecvInput.phd, hpacket, Option.getD_some]
  have hkey : packet.getHeader.key.toInt32.toInt = i.key := by
    rw [RecvInput.key, hpacket]
  have hnat : packet.getHeader.key.toNat = i.key.toNat := by
    have hword := packet.getHeader.key.toNat_lt
    have hnonneg := hfits.1
    rw [← hkey, toInt_toInt32] at hnonneg ⊢
    split at hnonneg <;> omega
  rw [recvBody_written hlt hfits hwritten, if_pos hsum]
  simp only [FileReceiver.recvMsg, hstage, hkey, hnat, hphd, RecvVars.write]
  refine ⟨_, _, rfl, ?_⟩
  rw [FileReceiver.recvLoop]
  split
  · rfl
  · rfl

theorem recvBody_not_written (hlt : v.finish_size < total_size.toInt) (hfits : i.Fits)
    (hwritten : ¬ i.Written) : ∃ file, recvBody total_size v i = .ended
    (.returned (-1), file) := by
  obtain ⟨hnonneg, hle⟩ := hfits
  have hshort : ((min i.room i.key.toNat : Nat) : Int) < i.key := by
    have hroom : (i.room : Int) < i.key := not_le.mp hwritten
    omega
  have hkey := key_phd (i := i) v.szBuf
  rw [RecvInput.phd] at hkey
  simp only [recvBody, if_pos hlt, hkey, hnonneg, hle, and_self, if_true, hshort]
  exact ⟨_, rfl⟩

theorem recvBody_not_fits (hlt : v.finish_size < total_size.toInt) (hfits : ¬ i.Fits) :
    recvBody total_size v i = .ended (.undefined, v.file) := by
  have hnot : ¬ (0 ≤ i.key ∧ i.key ≤ APPENDSIZE) := hfits
  have hkey := key_phd (i := i) v.szBuf
  rw [RecvInput.phd] at hkey
  simp only [recvBody, if_pos hlt, hkey, if_neg hnot]

theorem recvBody_goesOn {inputs : Nat → RecvInput} {n : Nat} (hinv : RecvInv inputs n v)
    (hgo : RecvGoesOn total_size inputs n) :
    ∃ v', recvBody total_size v (inputs n) = .running v' ∧ RecvInv inputs (n + 1) v' := by
  obtain ⟨hlt, hfits, hwritten, hsum⟩ := hgo
  obtain ⟨hsize, hfile⟩ := hinv
  rw [keysBefore_succ, ← hsize] at hsum
  rw [recvBody_written (hsize ▸ hlt) hfits hwritten, if_pos hsum]
  refine ⟨_, rfl, ?_, ?_⟩
  · rw [keysBefore_succ, hsize]
  · rw [keysBefore_succ, length_write hfits, hfile]

theorem recvBody_stops {inputs : Nat → RecvInput} {n : Nat} (hinv : RecvInv inputs n v)
    (hstop : ¬ RecvGoesOn total_size inputs n) :
    ∃ r, recvBody total_size v (inputs n) = .ended r ∧
      (RecvResult total_size r ↔ RecvReturns total_size inputs n) := by
  obtain ⟨hsize, hfile⟩ := hinv
  by_cases hlt : keysBefore inputs n < total_size.toInt
  · have hundefined (file : List UInt8) : ¬ RecvResult total_size (.undefined, file) := by
      rintro ⟨res, ⟨⟩, -⟩
    by_cases hfits : (inputs n).Fits
    · by_cases hwritten : (inputs n).Written
      · have hsum : ¬ v.finish_size + (inputs n).key < 2147483648 := by
          rw [hsize, ← keysBefore_succ]
          exact fun hsum => hstop ⟨hlt, hfits, hwritten, hsum⟩
        rw [recvBody_written (hsize ▸ hlt) hfits hwritten, if_neg hsum]
        exact ⟨_, rfl, iff_of_false (hundefined _)
          (not_or.mpr ⟨hlt.ne, fun h => h.2.2 hwritten⟩)⟩
      · obtain ⟨file, hbody⟩ := recvBody_not_written (hsize ▸ hlt) hfits hwritten
        exact ⟨_, hbody, iff_of_true ⟨-1, rfl, fun h => absurd h (by decide)⟩
          (Or.inr ⟨hlt, hfits, hwritten⟩)⟩
    · exact ⟨_, recvBody_not_fits (hsize ▸ hlt) hfits, iff_of_false (hundefined v.file)
        (not_or.mpr ⟨hlt.ne, fun h => hfits h.2.1⟩)⟩
  · refine ⟨(.returned 0, v.file), if_neg (hsize ▸ hlt), ?_⟩
    constructor
    · rintro ⟨res, hres, hlength⟩
      exact Or.inl (hfile.symm.trans (hlength (LoopResult.returned.inj hres).symm))
    · rintro (heq | ⟨hlt', -⟩)
      · exact ⟨0, rfl, fun _ => hfile.trans heq⟩
      · exact absurd hlt' hlt

/-- **`RecvFile` returns, and 0 only for a file of the announced length, exactly when the
packets come to that length or a write falls short.** -/
theorem recvLoop_ends_iff (total_size : Int32) (szBuf : PacketBuf) (inputs : Nat → RecvInput) :
    (∃ n r, iterate (recvBody total_size) inputs ⟨0, szBuf, []⟩ n = .ended r ∧
      RecvResult total_size r) ↔ RecvEnds total_size inputs := by
  have hrule := ended_iff (RecvInv inputs) (RecvGoesOn total_size inputs)
    (RecvResult total_size) (RecvReturns total_size inputs)
    (show RecvInv inputs 0 ⟨0, szBuf, []⟩ from ⟨rfl, rfl⟩)
    (fun n v hinv hgo => recvBody_goesOn hinv hgo)
    (fun n v hinv hstop => recvBody_stops hinv hstop)
  rw [hrule]
  constructor
  · rintro ⟨n, hbefore, -, hreturns⟩
    exact ⟨n, fun i hi => ⟨(hbefore i hi).2.1, (hbefore i hi).2.2.1⟩, hreturns⟩
  · rintro ⟨n, htaken, hreturns⟩
    have hle : keysBefore inputs n ≤ total_size.toInt :=
      hreturns.elim (fun heq => heq.le) fun h => h.1.le
    have hnot : ¬ RecvGoesOn total_size inputs n := fun hgo =>
      hreturns.elim (fun heq => hgo.1.ne heq) fun h => h.2.2 hgo.2.2.1
    refine exists_stop hnot hreturns fun m hlt hm => ?_
    have hfits : ∀ i, i < n → (inputs i).Fits := fun i hi => (htaken i hi).1
    have hmono : keysBefore inputs m ≤ keysBefore inputs n := keysBefore_mono hlt.le hfits
    have hnext : keysBefore inputs (m + 1) < 2147483648 :=
      ((keysBefore_mono hlt hfits).trans hle).trans_lt total_size.toInt_lt
    have hge : total_size.toInt ≤ keysBefore inputs m :=
      not_lt.mp fun h => hm ⟨h, (htaken m hlt).1, (htaken m hlt).2, hnext⟩
    exact Or.inl (le_antisymm (hmono.trans hle) hge)

end Receiver

/-- **When the loops of `SendFile` and `RecvFile` end as they should**, for every announced
length and everything that comes from outside. -/
theorem transfer_ends_iff (len : Int32) (szBuf : PacketBuf) (sends : Nat → SendInput)
    (recvs : Nat → RecvInput) :
    ((∃ n r, iterate (sendBody len) sends ⟨0, szBuf⟩ n = .ended r ∧
      ∃ res, r = .returned res) ↔
      SendEnds len sends) ∧
    ((∃ n r, iterate (recvBody len) recvs ⟨0, szBuf, []⟩ n = .ended r ∧
      RecvResult len r) ↔
      RecvEnds len recvs) :=
  ⟨sendLoop_ends_iff len szBuf sends, recvLoop_ends_iff len szBuf recvs⟩

section Examples

/-- A header with the version 0. -/
def plainHeader : DBPacketHeader := ⟨0, 0, 0, 0⟩

/-- `fread` is at the end of the file, and the other side answers. -/
def emptyRead : SendInput :=
  ⟨plainHeader, [], Nat.zero_le _,
    some (exchangePacket plainHeader (ByteBuffer.zero MAXPACKETLEN) .FILETRANS_R 0 [])⟩

/-- The connection is closed. -/
def closedConnection : RecvInput :=
  ⟨plainHeader, none, 0⟩

/-- A packet with five bytes. -/
def fiveBytes : RecvInput :=
  ⟨plainHeader, some (exchangePacket plainHeader (ByteBuffer.zero MAXPACKETLEN) .FILETRANS 5
    [1, 2, 3, 4, 5]), 5⟩

/-- A file of one byte is announced.  When it has been emptied `SendFile` goes on for ever,
when the connection is closed `RecvFile` does, and when five bytes come it returns 0. -/
theorem unending_transfers :
    (∀ n, ∃ v, iterate (sendBody 1) (fun _ => emptyRead)
      ⟨0, ByteBuffer.zero MAXPACKETLEN⟩ n =
      .running v) ∧
    (∀ n, ∃ v, iterate (recvBody 1) (fun _ => closedConnection)
      ⟨0, ByteBuffer.zero MAXPACKETLEN, []⟩ n = .running v) ∧
    ∃ file, iterate (recvBody 1) (fun _ => fiveBytes)
      ⟨0, ByteBuffer.zero MAXPACKETLEN, []⟩ 2 =
      .ended (.returned 0, file) ∧ file.length = 5 := by
  refine ⟨fun n => ?_, fun n => ?_, ?_⟩
  · have hsum (n : Nat) : sentBefore (fun _ => emptyRead) n = 0 := by
      simp [sentBefore, emptyRead]
    have hacked : emptyRead.Acked :=
      ⟨_, rfl, (Transfer.getHeader_exchangePacket _ .FILETRANS_R 0 []).1⟩
    have hgo (n : Nat) : SendGoesOn 1 (fun _ => emptyRead) n := by
      refine ⟨?_, hacked, ?_⟩
      · rw [hsum]
        decide
      · rw [hsum]
        decide
    obtain ⟨v, hv, -⟩ :=
      iterate_running (fun n (v : SendVars) => v.finish_size = sentBefore _ n)
      (SendGoesOn 1 fun _ => emptyRead)
      (show (⟨0, ByteBuffer.zero MAXPACKETLEN⟩ : SendVars).finish_size = _ from rfl)
      (fun n v hinv hgo => sendBody_goesOn hinv hgo) (n := n) fun i _ => hgo i
    exact ⟨v, hv⟩
  · have hsum (n : Nat) : keysBefore (fun _ => closedConnection) n = 0 := by
      simp [keysBefore, RecvInput.key, closedConnection]
    have hfits : closedConnection.Fits := ⟨by decide, by decide⟩
    have hwritten : closedConnection.Written := by
      rw [RecvInput.Written]
      decide
    have hgo (n : Nat) : RecvGoesOn 1 (fun _ => closedConnection) n := by
      refine ⟨?_, hfits, hwritten, ?_⟩
      · rw [hsum]
        decide
      · rw [hsum]
        decide
    obtain ⟨v, hv, -⟩ := iterate_running (RecvInv _) (RecvGoesOn 1 fun _ => closedConnection)
      (show RecvInv _ 0 ⟨0, ByteBuffer.zero MAXPACKETLEN, []⟩ from ⟨rfl, rfl⟩)
      (fun n v hinv hgo => recvBody_goesOn hinv hgo) (n := n) fun i _ => hgo i
    exact ⟨v, hv⟩
  · have hkey : fiveBytes.key = 5 := by
      rw [RecvInput.key, fiveBytes]
      simp only [(Transfer.getHeader_exchangePacket _ .FILETRANS 5 _).2]
      decide
    have hfits : fiveBytes.Fits := by
      rw [RecvInput.Fits, hkey]
      decide
    have hwritten : fiveBytes.Written := by
      rw [RecvInput.Written, hkey]
      decide
    have hlt : (⟨0, ByteBuffer.zero MAXPACKETLEN, []⟩ : RecvVars).finish_size <
        (1 : Int32).toInt := by decide
    have hbody := recvBody_written hlt hfits hwritten
    have hlength := length_write (v := ⟨0, ByteBuffer.zero MAXPACKETLEN, []⟩) hfits
    rw [hkey] at hbody hlength
    refine ⟨_, ?_, by exact_mod_cast hlength⟩
    rw [iterate, iterate, iterate]
    simp only [hbody]
    rfl

end Examples

end DistributedDB
