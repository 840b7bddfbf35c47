import DistributedDB.FileTransfer

/-!
# SendFile and RecvFile

The two ends of a file transfer with any pair of commands: `ExchangePacket` with a request,
followed by `RecvFile`, and the main loop with `SendFile`.  `SendFile` is modelled with its
failures: `fopen` returns `NULL`, a reply has another command, or `recv` brings nothing and
the static buffer of `ExchangePacket` still holds the packet that was sent.

The channel is reliable, delivers whole packets in order, and reads and writes are full; the
file and the stack that `hd` lies on do not change meanwhile.

**Results.**
* `FileExchange.step`: the steps of the two parties.
* `FileExchange.toTransfer_step`: with `BACKUP` it is the transfer that refreshes a backup.
* `FileExchange.Turn`: whose turn it is, with the packets so far; each step keeps it.
* `FileExchange.copied`: a transfer has boundedly many steps and stops only when both ends
  have returned 0, with the file copied and one `FILETRANS_R` for each packet of the sender.
-/

namespace DistributedDB

open Run
open Transfer (getHeader_exchangePacket toInt_ofNat length_chunk length_chunk_le take_append_chunk)

/-- Where the slave that has the file is. -/
inductive SendStage where
  /-- In the main loop. -/
  | polling
  /-- In a `RecvMsg` of `SendFile`; so many bytes are finished with the reply. -/
  | awaitReply (fp : DBFile) (finish_size : Nat)
  | returned (res : Int)

/-- Where the slave that fetches the file is. -/
inductive ReceiveStage where
  /-- Connected. -/
  | starting
  /-- In the `RecvMsg` of the request. -/
  | awaitInfo
  /-- In a `RecvMsg` of `RecvFile`. -/
  | awaitChunk (finish_size total_size : Int)
  | returned (res : Int)
  /-- The assertion on the reply has failed. -/
  | aborted

structure FileSender where
  stage : SendStage
  /-- The buffer of `ExchangePacket`. -/
  szBuf : PacketBuf

structure FileReceiver where
  stage : ReceiveStage
  /-- The buffer of `ExchangePacket`. -/
  szBuf : PacketBuf
  /-- The name in the reply. -/
  filename : dbValue
  /-- What has been written. -/
  dest : List UInt8

structure FileExchange where
  sender : FileSender
  receiver : FileReceiver
  toSender : List PacketBuf
  toReceiver : List PacketBuf
  /-- The packets of the sender. -/
  sent : List PacketBuf
  /-- The packets of the receiver. -/
  replies : List PacketBuf

variable (hd : DBPacketHeader) (cmd rescmd : CMD) (name : DBName) (file : DBFile)

/-- `SendFile` up to its first `RecvMsg`, with the packet that it sends; `file` is what
`fopen` finds. -/
def sendFile (szBuf : PacketBuf) (file : Option DBFile) : FileSender × Option PacketBuf :=
  match file with
  | none => (⟨.returned (-1), szBuf⟩, none)
  | some fp =>
      let packet :=
        exchangePacket hd szBuf rescmd (UInt32.ofNat fp.bytes.length) (name.chars ++ [0])
      (⟨.awaitReply fp 0, packet⟩, some packet)

/-- `SendFile` after a `RecvMsg` that has received `reply`. -/
def FileSender.recvMsg (s : FileSender) (reply : Option PacketBuf) :
    FileSender × Option PacketBuf :=
  match s.stage with
  | .awaitReply fp finish_size =>
      let szBuf := reply.getD s.szBuf
      if szBuf.getHeader.cmd ≠ CMD.FILETRANS_R.word then (⟨.returned (-1), szBuf⟩, none)
      else if finish_size < fp.bytes.length then
        let chunk := fp.chunk finish_size
        let packet := exchangePacket hd szBuf .FILETRANS (UInt32.ofNat chunk.length) chunk
        (⟨.awaitReply fp (finish_size + chunk.length), packet⟩, some packet)
      else (⟨.returned 0, szBuf⟩, none)
  | _ => (s, none)

namespace FileReceiver

/-- The test of the loop of `RecvFile`, with the packet that is sent next. -/
def recvLoop (r : FileReceiver) (finish_size total_size : Int) : FileReceiver × PacketBuf :=
  if finish_size < total_size then
    let packet := exchangePacket hd r.szBuf .FILETRANS_R 0 []
    ({ r with stage := .awaitChunk finish_size total_size, szBuf := packet }, packet)
  else
    ({ r with stage := .returned 0 },
      PacketBuf.writeHeader (ByteBuffer.zero MAXPACKETLEN)
        { hd with cmd := CMD.FILETRANS_R.word })

/-- `CommunicateToSlave` after a `RecvMsg`, with the packet that it sends. -/
def recvMsg (r : FileReceiver) (packet : PacketBuf) : Option (FileReceiver × Option PacketBuf) :=
  let phd := packet.getHeader
  match r.stage with
  | .awaitInfo =>
      if phd.cmd ≠ rescmd.word then some ({ r with stage := .aborted, szBuf := packet }, none)
      else
        packet.getAppend.map fun filename =>
          let r := { r with szBuf := packet, filename := filename, dest := [] }.recvLoop hd 0
            phd.key.toInt32.toInt
          (r.1, some r.2)
  | .awaitChunk finish_size total_size =>
      let r := { r with
        szBuf := packet
        dest := r.dest ++ packet.read HEADERSIZE phd.key.toNat }.recvLoop hd
          (finish_size + phd.key.toInt32.toInt) total_size
      some (r.1, some r.2)
  | _ => none

end FileReceiver

/-- The stages of the transfer that refreshes a backup. -/
def SendStage.toSender : SendStage → Sender
  | .polling => .polling
  | .awaitReply _ finish_size => .awaitReply finish_size
  | .returned res => if res = 0 then .done else .failed

def ReceiveStage.toFetcher : ReceiveStage → Fetcher
  | .starting => .starting
  | .awaitInfo => .awaitInfo
  | .awaitChunk finish_size total_size => .awaitChunk finish_size total_size
  | .returned _ => .done
  | .aborted => .aborted

namespace FileExchange

def init (senderBuf receiverBuf : PacketBuf) : FileExchange where
  sender := ⟨.polling, senderBuf⟩
  receiver := ⟨.starting, receiverBuf, [], []⟩
  toSender := []
  toReceiver := []
  sent := []
  replies := []

/-- The sender has read a packet and sends the next one. -/
def senderSends (t : FileExchange) (rest : List PacketBuf) (r : FileSender × Option PacketBuf) :
    FileExchange :=
  { t with
    sender := r.1
    toSender := rest
    toReceiver := t.toReceiver ++ r.2.toList
    sent := t.sent ++ r.2.toList }

/-- The receiver has read a packet and sends the next one. -/
def receiverSends (t : FileExchange) (rest : List PacketBuf)
    (r : FileReceiver × Option PacketBuf) : FileExchange :=
  { t with
    receiver := r.1
    toReceiver := rest
    toSender := t.toSender ++ r.2.toList
    replies := t.replies ++ r.2.toList }

/-- A step of the main loop or `SendFile`. -/
def senderStep (t : FileExchange) : Option FileExchange :=
  match t.sender.stage, t.toSender with
  | .polling, packet :: rest =>
      if packet.getHeader.cmd = cmd.word then
        some (t.senderSends rest (sendFile hd rescmd name t.sender.szBuf (some file)))
      else none
  | .awaitReply _ _, packet :: rest =>
      some (t.senderSends rest (t.sender.recvMsg hd (some packet)))
  | _, _ => none

/-- A step of `CommunicateToSlave` or `RecvFile`. -/
def receiverStep (t : FileExchange) : Option FileExchange :=
  match t.receiver.stage, t.toReceiver with
  | .starting, _ =>
      let packet := exchangePacket hd t.receiver.szBuf cmd 0 []
      some (t.receiverSends t.toReceiver
        ({ t.receiver with stage := .awaitInfo, szBuf := packet }, some packet))
  | _, packet :: rest => (t.receiver.recvMsg hd rescmd packet).map (t.receiverSends rest)
  | _, _ => none

def step (t : FileExchange) : Party → Option FileExchange
  | .fetcher => t.receiverStep hd cmd rescmd
  | .sender => t.senderStep hd cmd rescmd name file

def toTransfer (t : FileExchange) : Transfer where
  fetcher := t.receiver.stage.toFetcher
  sender := t.sender.stage.toSender
  fetcherBuf := t.receiver.szBuf
  senderBuf := t.sender.szBuf
  toSender := t.toSender
  toFetcher := t.toReceiver
  filename := t.receiver.filename
  dest := t.receiver.dest

theorem toTransfer_recvLoop (t : FileExchange) (rest : List PacketBuf) (r : FileReceiver)
    (finish_size total_size : Int) :
    (t.receiverSends rest ((r.recvLoop hd finish_size total_size).1,
        some (r.recvLoop hd finish_size total_size).2)).toTransfer =
      { t.toTransfer with
        fetcherBuf := r.szBuf
        toFetcher := rest
        filename := r.filename
        dest := r.dest }.recvLoop hd finish_size total_size := by
  unfold FileReceiver.recvLoop Transfer.recvLoop
  split <;> rfl

/-- **With `BACKUP` and `BACKUP_R` the exchange is the transfer of a backup.** -/
theorem toTransfer_step (t : FileExchange)
    (hfile : ∀ fp n, t.sender.stage = .awaitReply fp n → fp = file) (e : Party) :
    (t.step hd .BACKUP .BACKUP_R name file e).map toTransfer =
      t.toTransfer.step hd name file e := by
  obtain ⟨⟨stage, senderBuf⟩, ⟨stage', receiverBuf, filename, dest⟩, toSender,
    toReceiver, sent, replies⟩ := t
  cases e with
  | fetcher =>
      cases stage' with
      | starting => rfl
      | returned res => cases toReceiver <;> rfl
      | aborted => cases toReceiver <;> rfl
      | awaitChunk finish_size total_size =>
          cases toReceiver with
          | nil => rfl
          | cons packet rest => exact congrArg some (toTransfer_recvLoop ..)
      | awaitInfo =>
          cases toReceiver with
          | nil => rfl
          | cons packet rest =>
              simp only [step, receiverStep, FileReceiver.recvMsg, Transfer.step,
                Transfer.fetcherStep, toTransfer, ReceiveStage.toFetcher]
              split
              case isTrue =>
                  simp only [Option.map_some, receiverSends, Option.toList_none, List.append_nil]
                  rfl
              case isFalse =>
                  cases packet.getAppend with
                  | none => rfl
                  | some filename => exact congrArg some (toTransfer_recvLoop ..)
  | sender =>
      cases stage with
      | returned res =>
          simp only [step, senderStep, Transfer.step, Transfer.senderStep, toTransfer,
            SendStage.toSender]
          by_cases hres : res = 0
          · simp only [hres, if_true, Option.map_none]
          · simp only [hres, if_false, Option.map_none]
      | polling =>
          cases toSender with
          | nil => rfl
          | cons packet rest =>
              simp only [step, senderStep, Transfer.step, Transfer.senderStep, toTransfer,
                SendStage.toSender]
              split <;> rfl
      | awaitReply fp n =>
          obtain rfl := hfile fp n rfl
          cases toSender with
          | nil => rfl
          | cons packet rest =>
              simp only [step, senderStep, FileSender.recvMsg, Option.getD_some, Transfer.step,
                Transfer.senderStep, toTransfer, SendStage.toSender]
              split
              case isTrue =>
                  simp only [Option.map_some, senderSends, Option.toList_none, List.append_nil]
                  rfl
              case isFalse =>
                  split
                  case isTrue => rfl
                  case isFalse =>
                      simp only [Option.map_some, senderSends, Option.toList_none, List.append_nil]
                      rfl

/-- The receiver has sent its request and then so many times `FILETRANS_R`. -/
def Acknowledged (t : FileExchange) (n : Nat) : Prop :=
  ∃ request acks, t.replies = request :: acks ∧ request.getHeader.cmd = cmd.word ∧
    acks.length = n ∧ ∀ a ∈ acks, a.getHeader.cmd = CMD.FILETRANS_R.word

/-- Both have returned 0 with the file copied, and nothing is left over. -/
structure Copied (t : FileExchange) : Prop where
  sender : t.sender.stage = .returned 0
  receiver : t.receiver.stage = .returned 0
  toSender : t.toSender = []
  toReceiver : t.toReceiver = []
  acknowledged : t.Acknowledged cmd t.sent.length
  filename : t.receiver.filename = name.chars
  dest : t.receiver.dest = file.bytes

/-- Whose turn it is, with the number of steps that are left at most.  One packet is on its
way at a time. -/
inductive Turn : Nat → FileExchange → Prop where
  | starting {t : FileExchange} (hreceiver : t.receiver.stage = .starting)
      (hsender : t.sender.stage = .polling) (htoSender : t.toSender = [])
      (htoReceiver : t.toReceiver = []) (hsent : t.sent = []) (hreplies : t.replies = []) :
      Turn (2 * file.bytes.length + 4) t
  | asked {t : FileExchange} (packet : PacketBuf) (hreceiver : t.receiver.stage = .awaitInfo)
      (hsender : t.sender.stage = .polling) (htoSender : t.toSender = [packet])
      (htoReceiver : t.toReceiver = []) (hcmd : packet.getHeader.cmd = cmd.word)
      (hsent : t.sent = []) (hacks : t.Acknowledged cmd 0) :
      Turn (2 * file.bytes.length + 3) t
  | informed {t : FileExchange} (packet : PacketBuf) (hreceiver : t.receiver.stage = .awaitInfo)
      (hsender : t.sender.stage = .awaitReply file 0) (htoSender : t.toSender = [])
      (htoReceiver : t.toReceiver = [packet]) (hcmd : packet.getHeader.cmd = rescmd.word)
      (hkey : packet.getHeader.key = UInt32.ofNat file.bytes.length)
      (hname : packet.getAppend = some name.chars)
      (hsent : t.sent.length = 1) (hacks : t.Acknowledged cmd 0) :
      Turn (2 * file.bytes.length + 2) t
  | replied {t : FileExchange} (packet : PacketBuf) (n : Nat) (hn : n ≤ file.bytes.length)
      (hreceiver : t.receiver.stage =
        if n < file.bytes.length then .awaitChunk n file.bytes.length else .returned 0)
      (hsender : t.sender.stage = .awaitReply file n) (htoSender : t.toSender = [packet])
      (htoReceiver : t.toReceiver = []) (hcmd : packet.getHeader.cmd = CMD.FILETRANS_R.word)
      (hacks : t.Acknowledged cmd t.sent.length)
      (hname : t.receiver.filename = name.chars) (hdest : t.receiver.dest = file.bytes.take n) :
      Turn (2 * (file.bytes.length - n) + 1) t
  | delivered {t : FileExchange} (packet : PacketBuf) (n : Nat) (hn : n < file.bytes.length)
      (hreceiver : t.receiver.stage = .awaitChunk n file.bytes.length)
      (hsender : t.sender.stage = .awaitReply file (n + (file.chunk n).length))
      (htoSender : t.toSender = []) (htoReceiver : t.toReceiver = [packet])
      (hkey : packet.getHeader.key = UInt32.ofNat (file.chunk n).length)
      (hpayload : packet.read HEADERSIZE (file.chunk n).length = file.chunk n)
      (k : Nat) (hsent : t.sent.length = k + 1) (hacks : t.Acknowledged cmd k)
      (hname : t.receiver.filename = name.chars) (hdest : t.receiver.dest = file.bytes.take n) :
      Turn (2 * (file.bytes.length - n)) t
  | finished {t : FileExchange} (hcopied : t.Copied cmd name file) : Turn 0 t

section Turns

variable {hd cmd rescmd name file} {t : FileExchange}

theorem turn_init (cmd rescmd : CMD) (name : DBName) (file : DBFile)
    (senderBuf receiverBuf : PacketBuf) :
    Turn cmd rescmd name file (2 * file.bytes.length + 4) (init senderBuf receiverBuf) :=
  Turn.starting rfl rfl rfl rfl rfl rfl

theorem Acknowledged.next {n : Nat} (h : t.Acknowledged cmd n) {packet : PacketBuf}
    (hcmd : packet.getHeader.cmd = CMD.FILETRANS_R.word) {t' : FileExchange}
    (hreplies : t'.replies = t.replies ++ [packet]) : t'.Acknowledged cmd (n + 1) := by
  obtain ⟨request, acks, heq, hrequest, hlength, hacks⟩ := h
  refine ⟨request, acks ++ [packet], by rw [hreplies, heq, List.cons_append], hrequest, ?_, ?_⟩
  · rw [List.length_append, hlength, List.length_singleton]
  · intro a ha
    rcases List.mem_append.mp ha with hold | hnew
    · exact hacks a hold
    · rw [List.mem_singleton.mp hnew]
      exact hcmd

/-- What `RecvFile` sends at the test of its loop is `FILETRANS_R`. -/
theorem getHeader_recvLoop (hd : DBPacketHeader) (r : FileReceiver) (finish_size total_size : Int) :
    (r.recvLoop hd finish_size total_size).2.getHeader.cmd = CMD.FILETRANS_R.word := by
  unfold FileReceiver.recvLoop
  split
  case isTrue => exact (getHeader_exchangePacket _ _ _ _).1
  case isFalse => rw [PacketBuf.getHeader_writeHeader]

/-- After a packet that brings the received bytes up to `n`, the receiver asks for the next
one or returns. -/
theorem turn_recvLoop (hd : DBPacketHeader) (rescmd : CMD) {n k : Nat}
    (hn : n ≤ file.bytes.length) {r : FileReceiver}
    (hsender : t.sender.stage = .awaitReply file n) (htoSender : t.toSender = [])
    (hsent : t.sent.length = k + 1) (hacks : t.Acknowledged cmd k)
    (hname : r.filename = name.chars) (hdest : r.dest = file.bytes.take n) :
    Turn cmd rescmd name file (2 * (file.bytes.length - n) + 1)
      (t.receiverSends [] ((r.recvLoop hd n file.bytes.length).1,
        some (r.recvLoop hd n file.bytes.length).2)) := by
  have hcmd := getHeader_recvLoop hd r n file.bytes.length
  refine Turn.replied _ n hn ?_ hsender ?_ rfl hcmd ?_ ?_ ?_
  · simp only [receiverSends, FileReceiver.recvLoop]
    split
    case isTrue hlt => rw [if_pos (by omega)]
    case isFalse hge => rw [if_neg (by omega)]
  · simp only [receiverSends, htoSender, Option.toList_some, List.nil_append]
  · rw [show (t.receiverSends [] _).sent.length = k + 1 from hsent]
    exact hacks.next hcmd rfl
  · simp only [receiverSends, FileReceiver.recvLoop]
    split <;> exact hname
  · simp only [receiverSends, FileReceiver.recvLoop]
    split <;> exact hdest

theorem step_of_ne_fetcher (h : t.senderStep hd cmd rescmd name file = none) (e : Party)
    (he : e ≠ .fetcher) : t.step hd cmd rescmd name file e = none := by
  cases e with
  | fetcher => exact absurd rfl he
  | sender => exact h

theorem step_of_ne_sender (h : t.receiverStep hd cmd rescmd = none) (e : Party)
    (he : e ≠ .sender) : t.step hd cmd rescmd name file e = none := by
  cases e with
  | fetcher => exact h
  | sender => exact absurd rfl he

theorem senderStep_nil (h : t.toSender = []) : t.senderStep hd cmd rescmd name file = none := by
  unfold senderStep
  rw [h]
  cases t.sender.stage <;> rfl

theorem receiverStep_nil (h : t.toReceiver = []) (hstage : t.receiver.stage ≠ .starting) :
    t.receiverStep hd cmd rescmd = none := by
  unfold receiverStep
  rw [h]
  cases hs : t.receiver.stage with
  | starting => exact absurd hs hstage
  | awaitInfo => rfl
  | awaitChunk finish_size total_size => rfl
  | returned res => rfl
  | aborted => rfl

theorem receiverStep_starting (hreceiver : t.receiver.stage = .starting) :
    t.receiverStep hd cmd rescmd = some (t.receiverSends t.toReceiver
      ({ t.receiver with
          stage := .awaitInfo
          szBuf := exchangePacket hd t.receiver.szBuf cmd 0 [] },
        some (exchangePacket hd t.receiver.szBuf cmd 0 []))) := by
  simp only [receiverStep, hreceiver]

theorem senderStep_polling {packet : PacketBuf} {rest : List PacketBuf}
    (hsender : t.sender.stage = .polling) (htoSender : t.toSender = packet :: rest)
    (hcmd : packet.getHeader.cmd = cmd.word) :
    t.senderStep hd cmd rescmd name file =
      some (t.senderSends rest (sendFile hd rescmd name t.sender.szBuf (some file))) := by
  simp only [senderStep, hsender, htoSender, hcmd, if_true]

theorem senderStep_awaitReply {packet : PacketBuf} {rest : List PacketBuf} {n : Nat}
    (hsender : t.sender.stage = .awaitReply file n) (htoSender : t.toSender = packet :: rest) :
    t.senderStep hd cmd rescmd name file =
      some (t.senderSends rest (t.sender.recvMsg hd (some packet))) := by
  simp only [senderStep, hsender, htoSender]

theorem recvMsg_chunk {s : FileSender} {packet : PacketBuf} {n : Nat}
    (hstage : s.stage = .awaitReply file n)
    (hcmd : packet.getHeader.cmd = CMD.FILETRANS_R.word) (hn : n < file.bytes.length) :
    s.recvMsg hd (some packet) =
      (⟨.awaitReply file (n + (file.chunk n).length),
          exchangePacket hd packet .FILETRANS (UInt32.ofNat (file.chunk n).length)
            (file.chunk n)⟩,
        some (exchangePacket hd packet .FILETRANS (UInt32.ofNat (file.chunk n).length)
          (file.chunk n))) := by
  simp only [FileSender.recvMsg, hstage, Option.getD_some, hcmd, ne_eq, not_true, if_false, hn,
    if_true]

theorem recvMsg_done {s : FileSender} {packet : PacketBuf} {n : Nat}
    (hstage : s.stage = .awaitReply file n)
    (hcmd : packet.getHeader.cmd = CMD.FILETRANS_R.word) (hn : ¬ n < file.bytes.length) :
    s.recvMsg hd (some packet) = (⟨.returned 0, packet⟩, none) := by
  simp only [FileSender.recvMsg, hstage, Option.getD_some, hcmd, ne_eq, not_true, if_false, hn]

/-- **In every state of a transfer that is not over, one party can go on, and the other
cannot.** -/
theorem Turn.next (hd : DBPacketHeader) {r : Nat} (h : Turn cmd rescmd name file r t) :
    t.Copied cmd name file ∨ ∃ e t' r', t.step hd cmd rescmd name file e = some t' ∧
      (∀ e', e' ≠ e → t.step hd cmd rescmd name file e' = none) ∧
      Turn cmd rescmd name file r' t' ∧ r' < r := by
  cases h with
  | starting hreceiver hsender htoSender htoReceiver hsent hreplies =>
      right
      have hcmd : (exchangePacket hd t.receiver.szBuf cmd 0 []).getHeader.cmd = cmd.word :=
        (getHeader_exchangePacket _ _ _ _).1
      refine ⟨.fetcher, _, _, receiverStep_starting hreceiver,
        step_of_ne_fetcher (senderStep_nil htoSender),
        Turn.asked _ rfl hsender ?_ htoReceiver hcmd hsent ?_, by omega⟩
      · rw [receiverSends, htoSender]
        rfl
      · refine ⟨_, [], ?_, hcmd, rfl, nofun⟩
        rw [receiverSends, hreplies]
        rfl
  | asked packet hreceiver hsender htoSender htoReceiver hcmd hsent hacks =>
      right
      refine ⟨.sender, _, _, senderStep_polling hsender htoSender hcmd,
        step_of_ne_sender (receiverStep_nil htoReceiver (by rw [hreceiver]; nofun)),
        Turn.informed _ hreceiver rfl rfl (by rw [senderSends, htoReceiver]; rfl)
          (getHeader_exchangePacket _ _ _ _).1 (getHeader_exchangePacket _ _ _ _).2 ?_ ?_ hacks,
        by omega⟩
      · exact PacketBuf.getAppend_pack _ _ name.no_nul name.fits
      · rw [senderSends, hsent]
        rfl
  | informed packet hreceiver hsender htoSender htoReceiver hcmd hkey hname hsent hacks =>
      right
      have hnext := turn_recvLoop hd rescmd (Nat.zero_le _)
        (r := { t.receiver with szBuf := packet, filename := name.chars, dest := [] })
        hsender htoSender hsent hacks rfl rfl
      refine ⟨.fetcher, _, _, ?_, step_of_ne_fetcher (senderStep_nil htoSender),
        hnext, by omega⟩
      simp only [step, receiverStep, hreceiver, htoReceiver, FileReceiver.recvMsg, hcmd, ne_eq,
        not_true, if_false, hname, Option.map_some, hkey, toInt_ofNat file.length_lt,
        Nat.cast_zero]
  | replied packet n hn hreceiver hsender htoSender htoReceiver hcmd hacks hname hdest =>
      right
      have hstage : t.receiver.stage ≠ .starting := by
        rw [hreceiver]
        split <;> nofun
      have hstep : t.senderStep hd cmd rescmd name file = _ :=
        senderStep_awaitReply hsender htoSender
      by_cases hlt : n < file.bytes.length
      · rw [if_pos hlt] at hreceiver
        rw [recvMsg_chunk hsender hcmd hlt] at hstep
        refine ⟨.sender, _, _, hstep, step_of_ne_sender (receiverStep_nil htoReceiver hstage),
          Turn.delivered _ n hlt hreceiver rfl rfl (by rw [senderSends, htoReceiver]; rfl)
            (getHeader_exchangePacket _ _ _ _).2 ?_ _ ?_ hacks hname hdest, by omega⟩
        · exact PacketBuf.read_append _ _ (length_chunk_le n)
        · simp only [senderSends, Option.toList_some, List.length_append, List.length_singleton]
      · rw [if_neg hlt] at hreceiver
        rw [recvMsg_done hsender hcmd hlt] at hstep
        refine ⟨.sender, _, _, hstep, step_of_ne_sender (receiverStep_nil htoReceiver hstage),
          Turn.finished ⟨rfl, hreceiver, rfl, ?_, ?_, hname, ?_⟩, by omega⟩
        · rw [senderSends, htoReceiver]
          rfl
        · simp only [senderSends, Option.toList_none, List.append_nil]
          exact hacks
        · exact hdest.trans (List.take_of_length_le (by omega))
  | delivered packet n hn hreceiver hsender htoSender htoReceiver hkey hpayload k hsent hacks
      hname hdest =>
      right
      obtain ⟨hpos, hle⟩ := length_chunk hn
      have hbound := file.length_lt
      have hnat : (UInt32.ofNat (file.chunk n).length).toNat = (file.chunk n).length := by
        rw [UInt32.toNat_ofNat']
        omega
      have hnext := turn_recvLoop hd rescmd hle
        (r := { t.receiver with szBuf := packet, dest := t.receiver.dest ++ file.chunk n })
        hsender htoSender hsent hacks hname (by rw [hdest, take_append_chunk])
      refine ⟨.fetcher, _, _, ?_, step_of_ne_fetcher (senderStep_nil htoSender),
        hnext, by omega⟩
      simp only [step, receiverStep, hreceiver, htoReceiver, FileReceiver.recvMsg, hkey, hnat,
        hpayload, toInt_ofNat (show (file.chunk n).length < 2147483648 by omega), Nat.cast_add,
        Option.map_some]
  | finished hcopied => exact Or.inl hcopied

theorem step_of_copied (h : t.Copied cmd name file) (e : Party) :
    t.step hd cmd rescmd name file e = none := by
  cases e with
  | fetcher => exact receiverStep_nil h.toReceiver (by rw [h.receiver]; nofun)
  | sender => exact senderStep_nil h.toSender

/-- Every step is one of the transfer, and fewer are left. -/
theorem Turn.of_step {r : Nat} (h : Turn cmd rescmd name file r t) {e : Party} {t' : FileExchange}
    (hstep : t.step hd cmd rescmd name file e = some t') :
    ∃ r', Turn cmd rescmd name file r' t' ∧ r' < r := by
  rcases h.next hd with hcopied | ⟨e', t'', r', hstep', hother, hturn, hlt⟩
  · rw [step_of_copied hcopied] at hstep
    cases hstep
  · by_cases he : e = e'
    · subst he
      rw [hstep'] at hstep
      cases hstep
      exact ⟨r', hturn, hlt⟩
    · rw [hother e he] at hstep
      cases hstep

theorem Turn.of_run {r : Nat} (h : Turn cmd rescmd name file r t) {events : List Party}
    {t' : FileExchange} (hrun : run (step hd cmd rescmd name file) t events = some t') :
    ∃ r', Turn cmd rescmd name file r' t' ∧ events.length + r' ≤ r := by
  induction events generalizing r t with
  | nil =>
      obtain rfl : t = t' := by simpa using hrun
      exact ⟨r, h, by simp only [List.length_nil]; omega⟩
  | cons e events ih =>
      obtain ⟨m, hm, hrest⟩ := run_cons_eq_some.mp hrun
      obtain ⟨r', hturn, hlt⟩ := h.of_step hm
      obtain ⟨r'', hturn', hle⟩ := ih hturn hrest
      exact ⟨r'', hturn', by simp only [List.length_cons]; omega⟩

theorem Turn.exists_run (hd : DBPacketHeader) {r : Nat} (h : Turn cmd rescmd name file r t) :
    ∃ events t', run (step hd cmd rescmd name file) t events = some t' ∧
      t'.Copied cmd name file := by
  induction r using Nat.strong_induction_on generalizing t with
  | _ r ih =>
      rcases h.next hd with hcopied | ⟨e, t', r', hstep, -, hturn, hlt⟩
      · exact ⟨[], t, rfl, hcopied⟩
      · obtain ⟨events, t'', hrun, hcopied⟩ := ih r' hlt hturn
        exact ⟨e :: events, t'', run_cons_eq_some.mpr ⟨t', hstep, hrun⟩, hcopied⟩

end Turns

/-- **A file transfer reproduces the file**: for every file below two gigabytes, every name
and every pair of commands, in every order of steps, a transfer has boundedly many steps,
one party can always go on until both have returned 0, and then no packet is left, the
receiver has sent one `FILETRANS_R` for each packet of the sender, and the name and the file
have arrived. -/
theorem copied (senderBuf receiverBuf : PacketBuf) (events : List Party) (t : FileExchange)
    (hrun : run (step hd cmd rescmd name file) (init senderBuf receiverBuf) events = some t) :
    events.length ≤ 2 * file.bytes.length + 4 ∧
      ((∃ e, (t.step hd cmd rescmd name file e).isSome) ∨ t.Copied cmd name file) := by
  obtain ⟨r, hturn, hle⟩ :=
    (turn_init cmd rescmd name file senderBuf receiverBuf).of_run hrun
  refine ⟨by omega, ?_⟩
  rcases hturn.next hd with hcopied | ⟨e, t', r', hstep, -, -, -⟩
  · exact Or.inr hcopied
  · exact Or.inl ⟨e, by rw [hstep]; rfl⟩

/-- A file of two full chunks and a third one of 484 bytes. -/
def threeChunks : DBFile :=
  ⟨(List.range 2500).map UInt8.ofNat, by rw [List.length_map, List.length_range]; decide⟩

/-- It is sent for `CLIP_DATA`. -/
theorem copied_threeChunks :
    threeChunks.bytes.length = 2 * APPENDSIZE + 484 ∧
      ∃ events t, run (step ⟨0, 0, 0, 0⟩ .CLIP_DATA .CLIP_DATA_R
          ⟨[97], by decide, by decide⟩ threeChunks)
        (init (ByteBuffer.zero _) (ByteBuffer.zero _)) events = some t ∧
      events.length ≤ 5004 ∧
        t.Copied .CLIP_DATA ⟨[97], by decide, by decide⟩ threeChunks := by
  have hlength : threeChunks.bytes.length = 2500 := by
    rw [threeChunks, List.length_map, List.length_range]
  obtain ⟨events, t, hrun, hcopied⟩ :=
    (turn_init .CLIP_DATA .CLIP_DATA_R ⟨[97], by decide, by decide⟩ threeChunks
      (ByteBuffer.zero _) (ByteBuffer.zero _)).exists_run ⟨0, 0, 0, 0⟩
  have hsteps := (copied _ _ _ _ _ _ _ events t hrun).1
  rw [hlength] at hsteps
  exact ⟨hlength, events, t, hrun, hsteps, hcopied⟩

end FileExchange

end DistributedDB
