import DistributedDB.Library.Run
import DistributedDB.Wire

/-!
# The transfer of a file

`CommunicateToSlave(k, BACKUP, ..)` with `RecvFile` at the slave that fetches a file, and
the main loop with `SendFile` at the slave that has it, over one connection, with packets
as bytes.  Each party packs its requests into the static buffer of `ExchangePacket` and
receives into it.  A step is what a party does between two calls of `RecvMsg`.

The file, its name and the stack that `hd` lies on do not change meanwhile.  Without
`HDBTLARGE` a Tokyo Cabinet file has less than two gigabytes.

**Results.**
* `Phase.next`: in every state of a transfer exactly one party can go on.
* `transferred`: when both parties have returned, the file has been copied.
* `exists_transfer`: a transfer can always be brought to its end.
-/

namespace DistributedDB

open Run

/-- The bytes of a database file. -/
structure DBFile where
  bytes : List UInt8
  length_lt : bytes.length < 2147483648

/-- A database name, with which a packet can be sent. -/
structure DBName where
  chars : dbValue
  no_nul : 0 ∉ chars
  fits : chars.length + 1 ≤ APPENDSIZE

/-- Where the slave that fetches the file is. -/
inductive Fetcher where
  /-- Connected. -/
  | starting
  /-- In the `RecvMsg` of the request. -/
  | awaitInfo
  /-- In a `RecvMsg` of `RecvFile`. -/
  | awaitChunk (finish_size total_size : Int)
  | done
  /-- The assertion on the reply has failed. -/
  | aborted
deriving DecidableEq, Repr

/-- Where the slave that has the file is. -/
inductive Sender where
  /-- In the main loop. -/
  | polling
  /-- In a `RecvMsg` of `SendFile`; so many bytes are finished with the reply. -/
  | awaitReply (finish_size : Nat)
  | done
  /-- `SendFile` has returned -1. -/
  | failed
deriving DecidableEq, Repr

inductive Party where
  | fetcher
  | sender
deriving DecidableEq, Repr

structure Transfer where
  fetcher : Fetcher
  sender : Sender
  /-- The buffers of `ExchangePacket`. -/
  fetcherBuf : PacketBuf
  senderBuf : PacketBuf
  toSender : List PacketBuf
  toFetcher : List PacketBuf
  /-- The name in the reply. -/
  filename : dbValue
  /-- What has been written. -/
  dest : List UInt8

/-- What `ExchangePacket` sends; `hd` is what the header has besides. -/
def exchangePacket (hd : DBPacketHeader) (szBuf : PacketBuf) (cmd : CMD) (key : UInt32)
    (append_str : List UInt8) : PacketBuf :=
  ((szBuf.writeHeader { hd with cmd := cmd.word, key := key }).append append_str).2

/-- The bytes that `fread` returns when so many have been read. -/
def DBFile.chunk (file : DBFile) (finish_size : Nat) : List UInt8 :=
  (file.bytes.drop finish_size).take APPENDSIZE

namespace Transfer

variable (hd : DBPacketHeader) (name : DBName) (file : DBFile)

def init (fetcherBuf senderBuf : PacketBuf) : Transfer :=
  ⟨.starting, .polling, fetcherBuf, senderBuf, [], [], [], []⟩

/-- The test of the loop of `RecvFile`, with the packet that is sent next. -/
def recvLoop (t : Transfer) (finish_size total_size : Int) : Transfer :=
  if finish_size < total_size then
    let packet := exchangePacket hd t.fetcherBuf .FILETRANS_R 0 []
    { t with
      fetcher := .awaitChunk finish_size total_size
      fetcherBuf := packet
      toSender := t.toSender ++ [packet] }
  else
    let szBuf := PacketBuf.writeHeader (ByteBuffer.zero MAXPACKETLEN)
      { hd with cmd := CMD.FILETRANS_R.word }
    { t with
      fetcher := .done
      toSender := t.toSender ++ [szBuf] }

/-- A step of `CommunicateToSlave` or `RecvFile`. -/
def fetcherStep (t : Transfer) : Option Transfer :=
  match t.fetcher, t.toFetcher with
  | .starting, _ =>
      let packet := exchangePacket hd t.fetcherBuf .BACKUP 0 []
      some { t with
        fetcher := .awaitInfo
        fetcherBuf := packet
        toSender := t.toSender ++ [packet] }
  | .awaitInfo, packet :: rest =>
      let phd := packet.getHeader
      if phd.cmd ≠ CMD.BACKUP_R.word then
        some { t with fetcher := .aborted, fetcherBuf := packet, toFetcher := rest }
      else
        match packet.getAppend with
        | none => none
        | some filename =>
            some ({ t with
              fetcherBuf := packet
              toFetcher := rest
              filename := filename
              dest := [] }.recvLoop hd 0 phd.key.toInt32.toInt)
  | .awaitChunk finish_size total_size, packet :: rest =>
      let phd := packet.getHeader
      some ({ t with
        fetcherBuf := packet
        toFetcher := rest
        dest := t.dest ++ packet.read HEADERSIZE phd.key.toNat }.recvLoop hd
          (finish_size + phd.key.toInt32.toInt) total_size)
  | _, _ => none

/-- A step of the main loop or `SendFile`. -/
def senderStep (t : Transfer) : Option Transfer :=
  match t.sender, t.toSender with
  | .polling, packet :: rest =>
      if packet.getHeader.cmd = CMD.BACKUP.word then
        let info := exchangePacket hd t.senderBuf .BACKUP_R (UInt32.ofNat file.bytes.length)
          (name.chars ++ [0])
        some { t with
          sender := .awaitReply 0
          senderBuf := info
          toSender := rest
          toFetcher := t.toFetcher ++ [info] }
      else none
  | .awaitReply finish_size, packet :: rest =>
      if packet.getHeader.cmd ≠ CMD.FILETRANS_R.word then
        some { t with sender := .failed, senderBuf := packet, toSender := rest }
      else if finish_size < file.bytes.length then
        let szBuf := file.chunk finish_size
        let chunk := exchangePacket hd packet .FILETRANS (UInt32.ofNat szBuf.length) szBuf
        some { t with
          sender := .awaitReply (finish_size + szBuf.length)
          senderBuf := chunk
          toSender := rest
          toFetcher := t.toFetcher ++ [chunk] }
      else some { t with sender := .done, senderBuf := packet, toSender := rest }
  | _, _ => none

def step (t : Transfer) : Party → Option Transfer
  | .fetcher => t.fetcherStep hd
  | .sender => t.senderStep hd name file

/-- Both parties have returned. -/
def Over (t : Transfer) : Prop :=
  t.fetcher = .done ∧ t.sender = .done

/-- The states of a transfer, with the number of steps that are left at most.  One packet
is on its way at a time. -/
inductive Phase : Nat → Transfer → Prop where
  | starting {t : Transfer} (hfetcher : t.fetcher = .starting) (hsender : t.sender = .polling)
      (htoSender : t.toSender = []) (htoFetcher : t.toFetcher = []) :
      Phase (2 * file.bytes.length + 4) t
  | asked {t : Transfer} (packet : PacketBuf) (hfetcher : t.fetcher = .awaitInfo)
      (hsender : t.sender = .polling) (htoSender : t.toSender = [packet])
      (htoFetcher : t.toFetcher = []) (hcmd : packet.getHeader.cmd = CMD.BACKUP.word) :
      Phase (2 * file.bytes.length + 3) t
  | informed {t : Transfer} (packet : PacketBuf) (hfetcher : t.fetcher = .awaitInfo)
      (hsender : t.sender = .awaitReply 0) (htoSender : t.toSender = [])
      (htoFetcher : t.toFetcher = [packet]) (hcmd : packet.getHeader.cmd = CMD.BACKUP_R.word)
      (hkey : packet.getHeader.key = UInt32.ofNat file.bytes.length)
      (hname : packet.getAppend = some name.chars) :
      Phase (2 * file.bytes.length + 2) t
  | replied {t : Transfer} (packet : PacketBuf) (n : Nat) (hn : n ≤ file.bytes.length)
      (hfetcher : t.fetcher =
        if n < file.bytes.length then .awaitChunk n file.bytes.length else .done)
      (hsender : t.sender = .awaitReply n) (htoSender : t.toSender = [packet])
      (htoFetcher : t.toFetcher = []) (hcmd : packet.getHeader.cmd = CMD.FILETRANS_R.word)
      (hname : t.filename = name.chars) (hdest : t.dest = file.bytes.take n) :
      Phase (2 * (file.bytes.length - n) + 1) t
  | sent {t : Transfer} (packet : PacketBuf) (n : Nat) (hn : n < file.bytes.length)
      (hfetcher : t.fetcher = .awaitChunk n file.bytes.length)
      (hsender : t.sender = .awaitReply (n + (file.chunk n).length)) (htoSender : t.toSender = [])
      (htoFetcher : t.toFetcher = [packet])
      (hkey : packet.getHeader.key = UInt32.ofNat (file.chunk n).length)
      (hpayload : packet.read HEADERSIZE (file.chunk n).length = file.chunk n)
      (hname : t.filename = name.chars) (hdest : t.dest = file.bytes.take n) :
      Phase (2 * (file.bytes.length - n)) t
  | finished {t : Transfer} (hfetcher : t.fetcher = .done) (hsender : t.sender = .done)
      (hname : t.filename = name.chars) (hdest : t.dest = file.bytes) :
      Phase 0 t

section Packets

variable {hd}

theorem getHeader_exchangePacket (szBuf : PacketBuf) (cmd : CMD) (key : UInt32)
    (append_str : List UInt8) :
    (exchangePacket hd szBuf cmd key append_str).getHeader.cmd = cmd.word ∧
      (exchangePacket hd szBuf cmd key append_str).getHeader.key = key := by
  obtain ⟨size, hheader⟩ := szBuf.getHeader_append
    { hd with cmd := cmd.word, key := key } append_str
  rw [exchangePacket, hheader]
  exact ⟨rfl, rfl⟩

/-- A length below two gigabytes survives in the `key` of a packet. -/
theorem toInt_ofNat {n : Nat} (h : n < 2147483648) : (UInt32.ofNat n).toInt32.toInt = n := by
  have hword : toUnsigned (n : Int) = UInt32.ofNat n := by
    apply UInt32.toNat_inj.mp
    rw [toUnsigned, UInt32.ofInt, UInt32.toNat_ofNat', UInt32.toNat_ofNat']
    omega
  rw [← hword, toInt_toInt32_toUnsigned (by omega) (by omega)]

end Packets

section Chunks

variable {file}

theorem length_chunk_le (n : Nat) : (file.chunk n).length ≤ APPENDSIZE := by
  rw [DBFile.chunk, List.length_take]
  exact Nat.min_le_left _ _

theorem length_chunk {n : Nat} (h : n < file.bytes.length) :
    0 < (file.chunk n).length ∧ n + (file.chunk n).length ≤ file.bytes.length := by
  rw [DBFile.chunk, List.length_take, List.length_drop, APPENDSIZE, MAXPACKETLEN, HEADERSIZE]
  omega

/-- The chunks are the file, one after the other. -/
theorem take_append_chunk (n : Nat) :
    file.bytes.take n ++ file.chunk n = file.bytes.take (n + (file.chunk n).length) := by
  rw [List.take_add, DBFile.chunk, List.append_right_inj, List.take_eq_take_iff,
    List.length_take]
  omega

end Chunks

section Phases

variable {hd name file} {t : Transfer}

/-- After a packet that brings the received bytes up to `n`, the fetcher asks for the next
one or returns. -/
theorem phase_recvLoop {n : Nat} (hn : n ≤ file.bytes.length)
    (hsender : t.sender = .awaitReply n) (htoSender : t.toSender = [])
    (htoFetcher : t.toFetcher = []) (hname : t.filename = name.chars)
    (hdest : t.dest = file.bytes.take n) :
    Phase name file (2 * (file.bytes.length - n) + 1) (t.recvLoop hd n file.bytes.length) := by
  unfold recvLoop
  split
  case isTrue hlt =>
      refine Phase.replied _ n hn ?_ hsender (by rw [htoSender]; rfl) htoFetcher
        (getHeader_exchangePacket _ _ _ _).1 hname hdest
      rw [if_pos (by omega)]
  case isFalse hge =>
      refine Phase.replied _ n hn ?_ hsender (by rw [htoSender]; rfl) htoFetcher ?_ hname hdest
      · rw [if_neg (by omega)]
      · rw [PacketBuf.getHeader_writeHeader]

theorem step_of_ne_fetcher (h : t.senderStep hd name file = none) (e : Party)
    (he : e ≠ .fetcher) : t.step hd name file e = none := by
  cases e with
  | fetcher => exact absurd rfl he
  | sender => exact h

theorem step_of_ne_sender (h : t.fetcherStep hd = none) (e : Party) (he : e ≠ .sender) :
    t.step hd name file e = none := by
  cases e with
  | fetcher => exact h
  | sender => exact absurd rfl he

theorem fetcherStep_starting (hfetcher : t.fetcher = .starting) :
    t.fetcherStep hd = some { t with
      fetcher := .awaitInfo
      fetcherBuf := exchangePacket hd t.fetcherBuf .BACKUP 0 []
      toSender := t.toSender ++ [exchangePacket hd t.fetcherBuf .BACKUP 0 []] } := by
  simp only [fetcherStep, hfetcher]

theorem fetcherStep_info {packet : PacketBuf} {rest : List PacketBuf} {filename : dbValue}
    (hfetcher : t.fetcher = .awaitInfo) (htoFetcher : t.toFetcher = packet :: rest)
    (hcmd : packet.getHeader.cmd = CMD.BACKUP_R.word) (hname : packet.getAppend = some filename) :
    t.fetcherStep hd = some ({ t with
      fetcherBuf := packet
      toFetcher := rest
      filename := filename
      dest := [] }.recvLoop hd 0 packet.getHeader.key.toInt32.toInt) := by
  simp only [fetcherStep, hfetcher, htoFetcher, hcmd, ne_eq, not_true, if_false, hname]

theorem fetcherStep_chunk {packet : PacketBuf} {rest : List PacketBuf}
    {finish_size total_size : Int} (hfetcher : t.fetcher = .awaitChunk finish_size total_size)
    (htoFetcher : t.toFetcher = packet :: rest) :
    t.fetcherStep hd = some ({ t with
      fetcherBuf := packet
      toFetcher := rest
      dest := t.dest ++ packet.read HEADERSIZE packet.getHeader.key.toNat }.recvLoop hd
        (finish_size + packet.getHeader.key.toInt32.toInt) total_size) := by
  simp only [fetcherStep, hfetcher, htoFetcher]

theorem senderStep_polling {packet : PacketBuf} {rest : List PacketBuf}
    (hsender : t.sender = .polling) (htoSender : t.toSender = packet :: rest)
    (hcmd : packet.getHeader.cmd = CMD.BACKUP.word) :
    t.senderStep hd name file = some { t with
      sender := .awaitReply 0
      senderBuf := exchangePacket hd t.senderBuf .BACKUP_R (UInt32.ofNat file.bytes.length)
        (name.chars ++ [0])
      toSender := rest
      toFetcher := t.toFetcher ++ [exchangePacket hd t.senderBuf .BACKUP_R
        (UInt32.ofNat file.bytes.length) (name.chars ++ [0])] } := by
  simp only [senderStep, hsender, htoSender, hcmd, if_true]

theorem senderStep_chunk {packet : PacketBuf} {rest : List PacketBuf} {n : Nat}
    (hsender : t.sender = .awaitReply n) (htoSender : t.toSender = packet :: rest)
    (hcmd : packet.getHeader.cmd = CMD.FILETRANS_R.word) (hn : n < file.bytes.length) :
    t.senderStep hd name file = some { t with
      sender := .awaitReply (n + (file.chunk n).length)
      senderBuf := exchangePacket hd packet .FILETRANS (UInt32.ofNat (file.chunk n).length)
        (file.chunk n)
      toSender := rest
      toFetcher := t.toFetcher ++ [exchangePacket hd packet .FILETRANS
        (UInt32.ofNat (file.chunk n).length) (file.chunk n)] } := by
  simp only [senderStep, hsender, htoSender, hcmd, ne_eq, not_true, if_false, hn, if_true]

theorem senderStep_done {packet : PacketBuf} {rest : List PacketBuf} {n : Nat}
    (hsender : t.sender = .awaitReply n) (htoSender : t.toSender = packet :: rest)
    (hcmd : packet.getHeader.cmd = CMD.FILETRANS_R.word) (hn : ¬ n < file.bytes.length) :
    t.senderStep hd name file =
      some { t with sender := .done, senderBuf := packet, toSender := rest } := by
  simp only [senderStep, hsender, htoSender, hcmd, ne_eq, not_true, if_false, hn]

/-- **In every state of a transfer that is not over, one party can go on, and the other
cannot.** -/
theorem Phase.next {r : Nat} (h : Phase name file r t) :
    t.Over ∨ ∃ e t' r', t.step hd name file e = some t' ∧
      (∀ e', e' ≠ e → t.step hd name file e' = none) ∧ Phase name file r' t' ∧
        r' < r := by
  cases h with
  | starting hfetcher hsender htoSender htoFetcher =>
      right
      refine ⟨.fetcher, _, _, fetcherStep_starting hfetcher,
        step_of_ne_fetcher (by simp only [senderStep, hsender, htoSender]),
        Phase.asked _ rfl hsender (by rw [htoSender]; rfl) htoFetcher
          (getHeader_exchangePacket _ _ _ _).1, by omega⟩
  | asked packet hfetcher hsender htoSender htoFetcher hcmd =>
      right
      refine ⟨.sender, _, _, senderStep_polling hsender htoSender hcmd,
        step_of_ne_sender (by simp only [fetcherStep, hfetcher, htoFetcher]),
        Phase.informed _ hfetcher rfl rfl (by rw [htoFetcher]; rfl)
          (getHeader_exchangePacket _ _ _ _).1 (getHeader_exchangePacket _ _ _ _).2 ?_,
        by omega⟩
      exact PacketBuf.getAppend_pack _ _ name.no_nul name.fits
  | informed packet hfetcher hsender htoSender htoFetcher hcmd hkey hname =>
      right
      have hnext : Phase name file (2 * (file.bytes.length - 0) + 1) ({ t with
          fetcherBuf := packet
          toFetcher := []
          filename := name.chars
          dest := [] }.recvLoop hd 0 file.bytes.length) :=
        phase_recvLoop (Nat.zero_le _) hsender htoSender rfl rfl rfl
      have hstep : t.fetcherStep hd = _ := fetcherStep_info hfetcher htoFetcher hcmd hname
      rw [hkey, toInt_ofNat file.length_lt] at hstep
      exact ⟨.fetcher, _, _, hstep,
        step_of_ne_fetcher (by simp only [senderStep, hsender, htoSender]), hnext, by omega⟩
  | replied packet n hn hfetcher hsender htoSender htoFetcher hcmd hname hdest =>
      right
      by_cases hlt : n < file.bytes.length
      · rw [if_pos hlt] at hfetcher
        refine ⟨.sender, _, _, senderStep_chunk hsender htoSender hcmd hlt,
          step_of_ne_sender (by simp only [fetcherStep, hfetcher, htoFetcher]),
          Phase.sent _ n hlt hfetcher rfl rfl (by rw [htoFetcher]; rfl)
            (getHeader_exchangePacket _ _ _ _).2 ?_ hname hdest, by omega⟩
        exact PacketBuf.read_append _ _ (length_chunk_le n)
      · rw [if_neg hlt] at hfetcher
        refine ⟨.sender, _, _, senderStep_done hsender htoSender hcmd hlt,
          step_of_ne_sender (by simp only [fetcherStep, hfetcher]),
          Phase.finished hfetcher rfl hname ?_, by omega⟩
        rw [hdest]
        exact List.take_of_length_le (by omega)
  | sent packet n hn hfetcher hsender htoSender htoFetcher hkey hpayload hname hdest =>
      right
      obtain ⟨hpos, hle⟩ := length_chunk hn
      have hbound := file.length_lt
      have hnat : (UInt32.ofNat (file.chunk n).length).toNat = (file.chunk n).length := by
        rw [UInt32.toNat_ofNat']
        omega
      have hnext : Phase name file
          (2 * (file.bytes.length - (n + (file.chunk n).length)) + 1) ({ t with
            fetcherBuf := packet
            toFetcher := []
            dest := t.dest ++ file.chunk n }.recvLoop hd (n + (file.chunk n).length : Nat)
              file.bytes.length) := by
        refine phase_recvLoop hle hsender htoSender rfl hname ?_
        rw [hdest, take_append_chunk]
      have hstep : t.fetcherStep hd = _ := fetcherStep_chunk hfetcher htoFetcher
      rw [hkey, hnat, hpayload, toInt_ofNat (by omega), ← Nat.cast_add] at hstep
      exact ⟨.fetcher, _, _, hstep,
        step_of_ne_fetcher (by simp only [senderStep, hsender, htoSender]), hnext, by omega⟩
  | finished hfetcher hsender hname hdest =>
      exact Or.inl ⟨hfetcher, hsender⟩

theorem step_of_over (h : t.Over) (e : Party) : t.step hd name file e = none := by
  cases e with
  | fetcher => simp only [step, fetcherStep, h.1]
  | sender => simp only [step, senderStep, h.2]

/-- Every step leads to a state of the transfer again. -/
theorem Phase.of_step {r : Nat} (h : Phase name file r t) {e : Party} {t' : Transfer}
    (hstep : t.step hd name file e = some t') : ∃ r', Phase name file r' t' := by
  rcases h.next with hover | ⟨e', t'', r', hstep', hother, hphase, -⟩
  · rw [step_of_over hover] at hstep
    cases hstep
  · by_cases he : e = e'
    · subst he
      rw [hstep'] at hstep
      cases hstep
      exact ⟨r', hphase⟩
    · rw [hother e he] at hstep
      cases hstep

theorem phase_of_run {fetcherBuf senderBuf : PacketBuf} {events : List Party}
    (hrun : run (step hd name file) (init fetcherBuf senderBuf) events = some t) :
    ∃ r, Phase name file r t := by
  refine run_invariant (fun t => ∃ r, Phase name file r t) ?_ hrun
    ⟨_, Phase.starting rfl rfl rfl rfl⟩
  rintro s e s' ⟨r, hphase⟩ hstep
  exact hphase.of_step hstep

/-- **When both parties have returned, the name and the file have arrived.** -/
theorem transferred {fetcherBuf senderBuf : PacketBuf} {events : List Party}
    (hrun : run (step hd name file) (init fetcherBuf senderBuf) events = some t)
    (hover : t.Over) : t.filename = name.chars ∧ t.dest = file.bytes := by
  obtain ⟨r, hphase⟩ := phase_of_run hrun
  obtain ⟨-, hdone⟩ := hover
  cases hphase with
  | finished _ _ hname hdest => exact ⟨hname, hdest⟩
  | starting _ hsender => rw [hsender] at hdone; cases hdone
  | asked _ _ hsender => rw [hsender] at hdone; cases hdone
  | informed _ _ hsender => rw [hsender] at hdone; cases hdone
  | replied _ _ _ _ hsender => rw [hsender] at hdone; cases hdone
  | sent _ _ _ _ hsender => rw [hsender] at hdone; cases hdone

theorem Phase.exists_run {r : Nat} (h : Phase name file r t) :
    ∃ events t', run (step hd name file) t events = some t' ∧ t'.Over := by
  induction r using Nat.strong_induction_on generalizing t with
  | _ r ih =>
      rcases h.next with hover | ⟨e, t', r', hstep, -, hphase, hlt⟩
      · exact ⟨[], t, rfl, hover⟩
      · obtain ⟨events, t'', hrun, hover⟩ := ih r' hlt hphase
        exact ⟨e :: events, t'', run_cons_eq_some.mpr ⟨t', hstep, hrun⟩, hover⟩

/-- **A transfer can be brought to its end from every state that it gets into.** -/
theorem exists_transfer {fetcherBuf senderBuf : PacketBuf} {events : List Party}
    (hrun : run (step hd name file) (init fetcherBuf senderBuf) events = some t) :
    ∃ events' t', run (step hd name file) t events' = some t' ∧ t'.Over := by
  obtain ⟨r, hphase⟩ := phase_of_run hrun
  exact hphase.exists_run

end Phases

end Transfer

end DistributedDB
