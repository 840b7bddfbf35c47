import DistributedDB.MainLoop
import DistributedDB.Wire

/-!
# A value on its way to the database and back

`DBSetKeyValue` and `DBGetKeyValue` of the client's `netdbapi.c`, over the main loop of
`dbserver.c` and the branches `SET`, `GET` and `DEL` of `HandleDBRequest`, with packets
as bytes.  The client repeats a request when the connection fails or the slave answers
with its list; each attempt comes with the versions of both sides and with whatever the
slave's buffers held before.  Packets arrive whole, and a client has one request at a
time.  Reading a string that has no NUL byte up to the end of the buffer is undefined; no
result comes of it.

**Results.**
* `exchange_induction`, `exchange_returns`: the rules for the client's loop.
* `faithful_iff`: exactly the values with at most 1007 characters are stored and read
  back.
-/

namespace DistributedDB

open PartialMap

/-- `fgets` leaves fewer characters than that. -/
def MAX_INPUT_LEN : Nat := 1024

/-- A value on the client's input line. -/
structure InputValue where
  chars : dbValue
  ne_nil : chars ≠ []
  no_nul : 0 ∉ chars
  length_lt : chars.length < MAX_INPUT_LEN

/-- What a slave's variables hold when a packet arrives, the database apart. -/
structure SlaveMemory where
  /-- `GetVersion()`. -/
  version : UInt32
  /-- The bytes of the slave list. -/
  slaves : List UInt8
  szBuf : PacketBuf
  szReplyMsg : PacketBuf
  sendhd : DBPacketHeader
  /-- Whether `tchdbput` succeeds. -/
  tchdbput : Bool
  /-- The message of a call that fails. -/
  lasterr : dbValue

/-- The request that `DBSetKeyValue` packs. -/
def packSet (key : dbKey) (value : dbValue) (version : UInt32) (buf : PacketBuf) : PacketBuf :=
  buf.pack ⟨0, CMD.SET.word, key, version⟩ value

/-- The request that `DBGetKeyValue` packs. -/
def packGet (key : dbKey) (version : UInt32) (buf : PacketBuf) : PacketBuf :=
  buf.writeHeader ⟨0, CMD.GET.word, key, version⟩

namespace SlaveMemory

variable (m : SlaveMemory)

/-- The packet of `SendSlaveList`; the key is not set. -/
def sendSlaveList : PacketBuf :=
  let szBuf := PacketBuf.writeHeader (ByteBuffer.zero MAXPACKETLEN)
    ⟨m.sendhd.size, CMD.UPDATE_VERSION.word, m.sendhd.key, m.version⟩
  (szBuf.append m.slaves).2

/-- The end of `HandleDBRequest`: the packet that is sent; `key` and `version` are left
from before. -/
def writeReply (cmd : CMD) (strAppend : dbValue) : PacketBuf :=
  let sendhd := { m.sendhd with cmd := cmd.word }
  if cmd = .CMDFAIL then m.szReplyMsg.pack sendhd m.lasterr
  else if cmd = .GET_R then m.szReplyMsg.pack sendhd strAppend
  else m.szReplyMsg.writeHeader sendhd

/-- The switch of `HandleDBRequest` with the reply: the database and the packet that is
sent. -/
def handleDBRequest (hdb : HDB) (buf : PacketBuf) : Option (HDB × PacketBuf) :=
  let precvhd := buf.getHeader
  match CMD.ofWord precvhd.cmd with
  | some .SET =>
      match buf.getAppend with
      | none => none
      | some value =>
          if m.tchdbput then some (hdb.insert precvhd.key value, m.writeReply .SET_R [])
          else some (hdb, m.writeReply .CMDFAIL [])
  | some .GET =>
      match contents hdb precvhd.key with
      | some value => some (hdb, m.writeReply .GET_R value)
      | none => some (hdb, m.writeReply .CMDFAIL [])
  | some .DEL =>
      if contents hdb precvhd.key = none then some (hdb, m.writeReply .CMDFAIL [])
      else some (hdb.erase precvhd.key, m.writeReply .DEL_R [])
  -- the other commands are not part of this model
  | _ => none

/-- The main loop on a packet that arrives. -/
def serve (hdb : HDB) (packet : PacketBuf) : Option (HDB × PacketBuf) :=
  let szBuf := m.szBuf.recvMsg packet.sendMsg packet.length_sendMsg.le
  let phd := szBuf.getHeader
  if CMD.ADD_SLAVE.word ≤ phd.cmd then none
  else if phd.version < m.version ∧ phd.cmd ≠ CMD.OPEN.word ∧ phd.cmd ≠ CMD.CLOSE.word then
    some (hdb, m.sendSlaveList)
  else m.handleDBRequest hdb szBuf

section Serve

variable {m} {hdb : HDB} {buf : PacketBuf}

theorem getHeader_writeReply (cmd : CMD) (s : dbValue) :
    (m.writeReply cmd s).getHeader.cmd = cmd.word := by
  unfold writeReply
  split
  · obtain ⟨size, hheader⟩ := m.szReplyMsg.getHeader_pack
      { m.sendhd with cmd := cmd.word } m.lasterr
    rw [hheader]
  · split
    · obtain ⟨size, hheader⟩ := m.szReplyMsg.getHeader_pack
        { m.sendhd with cmd := cmd.word } s
      rw [hheader]
    · rw [PacketBuf.getHeader_writeHeader]

theorem getHeader_sendSlaveList : m.sendSlaveList.getHeader.cmd = CMD.UPDATE_VERSION.word := by
  obtain ⟨size, hheader⟩ := PacketBuf.getHeader_append (ByteBuffer.zero MAXPACKETLEN)
    ⟨m.sendhd.size, CMD.UPDATE_VERSION.word, m.sendhd.key, m.version⟩ m.slaves
  rw [sendSlaveList, hheader]

/-- The reply to a `GET` has the value, when there is room for it. -/
theorem getAppend_writeReply {value : dbValue} (hno : 0 ∉ value)
    (hfit : value.length + 1 ≤ APPENDSIZE) :
    (m.writeReply .GET_R value).getAppend = some value := by
  rw [writeReply, if_neg (by decide), if_pos rfl]
  exact PacketBuf.getAppend_pack _ _ hno hfit

/-- A request that is not handed to `HandleSlaveRequest`. -/
theorem serve_of_cmd {cmd : CMD} (hcmd : buf.getHeader.cmd = cmd.word)
    (hclient : cmd.word < CMD.ADD_SLAVE.word ∧ cmd.word ≠ CMD.OPEN.word ∧
      cmd.word ≠ CMD.CLOSE.word) :
    m.serve hdb buf =
      if buf.getHeader.version < m.version then some (hdb, m.sendSlaveList)
      else m.handleDBRequest hdb buf := by
  obtain ⟨hslave, hopen, hclose⟩ := hclient
  simp only [serve, PacketBuf.recvMsg_sendMsg, hcmd, UInt32.not_le.mpr hslave, if_false, hopen,
    hclose, ne_eq, not_false_eq_true, and_true]

/-- What is stored is the string that the packet holds. -/
theorem serve_packSet (key : dbKey) (value : dbValue) (version : UInt32) :
    m.serve hdb (packSet key value version buf) =
      if version < m.version then some (hdb, m.sendSlaveList)
      else
        match (packSet key value version buf).getAppend with
        | none => none
        | some stored =>
            if m.tchdbput then some (hdb.insert key stored, m.writeReply .SET_R [])
            else some (hdb, m.writeReply .CMDFAIL []) := by
  obtain ⟨size, hheader⟩ := buf.getHeader_pack ⟨0, CMD.SET.word, key, version⟩ value
  have hpack : (packSet key value version buf).getHeader =
      ⟨size, CMD.SET.word, key, version⟩ := hheader
  rw [serve_of_cmd (congrArg DBPacketHeader.cmd hpack) (by decide), hpack]
  simp only [handleDBRequest, hpack, CMD.ofWord_word]

theorem serve_packGet (key : dbKey) (version : UInt32) :
    m.serve hdb (packGet key version buf) =
      if version < m.version then some (hdb, m.sendSlaveList)
      else
        match contents hdb key with
        | some value => some (hdb, m.writeReply .GET_R value)
        | none => some (hdb, m.writeReply .CMDFAIL []) := by
  have hpack : (packGet key version buf).getHeader =
      ⟨UInt32.ofNat HEADERSIZE, CMD.GET.word, key, version⟩ :=
    buf.getHeader_writeHeader ⟨0, CMD.GET.word, key, version⟩
  rw [serve_of_cmd (congrArg DBPacketHeader.cmd hpack) (by decide), hpack]
  simp only [handleDBRequest, hpack, CMD.ofWord_word]

end Serve

end SlaveMemory

/-- What becomes of a packet of the client. -/
inductive Fate where
  /-- The connection fails before the slave has it. -/
  | unsent
  /-- The connection fails before the client has the reply. -/
  | unanswered
  | answered
deriving DecidableEq, Repr

/-- One round of the client's loop. -/
structure Attempt where
  /-- The version of the client's list. -/
  version : UInt32
  slave : SlaveMemory
  fate : Fate

/-- The loop from `REDO` on: the packet that is received last, and the database.  `pack`
writes the request with a version into the client's buffer. -/
def exchange (pack : UInt32 → PacketBuf → PacketBuf) :
    List Attempt → PacketBuf → HDB → Option (PacketBuf × HDB)
  | [], _, _ => none
  | a :: rest, buf, hdb =>
      let packet := pack a.version buf
      match a.fate with
      | .unsent => exchange pack rest packet hdb
      | .unanswered =>
          match a.slave.serve hdb packet with
          | none => none
          | some (hdb', _) => exchange pack rest packet hdb'
      | .answered =>
          match a.slave.serve hdb packet with
          | none => none
          | some (hdb', reply) =>
              let received := packet.recvMsg reply.sendMsg reply.length_sendMsg.le
              if received.getHeader.cmd = CMD.UPDATE_VERSION.word then
                exchange pack rest received hdb'
              else some (received, hdb')

/-- A round that is answered, and not with the slave's list. -/
def Attempt.Answers (a : Attempt) : Prop :=
  a.fate = .answered ∧ a.slave.version ≤ a.version

section Exchange

variable {pack : UInt32 → PacketBuf → PacketBuf} (Kept : HDB → Prop)
  (Done : HDB → PacketBuf → Prop)

/-- What every handling of the request keeps holds afterwards, and the reply is one of
these handlings. -/
theorem exchange_induction
    (hserve : ∀ (m : SlaveMemory) version buf hdb hdb' reply, Kept hdb →
      m.serve hdb (pack version buf) = some (hdb', reply) →
      Kept hdb' ∧ (reply.getHeader.cmd ≠ CMD.UPDATE_VERSION.word → Done hdb' reply))
    {attempts : List Attempt} {buf reply : PacketBuf} {hdb hdb' : HDB} (hkept : Kept hdb)
    (h : exchange pack attempts buf hdb = some (reply, hdb')) :
    Kept hdb' ∧ Done hdb' reply := by
  induction attempts generalizing buf hdb with
  | nil => cases h
  | cons a rest ih =>
      simp only [exchange] at h
      cases hfate : a.fate with
      | unsent =>
          simp only [hfate] at h
          exact ih hkept h
      | unanswered =>
          simp only [hfate] at h
          split at h
          case h_1 => cases h
          case h_2 hserved => exact ih (hserve _ _ _ _ _ _ hkept hserved).1 h
      | answered =>
          simp only [hfate, PacketBuf.recvMsg_sendMsg] at h
          split at h
          case h_1 => cases h
          case h_2 hserved =>
              obtain ⟨hkept', hdone⟩ := hserve _ _ _ _ _ _ hkept hserved
              split at h
              case isTrue => exact ih hkept' h
              case isFalse hreply =>
                  cases h
                  exact ⟨hkept', hdone hreply⟩

/-- The loop ends with the first round that answers, if every handling of the request has
a result and only an old version is answered with the list. -/
theorem exchange_returns
    (hserve : ∀ (m : SlaveMemory) version buf hdb, ∃ hdb' reply,
      m.serve hdb (pack version buf) = some (hdb', reply) ∧
        (m.version ≤ version → reply.getHeader.cmd ≠ CMD.UPDATE_VERSION.word))
    {attempts : List Attempt} (hanswers : ∃ a ∈ attempts, a.Answers) (buf : PacketBuf)
    (hdb : HDB) : ∃ r, exchange pack attempts buf hdb = some r := by
  induction attempts generalizing buf hdb with
  | nil => simp at hanswers
  | cons a rest ih =>
      obtain ⟨hdb', reply, hserved, hreply⟩ := hserve a.slave a.version buf hdb
      by_cases ha : a.Answers
      · refine ⟨(reply, hdb'), ?_⟩
        simp only [exchange, ha.1, hserved, PacketBuf.recvMsg_sendMsg, hreply ha.2, if_false]
      · have hrest : ∃ a ∈ rest, a.Answers := by
          obtain ⟨b, hb, hb'⟩ := hanswers
          rcases List.mem_cons.mp hb with rfl | hmem
          · exact absurd hb' ha
          · exact ⟨b, hmem, hb'⟩
        simp only [exchange, hserved, PacketBuf.recvMsg_sendMsg]
        cases a.fate with
        | unsent => exact ih hrest _ _
        | unanswered => exact ih hrest _ _
        | answered =>
            dsimp only
            split
            · exact ih hrest _ _
            · exact ⟨_, rfl⟩

end Exchange

/-- `DBSetKeyValue`: what it returns, if it returns, and the database. -/
def dbSetKeyValue (key : dbKey) (value : dbValue) (attempts : List Attempt) (buf : PacketBuf)
    (hdb : HDB) : Option (Int × HDB) :=
  match exchange (packSet key value) attempts buf hdb with
  | none => none
  | some (reply, hdb') =>
      if reply.getHeader.cmd = CMD.CMDFAIL.word then some (-1, hdb') else some (0, hdb')

/-- `DBGetKeyValue`: the string at the address that it returns, `none` for `NULL`, and
the database. -/
def dbGetKeyValue (key : dbKey) (attempts : List Attempt) (buf : PacketBuf) (hdb : HDB) :
    Option (Option dbValue × HDB) :=
  match exchange (packGet key) attempts buf hdb with
  | none => none
  | some (reply, hdb') =>
      if reply.getHeader.cmd = CMD.CMDFAIL.word then some (none, hdb')
      else
        match reply.getAppend with
        | none => none
        | some value => some (some value, hdb')

/-- There is room for the value and its NUL byte in a packet. -/
def Transportable (value : dbValue) : Prop :=
  value.length + 1 ≤ APPENDSIZE

instance (value : dbValue) : Decidable (Transportable value) :=
  inferInstanceAs (Decidable (value.length + 1 ≤ APPENDSIZE))

/-- What is asked of the value: when `DBSetKeyValue` returns 0, the other keys keep their
values and `DBGetKeyValue` yields it, as soon as a slave answers; and a value that cannot
be transported gives an error and leaves the database alone. -/
structure Faithful (hdb : HDB) (key : dbKey) (value : dbValue) : Prop where
  others : ∀ attempts buf hdb', dbSetKeyValue key value attempts buf hdb = some (0, hdb') →
    ∀ other, other ≠ key → contents hdb' other = contents hdb other
  yields : ∀ attempts buf hdb', dbSetKeyValue key value attempts buf hdb = some (0, hdb') →
    ∀ attempts' buf' r hdb'', dbGetKeyValue key attempts' buf' hdb' = some (r, hdb'') →
      r = some value ∧ hdb'' = hdb'
  returns : ∀ attempts buf hdb', dbSetKeyValue key value attempts buf hdb = some (0, hdb') →
    ∀ attempts' buf', (∃ a ∈ attempts', a.Answers) →
      ∃ r, dbGetKeyValue key attempts' buf' hdb' = some r
  reported : ¬ Transportable value →
    ∀ attempts buf r hdb', dbSetKeyValue key value attempts buf hdb = some (r, hdb') →
      r = -1 ∧ contents hdb' = contents hdb

section Transport

variable {hdb hdb' : HDB} {key : dbKey} {value : dbValue} {attempts : List Attempt}
  {buf : PacketBuf}

/-- One handling of a `SET` whose packet holds the value. -/
theorem serve_packSet_cases {m : SlaveMemory} {version : UInt32} {reply : PacketBuf}
    (hstored : (packSet key value version buf).getAppend = some value)
    (h : m.serve hdb (packSet key value version buf) = some (hdb', reply)) :
    (hdb' = hdb ∧ (reply.getHeader.cmd = CMD.UPDATE_VERSION.word ∨
        reply.getHeader.cmd = CMD.CMDFAIL.word)) ∨
      hdb' = hdb.insert key value := by
  rw [SlaveMemory.serve_packSet, hstored] at h
  split at h
  case isTrue =>
      cases h
      exact Or.inl ⟨rfl, Or.inl SlaveMemory.getHeader_sendSlaveList⟩
  case isFalse =>
      dsimp only at h
      split at h
      case isTrue =>
          cases h
          exact Or.inr rfl
      case isFalse =>
          cases h
          exact Or.inl ⟨rfl, Or.inr (SlaveMemory.getHeader_writeReply _ _)⟩

/-- A value that fits a packet is stored when the reply is not an error. -/
theorem contents_of_packSet (hno : 0 ∉ value) (hfit : Transportable value) {reply : PacketBuf}
    (h : exchange (packSet key value) attempts buf hdb = some (reply, hdb'))
    (hok : reply.getHeader.cmd ≠ CMD.CMDFAIL.word) :
    contents hdb' = Function.update (contents hdb) key (some value) := by
  have hrun := exchange_induction
    (fun file => contents file = contents hdb ∨
      contents file = Function.update (contents hdb) key (some value))
    (fun file reply => reply.getHeader.cmd ≠ CMD.CMDFAIL.word →
      contents file = Function.update (contents hdb) key (some value))
    (fun m version buf file file' reply hkept hserved => by
      have hstored := buf.getAppend_pack ⟨0, CMD.SET.word, key, version⟩ hno hfit
      rcases serve_packSet_cases hstored hserved with ⟨rfl, hreply⟩ | rfl
      · refine ⟨hkept, fun hversion hok => ?_⟩
        rcases hreply with hreply | hreply
        · exact absurd hreply hversion
        · exact absurd hreply hok
      · have hinsert : contents (file.insert key value) =
            Function.update (contents hdb) key (some value) := by
          rcases hkept with hkept | hkept
          · rw [contents_insert, hkept]
          · rw [contents_insert, hkept, Function.update_idem]
        exact ⟨Or.inr hinsert, fun _ _ => hinsert⟩)
    (Or.inl rfl) h
  exact hrun.2 hok

/-- A stored value comes back in the reply to a `GET`. -/
theorem reply_of_packGet (hvalue : contents hdb key = some value) (hno : 0 ∉ value)
    (hfit : Transportable value) {reply : PacketBuf}
    (h : exchange (packGet key) attempts buf hdb = some (reply, hdb')) :
    hdb' = hdb ∧ reply.getHeader.cmd = CMD.GET_R.word ∧ reply.getAppend = some value := by
  refine exchange_induction (fun file => file = hdb)
    (fun _ reply => reply.getHeader.cmd = CMD.GET_R.word ∧ reply.getAppend = some value)
    ?_ rfl h
  rintro m version buf file file' reply rfl hserved
  rw [SlaveMemory.serve_packGet, hvalue] at hserved
  split at hserved
  case isTrue =>
      cases hserved
      exact ⟨rfl, fun hversion => absurd SlaveMemory.getHeader_sendSlaveList hversion⟩
  case isFalse =>
      cases hserved
      exact ⟨rfl, fun _ => ⟨SlaveMemory.getHeader_writeReply _ _,
        SlaveMemory.getAppend_writeReply hno hfit⟩⟩

/-- Every handling of a `GET` has a result. -/
theorem packGet_returns (hanswers : ∃ a ∈ attempts, a.Answers) :
    ∃ r, exchange (packGet key) attempts buf hdb = some r := by
  refine exchange_returns (fun m version buf file => ?_) hanswers buf hdb
  rw [SlaveMemory.serve_packGet]
  split
  case isTrue hlt =>
      exact ⟨_, _, rfl, fun hle => absurd hlt (UInt32.not_lt.mpr hle)⟩
  case isFalse =>
      split
      case h_1 =>
          refine ⟨_, _, rfl, fun _ => ?_⟩
          rw [SlaveMemory.getHeader_writeReply]
          decide
      case h_2 =>
          refine ⟨_, _, rfl, fun _ => ?_⟩
          rw [SlaveMemory.getHeader_writeReply]
          decide

theorem exchange_of_dbSetKeyValue
    (h : dbSetKeyValue key value attempts buf hdb = some (0, hdb')) :
    ∃ reply, exchange (packSet key value) attempts buf hdb = some (reply, hdb') ∧
      reply.getHeader.cmd ≠ CMD.CMDFAIL.word := by
  unfold dbSetKeyValue at h
  split at h
  case h_1 => cases h
  case h_2 reply file hexchange =>
      split at h
      case isTrue => simp at h
      case isFalse hok =>
          cases h
          exact ⟨reply, hexchange, hok⟩

/-- `DBSetKeyValue` of a value that fits a packet. -/
theorem contents_of_dbSetKeyValue (hno : 0 ∉ value) (hfit : Transportable value)
    (h : dbSetKeyValue key value attempts buf hdb = some (0, hdb')) :
    contents hdb' = Function.update (contents hdb) key (some value) := by
  obtain ⟨reply, hexchange, hok⟩ := exchange_of_dbSetKeyValue h
  exact contents_of_packSet hno hfit hexchange hok

/-- `DBGetKeyValue` of a key with such a value. -/
theorem dbGetKeyValue_eq (hvalue : contents hdb key = some value) (hno : 0 ∉ value)
    (hfit : Transportable value) :
    dbGetKeyValue key attempts buf hdb =
      (exchange (packGet key) attempts buf hdb).map fun _ => (some value, hdb) := by
  unfold dbGetKeyValue
  split
  case h_1 hnone => rw [hnone, Option.map_none]
  case h_2 reply file hexchange =>
      obtain ⟨rfl, hcmd, happend⟩ := reply_of_packGet hvalue hno hfit hexchange
      rw [hexchange, Option.map_some, hcmd, if_neg (by decide), happend]

theorem faithful_of_transportable (hno : 0 ∉ value) (hfit : Transportable value) :
    Faithful hdb key value where
  others := by
    intro attempts buf hdb' hset other hother
    rw [contents_of_dbSetKeyValue hno hfit hset, Function.update_of_ne hother]
  yields := by
    intro attempts buf hdb' hset attempts' buf' r hdb'' hget
    have hvalue : contents hdb' key = some value := by
      rw [contents_of_dbSetKeyValue hno hfit hset, Function.update_self]
    rw [dbGetKeyValue_eq hvalue hno hfit] at hget
    obtain ⟨-, -, heq⟩ := Option.map_eq_some_iff.mp hget
    cases heq
    exact ⟨rfl, rfl⟩
  returns := by
    intro attempts buf hdb' hset attempts' buf' hanswers
    have hvalue : contents hdb' key = some value := by
      rw [contents_of_dbSetKeyValue hno hfit hset, Function.update_self]
    obtain ⟨reply, hreply⟩ := packGet_returns hanswers
    rw [dbGetKeyValue_eq hvalue hno hfit, hreply]
    exact ⟨_, rfl⟩
  reported := fun hlong => absurd hfit hlong

end Transport

section Refused

/-- A round with a slave that answers, with zeroed buffers. -/
def answering : Attempt where
  version := 0
  slave :=
    { version := 0
      slaves := []
      szBuf := ByteBuffer.zero MAXPACKETLEN
      szReplyMsg := ByteBuffer.zero MAXPACKETLEN
      sendhd := ⟨0, 0, 0, 0⟩
      tchdbput := true
      lasterr := [] }
  fate := .answered

theorem getAppend_zero : PacketBuf.getAppend (ByteBuffer.zero MAXPACKETLEN) = some [] := by
  decide +kernel

/-- A value that `Append` refuses: the client sends what stood in its buffer, and reports
success. -/
theorem dbSetKeyValue_refused (hdb : HDB) (key : dbKey) {value : dbValue}
    (hlong : ¬ Transportable value) :
    dbSetKeyValue key value [answering] (ByteBuffer.zero MAXPACKETLEN) hdb =
      some (0, hdb.insert key []) := by
  have hlt : APPENDSIZE < value.length + 1 := not_le.mp hlong
  have happend : (packSet key value 0 (ByteBuffer.zero MAXPACKETLEN)).getAppend = some [] :=
    (PacketBuf.getAppend_pack_of_lt _ _ hlt).trans getAppend_zero
  have hreply : (answering.slave.writeReply .SET_R []).getHeader.cmd = CMD.SET_R.word :=
    SlaveMemory.getHeader_writeReply _ _
  have hserved : answering.slave.serve hdb
      (packSet key value 0 (ByteBuffer.zero MAXPACKETLEN)) =
        some (hdb.insert key [], answering.slave.writeReply .SET_R []) := by
    rw [SlaveMemory.serve_packSet, happend, if_neg (by decide)]
    rfl
  have hversion : CMD.SET_R.word ≠ CMD.UPDATE_VERSION.word := by decide
  have hfail : CMD.SET_R.word ≠ CMD.CMDFAIL.word := by decide
  have hexchange : exchange (packSet key value) [answering] (ByteBuffer.zero MAXPACKETLEN) hdb =
      some (answering.slave.writeReply .SET_R [], hdb.insert key []) := by
    rw [exchange]
    simp only [show answering.fate = .answered from rfl, show answering.version = 0 from rfl,
      hserved, PacketBuf.recvMsg_sendMsg, hreply, hversion, if_false]
  simp only [dbSetKeyValue, hexchange, hreply, hfail, if_false]

end Refused

/-- **Exactly the values for which a packet has room are stored and read back.** -/
theorem faithful_iff (hdb : HDB) (key : dbKey) (value : InputValue) :
    Faithful hdb key value.chars ↔ Transportable value.chars := by
  constructor
  · intro h
    by_contra hlong
    have hset := h.reported hlong _ _ _ _ (dbSetKeyValue_refused hdb key hlong)
    exact absurd hset.1 (by decide)
  · exact faithful_of_transportable value.no_nul

/-- 1008 times the letter `a`. -/
def longValue : InputValue where
  chars := List.replicate 1008 97
  ne_nil := by decide
  no_nul := by decide +kernel
  length_lt := by decide +kernel

/-- The client reports success, and the key has the empty string. -/
theorem long_value_lost :
    dbSetKeyValue 7 longValue.chars [answering] (ByteBuffer.zero MAXPACKETLEN) (∅ : HDB) =
        some (0, AList.insert (7 : dbKey) ([] : dbValue) (∅ : HDB)) ∧
      ¬ Faithful (∅ : HDB) 7 longValue.chars := by
  have hlong : ¬ Transportable longValue.chars := by decide +kernel
  have hset := dbSetKeyValue_refused (∅ : HDB) 7 hlong
  refine ⟨hset, fun h => ?_⟩
  exact absurd (h.reported hlong _ _ _ _ hset).1 (by decide)

end DistributedDB
