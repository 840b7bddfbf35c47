import DistributedDB.MainLoop
import DistributedDB.PacketRoundTrip

/-!
# What a worker keeps from one request to the next

The loop of `HandleDBRequest` over the requests that one worker handles.  The worker's
variables `szReplyMsg`, `strAppend` and `sendhd` stay from one request to the next, and so
does the last error message of `tcDB.c`.  The `switch` sets `sendhd.cmd` for the five
commands it knows and for no other; after a `GET` the value is appended and freed, and the
pointer stays.

A database function has no result on a handle that is not open, and `OPEN` none on a name
that the arrays `file_master` and `file_tmp` do not hold; that is a matter of the request
alone.  Reading a freed string, or a null pointer, is told apart from this.  A name or a
value is a string that ends in the packet.

**Results.**
* `Leftover.switched_same`: a command that the `switch` knows overwrites whatever is left.
* `PacketBuf.logical_append`: what a reply says, whatever the buffer held before.
* `ownReply_iff`: the reply depends on the request alone exactly for these commands.
-/

namespace DistributedDB

open PartialMap Run

def MAX_FILENAME_LEN : Nat := 128

/-- The databases as a request finds them. -/
structure DatabaseState where
  /-- The records behind an open handle. -/
  records : DataBase → Option HDB
  file_master : dbValue
  file_tmp : dbValue
  /-- The names given to `DBCreate`, and the handles given to `DBDelete`. -/
  created : List dbValue
  deleted : List DataBase

/-- What the calls of Tokyo Cabinet return while a request is handled. -/
structure DatabaseResults where
  /-- The handle that `DBCreate` returns for a name. -/
  create : dbValue → DataBase
  delete : Bool
  tchdbput : Bool
  tchdbget : Bool
  tchdbout : Bool
  /-- `tchdberrmsg`, which fits into `lasterr`. -/
  errmsg : dbValue
  errmsg_lt : errmsg.length < 1024

/-- A request that the main loop has put into the queue. -/
structure AdmittedRequest where
  packet : DBPacket
  hcsock : ClientSockHandle
  db : DatabaseState
  results : DatabaseResults
  version : UInt32
  admitted : gate packet version = .enQueue

/-- `char *strAppend`. -/
inductive StringPtr where
  | null
  | live (value : dbValue)
  | freed
deriving DecidableEq, Repr

/-- What is left of earlier requests. -/
structure Leftover where
  szReplyMsg : PacketBuf
  strAppend : StringPtr
  sendhd : DBPacketHeader
  lasterr : dbValue
deriving DecidableEq, Repr

/-- A request that has been answered. -/
structure Answered where
  left : Leftover
  hcsock : ClientSockHandle
  db : DatabaseState

/-- What becomes of a request. -/
inductive Outcome where
  /-- The request itself has no defined result. -/
  | undefined
  /-- A freed string or a null pointer is read. -/
  | stale
  | answered (a : Answered)

/-- What a packet says: its command, its size and the bytes within that size. -/
def PacketBuf.logical (buf : PacketBuf) : UInt32 × UInt32 × List UInt8 :=
  (buf.getHeader.cmd, buf.getHeader.size,
    buf.read HEADERSIZE (buf.getHeader.size.toNat - HEADERSIZE))

namespace Leftover

/-- A started worker; nothing has been written to `sendhd`. -/
structure Started (l : Leftover) : Prop where
  szReplyMsg : l.szReplyMsg = ByteBuffer.zero MAXPACKETLEN
  strAppend : l.strAppend = .null

def setCmd (l : Leftover) (cmd : CMD) : Leftover :=
  { l with sendhd := { l.sendhd with cmd := cmd.word } }

/-- `sendhd.cmd = CMDFAIL` after a call that has set the error message. -/
def fail (l : Leftover) (r : AdmittedRequest) : Leftover :=
  { l.setCmd .CMDFAIL with lasterr := r.results.errmsg }

/-- The command `OPEN`. -/
def opens (l : Leftover) (r : AdmittedRequest) :
    Option (Leftover × ClientSockHandle × DatabaseState) :=
  let name := r.packet.append
  if name.length + 2 ≤ MAX_FILENAME_LEN then
    let hdb := r.results.create name
    some (if hdb = 0 then l.fail r else l.setCmd .OPEN_R, { r.hcsock with app := hdb },
      { r.db with
        file_master := name
        file_tmp := name ++ [126]
        created := r.db.created ++ [name] })
  else none

/-- The other commands on the handle of the connection. -/
def applies (l : Leftover) (r : AdmittedRequest) (hdb : HDB) : Leftover × DatabaseState :=
  let app := r.hcsock.app
  let key := r.packet.key
  match r.packet.cmd with
  | .CLOSE =>
      (if r.results.delete then l.setCmd .CLOSE_R else l.fail r,
        { r.db with deleted := r.db.deleted ++ [app] })
  | .SET =>
      if r.results.tchdbput then
        (l.setCmd .SET_R,
          { r.db with
            records := Function.update r.db.records app (some (hdb.insert key r.packet.append)) })
      else (l.fail r, r.db)
  | .GET =>
      match if r.results.tchdbget then contents hdb key else none with
      | some value => ({ l.setCmd .GET_R with strAppend := .live value }, r.db)
      | none => ({ l.fail r with strAppend := .null }, r.db)
  | .DEL =>
      if r.results.tchdbout ∧ contents hdb key ≠ none then
        (l.setCmd .DEL_R,
          { r.db with records := Function.update r.db.records app (some (hdb.erase key)) })
      else (l.fail r, r.db)
  | _ => (l, r.db)

/-- The `switch`: the variables, the handle and the databases afterwards. -/
def switched (l : Leftover) (r : AdmittedRequest) :
    Option (Leftover × ClientSockHandle × DatabaseState) :=
  match r.packet.cmd with
  | .OPEN => l.opens r
  | .CLOSE | .SET | .GET | .DEL =>
      (r.db.records r.hcsock.app).map fun hdb =>
        ((l.applies r hdb).1, r.hcsock, (l.applies r hdb).2)
  -- "Unknown command."
  | _ => some (l, r.hcsock, r.db)

/-- The send buffer is written. -/
def writes (l : Leftover) : Option Leftover :=
  let buf := l.szReplyMsg.writeHeader l.sendhd
  if l.sendhd.cmd = CMD.CMDFAIL.word then
    some { l with szReplyMsg := (buf.append (l.lasterr ++ [0])).2 }
  else if l.sendhd.cmd = CMD.GET_R.word then
    match l.strAppend with
    | .live value =>
        some { l with szReplyMsg := (buf.append (value ++ [0])).2, strAppend := .freed }
    | _ => none
  else some { l with szReplyMsg := buf }

/-- One iteration of `HandleDBRequest`. -/
def handleDBRequest (l : Leftover) (r : AdmittedRequest) : Outcome :=
  match l.switched r with
  | none => .undefined
  | some (l, hcsock, db) =>
      match l.writes with
      | none => .stale
      | some l => .answered ⟨l, hcsock, db⟩

/-- What the next request finds. -/
def step (l : Leftover) (r : AdmittedRequest) : Option Leftover :=
  match l.handleDBRequest r with
  | .answered a => some a.left
  | _ => none

end Leftover

namespace Answered

/-- The packet that is sent. -/
def reply (a : Answered) : PacketBuf :=
  a.left.szReplyMsg

/-- `DBServiceStop` is called. -/
def closes (a : Answered) : Bool :=
  a.left.sendhd.cmd == CMD.CLOSE_R.word

/-- The same for the client, for the databases and for the connection. -/
structure Same (a b : Answered) : Prop where
  reply : a.reply.logical = b.reply.logical
  db : a.db = b.db
  hcsock : a.hcsock = b.hcsock
  closes : a.closes = b.closes

end Answered

/-- Two outcomes of one request agree, and none of them comes of a freed string. -/
inductive Outcome.Agree : Outcome → Outcome → Prop where
  | undefined : Agree .undefined .undefined
  | answered {a b : Answered} (h : a.Same b) : Agree (.answered a) (.answered b)

/-- The reply to the request depends on the request alone, whatever a worker has handled
before. -/
def AdmittedRequest.OwnReply (r : AdmittedRequest) : Prop :=
  ∀ start : Leftover, start.Started → ∀ history history' l l',
    run Leftover.step start history = some l → run Leftover.step start history' = some l' →
      (l.handleDBRequest r).Agree (l'.handleDBRequest r)

/-- The `switch` has a case for the command. -/
def CMD.InSwitch (cmd : CMD) : Prop :=
  cmd = .OPEN ∨ cmd = .CLOSE ∨ cmd = .SET ∨ cmd = .GET ∨ cmd = .DEL

instance (cmd : CMD) : Decidable cmd.InSwitch := by
  unfold CMD.InSwitch
  infer_instance

namespace PacketBuf

variable (buf : PacketBuf) (hd : DBPacketHeader)

theorem logical_writeHeader :
    (buf.writeHeader hd).logical = (hd.cmd, UInt32.ofNat HEADERSIZE, []) := by
  rw [logical, getHeader_writeHeader]
  rfl

/-- **What a reply says does not depend on what the buffer held**, whether `Append` takes
the data or refuses it. -/
theorem logical_append (data : List UInt8) :
    ((buf.writeHeader hd).append data).2.logical =
      if data.length ≤ APPENDSIZE then
        (hd.cmd, UInt32.ofNat (HEADERSIZE + data.length), data)
      else (hd.cmd, UInt32.ofNat HEADERSIZE, []) := by
  split
  case isTrue hle =>
      have hsize : (UInt32.ofNat (HEADERSIZE + data.length)).toNat - HEADERSIZE = data.length := by
        simp only [HEADERSIZE, APPENDSIZE, MAXPACKETLEN, UInt32.toNat_ofNat'] at hle ⊢
        omega
      rw [logical, getHeader_append_of_le buf hd hle]
      simp only [hsize, read_append buf hd hle]
  case isFalse hgt =>
      rw [append_writeHeader_of_lt buf hd (not_le.mp hgt), logical_writeHeader]

end PacketBuf

namespace Leftover

variable {l l' : Leftover}

/-- The variables that the reply is made of are the same. -/
structure SameReply (l l' : Leftover) : Prop where
  cmd : l.sendhd.cmd = l'.sendhd.cmd
  lasterr : l.sendhd.cmd = CMD.CMDFAIL.word → l.lasterr = l'.lasterr
  strAppend : l.sendhd.cmd = CMD.GET_R.word →
    ∃ value, l.strAppend = .live value ∧ l'.strAppend = .live value

theorem sameReply_setCmd {cmd : CMD} (hfail : cmd.word ≠ CMD.CMDFAIL.word)
    (hget : cmd.word ≠ CMD.GET_R.word) : (l.setCmd cmd).SameReply (l'.setCmd cmd) where
  cmd := rfl
  lasterr h := absurd h hfail
  strAppend h := absurd h hget

theorem sameReply_fail (r : AdmittedRequest) : (l.fail r).SameReply (l'.fail r) where
  cmd := rfl
  lasterr _ := rfl
  strAppend h := absurd (show CMD.CMDFAIL.word = CMD.GET_R.word from h) (by decide)

variable (l l') in
/-- Each of the commands on a handle sets what its reply is made of. -/
theorem applies_same {r : AdmittedRequest} (hcmd : r.packet.cmd.InSwitch)
    (hopen : r.packet.cmd ≠ .OPEN) (hdb : HDB) :
    (l.applies r hdb).1.SameReply (l'.applies r hdb).1 ∧
      (l.applies r hdb).2 = (l'.applies r hdb).2 := by
  unfold applies
  rcases hcmd with h | h | h | h | h
  case inl => exact absurd h hopen
  case inr.inl =>
      simp only [h, and_true]
      split
      · exact sameReply_setCmd (by decide) (by decide)
      · exact sameReply_fail r
  case inr.inr.inl =>
      simp only [h]
      split
      · exact ⟨sameReply_setCmd (by decide) (by decide), rfl⟩
      · exact ⟨sameReply_fail r, rfl⟩
  case inr.inr.inr.inl =>
      simp only [h]
      cases (if r.results.tchdbget then contents hdb r.packet.key else none) with
      | some value =>
          exact ⟨⟨rfl, fun hfail => absurd (show CMD.GET_R.word = CMD.CMDFAIL.word from hfail)
            (by decide), fun _ => ⟨value, rfl, rfl⟩⟩, rfl⟩
      | none =>
          exact ⟨⟨rfl, fun _ => rfl, fun hget => absurd
            (show CMD.CMDFAIL.word = CMD.GET_R.word from hget) (by decide)⟩, rfl⟩
  case inr.inr.inr.inr =>
      simp only [h]
      split
      · exact ⟨sameReply_setCmd (by decide) (by decide), rfl⟩
      · exact ⟨sameReply_fail r, rfl⟩

variable (l l') in
/-- **A command that the `switch` knows overwrites whatever is left.** -/
theorem switched_same {r : AdmittedRequest} (hcmd : r.packet.cmd.InSwitch) :
    (l.switched r = none ∧ l'.switched r = none) ∨
    ∃ m m' hcsock db, l.switched r = some (m, hcsock, db) ∧
      l'.switched r = some (m', hcsock, db) ∧ m.SameReply m' := by
  by_cases hopen : r.packet.cmd = .OPEN
  · simp only [switched, hopen, opens]
    split
    case isFalse => exact Or.inl ⟨rfl, rfl⟩
    case isTrue =>
        refine Or.inr ⟨_, _, _, _, rfl, rfl, ?_⟩
        split
        · exact sameReply_fail r
        · exact sameReply_setCmd (by decide) (by decide)
  · have hswitch : ∀ l : Leftover, l.switched r = (r.db.records r.hcsock.app).map fun hdb =>
        ((l.applies r hdb).1, r.hcsock, (l.applies r hdb).2) := by
      intro l
      unfold switched
      rcases hcmd with h | h | h | h | h
      · exact absurd h hopen
      all_goals simp only [h]
    rw [hswitch, hswitch]
    cases r.db.records r.hcsock.app with
    | none => exact Or.inl ⟨rfl, rfl⟩
    | some hdb =>
        obtain ⟨hreply, hdbs⟩ := applies_same l l' hcmd hopen hdb
        exact Or.inr ⟨_, _, _, _, rfl, by rw [hdbs]; rfl, hreply⟩

/-- The same variables make the same reply, and read no freed string. -/
theorem writes_same (h : l.SameReply l') :
    ∃ m m', l.writes = some m ∧ l'.writes = some m' ∧
      m.szReplyMsg.logical = m'.szReplyMsg.logical ∧ m.sendhd.cmd = m'.sendhd.cmd := by
  unfold writes
  rw [← h.cmd]
  by_cases hfail : l.sendhd.cmd = CMD.CMDFAIL.word
  · rw [if_pos hfail, if_pos hfail]
    refine ⟨_, _, rfl, rfl, ?_, h.cmd⟩
    simp only [PacketBuf.logical_append, h.lasterr hfail, ← h.cmd]
  · rw [if_neg hfail, if_neg hfail]
    by_cases hget : l.sendhd.cmd = CMD.GET_R.word
    · obtain ⟨value, hvalue, hvalue'⟩ := h.strAppend hget
      rw [if_pos hget, if_pos hget, hvalue, hvalue']
      refine ⟨_, _, rfl, rfl, ?_, h.cmd⟩
      simp only [PacketBuf.logical_append, ← h.cmd]
    · rw [if_neg hget, if_neg hget]
      refine ⟨_, _, rfl, rfl, ?_, h.cmd⟩
      simp only [PacketBuf.logical_writeHeader, ← h.cmd]

/-- **A command that the `switch` knows is answered in the same way, whatever is left.** -/
theorem agree_of_inSwitch {r : AdmittedRequest} (hcmd : r.packet.cmd.InSwitch)
    (l l' : Leftover) : (l.handleDBRequest r).Agree (l'.handleDBRequest r) := by
  unfold handleDBRequest
  rcases switched_same l l' hcmd with ⟨h, h'⟩ | ⟨m, m', hcsock, db, h, h', hreply⟩
  · rw [h, h']
    exact .undefined
  · obtain ⟨n, n', hwrites, hwrites', hlogical, hcmd⟩ := writes_same hreply
    simp only [h, h', hwrites, hwrites']
    refine .answered ⟨hlogical, rfl, rfl, ?_⟩
    simp only [Answered.closes, hcmd]

/-- A command that the `switch` does not know changes nothing. -/
theorem switched_of_not_inSwitch {r : AdmittedRequest} (hcmd : ¬ r.packet.cmd.InSwitch)
    (l : Leftover) : l.switched r = some (l, r.hcsock, r.db) := by
  unfold CMD.InSwitch at hcmd
  unfold switched
  split
  case h_1 h => exact absurd (Or.inl h) hcmd
  case h_2 h => exact absurd (Or.inr (Or.inl h)) hcmd
  case h_3 h => exact absurd (Or.inr (Or.inr (Or.inl h))) hcmd
  case h_4 h => exact absurd (Or.inr (Or.inr (Or.inr (Or.inl h)))) hcmd
  case h_5 h => exact absurd (Or.inr (Or.inr (Or.inr (Or.inr h)))) hcmd
  case h_6 => rfl

/-- **After a `GET`, a command that the `switch` does not know reads the freed value.** -/
theorem stale_of_not_inSwitch {r : AdmittedRequest} (hcmd : ¬ r.packet.cmd.InSwitch)
    (hget : l.sendhd.cmd = CMD.GET_R.word) (hfreed : l.strAppend = .freed) :
    l.handleDBRequest r = .stale := by
  have hfail : l.sendhd.cmd ≠ CMD.CMDFAIL.word := by
    rw [hget]
    decide
  have hwrites : l.writes = none := by
    unfold writes
    rw [if_neg hfail, if_pos hget, hfreed]
  unfold handleDBRequest
  simp only [switched_of_not_inSwitch hcmd, hwrites]

end Leftover

/-- A `GET` of the value "a", on a file with one record. -/
def getRequest : AdmittedRequest where
  packet := ⟨.GET, 7, 0, []⟩
  hcsock := ⟨10, 0, 1⟩
  db := ⟨fun _ => some ((∅ : HDB).insert (7 : dbKey) ([97] : dbValue)), [], [], [], []⟩
  results := ⟨fun _ => 1, true, true, true, true, [], by decide⟩
  version := 0
  admitted := by decide

/-- A `GET` leaves its command and a freed value. -/
theorem step_getRequest (l : Leftover) :
    ∃ m, l.step getRequest = some m ∧ m.sendhd.cmd = CMD.GET_R.word ∧ m.strAppend = .freed :=
  ⟨_, rfl, rfl, rfl⟩

/-- A worker that has started. -/
def startedWorker : Leftover :=
  ⟨ByteBuffer.zero MAXPACKETLEN, .null, ⟨0, 0, 0, 0⟩, []⟩

/-- **A reply depends on its own request exactly when the request is for one of the five
commands of the `switch`.** -/
theorem ownReply_iff (r : AdmittedRequest) :
    r.OwnReply ↔ r.packet.cmd = .OPEN ∨ r.packet.cmd = .CLOSE ∨ r.packet.cmd = .SET ∨
      r.packet.cmd = .GET ∨ r.packet.cmd = .DEL := by
  constructor
  · intro hown
    by_contra hcmd
    obtain ⟨m, hstep, hget, hfreed⟩ := step_getRequest startedWorker
    have hrun : run Leftover.step startedWorker [getRequest] = some m :=
      run_cons_eq_some.mpr ⟨m, hstep, rfl⟩
    have hagree := hown startedWorker ⟨rfl, rfl⟩ [getRequest] [getRequest] m m hrun hrun
    rw [Leftover.stale_of_not_inSwitch hcmd hget hfreed] at hagree
    cases hagree
  · intro hcmd start _ history history' l l' _ _
    exact Leftover.agree_of_inSwitch hcmd l l'

/-- A request with this command and payload on the file of `getRequest`. -/
def requestOf (cmd : CMD) (h : gate ⟨cmd, 7, 0, [98]⟩ 0 = .enQueue) : AdmittedRequest :=
  { getRequest with packet := ⟨cmd, 7, 0, [98]⟩, admitted := h }

/-- A client sends `QUIT` to a worker that has handled a `SET`, a `CLOSE` or a `GET` for
others: it gets the reply `SET_R`, its connection is closed, or the value that was read for
the other client is read after it was freed. -/
theorem quit_after_others :
    let quit := requestOf .QUIT (by decide)
    ((startedWorker.step (requestOf .SET (by decide))).map fun l =>
      match l.handleDBRequest quit with
      | .answered a => (a.reply.logical, a.closes)
      | _ => ((0, 0, []), true)) = some ((CMD.SET_R.word, 16, []), false) ∧
    ((startedWorker.step (requestOf .CLOSE (by decide))).map fun l =>
      match l.handleDBRequest quit with
      | .answered a => (a.reply.logical, a.closes)
      | _ => ((0, 0, []), false)) = some ((CMD.CLOSE_R.word, 16, []), true) ∧
    ((startedWorker.step getRequest).map fun l =>
      match l.handleDBRequest quit with
      | .stale => true
      | _ => false) = some true := by
  decide +kernel

end DistributedDB
