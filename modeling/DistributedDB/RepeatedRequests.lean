import DistributedDB.EndToEnd
import DistributedDB.Library.Linearization

/-!
# Requests that are sent more than once

The loop from `REDO` of `DBSetKeyValue`, `DBGetKeyValue` and `DBDelKeyValue`, with packets
as bytes, over whole sequences of operations.  A request whose reply is lost is sent again,
so a slave may execute it more than once.

**Results.**
* `exchange_once`: when no reply is lost, a request is executed once.
* `operations_refine_map`: a client that repeats its requests sees one map, whatever the
  buffers held and however often its requests were executed.
-/

namespace DistributedDB

open Linearization PartialMap Run

/-- The request that `DBDelKeyValue` packs. -/
def packDel (key : dbKey) (version : UInt32) (buf : PacketBuf) : PacketBuf :=
  buf.writeHeader ⟨0, CMD.DEL.word, key, version⟩

/-- `DBDelKeyValue`: what it returns, if it returns, and the database. -/
def dbDelKeyValue (key : dbKey) (attempts : List Attempt) (buf : PacketBuf) (hdb : HDB) :
    Option (Int × HDB) :=
  match exchange (packDel key) attempts buf hdb with
  | none => none
  | some (reply, hdb') =>
      if reply.getHeader.cmd = CMD.CMDFAIL.word then some (-1, hdb') else some (0, hdb')

inductive ClientRequest where
  | set (key : dbKey) (value : dbValue)
  | get (key : dbKey)
  | del (key : dbKey)
deriving DecidableEq, Repr

inductive ClientResult where
  | status (res : Int)
  /-- `none` for `NULL`. -/
  | value (v : Option dbValue)
deriving DecidableEq, Repr

/-- A call of the client: the rounds of its loop, and what its buffer holds before. -/
structure ClientOperation where
  request : ClientRequest
  attempts : List Attempt
  buf : PacketBuf

namespace ClientOperation

/-- A reply of a slave did not arrive. -/
def Lost (op : ClientOperation) : Prop :=
  ∃ a ∈ op.attempts, a.fate = .unanswered

/-- A slave answers at last. -/
def Answered (op : ClientOperation) : Prop :=
  ∃ a ∈ op.attempts, a.Answers

/-- What the call returns, and the database. -/
def call (op : ClientOperation) (hdb : HDB) : Option (ClientResult × HDB) :=
  match op.request with
  | .set key value =>
      (dbSetKeyValue key value op.attempts op.buf hdb).map fun r => (.status r.1, r.2)
  | .get key => (dbGetKeyValue key op.attempts op.buf hdb).map fun r => (.value r.1, r.2)
  | .del key => (dbDelKeyValue key op.attempts op.buf hdb).map fun r => (.status r.1, r.2)

end ClientOperation

/-- What a client may see of a map.  An operation that fails does nothing, unless a reply
was lost. -/
inductive Allows (lost : Prop) (m : dbKey → Option dbValue) :
    ClientRequest → ClientResult → (dbKey → Option dbValue) → Prop where
  | set (key : dbKey) (value : dbValue) :
      Allows lost m (.set key value) (.status 0) (Function.update m key (some value))
  | setFails (key : dbKey) (value : dbValue) :
      Allows lost m (.set key value) (.status (-1)) m
  | setRepeated (key : dbKey) (value : dbValue) (hlost : lost) :
      Allows lost m (.set key value) (.status (-1)) (Function.update m key (some value))
  | get (key : dbKey) : Allows lost m (.get key) (.value (m key)) m
  | del (key : dbKey) (hvalue : m key ≠ none) :
      Allows lost m (.del key) (.status 0) (Function.update m key none)
  | delFails (key : dbKey) (hvalue : m key = none) :
      Allows lost m (.del key) (.status (-1)) m
  | delRepeated (key : dbKey) (hlost : lost) :
      Allows lost m (.del key) (.status (-1)) (Function.update m key none)

/-- Every value fits a packet. -/
def Deliverable (m : dbKey → Option dbValue) : Prop :=
  ∀ key value, m key = some value → 0 ∉ value ∧ Transportable value

/-- A `SET` of a value that fits a packet. -/
def ClientRequest.Deliverable : ClientRequest → Prop
  | .set _ value => 0 ∉ value ∧ Transportable value
  | _ => True

section Loop

variable {pack : UInt32 → PacketBuf → PacketBuf}

/-- **When no reply is lost, the request is executed once**, on the database as it was. -/
theorem exchange_once
    (hlist : ∀ (m : SlaveMemory) version buf hdb hdb' reply,
      m.serve hdb (pack version buf) = some (hdb', reply) →
        reply.getHeader.cmd = CMD.UPDATE_VERSION.word → hdb' = hdb)
    {attempts : List Attempt} (hlost : ∀ a ∈ attempts, a.fate ≠ .unanswered)
    {buf reply : PacketBuf} {hdb hdb' : HDB}
    (h : exchange pack attempts buf hdb = some (reply, hdb')) :
    ∃ (m : SlaveMemory) (version : UInt32) (buf' : PacketBuf),
      m.serve hdb (pack version buf') = some (hdb', reply) ∧
        reply.getHeader.cmd ≠ CMD.UPDATE_VERSION.word := by
  induction attempts generalizing buf with
  | nil => cases h
  | cons a rest ih =>
      obtain ⟨ha, hrest⟩ := List.forall_mem_cons.mp hlost
      simp only [exchange] at h
      cases hfate : a.fate with
      | unsent =>
          simp only [hfate] at h
          exact ih hrest h
      | unanswered => exact absurd hfate ha
      | answered =>
          simp only [hfate, PacketBuf.recvMsg_sendMsg] at h
          split at h
          case h_1 => cases h
          case h_2 file reply' hserved =>
              split at h
              case isTrue hupdate =>
                  obtain rfl := hlist _ _ _ _ _ _ hserved hupdate
                  exact ih hrest h
              case isFalse hupdate =>
                  cases h
                  exact ⟨a.slave, a.version, buf, hserved, hupdate⟩

end Loop

section Del

variable {hdb hdb' : HDB} {key : dbKey}

theorem serve_packDel (m : SlaveMemory) (key : dbKey) (version : UInt32) (buf : PacketBuf) :
    m.serve hdb (packDel key version buf) =
      if version < m.version then some (hdb, m.sendSlaveList)
      else if contents hdb key = none then some (hdb, m.writeReply .CMDFAIL [])
      else some (hdb.erase key, m.writeReply .DEL_R []) := by
  have hpack : (packDel key version buf).getHeader =
      ⟨UInt32.ofNat HEADERSIZE, CMD.DEL.word, key, version⟩ :=
    buf.getHeader_writeHeader ⟨0, CMD.DEL.word, key, version⟩
  rw [SlaveMemory.serve_of_cmd (congrArg DBPacketHeader.cmd hpack) (by decide), hpack]
  simp only [SlaveMemory.handleDBRequest, hpack, CMD.ofWord_word]

/-- One handling of a `DEL`: the list is sent, or the key is absent afterwards, and it was
there exactly when the reply is not an error. -/
theorem serve_packDel_cases {m : SlaveMemory} {version : UInt32} {buf reply : PacketBuf}
    (h : m.serve hdb (packDel key version buf) = some (hdb', reply)) :
    (hdb' = hdb ∧ reply.getHeader.cmd = CMD.UPDATE_VERSION.word) ∨
      contents hdb' = Function.update (contents hdb) key none ∧
        (reply.getHeader.cmd = CMD.CMDFAIL.word ∧ contents hdb key = none ∨
          reply.getHeader.cmd = CMD.DEL_R.word ∧ contents hdb key ≠ none) := by
  rw [serve_packDel] at h
  split at h
  case isTrue =>
      cases h
      exact Or.inl ⟨rfl, SlaveMemory.getHeader_sendSlaveList⟩
  case isFalse =>
  split at h
  case isTrue hnone =>
      cases h
      refine Or.inr ⟨?_, Or.inl ⟨SlaveMemory.getHeader_writeReply _ _, hnone⟩⟩
      rw [← hnone, Function.update_eq_self]
  case isFalse hsome =>
      cases h
      exact Or.inr ⟨contents_erase _ _,
        Or.inr ⟨SlaveMemory.getHeader_writeReply _ _, hsome⟩⟩

/-- Whatever was repeated, the key is absent after `DBDelKeyValue`; it was there before
when the result is 0, and was not when the result is -1 and no reply was lost. -/
theorem allows_dbDelKeyValue {attempts : List Attempt} {buf : PacketBuf} {res : Int}
    (h : dbDelKeyValue key attempts buf hdb = some (res, hdb')) :
    Allows (∃ a ∈ attempts, a.fate = .unanswered) (contents hdb) (.del key) (.status res)
      (contents hdb') := by
  unfold dbDelKeyValue at h
  split at h
  case h_1 => cases h
  case h_2 reply file hexchange =>
  -- the key was deleted at most once, by one of the executions
  have hrun := exchange_induction
    (fun file => contents file = contents hdb ∨
      contents file = Function.update (contents hdb) key none)
    (fun file reply => contents file = Function.update (contents hdb) key none ∧
      (reply.getHeader.cmd ≠ CMD.CMDFAIL.word → contents hdb key ≠ none))
    (fun m version buf file file' reply hkept hserved => by
      rcases serve_packDel_cases hserved with ⟨rfl, hupdate⟩ | ⟨hfile, hreply⟩
      · exact ⟨hkept, fun hne => absurd hupdate hne⟩
      · have herased : contents file' = Function.update (contents hdb) key none := by
          rcases hkept with hkept | hkept
          · rw [hfile, hkept]
          · rw [hfile, hkept, Function.update_idem]
        refine ⟨Or.inr herased, fun _ => ⟨herased, fun hok => ?_⟩⟩
        rcases hreply with ⟨hfail, -⟩ | ⟨-, hsome⟩
        · exact absurd hfail hok
        · rcases hkept with hkept | hkept
          · rwa [hkept] at hsome
          · rw [hkept, Function.update_self] at hsome
            exact absurd rfl hsome)
    (Or.inl rfl) hexchange
  obtain ⟨-, hfile, hsome⟩ := hrun
  split at h
  case isFalse hok =>
      obtain ⟨rfl, rfl⟩ := Prod.mk.inj (Option.some.inj h)
      rw [hfile]
      exact .del key (hsome hok)
  case isTrue hfail =>
      obtain ⟨rfl, rfl⟩ := Prod.mk.inj (Option.some.inj h)
      by_cases hlost : ∃ a ∈ attempts, a.fate = .unanswered
      · rw [hfile]
        exact .delRepeated key hlost
      · obtain ⟨m, version, buf', hserved, hupdate⟩ := exchange_once
          (fun m version buf file file' reply hserved hupdate => by
            rcases serve_packDel_cases hserved with ⟨rfl, -⟩ | ⟨-, hreply⟩
            · rfl
            · rcases hreply with ⟨hcmd, -⟩ | ⟨hcmd, -⟩ <;>
                exact absurd (hcmd.symm.trans hupdate) (by decide))
          (fun a ha hfate => hlost ⟨a, ha, hfate⟩) hexchange
        rcases serve_packDel_cases hserved with ⟨-, hlist⟩ | ⟨-, hreply⟩
        · exact absurd hlist hupdate
        · rcases hreply with ⟨-, hnone⟩ | ⟨hcmd, -⟩
          · rw [hfile, ← hnone, Function.update_eq_self]
            exact .delFails key hnone
          · exact absurd (hcmd.symm.trans hfail) (by decide)

/-- Every handling of a `DEL` has a result. -/
theorem packDel_returns {attempts : List Attempt} (hanswers : ∃ a ∈ attempts, a.Answers)
    (buf : PacketBuf) : ∃ r, exchange (packDel key) attempts buf hdb = some r := by
  refine exchange_returns (fun m version buf file => ?_) hanswers buf hdb
  rw [serve_packDel]
  split
  case isTrue hlt => exact ⟨_, _, rfl, fun hle => absurd hlt (UInt32.not_lt.mpr hle)⟩
  case isFalse =>
  split <;>
  · refine ⟨_, _, rfl, fun _ => ?_⟩
    rw [SlaveMemory.getHeader_writeReply]
    decide

end Del

section Set

variable {hdb hdb' : HDB} {key : dbKey} {value : dbValue} {attempts : List Attempt}
  {buf : PacketBuf}

/-- A `SET` that is answered with an error has not been executed. -/
theorem serve_packSet_of_fail {m : SlaveMemory} {version : UInt32} {reply : PacketBuf}
    (hstored : (packSet key value version buf).getAppend = some value)
    (h : m.serve hdb (packSet key value version buf) = some (hdb', reply))
    (hreply : reply.getHeader.cmd = CMD.UPDATE_VERSION.word ∨
      reply.getHeader.cmd = CMD.CMDFAIL.word) : hdb' = hdb := by
  rw [SlaveMemory.serve_packSet, hstored] at h
  split at h
  case isTrue =>
      cases h
      rfl
  case isFalse =>
  dsimp only at h
  split at h
  case isTrue =>
      cases h
      rw [SlaveMemory.getHeader_writeReply] at hreply
      exact absurd hreply (by decide)
  case isFalse =>
      cases h
      rfl

theorem allows_dbSetKeyValue (hno : 0 ∉ value) (hfit : Transportable value) {res : Int}
    (h : dbSetKeyValue key value attempts buf hdb = some (res, hdb')) :
    Allows (∃ a ∈ attempts, a.fate = .unanswered) (contents hdb) (.set key value) (.status res)
      (contents hdb') := by
  have hset := h
  unfold dbSetKeyValue at h
  split at h
  case h_1 => cases h
  case h_2 reply file hexchange =>
  split at h
  case isFalse =>
      obtain ⟨rfl, rfl⟩ := Prod.mk.inj (Option.some.inj h)
      rw [contents_of_dbSetKeyValue hno hfit hset]
      exact .set key value
  case isTrue hfail =>
  obtain ⟨rfl, rfl⟩ := Prod.mk.inj (Option.some.inj h)
  have hstored : ∀ version (buf : PacketBuf),
      (packSet key value version buf).getAppend = some value :=
    fun version buf => buf.getAppend_pack ⟨0, CMD.SET.word, key, version⟩ hno hfit
  by_cases hlost : ∃ a ∈ attempts, a.fate = .unanswered
  · have hrun := exchange_induction
      (fun file => contents file = contents hdb ∨
        contents file = Function.update (contents hdb) key (some value))
      (fun _ _ => True)
      (fun m version buf file file' reply hkept hserved => by
        refine ⟨?_, fun _ => trivial⟩
        rcases serve_packSet_cases (hstored version buf) hserved with ⟨rfl, -⟩ | rfl
        · exact hkept
        · rcases hkept with hkept | hkept
          · exact Or.inr (by rw [contents_insert, hkept])
          · exact Or.inr (by rw [contents_insert, hkept, Function.update_idem]))
      (Or.inl rfl) hexchange
    rcases hrun.1 with hsame | hdone
    · rw [hsame]
      exact .setFails key value
    · rw [hdone]
      exact .setRepeated key value hlost
  · obtain ⟨m, version, buf', hserved, -⟩ := exchange_once
      (fun m version buf file file' reply hserved hupdate =>
        serve_packSet_of_fail (hstored version buf) hserved (Or.inl hupdate))
      (fun a ha hfate => hlost ⟨a, ha, hfate⟩) hexchange
    rw [serve_packSet_of_fail (hstored version buf') hserved (Or.inr hfail)]
    exact .setFails key value

theorem packSet_returns (hno : 0 ∉ value) (hfit : Transportable value)
    (hanswers : ∃ a ∈ attempts, a.Answers) :
    ∃ r, exchange (packSet key value) attempts buf hdb = some r := by
  refine exchange_returns (fun m version buf file => ?_) hanswers buf hdb
  have hstored : (packSet key value version buf).getAppend = some value :=
    buf.getAppend_pack ⟨0, CMD.SET.word, key, version⟩ hno hfit
  rw [SlaveMemory.serve_packSet, hstored]
  split
  case isTrue hlt => exact ⟨_, _, rfl, fun hle => absurd hlt (UInt32.not_lt.mpr hle)⟩
  case isFalse =>
  dsimp only
  split <;>
  · refine ⟨_, _, rfl, fun _ => ?_⟩
    rw [SlaveMemory.getHeader_writeReply]
    decide

end Set

section Get

variable {hdb hdb' : HDB} {key : dbKey} {attempts : List Attempt} {buf : PacketBuf}

/-- The reply to a `GET` of a key without a value. -/
theorem reply_of_packGet_none (hvalue : contents hdb key = none) {reply : PacketBuf}
    (h : exchange (packGet key) attempts buf hdb = some (reply, hdb')) :
    hdb' = hdb ∧ reply.getHeader.cmd = CMD.CMDFAIL.word := by
  refine exchange_induction (fun file => file = hdb)
    (fun _ reply => reply.getHeader.cmd = CMD.CMDFAIL.word) ?_ rfl h
  rintro m version buf file file' reply rfl hserved
  rw [SlaveMemory.serve_packGet, hvalue] at hserved
  split at hserved
  case isTrue =>
      cases hserved
      exact ⟨rfl, fun hversion => absurd SlaveMemory.getHeader_sendSlaveList hversion⟩
  case isFalse =>
      cases hserved
      exact ⟨rfl, fun _ => SlaveMemory.getHeader_writeReply _ _⟩

/-- `DBGetKeyValue` yields what is stored, `NULL` for nothing. -/
theorem dbGetKeyValue_eq_contents (hmap : Deliverable (contents hdb)) :
    dbGetKeyValue key attempts buf hdb =
      (exchange (packGet key) attempts buf hdb).map fun _ => (contents hdb key, hdb) := by
  cases hvalue : contents hdb key with
  | some value =>
      obtain ⟨hno, hfit⟩ := hmap key value hvalue
      exact dbGetKeyValue_eq hvalue hno hfit
  | none =>
      unfold dbGetKeyValue
      split
      case h_1 hnone => rw [hnone, Option.map_none]
      case h_2 reply file hexchange =>
          obtain ⟨rfl, hcmd⟩ := reply_of_packGet_none hvalue hexchange
          rw [hexchange, Option.map_some, if_pos hcmd]

end Get

section Operations

/-- What an operation keeps: every value fits a packet. -/
theorem Allows.deliverable {lost : Prop} {m m' : dbKey → Option dbValue}
    {request : ClientRequest} {result : ClientResult} (h : Allows lost m request result m')
    (hmap : Deliverable m) (hrequest : request.Deliverable) : Deliverable m' := by
  cases h with
  | setFails | get | delFails => exact hmap
  | set key value | setRepeated key value =>
      intro k v hv
      rw [Function.update_apply] at hv
      split at hv
      case isTrue =>
          obtain rfl := Option.some.inj hv
          exact hrequest
      case isFalse => exact hmap k v hv
  | del key | delRepeated key =>
      intro k v hv
      rw [Function.update_apply] at hv
      split at hv
      case isTrue => cases hv
      case isFalse => exact hmap k v hv

variable {op : ClientOperation} {hdb hdb' : HDB}

/-- **A call does what a map allows.** -/
theorem ClientOperation.allows (hmap : Deliverable (contents hdb))
    (hrequest : op.request.Deliverable) {result : ClientResult}
    (h : op.call hdb = some (result, hdb')) :
    Allows op.Lost (contents hdb) op.request result (contents hdb') := by
  unfold call at h
  split at h
  case h_1 key value hop =>
      rw [hop] at hrequest ⊢
      obtain ⟨⟨res, file⟩, hset, heq⟩ := Option.map_eq_some_iff.mp h
      obtain ⟨rfl, rfl⟩ := Prod.mk.inj heq
      exact allows_dbSetKeyValue hrequest.1 hrequest.2 hset
  case h_2 key hop =>
      rw [hop]
      rw [dbGetKeyValue_eq_contents hmap, Option.map_map] at h
      obtain ⟨_, -, heq⟩ := Option.map_eq_some_iff.mp h
      obtain ⟨rfl, rfl⟩ := Prod.mk.inj heq
      exact .get key
  case h_3 key hop =>
      rw [hop]
      obtain ⟨⟨res, file⟩, hdel, heq⟩ := Option.map_eq_some_iff.mp h
      obtain ⟨rfl, rfl⟩ := Prod.mk.inj heq
      exact allows_dbDelKeyValue hdel

/-- **A call returns as soon as a slave answers.** -/
theorem ClientOperation.call_returns (hmap : Deliverable (contents hdb))
    (hrequest : op.request.Deliverable) (hanswered : op.Answered) :
    ∃ r, op.call hdb = some r := by
  unfold call
  split
  case h_1 key value hop =>
      rw [hop] at hrequest
      obtain ⟨r, hr⟩ : ∃ r, exchange (packSet key value) op.attempts op.buf hdb = some r :=
        packSet_returns hrequest.1 hrequest.2 hanswered
      rw [dbSetKeyValue, hr]
      dsimp only
      split <;> exact ⟨_, rfl⟩
  case h_2 key hop =>
      obtain ⟨r, hr⟩ : ∃ r, exchange (packGet key) op.attempts op.buf hdb = some r :=
        packGet_returns hanswered
      rw [dbGetKeyValue_eq_contents hmap, hr]
      exact ⟨_, rfl⟩
  case h_3 key hop =>
      obtain ⟨r, hr⟩ : ∃ r, exchange (packDel key) op.attempts op.buf hdb = some r :=
        packDel_returns hanswered op.buf
      rw [dbDelKeyValue, hr]
      dsimp only
      split <;> exact ⟨_, rfl⟩

end Operations

/-- The database and what the client's calls have returned so far. -/
structure ByteSession where
  hdb : HDB
  results : List ClientResult

namespace ByteSession

/-- The client's next call. -/
def step (s : ByteSession) (op : ClientOperation) : Option ByteSession :=
  match op.call s.hdb with
  | some (result, hdb) => some ⟨hdb, s.results ++ [result]⟩
  | none => none

/-- What the map allows, call after call. -/
def Explained (m : dbKey → Option dbValue) (ops : List ClientOperation) (s : ByteSession) :
    Prop :=
  ∃ order : List (Effect ClientOperation ClientResult),
    order.map Effect.op = ops ∧ order.map Effect.reply = s.results ∧
      Executes (fun m op result m' => Allows op.Lost m op.request result m') m order
        (contents s.hdb)

section Session

variable {m : dbKey → Option dbValue} {s t : ByteSession} {ops : List ClientOperation}

theorem step_eq_some {op : ClientOperation} (h : s.step op = some t) :
    ∃ result, op.call s.hdb = some (result, t.hdb) ∧ t.results = s.results ++ [result] := by
  unfold step at h
  split at h
  case h_1 result hdb hcall =>
      obtain rfl := Option.some.inj h
      exact ⟨result, hcall, rfl⟩
  case h_2 => cases h

/-- One call, with what it allows. -/
theorem step_allows {op : ClientOperation} (hmap : Deliverable (contents s.hdb))
    (hop : op.request.Deliverable) (hstep : s.step op = some t) :
    Deliverable (contents t.hdb) ∧ ∃ result, t.results = s.results ++ [result] ∧
      Allows op.Lost (contents s.hdb) op.request result (contents t.hdb) := by
  obtain ⟨result, hcall, hresults⟩ := step_eq_some hstep
  have hallows := ClientOperation.allows hmap hop hcall
  exact ⟨hallows.deliverable hmap hop, result, hresults, hallows⟩

/-- Calls have an explanation. -/
theorem explained_of_run (hrun : run step s ops = some t) (hmap : Deliverable (contents s.hdb))
    (hops : ∀ op ∈ ops, op.request.Deliverable) {done : List ClientOperation}
    (h : Explained m done s) : Explained m (done ++ ops) t := by
  have hdone : ExecutesAll (fun m op result m' => Allows op.Lost m op.request result m') m done
      s.results (contents s.hdb) := h
  exact executesAll_of_run (fun s : ByteSession => contents s.hdb) results
    (fun s => Deliverable (contents s.hdb)) (fun op => op.request.Deliverable)
    (fun _ _ _ hmap hop hstep => step_allows hmap hop hstep) hrun hmap hops hdone

/-- The calls return, one after the other. -/
theorem run_returns (hmap : Deliverable (contents s.hdb))
    (hops : ∀ op ∈ ops, op.request.Deliverable) (hanswered : ∀ op ∈ ops, op.Answered) :
    ∃ t, run step s ops = some t := by
  refine exists_run (fun s => Deliverable (contents s.hdb))
    (fun op => op.request.Deliverable ∧ op.Answered) ?_ hmap
    (fun op hop => ⟨hops op hop, hanswered op hop⟩)
  rintro s op hmap ⟨hop, hlast⟩
  obtain ⟨⟨result, hdb⟩, hcall⟩ := ClientOperation.call_returns hmap hop hlast
  refine ⟨⟨hdb, s.results ++ [result]⟩, ?_,
    (ClientOperation.allows hmap hop hcall).deliverable hmap hop⟩
  rw [step, hcall]

end Session

end ByteSession

/-- **A client that repeats its requests sees one map.**  For every file and every sequence
of calls whose values fit a packet, whatever rounds each call takes and whatever the buffers
of both sides hold: what the calls return and what the file holds at the end is what the map
allows, call after call; and if a slave answers in each call, they all return. -/
theorem operations_refine_map (hdb : HDB) (hmap : Deliverable (contents hdb))
    (ops : List ClientOperation) (hops : ∀ op ∈ ops, op.request.Deliverable) :
    (∀ s, run ByteSession.step ⟨hdb, []⟩ ops = some s →
        ByteSession.Explained (contents hdb) ops s) ∧
      ((∀ op ∈ ops, op.Answered) → ∃ s, run ByteSession.step ⟨hdb, []⟩ ops =
        some s) := by
  constructor
  · intro s hrun
    have hstart : ByteSession.Explained (contents hdb) [] ⟨hdb, []⟩ := ⟨[], rfl, rfl, .nil⟩
    exact ByteSession.explained_of_run hrun hmap hops hstart
  · exact ByteSession.run_returns hmap hops

/-- The reply of the first round is lost. -/
def repeated (request : ClientRequest) : ClientOperation where
  request := request
  attempts := [{ answering with fate := .unanswered }, answering]
  buf := ByteBuffer.zero MAXPACKETLEN

/-- A `DEL` that is executed twice reports an error, and the key is gone. -/
theorem operations_refine_map_repeated :
    ∃ s, run ByteSession.step ⟨∅, []⟩
        [repeated (.set 7 [65]), repeated (.get 7), repeated (.del 7), repeated (.get 7)] =
          some s ∧
      s.results = [.status 0, .value (some [65]), .status (-1), .value none] ∧
      ByteSession.Explained (contents (∅ : HDB))
        [repeated (.set 7 [65]), repeated (.get 7), repeated (.del 7), repeated (.get 7)] s := by
  have hmap : (run ByteSession.step ⟨∅, []⟩
      [repeated (.set 7 [65]), repeated (.get 7), repeated (.del 7), repeated (.get 7)]).map
        ByteSession.results = some [.status 0, .value (some [65]), .status (-1), .value none] := by
    decide +kernel
  obtain ⟨s, hrun, hresults⟩ := Option.map_eq_some_iff.mp hmap
  have hempty : Deliverable (contents (∅ : HDB)) :=
    fun _ _ hvalue => absurd hvalue.symm (Option.some_ne_none _)
  have hops : ∀ op ∈ [repeated (.set 7 [65]), repeated (.get 7), repeated (.del 7),
      repeated (.get 7)], op.request.Deliverable := by
    intro op hop
    simp only [List.mem_cons, List.not_mem_nil, or_false] at hop
    rcases hop with rfl | rfl | rfl | rfl
    · exact ⟨by decide, by decide⟩
    · trivial
    · trivial
    · trivial
  exact ⟨s, hrun, hresults, (operations_refine_map ∅ hempty _ hops).1 s hrun⟩

end DistributedDB
