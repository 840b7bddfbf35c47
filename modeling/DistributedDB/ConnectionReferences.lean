import DistributedDB.MainLoop
import DistributedDB.ReferenceCounts

/-!
# The references of the connections

The main loop of `dbserver.c` with one worker, a request at a time, over the table of open
databases.  `OPEN` takes a reference and writes the handle over the one that the connection
has; only `CLOSE` gives a reference back.  Client sockets are registered with `EPOLLIN`
alone, so the end of a connection does not reach `DBServiceStop`: `recv` returns `0`, and
the packet that is in `szBuf` is handled once more, for that connection.

The clients send `OPEN`, `CLOSE`, `SET`, `GET` and `DEL`.  A request with a handle that is
not the address of an `OpenedDB` has no result.

**Results.**
* `DBService.step`: the events.
* `DBService.ServiceInv`: who has the live handles; each step that meets the condition keeps
  it.
* `DBService.released_of_allSteps`: the counters are the numbers of connections if `OPEN`
  comes on connections without a database, and the others are not ended before `CLOSE`.
* `DBService.reference_left`: a client that opens a database and goes.
-/

namespace DistributedDB

open Run

/-- The commands that a client sends. -/
def CMD.isRequest : CMD → Bool
  | .OPEN | .CLOSE | .SET | .GET | .DEL => true
  | _ => false

structure DBService where
  /-- The records by socket. -/
  MDB : Int → Option ClientSockHandle
  isOpen : Int → Bool
  szBuf : DBPacket
  /-- The version of the slave's list. -/
  version : UInt32
  /-- The variable `sendhd.cmd` of the worker. -/
  sendhd : CMD
  table : DBTable
  /-- What `DBCreate` has returned: the `OpenedDB` at the addresses from 1. -/
  copies : List OpenedDB
  /-- The sockets of the connections that neither side has ended. -/
  clients : List Int
  /-- The database that a connection has open. -/
  opened : Int → Option dbName

inductive ServiceEvent where
  /-- The main loop accepts a connection; `app` is what the stack holds. -/
  | accept (sock ip : Int) (app : DataBase)
  /-- A packet of a client is received and handled; `ok` is what `tchdbopen`, `tchdbclose`
  or the operation would return. -/
  | recv (sock : Int) (p : DBPacket) (ok : Bool)
  /-- A client closes its socket. -/
  | disconnect (sock : Int)
  /-- `recv` returns `0` on the socket of a client that has gone. -/
  | recvFails (sock : Int) (ok : Bool)
  /-- `HandleMasterRequest` changes the list. -/
  | newVersion
deriving DecidableEq, Repr

namespace DBService

def init (sendhd : CMD) (version : UInt32) : DBService where
  MDB := fun _ => none
  isOpen := fun _ => false
  szBuf := .zero
  version := version
  sendhd := sendhd
  table := .init
  copies := []
  clients := []
  opened := fun _ => none

/-- The `OpenedDB` at an address. -/
def load (s : DBService) : DataBase → Option OpenedDB
  | 0 => none
  | hdb + 1 => s.copies[hdb]?

/-- `DBCreate`, with the address that it returns. -/
def dbCreate (s : DBService) (name : dbName) (ok : Bool) : DBService × DataBase :=
  let r := s.table.dbCreate name ok
  ({ s with
      table := { r.1 with handles := r.1.handles ++ r.2.toList }
      copies := s.copies ++ r.2.toList },
    if r.2.isSome then s.copies.length + 1 else 0)

/-- `DBDelete`, which fails when `tchdbclose` is called and fails. -/
def dbDelete (s : DBService) (db : DataBase) (ok : Bool) : Option (DBService × Bool) :=
  (s.load db).bind fun podb =>
  (s.table.dbDelete podb).map fun t =>
    ({ s with table := { t with handles := t.handles.erase podb } },
      ok || t.closed = s.table.closed)

/-- The `switch` of `HandleDBRequest` on the packet in `szBuf`: the handle and `sendhd.cmd`
afterwards. -/
def execute (s : DBService) (sock : Int) (app : DataBase) (ok : Bool) :
    Option (DBService × DataBase × CMD) :=
  match s.szBuf.cmd with
  | .OPEN =>
      let r := s.dbCreate s.szBuf.append ok
      some ({ r.1 with
          opened := Function.update s.opened sock (if r.2 = 0 then none else s.szBuf.append) },
        DBServer.handled app .OPEN s.sendhd r.2 ok)
  | .CLOSE =>
      (s.dbDelete app ok).map fun r =>
        ({ r.1 with opened := Function.update s.opened sock none },
          DBServer.handled app .CLOSE s.sendhd 0 r.2)
  | .SET => (s.load app).map fun _ => (s, DBServer.handled app .SET s.sendhd 0 ok)
  | .GET => (s.load app).map fun _ => (s, DBServer.handled app .GET s.sendhd 0 ok)
  | .DEL => (s.load app).map fun _ => (s, DBServer.handled app .DEL s.sendhd 0 ok)
  | cmd => some (s, DBServer.handled app cmd s.sendhd 0 ok)

/-- `DBServiceStop`. -/
def dbServiceStop (s : DBService) (sock : Int) : Option DBService :=
  (s.MDB sock).map fun phcsock =>
    { s with
      isOpen := Function.update s.isOpen phcsock.sock false
      MDB := Function.update s.MDB phcsock.sock none
      clients := s.clients.erase phcsock.sock }

/-- The worker after `DBSendMsg`. -/
def stored (s : DBService) (hcsock : ClientSockHandle) (r : DBService × DataBase × CMD) :
    DBService :=
  { r.1 with
    sendhd := r.2.2
    MDB := Function.update s.MDB hcsock.sock (some { hcsock with app := r.2.1 }) }

/-- The main loop and the worker handle the packet in `szBuf` for a socket. -/
def serve (s : DBService) (sock : Int) (ok : Bool) : Option DBService :=
  (s.MDB sock).bind fun hcsock =>
  match gate s.szBuf s.version with
  | .handleSlaveRequest => none
  | .sendSlaveList => some s
  | .enQueue =>
      (s.execute sock hcsock.app ok).bind fun r =>
        if r.2.2 = .CLOSE_R then (s.stored hcsock r).dbServiceStop hcsock.sock
        else some (s.stored hcsock r)

/-- One event; `none` when it cannot happen, or has no result. -/
def step (s : DBService) : ServiceEvent → Option DBService
  | .accept sock ip app =>
      if s.isOpen sock = false then
        some { s with
          MDB := Function.update s.MDB sock (some ⟨sock, ip, app⟩)
          isOpen := Function.update s.isOpen sock true
          clients := sock :: s.clients
          opened := Function.update s.opened sock none }
      else none
  | .recv sock p ok =>
      if sock ∈ s.clients ∧ p.cmd.isRequest then { s with szBuf := p }.serve sock ok else none
  | .disconnect sock =>
      if sock ∈ s.clients then some { s with clients := s.clients.erase sock } else none
  | .recvFails sock ok =>
      if s.isOpen sock ∧ sock ∉ s.clients then s.serve sock ok else none
  | .newVersion => some { s with version := s.version + 1 }

/-- The counter that is kept for a name. -/
def counter (s : DBService) (name : dbName) : Int :=
  (s.table.table name).elim 0 OpenedDB.counter

/-- The number of connections that have the database open. -/
def connections (s : DBService) (name : dbName) : Nat :=
  s.clients.countP fun sock => s.opened sock = some name

/-- The connections hold the references, and without a reference a database is closed. -/
def Released (s : DBService) : Prop :=
  (∀ name, s.counter name = s.connections name) ∧
    ((∀ sock ∈ s.clients, s.opened sock = none) →
      ∀ hdb ∈ s.table.opened, hdb ∈ s.table.closed)

/-- The condition on an event: a connection opens a database when it has none open, closes
one when it has, and ends when it has none; and when a client has gone, the packet in
`szBuf` is not a `CLOSE`, nor an `OPEN` that returns a handle. -/
def Releases (s : DBService) : ServiceEvent → Prop
  | .recv sock p _ =>
      (p.cmd = .OPEN → s.opened sock = none) ∧ (p.cmd = .CLOSE → s.opened sock ≠ none)
  | .disconnect sock => s.opened sock = none
  | .recvFails _ ok =>
      s.szBuf.cmd ≠ .CLOSE ∧
        (s.szBuf.cmd = .OPEN → s.table.table s.szBuf.append = none ∧ ok = false)
  | _ => True

instance (s : DBService) (e : ServiceEvent) : Decidable (s.Releases e) :=
  match e with
  | .recv sock p _ =>
      inferInstanceAs (Decidable ((p.cmd = .OPEN → s.opened sock = none) ∧
        (p.cmd = .CLOSE → s.opened sock ≠ none)))
  | .disconnect sock => inferInstanceAs (Decidable (s.opened sock = none))
  | .recvFails _ ok =>
      inferInstanceAs (Decidable (s.szBuf.cmd ≠ .CLOSE ∧
        (s.szBuf.cmd = .OPEN → s.table.table s.szBuf.append = none ∧ ok = false)))
  | .accept _ _ _ | .newVersion => isTrue trivial

/-- The handle with which a connection has a database open. -/
def handle (s : DBService) (sock : Int) : Option OpenedDB :=
  (s.opened sock).bind fun _ => (s.MDB sock).bind fun hcsock => s.load hcsock.app

/-- **The invariant**: the live handles are those of the connections. -/
structure ServiceInv (s : DBService) : Prop where
  table : s.table.TableInv
  request : s.szBuf.cmd.isRequest = true
  nodup : s.clients.Nodup
  open' : ∀ sock ∈ s.clients, s.isOpen sock = true
  record : ∀ sock hcsock, s.MDB sock = some hcsock → hcsock.sock = sock
  handles : s.table.handles.Perm (s.clients.filterMap s.handle)
  named : ∀ sock ∈ s.clients, ∀ name, s.opened sock = some name →
    ∃ podb, s.handle sock = some podb ∧ s.table.HasName name podb

section Frames

variable {s s' : DBService}

theorem load_of_prefix (hcopies : s.copies <+: s'.copies) {hdb : DataBase} {podb : OpenedDB}
    (h : s.load hdb = some podb) : s'.load hdb = some podb := by
  cases hdb with
  | zero => cases h
  | succ n =>
      obtain ⟨rest, hrest⟩ := hcopies
      have hlt : n < s.copies.length := (List.getElem?_eq_some_iff.mp h).1
      rw [load, ← hrest, List.getElem?_append_left hlt]
      exact h

/-- The handle of a connection does not change with the other connections. -/
theorem ServiceInv.handle_eq (h : s.ServiceInv) {c : Int} (hc : c ∈ s.clients)
    (hopened : s'.opened c = s.opened c) (hMDB : s'.MDB c = s.MDB c)
    (hcopies : s.copies <+: s'.copies) : s'.handle c = s.handle c := by
  cases ho : s.opened c with
  | none => rw [handle, handle, hopened, ho, Option.bind_none, Option.bind_none]
  | some name =>
      obtain ⟨podb, hpodb, -⟩ := h.named c hc name ho
      rw [hpodb]
      rw [handle, ho, Option.bind_some] at hpodb
      obtain ⟨hcsock, hrecord, hload⟩ := Option.bind_eq_some_iff.mp hpodb
      rw [handle, hopened, hMDB, ho, Option.bind_some, hrecord, Option.bind_some]
      exact load_of_prefix hcopies hload

/-- The handle of one connection, if it is there. -/
def own (s : DBService) (sock : Int) : List OpenedDB :=
  if sock ∈ s.clients then (s.handle sock).toList else []

theorem perm_own (sock : Int) :
    (s.clients.filterMap s.handle).Perm
      (s.own sock ++ (s.clients.erase sock).filterMap s.handle) := by
  rw [own]
  split
  case isTrue hmem =>
      refine ((List.perm_cons_erase hmem).filterMap s.handle).trans ?_
      rw [List.filterMap_cons]
      cases s.handle sock <;> exact List.Perm.refl _
  case isFalse hmem => rw [List.erase_of_not_mem hmem, List.nil_append]

/-- A step that concerns one socket. -/
theorem ServiceInv.frame (h : s.ServiceInv) (sock : Int) (htable : s'.table.TableInv)
    (hszBuf : s'.szBuf = s.szBuf) (hnodup : s'.clients.Nodup)
    (hrest : s'.clients.erase sock = s.clients.erase sock)
    (hisOpen : ∀ c, c ≠ sock → s'.isOpen c = s.isOpen c)
    (hMDB : ∀ c, c ≠ sock → s'.MDB c = s.MDB c)
    (hopened : ∀ c, c ≠ sock → s'.opened c = s.opened c) (hcopies : s.copies <+: s'.copies)
    (hsock : sock ∈ s'.clients → s'.isOpen sock = true)
    (hrecord : ∀ hcsock, s'.MDB sock = some hcsock → hcsock.sock = sock)
    (hnames : ∀ podb ∈ (s.clients.erase sock).filterMap s.handle, ∀ name,
      s.table.HasName name podb → s'.table.HasName name podb)
    (hnamed : sock ∈ s'.clients → ∀ name, s'.opened sock = some name →
      ∃ podb, s'.handle sock = some podb ∧ s'.table.HasName name podb)
    (hhandles : s'.table.handles.Perm
      (s'.own sock ++ (s.clients.erase sock).filterMap s.handle)) : s'.ServiceInv := by
  have hold : ∀ c ∈ s'.clients, c ≠ sock → c ∈ s.clients.erase sock := by
    intro c hc hne
    rw [← hrest]
    exact (List.mem_erase_of_ne hne).mpr hc
  have hhandle : ∀ c ∈ s.clients.erase sock, s'.handle c = s.handle c := by
    intro c hc
    have hne := ((h.nodup.mem_erase_iff).mp hc).1
    exact h.handle_eq (List.mem_of_mem_erase hc) (hopened c hne) (hMDB c hne) hcopies
  constructor
  case table => exact htable
  case request => exact hszBuf ▸ h.request
  case nodup => exact hnodup
  case open' =>
    intro c hc
    by_cases hne : c = sock
    · exact hne ▸ hsock (hne ▸ hc)
    · rw [hisOpen c hne]
      exact h.open' c (List.mem_of_mem_erase (hold c hc hne))
  case record =>
    intro c hcsock hc
    by_cases hne : c = sock
    · subst hne
      exact hrecord hcsock hc
    · exact h.record c hcsock (hMDB c hne ▸ hc)
  case handles =>
    refine hhandles.trans ((perm_own sock).trans ?_).symm
    rw [hrest, List.filterMap_congr hhandle]
  case named =>
    intro c hc name hname
    by_cases hne : c = sock
    · subst hne
      exact hnamed hc name hname
    · have hmem := hold c hc hne
      obtain ⟨podb, hpodb, hstring⟩ :=
        h.named c (List.mem_of_mem_erase hmem) name (hopened c hne ▸ hname)
      exact ⟨podb, (hhandle c hmem).trans hpodb,
        hnames podb (List.mem_filterMap.mpr ⟨c, hmem, hpodb⟩) name hstring⟩

end Frames

/-- A live handle belongs to a connection that has its database open. -/
theorem ServiceInv.exists_client {s : DBService} (h : s.ServiceInv) {podb : OpenedDB}
    (hmem : podb ∈ s.table.handles) : ∃ sock ∈ s.clients, s.opened sock ≠ none := by
  obtain ⟨sock, hsock, hpodb⟩ := List.mem_filterMap.mp (h.handles.mem_iff.mp hmem)
  refine ⟨sock, hsock, fun hnone => ?_⟩
  rw [handle, hnone] at hpodb
  cases hpodb

/-- The handles of a name are as many as the connections that have it open. -/
theorem ServiceInv.countP_eq {s : DBService} (h : s.ServiceInv) (name : dbName) :
    s.table.handles.countP (s.table.HasName name) = s.connections name := by
  rw [h.handles.countP_eq, List.countP_filterMap, connections]
  refine List.countP_congr fun sock hsock => ?_
  cases ho : s.opened sock with
  | none =>
      have hnone : s.handle sock = none := by rw [handle, ho, Option.bind_none]
      simp [hnone]
  | some name' =>
      obtain ⟨podb, hpodb, hname⟩ := h.named sock hsock name' ho
      rw [hpodb, Option.map_some, Option.getD_some, decide_eq_true_eq, decide_eq_true_eq,
        DBTable.HasName, hname, Option.some_inj]

/-- The invariant gives the property. -/
theorem ServiceInv.released {s : DBService} (h : s.ServiceInv) : s.Released := by
  refine ⟨fun name => ?_, fun hnone hdb hopened => ?_⟩
  · rw [← h.countP_eq, counter]
    cases he : s.table.table name with
    | some e => exact h.table.counter_eq he
    | none =>
        refine (Int.natCast_eq_zero.mpr (List.countP_eq_zero.mpr fun podb hmem hname => ?_)).symm
        obtain ⟨e, he', -⟩ := h.table.exists_entry hmem (of_decide_eq_true hname)
        rw [he] at he'
        cases he'
  · rcases (h.table.tracked hdb).mp hopened with hclosed | ⟨name, e, he, -⟩
    · exact hclosed
    · obtain ⟨podb, hmem, -⟩ := h.table.referenced name e he
      obtain ⟨sock, hsock, hsome⟩ := h.exists_client hmem
      exact absurd (hnone sock hsock) hsome

theorem serviceInv_init (sendhd : CMD) (version : UInt32) :
    (init sendhd version).ServiceInv where
  table := DBTable.tableInv_init
  request := rfl
  nodup := List.nodup_nil
  open' := nofun
  record := nofun
  handles := List.Perm.refl _
  named := nofun

section Steps

variable {s s' : DBService} {sock : Int}

theorem own_eq_nil (hnone : s.opened sock = none) : s.own sock = [] := by
  rw [own, handle, hnone, Option.bind_none, Option.toList_none, ite_self]

theorem own_eq_nil_of_not_mem (hmem : sock ∉ s.clients) : s.own sock = [] :=
  if_neg hmem

theorem own_eq_singleton {podb : OpenedDB} (hhandle : s.handle sock = some podb)
    (hmem : sock ∈ s.clients) : s.own sock = [podb] := by
  rw [own, if_pos hmem, hhandle, Option.toList_some]

/-- A step that gives and takes no reference. -/
theorem ServiceInv.quiet (h : s.ServiceInv) (sock : Int) (htable : s'.table = s.table)
    (hszBuf : s'.szBuf = s.szBuf) (hnodup : s'.clients.Nodup)
    (hrest : s'.clients.erase sock = s.clients.erase sock)
    (hisOpen : ∀ c, c ≠ sock → s'.isOpen c = s.isOpen c)
    (hMDB : ∀ c, c ≠ sock → s'.MDB c = s.MDB c)
    (hopened : ∀ c, c ≠ sock → s'.opened c = s.opened c)
    (hcopies : s'.copies = s.copies)
    (hsock : sock ∈ s'.clients → s'.isOpen sock = true ∧ s'.opened sock = none)
    (hrecord : ∀ hcsock, s'.MDB sock = some hcsock → hcsock.sock = sock)
    (hown : s.own sock = []) : s'.ServiceInv := by
  refine h.frame sock (htable ▸ h.table) hszBuf hnodup hrest hisOpen hMDB hopened
    (hcopies ▸ List.prefix_refl _) (fun hmem => (hsock hmem).1) hrecord
    (fun podb _ name hname => htable ▸ hname) (fun hmem name hname => ?_) ?_
  · rw [(hsock hmem).2] at hname
    cases hname
  · have hown' : s'.own sock = [] := by
      by_cases hmem : sock ∈ s'.clients
      · exact own_eq_nil (hsock hmem).2
      · exact own_eq_nil_of_not_mem hmem
    rw [htable, hown', ← hown]
    exact h.handles.trans (perm_own sock)

/-- The connection of a socket ends. -/
theorem ServiceInv.erase_erase (h : s.ServiceInv) (sock : Int) :
    (s.clients.erase sock).erase sock = s.clients.erase sock :=
  List.erase_of_not_mem h.nodup.not_mem_erase

theorem ServiceInv.dbServiceStop (h : s.ServiceInv) (hnone : s.opened sock = none)
    (hstop : s.dbServiceStop sock = some s') : s'.ServiceInv := by
  obtain ⟨phcsock, hMDB, rfl⟩ := Option.map_eq_some_iff.mp hstop
  obtain rfl := h.record sock phcsock hMDB
  refine h.quiet phcsock.sock rfl rfl (h.nodup.erase _) (h.erase_erase _)
    (fun c hne => Function.update_of_ne hne _ _) (fun c hne => Function.update_of_ne hne _ _)
    (fun c _ => rfl) rfl (fun hmem => absurd hmem h.nodup.not_mem_erase) (fun hcsock hnew => ?_)
    (own_eq_nil hnone)
  cases (Function.update_self (f := s.MDB) ..).symm.trans hnew

theorem dbCreate_some {name : dbName} {ok : Bool} {podb : OpenedDB}
    (hr : (s.table.dbCreate name ok).2 = some podb) :
    s.dbCreate name ok =
      ({ s with
          table := { (s.table.dbCreate name ok).1 with handles := s.table.handles ++ [podb] }
          copies := s.copies ++ [podb] },
        s.copies.length + 1) := by
  rw [dbCreate, hr, DBTable.handles_dbCreate]
  rfl

theorem dbCreate_none {name : dbName} {ok : Bool} (hr : (s.table.dbCreate name ok).2 = none) :
    s.dbCreate name ok =
      ({ s with
          table := { (s.table.dbCreate name ok).1 with handles := s.table.handles } }, 0) := by
  rw [dbCreate, hr, DBTable.handles_dbCreate, Option.toList_none, List.append_nil,
    List.append_nil]
  rfl

/-- `OPEN` on a connection without a database. -/
theorem ServiceInv.open_db (h : s.ServiceInv) {hcsock : ClientSockHandle}
    (hMDB : s.MDB sock = some hcsock) (hown : s.own sock = []) {ok : Bool}
    (hlive : sock ∈ s.clients ∨ (s.table.dbCreate s.szBuf.append ok).2 = none)
    (hcmd : s.szBuf.cmd = .OPEN) {r : DBService × DataBase × CMD}
    (hr : s.execute sock hcsock.app ok = some r) : (s.stored hcsock r).ServiceInv := by
  rw [execute, hcmd] at hr
  obtain rfl := Option.some.inj hr
  obtain rfl := h.record sock hcsock hMDB
  have hstep : s.table.step (.create s.szBuf.append ok) = some _ := rfl
  have htable := h.table.step hstep
  have hperm : s.table.handles.Perm ((s.clients.erase hcsock.sock).filterMap s.handle) := by
    have hall := h.handles.trans (perm_own hcsock.sock)
    rwa [hown] at hall
  have hrecord : ∀ app hcsock', Function.update s.MDB hcsock.sock
      (some { hcsock with app := app }) hcsock.sock = some hcsock' →
      hcsock'.sock = hcsock.sock := by
    intro app hcsock' hnew
    rw [Function.update_self] at hnew
    rw [← Option.some.inj hnew]
  cases hpodb : (s.table.dbCreate s.szBuf.append ok).2 with
  | none =>
      rw [hpodb, DBTable.handles_dbCreate, Option.toList_none, List.append_nil] at htable
      simp only [dbCreate_none hpodb, if_true]
      refine h.frame hcsock.sock htable rfl h.nodup rfl (fun c _ => rfl)
        (fun c hne => Function.update_of_ne hne _ _) (fun c hne => Function.update_of_ne hne _ _)
        (List.prefix_refl _) (h.open' _) (hrecord _)
        (fun podb _ name' hname => h.table.strings_dbCreate hname ok) ?_ ?_
      · intro _ name hname
        cases (Function.update_self (f := s.opened) ..).symm.trans hname
      · rw [own_eq_nil (Function.update_self (f := s.opened) ..)]
        exact hperm
  | some podb =>
      have hmem : hcsock.sock ∈ s.clients :=
        hlive.resolve_right fun hnone => by rw [hpodb] at hnone; cases hnone
      rw [hpodb, DBTable.handles_dbCreate] at htable
      simp only [dbCreate_some hpodb, Nat.succ_ne_zero, if_false]
      have hhandle : (s.stored hcsock ({ s with
          table := { (s.table.dbCreate s.szBuf.append ok).1 with
            handles := s.table.handles ++ [podb] }
          copies := s.copies ++ [podb]
          opened := Function.update s.opened hcsock.sock (some s.szBuf.append) },
          DBServer.handled hcsock.app .OPEN s.sendhd (s.copies.length + 1) ok)).handle
            hcsock.sock = some podb := by
        simp only [handle, stored, DBServer.handled, Function.update_self, Option.bind_some, load,
          List.getElem?_concat_length]
      refine h.frame hcsock.sock htable rfl h.nodup rfl (fun c _ => rfl)
        (fun c hne => Function.update_of_ne hne _ _) (fun c hne => Function.update_of_ne hne _ _)
        (List.prefix_append _ _) (h.open' _) (hrecord _)
        (fun podb _ name' hname => h.table.strings_dbCreate hname ok) ?_ ?_
      · intro _ name hname
        obtain rfl := Option.some.inj ((Function.update_self (f := s.opened) ..).symm.trans hname)
        exact ⟨podb, hhandle, h.table.hasName_dbCreate hpodb⟩
      · rw [own_eq_singleton hhandle hmem]
        exact List.perm_append_comm.trans (hperm.cons podb)

/-- `CLOSE` on a connection with a database. -/
theorem ServiceInv.close_db (h : s.ServiceInv) {hcsock : ClientSockHandle}
    (hMDB : s.MDB sock = some hcsock) (hmem : sock ∈ s.clients) (hsome : s.opened sock ≠ none)
    {ok : Bool} (hcmd : s.szBuf.cmd = .CLOSE) {r : DBService × DataBase × CMD}
    (hr : s.execute sock hcsock.app ok = some r) :
    (s.stored hcsock r).ServiceInv ∧ (s.stored hcsock r).opened sock = none := by
  rw [execute, hcmd] at hr
  obtain ⟨r', hr', rfl⟩ := Option.map_eq_some_iff.mp hr
  obtain ⟨podb, hload, hdelete⟩ := Option.bind_eq_some_iff.mp hr'
  obtain ⟨t, ht, rfl⟩ := Option.map_eq_some_iff.mp hdelete
  obtain rfl := h.record sock hcsock hMDB
  obtain ⟨name, hname⟩ := Option.ne_none_iff_exists'.mp hsome
  have hhandle : s.handle hcsock.sock = some podb := by
    rw [handle, hname, Option.bind_some, hMDB, Option.bind_some, hload]
  have hperm : s.table.handles.Perm
      (podb :: (s.clients.erase hcsock.sock).filterMap s.handle) := by
    have hall := h.handles.trans (perm_own hcsock.sock)
    rwa [own_eq_singleton hhandle hmem] at hall
  have hrest : (s.table.handles.erase podb).Perm
      ((s.clients.erase hcsock.sock).filterMap s.handle) := by
    have herase := hperm.erase podb
    rwa [List.erase_cons_head] at herase
  have hlive : podb ∈ s.table.handles := hperm.mem_iff.mpr List.mem_cons_self
  obtain ⟨hhandles, htable, hnames⟩ := h.table.dbDelete hlive ht
  refine ⟨?_, Function.update_self ..⟩
  refine h.frame hcsock.sock htable rfl h.nodup rfl (fun c _ => rfl)
    (fun c hne => Function.update_of_ne hne _ _) (fun c hne => Function.update_of_ne hne _ _)
    (List.prefix_refl _) (h.open' _) ?_
    (fun podb' hpodb' => hnames podb' (hrest.mem_iff.mpr hpodb')) ?_ ?_
  · intro hcsock' hnew
    rw [← Option.some.inj ((Function.update_self (f := s.MDB) ..).symm.trans hnew)]
  · intro _ name' hname'
    cases (Function.update_self (f := s.opened) ..).symm.trans hname'
  · rw [own_eq_nil (Function.update_self (f := s.opened) ..)]
    exact hhandles ▸ hrest

/-- `SET`, `GET` and `DEL` write the record back as it was. -/
theorem execute_operation {app : DataBase} {ok : Bool} {r : DBService × DataBase × CMD}
    (hrequest : s.szBuf.cmd.isRequest = true) (hopen : s.szBuf.cmd ≠ .OPEN)
    (hclose : s.szBuf.cmd ≠ .CLOSE) (hr : s.execute sock app ok = some r) :
    r.1 = s ∧ r.2.1 = app ∧ r.2.2 ≠ .CLOSE_R := by
  rw [execute] at hr
  cases hcmd : s.szBuf.cmd <;> rw [hcmd] at hr hrequest hopen hclose
  case OPEN => exact absurd rfl hopen
  case CLOSE => exact absurd rfl hclose
  case SET | GET | DEL =>
    obtain ⟨_, -, rfl⟩ := Option.map_eq_some_iff.mp hr
    refine ⟨rfl, rfl, ?_⟩
    cases ok <;> nofun
  all_goals cases hrequest

/-- The packet in `szBuf` may be handled for a socket. -/
def Handles (s : DBService) (sock : Int) (ok : Bool) : Prop :=
  (s.szBuf.cmd = .OPEN → s.own sock = [] ∧
    (sock ∈ s.clients ∨ (s.table.dbCreate s.szBuf.append ok).2 = none)) ∧
  (s.szBuf.cmd = .CLOSE → sock ∈ s.clients ∧ s.opened sock ≠ none)

theorem ServiceInv.serve (h : s.ServiceInv) {ok : Bool} (hhandles : s.Handles sock ok)
    (hserve : s.serve sock ok = some s') : s'.ServiceInv := by
  obtain ⟨hcsock, hMDB, hgate⟩ := Option.bind_eq_some_iff.mp hserve
  obtain rfl := h.record sock hcsock hMDB
  cases hg : gate s.szBuf s.version with
  | handleSlaveRequest =>
      rw [hg] at hgate
      cases hgate
  | sendSlaveList =>
      rw [hg] at hgate
      obtain rfl := Option.some.inj hgate
      exact h
  | enQueue =>
      rw [hg] at hgate
      obtain ⟨r, hr, hstop⟩ := Option.bind_eq_some_iff.mp hgate
      -- after the reply, and ready for `DBServiceStop`
      have hstored : (s.stored hcsock r).ServiceInv ∧
          (r.2.2 = .CLOSE_R → (s.stored hcsock r).opened hcsock.sock = none) := by
        by_cases hopen : s.szBuf.cmd = .OPEN
        · obtain ⟨hown, hlive⟩ := hhandles.1 hopen
          refine ⟨h.open_db hMDB hown hlive hopen hr, fun hreply => ?_⟩
          rw [execute, hopen] at hr
          obtain rfl := Option.some.inj hr
          simp only [DBServer.handled] at hreply
          split at hreply <;> cases hreply
        by_cases hclose : s.szBuf.cmd = .CLOSE
        · obtain ⟨hmem, hsome⟩ := hhandles.2 hclose
          obtain ⟨hinv, hnone⟩ := h.close_db hMDB hmem hsome hclose hr
          exact ⟨hinv, fun _ => hnone⟩
        obtain ⟨hstate, happ, hreply⟩ := execute_operation h.request hopen hclose hr
        refine ⟨?_, fun heq => absurd heq hreply⟩
        have hsame : s.stored hcsock r = { s with sendhd := r.2.2 } := by
          rw [stored, hstate, happ]
          congr 1
          exact (congrArg _ hMDB.symm).trans (Function.update_eq_self _ _)
        rw [hsame]
        exact ⟨h.table, h.request, h.nodup, h.open', h.record, h.handles, h.named⟩
      split at hstop
      case isTrue hreply => exact hstored.1.dbServiceStop (hstored.2 hreply) hstop
      case isFalse =>
          obtain rfl := Option.some.inj hstop
          exact hstored.1

/-- **Every step that meets the condition keeps the invariant.** -/
theorem ServiceInv.step {e : ServiceEvent} (h : s.ServiceInv) (hcond : s.Releases e)
    (hstep : s.step e = some s') : s'.ServiceInv := by
  cases e with
  | accept sock ip app =>
      simp only [DBService.step, Option.ite_none_right_eq_some] at hstep
      obtain ⟨hclosed, heq⟩ := hstep
      obtain rfl := Option.some.inj heq
      have hfresh : sock ∉ s.clients := fun hmem => by
        rw [h.open' sock hmem] at hclosed
        cases hclosed
      refine h.quiet sock rfl rfl (List.nodup_cons.mpr ⟨hfresh, h.nodup⟩) ?_
        (fun c hne => Function.update_of_ne hne _ _) (fun c hne => Function.update_of_ne hne _ _)
        (fun c hne => Function.update_of_ne hne _ _) rfl
        (fun _ => ⟨Function.update_self .., Function.update_self ..⟩) ?_
        (own_eq_nil_of_not_mem hfresh)
      · rw [List.erase_cons_head, List.erase_of_not_mem hfresh]
      · intro hcsock hnew
        rw [← Option.some.inj ((Function.update_self (f := s.MDB) ..).symm.trans hnew)]
  | recv sock p ok =>
      simp only [DBService.step, Option.ite_none_right_eq_some] at hstep
      obtain ⟨⟨hmem, hrequest⟩, hserve⟩ := hstep
      have hrecv : ({ s with szBuf := p } : DBService).ServiceInv :=
        ⟨h.table, hrequest, h.nodup, h.open', h.record, h.handles, h.named⟩
      refine hrecv.serve ⟨fun hopen => ?_, fun hclose => ⟨hmem, hcond.2 hclose⟩⟩ hserve
      exact ⟨own_eq_nil (hcond.1 hopen), Or.inl hmem⟩
  | disconnect sock =>
      simp only [DBService.step, Option.ite_none_right_eq_some] at hstep
      obtain ⟨hmem, heq⟩ := hstep
      obtain rfl := Option.some.inj heq
      exact h.quiet sock rfl rfl (h.nodup.erase _) (h.erase_erase _) (fun c _ => rfl)
        (fun c _ => rfl) (fun c _ => rfl) rfl
        (fun hmem' => absurd hmem' h.nodup.not_mem_erase) (fun hcsock => h.record sock hcsock)
        (own_eq_nil hcond)
  | recvFails sock ok =>
      simp only [DBService.step, Option.ite_none_right_eq_some] at hstep
      obtain ⟨⟨-, hgone⟩, hserve⟩ := hstep
      refine h.serve ⟨fun hopen => ?_, fun hclose => absurd hclose hcond.1⟩ hserve
      obtain ⟨hnone, rfl⟩ := hcond.2 hopen
      exact ⟨own_eq_nil_of_not_mem hgone, Or.inr (DBTable.dbCreate_eq_none hnone)⟩
  | newVersion =>
      obtain rfl := Option.some.inj hstep
      exact ⟨h.table, h.request, h.nodup, h.open', h.record, h.handles, h.named⟩

end Steps

/-- **The connections release their references if every one closes what it has opened**: in
every run in which a connection opens a database when it has none open, closes one when it
has, ends when it has none, and a replayed packet is no `CLOSE` and no `OPEN` that returns a
handle, the counter of each name is the number of connections that have the database open,
and when none has one open, every database has been closed. -/
theorem released_of_allSteps (sendhd : CMD) (version : UInt32) (events : List ServiceEvent)
    (s : DBService) (hcond : allSteps step Releases (init sendhd version) events)
    (hrun : run step (init sendhd version) events = some s) : s.Released :=
  (run_invariant_of_allSteps Releases ServiceInv (fun _ _ _ h hcond hstep => h.step hcond hstep)
    hcond hrun (serviceInv_init sendhd version)).released

/-- Two clients open a database and close it; the second goes without closing another one
that could not be opened. -/
def twoClients : List ServiceEvent :=
  [.accept 5 1 0, .accept 6 2 0, .recv 5 ⟨.OPEN, 0, 0, [97]⟩ true,
    .recv 6 ⟨.OPEN, 0, 0, [97]⟩ false, .recv 5 ⟨.SET, 1, 0, [1]⟩ true,
    .recv 5 ⟨.CLOSE, 0, 0, []⟩ true, .recv 6 ⟨.CLOSE, 0, 0, []⟩ true, .accept 5 1 0,
    .recv 5 ⟨.OPEN, 0, 0, [98]⟩ false, .disconnect 5]

theorem released_of_allSteps_twoClients :
    ∃ s, run step (init .SET 0) twoClients = some s ∧ s.table.closed = [0] ∧ s.Released :=
  ⟨_, rfl, by decide +kernel,
    released_of_allSteps .SET 0 twoClients _ (by decide +kernel) rfl⟩

/-- A client that goes without `CLOSE` leaves its reference. -/
theorem reference_left :
    ∃ s, run step (init .SET 0)
        [.accept 5 1 0, .recv 5 ⟨.OPEN, 0, 0, [97]⟩ true, .disconnect 5] = some s ∧
      s.clients = [] ∧ s.counter [97] = 1 ∧ s.table.closed = [] ∧ ¬ s.Released := by
  refine ⟨_, rfl, rfl, rfl, rfl, fun hreleased => ?_⟩
  exact absurd (hreleased.1 [97]) (by decide +kernel)

end DBService

end DistributedDB
