import DistributedDB.Library.Run
import DistributedDB.Protocol
import DistributedDB.Routing

/-!
# The client's repeated operation

The loop of `DBSetKeyValue`, `DBGetKeyValue` and `DBDelKeyValue` in `netdbapi.c`, with
`CloseAllCloudNodes`, `OpenAllCloudNodes` and `ReadCloudNodes`.  When the connection breaks
or the slave answers with its list, the client closes its sockets, reads the list from the
master, connects to every slave and tries again; it does not look at what
`OpenAllCloudNodes` returns.  The `sock` fields of a list from the master are the master's
numbers, and stay in the nodes behind the one at which `OpenAllCloudNodes` stops.

A descriptor that the system returns is not in use.  A failed assertion and a node outside
the array have no result; nor has an answer of the master other than its list.

**Results.**
* `DBClient.redo`: one turn of the loop.
* `DBClient.usable_openAllCloudNodes`: reopening up to a node connects the client to it.
* `DBClient.directed_of_allSteps`: operations go only to the slave that `GetSocket` selects
  if every reopening gets as far as that slave.
* `DBClient.misdirected`: a client that sends its operation to another slave; and one that
  tries forever.
-/

namespace DistributedDB

open ArrayShift Run

/-- What an open descriptor of the client stands for. -/
structure Connection where
  /-- The slave that it is connected to, if it is. -/
  peer : Option Addr
  /-- The slave has answered `OPEN` with `OPEN_R`. -/
  opened : Bool
deriving DecidableEq, Repr

/-- A packet of an operation, with what its descriptor stood for. -/
structure OperationPacket where
  cmd : CMD
  key : dbKey
  version : UInt32
  /-- The node that `GetSocket` has selected. -/
  node : SlaveNode
  conn : Option Connection
deriving DecidableEq, Repr

/-- The packet has gone to the selected slave, with the database open. -/
def OperationPacket.Own (p : OperationPacket) : Prop :=
  p.conn = some ⟨some p.node.addr, true⟩

structure DBClient where
  slaves : SlaveList
  /-- The open descriptors. -/
  fds : Int → Option Connection
  /-- The packets sent by the operation. -/
  sends : List OperationPacket
  /-- What the operation has returned: 0, or -1 and `NULL`. -/
  result : Option Int

/-- What happens when the client opens a node. -/
structure NodeOpen where
  /-- What `socket` returns; `none` is -1. -/
  fd : Option Int
  connects : Bool
  /-- The command of the reply to `OPEN`; `none` when none arrives. -/
  reply : Option CMD
deriving DecidableEq, Repr

/-- The node is opened. -/
def NodeOpen.Answered (n : NodeOpen) : Prop :=
  n.fd.isSome = true ∧ n.connects = true ∧ n.reply = some .OPEN_R

/-- What happens in one turn. -/
structure Redo where
  /-- The command of the reply to the operation; `none` when `recv` returns 0 or -1. -/
  reply : Option CMD
  /-- Whether a node's reply to `CLOSE` reads `CMDFAIL`. -/
  closeFails : Nat → Bool
  /-- What `socket` returns for the master. -/
  masterFd : Option Int
  /-- The list in the master's reply; `none` when `connect` fails. -/
  list : Option SlaveList
  node : Nat → NodeOpen
  /-- The command that the stack holds for `recvBuf`. -/
  recvBuf : CMD

/-- `slaves->nodes[i].sock = sock`. -/
def SlaveList.setSock (slaves : SlaveList) (i : Nat) (sock : Int) : SlaveList :=
  { slaves with nodes := slaves.nodes.setIfInBounds i { slaves.node i with sock := sock } }

namespace DBClient

/-- The loop of `CloseAllCloudNodes` over the nodes of these indices. -/
def closeNodes (c : DBClient) (except_sock : Int) (fails : Nat → Bool) :
    List Nat → Option (DBClient × Int)
  | [] => some (c, 0)
  | i :: is =>
      let sock := (c.slaves.node i).sock
      if sock = except_sock then c.closeNodes except_sock fails is
      else if sock = -1 then none
      else if fails i then some (c, -1)
      else { c with fds := Function.update c.fds sock none }.closeNodes except_sock fails is

/-- `CloseAllCloudNodes`. -/
def closeAllCloudNodes (c : DBClient) (except_sock : Int) (fails : Nat → Bool) :
    Option (DBClient × Int) :=
  c.closeNodes except_sock fails (List.range c.slaves.num)

/-- A descriptor from `socket`. -/
def socket (c : DBClient) (fd : Int) : Option DBClient :=
  if 0 ≤ fd ∧ c.fds fd = none then
    some { c with fds := Function.update c.fds fd (some ⟨none, false⟩) }
  else none

/-- `ReadCloudNodes`. -/
def readCloudNodes (c : DBClient) (r : Redo) : Option (DBClient × Int) :=
  match r.masterFd with
  | none => some (c, -1)
  | some fd =>
      (c.socket fd).map fun c =>
        match r.list with
        | none => (c, -1)
        | some list => ({ c with slaves := list }, 0)

/-- The body of the loop of `OpenAllCloudNodes`: the client, what `recvBuf` has then, and
whether the loop goes on. -/
def openNode (c : DBClient) (i : Nat) (n : NodeOpen) (recvBuf : CMD) :
    Option (DBClient × CMD × Bool) :=
  if i < MAX_SLAVE_NUM then
    match n.fd with
    | none => some ({ c with slaves := c.slaves.setSock i (-1) }, recvBuf, false)
    | some fd =>
        (c.socket fd).map fun c =>
          let c := { c with slaves := c.slaves.setSock i fd }
          if n.connects then
            let recvBuf := n.reply.getD recvBuf
            ({ c with
                fds := Function.update c.fds fd
                  (some ⟨(c.slaves.node i).addr, decide (n.reply = some .OPEN_R)⟩) },
              recvBuf, decide (recvBuf = .OPEN_R))
          else (c, recvBuf, false)
  else none

/-- The loop of `OpenAllCloudNodes` from node `i` on. -/
def openNodes (node : Nat → NodeOpen) : Nat → Nat → CMD → DBClient →
    Option (DBClient × Int)
  | 0, _, _, c => some (c, 0)
  | k + 1, i, recvBuf, c =>
      (c.openNode i (node i) recvBuf).bind fun r =>
        if r.2.2 then openNodes node k (i + 1) r.2.1 r.1 else some (r.1, -1)

/-- `OpenAllCloudNodes`. -/
def openAllCloudNodes (c : DBClient) (r : Redo) : Option (DBClient × Int) :=
  (c.readCloudNodes r).bind fun a => openNodes r.node a.1.slaves.num 0 r.recvBuf a.1

/-- The two calls before `goto REDO`. -/
def reopen (c : DBClient) (except_sock : Int) (r : Redo) : Option DBClient :=
  (c.closeAllCloudNodes except_sock r.closeFails).bind fun a =>
    (a.1.openAllCloudNodes r).map Prod.fst

/-- One turn of the loop; when `recv` returns nothing, the connection is gone. -/
def redo (cmd : CMD) (key : dbKey) (c : DBClient) (r : Redo) : Option DBClient :=
  if c.result ≠ none then none
  else
    (getSocket c.slaves key).bind fun index =>
    let psock := (c.slaves.node index).sock
    if psock = -1 then none
    else
      let c : DBClient := { c with
        sends := c.sends ++
          [⟨cmd, key, c.slaves.version, c.slaves.node index, c.fds psock⟩] }
      match r.reply with
      | none =>
          { c with fds := Function.update c.fds psock (some ⟨none, false⟩) }.reopen psock r
      | some .UPDATE_VERSION => c.reopen (-1) r
      | some .CMDFAIL => some { c with result := some (-1) }
      | some _ => some { c with result := some 0 }

/-- The loop of `DBSetKeyValue`. -/
def dbSetKeyValue (key : dbKey) : DBClient → Redo → Option DBClient :=
  redo .SET key

/-- The loop of `DBGetKeyValue`. -/
def dbGetKeyValue (key : dbKey) : DBClient → Redo → Option DBClient :=
  redo .GET key

/-- The loop of `DBDelKeyValue`. -/
def dbDelKeyValue (key : dbKey) : DBClient → Redo → Option DBClient :=
  redo .DEL key

/-- The client is connected to the slave that `GetSocket` selects and has opened the
database there. -/
def Usable (c : DBClient) (key : dbKey) : Prop :=
  ∃ i, getSocket c.slaves key = some i ∧
    c.fds (c.slaves.node i).sock = some ⟨some (c.slaves.node i).addr, true⟩

/-- The operation's packets have gone to the slave that `GetSocket` selected, over a
connection on which the database is open, and the operation goes on only with such a
connection. -/
def Directed (c : DBClient) (key : dbKey) : Prop :=
  (∀ p ∈ c.sends, p.Own) ∧ (c.result = none → c.Usable key)

/-- The list that the client holds when it reconnects. -/
def listHeld (c : DBClient) (r : Redo) : SlaveList :=
  if r.masterFd.isSome then r.list.getD c.slaves else c.slaves

/-- The condition on a turn that reopens: the list then held has a slave for the key, and
every node up to this one is opened. -/
def Reaches (key : dbKey) (c : DBClient) (r : Redo) : Prop :=
  r.reply = none ∨ r.reply = some .UPDATE_VERSION →
    ∃ i, getSocket (c.listHeld r) key = some i ∧ ∀ j ≤ i, (r.node j).Answered

instance (n : NodeOpen) : Decidable n.Answered :=
  inferInstanceAs (Decidable (_ ∧ _ ∧ _))

instance (key : dbKey) (c : DBClient) (r : Redo) : Decidable (Reaches key c r) :=
  decidable_of_iff (r.reply = none ∨ r.reply = some .UPDATE_VERSION →
    ∃ i ∈ getSocket (c.listHeld r) key, ∀ j ≤ i, (r.node j).Answered) Iff.rfl

section Lists

variable (slaves : SlaveList) (i j : Nat) (sock : Int)

theorem node_setSock :
    (slaves.setSock i sock).node j =
      if i = j ∧ i < MAX_SLAVE_NUM then { slaves.node i with sock := sock }
      else slaves.node j :=
  cell_set slaves.nodes i j _

theorem key_setSock : ((slaves.setSock i sock).node j).key = (slaves.node j).key := by
  rw [node_setSock]
  split
  case isTrue h => rw [h.1]
  case isFalse => rfl

theorem addr_setSock : ((slaves.setSock i sock).node j).addr = (slaves.node j).addr := by
  rw [node_setSock]
  split
  case isTrue h => rw [h.1]; rfl
  case isFalse => rfl

/-- `GetSocket` does not look at the `sock` fields. -/
theorem getSocket_congr {slaves slaves' : SlaveList} (hnum : slaves'.num = slaves.num)
    (hkey : ∀ j, (slaves'.node j).key = (slaves.node j).key) (key : dbKey) :
    getSocket slaves' key = getSocket slaves key := by
  have hhit : sectionHit slaves' = sectionHit slaves := by
    funext key i
    simp only [sectionHit, hkey, hnum]
  rw [getSocket, getSocket, hnum, hhit]

end Lists

section Frames

variable {c c' c'' : DBClient}

/-- What opening the nodes from `i` on leaves as it is. -/
structure OpenFrame (i : Nat) (c c' : DBClient) : Prop where
  sends : c'.sends = c.sends
  result : c'.result = c.result
  num : c'.slaves.num = c.slaves.num
  key : ∀ j, (c'.slaves.node j).key = (c.slaves.node j).key
  addr : ∀ j, (c'.slaves.node j).addr = (c.slaves.node j).addr
  before : ∀ j < i, c'.slaves.node j = c.slaves.node j
  fds : ∀ fd, c.fds fd ≠ none → c'.fds fd = c.fds fd

theorem OpenFrame.refl (i : Nat) (c : DBClient) : OpenFrame i c c :=
  ⟨rfl, rfl, rfl, fun _ => rfl, fun _ => rfl, fun _ _ => rfl, fun _ _ => rfl⟩

theorem OpenFrame.trans {i : Nat} (h : OpenFrame i c c') (h' : OpenFrame (i + 1) c' c'') :
    OpenFrame i c c'' where
  sends := h'.sends.trans h.sends
  result := h'.result.trans h.result
  num := h'.num.trans h.num
  key := fun j => (h'.key j).trans (h.key j)
  addr := fun j => (h'.addr j).trans (h.addr j)
  before := fun j hj => (h'.before j (by omega)).trans (h.before j hj)
  fds := fun fd hfd => by
    have hkept := h.fds fd hfd
    rw [h'.fds fd (hkept ▸ hfd), hkept]

theorem socket_eq_some {fd : Int} (h : c.socket fd = some c') :
    c.fds fd = none ∧
      c' = { c with fds := Function.update c.fds fd (some ⟨none, false⟩) } := by
  simp only [socket, Option.ite_none_right_eq_some] at h
  exact ⟨h.1.2, (Option.some.inj h.2).symm⟩

/-- Setting the socket of a node to a fresh descriptor. -/
theorem openFrame_setSock {i : Nat} {sock : Int} {fds : Int → Option Connection}
    (hfds : ∀ fd, c.fds fd ≠ none → fds fd = c.fds fd) :
    OpenFrame i c { c with slaves := c.slaves.setSock i sock, fds := fds } where
  sends := rfl
  result := rfl
  num := rfl
  key := fun j => key_setSock c.slaves i j sock
  addr := fun j => addr_setSock c.slaves i j sock
  before := fun j hj => by rw [node_setSock, if_neg (by omega)]
  fds := hfds

theorem openFrame_openNode {i : Nat} {n : NodeOpen} {recvBuf : CMD} {r : DBClient × CMD × Bool}
    (h : c.openNode i n recvBuf = some r) : OpenFrame i c r.1 := by
  simp only [openNode, Option.ite_none_right_eq_some] at h
  obtain ⟨-, h⟩ := h
  cases hfd : n.fd with
  | none =>
      rw [hfd] at h
      obtain rfl := Option.some.inj h
      exact openFrame_setSock fun _ _ => rfl
  | some fd =>
      rw [hfd] at h
      obtain ⟨c', hsocket, rfl⟩ := Option.map_eq_some_iff.mp h
      obtain ⟨hfree, rfl⟩ := socket_eq_some hsocket
      have hne : ∀ fd', c.fds fd' ≠ none → fd' ≠ fd := by
        rintro fd' hsome rfl
        exact hsome hfree
      split
      case isTrue =>
          exact openFrame_setSock fun fd' hsome =>
            (Function.update_of_ne (hne fd' hsome) _ _).trans
              (Function.update_of_ne (hne fd' hsome) _ _)
      case isFalse =>
          exact openFrame_setSock fun fd' hsome => Function.update_of_ne (hne fd' hsome) _ _

theorem openFrame_openNodes {node : Nat → NodeOpen} {k i : Nat} {recvBuf : CMD}
    {a : DBClient × Int} (h : openNodes node k i recvBuf c = some a) : OpenFrame i c a.1 := by
  induction k generalizing i recvBuf c with
  | zero =>
      obtain rfl := Option.some.inj h
      exact OpenFrame.refl i c
  | succ k ih =>
      obtain ⟨r, hr, hrest⟩ := Option.bind_eq_some_iff.mp h
      have hframe := openFrame_openNode hr
      split at hrest
      case isTrue => exact hframe.trans (ih hrest)
      case isFalse =>
          obtain rfl := Option.some.inj hrest
          exact hframe

/-- A node that is opened: the loop goes on, with a connection to the slave. -/
theorem openNode_answered {i : Nat} {n : NodeOpen} (hn : n.Answered) {recvBuf : CMD}
    {r : DBClient × CMD × Bool} (h : c.openNode i n recvBuf = some r) :
    r.2.2 = true ∧
      r.1.fds (r.1.slaves.node i).sock = some ⟨some (c.slaves.node i).addr, true⟩ := by
  obtain ⟨hfd, hconnects, hreply⟩ := hn
  obtain ⟨fd, hfd⟩ := Option.isSome_iff_exists.mp hfd
  simp only [openNode, Option.ite_none_right_eq_some, hfd, hconnects, hreply] at h
  obtain ⟨hi, h⟩ := h
  obtain ⟨c', hsocket, rfl⟩ := Option.map_eq_some_iff.mp h
  obtain ⟨-, rfl⟩ := socket_eq_some hsocket
  refine ⟨rfl, ?_⟩
  have hnode : (c.slaves.setSock i fd).node i = { c.slaves.node i with sock := fd } := by
    rw [node_setSock, if_pos ⟨rfl, hi⟩]
  simp only [if_true, hnode, Function.update_self]
  rfl

/-- The loop opens every node up to one of them. -/
theorem openNodes_answered {node : Nat → NodeOpen} {k i t : Nat} {recvBuf : CMD}
    {a : DBClient × Int} (h : openNodes node k i recvBuf c = some a) (hit : i ≤ t)
    (htk : t < i + k) (hnodes : ∀ j ≤ t, (node j).Answered) :
    a.1.fds (a.1.slaves.node t).sock = some ⟨some (a.1.slaves.node t).addr, true⟩ := by
  induction k generalizing i recvBuf c with
  | zero => omega
  | succ k ih =>
      obtain ⟨r, hr, hrest⟩ := Option.bind_eq_some_iff.mp h
      obtain ⟨hgoes, hconn⟩ := openNode_answered (hnodes i hit) hr
      rw [if_pos hgoes] at hrest
      rcases Nat.eq_or_lt_of_le hit with rfl | hlt
      · have hlater := openFrame_openNodes hrest
        have hnode := hlater.before i (Nat.lt_succ_self i)
        rw [hnode, hlater.fds _ (by rw [hconn]; nofun), hconn, (openFrame_openNode hr).addr]
      · exact ih hrest hlt (by omega)

theorem closeNodes_frame {except_sock : Int} {fails : Nat → Bool} {is : List Nat}
    {a : DBClient × Int} (h : c.closeNodes except_sock fails is = some a) :
    a.1.slaves = c.slaves ∧ a.1.sends = c.sends ∧ a.1.result = c.result := by
  induction is generalizing c with
  | nil =>
      obtain rfl := Option.some.inj h
      exact ⟨rfl, rfl, rfl⟩
  | cons i is ih =>
      rw [closeNodes] at h
      split at h
      case isTrue => exact ih h
      case isFalse =>
          split at h
          case isTrue => cases h
          case isFalse =>
              split at h
              case isTrue =>
                  obtain rfl := Option.some.inj h
                  exact ⟨rfl, rfl, rfl⟩
              case isFalse =>
                  have hrest := ih h
                  exact hrest

theorem readCloudNodes_frame {r : Redo} {a : DBClient × Int}
    (h : c.readCloudNodes r = some a) :
    a.1.slaves = c.listHeld r ∧ a.1.sends = c.sends ∧ a.1.result = c.result := by
  rw [readCloudNodes] at h
  rw [listHeld]
  cases hfd : r.masterFd with
  | none =>
      rw [hfd] at h
      obtain rfl := Option.some.inj h
      exact ⟨rfl, rfl, rfl⟩
  | some fd =>
      rw [hfd] at h
      obtain ⟨c', hsocket, rfl⟩ := Option.map_eq_some_iff.mp h
      obtain ⟨-, rfl⟩ := socket_eq_some hsocket
      cases r.list <;> exact ⟨rfl, rfl, rfl⟩

/-- **Reopening as far as the selected node connects the client to its slave.** -/
theorem usable_openAllCloudNodes {r : Redo} {a : DBClient × Int} {key : dbKey}
    (h : c.openAllCloudNodes r = some a) {i : Nat} (hi : getSocket (c.listHeld r) key = some i)
    (hnodes : ∀ j ≤ i, (r.node j).Answered) : a.1.Usable key := by
  obtain ⟨b, hread, hopen⟩ := Option.bind_eq_some_iff.mp h
  obtain ⟨hslaves, -, -⟩ := readCloudNodes_frame hread
  have hframe := openFrame_openNodes hopen
  have hselected : getSocket a.1.slaves key = some i := by
    rw [getSocket_congr hframe.num hframe.key, hslaves, hi]
  have hlt : i < b.1.slaves.num := by
    rw [hslaves]
    exact getSocket_lt_num hi
  exact ⟨i, hselected, openNodes_answered hopen (Nat.zero_le _) (by omega) hnodes⟩

theorem reopen_frame {except_sock : Int} {r : Redo} (h : c.reopen except_sock r = some c') :
    c'.sends = c.sends ∧ c'.result = c.result := by
  obtain ⟨a, hclose, hmap⟩ := Option.bind_eq_some_iff.mp h
  obtain ⟨b, hopen, rfl⟩ := Option.map_eq_some_iff.mp hmap
  obtain ⟨-, hsends, hresult⟩ := closeNodes_frame hclose
  obtain ⟨d, hread, hnodes⟩ := Option.bind_eq_some_iff.mp hopen
  obtain ⟨-, hsends', hresult'⟩ := readCloudNodes_frame hread
  have hframe := openFrame_openNodes hnodes
  exact ⟨hframe.sends.trans (hsends'.trans hsends),
    hframe.result.trans (hresult'.trans hresult)⟩

theorem usable_reopen {except_sock : Int} {r : Redo} (h : c.reopen except_sock r = some c')
    {key : dbKey} {i : Nat} (hi : getSocket (c.listHeld r) key = some i)
    (hnodes : ∀ j ≤ i, (r.node j).Answered) : c'.Usable key := by
  obtain ⟨a, hclose, hmap⟩ := Option.bind_eq_some_iff.mp h
  obtain ⟨b, hopen, rfl⟩ := Option.map_eq_some_iff.mp hmap
  obtain ⟨hslaves, -, -⟩ := closeNodes_frame hclose
  refine usable_openAllCloudNodes hopen ?_ hnodes
  rw [listHeld, hslaves]
  exact hi

end Frames

section Turns

variable {cmd : CMD} {key : dbKey} {c c' : DBClient} {r : Redo}

/-- **A turn that meets the condition keeps the operation directed.** -/
theorem directed_redo (h : c.Directed key) (hcond : c.Reaches key r)
    (hstep : redo cmd key c r = some c') : c'.Directed key := by
  rw [redo] at hstep
  split at hstep
  case isTrue => cases hstep
  case isFalse hrunning =>
      rw [not_not] at hrunning
      obtain ⟨i, hi, hown⟩ := h.2 hrunning
      rw [hi, Option.bind_some] at hstep
      simp only at hstep
      split at hstep
      case isTrue => cases hstep
      case isFalse =>
          have hsends : ∀ p ∈ c.sends ++
              [⟨cmd, key, c.slaves.version, c.slaves.node i, c.fds (c.slaves.node i).sock⟩],
              p.Own := by
            intro p hp
            rcases List.mem_append.mp hp with hold | hnew
            · exact h.1 p hold
            · rw [List.mem_singleton.mp hnew]
              exact hown
          split at hstep
          case h_1 hreply =>
              obtain ⟨j, hj, hnodes⟩ := hcond (Or.inl hreply)
              obtain ⟨hsame, -⟩ := reopen_frame hstep
              exact ⟨hsame ▸ hsends, fun _ => usable_reopen hstep hj hnodes⟩
          case h_2 hreply =>
              obtain ⟨j, hj, hnodes⟩ := hcond (Or.inr hreply)
              obtain ⟨hsame, -⟩ := reopen_frame hstep
              exact ⟨hsame ▸ hsends, fun _ => usable_reopen hstep hj hnodes⟩
          case h_3 =>
              obtain rfl := Option.some.inj hstep
              exact ⟨hsends, nofun⟩
          case h_4 =>
              obtain rfl := Option.some.inj hstep
              exact ⟨hsends, nofun⟩

end Turns

/-- **Operations go to the right slave if every reopening gets that far**: for every list and
key, in every run of an operation that starts on an opened database and in which each time
the client reopens, the list then held has a slave for the key and every node up to this
slave is opened, every packet of the operation is sent to the slave that `GetSocket` selects
over a connection on which the database is open, and the operation goes on only with such a
connection. -/
theorem directed_of_allSteps (key : dbKey) (c : DBClient) (hsends : c.sends = [])
    (husable : c.Usable key) :
    ∀ operation ∈ [dbSetKeyValue key, dbGetKeyValue key, dbDelKeyValue key],
      ∀ (turns : List Redo) (c' : DBClient), allSteps operation (Reaches key) c turns →
        run operation c turns = some c' → c'.Directed key := by
  have hstart : c.Directed key := by
    refine ⟨fun p hp => ?_, fun _ => husable⟩
    rw [hsends] at hp
    cases hp
  have hall : ∀ (cmd : CMD) (turns : List Redo) (c' : DBClient),
      allSteps (redo cmd key) (Reaches key) c turns → run (redo cmd key) c turns = some c' →
        c'.Directed key :=
    fun cmd turns c' hcond hrun => run_invariant_of_allSteps (Reaches key)
      (fun c => c.Directed key) (fun _ _ _ h hcond hstep => directed_redo h hcond hstep) hcond
      hrun hstart
  intro operation hoperation
  rcases List.mem_cons.mp hoperation with rfl | hoperation
  · exact hall .SET
  rcases List.mem_cons.mp hoperation with rfl | hoperation
  · exact hall .GET
  · rw [List.mem_singleton.mp hoperation]
    exact hall .DEL

/-- A client of three slaves, connected to each of them. -/
def connected : DBClient where
  slaves := (((ringOf 3).setSock 0 3).setSock 1 4).setSock 2 5
  fds := fun fd =>
    if fd = 3 then some ⟨some ((ringOf 3).node 0).addr, true⟩
    else if fd = 4 then some ⟨some ((ringOf 3).node 1).addr, true⟩
    else if fd = 5 then some ⟨some ((ringOf 3).node 2).addr, true⟩
    else none
  sends := []
  result := none

/-- The slave answers with its list, and the master's list is read; in it, the sockets are
the master's. -/
def newList (node : Nat → NodeOpen) : Redo where
  reply := some .UPDATE_VERSION
  closeFails := fun _ => false
  masterFd := some 3
  list := some ((ringOf 3).setSock 2 4)
  node := node
  recvBuf := .SET

/-- The slave has executed the operation. -/
def success : Redo where
  reply := some .SET_R
  closeFails := fun _ => false
  masterFd := none
  list := none
  node := fun _ => ⟨none, false, none⟩
  recvBuf := .SET

/-- Every node is opened again. -/
theorem directed_connected :
    ∃ c', run (dbSetKeyValue 3500) connected
        [newList fun j => ⟨some (j + 4), true, some .OPEN_R⟩, success] = some c' ∧
      c'.sends.length = 2 ∧ c'.Directed 3500 := by
  have hlength : (run (dbSetKeyValue 3500) connected
      [newList fun j => ⟨some (j + 4), true, some .OPEN_R⟩, success]).map
        (fun c => c.sends.length) = some 2 := by
    decide +kernel
  obtain ⟨c', hrun, hlength⟩ := Option.map_eq_some_iff.mp hlength
  refine ⟨c', hrun, hlength, ?_⟩
  exact directed_of_allSteps 3500 connected rfl ⟨2, by decide +kernel, by decide +kernel⟩
    (dbSetKeyValue 3500) List.mem_cons_self _ c' (by decide +kernel) hrun

/-- The second node cannot be reached; the third has the master's number for its socket,
which is the client's connection to the first. -/
theorem misdirected :
    ∃ c', run (dbSetKeyValue 3500) connected
        [newList fun j => ⟨some (j + 4), j = 0, some .OPEN_R⟩, success] = some c' ∧
      c'.result = some 0 ∧ ¬ c'.Directed 3500 := by
  have hsends : (run (dbSetKeyValue 3500) connected
      [newList fun j => ⟨some (j + 4), j = 0, some .OPEN_R⟩, success]).map
        (fun c => (c.result, c.sends.map fun p => (p.node.addr, p.conn))) =
      some (some 0,
        [(((ringOf 3).node 2).addr, some ⟨some ((ringOf 3).node 2).addr, true⟩),
          (((ringOf 3).node 2).addr, some ⟨some ((ringOf 3).node 0).addr, true⟩)]) := by
    decide +kernel
  obtain ⟨c', hrun, hsends⟩ := Option.map_eq_some_iff.mp hsends
  obtain ⟨hresult, hsends⟩ := Prod.mk.inj hsends
  refine ⟨c', hrun, hresult, fun hdirected => ?_⟩
  have hlast : (((ringOf 3).node 2).addr, some ⟨some ((ringOf 3).node 0).addr, true⟩) ∈
      c'.sends.map fun p => (p.node.addr, p.conn) := by
    rw [hsends]
    exact List.mem_cons_of_mem _ List.mem_cons_self
  obtain ⟨p, hp, heq⟩ := List.mem_map.mp hlast
  obtain ⟨haddr, hconn⟩ := Prod.mk.inj heq
  have hown := hdirected.1 p hp
  rw [OperationPacket.Own, haddr, hconn] at hown
  exact absurd hown (by decide +kernel)

/-- The connection to the slave of the key is gone, the master cannot be reached and neither
can the first slave. -/
def unreachable : Redo where
  reply := none
  closeFails := fun _ => false
  masterFd := none
  list := none
  node := fun _ => ⟨some 3, false, none⟩
  recvBuf := .SET

/-- A client of two slaves. -/
def listOfTwo : SlaveList :=
  ((ringOf 2).setSock 0 3).setSock 1 4

/-- A turn in which nothing can be reached. -/
theorem redo_unreachable {c : DBClient} (hslaves : c.slaves = listOfTwo)
    (hresult : c.result = none) :
    ∃ c', dbSetKeyValue 2500 c unreachable = some c' ∧ c'.slaves = listOfTwo ∧
      c'.result = none ∧ ¬ c'.Usable 2500 := by
  obtain ⟨slaves, fds, sends, result⟩ := c
  obtain rfl : slaves = listOfTwo := hslaves
  obtain rfl : result = none := hresult
  have hselected : getSocket listOfTwo 2500 = some 1 := by decide +kernel
  have hfirst : (listOfTwo.node 0).sock = 3 := by decide +kernel
  have hsecond : (listOfTwo.node 1).sock = 4 := by decide +kernel
  have hset : listOfTwo.setSock 0 3 = listOfTwo := by decide +kernel
  have hrange : List.range listOfTwo.num = [0, 1] := by decide +kernel
  have hnum : listOfTwo.num = 2 := by decide +kernel
  let gone : Option Connection := some ⟨none, false⟩
  have hclose : ∀ fds sends,
      closeAllCloudNodes ⟨listOfTwo, fds, sends, none⟩ 4 (fun _ => false) =
        some (⟨listOfTwo, Function.update fds 3 none, sends, none⟩, 0) := by
    intro fds sends
    simp [closeAllCloudNodes, hrange, closeNodes, hfirst, hsecond]
  have hopen : ∀ fds sends,
      openAllCloudNodes ⟨listOfTwo, Function.update fds 3 none, sends, none⟩ unreachable =
        some (⟨listOfTwo, Function.update (Function.update fds 3 none) 3 gone, sends, none⟩,
          -1) := by
    intro fds sends
    simp [openAllCloudNodes, readCloudNodes, unreachable, hnum, openNodes, openNode, socket, hset,
      MAX_SLAVE_NUM, gone]
  refine
    ⟨⟨listOfTwo, Function.update (Function.update (Function.update fds 4 gone) 3 none) 3 gone,
      sends ++ [⟨.SET, 2500, listOfTwo.version, listOfTwo.node 1, fds 4⟩], none⟩,
      ?_, rfl, rfl, ?_⟩
  · simp only [dbSetKeyValue, redo, hselected, Option.bind_some, hsecond]
    rw [if_neg (by simp), if_neg (by decide)]
    simp only [reopen, unreachable] at hopen ⊢
    rw [hclose, Option.bind_some, hopen, Option.map_some]
  · rintro ⟨i, hi, hconn⟩
    obtain rfl : i = 1 := (Option.some.inj (hselected.symm.trans hi)).symm
    have hgone : Function.update (Function.update (Function.update fds 4 gone) 3 none) 3 gone 4 =
        gone := by
      rw [Function.update_of_ne (by decide), Function.update_of_ne (by decide),
        Function.update_self]
    rw [hsecond] at hconn
    have hopened := congrArg (Option.map Connection.opened) (hgone.symm.trans hconn)
    exact Bool.false_ne_true (Option.some.inj hopened)

/-- The operation is tried forever, on a connection that is gone. -/
theorem tries_forever (n : Nat) :
    ∃ c', run (dbSetKeyValue 2500) ⟨listOfTwo, connected.fds, [], none⟩
        (List.replicate (n + 1) unreachable) = some c' ∧
      c'.result = none ∧ ¬ c'.Usable 2500 := by
  have hturns : ∀ (n : Nat) (c : DBClient), c.slaves = listOfTwo → c.result = none →
      ∃ c', run (dbSetKeyValue 2500) c (List.replicate (n + 1) unreachable) = some c' ∧
        c'.result = none ∧ ¬ c'.Usable 2500 := by
    intro n
    induction n with
    | zero =>
        intro c hslaves hresult
        obtain ⟨c', hstep, -, hresult', hunusable⟩ := redo_unreachable hslaves hresult
        exact ⟨c', run_cons_eq_some.mpr ⟨c', hstep, rfl⟩, hresult', hunusable⟩
    | succ n ih =>
        intro c hslaves hresult
        obtain ⟨m, hstep, hslaves', hresult', -⟩ := redo_unreachable hslaves hresult
        obtain ⟨c', hrun, hlast⟩ := ih m hslaves' hresult'
        exact ⟨c', run_cons_eq_some.mpr ⟨m, hstep, hrun⟩, hlast⟩
  exact hturns n _ rfl rfl

end DBClient

end DistributedDB
