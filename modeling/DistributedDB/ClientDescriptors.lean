import DistributedDB.Library.Potential
import DistributedDB.Reopen

/-!
# The client's descriptors

Whole sessions of the client: `DBCreate`, operations with their loops from `REDO`, and
`DBDelete`, when every slave that the client opens or closes answers.  A ledger has the
descriptors that nobody will close: `ReadCloudNodes` never closes its connection to the
master, and a connection that breaks is left out by `CloseAllCloudNodes` and then forgotten.

**Results.**
* `Ledger`: the open descriptors are those of the ledger and those of the nodes.
* `Ledger.openAllCloudNodes`, `Ledger.closeAllCloudNodes`: opening fills in every node, with one
  descriptor for the ledger; closing closes exactly the nodes' descriptors.
* `ClientProcess.openDescriptors`: how many descriptors are open after a session.
-/

namespace DistributedDB

open Run

/-- Every node can be closed, the list is read, and every node of it is opened. -/
def Redo.Succeeds (r : Redo) : Prop :=
  (∀ i, r.closeFails i = false) ∧ r.masterFd.isSome = true ∧
    ∃ list, r.list = some list ∧ ∀ i < list.num, (r.node i).Answered

/-- A turn that reopens succeeds in it. -/
def Redo.Reopens (r : Redo) : Prop :=
  r.reply = none ∨ r.reply = some .UPDATE_VERSION → r.Succeeds

/-- The descriptors that a turn loses: the connection to the master, and one that broke. -/
def Redo.lost (r : Redo) : Nat :=
  match r.reply with
  | none => 2
  | some .UPDATE_VERSION => 1
  | some _ => 0

namespace DBClient

/-- The descriptors of the first `k` nodes. -/
def socks (c : DBClient) (k : Nat) : List Int :=
  (List.range k).map fun i => (c.slaves.node i).sock

theorem socks_succ (c : DBClient) (k : Nat) :
    c.socks (k + 1) = c.socks k ++ [(c.slaves.node k).sock] := by
  rw [socks, List.range_succ, List.map_append, List.map_singleton, socks]

theorem socks_congr {c c' : DBClient} {k : Nat}
    (h : ∀ i < k, c'.slaves.node i = c.slaves.node i) : c'.socks k = c.socks k :=
  List.map_congr_left fun i hi => congrArg SlaveNode.sock (h i (List.mem_range.mp hi))

/-- The open descriptors are those that are lost and those in use, each once. -/
structure Ledger (c : DBClient) (lost used : List Int) : Prop where
  once : (lost ++ used).Nodup
  isOpen : ∀ fd, c.fds fd ≠ none ↔ fd ∈ lost ++ used
  nonneg : ∀ fd ∈ used, 0 ≤ fd

section Ledger

variable {c c' : DBClient} {lost used : List Int}

theorem ledger_nil (h : ∀ fd, c.fds fd = none) : c.Ledger [] [] where
  once := List.nodup_nil
  isOpen fd := by simp [h fd]
  nonneg := by simp

/-- The number of open descriptors. -/
theorem Ledger.encard (h : c.Ledger lost used) :
    {fd | c.fds fd ≠ none}.encard = (lost.length + used.length : Nat) := by
  have hset : {fd | c.fds fd ≠ none} = ((lost ++ used).toFinset : Set Int) := by
    ext fd
    rw [Set.mem_ofPred_eq, h.isOpen, List.coe_toFinset, Set.mem_ofPred_eq]
  rw [hset, Set.encard_coe_eq_coe_finsetCard, List.toFinset_card_of_nodup h.once,
    List.length_append]

/-- A descriptor from `socket`. -/
theorem Ledger.socket (h : c.Ledger lost used) {fd : Int} (hsocket : c.socket fd = some c') :
    c'.Ledger (fd :: lost) used := by
  obtain ⟨hfree, rfl⟩ := socket_eq_some hsocket
  have hnew : fd ∉ lost ++ used := fun hmem => (h.isOpen fd).mpr hmem hfree
  refine ⟨List.nodup_cons.mpr ⟨hnew, h.once⟩, fun fd' => ?_, h.nonneg⟩
  rcases eq_or_ne fd' fd with rfl | hne
  · simp
  · simp only [Function.update_of_ne hne, h.isOpen, List.cons_append, List.mem_cons, hne,
      false_or]

/-- Which descriptors are open is all that counts. -/
theorem Ledger.congr (h : c.Ledger lost used)
    (hfds : ∀ fd, c'.fds fd ≠ none ↔ c.fds fd ≠ none) :
    c'.Ledger lost used where
  once := h.once
  isOpen fd := (hfds fd).trans (h.isOpen fd)
  nonneg := h.nonneg

/-- What a descriptor in use stands for changes. -/
theorem Ledger.isOpen_update (h : c.Ledger lost used) {fd : Int} (hfd : fd ∈ used)
    (conn : Connection) (fd' : Int) :
    Function.update c.fds fd (some conn) fd' ≠ none ↔ c.fds fd' ≠ none := by
  rcases eq_or_ne fd' fd with rfl | hne
  · have hopen := (h.isOpen fd').mpr (List.mem_append_right lost hfd)
    simp [hopen]
  · rw [Function.update_of_ne hne]

/-- A descriptor is put to use. -/
theorem Ledger.use {fd : Int} (h : c.Ledger (fd :: lost) used) (hfd : 0 ≤ fd) :
    c.Ledger lost (used ++ [fd]) := by
  have hperm : (fd :: lost ++ used).Perm (lost ++ (used ++ [fd])) := by
    rw [← List.append_assoc]
    exact (List.perm_append_singleton fd (lost ++ used)).symm
  refine ⟨hperm.nodup_iff.mp h.once, fun fd' => (h.isOpen fd').trans hperm.mem_iff, ?_⟩
  intro fd' hmem
  rcases List.mem_append.mp hmem with hold | hnew
  · exact h.nonneg fd' hold
  · rw [List.mem_singleton.mp hnew]
    exact hfd

/-- With -1 as the descriptor to leave out, none is left out. -/
theorem Ledger.mem_nil_iff (h : c.Ledger lost used) (fd : Int) :
    fd ∈ ([] : List Int) ↔ fd = -1 ∧ fd ∈ used := by
  constructor
  · intro hmem
    cases hmem
  · rintro ⟨rfl, hmem⟩
    have hnonneg := h.nonneg (-1) hmem
    omega

/-- `CloseAllCloudNodes` when no slave answers with `CMDFAIL`. -/
theorem closeNodes_eq (c : DBClient) (except_sock : Int) {fails : Nat → Bool}
    (hfails : ∀ i, fails i = false) (is : List Nat)
    (hsocks : ∀ i ∈ is, (c.slaves.node i).sock ≠ -1) :
    c.closeNodes except_sock fails is =
      some ({ c with
        fds := fun fd =>
          if fd ≠ except_sock ∧ fd ∈ is.map (fun i => (c.slaves.node i).sock) then none
          else c.fds fd }, 0) := by
  induction is generalizing c with
  | nil => simp [closeNodes]
  | cons i is ih =>
      obtain ⟨hi, hsocks⟩ := List.forall_mem_cons.mp hsocks
      rw [closeNodes]
      by_cases hexcept : (c.slaves.node i).sock = except_sock
      · rw [if_pos hexcept, ih c hsocks]
        congr 3
        funext fd
        refine if_congr (and_congr_right fun hne => ?_) rfl rfl
        rw [List.map_cons, List.mem_cons, hexcept, or_iff_right hne]
      · have hclosed : ∀ fd,
            (if fd ≠ except_sock ∧ fd ∈ is.map (fun j => (c.slaves.node j).sock) then none
              else Function.update c.fds (c.slaves.node i).sock none fd) =
            if fd ≠ except_sock ∧
              fd ∈ (i :: is).map (fun j => (c.slaves.node j).sock) then none
              else c.fds fd := by
          intro fd
          rcases eq_or_ne fd (c.slaves.node i).sock with rfl | hne
          · rw [Function.update_self, ite_self, if_pos ⟨hexcept, List.mem_cons_self⟩]
          · rw [Function.update_of_ne hne]
            refine if_congr (and_congr_right fun _ => ?_) rfl rfl
            rw [List.map_cons, List.mem_cons, or_iff_right hne]
        rw [if_neg hexcept, if_neg hi, if_neg (by simp [hfails])]
        refine (ih { c with fds := Function.update c.fds (c.slaves.node i).sock none }
          hsocks).trans ?_
        congr 3
        exact funext hclosed

/-- **Closing.**  The descriptors of the nodes are closed, but for one that is left out. -/
theorem Ledger.closeAllCloudNodes (h : c.Ledger lost (c.socks c.slaves.num)) {except_sock : Int}
    {fails : Nat → Bool} (hfails : ∀ i, fails i = false) {kept : List Int} (honce : kept.Nodup)
    (hkept : ∀ fd, fd ∈ kept ↔ fd = except_sock ∧ fd ∈ c.socks c.slaves.num) :
    ∃ c', c.closeAllCloudNodes except_sock fails = some (c', 0) ∧ c'.slaves = c.slaves ∧
      c'.Ledger (kept ++ lost) [] := by
  have hsocks : ∀ i ∈ List.range c.slaves.num, (c.slaves.node i).sock ≠ -1 := by
    intro i hi hsock
    have hnonneg := h.nonneg _ (List.mem_map_of_mem hi)
    omega
  refine ⟨_, closeNodes_eq c except_sock hfails _ hsocks, rfl, ?_, fun fd => ?_, by simp⟩
  · rw [List.append_nil]
    have hapart := List.disjoint_of_nodup_append h.once
    refine honce.append h.once.of_append_left fun fd hfd hlost => ?_
    exact hapart hlost ((hkept fd).mp hfd).2
  · have hlost : fd ∈ lost → fd ∉ c.socks c.slaves.num := fun hmem hused =>
      List.disjoint_of_nodup_append h.once hmem hused
    have hopen := h.isOpen fd
    rw [List.mem_append] at hopen
    rw [List.append_nil, List.mem_append, hkept]
    change (if fd ≠ except_sock ∧ fd ∈ c.socks c.slaves.num then none else c.fds fd) ≠
      none ↔ _
    split
    case isTrue hclosed => tauto
    case isFalse hclosed => tauto

/-- A node that answers is opened. -/
theorem Ledger.openNode {i : Nat} (h : c.Ledger lost (c.socks i)) {n : NodeOpen}
    (hn : n.Answered) {recvBuf : CMD} {r : DBClient × CMD × Bool}
    (hopen : c.openNode i n recvBuf = some r) :
    r.2.2 = true ∧ r.1.Ledger lost (r.1.socks (i + 1)) := by
  have hframe := openFrame_openNode hopen
  refine ⟨(openNode_answered hn hopen).1, ?_⟩
  obtain ⟨hfd, hconnects, -⟩ := hn
  obtain ⟨fd, hfd⟩ := Option.isSome_iff_exists.mp hfd
  simp only [DBClient.openNode, Option.ite_none_right_eq_some, hfd, hconnects, if_true] at hopen
  obtain ⟨hi, hopen⟩ := hopen
  obtain ⟨c', hsocket, hr⟩ := Option.map_eq_some_iff.mp hopen
  have hfree : 0 ≤ fd := by
    simp only [DBClient.socket, Option.ite_none_right_eq_some] at hsocket
    exact hsocket.1.1
  have hlast : (r.1.slaves.node i).sock = fd := by
    rw [← hr, (socket_eq_some hsocket).2]
    exact congrArg SlaveNode.sock ((node_setSock ..).trans (if_pos ⟨rfl, hi⟩))
  rw [socks_succ, hlast, socks_congr hframe.before]
  have hused := (h.socket hsocket).use hfree
  refine hused.congr ?_
  rw [← hr]
  exact hused.isOpen_update (List.mem_append_right _ (List.mem_singleton_self fd)) _

/-- The nodes from `i` on are opened. -/
theorem Ledger.openNodes {node : Nat → NodeOpen} {k i : Nat} {recvBuf : CMD} {a : DBClient × Int}
    (h : c.Ledger lost (c.socks i)) (hnodes : ∀ j < i + k, (node j).Answered)
    (hopen : openNodes node k i recvBuf c = some a) :
    a.2 = 0 ∧ a.1.Ledger lost (a.1.socks (i + k)) := by
  induction k generalizing i recvBuf c with
  | zero =>
      obtain rfl := Option.some.inj hopen
      exact ⟨rfl, h⟩
  | succ k ih =>
      obtain ⟨r, hr, hrest⟩ := Option.bind_eq_some_iff.mp hopen
      obtain ⟨hgoes, hnext⟩ := h.openNode (hnodes i (by omega)) hr
      rw [if_pos hgoes] at hrest
      have hlast := ih hnext (fun j hj => hnodes j (by omega)) hrest
      rwa [show i + (k + 1) = i + 1 + k by omega]

/-- **Opening.**  Every node gets a descriptor, and one is lost to the master. -/
theorem Ledger.openAllCloudNodes (h : c.Ledger lost []) {r : Redo} (hr : r.Succeeds)
    {a : DBClient × Int} (hopen : c.openAllCloudNodes r = some a) :
    a.2 = 0 ∧ ∃ fd, a.1.Ledger (fd :: lost) (a.1.socks a.1.slaves.num) := by
  obtain ⟨-, hmaster, list, hlist, hnodes⟩ := hr
  obtain ⟨fd, hfd⟩ := Option.isSome_iff_exists.mp hmaster
  obtain ⟨b, hread, hopen⟩ := Option.bind_eq_some_iff.mp hopen
  simp only [readCloudNodes, hfd, hlist] at hread
  obtain ⟨c', hsocket, rfl⟩ := Option.map_eq_some_iff.mp hread
  have hstart : ({ c' with slaves := list } : DBClient).Ledger (fd :: lost) [] :=
    (h.socket hsocket).congr fun _ => Iff.rfl
  have hnum := (openFrame_openNodes hopen).num
  obtain ⟨hres, hall⟩ := hstart.openNodes (i := 0) (fun j hj =>
    hnodes j (hj.trans_eq (Nat.zero_add list.num))) hopen
  refine ⟨hres, fd, ?_⟩
  rwa [hnum, ← Nat.zero_add list.num]

/-- Closing all descriptors but those in `kept`, and opening the nodes of the new list. -/
theorem ledger_of_reopen {except_sock : Int} {r : Redo} (hreopen : c.reopen except_sock r = some c')
    (hr : r.Succeeds) (h : c.Ledger lost (c.socks c.slaves.num)) {kept : List Int}
    (honce : kept.Nodup)
    (hkept : ∀ fd, fd ∈ kept ↔ fd = except_sock ∧ fd ∈ c.socks c.slaves.num) :
    ∃ fd, c'.Ledger (fd :: (kept ++ lost)) (c'.socks c'.slaves.num) := by
  obtain ⟨c₁, hclose, -, hclosed⟩ := h.closeAllCloudNodes hr.1 honce hkept
  rw [DBClient.reopen, hclose] at hreopen
  obtain ⟨a, hopen, rfl⟩ := Option.map_eq_some_iff.mp hreopen
  exact (hclosed.openAllCloudNodes hr hopen).2

/-- **One turn of an operation.** -/
theorem Ledger.redo (h : c.Ledger lost (c.socks c.slaves.num)) {cmd : CMD} {key : dbKey}
    {r : Redo} (hr : r.Reopens) (hstep : redo cmd key c r = some c') :
    ∃ lost', lost'.length = lost.length + r.lost ∧
      c'.Ledger lost' (c'.socks c'.slaves.num) := by
  rw [DBClient.redo] at hstep
  split at hstep
  case isTrue => cases hstep
  case isFalse =>
      obtain ⟨i, hi, hstep⟩ := Option.bind_eq_some_iff.mp hstep
      have hsock : (c.slaves.node i).sock ∈ c.socks c.slaves.num :=
        List.mem_map_of_mem (List.mem_range.mpr (getSocket_lt_num hi))
      simp only at hstep
      split at hstep
      case isTrue => cases hstep
      case isFalse =>
          split at hstep
          case h_1 hreply =>
              -- the broken connection is left out, and lost
              have hbroken := h.isOpen_update hsock ⟨none, false⟩
              have hkept : ∀ fd, fd ∈ [(c.slaves.node i).sock] ↔
                  fd = (c.slaves.node i).sock ∧ fd ∈ c.socks c.slaves.num := by
                intro fd
                rw [List.mem_singleton]
                exact ⟨fun heq => ⟨heq, heq ▸ hsock⟩, fun hboth => hboth.1⟩
              obtain ⟨fd, hnext⟩ :=
                ledger_of_reopen hstep (hr (Or.inl hreply)) (h.congr hbroken)
                (List.nodup_singleton _) hkept
              exact ⟨_, by simp [Redo.lost, hreply], hnext⟩
          case h_2 hreply =>
              obtain ⟨fd, hnext⟩ := ledger_of_reopen hstep (hr (Or.inr hreply))
                (h.congr fun _ => Iff.rfl) List.nodup_nil h.mem_nil_iff
              exact ⟨_, by simp [Redo.lost, hreply], hnext⟩
          case h_3 hreply =>
              obtain rfl := Option.some.inj hstep
              exact ⟨lost, by simp [Redo.lost, hreply], h.congr fun _ => Iff.rfl⟩
          case h_4 cmd' hversion hfail hreply =>
              obtain rfl := Option.some.inj hstep
              refine ⟨lost, ?_, h.congr fun _ => Iff.rfl⟩
              rw [Redo.lost, hreply]
              split <;> simp_all

end Ledger

/-- So many descriptors are lost, and the other open ones are those of the nodes. -/
def Lost (c : DBClient) (k : Nat) : Prop :=
  ∃ lost, lost.length = k ∧ c.Ledger lost (c.socks c.slaves.num)

/-- The loop of an operation. -/
theorem Lost.run {c c' : DBClient} {k : Nat} (h : c.Lost k) {cmd : CMD} {key : dbKey}
    {turns : List Redo} (hturns : ∀ r ∈ turns, r.Reopens)
    (hrun : run (redo cmd key) c turns = some c') : c'.Lost (k + (turns.map Redo.lost).sum) := by
  refine Potential.owes_add_sum ?_ hrun hturns h
  rintro c r c' _ ⟨lost, rfl, hledger⟩ hr hturn
  exact hledger.redo hr hturn

section Functions

variable (c : DBClient)

/-- `DBCreate`; `malloced` is what the new list holds.  The handle is not `NULL` when the
result is 0. -/
def dbCreate (malloced : SlaveList) (r : Redo) : Option (DBClient × Int) :=
  { c with slaves := malloced }.openAllCloudNodes r

/-- `DBDelete`. -/
def dbDelete (closeFails : Nat → Bool) : Option (DBClient × Int) :=
  c.closeAllCloudNodes (-1) closeFails

end Functions

end DBClient

/-- The client process, and whether it has a handle. -/
structure ClientProcess where
  client : DBClient
  hasHandle : Bool

/-- A call of the user. -/
inductive ClientEvent where
  | create (malloced : SlaveList) (r : Redo)
  /-- An operation, with the turns of its loop. -/
  | operation (cmd : CMD) (key : dbKey) (turns : List Redo)
  | delete (closeFails : Nat → Bool)

namespace ClientEvent

/-- What is opened and closed in the call succeeds. -/
def Succeeds : ClientEvent → Prop
  | create _ r => r.Succeeds
  | operation _ _ turns => ∀ r ∈ turns, r.Reopens
  | delete closeFails => ∀ i, closeFails i = false

/-- The descriptors that the call loses. -/
def lost : ClientEvent → Nat
  | create _ _ => 1
  | operation _ _ turns => (turns.map Redo.lost).sum
  | delete _ => 0

end ClientEvent

namespace ClientProcess

/-- A call; one that does not return has no result. -/
def step (s : ClientProcess) : ClientEvent → Option ClientProcess
  | .create malloced r =>
      if s.hasHandle then none
      else (s.client.dbCreate malloced r).map fun a => ⟨a.1, decide (a.2 = 0)⟩
  | .operation cmd key turns =>
      if s.hasHandle then
        (run (DBClient.redo cmd key) { s.client with sends := [], result := none } turns).bind
          fun c => if c.result = none then none else some ⟨c, true⟩
      else none
  | .delete closeFails =>
      if s.hasHandle then (s.client.dbDelete closeFails).map fun a => ⟨a.1, false⟩
      else none

/-- The descriptors in use. -/
def used (s : ClientProcess) : List Int :=
  if s.hasHandle then s.client.socks s.client.slaves.num else []

/-- So many descriptors are lost, and the other open ones are those of the nodes. -/
def Lost (s : ClientProcess) (k : Nat) : Prop :=
  ∃ lost, lost.length = k ∧ s.client.Ledger lost s.used

section Calls

variable {s t : ClientProcess} {k : Nat}

theorem Lost.create (h : s.Lost k) {malloced : SlaveList} {r : Redo} (hr : r.Succeeds)
    (hstep : s.step (.create malloced r) = some t) : t.Lost (k + 1) := by
  simp only [step, Option.ite_none_left_eq_some] at hstep
  obtain ⟨hclosed, hstep⟩ := hstep
  obtain ⟨a, hcreate, rfl⟩ := Option.map_eq_some_iff.mp hstep
  obtain ⟨lost, rfl, hledger⟩ := h
  rw [used, if_neg hclosed] at hledger
  have hstart : ({ s.client with slaves := malloced } : DBClient).Ledger lost [] :=
    hledger.congr fun _ => Iff.rfl
  obtain ⟨hres, fd, hopened⟩ := hstart.openAllCloudNodes hr hcreate
  refine ⟨fd :: lost, rfl, ?_⟩
  rwa [used, if_pos (decide_eq_true hres)]

theorem Lost.operation (h : s.Lost k) {cmd : CMD} {key : dbKey} {turns : List Redo}
    (hturns : ∀ r ∈ turns, r.Reopens) (hstep : s.step (.operation cmd key turns) = some t) :
    t.Lost (k + (turns.map Redo.lost).sum) := by
  simp only [step, Option.ite_none_right_eq_some] at hstep
  obtain ⟨hopen, hstep⟩ := hstep
  obtain ⟨c, hrun, hreturned⟩ := Option.bind_eq_some_iff.mp hstep
  obtain ⟨-, hreturned⟩ := Option.ite_none_left_eq_some.mp hreturned
  obtain rfl := Option.some.inj hreturned
  obtain ⟨lost, rfl, hledger⟩ := h
  rw [used, if_pos hopen] at hledger
  have hstart : DBClient.Lost { s.client with sends := [], result := none } lost.length :=
    ⟨lost, rfl, hledger.congr fun _ => Iff.rfl⟩
  exact hstart.run hturns hrun

theorem Lost.delete (h : s.Lost k) {closeFails : Nat → Bool}
    (hfails : ∀ i, closeFails i = false) (hstep : s.step (.delete closeFails) = some t) :
    t.Lost k := by
  simp only [step, Option.ite_none_right_eq_some] at hstep
  obtain ⟨hopen, hstep⟩ := hstep
  obtain ⟨lost, rfl, hledger⟩ := h
  rw [used, if_pos hopen] at hledger
  obtain ⟨c, hclose, -, hclosed⟩ :=
    hledger.closeAllCloudNodes hfails List.nodup_nil hledger.mem_nil_iff
  rw [DBClient.dbDelete, hclose] at hstep
  obtain rfl := Option.some.inj hstep
  exact ⟨lost, rfl, hclosed⟩

/-- **A call loses its descriptors**, and no others. -/
theorem Lost.step (h : s.Lost k) {e : ClientEvent} (he : e.Succeeds) (hstep : s.step e = some t) :
    t.Lost (k + e.lost) := by
  cases e with
  | create malloced r => exact h.create he hstep
  | operation cmd key turns => exact h.operation he hstep
  | delete closeFails => exact h.delete he hstep

end Calls

/-- **What a session leaves open.**  In every session of a client, in which what it opens and
closes succeeds, as many descriptors are open as the open database has nodes, and as many
more as were lost: one for each list that was read, since the connection to the master stays
open, and one for each connection that broke. -/
theorem openDescriptors (c : DBClient) (hfds : ∀ fd, c.fds fd = none) (events : List ClientEvent)
    (hsucceeds : ∀ e ∈ events, e.Succeeds) (s : ClientProcess)
    (hrun : run step ⟨c, false⟩ events = some s) :
    {fd | s.client.fds fd ≠ none}.encard =
      ((events.map ClientEvent.lost).sum +
        if s.hasHandle then s.client.slaves.num else 0 : Nat) := by
  have hstart : Lost ⟨c, false⟩ 0 := ⟨[], rfl, DBClient.ledger_nil hfds⟩
  obtain ⟨lost, hlost, hledger⟩ := Potential.owes_add_sum
    (fun _ _ _ _ h he hstep => h.step he hstep) hrun hsucceeds hstart
  rw [hledger.encard, hlost, Nat.zero_add, used]
  split <;> simp [DBClient.socks]

section Session

/-- A list of `n` slaves is read, and each of them answers. -/
def reopening (reply : Option CMD) (n : Nat) (fd : Int) : Redo where
  reply := reply
  closeFails := fun _ => false
  masterFd := some fd
  list := some (ringOf n)
  node := fun j => ⟨some (fd + 1 + j), true, some .OPEN_R⟩
  recvBuf := .SET

theorem succeeds_reopening (reply : Option CMD) (n : Nat) (fd : Int) :
    (reopening reply n fd).Succeeds :=
  ⟨fun _ => rfl, rfl, ringOf n, rfl, fun _ _ => ⟨rfl, rfl, rfl⟩⟩

/-- A connection breaks in an operation, and then the slave has a newer list. -/
def brokenSession : List ClientEvent :=
  [.create SlaveList.empty (reopening none 2 3),
    .operation .SET 3000
      [reopening none 2 6, reopening (some .UPDATE_VERSION) 3 9, DBClient.success],
    .delete fun _ => false]

theorem openDescriptors_brokenSession :
    ∃ s, run step ⟨⟨SlaveList.empty, fun _ => none, [], none⟩, false⟩ brokenSession =
      some s ∧
      {fd | s.client.fds fd ≠ none}.encard = 4 := by
  have hreturns : (run step ⟨⟨SlaveList.empty, fun _ => none, [], none⟩, false⟩
      brokenSession).map ClientProcess.hasHandle = some false := by
    decide +kernel
  obtain ⟨s, hrun, hclosed⟩ := Option.map_eq_some_iff.mp hreturns
  have hsuccess : DBClient.success.Reopens := by
    intro hreply
    simp [DBClient.success] at hreply
  have hturns : ∀ r ∈ [reopening none 2 6, reopening (some .UPDATE_VERSION) 3 9,
      DBClient.success], r.Reopens := by
    simp only [List.forall_mem_cons]
    exact ⟨fun _ => succeeds_reopening _ _ _, fun _ => succeeds_reopening _ _ _, hsuccess,
      by simp⟩
  have hsucceeds : ∀ e ∈ brokenSession, e.Succeeds := by
    rw [brokenSession, List.forall_mem_cons, List.forall_mem_cons, List.forall_mem_singleton]
    exact ⟨succeeds_reopening _ _ _, hturns, fun _ => rfl⟩
  refine ⟨s, hrun, ?_⟩
  rw [openDescriptors _ (fun _ => rfl) brokenSession hsucceeds s hrun, hclosed]
  rfl

end Session

end ClientProcess

end DistributedDB
