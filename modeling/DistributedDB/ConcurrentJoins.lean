import DistributedDB.InitialSlave
import DistributedDB.Refinement

/-!
# Registrations, concurrently

The registrations of the system of the master and the slaves, together with the
files, when the initialisation of a new slave overlaps the next registration.

**Results.**
* `JoinInv`: the primaries hold the right keys for the list that the master had
  before the current round, less the one slave that has not been given its data.
* `joins_place_keys`: when every `CLIP_DATA` finds the requester and the
  requester's successor behind the predecessor, all keys end up at their owners.
* `late_clip_misplaces_key`: otherwise they may not.
-/

namespace DistributedDB

open PartialMap RingIndex Run

/-- Every primary holds, of the keys below `MAX_KEY`, exactly the entries of the
map that `GetSocket` routes to its slave. -/
def Net.Placed (n : Net) (m : dbKey → Option dbValue) : Prop :=
  ∀ i, i < n.slaves.num → ∀ key : dbKey, key.toNat < MAX_KEY →
    contents (n.fileOf (n.addr i)) key = routedTo n.slaves i m key

structure JoinNet where
  net : Net
  /-- Where `InitialSlave` is at each address. -/
  stage : Addr → InitStage

inductive JoinEvent where
  | addSlave (sn : SlaveNode) (rand : Nat)
  | notify
  | deliver
  | recvReply
  | finish
  /-- One exchange of `InitialSlave`. -/
  | initial (a : Addr)
  /-- `InitialSlave` is over. -/
  | initialised (a : Addr)
deriving DecidableEq, Repr

namespace JoinNet

def onNet (j : JoinNet) (e : NetEvent) : Option JoinNet :=
  (j.net.step e).map fun n => { j with net := n }

/-- One step of the system; `none` when the event cannot happen. -/
def step (j : JoinNet) : JoinEvent → Option JoinNet
  | .addSlave sn rand => j.onNet (.addSlave sn rand)
  | .notify => j.onNet .notify
  | .deliver => j.onNet .deliver
  | .recvReply => j.onNet .recvReply
  | .finish =>
      match j.net.task with
      | some r =>
          (j.net.step .finish).map fun n =>
            { net := n
              stage := Function.update j.stage (j.net.addr r.pos)
                (InitStage.first (n.procAt r.pos).slave.slaves.num) }
      | none => none
  | .initial a =>
      if (j.net.procs a).phase = .initialising then
        (j.net.initialStep a (j.stage a)).map fun n =>
          { net := n
            stage := Function.update j.stage a
              ((j.stage a).next (n.procs a).slave.slaves.num) }
      else none
  | .initialised a =>
      if j.stage a = .done then j.onNet (.initialised a) else none

/-- The condition on a step: a `CLIP_DATA` is handled by a predecessor that has no
other slave in between. -/
def ClipsOwnSection (j : JoinNet) : JoinEvent → Prop
  | .initial a =>
      j.stage a = .clip → ∀ b, j.net.peer a (-1) = some b → j.net.FindsBounds a b
  | _ => True

instance (j : JoinNet) (e : JoinEvent) : Decidable (j.ClipsOwnSection e) :=
  match e with
  | .initial a =>
      decidable_of_iff
        (j.stage a = .clip → ∀ b ∈ j.net.peer a (-1), j.net.FindsBounds a b) Iff.rfl
  | .addSlave _ _ | .notify | .deliver | .recvReply | .finish | .initialised _ =>
      isTrue trivial

/-- The slave at `a` is registered but has not fetched its data. -/
def Unclipped (j : JoinNet) (a : Addr) : Prop :=
  (j.net.procs a).phase = .initialising ∧ j.stage a = .clip

/-- The entries of a map below `MAX_KEY`. -/
def below (m : dbKey → Option dbValue) : dbKey → Option dbValue :=
  restrict (fun key => key.toNat < MAX_KEY) m

/-- The nodes of `data` have the data that the map routes to them.  That is the
list `base`, or `base` without the slave that has not fetched its data. -/
structure DataInv (j : JoinNet) (m : dbKey → Option dbValue) (base data : SlaveList) :
    Prop where
  ring : RingInv base
  dataRing : RingInv data
  pos : 0 < data.num
  placed : ∀ i, i < data.num →
    below (contents (j.net.fileOf (data.node i).addr)) = routedTo data i (below m)
  unclipped :
    (data = base ∧ ∀ a, ¬ j.Unclipped a) ∨
      ∃ q, WithoutNode data base q ∧ ∀ a, j.Unclipped a ↔ a = (base.node q).addr

/-- **The invariant of concurrent registrations.** -/
structure JoinInv (j : JoinNet) (m : dbKey → Option dbValue) : Prop where
  net : j.net.NetInv
  registering : j.net.Registering
  tmp : ∀ a, (j.net.procs a).slave.disk.file_tmp = none
  data : ∃ base data, j.net.ListBefore base ∧ j.DataInv m base data

section Steps

variable {j j' : JoinNet} {m : dbKey → Option dbValue} {base data : SlaveList}

/-- A step that leaves the primaries and the slaves without data as they are. -/
theorem DataInv.of_same (h : j.DataInv m base data)
    (hfile : ∀ a, j'.net.fileOf a = j.net.fileOf a)
    (hunclipped : ∀ a, j'.Unclipped a ↔ j.Unclipped a) : j'.DataInv m base data where
  ring := h.ring
  dataRing := h.dataRing
  pos := h.pos
  placed := by
    intro i hi
    rw [hfile]
    exact h.placed i hi
  unclipped := by
    simp only [hunclipped]
    exact h.unclipped

theorem JoinInv.of_same (h : j.JoinInv m) (hnet : j'.net.NetInv)
    (hreg : j'.net.Registering)
    (hbefore : ∀ base, j.net.ListBefore base → j'.net.ListBefore base)
    (htmp : ∀ a, (j'.net.procs a).slave.disk.file_tmp = none)
    (hfile : ∀ a, j'.net.fileOf a = j.net.fileOf a)
    (hunclipped : ∀ a, j'.Unclipped a ↔ j.Unclipped a) : j'.JoinInv m where
  net := hnet
  registering := hreg
  tmp := htmp
  data := by
    obtain ⟨base, data, hbase, hdata⟩ := h.data
    exact ⟨base, data, hbefore base hbase, hdata.of_same hfile hunclipped⟩

theorem JoinInv.addSlave (h : j.JoinInv m) {sn : SlaveNode} {rand : Nat}
    (htask : j.net.task = none) (hmax : j.net.slaves.num < MAX_SLAVE_NUM)
    (hchanges : j.net.changes + 1 < 2 ^ 32) (hdown : (j.net.procs sn.addr).phase = .down) :
    ({ j with net := j.net.beginAdd sn rand } : JoinNet).JoinInv m := by
  have hround := h.net.round_beginAdd htask hmax hchanges hdown rand
  have hprocs := fun x => Net.procs_beginAdd rand hdown x
  refine h.of_same (h.net.addSlave htask hmax hchanges hdown rand) ?_ ?_ ?_ ?_ ?_
  case refine_1 =>
    rintro _ ⟨⟩
    exact ⟨rfl, fun i _ _ hyes => absurd hyes (Round.not_told_start _ _ i)⟩
  case refine_2 =>
    intro base hbase
    simp only [Net.ListBefore, htask] at hbase
    subst hbase
    exact ⟨_, hround⟩
  case refine_3 =>
    intro a
    rw [(hprocs a).1]
    exact h.tmp a
  case refine_4 =>
    intro a
    rw [Net.fileOf, (hprocs a).1]
    rfl
  case refine_5 => exact fun a => and_congr_left fun _ => (hprocs a).2

theorem JoinInv.notify (h : j.JoinInv m) {r : Round} (htask : j.net.task = some r)
    (hstage : r.stage = .ready) (hlt : r.i < j.net.slaves.num) :
    ({ j with net := { j.net with task := some (Net.notified r) } } : JoinNet).JoinInv m := by
  refine h.of_same ?_ (h.registering.notify htask hstage) ?_ h.tmp (fun _ => rfl)
    (fun _ => Iff.rfl)
  · obtain ⟨before, after, hround⟩ := h.net.round htask
    exact h.net.of_task (hround.notify hstage hlt)
  · intro base hbase
    simp only [Net.ListBefore, htask] at hbase
    obtain ⟨after, hround⟩ := hbase
    exact ⟨after, hround.notify hstage hlt⟩

theorem JoinInv.deliver (h : j.JoinInv m) {r : Round} (htask : j.net.task = some r)
    (hstage : r.stage = .sent) (hserving : (j.net.procAt r.i).phase = .serving) :
    ({ j with net := j.net.delivered r } : JoinNet).JoinInv m := by
  have hprocs := fun x => Net.procs_delivered (n := j.net) r x
  refine h.of_same (h.net.deliver htask hstage)
    (h.registering.deliver htask hstage hserving) ?_ ?_ ?_ ?_
  · intro base hbase
    simp only [Net.ListBefore, htask] at hbase
    obtain ⟨after, hround⟩ := hbase
    exact ⟨after, h.net.round_delivered hround hstage⟩
  · intro a
    rw [(hprocs a).1]
    exact h.tmp a
  · intro a
    rw [Net.fileOf, (hprocs a).1]
    rfl
  · intro a
    rw [Unclipped, (hprocs a).2]
    rfl

theorem JoinInv.recvReply (h : j.JoinInv m) {r : Round} (htask : j.net.task = some r)
    (hstage : r.stage = .replied) :
    ({ j with
      net := { j.net with task := some { r with i := r.i + 1, stage := .ready } } } :
      JoinNet).JoinInv m := by
  refine h.of_same ?_ (h.registering.recvReply htask hstage) ?_ h.tmp (fun _ => rfl)
    (fun _ => Iff.rfl)
  · obtain ⟨before, after, hround⟩ := h.net.round htask
    exact h.net.of_task (hround.recvReply hstage)
  · intro base hbase
    simp only [Net.ListBefore, htask] at hbase
    obtain ⟨after, hround⟩ := hbase
    exact ⟨after, hround.recvReply hstage⟩

/-- A slave that is through with `InitialSlave` enters its main loop. -/
theorem JoinInv.initialised (h : j.JoinInv m) {a : Addr}
    (hphase : (j.net.procs a).phase = .initialising) (hdone : j.stage a = .done) :
    (⟨j.net.setProc a { j.net.procs a with phase := .serving }, j.stage⟩ :
      JoinNet).JoinInv m := by
  have hslave : ∀ x, ((j.net.setProc a { j.net.procs a with phase := .serving }).procs
      x).slave = (j.net.procs x).slave := by
    intro x
    rcases eq_or_ne x a with rfl | hne
    · rw [Net.procs_setProc_self]
    · rw [Net.procs_setProc_of_ne hne]
  have hreplaces : j.net.Replaces a { j.net.procs a with phase := .serving } :=
    ⟨rfl, rfl, Or.inr ⟨Or.inl hphase, Or.inr (Or.inl rfl)⟩⟩
  refine h.of_same (h.net.replace hreplaces) (h.registering.initialised a)
    (fun base hbase => hbase.replace hreplaces) ?_ ?_ ?_
  · intro x
    rw [hslave]
    exact h.tmp x
  · intro x
    rw [Net.fileOf, hslave]
    rfl
  · intro x
    simp only [Unclipped]
    rcases eq_or_ne x a with rfl | hne
    · rw [hdone]
      simp
    · rw [Net.procs_setProc_of_ne hne]

/-- A registration ends: the new slave has a section, but no data yet. -/
theorem JoinInv.finish (h : j.JoinInv m) {r : Round} (htask : j.net.task = some r)
    (hend : r.i = j.net.slaves.num) :
    ({ net := j.net.finished r
       stage := Function.update j.stage (j.net.addr r.pos)
         (InitStage.first ((j.net.finished r).procAt r.pos).slave.slaves.num) } :
      JoinNet).JoinInv m := by
  obtain ⟨hcmd, _⟩ := h.registering r htask
  obtain ⟨base, data, hbase, hdata⟩ := h.data
  simp only [Net.ListBefore, htask] at hbase
  obtain ⟨after, hround⟩ := hbase
  have hwith := hround.withoutNode hcmd
  have hprocs := fun x => Net.procs_finished (n := j.net) hcmd x
  have hinv := h.net.finishAdd htask hend hcmd
  have hslaves : (j.net.finished r).slaves = j.net.slaves := by
    simp [Net.finished, Net.finishedList, hcmd, Net.setProc]
  have hlt : r.pos < (j.net.finished r).slaves.num := by
    rw [hslaves]
    exact hround.lists.pos_lt
  have hnew : ((j.net.finished r).procAt r.pos).slave.slaves = j.net.slaves :=
    ((hinv.settled rfl).procs r.pos hlt).2.1.trans hslaves
  -- nobody was still without data: the master has waited for all replies
  have hnone : ∀ a, (j.net.procs a).phase ≠ .initialising := by
    intro a ha
    obtain ⟨i, hi, rfl⟩ := h.net.homes a (by rw [ha]; decide)
    rcases eq_or_ne i r.pos with rfl | hne
    · exact r.requesterPhase_ne.1 (hround.requester.symm.trans ha)
    · have hserving := h.registering.serving htask hend hi hne
      rw [Net.procAt, ha] at hserving
      cases hserving
  have hsame : data = base := by
    rcases hdata.unclipped with ⟨heq, _⟩ | ⟨q, _, hq⟩
    · exact heq
    · exact absurd ((hq _).mpr rfl).1 (hnone _)
  subst hsame
  have hpos := hdata.pos
  have hnum := hwith.num
  constructor
  case net => exact hinv
  case registering =>
    rintro _ ⟨⟩
  case tmp =>
    intro a
    rw [(hprocs a).1]
    exact h.tmp a
  case data =>
    refine ⟨j.net.slaves, data, hslaves.symm, ?_⟩
    constructor
    case ring => exact h.net.ring
    case dataRing => exact hdata.ring
    case pos => exact hpos
    case placed =>
      intro i hi
      rw [Net.fileOf, (hprocs _).1]
      exact hdata.placed i hi
    case unclipped =>
      refine Or.inr ⟨r.pos, hwith, fun a => ?_⟩
      simp only [Unclipped, (hprocs a).2, hnew, InitStage.first]
      rcases eq_or_ne a (j.net.addr r.pos) with rfl | hne
      · have hone : 1 < j.net.slaves.num := by omega
        simp [hone]
        rfl
      · rw [if_neg hne]
        exact ⟨fun hc => absurd hc.1 (hnone a), fun heq => absurd heq hne⟩

/-- The new slave fetches its data: now every node of the list has its own. -/
theorem DataInv.clip (hdata : j.DataInv m base data) (hdistinct : base.DistinctAddrs)
    {q : Nat} (hwith : WithoutNode data base q) {b : Addr}
    (hb : b = (base.node (back base.num q 1)).addr) {keep give : HDB}
    (hkeep : contents keep =
      restrict (fun k => ¬ sectionRange base q k = true) (contents (j.net.fileOf b)))
    (hgive : contents give =
      restrict (fun k => sectionRange base q k = true) (contents (j.net.fileOf b)))
    (hfile : ∀ x, j'.net.fileOf x =
      if x = (base.node q).addr then give else if x = b then keep else j.net.fileOf x)
    (hunclipped : ∀ a, ¬ j'.Unclipped a) : j'.DataInv m base base := by
  have hpos := hdata.pos
  have hnum := hwith.num
  have hle := hwith.pos
  have hq : q < base.num := by omega
  have hback := back_lt (i := q) (k := 1) (show 0 < base.num by omega)
  have hne := back_one_ne hq (show 1 < base.num by omega)
  have hbelow : ∀ key, below m key ≠ none → key.toNat < MAX_KEY := by
    intro key hkey
    by_contra hlarge
    rw [below, restrict, if_neg hlarge] at hkey
    exact hkey rfl
  -- the predecessor had the data of both sections
  have hpre : below (contents (j.net.fileOf b)) =
      routedTo data (back data.num q 1) (below m) := by
    have hlt := back_lt (i := q) (k := 1) hpos
    have hnode := hwith.node _ hlt
    rw [oldIndex_back hle hpos, ← hnum] at hnode
    rw [hb, ← hnode]
    exact hdata.placed _ hlt
  obtain ⟨hstays, hgoes⟩ :=
    Stores.clip_routedTo hwith hdata.dataRing hdata.ring hpos hbelow
  constructor
  case ring => exact hdata.ring
  case dataRing => exact hdata.ring
  case pos => omega
  case placed =>
    intro i hi
    rw [hfile]
    rcases eq_or_ne i q with rfl | hiq
    · rw [if_pos rfl, hgive, below, restrict_comm, ← below, hpre]
      exact hgoes
    · have hia : (base.node i).addr ≠ (base.node q).addr :=
        fun heq => hiq (hdistinct i hi q hq heq)
      rw [if_neg hia]
      rcases eq_or_ne i (back base.num q 1) with rfl | hib
      · rw [if_pos hb.symm, hkeep, below, restrict_comm, ← below, hpre]
        exact hstays
      · have hiab : (base.node i).addr ≠ b := by
          rw [hb]
          exact fun heq => hib (hdistinct i hi _ hback heq)
        have hlt := newIndex_lt hle (show i ≤ data.num by omega) hiq
        have hnew : newIndex q i ≠ back data.num q 1 := by
          rw [ne_eq, newIndex_eq_back_iff hle hpos hiq, ← hnum]
          exact hib
        rw [if_neg hiab, ← hwith.node_newIndex hi hiq, hdata.placed _ hlt]
        refine restrict_congr _ fun k _ => ?_
        rw [hwith.getSocket_of_ne hdata.dataRing hdata.ring hlt hnew,
          oldIndex_newIndex hiq]
  case unclipped => exact Or.inl ⟨rfl, hunclipped⟩

theorem JoinInv.clip (h : j.JoinInv m) {a : Addr} {n' : Net} {stage : InitStage}
    (hphase : (j.net.procs a).phase = .initialising) (hstage : j.stage a = .clip)
    (hclip : j.net.initialStep a .clip = some n') (hnext : stage ≠ .clip)
    (hbounds : ∀ b, j.net.peer a (-1) = some b → j.net.FindsBounds a b) :
    (⟨n', Function.update j.stage a stage⟩ : JoinNet).JoinInv m := by
  obtain ⟨hlists, hfiles⟩ := Net.filesOnly_initialStep hclip
  obtain ⟨base, data, hbase, hdata⟩ := h.data
  rcases hdata.unclipped with ⟨_, hno⟩ | ⟨q, hwith, hq⟩
  · exact absurd ⟨hphase, hstage⟩ (hno a)
  · obtain rfl := (hq a).mp ⟨hphase, hstage⟩
    have hpos := hdata.pos
    have hnum := hwith.num
    have hle := hwith.pos
    obtain ⟨hslaves, hown⟩ := hbase.slaveOf h.net h.registering
      (show q < base.num by omega) (by rw [hphase]; decide)
    have hpeer := Net.peer_pre hslaves hown (by omega) (by omega)
    have hparts := Net.contents_clipData hslaves hown (hbounds _ hpeer) (h.tmp _)
    constructor
    case net => exact hlists.inv h.net
    case registering => exact hlists.registering h.registering
    case tmp => exact fun x => (hfiles x).tmp (h.tmp x)
    case data =>
      refine ⟨base, base, hlists.before base hbase, ?_⟩
      refine hdata.clip (hbase.distinctAddrs h.net h.registering) hwith rfl hparts.1
        hparts.2 (Net.fileOf_clip hclip hpeer) ?_
      rintro x ⟨hx, hxs⟩
      rcases eq_or_ne x (base.node q).addr with rfl | hne
      · exact hnext (by simpa using hxs)
      · have hold : j.Unclipped x := by
          refine ⟨(hlists.phase x).symm.trans hx, ?_⟩
          simpa [hne] using hxs
        exact hne ((hq x).mp hold)

/-- The other exchanges of `InitialSlave`. -/
theorem JoinInv.exchange (h : j.JoinInv m) {a : Addr} {n' : Net} {stage : InitStage}
    (hstage : j.stage a ≠ .clip) (hstep : j.net.initialStep a (j.stage a) = some n')
    (hnext : stage ≠ .clip) :
    (⟨n', Function.update j.stage a stage⟩ : JoinNet).JoinInv m := by
  obtain ⟨hlists, hfiles⟩ := Net.filesOnly_initialStep hstep
  refine h.of_same (hlists.inv h.net) (hlists.registering h.registering) hlists.before
    (fun x => (hfiles x).tmp (h.tmp x)) (fun x => (hfiles x).primary hstage) fun x => ?_
  simp only [Unclipped, hlists.phase]
  rcases eq_or_ne x a with rfl | hne
  · simp [hnext, hstage]
  · simp [hne]

theorem next_ne_clip (num : Nat) (stage : InitStage) : stage.next num ≠ .clip := by
  cases stage with
  | backup1 =>
      simp only [InitStage.next]
      split <;> decide
  | clip => simp [InitStage.next]
  | update2 => simp [InitStage.next]
  | backup2 => simp [InitStage.next]
  | done => simp [InitStage.next]

/-- **Every step that meets the condition keeps the invariant.** -/
theorem JoinInv.step {e : JoinEvent} (h : j.JoinInv m) (hcond : j.ClipsOwnSection e)
    (hstep : j.step e = some j') : j'.JoinInv m := by
  cases e with
  | addSlave sn rand =>
      simp only [JoinNet.step, onNet, Net.step, Option.map_eq_some_iff,
        Option.ite_none_right_eq_some] at hstep
      obtain ⟨n', ⟨⟨htask, hmax, hchanges, hdown⟩, heq⟩, rfl⟩ := hstep
      obtain rfl := Option.some.inj heq
      exact h.addSlave htask hmax hchanges hdown
  | notify =>
      cases htask : j.net.task with
      | none => simp [JoinNet.step, onNet, Net.step, htask] at hstep
      | some r =>
          simp only [JoinNet.step, onNet, Net.step, htask, Option.map_eq_some_iff,
            Option.ite_none_right_eq_some] at hstep
          obtain ⟨n', ⟨⟨hstage, hlt⟩, heq⟩, rfl⟩ := hstep
          obtain rfl := Option.some.inj heq
          exact h.notify htask hstage hlt
  | deliver =>
      cases htask : j.net.task with
      | none => simp [JoinNet.step, onNet, Net.step, htask] at hstep
      | some r =>
          simp only [JoinNet.step, onNet, Net.step, htask, Option.map_eq_some_iff,
            Option.ite_none_right_eq_some] at hstep
          obtain ⟨n', ⟨⟨hstage, hserving⟩, heq⟩, rfl⟩ := hstep
          obtain rfl := Option.some.inj heq
          exact h.deliver htask hstage hserving
  | recvReply =>
      cases htask : j.net.task with
      | none => simp [JoinNet.step, onNet, Net.step, htask] at hstep
      | some r =>
          simp only [JoinNet.step, onNet, Net.step, htask, Option.map_eq_some_iff,
            Option.ite_none_right_eq_some] at hstep
          obtain ⟨n', ⟨hstage, heq⟩, rfl⟩ := hstep
          obtain rfl := Option.some.inj heq
          exact h.recvReply htask hstage
  | finish =>
      cases htask : j.net.task with
      | none => simp [JoinNet.step, htask] at hstep
      | some r =>
          simp only [JoinNet.step, Net.step, htask, Option.map_eq_some_iff,
            Option.ite_none_right_eq_some] at hstep
          obtain ⟨n', ⟨⟨_, hend⟩, heq⟩, rfl⟩ := hstep
          obtain rfl := Option.some.inj heq
          exact h.finish htask hend
  | initial a =>
      simp only [JoinNet.step, Option.ite_none_right_eq_some, Option.map_eq_some_iff] at hstep
      obtain ⟨hphase, n', hinitial, rfl⟩ := hstep
      have hnext := next_ne_clip (n'.procs a).slave.slaves.num (j.stage a)
      by_cases hstage : j.stage a = .clip
      · have hclip := hinitial
        rw [hstage] at hclip
        exact h.clip hphase hstage hclip hnext (hcond hstage)
      · exact h.exchange hstage hinitial hnext
  | initialised a =>
      simp only [JoinNet.step, onNet, Net.step, Option.ite_none_right_eq_some,
        Option.map_eq_some_iff] at hstep
      obtain ⟨hdone, n', ⟨hphase, heq⟩, rfl⟩ := hstep
      obtain rfl := Option.some.inj heq
      exact h.initialised hphase hdone

end Steps

/-- The system between registrations, with the entries of the map at their
owners. -/
structure Ready (j : JoinNet) (m : dbKey → Option dbValue) : Prop where
  net : j.net.NetInv
  idle : j.net.task = none
  pos : 0 < j.net.slaves.num
  serving : ∀ i, i < j.net.slaves.num → (j.net.procAt i).phase = .serving
  tmp : ∀ a, (j.net.procs a).slave.disk.file_tmp = none
  placed : j.net.Placed m

section Placement

variable {j : JoinNet} {m : dbKey → Option dbValue}

/-- Below `MAX_KEY` the placement is one of whole maps. -/
theorem placed_iff :
    j.net.Placed m ↔
      ∀ i, i < j.net.slaves.num →
        below (contents (j.net.fileOf (j.net.addr i))) =
          routedTo j.net.slaves i (below m) := by
  constructor
  · intro h i hi
    funext key
    by_cases hkey : key.toNat < MAX_KEY
    · simp only [below, restrict, if_pos hkey, h i hi key hkey, routedTo]
    · simp [below, restrict, routedTo, hkey]
  · intro h i hi key hkey
    have := congrFun (h i hi) key
    simpa [below, restrict, routedTo, hkey] using this

/-- No slave is in `InitialSlave` when all slaves of the list are in their main
loop. -/
theorem not_unclipped (h : j.net.NetInv)
    (hserving : ∀ i, i < j.net.slaves.num → (j.net.procAt i).phase = .serving) (a : Addr) :
    ¬ j.Unclipped a := by
  rintro ⟨hphase, _⟩
  obtain ⟨i, hi, rfl⟩ := h.homes a (by rw [hphase]; decide)
  have := hserving i hi
  rw [Net.procAt, hphase] at this
  cases this

theorem Ready.joinInv (h : j.Ready m) : j.JoinInv m where
  net := h.net
  registering := by
    intro r htask
    rw [h.idle] at htask
    cases htask
  tmp := h.tmp
  data := by
    refine ⟨j.net.slaves, j.net.slaves, ?_, ?_⟩
    · simp only [Net.ListBefore, h.idle]
    · exact ⟨h.net.ring, h.net.ring, h.pos, placed_iff.mp h.placed,
        Or.inl ⟨rfl, not_unclipped h.net h.serving⟩⟩

/-- Between registrations the invariant says that all data is at its owners. -/
theorem JoinInv.placed (h : j.JoinInv m) (hidle : j.net.task = none)
    (hserving : ∀ i, i < j.net.slaves.num → (j.net.procAt i).phase = .serving) :
    j.net.Placed m := by
  obtain ⟨base, data, hbase, hdata⟩ := h.data
  simp only [Net.ListBefore, hidle] at hbase
  subst hbase
  rcases hdata.unclipped with ⟨heq, _⟩ | ⟨q, _, hq⟩
  · subst heq
    exact placed_iff.mpr hdata.placed
  · exact absurd ((hq _).mpr rfl) (not_unclipped h.net hserving _)

end Placement

/-- **Concurrent registrations place every key.**  In a run of registrations in
which every `CLIP_DATA` is handled by a predecessor that has no other slave
between itself, the requester and the requester's successor, whenever the master
is idle and all slaves are in their main loops, every primary holds, of the keys
below `MAX_KEY`, exactly those of the original map that `GetSocket` on the
master's list routes to its slave. -/
theorem joins_place_keys (m : dbKey → Option dbValue) (j₀ : JoinNet) (h₀ : j₀.Ready m)
    (events : List JoinEvent) (hclips : allSteps step ClipsOwnSection j₀ events)
    (j : JoinNet) (hrun : run step j₀ events = some j) (hidle : j.net.task = none)
    (hserving : ∀ i, i < j.net.slaves.num → (j.net.procAt i).phase = .serving) :
    j.net.Placed m := by
  have hinv : j.JoinInv m :=
    run_invariant_of_allSteps ClipsOwnSection (fun j => j.JoinInv m)
      (fun _ _ _ h hcond hstep => h.step hcond hstep) hclips hrun h₀.joinInv
  exact hinv.placed hidle hserving

section OneSlave

/-- A single slave, with key 0, that stores the records of a file. -/
def oneSlave (file : HDB) : JoinNet where
  net :=
    { Net.init with
      slaves := ringOf 1
      procs := Function.update Net.init.procs ⟨0, 1⟩
        ⟨.serving, ⟨ringOf 1, 0, ⟨file, none, none, none⟩⟩⟩
      changes := 1 }
  stage := fun _ => .done

theorem procs_oneSlave (file : HDB) (a : Addr) :
    (oneSlave file).net.procs a =
      if a = ⟨0, 1⟩ then ⟨.serving, ⟨ringOf 1, 0, ⟨file, none, none, none⟩⟩⟩
      else Net.init.procs a := by
  simp [oneSlave, Function.update_apply]

theorem netInv_oneSlave (file : HDB) : (oneSlave file).net.NetInv where
  ring := ringInv_ringOf (by decide)
  distinct := by
    intro i hi k hk _
    have hone : (oneSlave file).net.slaves.num = 1 := rfl
    omega
  homes := by
    intro a ha
    rw [procs_oneSlave] at ha
    split at ha
    case isTrue heq => exact ⟨0, Nat.zero_lt_one, heq.symm⟩
    case isFalse => exact absurd rfl ha
  changes_lt := Nat.one_lt_two_pow (by decide)
  fetched := fun list hlist => absurd hlist List.not_mem_nil
  packets := fun p hp => absurd hp List.not_mem_nil
  task := by
    refine ⟨rfl, fun list hlist => absurd hlist List.not_mem_nil, fun i hi => ?_⟩
    obtain rfl : i = 0 := Nat.lt_one_iff.mp hi
    exact ⟨Or.inr (Or.inl rfl), rfl, rfl⟩

theorem ready_oneSlave (file : HDB) : (oneSlave file).Ready (contents file) where
  net := netInv_oneSlave file
  idle := rfl
  pos := Nat.zero_lt_one
  serving := by
    intro i hi
    obtain rfl : i = 0 := Nat.lt_one_iff.mp hi
    rfl
  tmp := by
    intro a
    rw [procs_oneSlave]
    split <;> rfl
  placed := by
    intro i hi key _
    have hring : RingInv (ringOf 1) := ringInv_ringOf (by decide)
    obtain ⟨k, ⟨hk, hin⟩, _⟩ := hring.existsUnique_inSection (by decide) (circleKey key)
    obtain rfl : i = 0 := Nat.lt_one_iff.mp hi
    obtain rfl : k = 0 := Nat.lt_one_iff.mp hk
    have hroute : getSocket (ringOf 1) key = some 0 :=
      (getSocket_eq_some_iff hring key 0).mpr ⟨hk, hin⟩
    simp only [routedTo, restrict]
    exact (if_pos hroute).symm

/-- Records in each third of what two more slaves will divide. -/
def threeRecords : HDB :=
  AList.insert 500 [97] (AList.insert 1500 [98] (AList.insert 3000 [99] ∅))

/-- Two registrations.  The second one begins, and the predecessor of the first new
slave handles its notification, while that slave is still in `InitialSlave`, but
after its `CLIP_DATA`. -/
def earlyClip : List JoinEvent :=
  [.addSlave ⟨0, 2, 0, 0⟩ 0, .notify, .deliver, .recvReply, .notify, .finish,
    .addSlave ⟨0, 3, 0, 0⟩ 0, .initial ⟨0, 2⟩, .notify, .deliver, .recvReply,
    .initial ⟨0, 2⟩, .initialised ⟨0, 2⟩, .notify, .notify, .deliver, .recvReply, .finish,
    .initial ⟨0, 3⟩, .initial ⟨0, 3⟩, .initial ⟨0, 3⟩, .initial ⟨0, 3⟩,
    .initialised ⟨0, 3⟩]

/-- The same with the notification before the `CLIP_DATA`. -/
def lateClip : List JoinEvent :=
  [.addSlave ⟨0, 2, 0, 0⟩ 0, .notify, .deliver, .recvReply, .notify, .finish,
    .addSlave ⟨0, 3, 0, 0⟩ 0, .notify, .deliver, .recvReply, .initial ⟨0, 2⟩,
    .initial ⟨0, 2⟩, .initialised ⟨0, 2⟩, .notify, .notify, .deliver, .recvReply, .finish,
    .initial ⟨0, 3⟩, .initial ⟨0, 3⟩, .initial ⟨0, 3⟩, .initial ⟨0, 3⟩,
    .initialised ⟨0, 3⟩]

theorem joins_place_keys_earlyClip :
    ∃ j, run step (oneSlave threeRecords) earlyClip = some j ∧
      j.net.slaves.keys = [0, 1000, 2000] ∧ j.net.Placed (contents threeRecords) := by
  have hmap : (run step (oneSlave threeRecords) earlyClip).map
      (fun j => decide (j.net.slaves.keys = [0, 1000, 2000] ∧ j.net.task = none ∧
        ∀ i, i < j.net.slaves.num → (j.net.procAt i).phase = .serving)) =
        some true := by
    decide +kernel
  obtain ⟨j, hrun, hmap⟩ := Option.map_eq_some_iff.mp hmap
  obtain ⟨hkeys, hidle, hserving⟩ := of_decide_eq_true hmap
  exact ⟨j, hrun, hkeys, joins_place_keys _ _ (ready_oneSlave threeRecords) earlyClip
    (by decide +kernel) j hrun hidle hserving⟩

/-- The predecessor of the first new slave, with key 2000, already has the second
one, with key 1000, in its list and clips that one's section: the key 3000 stays
where it was and its owner does not have it. -/
theorem late_clip_misplaces_key :
    (oneSlave threeRecords).Ready (contents threeRecords) ∧
      ∃ j, run step (oneSlave threeRecords) lateClip = some j ∧ j.net.task = none ∧
        (∀ i, i < j.net.slaves.num → (j.net.procAt i).phase = .serving) ∧
        getSocket j.net.slaves 3000 = some 2 ∧
        contents (j.net.fileOf (j.net.addr 2)) 3000 = none ∧
        contents (j.net.fileOf (j.net.addr 0)) 3000 = some [99] ∧
        ¬ j.net.Placed (contents threeRecords) := by
  refine ⟨ready_oneSlave threeRecords, ?_⟩
  have hmap : (run step (oneSlave threeRecords) lateClip).map
      (fun j => decide (j.net.slaves.num = 3 ∧ j.net.task = none ∧
        (∀ i, i < j.net.slaves.num → (j.net.procAt i).phase = .serving) ∧
        getSocket j.net.slaves 3000 = some 2 ∧
        contents (j.net.fileOf (j.net.addr 2)) 3000 = none ∧
        contents (j.net.fileOf (j.net.addr 0)) 3000 = some [99])) = some true := by
    decide +kernel
  obtain ⟨j, hrun, hmap⟩ := Option.map_eq_some_iff.mp hmap
  obtain ⟨hnum, hidle, hserving, hroute, howner, hpre⟩ := of_decide_eq_true hmap
  refine ⟨j, hrun, hidle, hserving, hroute, howner, hpre, fun hplaced => ?_⟩
  have := hplaced 2 (by omega) 3000 (by decide)
  rw [howner, routedTo, restrict, if_pos hroute] at this
  exact absurd this (by decide)

end OneSlave

end JoinNet

end DistributedDB
