import DistributedDB.Databases
import DistributedDB.ListReplay

/-!
# Membership changes with several databases

A join takes the new slave's part out of one database at the predecessor, and a
departure merges the backup of one database there: in both cases the one whose name is in
`file_master`, which is the database that any client opened last.  The entries of the
other databases stay where they are, where no client looks for them any more.

**Results.**
* `DBSlave.survives_iff`: every database survives the change if and only if the database
  opened last is the only one with entries that have to move.
* `DBSlave.database_left_behind`: a join and a departure that leave an entry behind.
-/

namespace DistributedDB

open PartialMap RingIndex

namespace DBSlave

/-- Every database is split: the entries that are routed to node `pos` are in the new
slave's database of the same name, and the others stay. -/
def MovesEach (list : SlaveList) (pos : Nat) (before after new : Databases) : Prop :=
  ∀ name, contents (after.db name) =
      restrict (fun k => getSocket list k ≠ some pos) (contents (before.db name)) ∧
    contents (new.db name) =
      restrict (fun k => getSocket list k = some pos) (contents (before.db name))

/-- Every database holds the leaver's entries. -/
def KeepsEach (leaver after : Databases) : Prop :=
  ∀ name k v, contents (leaver.db name) k = some v → contents (after.db name) k = some v

end DBSlave

/-- A change at a slave: a new slave registers behind it, or its successor leaves. -/
inductive DBChange where
  | join (sn : SlaveNode) (rand : Nat)
  | leave (rmpos : Nat) (leaver : Databases)

namespace DBSlave

/-- The slave after `NEW_SLAVE`, asked for the data of the new slave. -/
def notified (s : DBSlave) (sn : SlaveNode) (rand : Nat) : DBSlave :=
  s.newSlave (addToSlaveList s.slaves sn rand).2 (newNode s.slaves sn rand)

/-- Every opened database survives the change. -/
def Survives (s : DBSlave) : DBChange → Prop
  | .join sn rand =>
      let r := (s.notified sn rand).clipData
      MovesEach (addToSlaveList s.slaves sn rand).1 (addToSlaveList s.slaves sn rand).2
        s.dbs r.1.dbs (Databases.fresh.recvFile 0 r.2.1 r.2.2)
  | .leave rmpos leaver => KeepsEach leaver ((s.rmSlave rmpos).mergeFiles rmpos).dbs

/-- The change concerns the slave: it is the predecessor of the slave that comes or goes,
on a ring, with keys below `MAX_KEY`. -/
def Concerns (s : DBSlave) : DBChange → Prop
  | .join sn rand =>
      RingInv s.slaves ∧ 0 < s.slaves.num ∧ s.slaves.num < MAX_SLAVE_NUM ∧
        (addToSlaveList s.slaves sn rand).2 = s.pos + 1 ∧
        ∀ name k, contents (s.dbs.db name) k ≠ none → k.toNat < MAX_KEY
  | .leave rmpos _ => (s.rmSlave rmpos).one.isPredecessor rmpos = true

/-- The condition, when the clients have opened the databases `names` in this order: no
entry of another database than the last one has to move, and no other database is in the
way as `file_tmp`; and the entries of the leaver are in the predecessor's backup of the
last one, or in the predecessor's own databases already. -/
def LastOnly (s : DBSlave) (names : List String) : DBChange → Prop
  | .join sn rand =>
      (∀ name, name ≠ names.getLastD s.dbs.file_master → ∀ k,
        getSocket (addToSlaveList s.slaves sn rand).1 k =
          some (addToSlaveList s.slaves sn rand).2 → contents (s.dbs.db name) k = none) ∧
      contents (s.dbs.db (names.getLastD s.dbs.file_master ++ "~")) = fun _ => none
  | .leave _ leaver =>
      ∀ name k v, contents (leaver.db name) k = some v →
        if name = names.getLastD s.dbs.file_master then
          overlay (contents (s.dbs.db name)) (contents (openFile (s.dbs.backup1 name))) k = some v
        else contents (s.dbs.db name) k = some v

section Changes

variable {s : DBSlave}

/-- `CLIP_DATA` splits at the bounds of the new slave's section. -/
theorem clipData_notified {sn : SlaveNode} {rand : Nat} (hring : RingInv s.slaves)
    (hmax : s.slaves.num < MAX_SLAVE_NUM)
    (hpred : (addToSlaveList s.slaves sn rand).2 = s.pos + 1) :
    let list := (addToSlaveList s.slaves sn rand).1
    let pos := (addToSlaveList s.slaves sn rand).2
    let r := s.dbs.clip (toUnsigned (list.node pos).key)
      (toUnsigned (list.node ((pos + 1) % list.num)).key)
    (s.notified sn rand).clipData.1.dbs = r.1 ∧
      (s.notified sn rand).clipData.2 = (s.dbs.file_master, r.2) := by
  intro list pos r
  have hlist : (s.notified sn rand).slaves = list :=
    (addToSlaveList_eq_addNewSlave sn rand hmax (fun hpos => hring.find_lt hpos)).symm
  have hle := (newpos_eq s.slaves hring sn rand hmax).1
  have hnum : list.num = s.slaves.num + 1 := num_addToSlaveList _ _ _
  have hbehind : ¬ (addToSlaveList s.slaves sn rand).2 ≤ s.pos := by omega
  have hown : (s.notified sn rand).pos = s.pos := if_neg hbehind
  have hone : (s.pos + 1) % list.num = pos := by
    rw [← hpred, Nat.mod_eq_of_lt (by omega)]
  have htwo : (s.pos + 2) % list.num = (pos + 1) % list.num := by
    rw [add_two_mod, hone]
  simp only [clipData, hlist, hown, hone, htwo]
  exact ⟨rfl, rfl⟩

theorem contents_fresh_recvFile (name' : String) (file : HDB) (name : String) :
    contents ((Databases.fresh.recvFile 0 name' file).db name) =
      if name = name' then contents file else fun _ => none := by
  simp only [Databases.recvFile, Databases.db, Function.update_apply]
  split <;> rfl

/-- What the split moves is what is routed to the new slave. -/
theorem restrict_section {list : SlaveList} (hring : RingInv list) {pos : Nat}
    (hpos : pos < list.num) {f : dbKey → Option dbValue}
    (hkeys : ∀ k, f k ≠ none → k.toNat < MAX_KEY) :
    restrict (fun k => sectionRange list pos k = true) f =
        restrict (fun k => getSocket list k = some pos) f ∧
      restrict (fun k => ¬ sectionRange list pos k = true) f =
        restrict (fun k => getSocket list k ≠ some pos) f := by
  have hiff : ∀ k, f k ≠ none →
      (sectionRange list pos k = true ↔ getSocket list k = some pos) :=
    fun k hk => sectionRange_iff_getSocket hring hpos (hkeys k hk)
  exact ⟨restrict_congr _ hiff, restrict_congr _ fun k hk => not_congr (hiff k hk)⟩

/-- The contents of all databases after the join, at the predecessor and at the new
slave. -/
theorem contents_joined {sn : SlaveNode} {rand : Nat} (h : s.Concerns (.join sn rand)) :
    let list := (addToSlaveList s.slaves sn rand).1
    let pos := (addToSlaveList s.slaves sn rand).2
    let r := (s.notified sn rand).clipData
    (∀ name, contents (r.1.dbs.db name) =
      if name = s.dbs.file_tmp then fun _ => none
      else if name = s.dbs.file_master then
        restrict (fun k => getSocket list k ≠ some pos) (contents (s.dbs.db s.dbs.file_master))
      else contents (s.dbs.db name)) ∧
    ∀ name, contents ((Databases.fresh.recvFile 0 r.2.1 r.2.2).db name) =
      if name = s.dbs.file_master then
        overlay (contents (s.dbs.db s.dbs.file_tmp))
          (restrict (fun k => getSocket list k = some pos)
            (contents (s.dbs.db s.dbs.file_master)))
      else fun _ => none := by
  obtain ⟨hring, hnum, hmax, hpred, hkeys⟩ := h
  intro list pos r
  have hlist : RingInv list := hring.of_addToSlaveList hmax sn rand
  have hle := (newpos_eq s.slaves hring sn rand hmax).1
  have hpos : pos < list.num := by
    rw [num_addToSlaveList]
    exact Nat.lt_succ_of_le hle
  obtain ⟨hdbs, hsent⟩ := clipData_notified hring hmax hpred
  obtain ⟨hfile, hothers⟩ := s.dbs.contents_clip (toUnsigned (list.node pos).key)
    (toUnsigned (list.node ((pos + 1) % list.num)).key)
  obtain ⟨hmoved, hkept⟩ := restrict_section hlist hpos (hkeys s.dbs.file_master)
  constructor
  · intro name
    rw [hdbs, hothers, ← hkept]
    rfl
  · intro name
    rw [contents_fresh_recvFile, hsent, hfile, ← hmoved]
    rfl

/-- A join moves the entries of every database exactly when there are none to move in
the others. -/
theorem movesEach_iff {sn : SlaveNode} {rand : Nat} (h : s.Concerns (.join sn rand)) :
    s.Survives (.join sn rand) ↔
      (∀ name, name ≠ s.dbs.file_master → ∀ k,
        getSocket (addToSlaveList s.slaves sn rand).1 k =
          some (addToSlaveList s.slaves sn rand).2 → contents (s.dbs.db name) k = none) ∧
      contents (s.dbs.db s.dbs.file_tmp) = fun _ => none := by
  obtain ⟨hafter, hnew⟩ := contents_joined h
  have htmp := s.dbs.tmp_ne
  constructor
  · intro hmoves
    have hmoved : ∀ name, name ≠ s.dbs.file_master → ∀ k,
        getSocket (addToSlaveList s.slaves sn rand).1 k =
          some (addToSlaveList s.slaves sn rand).2 → contents (s.dbs.db name) k = none := by
      intro name hname k hk
      have hdata := congrFun (hmoves name).2 k
      rw [hnew, if_neg hname, restrict, if_pos hk] at hdata
      exact hdata.symm
    refine ⟨hmoved, funext fun k => ?_⟩
    by_cases hk : getSocket (addToSlaveList s.slaves sn rand).1 k =
        some (addToSlaveList s.slaves sn rand).2
    · exact hmoved _ htmp k hk
    · have hdata := congrFun (hmoves s.dbs.file_tmp).1 k
      rw [hafter, if_pos rfl, restrict, if_pos hk] at hdata
      exact hdata.symm
  · rintro ⟨hothers, hempty⟩ name
    rw [hafter, hnew]
    by_cases hname : name = s.dbs.file_master
    · subst hname
      rw [if_neg htmp.symm, if_pos rfl, if_pos rfl, hempty, overlay_empty_left]
      exact ⟨rfl, rfl⟩
    · have hstays : restrict (fun k => getSocket (addToSlaveList s.slaves sn rand).1 k ≠
          some (addToSlaveList s.slaves sn rand).2) (contents (s.dbs.db name)) =
            contents (s.dbs.db name) := by
        refine (restrict_eq_self_iff _ _).mpr fun k hk hrouted => ?_
        exact hk (hothers name hname k hrouted)
      have hnone : restrict (fun k => getSocket (addToSlaveList s.slaves sn rand).1 k =
          some (addToSlaveList s.slaves sn rand).2) (contents (s.dbs.db name)) =
            fun _ => none := by
        funext k
        rw [restrict]
        split
        case isTrue hrouted => exact hothers name hname k hrouted
        case isFalse => rfl
      rw [if_neg hname, if_neg hname, hstays, hnone]
      refine ⟨?_, rfl⟩
      split
      case isTrue heq => rw [heq, hempty]
      case isFalse => rfl

/-- After a departure every database holds what the merge leaves in it. -/
theorem keepsEach_iff {rmpos : Nat} {leaver : Databases} (h : s.Concerns (.leave rmpos leaver)) :
    s.Survives (.leave rmpos leaver) ↔
      ∀ name k v, contents (leaver.db name) k = some v →
        if name = s.dbs.file_master then
          overlay (contents (s.dbs.db name)) (contents (openFile (s.dbs.backup1 name))) k = some v
        else contents (s.dbs.db name) k = some v := by
  have hmerged : ((s.rmSlave rmpos).mergeFiles rmpos).dbs = s.dbs.mergeBackup1 := by
    have hpred : (s.rmSlave rmpos).one.isPredecessor rmpos = true := h
    rw [mergeFiles, if_pos hpred]
    rfl
  have hvalue : ∀ name k v, contents (s.dbs.mergeBackup1.db name) k = some v ↔
      if name = s.dbs.file_master then
        overlay (contents (s.dbs.db name)) (contents (openFile (s.dbs.backup1 name))) k = some v
      else contents (s.dbs.db name) k = some v := by
    intro name k v
    rw [Databases.contents_mergeBackup1]
    split <;> exact Iff.rfl
  simp only [Survives, KeepsEach, hmerged]
  exact forall₃_congr fun name k v => imp_congr_right fun _ => hvalue name k v

/-- The `OPEN`s change nothing that the change depends on, except the name. -/
theorem concerns_opens (names : List String) {change : DBChange} (h : s.Concerns change) :
    (s.opens names).Concerns change := by
  cases change with
  | join sn rand =>
      obtain ⟨hring, hnum, hmax, hpred, hkeys⟩ := h
      refine ⟨hring, hnum, hmax, hpred, fun name => ?_⟩
      have heq : contents ((s.opens names).dbs.db name) = contents (s.dbs.db name) := by
        rw [opens, Databases.db_opens]
      rw [heq]
      exact hkeys name
  | leave rmpos leaver => exact h

end Changes

/-- **Every opened database survives a membership change if and only if the database
opened last is the only one that has to change**: after the clients have opened the
databases `names` in this order, whatever they contain. -/
theorem survives_iff (s : DBSlave) (names : List String) (change : DBChange)
    (h : s.Concerns change) : (s.opens names).Survives change ↔ s.LastOnly names change := by
  have hmaster : (s.opens names).dbs.file_master = names.getLastD s.dbs.file_master :=
    Databases.file_master_opens names s.dbs
  have hdb : ∀ name, (s.opens names).dbs.db name = s.dbs.db name :=
    Databases.db_opens names s.dbs
  cases change with
  | join sn rand =>
      rw [movesEach_iff (concerns_opens names h), (s.opens names).dbs.tmp_eq, hmaster]
      simp only [hdb]
      exact Iff.rfl
  | leave rmpos leaver =>
      have hbackup : (s.opens names).dbs.backup1 = s.dbs.backup1 :=
        Databases.backup1_opens names s.dbs
      rw [keepsEach_iff (concerns_opens names h), hmaster]
      simp only [hdb, hbackup]
      exact Iff.rfl

/-- The only slave, with one record in the file `a.db`. -/
def onlySlave : DBSlave where
  slaves := ringOf 1
  pos := 0
  dbs := { Databases.fresh with
    files := fun name => if name = "a.db" then some ((∅ : HDB).insert 3000 [65]) else none }

theorem concerns_onlySlave : onlySlave.Concerns (.join ⟨0, 2, 0, 0⟩ 0) := by
  refine ⟨ringInv_ringOf (by decide), by decide, by decide, by decide +kernel, ?_⟩
  intro name k hk
  have hfile : contents (onlySlave.dbs.db name) k =
      if name = "a.db" then contents ((∅ : HDB).insert 3000 [65]) k else none := by
    simp only [Databases.db, onlySlave]
    split <;> rfl
  rw [hfile, contents_insert, Function.update_apply] at hk
  split at hk
  case isTrue =>
      split at hk
      case isTrue heq => rw [heq]; decide
      case isFalse => exact absurd rfl hk
  case isFalse => exact absurd rfl hk

theorem survives_iff_onlySlave :
    (onlySlave.opens ["b.db", "a.db"]).Survives (.join ⟨0, 2, 0, 0⟩ 0) := by
  refine (survives_iff onlySlave _ _ concerns_onlySlave).mpr ⟨fun name hname k _ => ?_, ?_⟩
  · have hnone : onlySlave.dbs.files name = none := if_neg hname
    rw [Databases.db, hnone]
    rfl
  · have hnone : onlySlave.dbs.files (["b.db", "a.db"].getLastD "a.db" ++ "~") = none := by
      decide +kernel
    rw [Databases.db]
    exact congrArg (fun file => contents (openFile file)) hnone

/-- The successor of the only slave, with a record in `a.db` and a fresh backup. -/
def leavingSlave : Databases where
  files := fun name => if name = "a.db" then some ((∅ : HDB).insert 1000 [66]) else none
  backup1 := fun _ => none
  backup2 := fun _ => none
  file_master := "a.db"
  file_tmp := "a.db~"
  tmp_eq := rfl

/-- Its predecessor. -/
def stayingSlave : DBSlave where
  slaves := ringOf 2
  pos := 0
  dbs := { onlySlave.dbs with backup1 := leavingSlave.files }

/-- After `b.db` has been opened, the record of `a.db` that belongs to the new slave is
not moved, and the record of the leaver is not merged. -/
theorem database_left_behind :
    (onlySlave.Concerns (.join ⟨0, 2, 0, 0⟩ 0) ∧
        ¬ (onlySlave.opens ["a.db", "b.db"]).Survives (.join ⟨0, 2, 0, 0⟩ 0)) ∧
      stayingSlave.Concerns (.leave 1 leavingSlave) ∧
        ¬ (stayingSlave.opens ["a.db", "b.db"]).Survives (.leave 1 leavingSlave) := by
  have hpred : (stayingSlave.rmSlave 1).one.isPredecessor 1 = true := by decide +kernel
  refine ⟨⟨concerns_onlySlave, fun hsurvives => ?_⟩, hpred, fun hsurvives => ?_⟩
  · exact absurd (congrFun (hsurvives "a.db").2 3000) (by decide +kernel)
  · have hrecord : contents (leavingSlave.db "a.db") 1000 = some [66] := by decide +kernel
    exact absurd (hsurvives "a.db" 1000 [66] hrecord) (by decide +kernel)

end DBSlave

end DistributedDB
