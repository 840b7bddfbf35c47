import DistributedDB.Library.PartialMap
import DistributedDB.Routing

/-!
# Split and merge of database files

`SplitByKey` and `Merge2Files` of `server/tcDB.c`.  A Tokyo Cabinet file is a
finite map from keys to values, held as the list of its records; the iterator
visits the records in that order.  Every Tokyo Cabinet call succeeds.

**Results.**
* `contents_splitByKey`: the source keeps the entries outside the range, the
  destination is overridden by those inside it.
* `contents_merge2Files`: the source is emptied, the destination is overridden
  by all of it.
* `inSplitRange_iff`: between node keys, the test on the raw key is membership
  in the cyclic half-open interval.
* `splitMoves_iff_getSocket_iff`: the split agrees with the client's routing
  exactly on the keys below `MAX_KEY` and on the larger keys whose reduced key
  happens to lie on the right side.
-/

namespace DistributedDB

open PartialMap CyclicOrder

/-- A C string, as the bytes before its terminating NUL. -/
abbrev dbValue := List UInt8

/-- A Tokyo Cabinet file. -/
abbrev HDB := RecordFile dbKey dbValue

/-- The condition under which `SplitByKey` moves a record. -/
def inSplitRange (lower_bound upper_bound key : dbKey) : Bool :=
  let bl : Bool := upper_bound > lower_bound
  (bl && (lower_bound < key && key ≤ upper_bound)) ||
    (!bl && (lower_bound < key || key ≤ upper_bound))

/-- The source and the destination after the split. -/
def splitByKey (src : HDB) (lower_bound : dbKey) (dest : HDB) (upper_bound : dbKey) :
    HDB × HDB :=
  moveRecords (inSplitRange lower_bound upper_bound) src.keys (src, dest)

/-- The source and the destination after the merge. -/
def merge2Files (src dest : HDB) : HDB × HDB :=
  moveRecords (fun _ => true) src.keys (src, dest)

theorem contents_splitByKey (src dest : HDB) (lower_bound upper_bound : dbKey) :
    contents (splitByKey src lower_bound dest upper_bound).1 =
        restrict (fun k => ¬ inSplitRange lower_bound upper_bound k = true)
          (contents src) ∧
      contents (splitByKey src lower_bound dest upper_bound).2 =
        overlay (contents dest)
          (restrict (fun k => inSplitRange lower_bound upper_bound k = true)
            (contents src)) :=
  contents_moveRecords_keys (inSplitRange lower_bound upper_bound) src dest

theorem contents_merge2Files (src dest : HDB) :
    contents (merge2Files src dest).1 = (fun _ => none) ∧
      contents (merge2Files src dest).2 = overlay (contents dest) (contents src) := by
  obtain ⟨hsrc, hdest⟩ := contents_moveRecords_keys (fun _ => true) src dest
  constructor
  · rw [merge2Files, hsrc]
    funext k
    simp [restrict]
  · rw [merge2Files, hdest]
    funext k
    simp [overlay, restrict]

/-- Between two node keys, the split range is the cyclic half-open interval. -/
theorem inSplitRange_iff {lower upper : Int}
    (hlo : 0 ≤ lower) (hhi : lower < MAX_KEY)
    (hlo' : 0 ≤ upper) (hhi' : upper < MAX_KEY) (key : dbKey) :
    inSplitRange (toUnsigned lower) (toUnsigned upper) key = true ↔
      CyclicIoc lower upper (key.toNat : Int) := by
  have hbl : (toUnsigned upper > toUnsigned lower) ↔ lower < upper := by
    rw [gt_iff_lt, toUnsigned_lt_iff hlo hhi, toNat_toUnsigned hlo' hhi']
  simp only [inSplitRange, Bool.or_eq_true, Bool.and_eq_true, Bool.not_eq_true',
    decide_eq_true_eq, decide_eq_false_iff_not, hbl, toUnsigned_lt_iff hlo hhi,
    le_toUnsigned_iff hlo' hhi']
  rcases lt_or_ge lower upper with hlt | hge
  · rw [cyclicIoc_of_lt hlt]
    simp [hlt]
  · rw [cyclicIoc_of_le hge]
    simp [not_lt.mpr hge]

/-- The split range of node `j`'s section, with the bounds that `CLIP_DATA` and
`UPDATE_BACKUP2` pass. -/
def sectionRange (slaves : SlaveList) (j : Nat) (key : dbKey) : Bool :=
  inSplitRange (toUnsigned (slaves.node j).key)
    (toUnsigned (slaves.node ((j + 1) % slaves.num)).key) key

section Agreement

variable {slaves : SlaveList}

theorem sectionRange_iff (h : RingInv slaves) {j : Nat} (hj : j < slaves.num)
    (key : dbKey) :
    sectionRange slaves j key = true ↔ InSection slaves j (key.toNat : Int) := by
  obtain ⟨hlo, hhi⟩ := h.key_range j hj
  obtain ⟨hlo', hhi'⟩ := h.key_range ((j + 1) % slaves.num) (Nat.mod_lt _ (by omega))
  exact inSplitRange_iff hlo hhi hlo' hhi' key

/-- Below `MAX_KEY` the reduced key is the key itself. -/
theorem circleKey_of_lt {key : dbKey} (hkey : key.toNat < MAX_KEY) :
    circleKey key = (key.toNat : Int) := by
  rw [circleKey, Nat.mod_eq_of_lt hkey]

/-- Below `MAX_KEY` the split of a section moves the keys that are routed to
it. -/
theorem sectionRange_iff_getSocket (h : RingInv slaves) {j : Nat}
    (hj : j < slaves.num) {key : dbKey} (hkey : key.toNat < MAX_KEY) :
    sectionRange slaves j key = true ↔ getSocket slaves key = some j := by
  rw [sectionRange_iff h hj, getSocket_eq_some_iff h, circleKey_of_lt hkey]
  exact ⟨fun hin => ⟨hj, hin⟩, fun hin => hin.2⟩

/-- Splitting with these bounds takes the record of `key` out of the source and
puts it into the destination, whatever else the files hold. -/
def SplitMoves (lower_bound upper_bound key : dbKey) : Prop :=
  ∀ (src dest : HDB) (value : dbValue), contents src key = some value →
    contents (splitByKey src lower_bound dest upper_bound).1 key = none ∧
      contents (splitByKey src lower_bound dest upper_bound).2 key = some value

theorem splitMoves_iff (lower_bound upper_bound key : dbKey) :
    SplitMoves lower_bound upper_bound key ↔
      inSplitRange lower_bound upper_bound key = true := by
  constructor
  · intro hmoves
    have hsrc : contents ((∅ : HDB).insert key []) key = some [] := by
      rw [contents_insert, Function.update_self]
    have hgone := (hmoves _ ∅ [] hsrc).1
    rw [(contents_splitByKey _ _ _ _).1, restrict, hsrc] at hgone
    by_contra hno
    rw [if_pos hno] at hgone
    exact absurd hgone (by simp)
  · intro hin src dest value hsrc
    rw [(contents_splitByKey _ _ _ _).1, (contents_splitByKey _ _ _ _).2]
    simp [overlay, restrict, hin, hsrc]

/-- The condition on an over-large key: `SplitByKey` compares the key itself,
which lies above every node key, so it takes the key for one of the wrap-around
section, and that has to be right for the reduced key. -/
def LargeKeyAgrees (slaves : SlaveList) (j : Nat) (key : dbKey) : Prop :=
  let lower := (slaves.node j).key
  let upper := (slaves.node ((j + 1) % slaves.num)).key
  if lower < upper then
    ¬ (lower < circleKey key ∧ circleKey key ≤ upper)
  else lower < circleKey key ∨ circleKey key ≤ upper

instance (slaves : SlaveList) (j : Nat) (key : dbKey) :
    Decidable (LargeKeyAgrees slaves j key) := by
  unfold LargeKeyAgrees
  infer_instance

/-- **When the server's split agrees with the client's routing.**  On a ring of
at least two nodes, splitting out the section of node `j` moves the record with
key `k` exactly when `GetSocket` selects `j` for it, if and only if `k` is below
`MAX_KEY` or is a larger key that agrees. -/
theorem splitMoves_iff_getSocket_iff (slaves : SlaveList) (h : RingInv slaves)
    (hnum : 2 ≤ slaves.num) (j : Nat) (hj : j < slaves.num) (k : dbKey) :
    (SplitMoves (toUnsigned (slaves.node j).key)
        (toUnsigned (slaves.node ((j + 1) % slaves.num)).key) k ↔
      getSocket slaves k = some j) ↔
    (k.toNat < MAX_KEY ∨ LargeKeyAgrees slaves j k) := by
  have hsplit : SplitMoves (toUnsigned (slaves.node j).key)
      (toUnsigned (slaves.node ((j + 1) % slaves.num)).key) k ↔
        InSection slaves j (k.toNat : Int) := by
    rw [splitMoves_iff]
    exact sectionRange_iff h hj k
  have hroute : getSocket slaves k = some j ↔ InSection slaves j (circleKey k) := by
    rw [getSocket_eq_some_iff h]
    exact ⟨fun hin => hin.2, fun hin => ⟨hj, hin⟩⟩
  rw [hsplit, hroute]
  rcases Nat.lt_or_ge k.toNat MAX_KEY with hlt | hge
  · rw [circleKey_of_lt hlt]
    simp [hlt]
  · obtain ⟨_, hhi⟩ := h.key_range j hj
    obtain ⟨_, hhi'⟩ := h.key_range ((j + 1) % slaves.num) (Nat.mod_lt _ (by omega))
    simp only [InSection, LargeKeyAgrees]
    generalize (slaves.node j).key = lower at hhi ⊢
    generalize (slaves.node ((j + 1) % slaves.num)).key = upper at hhi' ⊢
    generalize circleKey k = x
    rcases lt_or_ge lower upper with hord | hord
    · rw [cyclicIoc_of_lt hord, cyclicIoc_of_lt hord, if_pos hord]
      omega
    · rw [cyclicIoc_of_le hord, cyclicIoc_of_le hord, if_neg (not_lt.mpr hord)]
      omega

end Agreement

/-- The ring of two registrations, with keys 0 and 2000. -/
def twoNodes : SlaveList := ringOf 2

theorem ringInv_twoNodes : RingInv twoNodes :=
  ringInv_ringOf (by decide)

/-- On an agreeing large key and a disagreeing one. -/
theorem splitMoves_iff_getSocket_iff_twoNodes :
    ((SplitMoves (toUnsigned (twoNodes.node 0).key)
        (toUnsigned (twoNodes.node ((0 + 1) % twoNodes.num)).key) 7000 ↔
      getSocket twoNodes 7000 = some 0) ↔
    ((7000 : dbKey).toNat < MAX_KEY ∨ LargeKeyAgrees twoNodes 0 7000)) ∧
    LargeKeyAgrees twoNodes 0 7000 ∧ ¬ LargeKeyAgrees twoNodes 0 4001 :=
  ⟨splitMoves_iff_getSocket_iff twoNodes ringInv_twoNodes (by decide) 0 (by decide) 7000,
    by decide, by decide⟩

/-- Key 4001 reduces to 1, which the client routes to node 0, but the split of
node 0's section leaves it behind. -/
theorem split_disagrees_with_routing :
    RingInv twoNodes ∧ 2 ≤ twoNodes.num ∧
      getSocket twoNodes 4001 = some 0 ∧
      ¬ SplitMoves (toUnsigned (twoNodes.node 0).key)
        (toUnsigned (twoNodes.node ((0 + 1) % twoNodes.num)).key) 4001 := by
  refine ⟨ringInv_twoNodes, by decide, by decide, ?_⟩
  rw [splitMoves_iff]
  decide

end DistributedDB
