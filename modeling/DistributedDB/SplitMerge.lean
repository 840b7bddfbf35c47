import DistributedDB.TcDB

/-!
# The loops of split and merge

`SplitByKey` and `Merge2Files` of `tcDB.c` on two different files, with what the calls of
Tokyo Cabinet return.  The loop counts the records first and then asks the iterator for one
key after the other; it looks a record up, writes it to the destination without looking at
the result, and removes it from the source.  The iterator visits each record that was there
at the start once, in any order.

A null pointer that is read has no result: the iterator after its last key, or the value of
a key that is not there.  The counter of the loop is an `int`; a file, which is opened
without `HDBTLARGE`, is too small for `2 ^ 31` records.

**Results.**
* `transferLoop_spec`: what the loop leaves in both files, for any writes that fail.
* `split_partitions_merge_undoes`: when every call succeeds, the split partitions the source
  by the arc of its keys and the merge undoes it.
* `nothing_lost_iff`: no entry is lost exactly when each failing write was for an entry that
  the destination had already.
-/

namespace DistributedDB

open PartialMap

def SUCCESS : Int := 0

def FAILURE : Int := -1

namespace SplitMerge

/-- How the Tokyo Cabinet calls turn out. -/
structure TransferCalls (src : HDB) where
  /-- What `tchdbiterinit` returns. -/
  iterinit : Bool
  /-- The keys, in the order in which `tchdbiternext` returns them. -/
  order : List dbKey
  order_perm : order.Perm src.keys
  /-- What `tchdbput` returns for the record of a key. -/
  put : dbKey → Bool

/-- Every call succeeds. -/
structure TransferCalls.Succeed {src : HDB} (calls : TransferCalls src) : Prop where
  iterinit : calls.iterinit = true
  put : ∀ key, calls.put key = true

/-- The number of records. -/
def tchdbrnum (hdb : HDB) : Nat :=
  hdb.keys.length

/-- The iterations that are left, on an iterator with these keys left. -/
def transferLoop (inRange put : dbKey → Bool) :
    Nat → List dbKey → HDB × HDB → Option (HDB × HDB)
  | 0, _, files => some files
  | _ + 1, [], _ => none
  | n + 1, key :: iterator, (src, dest) =>
      if inRange key then
        (src.lookup key).bind fun value =>
          transferLoop inRange put n iterator
            (src.erase key, if put key then dest.insert key value else dest)
      else transferLoop inRange put n iterator (src, dest)

/-- What both functions do: the result, the source and the destination. -/
def transfer (inRange : dbKey → Bool) (src dest : HDB) (calls : TransferCalls src) :
    Option (Int × HDB × HDB) :=
  if calls.iterinit then
    (transferLoop inRange calls.put (tchdbrnum src) calls.order (src, dest)).map fun files =>
      (SUCCESS, files)
  else some (FAILURE, src, dest)

def splitByKey (src : HDB) (lower_bound : dbKey) (dest : HDB) (upper_bound : dbKey)
    (calls : TransferCalls src) : Option (Int × HDB × HDB) :=
  transfer (inSplitRange lower_bound upper_bound) src dest calls

def merge2Files (src dest : HDB) (calls : TransferCalls src) : Option (Int × HDB × HDB) :=
  transfer (fun _ => true) src dest calls

section Loop

variable (inRange put : dbKey → Bool)

/-- One iteration that moves a record, seen in the contents. -/
theorem contents_written (dest : HDB) (key k : dbKey) (value : dbValue) :
    contents (if put key then dest.insert key value else dest) k =
      if k = key ∧ put key then some value else contents dest k := by
  by_cases hput : put key = true
  · rw [if_pos hput, contents_insert, Function.update_apply]
    simp only [hput, and_true]
  · rw [if_neg hput, if_neg fun h => hput h.2]

/-- **What the loop leaves in both files.** -/
theorem transferLoop_spec {order : List dbKey} {src : HDB} (dest : HDB) (hnodup : order.Nodup)
    (hmem : ∀ key ∈ order, contents src key ≠ none) :
    ∃ src' dest', transferLoop inRange put order.length order (src, dest) = some (src', dest') ∧
      (∀ k, contents src' k = if k ∈ order ∧ inRange k then none else contents src k) ∧
      ∀ k, contents dest' k =
        if k ∈ order ∧ inRange k ∧ put k then contents src k else contents dest k := by
  induction order generalizing src dest with
  | nil =>
      exact ⟨src, dest, rfl, fun k => by simp, fun k => by simp⟩
  | cons key order ih =>
      obtain ⟨hnot, hnodup⟩ := List.nodup_cons.mp hnodup
      by_cases hin : inRange key = true
      · obtain ⟨value, hvalue⟩ := Option.ne_none_iff_exists'.mp (hmem key List.mem_cons_self)
        have hrest : ∀ k ∈ order, contents (src.erase key) k ≠ none := by
          intro k hk
          rw [contents_erase, Function.update_of_ne (ne_of_mem_of_not_mem hk hnot)]
          exact hmem k (List.mem_cons_of_mem key hk)
        obtain ⟨src', dest', hloop, hsrc, hdest⟩ :=
          ih (if put key then dest.insert key value else dest) hnodup hrest
        refine ⟨src', dest', ?_, fun k => ?_, fun k => ?_⟩
        · rw [List.length_cons, transferLoop, if_pos hin,
            show src.lookup key = some value from hvalue]
          exact hloop
        · rw [hsrc, contents_erase, Function.update_apply]
          by_cases heq : k = key
          · subst heq
            simp [hin]
          · simp [heq]
        · rw [hdest, contents_erase, Function.update_apply, contents_written]
          by_cases heq : k = key
          · subst heq
            simp [hnot, hin, hvalue]
          · simp [heq]
      · obtain ⟨src', dest', hloop, hsrc, hdest⟩ := ih dest hnodup
          fun k hk => hmem k (List.mem_cons_of_mem key hk)
        refine ⟨src', dest', ?_, fun k => ?_, fun k => ?_⟩
        · rw [List.length_cons, transferLoop, if_neg hin]
          exact hloop
        · rw [hsrc]
          by_cases heq : k = key
          · subst heq
            simp [hin]
          · simp [heq]
        · rw [hdest]
          by_cases heq : k = key
          · subst heq
            simp [hin]
          · simp [heq]

end Loop

section Transfer

variable {src : HDB} (dest : HDB) {calls : TransferCalls src}

theorem TransferCalls.mem_order (calls : TransferCalls src) (key : dbKey) :
    key ∈ calls.order ↔ contents src key ≠ none := by
  rw [calls.order_perm.mem_iff, mem_keys_iff]

/-- A call that starts to iterate goes through the loop to its end. -/
theorem transfer_spec (inRange : dbKey → Bool) (hiter : calls.iterinit = true) :
    ∃ src' dest', transfer inRange src dest calls = some (SUCCESS, src', dest') ∧
      (∀ k, contents src' k = if inRange k then none else contents src k) ∧
      ∀ k, contents dest' k =
        if contents src k ≠ none ∧ inRange k ∧ calls.put k then contents src k
        else contents dest k := by
  have hnodup : calls.order.Nodup := calls.order_perm.nodup_iff.mpr src.keys_nodup
  obtain ⟨src', dest', hloop, hsrc, hdest⟩ := transferLoop_spec inRange calls.put dest
    hnodup fun key hkey => (calls.mem_order key).mp hkey
  refine ⟨src', dest', ?_, fun k => ?_, fun k => ?_⟩
  · rw [transfer, if_pos hiter, tchdbrnum, ← calls.order_perm.length_eq, hloop]
    rfl
  · simp only [hsrc, calls.mem_order]
    by_cases hk : contents src k = none <;> simp [hk]
  · simp only [hdest, calls.mem_order]

/-- **When every call succeeds**, the records in the range are moved. -/
theorem transfer_of_succeed (inRange : dbKey → Bool) (h : calls.Succeed) :
    ∃ src' dest', transfer inRange src dest calls = some (SUCCESS, src', dest') ∧
      contents src' = restrict (fun k => ¬ inRange k = true) (contents src) ∧
      contents dest' =
        overlay (contents dest) (restrict (fun k => inRange k = true) (contents src)) := by
  obtain ⟨src', dest', htransfer, hsrc, hdest⟩ := transfer_spec dest inRange h.iterinit
  refine ⟨src', dest', htransfer, funext fun k => ?_, funext fun k => ?_⟩
  · rw [hsrc, restrict]
    by_cases hin : inRange k = true <;> simp [hin]
  · rw [hdest, overlay, restrict]
    by_cases hin : inRange k = true
    · cases hk : contents src k <;> simp [hin, h.put]
    · simp [hin]

/-- Every call succeeds: the files are those of the functions on whole files. -/
theorem splitByKey_contents (lo hi : dbKey) (h : calls.Succeed) :
    ∃ src' dest', splitByKey src lo dest hi calls = some (SUCCESS, src', dest') ∧
      contents src' = contents (DistributedDB.splitByKey src lo dest hi).1 ∧
      contents dest' = contents (DistributedDB.splitByKey src lo dest hi).2 := by
  obtain ⟨src', dest', hsplit, hsrc, hdest⟩ :=
    transfer_of_succeed dest (inSplitRange lo hi) h
  obtain ⟨hsrc', hdest'⟩ := contents_splitByKey src dest lo hi
  exact ⟨src', dest', hsplit, hsrc.trans hsrc'.symm, hdest.trans hdest'.symm⟩

end Transfer

section Arc

/-- The keys after `lo` up to `hi`, going round at `2 ^ 32`: all keys when the bounds are
equal. -/
def KeyArc (lo hi key : dbKey) : Prop :=
  key - lo - 1 ≤ hi - lo - 1

instance (lo hi key : dbKey) : Decidable (KeyArc lo hi key) := by
  unfold KeyArc
  infer_instance

/-- The code's test on the keys is membership in the arc. -/
theorem inSplitRange_iff_keyArc (lo hi key : dbKey) :
    inSplitRange lo hi key = true ↔ KeyArc lo hi key := by
  have hlo := lo.toNat_lt
  have hhi := hi.toNat_lt
  have hkey := key.toNat_lt
  simp only [inSplitRange, KeyArc, Bool.or_eq_true, Bool.and_eq_true, Bool.not_eq_true',
    decide_eq_true_eq, decide_eq_false_iff_not, gt_iff_lt, UInt32.lt_iff_toNat_lt,
    UInt32.le_iff_toNat_le, UInt32.toNat_sub, UInt32.toNat_one]
  omega

theorem keyArc_self (lo key : dbKey) : KeyArc lo lo key := by
  have hkey := (key - lo - 1).toNat_lt
  rw [KeyArc, UInt32.sub_self, UInt32.le_iff_toNat_le]
  exact Nat.le_of_lt_succ hkey

/-- What a successful split leaves, by the arc. -/
theorem splitByKey_of_succeed (src dest : HDB) (lo hi : dbKey) {calls : TransferCalls src}
    (h : calls.Succeed) :
    ∃ src' dest', splitByKey src lo dest hi calls = some (SUCCESS, src', dest') ∧
      contents src' = restrict (fun k => ¬ KeyArc lo hi k) (contents src) ∧
      contents dest' = overlay (contents dest) (restrict (KeyArc lo hi) (contents src)) := by
  obtain ⟨src', dest', hsplit, hsrc, hdest⟩ :=
    transfer_of_succeed dest (inSplitRange lo hi) h
  refine ⟨src', dest', hsplit, hsrc.trans (restrict_congr _ fun k _ => ?_),
    hdest.trans (congrArg _ (restrict_congr _ fun k _ => ?_))⟩
  · rw [inSplitRange_iff_keyArc]
  · exact inSplitRange_iff_keyArc lo hi k

theorem merge2Files_of_succeed (src dest : HDB) {calls : TransferCalls src}
    (h : calls.Succeed) :
    ∃ src' dest', merge2Files src dest calls = some (SUCCESS, src', dest') ∧
      contents src' = (fun _ => none) ∧
      contents dest' = overlay (contents dest) (contents src) := by
  obtain ⟨src', dest', hmerge, hsrc, hdest⟩ :=
    transfer_of_succeed dest (fun _ => true) h
  refine ⟨src', dest', hmerge, ?_, ?_⟩
  · rw [hsrc]
    funext k
    simp [restrict]
  · rw [hdest]
    funext k
    simp [overlay, restrict]

end Arc

/-- **The split partitions the source and the merge undoes it**: the records on the arc go
to the destination, those outside stay, and a merge back restores the source. -/
theorem split_partitions_merge_undoes (src dest : HDB) (lo hi : dbKey) :
    (∀ calls : TransferCalls src, calls.Succeed →
      ∃ src' dest', splitByKey src lo dest hi calls = some (SUCCESS, src', dest') ∧
        contents src' = restrict (fun k => ¬ KeyArc lo hi k) (contents src) ∧
        contents dest' = overlay (contents dest) (restrict (KeyArc lo hi) (contents src))) ∧
    (lo = hi → ∀ k, KeyArc lo hi k) ∧
    (∀ calls : TransferCalls src, calls.Succeed →
      ∃ src' dest', merge2Files src dest calls = some (SUCCESS, src', dest') ∧
        contents src' = (fun _ => none) ∧
        contents dest' = overlay (contents dest) (contents src)) ∧
    ∀ calls : TransferCalls src, calls.Succeed →
      ∃ src' dest', splitByKey src lo ∅ hi calls = some (SUCCESS, src', dest') ∧
        ∀ calls' : TransferCalls dest', calls'.Succeed →
          ∃ dest'' src'', merge2Files dest' src' calls' = some (SUCCESS, dest'', src'') ∧
            contents src'' = contents src ∧ contents dest'' = fun _ => none := by
  refine ⟨fun calls h => splitByKey_of_succeed src dest lo hi h, ?_,
    fun calls h => merge2Files_of_succeed src dest h, fun calls h => ?_⟩
  · rintro rfl k
    exact keyArc_self lo k
  · obtain ⟨src', dest', hsplit, hsrc, hdest⟩ := splitByKey_of_succeed src ∅ lo hi h
    have hempty : contents (∅ : HDB) = fun _ => none := rfl
    rw [hempty, overlay_empty_left] at hdest
    refine ⟨src', dest', hsplit, fun calls' h' => ?_⟩
    obtain ⟨dest'', src'', hmerge, hdest'', hsrc''⟩ := merge2Files_of_succeed dest' src' h'
    refine ⟨dest'', src'', hmerge, ?_, hdest''⟩
    rw [hsrc'', hsrc, hdest, overlay_restrict_restrict, restrict_eq_self_iff]
    exact fun k _ => (em (KeyArc lo hi k)).symm

/-- A file with the values "a" and "b" on both sides of the arc that goes round the end. -/
def twoRecords : HDB :=
  ((∅ : HDB).insert (7 : dbKey) ([97] : dbValue)).insert (4000000000 : dbKey) ([98] : dbValue)

/-- Calls on that file, of which the writes succeed as given. -/
def twoRecordsCalls (put : dbKey → Bool) : TransferCalls twoRecords :=
  ⟨true, [7, 4000000000], by decide +kernel, put⟩

theorem split_partitions_merge_undoes_twoRecords :
    ∃ src' dest', splitByKey twoRecords 4000 ∅ 20 (twoRecordsCalls fun _ => true) =
        some (SUCCESS, src', dest') ∧
      ∀ calls' : TransferCalls dest', calls'.Succeed →
        ∃ dest'' src'', merge2Files dest' src' calls' = some (SUCCESS, dest'', src'') ∧
          contents src'' = contents twoRecords ∧ contents dest'' = fun _ => none :=
  (split_partitions_merge_undoes twoRecords ∅ 4000 20).2.2.2 (twoRecordsCalls fun _ => true)
    ⟨rfl, fun _ => rfl⟩

section Failures

/-- Every entry of the source is afterwards in one of the two files, and the call fails if
one that should have moved has not. -/
def NothingLost (inRange : dbKey → Bool) (src : HDB) (result : Int × HDB × HDB) : Prop :=
  (∀ k v, contents src k = some v →
    contents result.2.1 k = some v ∨ contents result.2.2 k = some v) ∧
  ((∃ k v, inRange k = true ∧ contents src k = some v ∧
    ¬ (contents result.2.1 k = none ∧ contents result.2.2 k = some v)) → result.1 = FAILURE)

/-- Each write that fails is for an entry that the destination has. -/
def FailuresHarmless (inRange : dbKey → Bool) (src dest : HDB) (calls : TransferCalls src) :
    Prop :=
  calls.iterinit = true →
    ∀ k v, inRange k = true → contents src k = some v → calls.put k = false →
      contents dest k = some v

theorem transfer_nothingLost_iff (inRange : dbKey → Bool) (src dest : HDB)
    (calls : TransferCalls src) :
    (∃ result, transfer inRange src dest calls = some result ∧
        NothingLost inRange src result) ↔
      FailuresHarmless inRange src dest calls := by
  by_cases hiter : calls.iterinit = true
  · obtain ⟨src', dest', htransfer, hsrc, hdest⟩ :=
      transfer_spec dest inRange hiter
    rw [htransfer]
    constructor
    · rintro ⟨result, heq, hkept, -⟩ - k v hin hk hput
      obtain rfl := Option.some.inj heq
      have hgone : contents src' k = none := by rw [hsrc, if_pos hin]
      have hold : contents dest' k = contents dest k := by
        rw [hdest, if_neg]
        rintro ⟨-, -, hwritten⟩
        rw [hput] at hwritten
        cases hwritten
      rcases hkept k v hk with hsome | hsome
      · cases hgone.symm.trans hsome
      · exact hold ▸ hsome
    · intro hharmless
      have hmoved : ∀ k v, inRange k = true → contents src k = some v →
          contents src' k = none ∧ contents dest' k = some v := by
        intro k v hin hk
        refine ⟨by rw [hsrc, if_pos hin], ?_⟩
        rw [hdest, hk]
        cases hput : calls.put k with
        | true => simp [hin]
        | false => simpa using hharmless hiter k v hin hk hput
      refine ⟨_, rfl, fun k v hk => ?_, ?_⟩
      · by_cases hin : inRange k = true
        · exact Or.inr (hmoved k v hin hk).2
        · refine Or.inl ?_
          rw [hsrc, if_neg hin]
          exact hk
      · rintro ⟨k, v, hin, hk, hnot⟩
        exact absurd (hmoved k v hin hk) hnot
  · have hfailure : transfer inRange src dest calls = some (FAILURE, src, dest) := if_neg hiter
    rw [hfailure]
    refine iff_of_true ⟨_, rfl, fun k v hk => Or.inl hk, fun _ => rfl⟩ fun h => absurd h hiter

/-- **Split and merge lose nothing exactly when each write that fails is for an entry that
the destination has already.** -/
theorem nothing_lost_iff (src dest : HDB) (lo hi : dbKey) (calls : TransferCalls src) :
    ((∃ result, splitByKey src lo dest hi calls = some result ∧
        NothingLost (inSplitRange lo hi) src result) ↔
      FailuresHarmless (inSplitRange lo hi) src dest calls) ∧
    ((∃ result, merge2Files src dest calls = some result ∧
        NothingLost (fun _ => true) src result) ↔
      FailuresHarmless (fun _ => true) src dest calls) :=
  ⟨transfer_nothingLost_iff (inSplitRange lo hi) src dest calls,
    transfer_nothingLost_iff (fun _ => true) src dest calls⟩

/-- The writes fail: the record that should move is in neither file, and the split says
`SUCCESS`; a merge loses both records. -/
theorem lost_by_failing_put :
    (∃ result, splitByKey twoRecords 0 ∅ 20 (twoRecordsCalls fun _ => false) = some result ∧
      contents twoRecords 7 = some [97] ∧ result.1 = SUCCESS ∧
      contents result.2.1 7 = none ∧ contents result.2.2 7 = none) ∧
    ∃ result, merge2Files twoRecords ∅ (twoRecordsCalls fun _ => false) = some result ∧
      result.1 = SUCCESS ∧ contents result.2.1 7 = none ∧ contents result.2.2 7 = none :=
  ⟨⟨_, rfl, by decide, by decide, by decide, by decide⟩,
    ⟨_, rfl, by decide, by decide, by decide⟩⟩

end Failures

end SplitMerge

end DistributedDB
