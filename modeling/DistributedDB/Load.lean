import DistributedDB.Balance
import DistributedDB.Library.Halving
import DistributedDB.MembershipRouting

/-!
# The load of the slaves

The master balances the lengths of the sections; what a slave gets to do are the keys that
`GetSocket` of the clients selects it for.  Both are the same number, so that the arithmetic
of `AddToSlaveList` bounds the load of every slave, and the keys that change their owner with
a registration or a departure are those of a single section.

Keys are counted below `MAX_KEY`; a larger key goes where its remainder goes.

**Results.**
* `RingInv.card_keysOf`: the keys of a node are as many as its section is long.
* `load_of_registrations`: the load of every node after any number of registrations.
* `moved_by_change`: which keys a change moves, from where and to where, and how many.
-/

namespace DistributedDB

open CyclicOrder Halving RingIndex Run

/-- The keys that clients with the list send to node `i`. -/
def keysOf (slaves : SlaveList) (i : Nat) : Finset Nat :=
  (Finset.range MAX_KEY).filter fun k => getSocket slaves (UInt32.ofNat k) = some i

/-- The node to which clients with the list send a key. -/
def owner (slaves : SlaveList) (key : dbKey) : Option SlaveNode :=
  (getSocket slaves key).map slaves.node

/-- The keys that have another owner in the second list than in the first. -/
def moved (slaves slaves' : SlaveList) : Finset Nat :=
  (Finset.range MAX_KEY).filter fun k =>
    owner slaves (UInt32.ofNat k) ≠ owner slaves' (UInt32.ofNat k)

section Keys

variable {slaves : SlaveList}

/-- A key below `MAX_KEY` is its own point of the circle. -/
theorem circleKey_ofNat {k : Nat} (hk : k < MAX_KEY) : circleKey (UInt32.ofNat k) = k := by
  have hsize : k < UInt32.size := hk.trans (by decide)
  rw [circleKey, UInt32.toNat_ofNat_of_lt' hsize, Nat.mod_eq_of_lt hk]

theorem RingInv.mem_keysOf (h : RingInv slaves) {i : Nat} (hi : i < slaves.num) {k : Nat} :
    k ∈ keysOf slaves i ↔ k < MAX_KEY ∧ InSection slaves i k := by
  rw [keysOf, Finset.mem_filter, Finset.mem_range]
  refine and_congr_right fun hk => ?_
  rw [getSocket_eq_some_iff h, circleKey_ofNat hk]
  exact and_iff_right hi

/-- The points of the circle between two keys. -/
theorem card_filter_cyclicIoc {lower upper : Nat} (hlower : lower < MAX_KEY)
    (hupper : upper < MAX_KEY) :
    (((Finset.range MAX_KEY).filter fun k : Nat =>
      CyclicIoc (lower : Int) upper k).card : Int) = gap (MAX_KEY : Int) lower upper := by
  rcases Nat.lt_or_ge lower upper with hlt | hge
  · have harc : (Finset.range MAX_KEY).filter (fun k : Nat => CyclicIoc (lower : Int) upper k) =
        Finset.Ioc lower upper := by
      ext k
      rw [Finset.mem_filter, Finset.mem_range, Finset.mem_Ioc, cyclicIoc_of_lt (by omega)]
      omega
    rw [harc, Nat.card_Ioc, gap, if_pos (by omega)]
    omega
  · -- The arc goes over zero: it is what the arc the other way round leaves.
    have hrest : (Finset.range MAX_KEY).filter
        (fun k : Nat => ¬ CyclicIoc (lower : Int) upper k) = Finset.Ioc upper lower := by
      ext k
      rw [Finset.mem_filter, Finset.mem_range, Finset.mem_Ioc, cyclicIoc_of_le (by omega)]
      omega
    have hsum := Finset.card_filter_add_card_filter_not (s := Finset.range MAX_KEY)
      (fun k : Nat => CyclicIoc (lower : Int) upper k)
    rw [hrest, Nat.card_Ioc, Finset.card_range] at hsum
    rw [gap, if_neg (by omega)]
    omega

/-- **The keys of a node are as many as its section is long.** -/
theorem RingInv.card_keysOf (h : RingInv slaves) {i : Nat} (hi : i < slaves.num) :
    ((keysOf slaves i).card : Int) = getLength slaves i := by
  obtain ⟨hlo, hhi⟩ := h.key_range i hi
  obtain ⟨hlo', hhi'⟩ := h.key_range ((i + 1) % slaves.num) (Nat.mod_lt _ (by omega))
  obtain ⟨lower, hlower⟩ := Int.eq_ofNat_of_zero_le hlo
  obtain ⟨upper, hupper⟩ := Int.eq_ofNat_of_zero_le hlo'
  have hkeys : keysOf slaves i =
      (Finset.range MAX_KEY).filter fun k : Nat => CyclicIoc (lower : Int) upper k := by
    ext k
    rw [h.mem_keysOf hi, Finset.mem_filter, Finset.mem_range, InSection, hlower, hupper]
  rw [hkeys, card_filter_cyclicIoc (by omega) (by omega), h.getLength_eq_gap hi, hlower, hupper]

end Keys

section Registrations

variable {slaves : SlaveList}

/-- The lengths of the sections, `k` generations after the whole circle. -/
theorem card_sectionLengths (slaves : SlaveList) : (sectionLengths slaves).card = slaves.num := by
  simp [sectionLengths]

/-- In a ring of one node the section is the whole circle. -/
theorem RingInv.spread_one (h : RingInv slaves) (hone : slaves.num = 1) :
    Spread MAX_KEY 0 (sectionLengths slaves) := by
  have hlen : getLength slaves 0 = MAX_KEY := by
    rw [h.getLength_eq_gap (by omega), hone, gap, Nat.mod_one, if_neg (lt_irrefl _), sub_self,
      zero_add]
  have hlengths : sectionLengths slaves = {(MAX_KEY : Int)} := by
    rw [sectionLengths, hone, List.range_one, List.map_singleton, hlen]
    rfl
  rw [hlengths]
  exact spread_whole _

/-- A registration halves a largest part of the circle. -/
theorem RingInv.spread_addToSlaveList (h : RingInv slaves) (hpos : 0 < slaves.num)
    (hmax : slaves.num < MAX_SLAVE_NUM) (sn : SlaveNode) (rand : Nat) {k : Nat}
    (hspread : Spread MAX_KEY k (sectionLengths slaves)) :
    ∃ j, Spread MAX_KEY j (sectionLengths (addToSlaveList slaves sn rand).1) := by
  have hhalves := h.halves_addToSlaveList hpos hmax sn rand
  have htwo := h.two_le_longest hpos hmax
  have hlongest := hhalves.longest.2 _ (h.find_lt hpos)
  obtain ⟨rest, hold, hnew⟩ := hhalves.others
  rw [hnew]
  refine hspread.step (by decide) hold ?_ (htwo.trans hlongest)
  intro len hlen
  obtain ⟨i, hi, rfl⟩ := mem_sectionLengths.mp hlen
  exact hhalves.longest.2 i hi

/-- What holds of every non-empty list that registrations alone lead to. -/
structure Grown (slaves : SlaveList) : Prop where
  ring : RingInv slaves
  pos : 0 < slaves.num
  spread : ∃ k, Spread MAX_KEY k (sectionLengths slaves)

theorem grown_of_run {start : SlaveList} {adds : List (SlaveNode × Nat)}
    (hstart : Grown start) (hrun : run changeList start (registrations adds) = some slaves) :
    Grown slaves ∧ slaves.num = start.num + adds.length := by
  induction adds generalizing start with
  | nil =>
      obtain rfl : start = slaves := Option.some.inj hrun
      exact ⟨hstart, rfl⟩
  | cons a adds ih =>
      obtain ⟨t, hstep, hrest⟩ := run_cons_eq_some.mp hrun
      simp only [changeList, Option.ite_none_right_eq_some, Option.some.injEq] at hstep
      obtain ⟨hmax, rfl⟩ := hstep
      obtain ⟨k, hspread⟩ := hstart.spread
      have hnum := num_addToSlaveList start a.1 a.2
      have hgrown : Grown (addToSlaveList start a.1 a.2).1 := by
        refine ⟨hstart.ring.of_addToSlaveList hmax a.1 a.2, ?_,
          hstart.ring.spread_addToSlaveList hstart.pos hmax a.1 a.2 hspread⟩
        omega
      obtain ⟨hslaves, hlength⟩ := ih hgrown hrest
      refine ⟨hslaves, ?_⟩
      rw [hlength, hnum, List.length_cons]
      omega

/-- **The load after registrations.**  When `n` slaves have registered with the empty
master, with whatever random key the first one got, clients with the master's list send to
each of them at least `MAX_KEY / 2 ^ (k + 1)` and at most `MAX_KEY / 2 ^ k` keys, the latter
rounded up, where `k` is the logarithm of `n`. -/
theorem load_of_registrations (adds : List (SlaveNode × Nat)) (slaves : SlaveList)
    (hrun : run changeList SlaveList.empty (registrations adds) = some slaves) :
    slaves.num = adds.length ∧
      ∀ i, i < slaves.num →
        MAX_KEY / 2 ^ (Nat.log 2 adds.length + 1) ≤ (keysOf slaves i).card ∧
          (keysOf slaves i).card ≤
            (MAX_KEY + 2 ^ Nat.log 2 adds.length - 1) / 2 ^ Nat.log 2 adds.length := by
  cases adds with
  | nil =>
      obtain rfl : SlaveList.empty = slaves := Option.some.inj hrun
      exact ⟨rfl, fun i hi => absurd hi (Nat.not_lt_zero i)⟩
  | cons a adds =>
      obtain ⟨t, hstep, hrest⟩ := run_cons_eq_some.mp hrun
      simp only [changeList, Option.ite_none_right_eq_some, Option.some.injEq] at hstep
      obtain ⟨hmax, rfl⟩ := hstep
      have hring := ringInv_empty.of_addToSlaveList hmax a.1 a.2
      have hone := num_addToSlaveList SlaveList.empty a.1 a.2
      obtain ⟨hgrown, hnum⟩ := grown_of_run
        ⟨hring, by omega, 0, hring.spread_one hone⟩ hrest
      have hlength : slaves.num = (a :: adds).length := by
        rw [hnum, hone, List.length_cons, Nat.add_comm]
        rfl
      refine ⟨hlength, fun i hi => ?_⟩
      obtain ⟨j, hspread⟩ := hgrown.spread
      have hspread := hspread.of_card
      rw [card_sectionLengths, hlength] at hspread
      generalize Nat.log 2 (a :: adds).length = k at hspread ⊢
      obtain ⟨hlo, hhi⟩ := hspread.bounds (by decide) (mem_sectionLengths.mpr ⟨i, hi, rfl⟩)
      have hpow := Nat.two_pow_pos k
      rw [← hgrown.ring.card_keysOf hi] at hlo hhi
      rw [lower] at hlo
      rw [upper] at hhi
      constructor
      · exact_mod_cast hlo
      · have hcast : (((MAX_KEY + 2 ^ k - 1 : Nat) : Int)) = MAX_KEY + 2 ^ k - 1 := by
          rw [Nat.cast_sub (by omega)]
          push_cast
          rfl
        rw [← hcast] at hhi
        exact_mod_cast hhi

/-- Three registrations, the first one with the last key. -/
theorem load_of_registrations_three :
    ∃ slaves, run changeList SlaveList.empty
        (registrations [(⟨0, 1, 0, 0⟩, 3999), (⟨0, 2, 0, 0⟩, 0), (⟨0, 3, 0, 0⟩, 0)]) =
          some slaves ∧
      slaves.keys = [3999, 999, 1999] ∧
      ∀ i, i < slaves.num → 1000 ≤ (keysOf slaves i).card ∧
        (keysOf slaves i).card ≤ 2000 := by
  have hmap : (run changeList SlaveList.empty
      (registrations [(⟨0, 1, 0, 0⟩, 3999), (⟨0, 2, 0, 0⟩, 0), (⟨0, 3, 0, 0⟩, 0)])).map
        SlaveList.keys = some [3999, 999, 1999] := by decide
  obtain ⟨slaves, hrun, hkeys⟩ := Option.map_eq_some_iff.mp hmap
  have hlog : Nat.log 2 3 = 1 := by decide
  have hload := (load_of_registrations _ slaves hrun).2
  simp only [List.length_cons, List.length_nil, hlog] at hload
  exact ⟨slaves, hrun, hkeys, hload⟩

end Registrations

section Moved

variable {small big : SlaveList} {r : Nat}

/-- How the owner changes between two rings that differ in one node. -/
theorem WithoutNode.owner_eq (h : WithoutNode small big r) (hsmall : RingInv small)
    (hbig : RingInv big) (hpos : 0 < small.num) (key : dbKey) :
    owner small key =
      if getSocket big key = some r then some (small.node (back small.num r 1))
      else owner big key := by
  have hnum := h.num
  obtain ⟨i, ⟨hi, hin⟩, -⟩ := hbig.existsUnique_inSection (by omega) (circleKey key)
  have hroute := (getSocket_eq_some_iff hbig key i).mpr ⟨hi, hin⟩
  rcases eq_or_ne i r with rfl | hne
  · have hback := (h.getSocket_back hsmall hbig hpos key).mpr (Or.inr hroute)
    rw [if_pos hroute, owner, hback, Option.map_some]
  · have hlt := newIndex_lt h.pos (show i ≤ small.num by omega) hne
    have hroute' : getSocket small key = some (newIndex r i) := by
      rw [h.getSocket_iff hsmall hbig hlt, oldIndex_newIndex hne]
      exact Or.inl hroute
    have hother : ¬ getSocket big key = some r := by
      rw [hroute]
      exact fun heq => hne (Option.some.inj heq)
    rw [if_neg hother, owner, owner, hroute, hroute', Option.map_some, Option.map_some,
      h.node_newIndex hi hne]

/-- Exactly the keys of the node that is missing have another owner. -/
theorem WithoutNode.owner_ne_iff (h : WithoutNode small big r) (hsmall : RingInv small)
    (hbig : RingInv big) (hpos : 0 < small.num) (key : dbKey) :
    owner small key ≠ owner big key ↔ getSocket big key = some r := by
  have hnum := h.num
  have hr := h.pos
  rw [h.owner_eq hsmall hbig hpos key]
  constructor
  · intro hne
    by_contra hother
    exact hne (if_neg hother)
  · intro hroute heq
    rw [if_pos hroute, owner, hroute, Option.map_some, Option.some.injEq,
      h.node _ (back_lt hpos)] at heq
    have hold := oldIndex_lt (r := r)
      (show back small.num r 1 + 1 < big.num by have := back_lt (i := r) (k := 1) hpos; omega)
    exact hbig.key_ne hold (by omega) (oldIndex_ne r _) (congrArg SlaveNode.key heq)

/-- They are as many as its section is long. -/
theorem WithoutNode.card_moved (h : WithoutNode small big r) (hsmall : RingInv small)
    (hbig : RingInv big) (hpos : 0 < small.num) :
    ((moved small big).card : Int) = getLength big r := by
  have hnum := h.num
  have hr := h.pos
  have hkeys : moved small big = keysOf big r := by
    rw [moved, keysOf]
    exact Finset.filter_congr fun k _ => h.owner_ne_iff hsmall hbig hpos _
  rw [hkeys, hbig.card_keysOf (by omega)]

/-- The keys that a new node takes over are those behind its key. -/
theorem getSocket_newpos_iff (hring : RingInv small) (hpos : 0 < small.num)
    (hmax : small.num < MAX_SLAVE_NUM) (sn : SlaveNode) (rand : Nat) (key : dbKey) :
    getSocket (addToSlaveList small sn rand).1 key = some (addToSlaveList small sn rand).2 ↔
      CyclicIoc (middleKey small ((addToSlaveList small sn rand).2 - 1))
        (small.node ((addToSlaveList small sn rand).2 % small.num)).key (circleKey key) := by
  have hring' := hring.of_addToSlaveList hmax sn rand
  have hfind := hring.find_lt hpos
  rw [getSocket_eq_some_iff hring', num_addToSlaveList, InSection, num_addToSlaveList]
  rw [addToSlaveList_of_pos sn rand hpos hmax hfind]
  generalize (findLongestSection small).toNat = p at hfind ⊢
  have hnext := node_next_addNewSlave { sn with key := middleKey small p } hfind hmax
    (Nat.lt_succ_self p) hfind
  simp only [Nat.add_sub_cancel]
  rw [hnext, node_addNewSlave _ hfind hmax hfind, if_neg (Nat.lt_irrefl _), if_pos rfl]
  exact and_iff_right (Nat.succ_lt_succ hfind)

theorem moved_comm (slaves slaves' : SlaveList) : moved slaves slaves' = moved slaves' slaves := by
  rw [moved, moved]
  exact Finset.filter_congr fun k _ => ne_comm

end Moved

/-- All keys that change their owner between the lists go from one node to another. -/
def MovedBetween (slaves slaves' : SlaveList) (giver taker : SlaveNode) : Prop :=
  ∀ key, owner slaves key ≠ owner slaves' key →
    owner slaves key = some giver ∧ owner slaves' key = some taker

/-- **What a change moves.**  In every list that registrations and departures lead to, a
further registration moves exactly the keys of the upper half of a longest section, those
behind its middle key, and as many as that are: from the node of the section to the new
node.  A departure moves exactly the keys of the section of the node that leaves, to its
predecessor.  No other key changes its owner. -/
theorem moved_by_change (changes : List ListChange) (slaves : SlaveList)
    (hrun : run changeList SlaveList.empty changes = some slaves) :
    (∀ (sn : SlaveNode) (rand : Nat), 0 < slaves.num → slaves.num < MAX_SLAVE_NUM →
      ∃ p, p < slaves.num ∧
        (∀ i, i < slaves.num → getLength slaves i ≤ getLength slaves p) ∧
        CyclicIoo (slaves.node p).key (slaves.node ((p + 1) % slaves.num)).key
          (middleKey slaves p) ∧
        (∀ key, owner slaves key ≠ owner (addToSlaveList slaves sn rand).1 key ↔
          CyclicIoc (middleKey slaves p) (slaves.node ((p + 1) % slaves.num)).key
            (circleKey key)) ∧
        MovedBetween slaves (addToSlaveList slaves sn rand).1 (slaves.node p)
          ((addToSlaveList slaves sn rand).1.node (addToSlaveList slaves sn rand).2) ∧
        ((moved slaves (addToSlaveList slaves sn rand).1).card : Int) =
          (getLength slaves p + 1) / 2) ∧
    ∀ pos, pos < slaves.num → 1 < slaves.num →
      (∀ key, owner slaves key ≠ owner (delFromSlaveList slaves pos) key ↔
        getSocket slaves key = some pos) ∧
      MovedBetween slaves (delFromSlaveList slaves pos) (slaves.node pos)
          (slaves.node (back slaves.num pos 1)) ∧
        ((moved slaves (delFromSlaveList slaves pos)).card : Int) = getLength slaves pos := by
  have hring := ringInv_of_run hrun
  constructor
  · intro sn rand hpos hmax
    have hwith := withoutNode_addToSlaveList hring hmax sn rand
    have hring' := hring.of_addToSlaveList hmax sn rand
    have hhalves := hring.halves_addToSlaveList hpos hmax sn rand
    have hnew := (newpos_eq slaves hring sn rand hmax).1
    have hupper := getSocket_newpos_iff hring hpos hmax sn rand
    generalize addToSlaveList slaves sn rand = t at *
    have hnewpos := hhalves.newpos_pos
    have hback : back slaves.num t.2 1 = t.2 - 1 := by
      rw [back_eq hnew (by omega) Nat.one_pos, if_pos (by omega)]
    have hlen : 2 ≤ getLength slaves (t.2 - 1) :=
      (hring.two_le_longest hpos hmax).trans (hhalves.longest.2 _ (hring.find_lt hpos))
    have hmiddle := (hring.middleKey_inside hhalves.longest.1 hlen).2.2
    rw [Nat.sub_add_cancel hnewpos] at hmiddle
    refine ⟨t.2 - 1, hhalves.longest.1, hhalves.longest.2, ?_, ?_, ?_, ?_⟩
    · rw [Nat.sub_add_cancel hnewpos]
      exact hmiddle
    · intro key
      rw [hwith.owner_ne_iff hring hring' hpos key, hupper key, Nat.sub_add_cancel hnewpos]
    · intro key hne
      have hroute := (hwith.owner_ne_iff hring hring' hpos key).mp hne
      have howner := hwith.owner_eq hring hring' hpos key
      rw [if_pos hroute, hback] at howner
      refine ⟨howner, ?_⟩
      rw [owner, hroute, Option.map_some]
    · rw [hwith.card_moved hring hring' hpos, hhalves.upper]
  · intro pos hpos hone
    have hwith : WithoutNode (delFromSlaveList slaves pos) slaves pos :=
      withoutNode_removeSlave hpos hring.num_le
    have hring' : RingInv (delFromSlaveList slaves pos) := by
      rw [delFromSlaveList_eq_removeSlave]
      exact hring.of_removeSlave hpos
    have hnum := hwith.num
    have hpos' : 0 < (delFromSlaveList slaves pos).num := by omega
    have hiff : ∀ key, owner slaves key ≠ owner (delFromSlaveList slaves pos) key ↔
        getSocket slaves key = some pos :=
      fun key => ne_comm.trans (hwith.owner_ne_iff hring' hring hpos' key)
    refine ⟨hiff, ?_, ?_⟩
    · intro key hne
      have hroute := (hiff key).mp hne
      have howner := hwith.owner_eq hring' hring hpos' key
      rw [if_pos hroute, hwith.node _ (back_lt hpos'), oldIndex_back hwith.pos hpos',
        ← hnum] at howner
      refine ⟨?_, howner⟩
      rw [owner, hroute, Option.map_some]
    · rw [moved_comm, hwith.card_moved hring' hring hpos']

/-- In the ring of nodes at 7, 1007 and 2007: a registration, which cuts the last section
at 3007, and the departure of the second node. -/
theorem moved_by_change_sampleChanges :
    ∃ slaves, run changeList SlaveList.empty sampleChanges = some slaves ∧
      slaves.keys = [7, 1007, 2007] ∧
      (∀ key, owner slaves key ≠ owner (addToSlaveList slaves ⟨0, 9, 0, 0⟩ 0).1 key ↔
        CyclicIoc (3007 : Int) 7 (circleKey key)) ∧
      ((moved slaves (delFromSlaveList slaves 1)).card : Int) = getLength slaves 1 := by
  have hmap : (run changeList SlaveList.empty sampleChanges).map (fun slaves =>
      (slaves.keys, (slaves.node 0).key, middleKey slaves 2,
        (List.range 3).map (getLength slaves))) =
      some ([7, 1007, 2007], 7, 3007, [1000, 1000, 2000]) := by decide
  obtain ⟨slaves, hrun, hmap⟩ := Option.map_eq_some_iff.mp hmap
  simp only [Prod.mk.injEq, List.range_succ, List.range_zero, List.nil_append, List.map_cons,
    List.map_nil, List.cons_append, List.cons.injEq, and_true] at hmap
  obtain ⟨hkeys, hfirst, hmiddle, hlen₀, hlen₁, hlen₂⟩ := hmap
  have hnum : slaves.num = 3 := by rw [← slaves.length_keys, hkeys]; rfl
  obtain ⟨hadd, hdel⟩ := moved_by_change sampleChanges slaves hrun
  obtain ⟨p, hp, hlongest, -, hmoved, -, -⟩ :=
    hadd ⟨0, 9, 0, 0⟩ 0 (by omega) (hnum.trans_lt (by decide))
  have hlast := hlongest 2 (by omega)
  obtain rfl : p = 2 := by
    rcases (by omega : p = 0 ∨ p = 1 ∨ p = 2) with rfl | rfl | rfl
    · omega
    · omega
    · rfl
  refine ⟨slaves, hrun, hkeys, fun key => ?_, (hdel 1 (by omega) (by omega)).2.2⟩
  rw [hmoved key, hmiddle, hnum, Nat.mod_self, hfirst]

end DistributedDB
