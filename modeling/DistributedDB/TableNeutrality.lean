import DistributedDB.ReferenceCounts
import DistributedDB.SplitMerge

/-!
# What split and merge do to the table of open databases

Both functions open their two files with `DBCreate`, which counts one reference each, or
two for one file.  `SplitByKey` gives both back with `DBDelete` at its end, and neither when
it cannot initialize the iterator; `Merge2Files` has no `DBDelete` at all.  The loop between
does not touch the table.

The counters may have any positive values, as references that an earlier call has not given
back are still counted.

**Results.**
* `DBTable.WellFormed.acquired`, `DBTable.WellFormed.dbDelete_released`: what one `DBCreate`
  and one `DBDelete` do to the table, and that the second undoes the first.
* `DBTable.neutral_iff`: the table is left as it was exactly by a split that starts to
  iterate.
-/

namespace DistributedDB

open Run

namespace DBTable

/-- The two functions. -/
inductive Transfer where
  | splitByKey
  | merge2Files
deriving DecidableEq, Repr

/-- What the calls of Tokyo Cabinet return: `tchdbopen` for each file, if it has to be
opened, and `tchdbiterinit`. -/
structure TransferResults where
  srcOpen : Bool
  destOpen : Bool
  iterinit : Bool
deriving DecidableEq, Repr

/-- `SplitByKey` on the table, with its result; a handle that is `NULL` is followed and has
no result. -/
def splitByKey (s : DBTable) (srcfile destfile : dbName) (r : TransferResults) :
    Option (DBTable × Int) :=
  let src := s.dbCreate srcfile r.srcOpen
  let dest := src.1.dbCreate destfile r.destOpen
  src.2.bind fun podb1 =>
  dest.2.bind fun podb2 =>
  if r.iterinit then
    (dest.1.dbDelete podb1).bind fun s =>
    (s.dbDelete podb2).map fun s => (s, SUCCESS)
  else some (dest.1, FAILURE)

/-- `Merge2Files` on the table. -/
def merge2Files (s : DBTable) (srcfile destfile : dbName) (r : TransferResults) :
    Option (DBTable × Int) :=
  let src := s.dbCreate srcfile r.srcOpen
  let dest := src.1.dbCreate destfile r.destOpen
  src.2.bind fun _ =>
  dest.2.bind fun _ =>
  if r.iterinit then some (dest.1, SUCCESS) else some (dest.1, FAILURE)

def transfer (s : DBTable) (srcfile destfile : dbName) (r : TransferResults) :
    Transfer → Option (DBTable × Int)
  | .splitByKey => s.splitByKey srcfile destfile r
  | .merge2Files => s.merge2Files srcfile destfile r

/-- Each entry has the string of its name and is in use, with any counter. -/
structure WellFormed (s : DBTable) : Prop where
  string : ∀ name e, s.table name = some e → s.strings e.name = some name
  counter_pos : ∀ name e, s.table name = some e → 0 < e.counter
  strings_lt : ∀ p, s.nextString ≤ p → s.strings p = none

/-- The entry after one reference is given back. -/
def released (e : OpenedDB) : Option OpenedDB :=
  if e.counter - 1 = 0 then none else some { e with counter := e.counter - 1 }

/-- The references that the table counts for a name. -/
def count (s : DBTable) (name : dbName) : Int :=
  match s.table name with
  | some e => e.counter
  | none => 0

/-- `DBCreate` has counted a reference, which `podb` stands for. -/
structure Acquired (s s' : DBTable) (name : dbName) (podb : OpenedDB) : Prop where
  table : s'.table = Function.update s.table name (some podb)
  released : released podb = s.table name
  counter : podb.counter = s.count name + 1
  wellFormed : s'.WellFormed

section Calls

variable {s s' : DBTable} {name : dbName} {podb e : OpenedDB}

theorem TableInv.wellFormed (h : s.TableInv) : s.WellFormed where
  string name e he := (h.entries name e he).string
  counter_pos name e he := by
    have hpos := h.references_pos he
    rw [(h.entries name e he).counter]
    omega
  strings_lt := h.strings_lt

/-- An entry is added or counted up. -/
theorem WellFormed.update (h : s.WellFormed) {strings : Nat → Option dbName} {nextString : Nat}
    (ht : s'.table = Function.update s.table name (some podb)) (hs : s'.strings = strings)
    (hn : s'.nextString = nextString) (hstring : strings podb.name = some name)
    (hpos : 0 < podb.counter) (hold : ∀ p, s.strings p ≠ none → strings p = s.strings p)
    (hfresh : ∀ p, nextString ≤ p → strings p = none) : s'.WellFormed := by
  constructor
  case string =>
    intro name' e he
    rw [ht] at he
    rw [hs]
    rcases update_eq_some_iff.mp he with ⟨rfl, hnew⟩ | ⟨-, hsame⟩
    · obtain rfl := Option.some.inj hnew
      exact hstring
    · have hsome := h.string name' e hsame
      rw [hold _ (by rw [hsome]; exact Option.some_ne_none _)]
      exact hsome
  case counter_pos =>
    intro name' e he
    rw [ht] at he
    rcases update_eq_some_iff.mp he with ⟨rfl, hnew⟩ | ⟨-, hsame⟩
    · obtain rfl := Option.some.inj hnew
      exact hpos
    · exact h.counter_pos name' e hsame
  case strings_lt =>
    rw [hs, hn]
    exact hfresh

/-- **A `DBCreate` that returns a handle counts one reference.** -/
theorem WellFormed.acquired (h : s.WellFormed) {ok : Bool}
    (hcreate : s.dbCreate name ok = (s', some podb)) : s.Acquired s' name podb := by
  cases he : s.table name with
  | some e =>
      rw [dbCreate_cached he] at hcreate
      obtain ⟨rfl, hpodb⟩ := Prod.mk.inj hcreate
      obtain rfl := Option.some.inj hpodb
      have hpos := h.counter_pos name e he
      refine ⟨rfl, ?_, ?_, h.update rfl rfl rfl (h.string name e he) ?_ (fun _ _ => rfl)
        h.strings_lt⟩
      · rw [released, if_neg (by simp only; omega), he]
        simp only [Int.add_sub_cancel]
      · rw [count, he]
      · simp only
        omega
  | none =>
      cases ok with
      | false =>
          rw [dbCreate_failed he] at hcreate
          cases (Prod.mk.inj hcreate).2
      | true =>
          rw [dbCreate_new he] at hcreate
          obtain ⟨rfl, hpodb⟩ := Prod.mk.inj hcreate
          obtain rfl := Option.some.inj hpodb
          refine ⟨rfl, ?_, ?_, h.update rfl rfl rfl (Function.update_self _ _ _) Int.one_pos
            ?_ ?_⟩
          · exact (if_pos (Int.sub_self 1)).trans he.symm
          · rw [count, he]
            rfl
          · intro p hp
            refine Function.update_of_ne ?_ _ _
            rintro rfl
            exact hp (h.strings_lt _ le_rfl)
          · intro p (hp : s.nextString + 1 ≤ p)
            exact (Function.update_of_ne (by omega) _ _).trans (h.strings_lt p (by omega))

theorem released_name {e' : OpenedDB} (h : released e = some e') : e'.name = e.name := by
  rw [released, Option.ite_none_left_eq_some] at h
  obtain rfl := Option.some.inj h.2
  rfl

/-- **`DBDelete` gives one reference back**, and frees the string only with the entry. -/
theorem WellFormed.dbDelete_released (h : s.WellFormed) (he : s.table name = some e)
    (hpodb : s.strings podb.name = some name) :
    ∃ s', s.dbDelete podb = some s' ∧ s'.WellFormed ∧
      s'.table = Function.update s.table name (released e) ∧
      ∀ p, p ≠ e.name ∨ released e ≠ none → s'.strings p = s.strings p := by
  have hstring := h.string name e he
  have hdelete := dbDelete_eq he hpodb hstring
  by_cases hlast : e.counter - 1 = 0
  · rw [if_pos hlast] at hdelete
    have hnone : released e = none := by rw [released, if_pos hlast]
    refine ⟨_, hdelete, ⟨?_, ?_, ?_⟩, by rw [hnone]; rfl, fun p hp => ?_⟩
    · intro name' e' he'
      obtain ⟨-, hnew⟩ | ⟨hne, hsame⟩ := update_eq_some_iff.mp he'
      · cases hnew
      · have hother := h.string name' e' hsame
        refine (Function.update_of_ne ?_ _ _).trans hother
        intro heq
        rw [heq, hstring] at hother
        exact hne (Option.some.inj hother).symm
    · intro name' e' he'
      obtain ⟨-, hnew⟩ | ⟨-, hsame⟩ := update_eq_some_iff.mp he'
      · cases hnew
      · exact h.counter_pos name' e' hsame
    · intro p hp
      show Function.update s.strings e.name none p = none
      rw [Function.update_apply, h.strings_lt p hp, ite_self]
    · exact Function.update_of_ne (hp.resolve_right fun hne => hne hnone) _ _
  · rw [if_neg hlast] at hdelete
    have hpos := h.counter_pos name e he
    have hsome : released e = some { e with counter := e.counter - 1 } := by
      rw [released, if_neg hlast]
    refine ⟨_, hdelete, h.update rfl rfl rfl hstring ?_ (fun _ _ => rfl) h.strings_lt,
      by rw [hsome]; rfl, fun p _ => rfl⟩
    show 0 < e.counter - 1
    omega

end Calls

section Transfers

variable {s s₁ s₂ : DBTable} {srcfile destfile : dbName} {podb1 podb2 : OpenedDB}

/-- **The two calls of `DBDelete` undo the two of `DBCreate`**, also for one file. -/
theorem table_of_deleted (hsrc : s.Acquired s₁ srcfile podb1)
    (hdest : s₁.Acquired s₂ destfile podb2) :
    ∃ s₃ s₄, s₂.dbDelete podb1 = some s₃ ∧ s₃.dbDelete podb2 = some s₄ ∧
      s₄.table = s.table := by
  have hentry : s₂.table destfile = some podb2 := by rw [hdest.table, Function.update_self]
  have hname2 := hdest.wellFormed.string destfile podb2 hentry
  have hentry1 : s₁.table srcfile = some podb1 := by rw [hsrc.table, Function.update_self]
  rcases eq_or_ne srcfile destfile with rfl | hne
  · -- One entry: the first call leaves what the first `DBCreate` had made of it.
    have hreleased : released podb2 = some podb1 := hdest.released.trans hentry1
    have hname1 : s₂.strings podb1.name = some srcfile := by
      rw [released_name hreleased, hname2]
    obtain ⟨s₃, hdelete, hwell, htable, hstrings⟩ :=
      hdest.wellFormed.dbDelete_released hentry hname1
    have hentry3 : s₃.table srcfile = some podb1 := by
      rw [htable, Function.update_self, hreleased]
    have hname3 : s₃.strings podb2.name = some srcfile := by
      rw [hstrings podb2.name (Or.inr (by rw [hreleased]; exact Option.some_ne_none _))]
      exact hname2
    obtain ⟨s₄, hdelete', -, htable', -⟩ := hwell.dbDelete_released hentry3 hname3
    refine ⟨s₃, s₄, hdelete, hdelete', ?_⟩
    rw [htable', htable, hdest.table, hsrc.table, hsrc.released, Function.update_idem,
      Function.update_idem, Function.update_idem, Function.update_eq_self]
  · have hentry2 : s₂.table srcfile = some podb1 := by
      rw [hdest.table, Function.update_of_ne hne, hentry1]
    have hname1 := hdest.wellFormed.string srcfile podb1 hentry2
    obtain ⟨s₃, hdelete, hwell, htable, hstrings⟩ :=
      hdest.wellFormed.dbDelete_released hentry2 hname1
    have hentry3 : s₃.table destfile = some podb2 := by
      rw [htable, Function.update_of_ne hne.symm, hentry]
    have hname3 : s₃.strings podb2.name = some destfile := by
      rw [hstrings podb2.name (Or.inl ?_)]
      · exact hname2
      · intro heq
        rw [heq, hname1] at hname2
        exact hne (Option.some.inj hname2)
    obtain ⟨s₄, hdelete', -, htable', -⟩ := hwell.dbDelete_released hentry3 hname3
    refine ⟨s₃, s₄, hdelete, hdelete', funext fun name => ?_⟩
    rw [htable', htable, hdest.released, hsrc.released, hdest.table, hsrc.table]
    simp only [Function.update_apply]
    by_cases hd : name = destfile
    · rw [if_pos hd, if_neg hne.symm, hd]
    · rw [if_neg hd]
      by_cases hs : name = srcfile
      · rw [if_pos hs, hs]
      · rw [if_neg hs, if_neg hd, if_neg hs]

/-- **Without the calls of `DBDelete` a reference is left over.** -/
theorem table_of_acquired (hsrc : s.Acquired s₁ srcfile podb1)
    (hdest : s₁.Acquired s₂ destfile podb2) : s₂.table ≠ s.table := by
  intro heq
  have hcount : s₂.count destfile = s.count destfile := by rw [count, heq, count]
  have hentry : s₂.count destfile = podb2.counter := by
    rw [count, hdest.table, Function.update_self]
  have hfirst : s.count destfile ≤ s₁.count destfile := by
    rw [count, count, hsrc.table]
    by_cases hsame : destfile = srcfile
    · subst hsame
      rw [Function.update_self]
      have hcounter := hsrc.counter
      rw [count] at hcounter
      simp only
      omega
    · rw [Function.update_of_ne hsame]
  have hsecond := hdest.counter
  omega

/-- A call that returns has got both handles. -/
theorem acquired_of_transfer {s t : DBTable} (h : s.WellFormed) {f : Transfer}
    {srcfile destfile : dbName} {r : TransferResults} {result : Int}
    (hcall : s.transfer srcfile destfile r f = some (t, result)) :
    ∃ s₁ s₂ podb1 podb2, s.dbCreate srcfile r.srcOpen = (s₁, some podb1) ∧
      s₁.dbCreate destfile r.destOpen = (s₂, some podb2) ∧
      s.Acquired s₁ srcfile podb1 ∧ s₁.Acquired s₂ destfile podb2 := by
  have hhandles : ∃ podb1 podb2, (s.dbCreate srcfile r.srcOpen).2 = some podb1 ∧
      ((s.dbCreate srcfile r.srcOpen).1.dbCreate destfile r.destOpen).2 = some podb2 := by
    cases f with
    | splitByKey =>
        obtain ⟨podb1, h1, hrest⟩ := Option.bind_eq_some_iff.mp hcall
        obtain ⟨podb2, h2, -⟩ := Option.bind_eq_some_iff.mp hrest
        exact ⟨podb1, podb2, h1, h2⟩
    | merge2Files =>
        obtain ⟨podb1, h1, hrest⟩ := Option.bind_eq_some_iff.mp hcall
        obtain ⟨podb2, h2, -⟩ := Option.bind_eq_some_iff.mp hrest
        exact ⟨podb1, podb2, h1, h2⟩
  obtain ⟨podb1, podb2, h1, h2⟩ := hhandles
  have hsrc : s.dbCreate srcfile r.srcOpen = (_, some podb1) := Prod.ext rfl h1
  have hdest : (s.dbCreate srcfile r.srcOpen).1.dbCreate destfile r.destOpen =
      (_, some podb2) := Prod.ext rfl h2
  have hacquired := h.acquired hsrc
  exact ⟨_, _, podb1, podb2, hsrc, hdest, hacquired, hacquired.wellFormed.acquired hdest⟩

/-- **The table has the same entries and counters after the call exactly when the call is a
split that has started to iterate**: a merge, and a split that fails, leave references
over. -/
theorem neutral_iff (s : DBTable) (h : s.WellFormed) (f : Transfer) (srcfile destfile : dbName)
    (r : TransferResults) (t : DBTable) (result : Int)
    (hcall : s.transfer srcfile destfile r f = some (t, result)) :
    t.table = s.table ↔ f = .splitByKey ∧ r.iterinit = true := by
  obtain ⟨s₁, s₂, podb1, podb2, hcreate, hcreate', hsrc, hdest⟩ :=
    acquired_of_transfer h hcall
  cases f with
  | splitByKey =>
      simp only [transfer, splitByKey, hcreate, hcreate', Option.bind_some] at hcall
      cases hiter : r.iterinit with
      | true =>
          rw [hiter, if_pos rfl] at hcall
          obtain ⟨s₃, s₄, hdelete, hdelete', htable⟩ := table_of_deleted hsrc hdest
          rw [hdelete, Option.bind_some, hdelete', Option.map_some] at hcall
          obtain ⟨rfl, -⟩ := Prod.mk.inj (Option.some.inj hcall)
          exact iff_of_true htable ⟨rfl, rfl⟩
      | false =>
          rw [hiter, if_neg Bool.false_ne_true] at hcall
          obtain ⟨rfl, -⟩ := Prod.mk.inj (Option.some.inj hcall)
          exact iff_of_false (table_of_acquired hsrc hdest) fun hsplit => by cases hsplit.2
  | merge2Files =>
      simp only [transfer, merge2Files, hcreate, hcreate', Option.bind_some] at hcall
      have ht : t = s₂ := by
        split at hcall
        · exact (Prod.mk.inj (Option.some.inj hcall)).1.symm
        · exact (Prod.mk.inj (Option.some.inj hcall)).1.symm
      rw [ht]
      exact iff_of_false (table_of_acquired hsrc hdest) fun hsplit => by cases hsplit.1

/-- A split of a file that two clients have open, into a new one. -/
theorem neutral_iff_open :
    ∃ s t, run step init [.create [97] true, .create [97] true] = some s ∧
      s.transfer [97] [98] ⟨true, true, true⟩ .splitByKey = some (t, SUCCESS) ∧
      t.table = s.table := by
  have hmap : ((run step init [.create [97] true, .create [97] true]).bind fun s =>
      (s.transfer [97] [98] ⟨true, true, true⟩ .splitByKey).map fun r => r.2) =
      some SUCCESS := by decide
  obtain ⟨s, hrun, hsplit⟩ := Option.bind_eq_some_iff.mp hmap
  obtain ⟨⟨t, result⟩, hcall, rfl⟩ := Option.map_eq_some_iff.mp hsplit
  have hinv : s.TableInv := run_invariant TableInv (fun _ _ _ => TableInv.step) hrun tableInv_init
  exact ⟨s, t, hrun, hcall,
    (neutral_iff s hinv.wellFormed .splitByKey [97] [98] _ t SUCCESS hcall).mpr ⟨rfl, rfl⟩⟩

/-- A client has the source open: a merge that succeeds, and a split that fails, leave one
more reference to it and one to the destination. -/
theorem references_left_over :
    (init.dbCreate [97] true).1.count [97] = 1 ∧ (init.dbCreate [97] true).1.count [98] = 0 ∧
    (((init.dbCreate [97] true).1.transfer [97] [98] ⟨true, true, true⟩ .merge2Files).map
      fun r => (r.2, r.1.count [97], r.1.count [98])) = some (SUCCESS, 2, 1) ∧
    (((init.dbCreate [97] true).1.transfer [97] [98] ⟨true, true, false⟩ .splitByKey).map
      fun r => (r.2, r.1.count [97], r.1.count [98])) = some (FAILURE, 2, 1) := by
  decide

end Transfers

end DBTable
end DistributedDB
