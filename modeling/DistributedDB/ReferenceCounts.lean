import DistributedDB.Library.Run

/-!
# The open databases

The table of open databases in `tcDB.c`: `DBCreate` and `DBDelete` with `GetOpenedDB`,
`AddOpenedDB` and `DelOpenedDB`, called one at a time.  A handle is a private copy of the
table's entry, with the counter of that time; all copies share the string of the name,
which is allocated by `strdup` and freed with the entry.  The table is created by the first
`DBCreate`.

A read of a freed string, or of an entry that is not there, has no result.  A handle has
at most as many copies as an `int` counts.

**Results.**
* `DBTable.step`: the calls.
* `DBTable.TableInv`: entries and live handles; each call keeps it.
* `DBTable.liveNames`: the names of the live handles, by the calls alone.
* `DBTable.references_exact`: entries and counters are exact in every state of every run,
  and a Tokyo Cabinet handle is closed once, when it has no live handle any more.
-/

namespace DistributedDB

open Run

/-- The bytes of a name, without the NUL. -/
abbrev dbName := List UInt8

/-- `OpenedDB`, with the address of the name and the `TCHDB`.  The counter, an `int` of the
source, has its value as long as fewer than 2^31 handles are in use. -/
structure OpenedDB where
  name : Nat
  hdb : Nat
  counter : Int
deriving DecidableEq, Repr

structure DBTable where
  /-- The entries by name; `NULL` before the first `DBCreate`. -/
  mdb : Option (dbName → Option OpenedDB)
  /-- The strings that are allocated. -/
  strings : Nat → Option dbName
  nextString : Nat
  nextHdb : Nat
  /-- The handles that `DBCreate` has returned and `DBDelete` has not had. -/
  handles : List OpenedDB
  /-- The handles with which `tchdbopen` has succeeded. -/
  opened : List Nat
  /-- The handles of the calls of `tchdbclose`. -/
  closed : List Nat

inductive DBCall where
  /-- `DBCreate`; `ok` is what `tchdbopen` would return. -/
  | create (name : dbName) (ok : Bool)
  /-- `DBDelete` on the live handle of this index. -/
  | delete (i : Nat)
deriving DecidableEq, Repr

namespace DBTable

def init : DBTable where
  mdb := none
  strings := fun _ => none
  nextString := 0
  nextHdb := 0
  handles := []
  opened := []
  closed := []

def table (s : DBTable) : dbName → Option OpenedDB :=
  s.mdb.getD fun _ => none

/-- `GetOpenedDB`. -/
def getOpenedDB (s : DBTable) (name : dbName) : DBTable × Option OpenedDB :=
  match s.mdb with
  | none => ({ s with mdb := some fun _ => none }, none)
  | some mdb =>
      match mdb name with
      | none => (s, none)
      | some podb =>
          let podb := { podb with counter := podb.counter + 1 }
          ({ s with mdb := some (Function.update mdb name (some podb)) }, some podb)

/-- `AddOpenedDB`. -/
def addOpenedDB (s : DBTable) (name : dbName) (hdb : Nat) : DBTable × OpenedDB :=
  let podb : OpenedDB := ⟨s.nextString, hdb, 1⟩
  ({ s with
      mdb := s.mdb.map fun mdb => Function.update mdb name (some podb)
      strings := Function.update s.strings s.nextString (some name)
      nextString := s.nextString + 1 },
    podb)

/-- `DBCreate`. -/
def dbCreate (s : DBTable) (name : dbName) (ok : Bool) : DBTable × Option OpenedDB :=
  match s.getOpenedDB name with
  | (s, some podb) => (s, some podb)
  | (s, none) =>
      let hdb := s.nextHdb
      let s := { s with nextHdb := hdb + 1 }
      if ok then
        let r := { s with opened := s.opened ++ [hdb] }.addOpenedDB name hdb
        (r.1, some r.2)
      else (s, none)

/-- `DelOpenedDB`. -/
def delOpenedDB (s : DBTable) (podb : OpenedDB) : Option (DBTable × Int) :=
  s.mdb.bind fun mdb =>
  (s.strings podb.name).bind fun name =>
  (mdb name).bind fun podb =>
  (s.strings podb.name).map fun name =>
    let podb := { podb with counter := podb.counter - 1 }
    if podb.counter = 0 then
      ({ s with
          mdb := some (Function.update mdb name none)
          strings := Function.update s.strings podb.name none },
        1)
    else ({ s with mdb := some (Function.update mdb name (some podb)) }, 0)

/-- `DBDelete`. -/
def dbDelete (s : DBTable) (podb : OpenedDB) : Option DBTable :=
  (s.delOpenedDB podb).map fun r =>
    if r.2 = 0 then r.1 else { r.1 with closed := r.1.closed ++ [podb.hdb] }

/-- One call; `none` when there is no such handle, or a freed string is read. -/
def step (s : DBTable) : DBCall → Option DBTable
  | .create name ok =>
      let r := s.dbCreate name ok
      some { r.1 with handles := r.1.handles ++ r.2.toList }
  | .delete i =>
      s.handles[i]?.bind fun podb =>
        (s.dbDelete podb).map fun s => { s with handles := s.handles.eraseIdx i }

/-- The live handles that share a string. -/
def references (s : DBTable) (string : Nat) : Nat :=
  s.handles.countP fun h => h.name = string

/-- What is true of the entry of a name. -/
structure EntryInv (s : DBTable) (name : dbName) (e : OpenedDB) : Prop where
  string : s.strings e.name = some name
  counter : e.counter = s.references e.name
  opened : e.hdb ∈ s.opened
  open' : e.hdb ∉ s.closed

/-- The live handle is a copy of an entry. -/
def Cached (s : DBTable) (h : OpenedDB) : Prop :=
  ∃ name e, s.table name = some e ∧ e.name = h.name ∧ e.hdb = h.hdb

/-- **The invariant of the table.** -/
structure TableInv (s : DBTable) : Prop where
  entries : ∀ name e, s.table name = some e → s.EntryInv name e
  cached : ∀ h ∈ s.handles, s.Cached h
  referenced : ∀ name e, s.table name = some e → ∃ h ∈ s.handles, h.name = e.name
  distinct : ∀ name name' e e', s.table name = some e → s.table name' = some e' →
    e.hdb = e'.hdb → name = name'
  closed : s.closed.Nodup
  tracked : ∀ hdb, hdb ∈ s.opened ↔ hdb ∈ s.closed ∨
      ∃ name e, s.table name = some e ∧ e.hdb = hdb
  strings_lt : ∀ p, s.nextString ≤ p → s.strings p = none
  opened_lt : ∀ hdb ∈ s.opened, hdb < s.nextHdb

theorem tableInv_init : init.TableInv where
  entries := nofun
  cached := nofun
  referenced := nofun
  distinct := nofun
  closed := List.nodup_nil
  tracked := fun hdb => iff_of_false List.not_mem_nil (by rintro (h | ⟨_, _, h, _⟩) <;> cases h)
  strings_lt := fun _ _ => rfl
  opened_lt := nofun

section Calls

variable {s : DBTable} {name : dbName} {e : OpenedDB}

theorem dbCreate_cached (h : s.table name = some e) (ok : Bool) :
    s.dbCreate name ok =
      ({ s with
          mdb := some (Function.update s.table name (some { e with counter := e.counter + 1 })) },
        some { e with counter := e.counter + 1 }) := by
  cases hmdb : s.mdb with
  | none =>
      rw [table, hmdb] at h
      cases h
  | some mdb =>
      rw [table, hmdb] at h
      simp only [Option.getD_some] at h
      simp only [dbCreate, getOpenedDB, hmdb, h, table, Option.getD_some]

theorem dbCreate_failed (h : s.table name = none) :
    s.dbCreate name false =
      ({ s with mdb := some s.table, nextHdb := s.nextHdb + 1 }, none) := by
  cases hmdb : s.mdb with
  | none => simp only [dbCreate, getOpenedDB, hmdb, table]; rfl
  | some mdb =>
      rw [table, hmdb] at h
      simp only [Option.getD_some] at h
      simp only [dbCreate, getOpenedDB, hmdb, h, table, Option.getD_some]
      rfl

theorem dbCreate_new (h : s.table name = none) :
    s.dbCreate name true =
      ({ s with
          mdb := some (Function.update s.table name (some ⟨s.nextString, s.nextHdb, 1⟩))
          strings := Function.update s.strings s.nextString (some name)
          nextString := s.nextString + 1
          nextHdb := s.nextHdb + 1
          opened := s.opened ++ [s.nextHdb] },
        some ⟨s.nextString, s.nextHdb, 1⟩) := by
  cases hmdb : s.mdb with
  | none => simp only [dbCreate, getOpenedDB, hmdb, table, addOpenedDB]; rfl
  | some mdb =>
      rw [table, hmdb] at h
      simp only [Option.getD_some] at h
      simp only [dbCreate, getOpenedDB, hmdb, h, table, Option.getD_some, addOpenedDB]
      rfl

/-- `DBDelete` on a copy of an entry. -/
theorem dbDelete_eq {podb : OpenedDB} (h : s.table name = some e)
    (hstring : s.strings podb.name = some name) (hstring' : s.strings e.name = some name) :
    s.dbDelete podb = some (
      if e.counter - 1 = 0 then
        { s with
          mdb := some (Function.update s.table name none)
          strings := Function.update s.strings e.name none
          closed := s.closed ++ [podb.hdb] }
      else
        { s with
          mdb := some (Function.update s.table name
            (some { e with counter := e.counter - 1 })) }) := by
  cases hmdb : s.mdb with
  | none =>
      rw [table, hmdb] at h
      cases h
  | some mdb =>
      rw [table, hmdb] at h
      simp only [Option.getD_some] at h
      simp only [dbDelete, delOpenedDB, hmdb, hstring, h, hstring', Option.bind_some,
        Option.map_some, table, Option.getD_some]
      split <;> rfl

end Calls

/-- The entries of a table in which one is changed. -/
theorem update_eq_some_iff {table : dbName → Option OpenedDB} {name name' : dbName}
    {entry : Option OpenedDB} {e : OpenedDB} :
    Function.update table name entry name' = some e ↔
      name' = name ∧ entry = some e ∨ name' ≠ name ∧ table name' = some e := by
  by_cases heq : name' = name
  · subst heq
    simp
  · simp [heq]

section Steps

variable {s : DBTable} {name : dbName} {e : OpenedDB}

/-- Two names do not share a string. -/
theorem TableInv.name_inj (h : s.TableInv) {name' : dbName} {e' : OpenedDB}
    (he : s.table name = some e) (he' : s.table name' = some e') (heq : e.name = e'.name) :
    name = name' := by
  have hstring := (h.entries name e he).string
  rw [heq, (h.entries name' e' he').string] at hstring
  exact (Option.some.inj hstring).symm

theorem TableInv.references_pos (h : s.TableInv) (he : s.table name = some e) :
    0 < s.references e.name := by
  obtain ⟨h', hmem, heq⟩ := h.referenced name e he
  exact List.countP_pos_iff.mpr ⟨h', hmem, by simpa using heq⟩

/-- An entry gets another counter, and its number of copies changes accordingly. -/
theorem TableInv.recount (h : s.TableInv) (he : s.table name = some e) (c : Int)
    (handles : List OpenedDB) (hcached : ∀ h' ∈ handles, s.Cached h')
    (hcount : c = handles.countP fun h' => h'.name = e.name) (hpos : 0 < c)
    (hothers : ∀ p, p ≠ e.name → (handles.countP fun h' => h'.name = p) = s.references p) :
    ({ s with
      mdb := some (Function.update s.table name (some { e with counter := c }))
      handles := handles } : DBTable).TableInv := by
  have hold : ∀ name' e', Function.update s.table name (some { e with counter := c }) name' =
      some e' → ∃ e'', s.table name' = some e'' ∧ e''.name = e'.name ∧ e''.hdb = e'.hdb ∧
        e'.counter = handles.countP fun h' => h'.name = e'.name := by
    intro name' e' he'
    rcases update_eq_some_iff.mp he' with ⟨rfl, hnew⟩ | ⟨hne, hold⟩
    · obtain rfl := Option.some.inj hnew
      exact ⟨e, he, rfl, rfl, hcount⟩
    · have hname : e'.name ≠ e.name := fun heq => hne (h.name_inj hold he heq)
      exact ⟨e', hold, rfl, rfl, by rw [(h.entries name' e' hold).counter, hothers _ hname]⟩
  have hnew : ∀ name' e', s.table name' = some e' → ∃ e'', Function.update s.table name
      (some { e with counter := c }) name' = some e'' ∧ e''.name = e'.name ∧
        e''.hdb = e'.hdb := by
    intro name' e' he'
    by_cases heq : name' = name
    · subst heq
      obtain rfl := Option.some.inj (he.symm.trans he')
      exact ⟨_, update_eq_some_iff.mpr (Or.inl ⟨rfl, rfl⟩), rfl, rfl⟩
    · exact ⟨e', update_eq_some_iff.mpr (Or.inr ⟨heq, he'⟩), rfl, rfl⟩
  constructor
  case entries =>
    intro name' e' he'
    obtain ⟨e'', he'', hname, hhdb, hcounter⟩ := hold name' e' he'
    obtain ⟨hstring, -, hopened, hopen⟩ := h.entries name' e'' he''
    exact ⟨hname ▸ hstring, hcounter, hhdb ▸ hopened, hhdb ▸ hopen⟩
  case cached =>
    intro h' hh'
    obtain ⟨name', e', he', hname, hhdb⟩ := hcached h' hh'
    obtain ⟨e'', he'', hname', hhdb'⟩ := hnew name' e' he'
    exact ⟨name', e'', he'', hname'.trans hname, hhdb'.trans hhdb⟩
  case referenced =>
    intro name' e' he'
    obtain ⟨e'', he'', hname, -, hcounter⟩ := hold name' e' he'
    have hsome : 0 < handles.countP fun h' => h'.name = e'.name := by
      by_cases heq : e'.name = e.name
      · rw [heq]
        omega
      · rw [hothers _ heq, ← hname]
        exact h.references_pos he''
    obtain ⟨h', hmem, heq⟩ := List.countP_pos_iff.mp hsome
    exact ⟨h', hmem, by simpa using heq⟩
  case distinct =>
    intro name₁ name₂ e₁ e₂ he₁ he₂ heq
    obtain ⟨e₁', he₁', -, hhdb₁, -⟩ := hold name₁ e₁ he₁
    obtain ⟨e₂', he₂', -, hhdb₂, -⟩ := hold name₂ e₂ he₂
    exact h.distinct name₁ name₂ e₁' e₂' he₁' he₂' (by rw [hhdb₁, heq, hhdb₂])
  case closed => exact h.closed
  case tracked =>
    intro hdb
    refine (h.tracked hdb).trans (or_congr_right ⟨?_, ?_⟩)
    · rintro ⟨name', e', he', rfl⟩
      obtain ⟨e'', he'', -, hhdb⟩ := hnew name' e' he'
      exact ⟨name', e'', he'', hhdb⟩
    · rintro ⟨name', e', he', rfl⟩
      obtain ⟨e'', he'', -, hhdb, -⟩ := hold name' e' he'
      exact ⟨name', e'', he'', hhdb⟩
  case strings_lt => exact h.strings_lt
  case opened_lt => exact h.opened_lt

/-- No entry has the next string or the next `TCHDB`. -/
theorem TableInv.fresh (h : s.TableInv) (he : s.table name = some e) :
    e.name ≠ s.nextString ∧ e.hdb ≠ s.nextHdb := by
  obtain ⟨hstring, -, hopened, -⟩ := h.entries name e he
  constructor
  · intro heq
    rw [heq, h.strings_lt _ le_rfl] at hstring
    cases hstring
  · exact (h.opened_lt _ hopened).ne

theorem TableInv.references_nextString (h : s.TableInv) : s.references s.nextString = 0 := by
  refine List.countP_eq_zero.mpr fun h' hh' => ?_
  obtain ⟨name, e, he, hname, -⟩ := h.cached h' hh'
  have hne := (h.fresh he).1
  rw [hname] at hne
  simpa using hne

/-- `DBCreate` opens a database that has no entry. -/
theorem TableInv.create_new (h : s.TableInv) (hnone : s.table name = none) :
    ({ s with
      mdb := some (Function.update s.table name (some ⟨s.nextString, s.nextHdb, 1⟩))
      strings := Function.update s.strings s.nextString (some name)
      nextString := s.nextString + 1
      nextHdb := s.nextHdb + 1
      handles := s.handles ++ [⟨s.nextString, s.nextHdb, 1⟩]
      opened := s.opened ++ [s.nextHdb] } : DBTable).TableInv := by
  have hunclosed : s.nextHdb ∉ s.closed := fun hmem =>
    lt_irrefl _ (h.opened_lt _ ((h.tracked _).mpr (Or.inl hmem)))
  have hcases : ∀ name' e', Function.update s.table name
      (some ⟨s.nextString, s.nextHdb, 1⟩) name' = some e' →
      (name' = name ∧ e' = ⟨s.nextString, s.nextHdb, 1⟩) ∨ s.table name' = some e' := by
    intro name' e' he'
    rcases update_eq_some_iff.mp he' with ⟨heq, hnew⟩ | ⟨-, hold⟩
    · exact Or.inl ⟨heq, (Option.some.inj hnew).symm⟩
    · exact Or.inr hold
  have hkept : ∀ name' e', s.table name' = some e' → Function.update s.table name
      (some ⟨s.nextString, s.nextHdb, 1⟩) name' = some e' := by
    intro name' e' he'
    refine update_eq_some_iff.mpr (Or.inr ⟨?_, he'⟩)
    rintro rfl
    rw [hnone] at he'
    cases he'
  constructor
  case entries =>
    intro name' e' he'
    rcases hcases name' e' he' with ⟨rfl, rfl⟩ | hold
    · refine ⟨Function.update_self .., ?_, by simp, hunclosed⟩
      simp only [references, List.countP_append]
      rw [show s.handles.countP (fun h' => h'.name = s.nextString) = 0 from
        h.references_nextString]
      simp
    · obtain ⟨hstring, hcount, hopened, hopen⟩ := h.entries name' e' hold
      have hne := (h.fresh hold).1
      refine ⟨(Function.update_of_ne hne _ _).trans hstring, ?_,
        List.mem_append_left _ hopened, hopen⟩
      rw [hcount, references, references, List.countP_append]
      simp [hne.symm]
  case cached =>
    intro h' hh'
    rcases List.mem_append.mp hh' with hmem | hmem
    · obtain ⟨name', e', he', hname, hhdb⟩ := h.cached h' hmem
      exact ⟨name', e', hkept name' e' he', hname, hhdb⟩
    · rw [List.mem_singleton.mp hmem]
      exact ⟨name, _, Function.update_self .., rfl, rfl⟩
  case referenced =>
    intro name' e' he'
    rcases hcases name' e' he' with ⟨-, rfl⟩ | hold
    · exact ⟨_, List.mem_append_right _ (List.mem_singleton_self _), rfl⟩
    · obtain ⟨h', hmem, heq⟩ := h.referenced name' e' hold
      exact ⟨h', List.mem_append_left _ hmem, heq⟩
  case distinct =>
    intro name₁ name₂ e₁ e₂ he₁ he₂ heq
    rcases hcases name₁ e₁ he₁ with ⟨rfl, rfl⟩ | hold₁ <;>
      rcases hcases name₂ e₂ he₂ with ⟨rfl, rfl⟩ | hold₂
    · rfl
    · exact absurd heq.symm (h.fresh hold₂).2
    · exact absurd heq (h.fresh hold₁).2
    · exact h.distinct name₁ name₂ e₁ e₂ hold₁ hold₂ heq
  case closed => exact h.closed
  case tracked =>
    intro hdb
    rw [List.mem_append, List.mem_singleton, h.tracked hdb, or_assoc]
    refine or_congr_right ⟨?_, ?_⟩
    · rintro (⟨name', e', he', rfl⟩ | rfl)
      · exact ⟨name', e', hkept name' e' he', rfl⟩
      · exact ⟨name, _, Function.update_self .., rfl⟩
    · rintro ⟨name', e', he', rfl⟩
      rcases hcases name' e' he' with ⟨-, rfl⟩ | hold
      · exact Or.inr rfl
      · exact Or.inl ⟨name', e', hold, rfl⟩
  case strings_lt =>
    intro p hp
    have hne : p ≠ s.nextString := by
      have : s.nextString + 1 ≤ p := hp
      omega
    exact (Function.update_of_ne hne _ _).trans
      (h.strings_lt p ((Nat.le_succ _).trans hp))
  case opened_lt =>
    intro hdb hmem
    rcases List.mem_append.mp hmem with hold | hnew
    · exact (h.opened_lt hdb hold).trans (Nat.lt_succ_self _)
    · rw [List.mem_singleton.mp hnew]
      exact Nat.lt_succ_self _

/-- `DBDelete` has the last copy of an entry, which is the only one in `handles`. -/
theorem TableInv.delete_last (h : s.TableInv) (he : s.table name = some e)
    (handles : List OpenedDB) (hsub : ∀ h' ∈ handles, h' ∈ s.handles ∧ h'.name ≠ e.name)
    (hothers : ∀ p, p ≠ e.name → (handles.countP fun h' => h'.name = p) = s.references p) :
    ({ s with
      mdb := some (Function.update s.table name none)
      strings := Function.update s.strings e.name none
      handles := handles
      closed := s.closed ++ [e.hdb] } : DBTable).TableInv := by
  have hentry := h.entries name e he
  have hcases : ∀ name' e', Function.update s.table name none name' = some e' →
      name' ≠ name ∧ s.table name' = some e' := by
    intro name' e' he'
    rcases update_eq_some_iff.mp he' with ⟨-, hnew⟩ | hold
    · cases hnew
    · exact hold
  have hkept : ∀ name' e', s.table name' = some e' → name' ≠ name →
      Function.update s.table name none name' = some e' :=
    fun name' e' he' hne => update_eq_some_iff.mpr (Or.inr ⟨hne, he'⟩)
  constructor
  case entries =>
    intro name' e' he'
    obtain ⟨hne, hold⟩ := hcases name' e' he'
    obtain ⟨hstring, hcount, hopened, hopen⟩ := h.entries name' e' hold
    have hname : e'.name ≠ e.name := fun heq => hne (h.name_inj hold he heq)
    refine ⟨(Function.update_of_ne hname _ _).trans hstring, ?_, hopened, fun hmem => ?_⟩
    · exact hcount.trans (congrArg Nat.cast (hothers _ hname)).symm
    · rcases List.mem_append.mp hmem with hclosed | hlast
      · exact hopen hclosed
      · exact hne (h.distinct name' name e' e hold he (List.mem_singleton.mp hlast))
  case cached =>
    intro h' hh'
    obtain ⟨hmem, hname⟩ := hsub h' hh'
    obtain ⟨name', e', he', heq, hhdb⟩ := h.cached h' hmem
    refine ⟨name', e', hkept name' e' he' ?_, heq, hhdb⟩
    rintro rfl
    rw [he] at he'
    obtain rfl := Option.some.inj he'
    exact hname heq.symm
  case referenced =>
    intro name' e' he'
    obtain ⟨hne, hold⟩ := hcases name' e' he'
    have hname : e'.name ≠ e.name := fun heq => hne (h.name_inj hold he heq)
    have hsome := h.references_pos hold
    rw [← hothers _ hname] at hsome
    obtain ⟨h', hmem, heq⟩ := List.countP_pos_iff.mp hsome
    exact ⟨h', hmem, by simpa using heq⟩
  case distinct =>
    intro name₁ name₂ e₁ e₂ he₁ he₂ heq
    exact h.distinct name₁ name₂ e₁ e₂ (hcases name₁ e₁ he₁).2
      (hcases name₂ e₂ he₂).2 heq
  case closed =>
    refine List.nodup_append.mpr ⟨h.closed, List.nodup_singleton _, ?_⟩
    intro a ha b hb heq
    rw [List.mem_singleton.mp hb] at heq
    exact hentry.open' (heq ▸ ha)
  case tracked =>
    intro hdb
    rw [h.tracked hdb, List.mem_append, List.mem_singleton, or_assoc]
    refine or_congr_right ⟨?_, ?_⟩
    · rintro ⟨name', e', he', rfl⟩
      by_cases hne : name' = name
      · subst hne
        rw [Option.some.inj (he.symm.trans he')]
        exact Or.inl rfl
      · exact Or.inr ⟨name', e', hkept name' e' he' hne, rfl⟩
    · rintro (rfl | ⟨name', e', he', rfl⟩)
      · exact ⟨name, e, he, rfl⟩
      · exact ⟨name', e', (hcases name' e' he').2, rfl⟩
  case strings_lt =>
    intro p hp
    simp only [Function.update_apply]
    split
    case isTrue => rfl
    case isFalse => exact h.strings_lt p hp
  case opened_lt => exact h.opened_lt

/-- `tchdbopen` fails for a database that has no entry. -/
theorem TableInv.create_failed (h : s.TableInv) :
    ({ s with mdb := some s.table, nextHdb := s.nextHdb + 1 } : DBTable).TableInv where
  entries := fun name e he =>
    have hentry := h.entries name e he
    ⟨hentry.string, hentry.counter, hentry.opened, hentry.open'⟩
  cached := h.cached
  referenced := h.referenced
  distinct := h.distinct
  closed := h.closed
  tracked := h.tracked
  strings_lt := h.strings_lt
  opened_lt := fun hdb hmem => (h.opened_lt hdb hmem).trans (Nat.lt_succ_self _)

end Steps

/-- The copies after an index is erased. -/
theorem countP_eraseIdx {s : DBTable} {i : Nat} {podb : OpenedDB} (hi : s.handles[i]? = some podb)
    (p : Nat) :
    s.references p =
      ((s.handles.eraseIdx i).countP fun h => h.name = p) + if podb.name = p then 1 else 0 := by
  obtain ⟨hlt, rfl⟩ := List.getElem?_eq_some_iff.mp hi
  have hperm := List.getElem_cons_eraseIdx_perm hlt
  rw [references, ← hperm.countP_eq, List.countP_cons]
  simp only [decide_eq_true_eq]

/-- No other live handle has the string of the last copy. -/
theorem TableInv.name_ne_of_last {s : DBTable} (h : s.TableInv) {i : Nat} {podb : OpenedDB}
    (hi : s.handles[i]? = some podb) {name : dbName} {e : OpenedDB} (hname : e.name = podb.name)
    (he : s.table name = some e) (hlast : e.counter - 1 = 0) {h' : OpenedDB}
    (hh' : h' ∈ s.handles.eraseIdx i) : h'.name ≠ e.name := by
  have hcount := countP_eraseIdx hi e.name
  have hcounter := (h.entries name e he).counter
  rw [if_pos hname.symm] at hcount
  have hnone : ((s.handles.eraseIdx i).countP fun h' => h'.name = e.name) = 0 := by omega
  simpa using List.countP_eq_zero.mp hnone h' hh'

/-- **Every call keeps the invariant.** -/
theorem TableInv.step {s s' : DBTable} {call : DBCall} (h : s.TableInv)
    (hstep : s.step call = some s') : s'.TableInv := by
  cases call with
  | create name ok =>
      obtain rfl := Option.some.inj hstep
      cases he : s.table name with
      | some e =>
          rw [dbCreate_cached he]
          have hcount := (h.entries name e he).counter
          refine h.recount he (e.counter + 1) (s.handles ++ _) ?_ ?_ ?_ ?_
          · intro h' hh'
            rcases List.mem_append.mp hh' with hmem | hmem
            · exact h.cached h' hmem
            · rw [Option.mem_toList.mp hmem |> Option.some.inj |>.symm]
              exact ⟨name, e, he, rfl, rfl⟩
          · rw [hcount, references, List.countP_append]
            simp
          · have hpos := h.references_pos he
            omega
          · intro p hp
            rw [references, List.countP_append]
            simp [hp.symm]
      | none =>
          cases ok with
          | true =>
              rw [dbCreate_new he]
              exact h.create_new he
          | false =>
              rw [dbCreate_failed he]
              simp only [Option.toList_none, List.append_nil]
              exact h.create_failed
  | delete i =>
      obtain ⟨podb, hi, hdelete⟩ := Option.bind_eq_some_iff.mp hstep
      obtain ⟨t, ht, rfl⟩ := Option.map_eq_some_iff.mp hdelete
      obtain ⟨name, e, he, hname, hhdb⟩ := h.cached podb (List.mem_of_getElem? hi)
      have hentry := h.entries name e he
      have hcount := countP_eraseIdx hi e.name
      rw [if_pos hname.symm] at hcount
      have hothers : ∀ p, p ≠ e.name →
          ((s.handles.eraseIdx i).countP fun h' => h'.name = p) = s.references p := by
        intro p hp
        rw [countP_eraseIdx hi p, if_neg (by rw [← hname]; exact hp.symm), Nat.add_zero]
      have hcounter := hentry.counter
      rw [dbDelete_eq he (hname ▸ hentry.string) hentry.string] at ht
      obtain rfl := Option.some.inj ht
      split
      case isTrue hlast =>
          rw [← hhdb]
          refine h.delete_last he (s.handles.eraseIdx i) (fun h' hh' => ?_) hothers
          exact ⟨List.mem_of_mem_eraseIdx hh', h.name_ne_of_last hi hname he hlast hh'⟩
      case isFalse hmore =>
          refine h.recount he (e.counter - 1) (s.handles.eraseIdx i)
            (fun h' hh' => h.cached h' (List.mem_of_mem_eraseIdx hh')) ?_ ?_ hothers
          · omega
          · have hpos := h.references_pos he
            omega

/-- The name of a handle. -/
def HasName (s : DBTable) (name : dbName) (h : OpenedDB) : Prop :=
  s.strings h.name = some name

instance (s : DBTable) (name : dbName) : DecidablePred (s.HasName name) := fun h =>
  inferInstanceAs (Decidable (s.strings h.name = some name))

section Handles

variable {s : DBTable} {name : dbName} {e : OpenedDB}

/-- The handles of a name are the copies of its entry. -/
theorem TableInv.hasName_iff (h : s.TableInv) (he : s.table name = some e) {h' : OpenedDB}
    (hmem : h' ∈ s.handles) : s.HasName name h' ↔ h'.name = e.name := by
  constructor
  · intro hname
    obtain ⟨name', e', he', heq, -⟩ := h.cached h' hmem
    have hstring := (h.entries name' e' he').string
    rw [heq, hname] at hstring
    obtain rfl := Option.some.inj hstring
    rw [← heq, Option.some.inj (he.symm.trans he')]
  · intro heq
    rw [HasName, heq]
    exact (h.entries name e he).string

theorem TableInv.exists_entry (h : s.TableInv) {h' : OpenedDB} (hmem : h' ∈ s.handles)
    (hname : s.HasName name h') : ∃ e, s.table name = some e ∧ e.hdb = h'.hdb := by
  obtain ⟨name', e', he', heq, hhdb⟩ := h.cached h' hmem
  have hstring := (h.entries name' e' he').string
  rw [heq, hname] at hstring
  obtain rfl := Option.some.inj hstring
  exact ⟨e', he', hhdb⟩

/-- The counter of an entry is the number of live handles of its name. -/
theorem TableInv.counter_eq (h : s.TableInv) (he : s.table name = some e) :
    e.counter = s.handles.countP (s.HasName name) := by
  rw [(h.entries name e he).counter, references]
  congr 1
  refine List.countP_congr fun h' hmem => ?_
  simpa using (h.hasName_iff he hmem).symm

theorem TableInv.delete_isSome (h : s.TableInv) {i : Nat} (hi : i < s.handles.length) :
    (s.step (.delete i)).isSome := by
  obtain ⟨name, e, he, hname, -⟩ := h.cached _ (List.getElem_mem hi)
  have hstring := (h.entries name e he).string
  rw [DBTable.step, List.getElem?_eq_getElem hi, Option.bind_some,
    dbDelete_eq he (hname ▸ hstring) hstring]
  rfl

theorem handles_dbCreate (ok : Bool) : (s.dbCreate name ok).1.handles = s.handles := by
  cases he : s.table name with
  | some e => rw [dbCreate_cached he]
  | none =>
      cases ok with
      | false => rw [dbCreate_failed he]
      | true => rw [dbCreate_new he]

/-- A string stays when `DBCreate` is called. -/
theorem TableInv.strings_dbCreate (h : s.TableInv) {p : Nat} {v : dbName}
    (hp : s.strings p = some v) (ok : Bool) :
    (s.dbCreate name ok).1.strings p = some v := by
  cases he : s.table name with
  | some e => rwa [dbCreate_cached he]
  | none =>
      cases ok with
      | false => rwa [dbCreate_failed he]
      | true =>
          have hne : p ≠ s.nextString := by
            rintro rfl
            rw [h.strings_lt _ le_rfl] at hp
            cases hp
          rw [dbCreate_new he]
          exact (Function.update_of_ne hne _ _).trans hp

/-- `DBCreate` returns a handle of the name. -/
theorem TableInv.hasName_dbCreate (h : s.TableInv) {ok : Bool} {podb : OpenedDB}
    (hr : (s.dbCreate name ok).2 = some podb) : (s.dbCreate name ok).1.HasName name podb := by
  cases he : s.table name with
  | some e =>
      rw [dbCreate_cached he] at hr ⊢
      rw [← Option.some.inj hr]
      exact (h.entries name e he).string
  | none =>
      cases ok with
      | false =>
          rw [dbCreate_failed he] at hr
          cases hr
      | true =>
          rw [dbCreate_new he] at hr ⊢
          rw [← Option.some.inj hr]
          exact Function.update_self ..

theorem dbCreate_eq_none (he : s.table name = none) : (s.dbCreate name false).2 = none := by
  rw [dbCreate_failed he]

/-- `DBDelete` with a live handle, which is not live any more. -/
theorem TableInv.dbDelete (h : s.TableInv) {podb : OpenedDB} (hmem : podb ∈ s.handles)
    {t : DBTable} (ht : s.dbDelete podb = some t) :
    t.handles = s.handles ∧ ({ t with handles := t.handles.erase podb } : DBTable).TableInv ∧
      ∀ h' ∈ s.handles.erase podb, ∀ name, s.HasName name h' → t.HasName name h' := by
  have hi := List.getElem?_idxOf hmem
  obtain ⟨name, e, he, hname, -⟩ := h.cached podb hmem
  have hstring := (h.entries name e he).string
  have heq := dbDelete_eq he (hname ▸ hstring) hstring
  have hhandles : t.handles = s.handles := by
    rw [heq] at ht
    rw [← Option.some.inj ht]
    split <;> rfl
  refine ⟨hhandles, ?_, fun h' hh' name' hname' => ?_⟩
  · have hstep : s.step (.delete (s.handles.idxOf podb)) =
        some { t with handles := t.handles.erase podb } := by
      rw [DBTable.step, hi, Option.bind_some, ht, Option.map_some, hhandles,
        List.eraseIdx_idxOf_eq_erase]
    exact h.step hstep
  · rw [heq] at ht
    rw [← Option.some.inj ht]
    split
    case isTrue hlast =>
        rw [← List.eraseIdx_idxOf_eq_erase] at hh'
        exact (Function.update_of_ne (h.name_ne_of_last hi hname he hlast hh') _ _).trans hname'
    case isFalse => exact hname'

/-- A handle that was opened is closed exactly when no live handle has it. -/
theorem TableInv.count_closed (h : s.TableInv) (hdb : Nat) :
    s.closed.count hdb =
      if hdb ∈ s.opened ∧ ∀ h' ∈ s.handles, h'.hdb ≠ hdb then 1 else 0 := by
  split
  case isTrue hopened =>
      rcases (h.tracked hdb).mp hopened.1 with hclosed | ⟨name, e, he, rfl⟩
      · exact List.count_eq_one_of_mem h.closed hclosed
      · obtain ⟨h', hmem, heq⟩ := h.referenced name e he
        obtain ⟨name', e', he', heq', hhdb⟩ := h.cached h' hmem
        obtain rfl := h.name_inj he' he (heq'.trans heq)
        rw [Option.some.inj (he.symm.trans he')] at hopened
        exact absurd hhdb.symm (hopened.2 h' hmem)
  case isFalse hlive =>
      refine List.count_eq_zero_of_not_mem fun hclosed => hlive ?_
      refine ⟨(h.tracked hdb).mpr (Or.inl hclosed), fun h' hmem heq => ?_⟩
      obtain ⟨name, e, he, -, hhdb⟩ := h.cached h' hmem
      exact (h.entries name e he).open' (hhdb.trans heq ▸ hclosed)

end Handles

/-- The names of the live handles, by the calls alone: `DBCreate` returns a handle if the
database is open or can be opened. -/
def liveNames (names : List dbName) : DBCall → List dbName
  | .create name ok => if name ∈ names ∨ ok then names ++ [name] else names
  | .delete i => names.eraseIdx i

/-- The strings of the live handles are these names. -/
def Names (s : DBTable) (names : List dbName) : Prop :=
  s.handles.map (fun h => s.strings h.name) = names.map some

section Names

variable {s s' : DBTable} {names : List dbName} {name : dbName}

theorem Names.mem_iff (hnames : s.Names names) :
    name ∈ names ↔ ∃ h ∈ s.handles, s.HasName name h := by
  rw [← List.mem_map_of_injective (Option.some_injective _), ← hnames, List.mem_map]
  rfl

theorem Names.count (hnames : s.Names names) :
    names.count name = s.handles.countP (s.HasName name) := by
  rw [← List.count_map_of_injective names some (Option.some_injective _), ← hnames, List.count,
    List.countP_map]
  refine List.countP_congr fun h _ => ?_
  simp only [Function.comp_apply, beq_iff_eq, decide_eq_true_eq]
  exact Iff.rfl

theorem TableInv.table_iff (h : s.TableInv) (hnames : s.Names names) :
    (∃ e, s.table name = some e) ↔ name ∈ names := by
  rw [hnames.mem_iff]
  constructor
  · rintro ⟨e, he⟩
    obtain ⟨h', hmem, heq⟩ := h.referenced name e he
    exact ⟨h', hmem, (h.hasName_iff he hmem).mpr heq⟩
  · rintro ⟨h', hmem, hname⟩
    obtain ⟨e, he, -⟩ := h.exists_entry hmem hname
    exact ⟨e, he⟩

/-- A string that none of the handles has is changed. -/
theorem map_update_string {handles : List OpenedDB} {p : Nat} (hp : ∀ h ∈ handles, h.name ≠ p)
    (v : Option dbName) :
    handles.map (fun h => Function.update s.strings p v h.name) =
      handles.map fun h => s.strings h.name :=
  List.map_congr_left fun h hmem => Function.update_of_ne (hp h hmem) _ _

/-- A call changes the names of the live handles as it should. -/
theorem Names.step {call : DBCall} (h : s.TableInv) (hnames : s.Names names)
    (hstep : s.step call = some s') : s'.Names (liveNames names call) := by
  cases call with
  | create name ok =>
      obtain rfl := Option.some.inj hstep
      have hiff : (∃ e, s.table name = some e) ↔ name ∈ names := h.table_iff hnames
      cases he : s.table name with
      | some e =>
          rw [liveNames, if_pos (Or.inl (hiff.mp ⟨e, he⟩)), dbCreate_cached he]
          simp only [Names, Option.toList_some, List.map_append, List.map_cons, List.map_nil]
          rw [(h.entries name e he).string, hnames]
      | none =>
          have hmem : name ∉ names := fun hmem => by
            obtain ⟨e, he'⟩ := hiff.mpr hmem
            rw [he] at he'
            cases he'
          cases ok with
          | true =>
              have hold : ∀ h' ∈ s.handles, h'.name ≠ s.nextString := by
                intro h' hh'
                simpa using List.countP_eq_zero.mp h.references_nextString h' hh'
              rw [liveNames, if_pos (Or.inr rfl), dbCreate_new he]
              simp only [Names, Option.toList_some, List.map_append, List.map_cons, List.map_nil,
                Function.update_self]
              rw [map_update_string hold, hnames]
          | false =>
              rw [liveNames, if_neg (by simp [hmem]), dbCreate_failed he]
              simp only [Names, Option.toList_none, List.append_nil]
              exact hnames
  | delete i =>
      obtain ⟨podb, hi, hdelete⟩ := Option.bind_eq_some_iff.mp hstep
      obtain ⟨t, ht, rfl⟩ := Option.map_eq_some_iff.mp hdelete
      obtain ⟨name, e, he, hname, -⟩ := h.cached podb (List.mem_of_getElem? hi)
      have hentry := h.entries name e he
      have hrest : (s.handles.eraseIdx i).map (fun h => s.strings h.name) =
          (names.eraseIdx i).map some := by
        rw [← List.eraseIdx_map, hnames, List.eraseIdx_map]
      rw [dbDelete_eq he (hname ▸ hentry.string) hentry.string] at ht
      obtain rfl := Option.some.inj ht
      split
      case isTrue hlast =>
          refine (map_update_string (fun h' hh' => ?_) none).trans hrest
          exact h.name_ne_of_last hi hname he hlast hh'
      case isFalse => exact hrest

end Names

/-- **Reference counts are exact**: after every sequence of `DBCreate` and `DBDelete` calls
the live handles have the names that the calls ask for; a name has an entry if and only if a
live handle has that name, and its counter is the number of these handles; they share one
`TCHDB`, which has been opened; a `TCHDB` has been closed once if it has been opened and no
live handle has it, else not at all; and `DBDelete` has a result for every live handle. -/
theorem references_exact (calls : List DBCall) (s : DBTable)
    (hrun : run step init calls = some s) :
    s.Names (calls.foldl liveNames []) ∧
      (∀ name, (∃ e, s.table name = some e) ↔ name ∈ calls.foldl liveNames []) ∧
      (∀ name e, s.table name = some e → e.counter = (calls.foldl liveNames []).count name) ∧
      (∀ name, ∀ h ∈ s.handles, ∀ h' ∈ s.handles, s.HasName name h →
        s.HasName name h' →
        h.hdb = h'.hdb) ∧
      (∀ h ∈ s.handles, h.hdb ∈ s.opened) ∧
      (∀ hdb, s.closed.count hdb =
        if hdb ∈ s.opened ∧ ∀ h ∈ s.handles, h.hdb ≠ hdb then 1 else 0) ∧
      ∀ i < s.handles.length, (s.step (.delete i)).isSome := by
  obtain ⟨hinv, hnames⟩ : s.TableInv ∧ s.Names (calls.foldl liveNames []) :=
    run_simulates liveNames (fun s names => s.TableInv ∧ s.Names names)
      (fun s names e t h hstep => ⟨h.1.step hstep, h.2.step h.1 hstep⟩) hrun
      ⟨tableInv_init, rfl⟩
  refine ⟨hnames, fun name => hinv.table_iff hnames, ?_, ?_, ?_, hinv.count_closed,
    fun i hi => hinv.delete_isSome hi⟩
  · intro name e he
    rw [hinv.counter_eq he, hnames.count]
  · intro name h hmem h' hmem' hname hname'
    obtain ⟨e, he, hhdb⟩ := hinv.exists_entry hmem hname
    obtain ⟨e', he', hhdb'⟩ := hinv.exists_entry hmem' hname'
    rw [← hhdb, ← hhdb', Option.some.inj (he.symm.trans he')]
  · intro h hmem
    obtain ⟨name, e, he, -, hhdb⟩ := hinv.cached h hmem
    exact hhdb ▸ (hinv.entries name e he).opened

/-- Two names are opened and closed, and `tchdbopen` fails for a third. -/
def twoNames : List DBCall :=
  [.create [97] true, .create [97] false, .create [98] true, .create [99] false, .delete 0,
    .delete 0]

theorem references_exact_twoNames :
    ∃ s, run step init twoNames = some s ∧ s.closed = [0] ∧ s.handles.length = 1 ∧
      s.table [98] = some ⟨1, 1, 1⟩ ∧ s.Names [[98]] :=
  ⟨_, rfl, by decide +kernel, by decide +kernel, by decide +kernel,
    (references_exact twoNames _ rfl).1⟩

end DBTable

end DistributedDB
