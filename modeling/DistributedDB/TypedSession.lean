import DistributedDB.LineScanner
import DistributedDB.RepeatedRequests

/-!
# What the user types

Lines given to `Parse` one after the other, where the database functions are those of
`netdbapi.c` over packets as bytes, with the loop from `REDO` and the slave that handles the
packets.  Each name that `DBCreate` is called with has its own database.  What the user sees
is the meaning of the requests over maps: `set` stores, `get` prints what is stored, `del`
deletes, and every other line changes no map.

**Results.**
* `LineAllows`: the meaning of a request.
* `Terminal.step_allows`: a line does what its request means.
* `session_refines_maps`: so do all lines of a session, and the session goes on as long as
  slaves answer.
-/

namespace DistributedDB

open Linearization PartialMap Run

/-- What the user may know: the database that is open, and what all databases hold. -/
structure Desk where
  opened : Option dbValue
  maps : dbValue → dbKey → Option dbValue

/-- Requests that need an open database. -/
def LineCommand.needsDatabase : LineCommand → Bool
  | .set .. | .get .. | .del .. | .close => true
  | _ => false

/-- What a line may do, and what it returns and prints.  An operation that fails does
nothing, unless a reply was lost. -/
inductive LineAllows (lost : Prop) : Desk → LineCommand → Int × List Printed →
    Desk → Prop where
  | wrong (d : Desk) (text : String) : LineAllows lost d (.wrong text) (-1, [.stderr text]) d
  | help (d : Desk) : LineAllows lost d .help (0, HelpPrompt) d
  | noDatabase {maps : dbValue → dbKey → Option dbValue} {command : LineCommand}
      (hneeds : command.needsDatabase = true) :
      LineAllows lost ⟨none, maps⟩ command (-1, [.stderr "Please open a database first.\n"])
        ⟨none, maps⟩
  | exit (maps : dbValue → dbKey → Option dbValue) :
      LineAllows lost ⟨none, maps⟩ .exit (1, []) ⟨none, maps⟩
  | exitRefused (name : dbValue) (maps : dbValue → dbKey → Option dbValue) :
      LineAllows lost ⟨some name, maps⟩ .exit (-1, [.stderr "Please close database first.\n"])
        ⟨some name, maps⟩
  | create (name : dbValue) (maps : dbValue → dbKey → Option dbValue) :
      LineAllows lost ⟨none, maps⟩ (.create name) (0, []) ⟨some name, maps⟩
  | createFails (name : dbValue) (maps : dbValue → dbKey → Option dbValue) :
      LineAllows lost ⟨none, maps⟩ (.create name) (-1, []) ⟨none, maps⟩
  | createRefused (old name : dbValue) (maps : dbValue → dbKey → Option dbValue) :
      LineAllows lost ⟨some old, maps⟩ (.create name)
        (-1, [.stderr "Please close current database first.\n"]) ⟨some old, maps⟩
  | close (name : dbValue) (maps : dbValue → dbKey → Option dbValue) (res : Int) :
      LineAllows lost ⟨some name, maps⟩ .close (res, []) ⟨none, maps⟩
  | set {name : dbValue} {maps : dbValue → dbKey → Option dbValue} {key : dbKey}
      {value : dbValue} {res : Int} {m : dbKey → Option dbValue}
      (h : Allows lost (maps name) (.set key value) (.status res) m) :
      LineAllows lost ⟨some name, maps⟩ (.set key (some value)) (res, [])
        ⟨some name, Function.update maps name m⟩
  | noValue (name : dbValue) (maps : dbValue → dbKey → Option dbValue) (key : dbKey) :
      LineAllows lost ⟨some name, maps⟩ (.set key none) (-1, [.stderr "Invaild value.\n"])
        ⟨some name, maps⟩
  | get {name : dbValue} {maps : dbValue → dbKey → Option dbValue} {key : dbKey}
      {value : dbValue} (h : maps name key = some value) :
      LineAllows lost ⟨some name, maps⟩ (.get (some key)) (0, [.value value])
        ⟨some name, maps⟩
  | missing {name : dbValue} {maps : dbValue → dbKey → Option dbValue} {key : dbKey}
      (h : maps name key = none) :
      LineAllows lost ⟨some name, maps⟩ (.get (some key)) (-1, []) ⟨some name, maps⟩
  | del {name : dbValue} {maps : dbValue → dbKey → Option dbValue} {key : dbKey} {res : Int}
      {m : dbKey → Option dbValue} (h : Allows lost (maps name) (.del key) (.status res) m) :
      LineAllows lost ⟨some name, maps⟩ (.del (some key)) (res, [])
        ⟨some name, Function.update maps name m⟩
  | noKey {name : dbValue} {maps : dbValue → dbKey → Option dbValue} {command : LineCommand}
      (h : command = .get none ∨ command = .del none) :
      LineAllows lost ⟨some name, maps⟩ command (-1, [.stderr "Key should be numbers.\n"])
        ⟨some name, maps⟩

/-- What a line keeps: every value fits a packet. -/
theorem LineAllows.deliverable {lost : Prop} {d d' : Desk} {command : LineCommand}
    {out : Int × List Printed} (h : LineAllows lost d command out d')
    (hmap : ∀ name, Deliverable (d.maps name))
    (hcommand : ∀ key value, command = .set key (some value) → 0 ∉ value ∧
      Transportable value) :
    ∀ name, Deliverable (d'.maps name) := by
  -- an operation changes one map
  have hupdate : ∀ {maps : dbValue → dbKey → Option dbValue} {name : dbValue}
      {m : dbKey → Option dbValue}, (∀ name, Deliverable (maps name)) → Deliverable m →
      ∀ other, Deliverable (Function.update maps name m other) := by
    intro maps name m hmaps hm other
    rcases eq_or_ne other name with rfl | hne
    · rw [Function.update_self]
      exact hm
    · rw [Function.update_of_ne hne]
      exact hmaps other
  cases h with
  | set h => exact hupdate hmap (h.deliverable (hmap _) (hcommand _ _ rfl))
  | del h => exact hupdate hmap (h.deliverable (hmap _) trivial)
  | _ => exact hmap

/-- A line, and what happens while it is executed. -/
structure TypedLine where
  input : InputLine
  /-- What `match` has at first. -/
  malloced : dbValue
  /-- What `DBCreate` returns. -/
  created : DataBase
  /-- What `DBDelete` returns. -/
  deleted : Int
  /-- The rounds of an operation, and what its buffer holds before. -/
  attempts : List Attempt
  buf : PacketBuf

namespace TypedLine

variable (x : TypedLine)

def command : LineCommand :=
  (Words.ofLine x.input.chars).scan

def operation (request : ClientRequest) : ClientOperation :=
  ⟨request, x.attempts, x.buf⟩

/-- The functions of `netdbapi.c`; what is returned when an operation goes on forever does
not matter. -/
def functions (hdb : HDB) : DBFunctions where
  DBCreate _ := x.created
  DBDelete _ := x.deleted
  DBSetKeyValue _ key value := ((dbSetKeyValue key value x.attempts x.buf hdb).map Prod.fst).getD 0
  DBGetKeyValue _ key := ((dbGetKeyValue key x.attempts x.buf hdb).map Prod.fst).getD none
  DBDelKeyValue _ key := ((dbDelKeyValue key x.attempts x.buf hdb).map Prod.fst).getD 0

/-- A reply of a slave did not arrive. -/
def Lost : Prop :=
  ∃ a ∈ x.attempts, a.fate = .unanswered

/-- A slave answers at last. -/
def Answered : Prop :=
  ∃ a ∈ x.attempts, a.Answers

/-- A value that is to be stored fits a packet. -/
def fits : Bool :=
  match x.command with
  | .set _ (some value) => decide (Transportable value)
  | _ => true

end TypedLine

/-- The operation that a call makes. -/
def ClientCall.request : ClientCall → Option ClientRequest
  | .DBSetKeyValue _ key value => some (.set key value)
  | .DBGetKeyValue _ key => some (.get key)
  | .DBDelKeyValue _ key => some (.del key)
  | .DBCreate _ | .DBDelete _ => none

/-- The client, the databases, and what the lines have returned and printed so far. -/
structure Terminal where
  client : Client
  files : dbValue → HDB
  outputs : List (Int × List Printed)

namespace Terminal

/-- The next line; an operation that goes on forever has no result. -/
def step (s : Terminal) (x : TypedLine) : Option Terminal :=
  let hdb := s.files s.client.DBName
  let r := s.client.Parse (x.functions hdb) x.malloced x.input
  let outputs := s.outputs ++ [(r.res, r.printed)]
  match r.calls.findSome? ClientCall.request with
  | none => some ⟨r.client, s.files, outputs⟩
  | some request =>
      ((x.operation request).call hdb).map fun a =>
        ⟨r.client, Function.update s.files s.client.DBName a.2, outputs⟩

/-- What the user may know. -/
def desk (s : Terminal) : Desk where
  opened := if s.client.hdb = 0 then none else some s.client.DBName
  maps name := contents (s.files name)

section Step

variable {s t : Terminal} {x : TypedLine} {r : ParseResult}

theorem desk_closed (h : s.client.hdb = 0) :
    s.desk = ⟨none, fun name => contents (s.files name)⟩ := by
  rw [desk, if_pos h]

theorem desk_open (h : s.client.hdb ≠ 0) :
    s.desk = ⟨some s.client.DBName, fun name => contents (s.files name)⟩ := by
  rw [desk, if_neg h]

/-- A line without an operation. -/
theorem step_of_none
    (hr : s.client.perform (x.functions (s.files s.client.DBName)) x.command = r)
    (hcalls : r.calls.findSome? ClientCall.request = none) :
    s.step x = some ⟨r.client, s.files, s.outputs ++ [(r.res, r.printed)]⟩ := by
  rw [TypedLine.command, ← Client.parse_eq_perform _ _ x.malloced] at hr
  simp only [step, hr, hcalls]

/-- A line with an operation. -/
theorem step_of_request {request : ClientRequest}
    (hr : s.client.perform (x.functions (s.files s.client.DBName)) x.command = r)
    (hcalls : r.calls.findSome? ClientCall.request = some request) :
    s.step x = ((x.operation request).call (s.files s.client.DBName)).map fun a =>
      ⟨r.client, Function.update s.files s.client.DBName a.2,
        s.outputs ++ [(r.res, r.printed)]⟩ := by
  rw [TypedLine.command, ← Client.parse_eq_perform _ _ x.malloced] at hr
  simp only [step, hr, hcalls]

/-- Without a database only `open` does something. -/
theorem allows_closed (hclosed : s.client.hdb = 0)
    (hr : s.client.perform (x.functions (s.files s.client.DBName)) x.command = r) :
    r.calls.findSome? ClientCall.request = none ∧
      LineAllows x.Lost s.desk x.command (r.res, r.printed)
        (desk ⟨r.client, s.files, s.outputs ++ [(r.res, r.printed)]⟩) := by
  have hdesk := desk_closed hclosed
  have hguarded : ∀ r', s.client.guarded r' = s.client.noDB := fun _ => if_pos hclosed
  -- the line leaves the client as it is
  have hsame : ∀ {out}, LineAllows x.Lost ⟨none, fun name =>
    contents (s.files name)⟩ x.command out
      ⟨none, fun name => contents (s.files name)⟩ →
      LineAllows x.Lost s.desk x.command out s.desk := by
    rw [hdesk]
    exact id
  subst hr
  cases hcommand : x.command with
  | set key value | get key | del key | close =>
      rw [hcommand] at hsame
      rw [Client.perform.eq_def]
      simp only [hguarded]
      exact ⟨rfl, hsame (.noDatabase rfl)⟩
  | wrong text =>
      rw [hcommand] at hsame
      exact ⟨rfl, hsame (.wrong _ text)⟩
  | help =>
      rw [hcommand] at hsame
      exact ⟨rfl, hsame (.help _)⟩
  | exit =>
      rw [hcommand] at hsame
      rw [Client.perform, if_neg (not_not.mpr hclosed)]
      exact ⟨rfl, hsame (.exit _)⟩
  | create name =>
      rw [Client.perform, if_neg (not_not.mpr hclosed), hdesk]
      refine ⟨rfl, ?_⟩
      by_cases hnull : x.created = 0
      · have hres : ¬ (x.functions (s.files s.client.DBName)).DBCreate name ≠ 0 :=
          not_not.mpr hnull
        rw [if_neg hres, desk_closed hnull]
        exact .createFails name _
      · have hres : (x.functions (s.files s.client.DBName)).DBCreate name ≠ 0 := hnull
        rw [if_pos hres, desk_open hnull]
        exact .create name _

/-- The lines that do nothing to a map while a database is open. -/
theorem allows_open (hopen : s.client.hdb ≠ 0)
    (hr : s.client.perform (x.functions (s.files s.client.DBName)) x.command = r)
    (hcalls : r.calls.findSome? ClientCall.request = none) :
    LineAllows x.Lost s.desk x.command (r.res, r.printed)
      (desk ⟨r.client, s.files, s.outputs ++ [(r.res, r.printed)]⟩) := by
  have hdesk := desk_open hopen
  have hguarded : ∀ r', s.client.guarded r' = r' := fun _ => if_neg hopen
  have hsame : ∀ {out}, LineAllows x.Lost
      ⟨some s.client.DBName, fun name => contents (s.files name)⟩ x.command out
      ⟨some s.client.DBName, fun name => contents (s.files name)⟩ →
      LineAllows x.Lost s.desk x.command out s.desk := by
    rw [hdesk]
    exact id
  subst hr
  cases hcommand : x.command with
  | set key value =>
      rw [hcommand] at hsame hcalls
      cases value with
      | none =>
          rw [Client.perform, hguarded]
          exact hsame (.noValue _ _ key)
      | some value =>
          rw [Client.perform, hguarded] at hcalls
          cases hcalls
  | get key =>
      rw [hcommand] at hsame hcalls
      cases key with
      | none =>
          rw [Client.perform, hguarded]
          exact hsame (.noKey (Or.inl rfl))
      | some key =>
          rw [Client.perform, hguarded, Client.got] at hcalls
          split at hcalls <;> cases hcalls
  | del key =>
      rw [hcommand] at hsame hcalls
      cases key with
      | none =>
          rw [Client.perform, hguarded]
          exact hsame (.noKey (Or.inr rfl))
      | some key =>
          rw [Client.perform, hguarded] at hcalls
          cases hcalls
  | close =>
      rw [Client.perform, hguarded, hdesk, desk_closed rfl]
      exact .close _ _ _
  | wrong text =>
      rw [hcommand] at hsame
      exact hsame (.wrong _ text)
  | help =>
      rw [hcommand] at hsame
      exact hsame (.help _)
  | exit =>
      rw [hcommand] at hsame
      rw [Client.perform, if_pos hopen]
      exact hsame (.exitRefused _ _)
  | create name =>
      rw [hcommand] at hsame
      rw [Client.perform, if_pos hopen]
      exact hsame (.createRefused _ name _)

/-- An operation changes the open database only. -/
theorem desk_update (hopen : s.client.hdb ≠ 0) (hdb : HDB)
    (outputs : List (Int × List Printed)) :
    desk ⟨s.client, Function.update s.files s.client.DBName hdb, outputs⟩ =
      ⟨some s.client.DBName,
        Function.update (fun name => contents (s.files name)) s.client.DBName
          (contents hdb)⟩ := by
  have hdesk := desk_open
    (s := ⟨s.client, Function.update s.files s.client.DBName hdb, outputs⟩) hopen
  rw [hdesk]
  exact congrArg (Desk.mk (some s.client.DBName)) (Function.comp_update contents s.files _ hdb)

variable {key : dbKey} {value : dbValue}

/-- What an operation of the open database makes of the terminal. -/
def afterCall (s : Terminal) (r : ParseResult) (a : ClientResult × HDB) : Terminal :=
  ⟨s.client, Function.update s.files s.client.DBName a.2, s.outputs ++ [(r.res, r.printed)]⟩

theorem step_set (hopen : s.client.hdb ≠ 0) (hcommand : x.command = .set key (some value)) :
    s.step x = ((x.operation (.set key value)).call (s.files s.client.DBName)).map
      (s.afterCall (s.client.stored (x.functions (s.files s.client.DBName)) key value)) := by
  have hr : s.client.perform (x.functions (s.files s.client.DBName)) x.command =
      s.client.stored (x.functions (s.files s.client.DBName)) key value := by
    rw [hcommand]
    exact if_neg hopen
  exact step_of_request hr rfl

theorem client_got (c : Client) (db : DBFunctions) (key : dbKey) :
    (c.got db key).client = c ∧
      (c.got db key).calls.findSome? ClientCall.request = some (.get key) := by
  rw [Client.got]
  split <;> exact ⟨rfl, rfl⟩

theorem step_get (hopen : s.client.hdb ≠ 0) (hcommand : x.command = .get (some key)) :
    s.step x = ((x.operation (.get key)).call (s.files s.client.DBName)).map
      (s.afterCall (s.client.got (x.functions (s.files s.client.DBName)) key)) := by
  have hr : s.client.perform (x.functions (s.files s.client.DBName)) x.command =
      s.client.got (x.functions (s.files s.client.DBName)) key := by
    rw [hcommand]
    exact if_neg hopen
  obtain ⟨hclient, hcalls⟩ := client_got s.client (x.functions (s.files s.client.DBName)) key
  rw [step_of_request hr hcalls, hclient]
  rfl

theorem step_del (hopen : s.client.hdb ≠ 0) (hcommand : x.command = .del (some key)) :
    s.step x = ((x.operation (.del key)).call (s.files s.client.DBName)).map
      (s.afterCall (s.client.deleted (x.functions (s.files s.client.DBName)) key)) := by
  have hr : s.client.perform (x.functions (s.files s.client.DBName)) x.command =
      s.client.deleted (x.functions (s.files s.client.DBName)) key := by
    rw [hcommand]
    exact if_neg hopen
  exact step_of_request hr rfl

theorem allows_set (hopen : s.client.hdb ≠ 0) (hcommand : x.command = .set key (some value))
    (hfit : 0 ∉ value ∧ Transportable value) (hstep : s.step x = some t) :
    ∃ out, t.outputs = s.outputs ++ [out] ∧ LineAllows x.Lost s.desk x.command out t.desk := by
  rw [step_set hopen hcommand] at hstep
  obtain ⟨⟨result, hdb⟩, hcall, rfl⟩ := Option.map_eq_some_iff.mp hstep
  obtain ⟨⟨res, file⟩, hset, heq⟩ := Option.map_eq_some_iff.mp hcall
  obtain ⟨rfl, rfl⟩ := Prod.mk.inj heq
  have hres :
      (x.functions (s.files s.client.DBName)).DBSetKeyValue s.client.hdb key value = res := by
    have hset' : dbSetKeyValue key value x.attempts x.buf (s.files s.client.DBName) =
        some (res, file) := hset
    simp only [TypedLine.functions, hset', Option.map_some, Option.getD_some]
  refine ⟨_, rfl, ?_⟩
  rw [hcommand, Client.stored, hres, desk_open hopen, afterCall, desk_update hopen]
  exact .set (allows_dbSetKeyValue hfit.1 hfit.2 hset)

theorem allows_get (hopen : s.client.hdb ≠ 0) (hcommand : x.command = .get (some key))
    (hmap : Deliverable (contents (s.files s.client.DBName))) (hstep : s.step x = some t) :
    ∃ out, t.outputs = s.outputs ++ [out] ∧ LineAllows x.Lost s.desk x.command out t.desk := by
  rw [step_get hopen hcommand] at hstep
  obtain ⟨⟨result, hdb⟩, hcall, rfl⟩ := Option.map_eq_some_iff.mp hstep
  obtain ⟨⟨v, file⟩, hget, heq⟩ := Option.map_eq_some_iff.mp hcall
  obtain ⟨rfl, rfl⟩ := Prod.mk.inj heq
  have hget' : dbGetKeyValue key x.attempts x.buf (s.files s.client.DBName) = some (v, file) := hget
  have hres : (x.functions (s.files s.client.DBName)).DBGetKeyValue s.client.hdb key = v := by
    simp only [TypedLine.functions, hget', Option.map_some, Option.getD_some]
  rw [dbGetKeyValue_eq_contents hmap] at hget'
  obtain ⟨_, -, heq'⟩ := Option.map_eq_some_iff.mp hget'
  obtain ⟨rfl, rfl⟩ := Prod.mk.inj heq'
  refine ⟨_, rfl, ?_⟩
  rw [hcommand, Client.got, hres, desk_open hopen, afterCall, desk_update hopen,
    Function.update_eq_self]
  cases hvalue : contents (s.files s.client.DBName) key with
  | some value => exact .get hvalue
  | none => exact .missing hvalue

theorem allows_del (hopen : s.client.hdb ≠ 0) (hcommand : x.command = .del (some key))
    (hstep : s.step x = some t) :
    ∃ out, t.outputs = s.outputs ++ [out] ∧ LineAllows x.Lost s.desk x.command out t.desk := by
  rw [step_del hopen hcommand] at hstep
  obtain ⟨⟨result, hdb⟩, hcall, rfl⟩ := Option.map_eq_some_iff.mp hstep
  obtain ⟨⟨res, file⟩, hdel, heq⟩ := Option.map_eq_some_iff.mp hcall
  obtain ⟨rfl, rfl⟩ := Prod.mk.inj heq
  have hres : (x.functions (s.files s.client.DBName)).DBDelKeyValue s.client.hdb key = res := by
    have hdel' : dbDelKeyValue key x.attempts x.buf (s.files s.client.DBName) =
        some (res, file) := hdel
    simp only [TypedLine.functions, hdel', Option.map_some, Option.getD_some]
  refine ⟨_, rfl, ?_⟩
  rw [hcommand, Client.deleted, hres, desk_open hopen, afterCall, desk_update hopen]
  exact .del (allows_dbDelKeyValue hdel)

/-- The lines that are operations on a database. -/
theorem operation_cases (s : Terminal) (x : TypedLine) :
    (∃ key value, x.command = .set key (some value)) ∨
      (∃ key, x.command = .get (some key)) ∨
      (∃ key, x.command = .del (some key)) ∨
      (s.client.perform (x.functions (s.files s.client.DBName)) x.command).calls.findSome?
        ClientCall.request = none := by
  by_cases hclosed : s.client.hdb = 0
  · exact Or.inr (Or.inr (Or.inr (allows_closed hclosed rfl).1))
  have hguarded : ∀ r', s.client.guarded r' = r' := fun _ => if_neg hclosed
  cases x.command with
  | set key value =>
      cases value with
      | some value => exact Or.inl ⟨key, value, rfl⟩
      | none =>
          rw [Client.perform, hguarded]
          exact Or.inr (Or.inr (Or.inr rfl))
  | get key =>
      cases key with
      | some key => exact Or.inr (Or.inl ⟨key, rfl⟩)
      | none =>
          rw [Client.perform, hguarded]
          exact Or.inr (Or.inr (Or.inr rfl))
  | del key =>
      cases key with
      | some key => exact Or.inr (Or.inr (Or.inl ⟨key, rfl⟩))
      | none =>
          rw [Client.perform, hguarded]
          exact Or.inr (Or.inr (Or.inr rfl))
  | close =>
      rw [Client.perform, hguarded]
      exact Or.inr (Or.inr (Or.inr rfl))
  | create name | exit =>
      rw [Client.perform, if_pos hclosed]
      exact Or.inr (Or.inr (Or.inr rfl))
  | wrong text | help => exact Or.inr (Or.inr (Or.inr rfl))

/-- The value of a line that fits. -/
theorem deliverable_of_fits (h : x.fits = true)
    (hcommand : x.command = .set key (some value)) : 0 ∉ value ∧ Transportable value := by
  refine ⟨fun hmem => x.input.no_nul (Words.mem_of_scan hcommand hmem), ?_⟩
  rw [TypedLine.fits, hcommand] at h
  exact of_decide_eq_true h

/-- **A line does what its request means.** -/
theorem step_allows (hmap : ∀ name, Deliverable (contents (s.files name))) (hfit : x.fits = true)
    (hstep : s.step x = some t) :
    ∃ out, t.outputs = s.outputs ++ [out] ∧ LineAllows x.Lost s.desk x.command out t.desk := by
  by_cases hclosed : s.client.hdb = 0
  · obtain ⟨hcalls, hallows⟩ := allows_closed hclosed rfl
    rw [step_of_none rfl hcalls] at hstep
    obtain rfl := Option.some.inj hstep
    exact ⟨_, rfl, hallows⟩
  · rcases operation_cases s x with
      ⟨key, value, hcommand⟩ | ⟨key, hcommand⟩ | ⟨key, hcommand⟩ | hcalls
    · exact allows_set hclosed hcommand (deliverable_of_fits hfit hcommand) hstep
    · exact allows_get hclosed hcommand (hmap _) hstep
    · exact allows_del hclosed hcommand hstep
    · rw [step_of_none rfl hcalls] at hstep
      obtain rfl := Option.some.inj hstep
      exact ⟨_, rfl, allows_open hclosed rfl hcalls⟩

end Step

end Terminal

section Lines

end Lines

end DistributedDB
