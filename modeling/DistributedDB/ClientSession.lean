import DistributedDB.Library.Handles
import DistributedDB.SetCommand

/-!
# Sessions of the client

Lines given to `Parse` one after the other, with database functions that may answer
differently each time, and the loop of `InputCmd` that ends when `Parse` returns 1.  The
calls of a session are events on the handles that `DBCreate` returned.

**Results.**
* `Client.parse_step`: what one line does to the handle.
* `Client.run_parse`: a line keeps the order of the events.
* `Session.session_inOrder`: sessions keep the order, and `Parse` returns 1 only when no
  handle is live, and never -1000.
* `Session.inputCmd_eq_foldl`: `InputCmd` is such a session.
-/

namespace DistributedDB

open Handles Run

/-- Database functions with 0 and -1 as results. -/
structure DBBehaviour extends DBFunctions where
  delete_res (hdb : DataBase) : DBDelete hdb = 0 ∨ DBDelete hdb = -1
  set_res (hdb : DataBase) (key : dbKey) (value : dbValue) :
    DBSetKeyValue hdb key value = 0 ∨ DBSetKeyValue hdb key value = -1
  del_res (hdb : DataBase) (key : dbKey) : DBDelKeyValue hdb key = 0 ∨ DBDelKeyValue hdb key = -1

/-- What a call does to a handle; a `DBCreate` that returns `NULL` makes none. -/
def ClientCall.event (db : DBFunctions) : ClientCall → Option (Event DataBase)
  | .DBCreate dbName =>
      if db.DBCreate dbName = 0 then none else some (.created (db.DBCreate dbName))
  | .DBDelete hdb => some (.deleted hdb)
  | .DBSetKeyValue hdb _ _ | .DBGetKeyValue hdb _ | .DBDelKeyValue hdb _ => some (.used hdb)

namespace Client

/-- What `Parse` can do. -/
inductive ParseStep (db : DBFunctions) (c : Client) : ParseResult → Prop where
  | fails (text : String) : ParseStep db c (c.fails text)
  | help : ParseStep db c ⟨0, c, [], HelpPrompt⟩
  | exit (hclosed : c.hdb = 0) : ParseStep db c ⟨1, c, [], []⟩
  | opened (dbName : dbValue) (hclosed : c.hdb = 0) :
      ParseStep db c ⟨if db.DBCreate dbName ≠ 0 then 0 else -1,
        ⟨db.DBCreate dbName, dbName⟩, [.DBCreate dbName], []⟩
  | closed (hopen : c.hdb ≠ 0) :
      ParseStep db c ⟨db.DBDelete c.hdb, ⟨0, []⟩, [.DBDelete c.hdb], []⟩
  | set (key : dbKey) (value : dbValue) (hopen : c.hdb ≠ 0) :
      ParseStep db c ⟨db.DBSetKeyValue c.hdb key value, c, [.DBSetKeyValue c.hdb key value], []⟩
  | got (key : dbKey) (value : dbValue) (hopen : c.hdb ≠ 0) :
      ParseStep db c ⟨0, c, [.DBGetKeyValue c.hdb key], [.value value]⟩
  | missing (key : dbKey) (hopen : c.hdb ≠ 0) :
      ParseStep db c ⟨-1, c, [.DBGetKeyValue c.hdb key], []⟩
  | del (key : dbKey) (hopen : c.hdb ≠ 0) :
      ParseStep db c ⟨db.DBDelKeyValue c.hdb key, c, [.DBDelKeyValue c.hdb key], []⟩

variable (db : DBFunctions) (c : Client)

variable {db c} in
/-- `NODB` guards what needs an open database. -/
theorem ParseStep.of_open {r : ParseResult} (h : c.hdb ≠ 0 → ParseStep db c r) :
    ParseStep db c (if c.hdb = 0 then c.noDB else r) := by
  by_cases hclosed : c.hdb = 0
  · rw [if_pos hclosed]
    exact .fails _
  · rw [if_neg hclosed]
    exact h hclosed

variable {db c} in
/-- The branches that need the database closed. -/
theorem ParseStep.of_closed {r : ParseResult} {text : String}
    (h : c.hdb = 0 → ParseStep db c r) :
    ParseStep db c (if c.hdb ≠ 0 then c.fails text else r) := by
  by_cases hopen : c.hdb ≠ 0
  · rw [if_pos hopen]
    exact .fails _
  · rw [if_neg hopen]
    exact h (not_not.mp hopen)

theorem parseTwo_step (s matched : dbValue) : ParseStep db c (c.parseTwo db s matched) := by
  rw [parseTwo]
  by_cases hset : strcasecmp matched (ascii "set") = true
  · rw [if_pos hset]
    refine .of_open fun hopen => ?_
    split
    split
    split
    · exact .fails _
    · exact .set _ _ hopen
  · rw [if_neg hset]
    exact .fails _

theorem parseOne_step (s matched : dbValue) : ParseStep db c (c.parseOne db s matched) := by
  rw [parseOne]
  by_cases hopened : strcasecmp matched (ascii "open") = true
  · rw [if_pos hopened]
    exact .of_closed fun hclosed => .opened _ hclosed
  rw [if_neg hopened]
  by_cases hget : strcasecmp matched (ascii "get") = true
  · rw [if_pos hget]
    refine .of_open fun hopen => ?_
    split
    split
    · exact .fails _
    · dsimp only
      split
      · exact .got _ _ hopen
      · exact .missing _ hopen
  rw [if_neg hget]
  by_cases hdel : strcasecmp matched (ascii "del") = true ∨
    strcasecmp matched (ascii "delete") = true
  · rw [if_pos hdel]
    refine .of_open fun hopen => ?_
    split
    split
    · exact .fails _
    · exact .del _ hopen
  · rw [if_neg hdel]
    exact .fails _

theorem parseNone_step (matched : dbValue) : ParseStep db c (c.parseNone db matched) := by
  rw [parseNone]
  by_cases hclose : strcasecmp matched (ascii "close") = true
  · rw [if_pos hclose]
    exact .of_open fun hopen => .closed hopen
  rw [if_neg hclose]
  by_cases hexit : strcasecmp matched (ascii "exit") = true ∨
    strcasecmp matched (ascii "quit") = true
  · rw [if_pos hexit]
    exact .of_closed fun hclosed => .exit hclosed
  rw [if_neg hexit]
  by_cases hhelp : strcasecmp matched (ascii "help") = true
  · rw [if_pos hhelp]
    exact .help
  · rw [if_neg hhelp]
    exact .fails _

/-- **What one line does.** -/
theorem parse_step (malloced : dbValue) (input : InputLine) :
    ParseStep db c (c.Parse db malloced input) := by
  rw [Parse]
  split
  · exact parseTwo_step db c _ _
  · split
    · exact parseOne_step db c _ _
    · split
      · exact parseNone_step db c _
      · exact .fails _

/-- The handle that is held. -/
def handle : Option DataBase :=
  if c.hdb = 0 then none else some c.hdb

variable {c}

theorem handle_closed (h : c.hdb = 0) : c.handle = none :=
  if_pos h

theorem handle_open (h : c.hdb ≠ 0) : c.handle = some c.hdb :=
  if_neg h

variable {db} {r : ParseResult}

/-- **A line keeps the order of the events.** -/
theorem run_parse (h : ParseStep db c r) :
    run hold c.handle (r.calls.filterMap (ClientCall.event db)) = some r.client.handle := by
  cases h with
  | fails text => rfl
  | help => rfl
  | exit hclosed => rfl
  | opened dbName hclosed =>
      rw [handle_closed hclosed]
      by_cases hnull : db.DBCreate dbName = 0
      · have hevent : ClientCall.event db (.DBCreate dbName) = none := if_pos hnull
        rw [List.filterMap_cons_none hevent, handle_closed hnull]
        rfl
      · have hevent : ClientCall.event db (.DBCreate dbName) =
          some (.created (db.DBCreate dbName)) :=
          if_neg hnull
        rw [List.filterMap_cons_some hevent, handle_open hnull]
        rfl
  | closed hopen =>
      rw [handle_open hopen]
      exact run_deleted c.hdb
  | set key value hopen =>
      rw [handle_open hopen]
      exact run_used c.hdb
  | got key value hopen =>
      rw [handle_open hopen]
      exact run_used c.hdb
  | missing key hopen =>
      rw [handle_open hopen]
      exact run_used c.hdb
  | del key hopen =>
      rw [handle_open hopen]
      exact run_used c.hdb

/-- Only `exit` and `quit` return 1. -/
theorem res_of_step {db : DBBehaviour} (h : ParseStep db.toDBFunctions c r) :
    r.res = 0 ∨ r.res = -1 ∨ r.res = 1 ∧ r.client.hdb = 0 := by
  cases h with
  | fails text => exact Or.inr (Or.inl rfl)
  | help => exact Or.inl rfl
  | exit hclosed => exact Or.inr (Or.inr ⟨rfl, hclosed⟩)
  | opened dbName hclosed =>
      by_cases hnull : db.DBCreate dbName ≠ 0
      · exact Or.inl (if_pos hnull)
      · exact Or.inr (Or.inl (if_neg hnull))
  | closed hopen => exact (db.delete_res c.hdb).imp_right Or.inl
  | set key value hopen => exact (db.set_res c.hdb key value).imp_right Or.inl
  | got key value hopen => exact Or.inl rfl
  | missing key hopen => exact Or.inr (Or.inl rfl)
  | del key hopen => exact (db.del_res c.hdb key).imp_right Or.inl

end Client

/-- A call of `Parse`; `malloced` is what `match` has at first. -/
structure ParseCall where
  input : InputLine
  malloced : dbValue
  db : DBBehaviour

/-- The global variables, the last result of `Parse`, and the events so far. -/
structure Session where
  client : Client
  res : Int
  events : List (Event DataBase)

namespace InputLine

variable (input : InputLine)

/-- Without the last character. -/
def dropLast : InputLine where
  chars := input.chars.dropLast
  no_nul := fun h => input.no_nul (List.dropLast_subset _ h)
  length_lt := by
    have hlt := input.length_lt
    rw [List.length_dropLast]
    omega

end InputLine

namespace Session

/-- No database is open, and `DBName` is what `malloc` returns. -/
def start (DBName : dbValue) : Session :=
  ⟨⟨0, DBName⟩, 0, []⟩

def parse (s : Session) (x : ParseCall) : Session :=
  let r := s.client.Parse x.db.toDBFunctions x.malloced x.input
  ⟨r.client, r.res, s.events ++ r.calls.filterMap (ClientCall.event x.db.toDBFunctions)⟩

/-- The lines one after the other. -/
def session (DBName : dbValue) (calls : List ParseCall) : Session :=
  calls.foldl parse (start DBName)

/-- The invariant of a session. -/
structure Orderly (s : Session) : Prop where
  run_events : run hold none s.events = some s.client.handle
  res_cases : s.res = 0 ∨ s.res = -1 ∨ s.res = 1 ∧ s.client.hdb = 0

theorem orderly_start (DBName : dbValue) : Orderly (start DBName) :=
  ⟨rfl, Or.inl rfl⟩

/-- One line keeps the invariant. -/
theorem orderly_parse {s : Session} (h : Orderly s) (x : ParseCall) : Orderly (s.parse x) := by
  have hstep := Client.parse_step x.db.toDBFunctions s.client x.malloced x.input
  refine ⟨?_, Client.res_of_step hstep⟩
  have hrun := Client.run_parse hstep
  rw [parse, run_append, h.run_events]
  exact hrun

/-- All lines keep the invariant. -/
theorem orderly_foldl {s : Session} (h : Orderly s) (calls : List ParseCall) :
    Orderly (calls.foldl parse s) := by
  induction calls generalizing s with
  | nil => exact h
  | cons x calls ih => exact ih (orderly_parse h x)

/-- After `exit` no handle is live. -/
theorem Orderly.live_eq_nil {s : Session} (h : Orderly s) (hres : s.res = 1) :
    live s.events = [] := by
  have hclosed : s.client.hdb = 0 := by
    rcases h.res_cases with hzero | hminus | ⟨-, hclosed⟩
    · rw [hzero] at hres
      cases hres
    · rw [hminus] at hres
      cases hres
    · exact hclosed
  rw [live_of_run h.run_events, Client.handle_closed hclosed]
  rfl

/-- **Every session is in order**: at most one handle is live, all calls are on it, a deleted
handle is not touched until `DBCreate` returns it again, `Parse` returns 1 only when no
handle is live, and its assertion holds. -/
theorem session_inOrder (DBName : dbValue) (calls : List ParseCall) :
    InOrder (session DBName calls).events ∧
      ((session DBName calls).res = 1 → live (session DBName calls).events = []) ∧
      (session DBName calls).res ≠ -1000 := by
  have horderly : Orderly (session DBName calls) := orderly_foldl (orderly_start DBName) calls
  refine ⟨inOrder_of_run horderly.run_events, horderly.live_eq_nil, ?_⟩
  rcases horderly.res_cases with hzero | hminus | ⟨hone, -⟩
  · rw [hzero]
    decide
  · rw [hminus]
    decide
  · rw [hone]
    decide

section Lines

/-- Database functions that succeed. -/
def succeeding : DBBehaviour :=
  ⟨SetLine.succeeding, fun _ => Or.inl rfl, fun _ _ _ => Or.inl rfl, fun _ _ => Or.inl rfl⟩

/-- A database is opened, used and closed. -/
example :
    (session [] [⟨⟨ascii "open a.db", by decide, by decide⟩, [], succeeding⟩,
      ⟨SetLine.plainLine.line, [], succeeding⟩,
      ⟨⟨ascii "close", by decide, by decide⟩, [], succeeding⟩,
      ⟨⟨ascii "exit", by decide, by decide⟩, [], succeeding⟩]).events =
      [.created 1, .used 1, .deleted 1] := by
  decide +kernel

end Lines

/-- What `fgets` leaves in `input`, without the newline; an empty line is skipped. -/
def readLine (input : InputLine) : Option InputLine :=
  if input.chars.isEmpty ∨ input.chars.head? = some '\n'.toUInt8 then none
  else if input.chars.getLast? = some '\n'.toUInt8 then some input.dropLast
  else some input

/-- `InputCmd` with what `fgets` reads; it goes on until `Parse` returns 1. -/
def InputCmd (s : Session) : List ParseCall → Session
  | [] => s
  | x :: xs =>
      if s.res = 1 then s
      else
        match readLine x.input with
        | none => InputCmd s xs
        | some line => InputCmd (s.parse { x with input := line }) xs

/-- **`InputCmd` is a session.** -/
theorem inputCmd_eq_foldl (s : Session) (xs : List ParseCall) :
    ∃ calls : List ParseCall, s.InputCmd xs = calls.foldl parse s := by
  induction xs generalizing s with
  | nil => exact ⟨[], rfl⟩
  | cons x xs ih =>
      rw [InputCmd]
      by_cases hres : s.res = 1
      · rw [if_pos hres]
        exact ⟨[], rfl⟩
      · rw [if_neg hres]
        cases hline : readLine x.input with
        | none => exact ih s
        | some line =>
            obtain ⟨calls, hcalls⟩ := ih (s.parse { x with input := line })
            exact ⟨{ x with input := line } :: calls, hcalls⟩

end Session

end DistributedDB
