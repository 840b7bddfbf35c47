import DistributedDB.EndToEnd
import DistributedDB.Library.Regex

/-!
# The lines of the client

`Parse` of `parseinput.c`, with the regular expressions as `regexec` matches them in the C
locale, and `atoi` as a truncation to 32 bits.  What the database functions return is a
parameter, and what `malloc` returns for `match` too.  The assertion at the end of `Parse`
is about `res`.

**Results.**
* `getMatch_of_found`, `getMatch_of_none`: what `GetMatch` does.
* `check_of_matches`: lines that a pattern accepts.
-/

namespace DistributedDB

open Regex

section Characters

/-- The characters of a string constant. -/
def ascii (s : String) : dbValue :=
  s.toList.map Char.toUInt8

def isdigit (c : UInt8) : Bool :=
  '0'.toUInt8 ≤ c && c ≤ '9'.toUInt8

def isupper (c : UInt8) : Bool :=
  'A'.toUInt8 ≤ c && c ≤ 'Z'.toUInt8

def islower (c : UInt8) : Bool :=
  'a'.toUInt8 ≤ c && c ≤ 'z'.toUInt8

/-- `\s`. -/
def isspace (c : UInt8) : Bool :=
  c == ' '.toUInt8 || (9 ≤ c && c ≤ 13)

/-- `\w`. -/
def isword (c : UInt8) : Bool :=
  isdigit c || isupper c || islower c || c == '_'.toUInt8

def tolower (c : UInt8) : UInt8 :=
  if isupper c then c + 32 else c

/-- `strcasecmp` returns 0. -/
def strcasecmp (s₁ s₂ : dbValue) : Bool :=
  s₁.map tolower == s₂.map tolower

/-- The value of decimal digits. -/
def numeral (digits : dbValue) : Nat :=
  digits.foldl (fun n c => 10 * n + (c.toNat - '0'.toNat)) 0

def atoi (s : dbValue) : Int32 :=
  let s := s.dropWhile isspace
  let negative := s.head? = some '-'.toUInt8
  let s := if negative ∨ s.head? = some '+'.toUInt8 then s.tail else s
  let n : Int := numeral (s.takeWhile isdigit)
  Int32.ofInt (if negative then -n else n)

end Characters

namespace Pattern

def any : Regex UInt8 := chars fun _ => true

def space : Regex UInt8 := chars isspace

def word : Regex UInt8 := chars isword

def digit : Regex UInt8 := chars isdigit

/-- A character, with `REG_ICASE`. -/
def literal (c : Char) : Regex UInt8 := chars fun d => tolower d == tolower c.toUInt8

/-- `^\s*\w{3,5}\s+[0-9]+\s+.+$` -/
def twoParameters : Regex UInt8 :=
  seqs [bol, star space, between 3 5 word, plus space, plus digit, plus space, plus any, eol]

/-- `^\s*\w{3,5}\s+\w+(\.\w*db)?\s*$` -/
def oneParameter : Regex UInt8 :=
  seqs [bol, star space, between 3 5 word, plus space, plus word,
    opt (seqs [literal '.', star word, literal 'd', literal 'b']), star space, eol]

/-- `^\s*\w{3,5}\s*$` -/
def noParameter : Regex UInt8 :=
  seqs [bol, star space, between 3 5 word, star space, eol]

/-- `\b\w{3,5}\b` -/
def command : Regex UInt8 :=
  delimited isword (between 3 5 word)

/-- `\b[0-9]+\b` -/
def key : Regex UInt8 :=
  delimited isword (plus digit)

/-- `\b.+` -/
def value : Regex UInt8 :=
  seq (boundary isword) (plus any)

/-- `\b\w+\.\w*db\b` -/
def name : Regex UInt8 :=
  delimited isword (seqs [plus word, literal '.', star word, literal 'd', literal 'b'])

end Pattern

/-- The begin and the end of the match; without one `RegMatch` returns -1. -/
def RegMatch (pat : Regex UInt8) (str : dbValue) : Option (Nat × Nat) :=
  search pat str

/-- `Check` returns 0. -/
def Check (pat : Regex UInt8) (str : dbValue) : Bool :=
  (RegMatch pat str).isSome

/-- The result, and what is in `str` and in `match` then. -/
def GetMatch (pat : Regex UInt8) (str matched : dbValue) : Int × dbValue × dbValue :=
  match RegMatch pat str with
  | none => (-1, str, matched)
  | some (s, e) => (0, str.drop e, (str.drop s).take (e - s))

/-- A line, as `InputCmd` hands it over. -/
structure InputLine where
  chars : dbValue
  no_nul : 0 ∉ chars
  length_lt : chars.length < MAX_INPUT_LEN

inductive ClientCall where
  | DBCreate (dbName : dbValue)
  | DBDelete (hdb : DataBase)
  | DBSetKeyValue (hdb : DataBase) (key : dbKey) (value : dbValue)
  | DBGetKeyValue (hdb : DataBase) (key : dbKey)
  | DBDelKeyValue (hdb : DataBase) (key : dbKey)
deriving DecidableEq, Repr

/-- What the database functions return. -/
structure DBFunctions where
  DBCreate (dbName : dbValue) : DataBase
  DBDelete (hdb : DataBase) : Int
  DBSetKeyValue (hdb : DataBase) (key : dbKey) (value : dbValue) : Int
  DBGetKeyValue (hdb : DataBase) (key : dbKey) : Option dbValue
  DBDelKeyValue (hdb : DataBase) (key : dbKey) : Int

inductive Printed where
  | stderr (text : String)
  | stdout (text : String)
  | value (value : dbValue)
deriving DecidableEq, Repr

/-- The global variables; `hdb = 0` is `NULL`. -/
structure Client where
  hdb : DataBase
  DBName : dbValue
deriving DecidableEq, Repr

structure ParseResult where
  res : Int
  client : Client
  calls : List ClientCall
  printed : List Printed
deriving DecidableEq, Repr

def HelpPrompt : List Printed :=
  [.stdout "open dbName     ----open a database named dbName.\n",
    .stdout "close           ----close the current database.\n",
    .stdout "quit/exit       ----quit.\n",
    .stdout "set key value   ----insert a key/value tuple into the current database.\n",
    .stdout "get key         ----get the key/value tuple from the current database.\n",
    .stdout "del(ete) key    ----delete the key/value tuple from the current database.\n"]

namespace Client

variable (db : DBFunctions) (c : Client)

/-- A message, and -1. -/
def fails (text : String) : ParseResult :=
  ⟨-1, c, [], [.stderr text]⟩

/-- The label `NODB`. -/
def noDB : ParseResult :=
  c.fails "Please open a database first.\n"

/-- Two parameters; `s` is the rest of the line behind the command in `matched`. -/
def parseTwo (s matched : dbValue) : ParseResult :=
  if strcasecmp matched (ascii "set") then
    if c.hdb = 0 then c.noDB
    else
      let (_, s, matched) := GetMatch Pattern.key s matched
      let key := (atoi matched).toUInt32
      let (res, _, matched) := GetMatch Pattern.value s matched
      if res ≠ 0 then c.fails "Invaild value.\n"
      else
        ⟨db.DBSetKeyValue c.hdb key matched, c, [.DBSetKeyValue c.hdb key matched], []⟩
  else c.fails "Wrong command with two parameters.\n"

/-- One parameter. -/
def parseOne (s matched : dbValue) : ParseResult :=
  if strcasecmp matched (ascii "open") then
    if c.hdb ≠ 0 then c.fails "Please close current database first.\n"
    else
      -- `match` keeps the command when nothing is found
      let (_, _, matched) := GetMatch Pattern.name s matched
      let hdb := db.DBCreate matched
      ⟨if hdb ≠ 0 then 0 else -1, ⟨hdb, matched⟩, [.DBCreate matched], []⟩
  else if strcasecmp matched (ascii "get") then
    if c.hdb = 0 then c.noDB
    else
      let (res, _, matched) := GetMatch Pattern.key s matched
      if res ≠ 0 then c.fails "Key should be numbers.\n"
      else
        let key := (atoi matched).toUInt32
        match db.DBGetKeyValue c.hdb key with
        | some value => ⟨0, c, [.DBGetKeyValue c.hdb key], [.value value]⟩
        | none => ⟨-1, c, [.DBGetKeyValue c.hdb key], []⟩
  else if strcasecmp matched (ascii "del") ∨ strcasecmp matched (ascii "delete") then
    if c.hdb = 0 then c.noDB
    else
      let (res, _, matched) := GetMatch Pattern.key s matched
      if res ≠ 0 then c.fails "Key should be numbers.\n"
      else
        let key := (atoi matched).toUInt32
        ⟨db.DBDelKeyValue c.hdb key, c, [.DBDelKeyValue c.hdb key], []⟩
  else c.fails "Wrong command with one paramaters.\n"

/-- No parameter. -/
def parseNone (matched : dbValue) : ParseResult :=
  if strcasecmp matched (ascii "close") then
    if c.hdb = 0 then c.noDB
    else ⟨db.DBDelete c.hdb, ⟨0, []⟩, [.DBDelete c.hdb], []⟩
  else if strcasecmp matched (ascii "exit") ∨ strcasecmp matched (ascii "quit") then
    if c.hdb ≠ 0 then c.fails "Please close database first.\n"
    else ⟨1, c, [], []⟩
  else if strcasecmp matched (ascii "help") then ⟨0, c, [], HelpPrompt⟩
  else c.fails "Wrong command with none parameter.\n"

/-- `malloced` is what `match` has at first. -/
def Parse (malloced : dbValue) (input : InputLine) : ParseResult :=
  if Check Pattern.twoParameters input.chars then
    let (_, s, matched) := GetMatch Pattern.command input.chars malloced
    c.parseTwo db s matched
  else if Check Pattern.oneParameter input.chars then
    let (_, s, matched) := GetMatch Pattern.command input.chars malloced
    c.parseOne db s matched
  else if Check Pattern.noParameter input.chars then
    let (_, _, matched) := GetMatch Pattern.command input.chars malloced
    c.parseNone db matched
  else c.fails "Incorrect format.\n"

end Client

section Matching

variable {pat : Regex UInt8} {str l m t matched : dbValue}

theorem getMatch_of_found (h : Found pat str l m t) : GetMatch pat str matched = (0, t, m) := by
  rw [GetMatch, RegMatch, search_eq_some h]
  have hrest : str.drop (l.length + m.length) = t := by
    rw [h.text, ← List.length_append, List.drop_left]
  have hmatched : (str.drop l.length).take (l.length + m.length - l.length) = m := by
    rw [h.text, List.append_assoc, List.drop_left, Nat.add_sub_cancel_left, List.take_left]
  simp only [hrest, hmatched]

theorem getMatch_of_none (h : search pat str = none) :
    GetMatch pat str matched = (-1, str, matched) := by
  rw [GetMatch, RegMatch, h]

theorem check_of_matches (hstr : str = l ++ m ++ t) (h : Matches pat l m t) :
    Check pat str = true := by
  rw [Check, RegMatch, Option.isSome_iff_ne_none]
  exact fun hnone => search_eq_none_iff.mp hnone l m t hstr h

end Matching

end DistributedDB
