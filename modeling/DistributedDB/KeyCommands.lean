import DistributedDB.SetCommand

/-!
# What `get` and `del` accept

The lines "blanks, `get`, `del` or `delete`, blanks, digits, blanks" with a database open.
Two blanks behind the digits are a second parameter for the first pattern, which is tried
first, and `delete` is longer than any command of the patterns.

**Results.**
* `KeyLine.check_twoParameters`, `KeyLine.commandLength_iff`: the pattern that accepts a line.
* `KeyLine.parse_accepted`, `KeyLine.parse_two_blanks`, `KeyLine.parse_delete`: what `Parse`
  does with it.
* `KeyLine.parse_eq_outcome_iff`: the lines with the documented outcome.
* `KeyLine.rejected`: `get 5` with two blanks behind it, and `delete 5`, are rejected.
-/

namespace DistributedDB

open Regex

/-- The commands with a key, as `HelpPrompt` has them. -/
inductive KeyCommand where
  | get
  | del
  | delete
deriving DecidableEq, Repr

def KeyCommand.word : KeyCommand → dbValue
  | .get => ascii "get"
  | .del => ascii "del"
  | .delete => ascii "delete"

/-- A line of the form "blanks, command, blanks, digits, blanks". -/
structure KeyLine where
  leading : dbValue
  name : KeyCommand
  command : dbValue
  gap : dbValue
  digits : dbValue
  trailing : dbValue
  leading_blank : ∀ c ∈ leading, isspace c
  command_name : strcasecmp command name.word
  gap_ne : gap ≠ []
  gap_blank : ∀ c ∈ gap, isspace c
  digits_ne : digits ≠ []
  digits_digit : ∀ c ∈ digits, isdigit c
  key_lt : numeral digits < 2 ^ 31
  trailing_blank : ∀ c ∈ trailing, isspace c
  no_nul : 0 ∉ leading ++ (command ++ (gap ++ (digits ++ trailing)))
  length_lt : (leading ++ (command ++ (gap ++ (digits ++ trailing)))).length < MAX_INPUT_LEN

namespace KeyLine

variable (l : KeyLine)

def line : InputLine :=
  ⟨_, l.no_nul, l.length_lt⟩

def key : dbKey :=
  UInt32.ofNat (numeral l.digits)

/-- What the command is for: the blanks do not matter. -/
def outcome (db : DBFunctions) (c : Client) : ParseResult :=
  match l.name with
  | .get =>
      match db.DBGetKeyValue c.hdb l.key with
      | some value => ⟨0, c, [.DBGetKeyValue c.hdb l.key], [.value value]⟩
      | none => ⟨-1, c, [.DBGetKeyValue c.hdb l.key], []⟩
  | .del | .delete => ⟨db.DBDelKeyValue c.hdb l.key, c, [.DBDelKeyValue c.hdb l.key], []⟩

section Pieces

theorem command_word : ∀ c ∈ l.command, isword c := by
  refine isword_of_strcasecmp l.command_name ?_
  cases l.name with
  | get => exact List.all_eq_true.mp (by decide)
  | del => exact List.all_eq_true.mp (by decide)
  | delete => exact List.all_eq_true.mp (by decide)

theorem length_command : l.command.length = l.name.word.length :=
  length_of_strcasecmp l.command_name

/-- `delete` has six characters. -/
theorem commandLength_iff : CommandLength l.command ↔ l.name ≠ .delete := by
  rw [CommandLength, l.length_command]
  cases l.name with
  | get => decide
  | del => decide
  | delete => decide

theorem firstWord_digits : FirstWord l.gap l.digits l.trailing :=
  ⟨l.gap_blank, l.digits_ne, fun c hc => isword_of_isdigit (l.digits_digit c hc),
    head?_blanks l.trailing_blank⟩

theorem firstWord_command :
    FirstWord l.leading l.command (l.gap ++ (l.digits ++ l.trailing)) := by
  have hne : l.command ≠ [] := by
    refine List.ne_nil_of_length_pos ?_
    rw [l.length_command]
    cases l.name with
    | get => decide
    | del => decide
    | delete => decide
  exact ⟨l.leading_blank, hne, l.command_word, head?_blank l.gap_ne l.gap_blank⟩

/-- The first pattern takes the second of two blanks for a parameter. -/
theorem check_twoParameters :
    Check Pattern.twoParameters l.line.chars = true ↔
      l.name ≠ .delete ∧ 2 ≤ l.trailing.length := by
  have hcheck := l.firstWord_command.check_twoParameters_blanks l.firstWord_digits l.trailing_blank
  rw [l.commandLength_iff] at hcheck
  refine hcheck.trans (and_congr_right fun _ => ?_)
  exact and_iff_right l.digits_digit

theorem check_oneParameter (hname : l.name ≠ .delete) :
    Check Pattern.oneParameter l.line.chars = true := by
  refine check_oneParameter_iff.mpr ⟨l.leading, l.command, l.gap, l.digits, [], l.trailing, rfl,
    l.firstWord_command, l.commandLength_iff.mpr hname, l.firstWord_digits, Or.inl rfl,
    l.trailing_blank⟩

/-- The key is not cut. -/
theorem atoi_eq_key : (atoi l.digits).toUInt32 = l.key := by
  apply UInt32.toNat_inj.mp
  rw [toNat_atoi l.digits_digit]
  exact (UInt32.toNat_ofNat' ..).symm

end Pieces

section Parse

variable (db : DBFunctions) {c : Client} (malloced : dbValue)

/-- A line that reaches the second pattern. -/
theorem parse_accepted (hopen : c.hdb ≠ 0) (hname : l.name ≠ .delete)
    (htrailing : l.trailing.length ≤ 1) : c.Parse db malloced l.line = l.outcome db c := by
  have htwo : ¬ Check Pattern.twoParameters l.line.chars = true := by
    rw [l.check_twoParameters]
    omega
  have hcommand : Found Pattern.command l.line.chars l.leading l.command _ :=
    l.firstWord_command.found_command (l.commandLength_iff.mpr hname)
  have hkey := l.firstWord_digits.found_key l.digits_digit
  rw [Client.Parse, if_neg htwo, if_pos (l.check_oneParameter hname), getMatch_of_found hcommand]
  have hword := strcasecmp_congr l.command_name
  have hopen' : ¬ strcasecmp l.command (ascii "open") = true := by
    rw [hword]
    cases l.name with
    | get => decide
    | del => decide
    | delete => decide
  cases hn : l.name with
  | get =>
      rw [hn] at hword
      have hget : strcasecmp l.command (ascii "get") = true := by
        rw [hword]
        decide
      simp only [Client.parseOne, if_neg hopen', if_pos hget, if_neg hopen, getMatch_of_found hkey,
        l.atoi_eq_key, outcome, hn]
      rfl
  | del =>
      rw [hn] at hword
      have hget : ¬ strcasecmp l.command (ascii "get") = true := by
        rw [hword]
        decide
      have hdel : strcasecmp l.command (ascii "del") = true := by
        rw [hword]
        decide
      simp only [Client.parseOne, if_neg hopen', if_neg hget, if_pos (Or.inl hdel), if_neg hopen,
        getMatch_of_found hkey, l.atoi_eq_key, outcome, hn]
      rfl
  | delete => exact absurd hn hname

/-- Two blanks behind the key. -/
theorem parse_two_blanks (hname : l.name ≠ .delete) (htrailing : 2 ≤ l.trailing.length) :
    c.Parse db malloced l.line = c.fails "Wrong command with two parameters.\n" := by
  have hcommand : Found Pattern.command l.line.chars l.leading l.command _ :=
    l.firstWord_command.found_command (l.commandLength_iff.mpr hname)
  have hset : ¬ strcasecmp l.command (ascii "set") = true := by
    rw [strcasecmp_congr l.command_name]
    cases l.name with
    | get => decide
    | del => decide
    | delete => decide
  rw [Client.Parse, if_pos (l.check_twoParameters.mpr ⟨hname, htrailing⟩),
    getMatch_of_found hcommand]
  exact if_neg hset

/-- The long form of `del`. -/
theorem parse_delete (hname : l.name = .delete) :
    c.Parse db malloced l.line = c.fails "Incorrect format.\n" := by
  have hlength : ¬ CommandLength l.command := fun h => l.commandLength_iff.mp h hname
  obtain ⟨htwo, hone, hno⟩ := l.firstWord_command.not_check hlength
  rw [Client.Parse]
  simp only [line, htwo, hone, hno]
  rfl

/-- The outcome has a call. -/
theorem outcome_ne_fails (text : String) : c.fails text ≠ l.outcome db c := by
  intro h
  have hcalls := congrArg ParseResult.calls h
  rw [outcome] at hcalls
  cases hn : l.name with
  | get =>
      rw [hn] at hcalls
      cases hv : db.DBGetKeyValue c.hdb l.key with
      | none => simp only [hv, Client.fails, reduceCtorEq] at hcalls
      | some value => simp only [hv, Client.fails, reduceCtorEq] at hcalls
  | del => simp only [hn, Client.fails, reduceCtorEq] at hcalls
  | delete => simp only [hn, Client.fails, reduceCtorEq] at hcalls

end Parse

/-- **`get` and `del` do what they are for exactly when the command is not written out as
`delete` and at most one blank follows the key.** -/
theorem parse_eq_outcome_iff (db : DBFunctions) {c : Client} (malloced : dbValue)
    (hopen : c.hdb ≠ 0) :
    c.Parse db malloced l.line = l.outcome db c ↔
      l.name ≠ .delete ∧ l.trailing.length ≤ 1 := by
  constructor
  · intro h
    by_contra hnot
    by_cases hname : l.name = .delete
    · rw [l.parse_delete db malloced hname] at h
      exact l.outcome_ne_fails db _ h
    · have htrailing : 2 ≤ l.trailing.length := by
        by_contra hle
        exact hnot ⟨hname, by omega⟩
      rw [l.parse_two_blanks db malloced hname htrailing] at h
      exact l.outcome_ne_fails db _ h
  · rintro ⟨hname, htrailing⟩
    exact l.parse_accepted db malloced hopen hname htrailing

section Lines

/-- `get 5` -/
def getLine : KeyLine where
  leading := []
  name := .get
  command := ascii "get"
  gap := ascii " "
  digits := ascii "5"
  trailing := []
  leading_blank := SetLine.plainLine.leading_blank
  command_name := by decide
  gap_ne := SetLine.plainLine.gap₁_ne
  gap_blank := SetLine.plainLine.gap₁_blank
  digits_ne := by decide
  digits_digit := List.all_eq_true.mp (by decide)
  key_lt := by decide
  trailing_blank := SetLine.plainLine.leading_blank
  no_nul := by decide
  length_lt := by decide

theorem parse_eq_outcome_iff_getLine :
    (1 : DataBase) ≠ 0 ∧
      ((⟨1, []⟩ : Client).Parse SetLine.succeeding [] getLine.line =
          getLine.outcome SetLine.succeeding ⟨1, []⟩ ↔
        getLine.name ≠ .delete ∧ getLine.trailing.length ≤ 1) :=
  ⟨by decide, getLine.parse_eq_outcome_iff SetLine.succeeding (c := ⟨1, []⟩) [] (by decide)⟩

/-- `get 5` with two blanks behind it. -/
def blanksLine : KeyLine :=
  { getLine with
    trailing := ascii "  "
    trailing_blank := List.all_eq_true.mp (by decide)
    no_nul := by decide
    length_lt := by decide }

/-- `delete 5` -/
def deleteLine : KeyLine :=
  { getLine with
    name := .delete
    command := ascii "delete"
    command_name := by decide
    no_nul := by decide
    length_lt := by decide }

/-- `get 5` is rejected with two blanks behind it, and `delete 5` always. -/
theorem rejected :
    ((⟨1, []⟩ : Client).Parse SetLine.succeeding [] blanksLine.line =
        (⟨1, []⟩ : Client).fails "Wrong command with two parameters.\n" ∧
      (⟨1, []⟩ : Client).Parse SetLine.succeeding [] blanksLine.line ≠
        blanksLine.outcome SetLine.succeeding ⟨1, []⟩) ∧
    (⟨1, []⟩ : Client).Parse SetLine.succeeding [] deleteLine.line =
        (⟨1, []⟩ : Client).fails "Incorrect format.\n" ∧
      (⟨1, []⟩ : Client).Parse SetLine.succeeding [] deleteLine.line ≠
        deleteLine.outcome SetLine.succeeding ⟨1, []⟩ := by
  rw [blanksLine.parse_two_blanks SetLine.succeeding [] (by decide) (by decide),
    deleteLine.parse_delete SetLine.succeeding [] rfl]
  exact ⟨⟨rfl, blanksLine.outcome_ne_fails SetLine.succeeding _⟩,
    rfl, deleteLine.outcome_ne_fails SetLine.succeeding _⟩

end Lines

end KeyLine

end DistributedDB
