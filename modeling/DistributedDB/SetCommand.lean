import DistributedDB.CommandLines

/-!
# What `set` stores

The lines "blanks, `set`, blanks, digits, blanks, text" with a database open.  The text is
what follows the digits, but `\b.+` takes it from its first word on, and the value of the
digits is cut to 32 bits.

**Results.**
* `SetLine.parse_word`, `SetLine.parse_no_word`: what `Parse` does with such a line.
* `SetLine.stored_iff`: the lines that are stored as they were typed, or rejected.
* `SetLine.stored_otherwise`: a signed number loses its sign.
-/

namespace DistributedDB

open Regex

/-- A line of the form "blanks, `set`, blanks, digits, blanks, text". -/
structure SetLine where
  leading : dbValue
  command : dbValue
  gap₁ : dbValue
  digits : dbValue
  gap₂ : dbValue
  text : dbValue
  leading_blank : ∀ c ∈ leading, isspace c
  command_set : strcasecmp command (ascii "set")
  gap₁_ne : gap₁ ≠ []
  gap₁_blank : ∀ c ∈ gap₁, isspace c
  digits_ne : digits ≠ []
  digits_digit : ∀ c ∈ digits, isdigit c
  gap₂_ne : gap₂ ≠ []
  gap₂_blank : ∀ c ∈ gap₂, isspace c
  text_ne : text ≠ []
  text_begin : text.head?.any isspace = false
  no_nul : 0 ∉ leading ++ command ++ (gap₁ ++ digits ++ (gap₂ ++ text))
  length_lt : (leading ++ command ++ (gap₁ ++ digits ++ (gap₂ ++ text))).length < MAX_INPUT_LEN

namespace SetLine

variable (l : SetLine)

def line : InputLine :=
  ⟨_, l.no_nul, l.length_lt⟩

theorem length_command : l.command.length = 3 :=
  length_of_strcasecmp l.command_set

theorem command_word : ∀ c ∈ l.command, isword c :=
  isword_of_strcasecmp l.command_set (List.all_eq_true.mp (by decide))

/-- What stands behind the command. -/
def afterCommand : dbValue :=
  l.gap₁ ++ l.digits ++ (l.gap₂ ++ l.text)

theorem commandLength : CommandLength l.command := by
  rw [CommandLength, l.length_command]
  decide

theorem firstWord_digits : FirstWord l.gap₁ l.digits (l.gap₂ ++ l.text) :=
  ⟨l.gap₁_blank, l.digits_ne, fun c hc => isword_of_isdigit (l.digits_digit c hc),
    head?_blank l.gap₂_ne l.gap₂_blank⟩

theorem firstWord_command : FirstWord l.leading l.command l.afterCommand := by
  have hne : l.command ≠ [] := l.commandLength.ne_nil
  refine ⟨l.leading_blank, hne, l.command_word, ?_⟩
  rw [afterCommand, List.append_assoc]
  exact head?_blank l.gap₁_ne l.gap₁_blank

/-- The first pattern accepts the line. -/
theorem check_line : Check Pattern.twoParameters l.line.chars = true := by
  have hcommand := l.firstWord_command
  rw [afterCommand, List.append_assoc] at hcommand
  refine check_twoParameters_iff.mpr ⟨_, _, _, _, _, _, ?_, hcommand, l.commandLength,
    l.firstWord_digits, l.digits_digit, l.gap₂_ne, l.gap₂_blank, l.text_ne⟩
  simp only [line, List.append_assoc]

/-- The first `GetMatch`: the command. -/
theorem found_command :
    Found Pattern.command l.line.chars l.leading l.command l.afterCommand := by
  have hfound := l.firstWord_command.found_command l.commandLength
  rw [← List.append_assoc] at hfound
  exact hfound

/-- The second `GetMatch`: the digits. -/
theorem found_key :
    Found Pattern.key l.afterCommand l.gap₁ l.digits (l.gap₂ ++ l.text) := by
  have hfound := l.firstWord_digits.found_key l.digits_digit
  rw [← List.append_assoc] at hfound
  exact hfound

/-- The third `GetMatch`: the text from its first word on. -/
theorem found_value {skipped rest : dbValue} {c : UInt8} (htext : l.text = skipped ++ c :: rest)
    (hskipped : ∀ d ∈ skipped, isword d = false) (hc : isword c) :
    Found Pattern.value (l.gap₂ ++ l.text) (l.gap₂ ++ skipped) (c :: rest) [] := by
  refine found_rest ?_ ?_ hc
  · rw [htext, List.append_assoc]
  · exact List.forall_mem_append.mpr
      ⟨fun d hd => isword_of_isspace (l.gap₂_blank d hd), hskipped⟩

theorem search_value_eq_none (h : ∀ c ∈ l.text, isword c = false) :
    search Pattern.value (l.gap₂ ++ l.text) = none :=
  search_rest_eq_none (List.forall_mem_append.mpr
    ⟨fun c hc => isword_of_isspace (l.gap₂_blank c hc), h⟩)

section Parse

variable (db : DBFunctions) {c : Client} (malloced : dbValue)

/-- The line up to the digits. -/
theorem parse_eq (hopen : c.hdb ≠ 0) :
    c.Parse db malloced l.line =
      let (res, _, value) := GetMatch Pattern.value (l.gap₂ ++ l.text) l.digits
      if res ≠ 0 then c.fails "Invaild value.\n"
      else
        ⟨db.DBSetKeyValue c.hdb (atoi l.digits).toUInt32 value, c,
          [.DBSetKeyValue c.hdb (atoi l.digits).toUInt32 value], []⟩ := by
  rw [Client.Parse, if_pos l.check_line, getMatch_of_found l.found_command]
  simp only [Client.parseTwo, if_pos l.command_set, if_neg hopen, getMatch_of_found l.found_key]

/-- A text with a word is stored from its first word on. -/
theorem parse_word (hopen : c.hdb ≠ 0) {skipped rest : dbValue} {d : UInt8}
    (htext : l.text = skipped ++ d :: rest) (hskipped : ∀ e ∈ skipped, isword e = false)
    (hd : isword d) :
    c.Parse db malloced l.line =
      ⟨db.DBSetKeyValue c.hdb (atoi l.digits).toUInt32 (d :: rest), c,
        [.DBSetKeyValue c.hdb (atoi l.digits).toUInt32 (d :: rest)], []⟩ := by
  rw [l.parse_eq db malloced hopen, getMatch_of_found (l.found_value htext hskipped hd)]
  rfl

/-- A text without a word is rejected. -/
theorem parse_no_word (hopen : c.hdb ≠ 0) (h : ∀ d ∈ l.text, isword d = false) :
    c.Parse db malloced l.line = c.fails "Invaild value.\n" := by
  rw [l.parse_eq db malloced hopen, getMatch_of_none (l.search_value_eq_none h)]
  rfl

end Parse

/-- The line is stored as it was typed, or rejected. -/
def Stored (hdb : DataBase) (r : ParseResult) : Prop :=
  (∃ key : dbKey, r.calls = [.DBSetKeyValue hdb key l.text] ∧ key.toNat = numeral l.digits) ∨
    r.res = -1 ∧ r.calls = []

/-- **`set` stores what was typed, or rejects it, exactly when the text has no word, or
begins with one and the key has at most 32 bits.** -/
theorem stored_iff (db : DBFunctions) {c : Client} (malloced : dbValue) (hopen : c.hdb ≠ 0) :
    l.Stored c.hdb (c.Parse db malloced l.line) ↔
      (∀ d ∈ l.text, isword d = false) ∨
        l.text.head?.any isword ∧ numeral l.digits < 2 ^ 32 := by
  have hkey := toNat_atoi l.digits_digit
  cases hfind : l.text.find? isword with
  | none =>
      have hnone : ∀ d ∈ l.text, isword d = false := fun d hd =>
        Bool.not_eq_true _ ▸ List.find?_eq_none.mp hfind d hd
      rw [l.parse_no_word db malloced hopen hnone]
      exact iff_of_true (Or.inr ⟨rfl, rfl⟩) (Or.inl hnone)
  | some d =>
      obtain ⟨hd, skipped, rest, htext, hskipped⟩ := List.find?_eq_some_iff_append.mp hfind
      have hskipped' : ∀ e ∈ skipped, isword e = false :=
        fun e he => by simpa using hskipped e he
      rw [l.parse_word db malloced hopen htext hskipped' hd]
      constructor
      · rintro (⟨key, hcalls, hnumeral⟩ | ⟨-, hcalls⟩)
        · obtain ⟨-, rfl, hvalue⟩ :=
            ClientCall.DBSetKeyValue.inj (List.singleton_inj.mp hcalls)
          rw [← hvalue]
          refine Or.inr ⟨hd, ?_⟩
          rw [← hnumeral]
          exact UInt32.toNat_lt _
        · cases hcalls
      · rintro (hnone | ⟨hhead, hlt⟩)
        · have hmem : d ∈ l.text := List.mem_of_find?_eq_some hfind
          rw [hnone d hmem] at hd
          cases hd
        · have hnil : skipped = [] := by
            cases skipped with
            | nil => rfl
            | cons e skipped =>
                rw [htext, List.cons_append, List.head?_cons, Option.any_some,
                  hskipped' e List.mem_cons_self] at hhead
                cases hhead
          rw [hnil, List.nil_append] at htext
          refine Or.inl ⟨_, ?_, hkey.trans (Nat.mod_eq_of_lt hlt)⟩
          rw [htext]

section Lines

/-- Database functions that succeed. -/
def succeeding : DBFunctions :=
  ⟨fun _ => 1, fun _ => 0, fun _ _ _ => 0, fun _ _ => some [], fun _ _ => 0⟩

/-- `set 12 one two` -/
def plainLine : SetLine where
  leading := []
  command := ascii "set"
  gap₁ := ascii " "
  digits := ascii "12"
  gap₂ := ascii " "
  text := ascii "one two"
  leading_blank := List.forall_mem_nil _
  command_set := by decide
  gap₁_ne := by decide
  gap₁_blank := List.all_eq_true.mp (by decide)
  digits_ne := by decide
  digits_digit := List.all_eq_true.mp (by decide)
  gap₂_ne := by decide
  gap₂_blank := List.all_eq_true.mp (by decide)
  text_ne := by decide
  text_begin := by decide
  no_nul := by decide
  length_lt := by decide

/-- A line with words only is stored. -/
theorem stored_iff_plainLine :
    (1 : DataBase) ≠ 0 ∧
      (plainLine.Stored 1 ((⟨1, []⟩ : Client).Parse succeeding [] plainLine.line) ↔
        (∀ d ∈ plainLine.text, isword d = false) ∨
          plainLine.text.head?.any isword ∧ numeral plainLine.digits < 2 ^ 32) :=
  ⟨by decide, plainLine.stored_iff succeeding (c := ⟨1, []⟩) [] (by decide)⟩

/-- `set 12 -5` -/
def signedLine : SetLine :=
  { plainLine with
    text := ascii "-5"
    text_ne := by decide
    text_begin := by decide
    no_nul := by decide
    length_lt := by decide }

/-- `set 4294967297 a` -/
def longKeyLine : SetLine :=
  { plainLine with
    digits := ascii "4294967297"
    text := ascii "a"
    digits_ne := by decide
    digits_digit := List.all_eq_true.mp (by decide)
    text_ne := by decide
    text_begin := by decide
    no_nul := by decide
    length_lt := by decide }

/-- `set 12 -5` stores `5`, and `set 4294967297 a` stores under the key 1. -/
theorem stored_otherwise :
    (((⟨1, []⟩ : Client).Parse succeeding [] signedLine.line).calls =
        [.DBSetKeyValue 1 12 (ascii "5")] ∧
      ¬ signedLine.Stored 1 ((⟨1, []⟩ : Client).Parse succeeding [] signedLine.line)) ∧
    ((⟨1, []⟩ : Client).Parse succeeding [] longKeyLine.line).calls =
        [.DBSetKeyValue 1 1 (ascii "a")] ∧
      ¬ longKeyLine.Stored 1 ((⟨1, []⟩ : Client).Parse succeeding [] longKeyLine.line) := by
  have htext : signedLine.text = ['-'.toUInt8] ++ '5'.toUInt8 :: [] := by decide
  have htext' : longKeyLine.text = [] ++ 'a'.toUInt8 :: [] := by decide
  have hopen : (⟨1, []⟩ : Client).hdb ≠ 0 := by decide
  have hsign : ∀ c ∈ ['-'.toUInt8], isword c = false :=
    List.forall_mem_singleton.mpr (by decide)
  rw [signedLine.parse_word succeeding [] hopen htext hsign (by decide),
    longKeyLine.parse_word succeeding [] hopen htext' (List.forall_mem_nil _) (by decide)]
  refine ⟨⟨by decide, ?_⟩, by decide, ?_⟩
  · rintro (⟨key, hcalls, -⟩ | ⟨-, hcalls⟩)
    · obtain ⟨-, -, hvalue⟩ := ClientCall.DBSetKeyValue.inj (List.singleton_inj.mp hcalls)
      exact absurd hvalue (by decide)
    · cases hcalls
  · rintro (⟨key, hcalls, hnumeral⟩ | ⟨-, hcalls⟩)
    · obtain ⟨-, hkey, -⟩ := ClientCall.DBSetKeyValue.inj (List.singleton_inj.mp hcalls)
      rw [← hkey] at hnumeral
      exact absurd hnumeral (by decide)
    · cases hcalls

end Lines

end SetLine

end DistributedDB
