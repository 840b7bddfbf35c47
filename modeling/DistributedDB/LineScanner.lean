import DistributedDB.OpenCommand

/-!
# Lines read without regular expressions

A line cut at its blanks: a command, an operand and the rest.  What a line asks for is read
from these pieces in one pass, and what it does is a function of the request.  `Parse`, with
its three patterns and the searches inside the line, does the same for every line.

**Results.**
* `Words.check_twoParameters_iff`, `Words.check_oneParameter_iff`,
  `Words.check_noParameter_iff`: the patterns, on the pieces of a line.
* `search_key_eq_none`: the operands without a key.
* `parse_eq_perform`: `Parse` and the scanner agree.
-/

namespace DistributedDB

open Regex

def notSpace (c : UInt8) : Bool :=
  !isspace c

/-- A line cut at its blanks: the command, its operand, and what follows. -/
structure Words where
  command : dbValue
  operand : dbValue
  rest : dbValue
deriving DecidableEq, Repr

/-- What a line asks for. -/
inductive LineCommand where
  /-- There may be no value in the line. -/
  | set (key : dbKey) (value : Option dbValue)
  | create (dbName : dbValue)
  /-- The operand may be no number. -/
  | get (key : Option dbKey)
  | del (key : Option dbKey)
  | close
  | exit
  | help
  | wrong (text : String)
deriving DecidableEq, Repr

section Scanner

instance (command : dbValue) : Decidable (CommandLength command) :=
  inferInstanceAs (Decidable (3 ≤ command.length ∧ command.length ≤ 5))

/-- A dot, and a word that ends in `db`. -/
def isSuffix : dbValue → Bool
  | [] => true
  | c :: w =>
      c == '.'.toUInt8 && w.all isword && strcasecmp (w.drop (w.length - 2)) (ascii "db")

namespace Words

def ofLine (chars : dbValue) : Words :=
  let s := chars.dropWhile isspace
  let t := (s.dropWhile notSpace).dropWhile isspace
  ⟨s.takeWhile notSpace, t.takeWhile notSpace, t.dropWhile notSpace⟩

variable (w : Words)

/-- A word of three to five characters. -/
def isCommand : Bool :=
  decide (CommandLength w.command) && w.command.all isword

def stem : dbValue :=
  w.operand.takeWhile isword

/-- A number with something behind the blank that follows. -/
def hasTwo : Bool :=
  !w.operand.isEmpty && w.operand.all isdigit && decide (2 ≤ w.rest.length)

/-- A word that may have a suffix, and blanks. -/
def hasOne : Bool :=
  !w.stem.isEmpty && isSuffix (w.operand.dropWhile isword) && w.rest.all isspace

/-- The number that an operand begins with; a suffix does not count. -/
def key : Option dbKey :=
  if w.stem.all isdigit then some (UInt32.ofNat (numeral w.stem)) else none

/-- What follows the operand, from its first word on. -/
def value : Option dbValue :=
  match w.rest.dropWhile fun c => !isword c with
  | [] => none
  | c :: value => some (c :: value)

/-- The operand, if it has a suffix. -/
def name : dbValue :=
  if '.'.toUInt8 ∈ w.operand then w.operand else w.command

def scanTwo : LineCommand :=
  if strcasecmp w.command (ascii "set") then .set (UInt32.ofNat (numeral w.operand)) w.value
  else .wrong "Wrong command with two parameters.\n"

def scanOne : LineCommand :=
  if strcasecmp w.command (ascii "open") then .create w.name
  else if strcasecmp w.command (ascii "get") then .get w.key
  else if strcasecmp w.command (ascii "del") then .del w.key
  else .wrong "Wrong command with one paramaters.\n"

def scanNone : LineCommand :=
  if strcasecmp w.command (ascii "close") then .close
  else if strcasecmp w.command (ascii "exit") ∨ strcasecmp w.command (ascii "quit") then .exit
  else if strcasecmp w.command (ascii "help") then .help
  else .wrong "Wrong command with none parameter.\n"

def scan : LineCommand :=
  if w.isCommand then
    if w.hasTwo then w.scanTwo
    else if w.hasOne then w.scanOne
    else if w.operand.isEmpty then w.scanNone
    else .wrong "Incorrect format.\n"
  else .wrong "Incorrect format.\n"

end Words

end Scanner

namespace Client

variable (db : DBFunctions) (c : Client)

/-- What a request needs a database for. -/
def guarded (r : ParseResult) : ParseResult :=
  if c.hdb = 0 then c.noDB else r

/-- `set` with a value. -/
def stored (key : dbKey) (value : dbValue) : ParseResult :=
  ⟨db.DBSetKeyValue c.hdb key value, c, [.DBSetKeyValue c.hdb key value], []⟩

/-- `get` with a key. -/
def got (key : dbKey) : ParseResult :=
  match db.DBGetKeyValue c.hdb key with
  | some value => ⟨0, c, [.DBGetKeyValue c.hdb key], [.value value]⟩
  | none => ⟨-1, c, [.DBGetKeyValue c.hdb key], []⟩

/-- `del` with a key. -/
def deleted (key : dbKey) : ParseResult :=
  ⟨db.DBDelKeyValue c.hdb key, c, [.DBDelKeyValue c.hdb key], []⟩

/-- A request, executed. -/
def perform : LineCommand → ParseResult
  | .set key value =>
      c.guarded <|
        match value with
        | none => c.fails "Invaild value.\n"
        | some value => c.stored db key value
  | .get key =>
      c.guarded <|
        match key with
        | none => c.fails "Key should be numbers.\n"
        | some key => c.got db key
  | .del key =>
      c.guarded <|
        match key with
        | none => c.fails "Key should be numbers.\n"
        | some key => c.deleted db key
  | .close => c.guarded ⟨db.DBDelete c.hdb, ⟨0, []⟩, [.DBDelete c.hdb], []⟩
  | .create dbName =>
      if c.hdb ≠ 0 then c.fails "Please close current database first.\n"
      else
        ⟨if db.DBCreate dbName ≠ 0 then 0 else -1, ⟨db.DBCreate dbName, dbName⟩,
          [.DBCreate dbName], []⟩
  | .exit => if c.hdb ≠ 0 then c.fails "Please close database first.\n" else ⟨1, c, [], []⟩
  | .help => ⟨0, c, [], HelpPrompt⟩
  | .wrong text => c.fails text

end Client

section Pieces

theorem notSpace_of_isword {c : UInt8} (h : isword c) : notSpace c := by
  rw [notSpace, isspace_of_isword h]
  rfl

/-- What `dropWhile` leaves begins outside the class. -/
theorem head?_dropWhile (p : UInt8 → Bool) (s : dbValue) :
    (s.dropWhile p).head?.any p = false := by
  induction s with
  | nil => rfl
  | cons c s ih =>
      by_cases hc : p c
      · rw [List.dropWhile_cons_of_pos hc]
        exact ih
      · rw [List.dropWhile_cons_of_neg hc, List.head?_cons, Option.any_some]
        exact Bool.eq_false_iff.mpr hc

/-- A text that begins neither in a class nor outside it is empty. -/
theorem eq_nil_of_begins {s : dbValue} (hspace : s.head?.any isspace = false)
    (hnot : s.head?.any notSpace = false) : s = [] := by
  cases s with
  | nil => rfl
  | cons c s =>
      rw [List.head?_cons, Option.any_some] at hspace hnot
      rw [notSpace, hspace] at hnot
      cases hnot

/-- A suffix, as `isSuffix` reads it. -/
theorem isSuffix_iff {suffix : dbValue} :
    isSuffix suffix = true ↔ suffix = [] ∨ DBSuffix suffix := by
  cases suffix with
  | nil => exact iff_of_true rfl (Or.inl rfl)
  | cons c w =>
      rw [isSuffix, Bool.and_eq_true, Bool.and_eq_true, beq_iff_eq, List.all_eq_true]
      constructor
      · rintro ⟨⟨rfl, hword⟩, hdb⟩
        refine Or.inr ⟨w.take (w.length - 2), w.drop (w.length - 2), ?_, ?_, hdb⟩
        · rw [List.take_append_drop]
        · exact fun c hc => hword c (List.mem_of_mem_take hc)
      · rintro (hnil | ⟨middle, db, heq, hmiddle, hdb⟩)
        · cases hnil
        · obtain ⟨rfl, rfl⟩ := List.cons.inj heq
          have hlength : db.length = 2 := length_of_strcasecmp hdb
          have hword : ∀ c ∈ db, isword c :=
            isword_of_strcasecmp hdb (List.all_eq_true.mp (by decide))
          refine ⟨⟨rfl, List.forall_mem_append.mpr ⟨hmiddle, hword⟩⟩, ?_⟩
          rw [List.length_append, hlength, Nat.add_sub_cancel, List.drop_left]
          exact hdb

/-- The pieces of a line, put together. -/
structure Cut (chars leading gap : dbValue) (w : Words) : Prop where
  text : chars = leading ++ (w.command ++ (gap ++ (w.operand ++ w.rest)))
  leading_blank : ∀ c ∈ leading, isspace c
  gap_blank : ∀ c ∈ gap, isspace c
  gap_nil : gap = [] → w.operand = []
  operand_notSpace : ∀ c ∈ w.operand, notSpace c
  operand_nil : w.operand = [] → w.rest = []
  rest_begin : w.rest.head?.any notSpace = false

namespace Words

/-- Every line is cut. -/
theorem exists_cut (chars : dbValue) : ∃ leading gap, Cut chars leading gap (ofLine chars) := by
  let s := chars.dropWhile isspace
  let u := s.dropWhile notSpace
  let t := u.dropWhile isspace
  have hends : (t.dropWhile notSpace).head?.any notSpace = false := head?_dropWhile notSpace t
  have hrest : t.takeWhile notSpace ++ t.dropWhile notSpace = t := List.takeWhile_append_dropWhile
  have hgap : u.takeWhile isspace ++ t = u := List.takeWhile_append_dropWhile
  have hcommand : s.takeWhile notSpace ++ u = s := List.takeWhile_append_dropWhile
  have hleading : chars.takeWhile isspace ++ s = chars := List.takeWhile_append_dropWhile
  refine ⟨chars.takeWhile isspace, u.takeWhile isspace, ?_, fun c hc => List.mem_takeWhile_imp hc,
    fun c hc => List.mem_takeWhile_imp hc, ?_, fun c hc => List.mem_takeWhile_imp hc, ?_, hends⟩
  · calc chars
        = chars.takeWhile isspace ++ (s.takeWhile notSpace ++ (u.takeWhile isspace ++ t)) := by
          rw [hgap, hcommand, hleading]
      _ = _ := by rw [← hrest]; rfl
  · intro hnil
    have hu : u = [] := by
      refine eq_nil_of_begins ?_ (head?_dropWhile notSpace s)
      rw [hnil, List.nil_append] at hgap
      rw [← hgap]
      exact head?_dropWhile isspace u
    change (u.dropWhile isspace).takeWhile notSpace = []
    rw [hu]
    rfl
  · intro hnil
    have hoperand : t.takeWhile notSpace = [] := hnil
    rw [hoperand, List.nil_append] at hrest
    change t.dropWhile notSpace = []
    refine eq_nil_of_begins ?_ hends
    rw [hrest]
    exact head?_dropWhile isspace u

variable {w : Words}

theorem isCommand_iff :
    w.isCommand = true ↔ CommandLength w.command ∧ ∀ c ∈ w.command, isword c := by
  rw [isCommand, Bool.and_eq_true, decide_eq_true_iff, List.all_eq_true]

theorem hasTwo_iff :
    w.hasTwo = true ↔ w.operand ≠ [] ∧ (∀ c ∈ w.operand, isdigit c) ∧
      2 ≤ w.rest.length := by
  rw [hasTwo, Bool.and_eq_true, Bool.and_eq_true, Bool.not_eq_true', List.isEmpty_eq_false_iff,
    List.all_eq_true, decide_eq_true_iff, and_assoc]

/-- The operand is cut behind its first word. -/
theorem hasOne_iff :
    w.hasOne = true ↔
      ∃ suffix, w.operand = w.stem ++ suffix ∧ w.stem ≠ [] ∧
        (suffix = [] ∨ DBSuffix suffix) ∧
        ∀ c ∈ w.rest, isspace c := by
  rw [hasOne, Bool.and_eq_true, Bool.and_eq_true, Bool.not_eq_true', List.isEmpty_eq_false_iff,
    List.all_eq_true, isSuffix_iff, and_assoc]
  have hsplit : w.stem ++ w.operand.dropWhile isword = w.operand :=
    List.takeWhile_append_dropWhile
  constructor
  · rintro ⟨hne, hsuffix, hrest⟩
    exact ⟨_, hsplit.symm, hne, hsuffix, hrest⟩
  · rintro ⟨suffix, hoperand, hne, hsuffix, hrest⟩
    obtain rfl : w.operand.dropWhile isword = suffix :=
      List.append_cancel_left (hsplit.trans hoperand)
    exact ⟨hne, hsuffix, hrest⟩

theorem stem_word (w : Words) : ∀ c ∈ w.stem, isword c :=
  fun _ hc => List.mem_takeWhile_imp hc

/-- The value of `set` is a part of the line. -/
theorem mem_of_scan {chars value : dbValue} {key : dbKey}
    (h : (ofLine chars).scan = .set key (some value)) {c : UInt8} (hc : c ∈ value) :
    c ∈ chars := by
  have hvalue : (ofLine chars).value = some value := by
    rw [scan] at h
    split at h
    · split at h
      · rw [scanTwo] at h
        split at h
        · exact (LineCommand.set.inj h).2
        · cases h
      · rw [scanOne, scanNone] at h
        split_ifs at h
    · cases h
  have hrest : c ∈ (ofLine chars).rest := by
    rw [Words.value] at hvalue
    split at hvalue
    · cases hvalue
    · next d rest hdrop =>
        obtain rfl := Option.some.inj hvalue
        exact List.dropWhile_subset _ (hdrop ▸ hc)
  obtain ⟨leading, gap, hcut⟩ := exists_cut chars
  rw [hcut.text]
  exact List.mem_append_right _ (List.mem_append_right _
    (List.mem_append_right _ (List.mem_append_right _ hrest)))

end Words

namespace Cut

variable {chars leading gap stem suffix : dbValue} {w : Words}

/-- The gap and what follows it begin with a blank. -/
theorem behind_begin (h : Cut chars leading gap w) :
    (gap ++ (w.operand ++ w.rest)).head?.any notSpace = false := by
  cases hgap : gap with
  | nil =>
      rw [h.gap_nil hgap, h.operand_nil (h.gap_nil hgap)]
      rfl
  | cons c gap' =>
      have hc : isspace c := h.gap_blank c (hgap ▸ List.mem_cons_self)
      rw [List.cons_append, List.head?_cons, Option.any_some, notSpace, hc]
      rfl

/-- What begins with a blank begins no word. -/
theorem begin_word {s : dbValue} (h : s.head?.any notSpace = false) :
    s.head?.any isword = false := by
  cases s with
  | nil => rfl
  | cons c s =>
      rw [List.head?_cons, Option.any_some] at h ⊢
      by_contra hword
      rw [notSpace_of_isword (Bool.not_eq_false _ ▸ hword)] at h
      cases h

/-- A line with a command begins with it. -/
theorem firstWord (h : Cut chars leading gap w) (hcommand : w.isCommand = true) :
    FirstWord leading w.command (gap ++ (w.operand ++ w.rest)) := by
  obtain ⟨hlength, hword⟩ := Words.isCommand_iff.mp hcommand
  exact ⟨h.leading_blank, hlength.ne_nil, hword, begin_word h.behind_begin⟩

/-- The operand begins behind the gap. -/
theorem firstWord_operand (h : Cut chars leading gap w) (hoperand : w.operand = stem ++ suffix)
    (hne : stem ≠ []) (hstem : ∀ c ∈ stem, isword c)
    (hsuffix : suffix = [] ∨ DBSuffix suffix) :
    FirstWord gap stem (suffix ++ w.rest) := by
  refine ⟨h.gap_blank, hne, hstem, ?_⟩
  rcases hsuffix with rfl | ⟨middle, db, rfl, -, -⟩
  · exact begin_word h.rest_begin
  · rfl

/-- **A line with a command is cut in one way.** -/
theorem ofLine_eq (h : Cut chars leading gap w) (hcommand : w.isCommand = true) :
    Words.ofLine chars = w := by
  obtain ⟨hlength, hword⟩ := Words.isCommand_iff.mp hcommand
  have hnot : ∀ c ∈ w.command, notSpace c := fun c hc => notSpace_of_isword (hword c hc)
  have htail : (w.operand ++ w.rest).head?.any isspace = false := by
    cases hoperand : w.operand with
    | nil =>
        rw [h.operand_nil hoperand]
        rfl
    | cons c operand =>
        have hc : notSpace c := h.operand_notSpace c (hoperand ▸ List.mem_cons_self)
        rw [notSpace, Bool.not_eq_true'] at hc
        exact hc
  rw [h.text, Words.ofLine, dropWhile_run h.leading_blank (head?_word hlength.ne_nil hword)]
  simp only [dropWhile_run hnot h.behind_begin, takeWhile_run hnot h.behind_begin,
    dropWhile_run h.gap_blank htail, takeWhile_run h.operand_notSpace h.rest_begin,
    dropWhile_run h.operand_notSpace h.rest_begin]

end Cut

end Pieces

section Patterns

namespace Words

variable (chars : dbValue)

/-- **The first pattern**, on the pieces. -/
theorem check_twoParameters_iff :
    Check Pattern.twoParameters chars = true ↔
      (ofLine chars).isCommand = true ∧ (ofLine chars).hasTwo = true := by
  constructor
  · intro hcheck
    obtain ⟨leading, command, gap, digits, gap₂, text, hstr, hcommand, hlength,
      hoperand, hdigits, hgap₂_ne, hgap₂, htext⟩ :=
      DistributedDB.check_twoParameters_iff.mp hcheck
    have hisCommand : isCommand ⟨command, digits, gap₂ ++ text⟩ = true :=
      isCommand_iff.mpr ⟨hlength, hcommand.word_word⟩
    have hcut : Cut chars leading gap ⟨command, digits, gap₂ ++ text⟩ := by
      refine ⟨hstr, hcommand.blanks_blank, hoperand.blanks_blank,
        fun hnil => absurd hnil (hcommand.gap_ne hoperand),
        fun c hc => notSpace_of_isword (isword_of_isdigit (hdigits c hc)),
        fun hnil => absurd hnil hoperand.word_ne, ?_⟩
      cases gap₂ with
      | nil => exact absurd rfl hgap₂_ne
      | cons c gap₂ =>
          have hc : isspace c := hgap₂ c List.mem_cons_self
          rw [List.cons_append, List.head?_cons, Option.any_some, notSpace, hc]
          rfl
    rw [hcut.ofLine_eq hisCommand]
    refine ⟨hisCommand, hasTwo_iff.mpr ⟨hoperand.word_ne, hdigits, ?_⟩⟩
    have hgap₂_pos := List.length_pos_iff.mpr hgap₂_ne
    have htext_pos := List.length_pos_iff.mpr htext
    rw [List.length_append]
    omega
  · rintro ⟨hcommand, htwo⟩
    obtain ⟨leading, gap, hcut⟩ := exists_cut chars
    obtain ⟨hne, hdigits, hlen⟩ := hasTwo_iff.mp htwo
    have hword : ∀ c ∈ (ofLine chars).operand, isword c :=
      fun c hc => isword_of_isdigit (hdigits c hc)
    have hoperand : FirstWord gap (ofLine chars).operand (ofLine chars).rest :=
      hcut.firstWord_operand (List.append_nil _).symm hne hword (Or.inl rfl)
    cases hrest : (ofLine chars).rest with
    | nil =>
        rw [hrest] at hlen
        cases hlen
    | cons c text =>
        have hc := hcut.rest_begin
        rw [hrest, List.head?_cons, Option.any_some, notSpace, Bool.not_eq_false'] at hc
        have htext : text ≠ [] := by
          rintro rfl
          rw [hrest, List.length_singleton] at hlen
          omega
        have hbegins := hcut.firstWord hcommand
        rw [hrest] at hoperand hbegins
        refine DistributedDB.check_twoParameters_iff.mpr ⟨leading, (ofLine chars).command, gap,
          (ofLine chars).operand, [c], text, ?_, hbegins, (isCommand_iff.mp hcommand).1, hoperand,
          hdigits, List.cons_ne_nil c [], List.forall_mem_singleton.mpr hc, htext⟩
        rw [List.singleton_append, ← hrest]
        exact hcut.text

/-- **The second pattern**, on the pieces. -/
theorem check_oneParameter_iff :
    Check Pattern.oneParameter chars = true ↔
      (ofLine chars).isCommand = true ∧ (ofLine chars).hasOne = true := by
  constructor
  · intro hcheck
    obtain ⟨leading, command, gap, stem, suffix, trailing, hstr, hcommand, hlength, hoperand,
      hsuffix, hblank⟩ := DistributedDB.check_oneParameter_iff.mp hcheck
    have hisCommand : isCommand ⟨command, stem ++ suffix, trailing⟩ = true :=
      isCommand_iff.mpr ⟨hlength, hcommand.word_word⟩
    have hcut : Cut chars leading gap ⟨command, stem ++ suffix, trailing⟩ := by
      refine ⟨by rw [hstr, List.append_assoc], hcommand.blanks_blank, hoperand.blanks_blank,
        fun hnil => absurd hnil (hcommand.gap_ne hoperand), ?_,
        fun hnil => absurd (List.append_eq_nil_iff.mp hnil).1 hoperand.word_ne, ?_⟩
      · refine List.forall_mem_append.mpr
          ⟨fun c hc => notSpace_of_isword (hoperand.word_word c hc), fun c hc => ?_⟩
        rcases hsuffix with rfl | hdb
        · cases hc
        · rw [notSpace, isspace_of_isword_or_dot (hdb.isword_or_dot c hc)]
          rfl
      · cases trailing with
        | nil => rfl
        | cons c trailing =>
            rw [List.head?_cons, Option.any_some, notSpace, hblank c List.mem_cons_self]
            rfl
    have hstem : stem = Words.stem ⟨command, stem ++ suffix, trailing⟩ := by
      refine (takeWhile_run hoperand.word_word ?_).symm
      rcases hsuffix with rfl | ⟨middle, db, rfl, -, -⟩ <;> rfl
    rw [hcut.ofLine_eq hisCommand]
    refine ⟨hisCommand, hasOne_iff.mpr ⟨suffix, ?_, ?_, hsuffix, hblank⟩⟩
    · rw [← hstem]
    · rw [← hstem]
      exact hoperand.word_ne
  · rintro ⟨hcommand, hone⟩
    obtain ⟨leading, gap, hcut⟩ := exists_cut chars
    obtain ⟨suffix, hoperand, hne, hsuffix, hblank⟩ := hasOne_iff.mp hone
    have htext := hcut.text
    have hbegins := hcut.firstWord hcommand
    rw [hoperand, List.append_assoc] at htext hbegins
    exact DistributedDB.check_oneParameter_iff.mpr ⟨leading, (ofLine chars).command, gap,
      (ofLine chars).stem, suffix, (ofLine chars).rest, htext, hbegins,
      (isCommand_iff.mp hcommand).1,
      hcut.firstWord_operand hoperand hne (stem_word _) hsuffix, hsuffix, hblank⟩

/-- **The third pattern**, on the pieces. -/
theorem check_noParameter_iff :
    Check Pattern.noParameter chars = true ↔
      (ofLine chars).isCommand = true ∧ (ofLine chars).operand = [] := by
  constructor
  · intro hcheck
    obtain ⟨leading, command, trailing, hstr, hcommand, hlength, hblank⟩ :=
      DistributedDB.check_noParameter_iff.mp hcheck
    have hisCommand : isCommand ⟨command, [], []⟩ = true :=
      isCommand_iff.mpr ⟨hlength, hcommand.word_word⟩
    have hcut : Cut chars leading trailing ⟨command, [], []⟩ := by
      refine ⟨?_, hcommand.blanks_blank, hblank, fun _ => rfl, List.forall_mem_nil _,
        fun _ => rfl, rfl⟩
      rw [List.append_nil, List.append_nil]
      exact hstr
    rw [hcut.ofLine_eq hisCommand]
    exact ⟨hisCommand, rfl⟩
  · rintro ⟨hcommand, hnil⟩
    obtain ⟨leading, gap, hcut⟩ := exists_cut chars
    have htext := hcut.text
    have hbegins := hcut.firstWord hcommand
    rw [hcut.operand_nil hnil, hnil, List.append_nil, List.append_nil] at htext hbegins
    exact DistributedDB.check_noParameter_iff.mpr ⟨leading, (ofLine chars).command, gap, htext,
      hbegins, (isCommand_iff.mp hcommand).1, hcut.gap_blank⟩

end Words

end Patterns

section Keys

variable {gap stem suffix trailing m : dbValue}

theorem isdigit_tolower (c : UInt8) : isdigit (tolower c) = isdigit c :=
  forall_char (P := fun c => isdigit (tolower c) = isdigit c) (by decide +kernel) c

/-- Digits are not blanks. -/
theorem not_digits_of_blanks (hne : m ≠ []) (hdigit : ∀ c ∈ m, isdigit c) :
    ¬ ∀ c ∈ m, isspace c := by
  intro hblank
  obtain ⟨c, m, rfl⟩ := List.exists_cons_of_ne_nil hne
  have hword := isword_of_isspace (hblank c List.mem_cons_self)
  rw [isword_of_isdigit (hdigit c List.mem_cons_self)] at hword
  cases hword

/-- `db` is no number. -/
theorem not_digits_of_db {middle db : dbValue} (hdb : strcasecmp db (ascii "db")) :
    ¬ ∀ c ∈ middle ++ db, isdigit c := by
  intro hdigit
  have hmap : db.map tolower = (ascii "db").map tolower := eq_of_beq hdb
  have hall : ∀ c ∈ db.map tolower, isdigit c := by
    refine List.forall_mem_map.mpr fun c hc => ?_
    rw [isdigit_tolower]
    exact hdigit c (List.mem_append_right _ hc)
  rw [hmap] at hall
  exact absurd (List.all_eq_true.mpr hall) (by decide)

/-- **An operand that does not begin with a number has no key**: the suffix is none. -/
theorem search_key_eq_none (h : FirstWord gap stem (suffix ++ trailing))
    (hsuffix : suffix = [] ∨ DBSuffix suffix) (hblank : ∀ c ∈ trailing, isspace c)
    (hstem : ¬ ∀ c ∈ stem, isdigit c) :
    search Pattern.key (gap ++ (stem ++ (suffix ++ trailing))) = none := by
  refine search_eq_none_iff.mpr fun l m t hstr hmatch => ?_
  have hdigit : ∀ c ∈ m, isdigit c :=
    (matches_plus_chars.mp (matches_delimited.mp hmatch).2.1).2
  obtain ⟨hne, hword, hl, ht⟩ := run_of_delimited (fun l m t hm => by
    obtain ⟨hne, hall⟩ := matches_plus_chars.mp hm
    exact ⟨hne, fun c hc => isword_of_isdigit (hall c hc)⟩) hmatch
  have hgap : gap.getLast?.any isword = false :=
    getLast?_any_eq_false fun c hc => isword_of_isspace (h.blanks_blank c hc)
  rw [← List.append_assoc gap] at hstr
  rcases runs_apart hstr h.word_word hword hgap hl h.rest_begin ht with
    ⟨-, rfl⟩ | hbehind | hbefore
  · exact hstem hdigit
  · -- the match lies behind the stem
    rw [← List.length_append] at hbehind
    rw [List.append_assoc l] at hstr
    obtain ⟨k, rfl, hrest⟩ := exists_behind hstr hbehind
    rcases hsuffix with rfl | ⟨middle, db, rfl, hmiddle, hdb⟩
    · rw [List.nil_append] at hrest
      refine not_digits_of_blanks hne hdigit fun c hc => hblank c ?_
      rw [hrest]
      exact List.mem_append_right _ (List.mem_append_left _ hc)
    · cases k with
      | nil =>
          obtain ⟨c, m, rfl⟩ := List.exists_cons_of_ne_nil hne
          obtain ⟨rfl, -⟩ := List.cons.inj hrest
          exact absurd (hdigit _ List.mem_cons_self) (by decide)
      | cons d k =>
          obtain ⟨rfl, hbody⟩ := List.cons.inj hrest
          have hk : k.getLast?.any isword = false := by
            cases hlast : k.getLast? with
            | none => rfl
            | some c =>
                rw [List.getLast?_append, List.getLast?_cons, hlast] at hl
                exact hl
          have hrun : ∀ c ∈ middle ++ db, isword c :=
            List.forall_mem_append.mpr ⟨hmiddle,
              isword_of_strcasecmp hdb (List.all_eq_true.mp (by decide))⟩
          have hsplit : [] ++ (middle ++ db) ++ trailing = k ++ m ++ t := by
            rw [List.nil_append, List.append_assoc k]
            exact hbody
          rcases runs_apart hsplit hrun hword rfl hk (head?_blanks hblank) ht with
            ⟨-, rfl⟩ | hlater | hearlier
          · exact not_digits_of_db hdb hdigit
          · rw [← List.length_append] at hlater
            rw [List.append_assoc k] at hsplit
            obtain ⟨j, -, htrailing⟩ := exists_behind hsplit hlater
            refine not_digits_of_blanks hne hdigit fun c hc => hblank c ?_
            rw [htrailing]
            exact List.mem_append_right _ (List.mem_append_left _ hc)
          · have hpos := List.length_pos_iff.mpr hne
            rw [List.length_nil] at hearlier
            omega
  · rw [← List.length_append] at hbefore
    rw [List.append_assoc gap] at hstr
    obtain ⟨k, rfl, -⟩ := exists_behind hstr.symm hbefore
    refine not_digits_of_blanks hne hdigit fun c hc => h.blanks_blank c ?_
    exact List.mem_append_left _ (List.mem_append_right _ hc)

/-- The key that `atoi` reads. -/
theorem atoi_eq_ofNat {digits : dbValue} (h : ∀ c ∈ digits, isdigit c) :
    (atoi digits).toUInt32 = UInt32.ofNat (numeral digits) := by
  apply UInt32.toNat_inj.mp
  rw [toNat_atoi h]
  exact (UInt32.toNat_ofNat' ..).symm

end Keys

namespace Cut

variable {chars leading gap : dbValue} {w : Words}

/-- The search for the key of `set`. -/
theorem found_number (h : Cut chars leading gap w) (htwo : w.hasTwo = true) :
    Found Pattern.key (gap ++ (w.operand ++ w.rest)) gap w.operand w.rest := by
  obtain ⟨hne, hdigits, -⟩ := Words.hasTwo_iff.mp htwo
  have hword : ∀ c ∈ w.operand, isword c := fun c hc => isword_of_isdigit (hdigits c hc)
  have hoperand : FirstWord gap w.operand w.rest :=
    h.firstWord_operand (List.append_nil _).symm hne hword (Or.inl rfl)
  exact hoperand.found_key hdigits

/-- What `GetMatch` takes for the value. -/
theorem getMatch_value (w : Words) (matched : dbValue) :
    GetMatch Pattern.value w.rest matched =
      match w.value with
      | none => (-1, w.rest, matched)
      | some value => (0, [], value) := by
  have hskipped : ∀ c ∈ w.rest.takeWhile fun c => !isword c, isword c = false := by
    intro c hc
    have hnot := List.mem_takeWhile_imp hc
    rw [Bool.not_eq_true'] at hnot
    exact hnot
  have hsplit : w.rest.takeWhile (fun c => !isword c) ++ w.rest.dropWhile (fun c => !isword c) =
      w.rest := List.takeWhile_append_dropWhile
  have hbegin := head?_dropWhile (fun c => !isword c) w.rest
  rw [Words.value]
  cases hvalue : w.rest.dropWhile fun c => !isword c with
  | nil =>
      rw [hvalue, List.append_nil] at hsplit
      rw [hsplit] at hskipped
      exact getMatch_of_none (search_rest_eq_none hskipped)
  | cons c value =>
      rw [hvalue, List.head?_cons, Option.any_some, Bool.not_eq_false'] at hbegin
      rw [hvalue] at hsplit
      exact getMatch_of_found (found_rest hsplit.symm hskipped hbegin)

/-- What `GetMatch` takes for the key. -/
theorem getMatch_key (h : Cut chars leading gap w) (hone : w.hasOne = true) (matched : dbValue) :
    ((GetMatch Pattern.key (gap ++ (w.operand ++ w.rest)) matched).1 = 0 ∧
        w.key = some
          (atoi (GetMatch Pattern.key (gap ++ (w.operand ++ w.rest)) matched).2.2).toUInt32) ∨
      (GetMatch Pattern.key (gap ++ (w.operand ++ w.rest)) matched).1 = -1 ∧ w.key = none := by
  obtain ⟨suffix, hoperand, hne, hsuffix, hblank⟩ := Words.hasOne_iff.mp hone
  have hfirst := h.firstWord_operand hoperand hne (Words.stem_word w) hsuffix
  rw [hoperand, List.append_assoc, Words.key]
  by_cases hdigits : w.stem.all isdigit = true
  · rw [if_pos hdigits, getMatch_of_found (hfirst.found_key (List.all_eq_true.mp hdigits))]
    exact Or.inl ⟨rfl, congrArg some (atoi_eq_ofNat (List.all_eq_true.mp hdigits)).symm⟩
  · rw [if_neg hdigits, getMatch_of_none (search_key_eq_none hfirst hsuffix hblank
      (List.all_eq_true.not.mp hdigits))]
    exact Or.inr ⟨rfl, rfl⟩

/-- What `GetMatch` leaves for the name. -/
theorem getMatch_name (h : Cut chars leading gap w) (hone : w.hasOne = true) :
    (GetMatch Pattern.name (gap ++ (w.operand ++ w.rest)) w.command).2.2 = w.name := by
  obtain ⟨suffix, hoperand, hne, hsuffix, hblank⟩ := Words.hasOne_iff.mp hone
  have hfirst := h.firstWord_operand hoperand hne (Words.stem_word w) hsuffix
  have hstem : '.'.toUInt8 ∉ w.stem := fun hdot => absurd (Words.stem_word w _ hdot) (by decide)
  rw [Words.name]
  rcases hsuffix with rfl | hdb
  · rw [List.append_nil] at hoperand
    have hdotless : '.'.toUInt8 ∉ gap ++ (w.operand ++ w.rest) := by
      rw [List.mem_append, List.mem_append, hoperand]
      rintro (hgap | hdot | hrest)
      · exact absurd (h.gap_blank _ hgap) (by decide)
      · exact hstem hdot
      · exact absurd (hblank _ hrest) (by decide)
    rw [getMatch_of_none (search_name_eq_none hdotless), hoperand, if_neg hstem]
  · have hdot : '.'.toUInt8 ∈ w.operand := by
      obtain ⟨middle, db, rfl, -, -⟩ := hdb
      rw [hoperand]
      exact List.mem_append_right _ List.mem_cons_self
    have hfound := found_name hfirst hdb hblank
    rw [← List.append_assoc w.stem, ← hoperand] at hfound
    rw [getMatch_of_found hfound, if_pos hdot]

end Cut

namespace Client

variable (db : DBFunctions) (c : Client) {chars leading gap : dbValue} {w : Words}

/-- Lines with two parameters. -/
theorem parseTwo_eq (h : Cut chars leading gap w) (htwo : w.hasTwo = true) :
    c.parseTwo db (gap ++ (w.operand ++ w.rest)) w.command = c.perform db w.scanTwo := by
  obtain ⟨-, hdigits, -⟩ := Words.hasTwo_iff.mp htwo
  rw [parseTwo, Words.scanTwo]
  by_cases hset : strcasecmp w.command (ascii "set") = true
  · rw [if_pos hset, if_pos hset]
    change _ = c.guarded _
    rw [guarded]
    by_cases hclosed : c.hdb = 0
    · rw [if_pos hclosed, if_pos hclosed]
    · rw [if_neg hclosed, if_neg hclosed, getMatch_of_found (h.found_number htwo)]
      simp only [Cut.getMatch_value, atoi_eq_ofNat hdigits]
      cases w.value with
      | none => rfl
      | some value => rfl
  · rw [if_neg hset, if_neg hset]
    rfl

/-- The keys of `get` and `del`. -/
theorem guarded_key (h : Cut chars leading gap w) (hone : w.hasOne = true) (matched : dbValue)
    (run : dbKey → ParseResult) :
    (let (res, _, matched) := GetMatch Pattern.key (gap ++ (w.operand ++ w.rest)) matched
      if res ≠ 0 then c.fails "Key should be numbers.\n" else run (atoi matched).toUInt32) =
      match w.key with
      | none => c.fails "Key should be numbers.\n"
      | some key => run key := by
  rcases h.getMatch_key hone matched with ⟨hres, hkey⟩ | ⟨hres, hkey⟩
  · simp only [hres, hkey]
    rfl
  · simp only [hres, hkey]
    rfl

/-- Lines with one parameter; `delete` is too long for a command. -/
theorem parseOne_eq (h : Cut chars leading gap w) (hcommand : w.isCommand = true)
    (hone : w.hasOne = true) :
    c.parseOne db (gap ++ (w.operand ++ w.rest)) w.command = c.perform db w.scanOne := by
  have hdelete : ¬ strcasecmp w.command (ascii "delete") = true := by
    intro hdelete
    have hlength := length_of_strcasecmp hdelete
    have hle := (Words.isCommand_iff.mp hcommand).1.2
    rw [hlength] at hle
    exact absurd hle (by decide)
  rw [parseOne, Words.scanOne]
  by_cases hopen : strcasecmp w.command (ascii "open") = true
  · rw [if_pos hopen, if_pos hopen, perform]
    by_cases hclosed : c.hdb ≠ 0
    · rw [if_pos hclosed, if_pos hclosed]
    · rw [if_neg hclosed, if_neg hclosed]
      simp only [h.getMatch_name hone]
  rw [if_neg hopen, if_neg hopen]
  by_cases hget : strcasecmp w.command (ascii "get") = true
  · rw [if_pos hget, if_pos hget]
    change _ = c.guarded _
    rw [guarded]
    congr 1
    exact c.guarded_key h hone w.command (c.got db)
  rw [if_neg hget, if_neg hget]
  by_cases hdel : strcasecmp w.command (ascii "del") = true
  · rw [if_pos (Or.inl hdel), if_pos hdel]
    change _ = c.guarded _
    rw [guarded]
    congr 1
    exact c.guarded_key h hone w.command (c.deleted db)
  · rw [if_neg (not_or.mpr ⟨hdel, hdelete⟩), if_neg hdel]
    rfl

/-- Lines without parameters. -/
theorem parseNone_eq (w : Words) : c.parseNone db w.command = c.perform db w.scanNone := by
  rw [parseNone, Words.scanNone]
  by_cases hclose : strcasecmp w.command (ascii "close") = true
  · rw [if_pos hclose, if_pos hclose]
    rfl
  rw [if_neg hclose, if_neg hclose]
  by_cases hexit : strcasecmp w.command (ascii "exit") = true ∨
      strcasecmp w.command (ascii "quit") = true
  · rw [if_pos hexit, if_pos hexit]
    rfl
  rw [if_neg hexit, if_neg hexit]
  by_cases hhelp : strcasecmp w.command (ascii "help") = true
  · rw [if_pos hhelp, if_pos hhelp]
    rfl
  · rw [if_neg hhelp, if_neg hhelp]
    rfl

/-- **`Parse` is a scanner.**  For every line, whatever the client holds, the database
functions return and `match` holds at first, the patterns and searches of `Parse` find the
request that the pieces of the line make, and `Parse` does what this request asks for. -/
theorem parse_eq_perform (malloced : dbValue) (input : InputLine) :
    c.Parse db malloced input = c.perform db (Words.ofLine input.chars).scan := by
  obtain ⟨leading, gap, hcut⟩ := Words.exists_cut input.chars
  have htwo := Words.check_twoParameters_iff input.chars
  have hone := Words.check_oneParameter_iff input.chars
  have hnone := Words.check_noParameter_iff input.chars
  rw [Parse, Words.scan]
  by_cases hcommand : (Words.ofLine input.chars).isCommand = true
  · have hfirst := hcut.firstWord hcommand
    have hfound := hfirst.found_command (Words.isCommand_iff.mp hcommand).1
    rw [← hcut.text] at hfound
    rw [hcommand] at htwo hone hnone
    simp only [getMatch_of_found hfound, if_pos hcommand]
    by_cases hhasTwo : (Words.ofLine input.chars).hasTwo = true
    · rw [if_pos (htwo.mpr ⟨rfl, hhasTwo⟩), if_pos hhasTwo]
      exact c.parseTwo_eq db hcut hhasTwo
    rw [if_neg fun hcheck => hhasTwo (htwo.mp hcheck).2, if_neg hhasTwo]
    by_cases hhasOne : (Words.ofLine input.chars).hasOne = true
    · rw [if_pos (hone.mpr ⟨rfl, hhasOne⟩), if_pos hhasOne]
      exact c.parseOne_eq db hcut hcommand hhasOne
    rw [if_neg fun hcheck => hhasOne (hone.mp hcheck).2, if_neg hhasOne]
    by_cases hempty : (Words.ofLine input.chars).operand = []
    · rw [if_pos (hnone.mpr ⟨rfl, hempty⟩), if_pos (List.isEmpty_iff.mpr hempty)]
      exact c.parseNone_eq db _
    · rw [if_neg fun hcheck => hempty (hnone.mp hcheck).2,
        if_neg fun hisEmpty => hempty (List.isEmpty_iff.mp hisEmpty)]
      rfl
  · rw [if_neg fun hcheck => hcommand (htwo.mp hcheck).1,
      if_neg fun hcheck => hcommand (hone.mp hcheck).1,
      if_neg fun hcheck => hcommand (hnone.mp hcheck).1, if_neg hcommand]
    rfl

end Client

end DistributedDB
