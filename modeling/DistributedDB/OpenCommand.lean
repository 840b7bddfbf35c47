import DistributedDB.SetCommand

/-!
# What `open` opens

The lines that the second pattern accepts with the command `open`, when no database is
open.  The pattern admits an operand without a suffix, where the name is not found, and
`match` still holds the command then.

**Results.**
* `InputLine.pieces`: command, operand and trailing blanks of an accepted line.
* `found_name`, `search_name_eq_none`: the operands with a name.
* `InputLine.opened_iff`: the lines that open their operand, or are rejected.
* `InputLine.opened_otherwise`: `open test` opens `open`.
-/

namespace DistributedDB

open Regex

section Names

variable {gap stem suffix trailing : dbValue}

/-- A name: a word and a suffix. -/
theorem matches_name {l m t : dbValue} :
    Matches (seqs [plus Pattern.word, Pattern.literal '.', star Pattern.word, Pattern.literal 'd',
      Pattern.literal 'b']) l m t ↔
      ∃ stem suffix, m = stem ++ suffix ∧ stem ≠ [] ∧ (∀ c ∈ stem, isword c) ∧
        DBSuffix suffix := by
  constructor
  · rintro ⟨stem, suffix, rfl, hstem, hsuffix⟩
    obtain ⟨hne, hword⟩ := matches_plus_chars.mp hstem
    exact ⟨stem, suffix, rfl, hne, hword, matches_suffix.mp hsuffix⟩
  · rintro ⟨stem, suffix, rfl, hne, hword, hsuffix⟩
    exact ⟨stem, suffix, rfl, matches_plus_chars.mpr ⟨hne, hword⟩,
      matches_suffix.mpr hsuffix⟩

/-- The characters of a suffix. -/
theorem DBSuffix.isword_or_dot (h : DBSuffix suffix) :
    ∀ c ∈ suffix, (isword c || c == '.'.toUInt8) = true := by
  obtain ⟨middle, db, rfl, hmiddle, hdb⟩ := h
  have hdb' : ∀ c ∈ db, isword c := isword_of_strcasecmp hdb (List.all_eq_true.mp (by decide))
  refine List.forall_mem_cons.mpr ⟨by decide, List.forall_mem_append.mpr ⟨?_, ?_⟩⟩
  · intro c hc
    rw [hmiddle c hc, Bool.true_or]
  · intro c hc
    rw [hdb' c hc, Bool.true_or]

theorem isspace_of_isword_or_dot {c : UInt8} (h : (isword c || c == '.'.toUInt8) = true) :
    isspace c = false := by
  rcases Bool.or_eq_true_iff.mp h with hword | hdot
  · exact isspace_of_isword hword
  · obtain rfl := eq_of_beq hdot
    rfl

theorem DBSuffix.getLast?_isword (h : DBSuffix suffix) (stem : dbValue) :
    (stem ++ suffix).getLast?.any isword := by
  obtain ⟨middle, db, rfl, hmiddle, hdb⟩ := h
  have hdb' : ∀ c ∈ db, isword c := isword_of_strcasecmp hdb (List.all_eq_true.mp (by decide))
  obtain ⟨d, b, rfl⟩ := List.length_eq_two.mp (length_of_strcasecmp hdb)
  have hsplit : stem ++ '.'.toUInt8 :: (middle ++ [d, b]) =
      stem ++ '.'.toUInt8 :: (middle ++ [d]) ++ [b] := by
    simp only [List.append_assoc, List.cons_append, List.nil_append]
  rw [hsplit, List.getLast?_concat]
  exact hdb' b (List.mem_cons_of_mem d List.mem_cons_self)

/-- **A name with a suffix is found.** -/
theorem found_name (h : FirstWord gap stem (suffix ++ trailing)) (hsuffix : DBSuffix suffix)
    (hblank : ∀ c ∈ trailing, isspace c) :
    Found Pattern.name (gap ++ (stem ++ (suffix ++ trailing))) gap (stem ++ suffix) trailing := by
  have hend : trailing.head?.any (fun c => isword c || c == '.'.toUInt8) = false := by
    cases trailing with
    | nil => rfl
    | cons c trailing =>
        have hc := hblank c List.mem_cons_self
        rw [List.head?_cons, Option.any_some, isword_of_isspace hc, Bool.false_or,
          beq_eq_false_iff_ne]
        rintro rfl
        cases hc
  refine found_delimited_class ?_ ?_ (fun c hc => isword_of_isspace (h.blanks_blank c hc))
    (matches_name.mpr ⟨stem, suffix, rfl, h.word_ne, h.word_word, hsuffix⟩)
    (hsuffix.getLast?_isword stem) (head?_blanks hblank) hend
  · simp only [List.append_assoc]
  · intro l m t hmatch
    obtain ⟨stem, suffix, rfl, hne, hword, hsuffix⟩ := matches_name.mp hmatch
    constructor
    · cases stem with
      | nil => exact absurd rfl hne
      | cons c stem => exact hword c List.mem_cons_self
    · refine List.forall_mem_append.mpr ⟨fun c hc => ?_, hsuffix.isword_or_dot⟩
      rw [hword c hc, Bool.true_or]

/-- **Without a dot there is no name.** -/
theorem search_name_eq_none {str : dbValue} (h : '.'.toUInt8 ∉ str) :
    search Pattern.name str = none := by
  refine search_eq_none_iff.mpr fun l m t hstr hmatch => h ?_
  obtain ⟨stem, suffix, rfl, -, -, middle, db, rfl, -⟩ :=
    matches_name.mp (matches_delimited.mp hmatch).2.1
  rw [hstr]
  refine List.mem_append_left _ (List.mem_append_right _ (List.mem_append_right _ ?_))
  exact List.mem_cons_self

end Names

namespace InputLine

variable (line : InputLine)

def command : dbValue :=
  (line.chars.dropWhile isspace).takeWhile isword

/-- What stands behind the blanks that follow the command. -/
def afterGap : dbValue :=
  ((line.chars.dropWhile isspace).dropWhile isword).dropWhile isspace

def operand : dbValue :=
  line.afterGap.takeWhile fun c => !isspace c

def trailing : dbValue :=
  line.afterGap.dropWhile fun c => !isspace c

/-- The operand is opened, or the line is rejected. -/
def Opened (r : ParseResult) : Prop :=
  r.calls = [.DBCreate line.operand] ∨ r.res = -1 ∧ r.calls = []

/-- The pieces of an accepted line. -/
theorem pieces {line : InputLine} (hcheck : Check Pattern.oneParameter line.chars = true) :
    ∃ leading gap stem suffix,
      line.chars = leading ++ (line.command ++ (gap ++ (stem ++ (suffix ++ line.trailing)))) ∧
        FirstWord leading line.command (gap ++ (stem ++ (suffix ++ line.trailing))) ∧
        CommandLength line.command ∧ FirstWord gap stem (suffix ++ line.trailing) ∧
        line.operand = stem ++ suffix ∧ (suffix = [] ∨ DBSuffix suffix) ∧
        ∀ c ∈ line.trailing, isspace c := by
  obtain ⟨leading, command, gap, stem, suffix, trailing, hstr, hcommand, hlength,
    hoperand, hsuffix, hblank⟩ := check_oneParameter_iff.mp hcheck
  have hleading : line.chars.dropWhile isspace = command ++
      (gap ++ (stem ++ (suffix ++ trailing))) := by
    rw [hstr]
    exact dropWhile_run hcommand.blanks_blank (head?_word hcommand.word_ne hcommand.word_word)
  have hcmd : line.command = command := by
    rw [InputLine.command, hleading]
    exact takeWhile_run hcommand.word_word hcommand.rest_begin
  have hgap : line.afterGap = stem ++ suffix ++ trailing := by
    rw [afterGap, hleading, dropWhile_run hcommand.word_word hcommand.rest_begin, List.append_assoc]
    exact dropWhile_run hoperand.blanks_blank (head?_word hoperand.word_ne hoperand.word_word)
  have hchars : ∀ c ∈ stem ++ suffix, (!isspace c) = true := by
    refine List.forall_mem_append.mpr ⟨fun c hc => ?_, fun c hc => ?_⟩
    · rw [isspace_of_isword (hoperand.word_word c hc)]
      rfl
    · rcases hsuffix with rfl | hdb
      · cases hc
      · rw [isspace_of_isword_or_dot (hdb.isword_or_dot c hc)]
        rfl
  have hend : trailing.head?.any (fun c => !isspace c) = false := by
    cases trailing with
    | nil => rfl
    | cons c trailing =>
        rw [List.head?_cons, Option.any_some, hblank c List.mem_cons_self]
        rfl
  have hop : line.operand = stem ++ suffix := by
    rw [operand, hgap]
    exact takeWhile_run hchars hend
  have htrailing : line.trailing = trailing := by
    rw [InputLine.trailing, hgap]
    exact dropWhile_run hchars hend
  rw [hcmd, htrailing]
  exact ⟨leading, gap, stem, suffix, hstr, hcommand, hlength, hoperand, hop, hsuffix, hblank⟩

section Parse

variable {line : InputLine} (db : DBFunctions) {c : Client} (malloced : dbValue)

/-- `open` with a second parameter. -/
theorem parse_open_two (hopen : strcasecmp line.command (ascii "open") = true)
    (htwo : Check Pattern.twoParameters line.chars = true) {l t : dbValue}
    (hcommand : Found Pattern.command line.chars l line.command t) :
    c.Parse db malloced line = c.fails "Wrong command with two parameters.\n" := by
  have hset : ¬ strcasecmp line.command (ascii "set") = true := by
    rw [strcasecmp_congr hopen]
    decide
  rw [Client.Parse, if_pos htwo, getMatch_of_found hcommand]
  exact if_neg hset

/-- `open` with one parameter. -/
theorem parse_open_one (hclosed : c.hdb = 0)
    (hopen : strcasecmp line.command (ascii "open") = true)
    (htwo : ¬ Check Pattern.twoParameters line.chars = true)
    (hone : Check Pattern.oneParameter line.chars = true) {l t : dbValue}
    (hcommand : Found Pattern.command line.chars l line.command t) :
    (c.Parse db malloced line).calls =
      [.DBCreate (GetMatch Pattern.name t line.command).2.2] := by
  rw [Client.Parse, if_neg htwo, if_pos hone, getMatch_of_found hcommand]
  have hnot : ¬ c.hdb ≠ 0 := not_not.mpr hclosed
  simp only [Client.parseOne, if_pos hopen, if_neg hnot]

end Parse

/-- **`open` opens its operand, or rejects the line, exactly when the operand has a suffix,
or is the word `open` as it was typed, or is a number with two blanks behind it.** -/
theorem opened_iff (line : InputLine) (db : DBFunctions) {c : Client} (malloced : dbValue)
    (hcheck : Check Pattern.oneParameter line.chars = true)
    (hopen : strcasecmp line.command (ascii "open") = true) (hclosed : c.hdb = 0) :
    line.Opened (c.Parse db malloced line) ↔
      '.'.toUInt8 ∈ line.operand ∨ line.operand = line.command ∨
        (∀ d ∈ line.operand, isdigit d) ∧ 2 ≤ line.trailing.length := by
  obtain ⟨leading, gap, stem, suffix, hstr, hcommand, hlength, hoperand, hop, hsuffix,
      hblank⟩ :=
    pieces hcheck
  have hfound : Found Pattern.command line.chars leading line.command _ :=
    hstr ▸ hcommand.found_command hlength
  have hone := parse_open_one db malloced hclosed hopen
  rcases hsuffix with rfl | hdb
  · rw [List.append_nil] at hop
    have hdotless : '.'.toUInt8 ∉ gap ++ (stem ++ ([] ++ line.trailing)) := by
      intro hmem
      rcases List.mem_append.mp hmem with hgap | hrest
      · exact absurd (hoperand.blanks_blank _ hgap) (by decide)
      · rcases List.mem_append.mp hrest with hstem | htrailing
        · exact absurd (hoperand.word_word _ hstem) (by decide)
        · exact absurd (hblank _ htrailing) (by decide)
    have hno : '.'.toUInt8 ∉ line.operand := by
      rw [hop]
      exact fun hstem => hdotless (List.mem_append_right _ (List.mem_append_left _ hstem))
    have htwo := hcommand.check_twoParameters_blanks hoperand hblank
    rw [← hstr, ← hop, and_iff_right hlength] at htwo
    by_cases hnumber : (∀ d ∈ line.operand, isdigit d) ∧ 2 ≤ line.trailing.length
    · rw [parse_open_two db malloced hopen (htwo.mpr hnumber) hfound]
      exact iff_of_true (Or.inr ⟨rfl, rfl⟩) (Or.inr (Or.inr hnumber))
    · have hcalls := hone (htwo.not.mpr hnumber) hcheck hfound
      rw [getMatch_of_none (search_name_eq_none hdotless)] at hcalls
      rw [Opened, hcalls]
      constructor
      · rintro (heq | ⟨-, hnil⟩)
        · exact Or.inr (Or.inl (ClientCall.DBCreate.inj (List.singleton_inj.mp heq)).symm)
        · cases hnil
      · rintro (hdot | heq | hnumber')
        · exact absurd hdot hno
        · rw [heq]
          exact Or.inl rfl
        · exact absurd hnumber' hnumber
  · have htwo : ¬ Check Pattern.twoParameters line.chars = true := by
      rw [hstr, hcommand.check_twoParameters hoperand]
      rintro ⟨-, -, gap₂, text, htail, hne, hgap₂, -⟩
      obtain ⟨middle, db, rfl, -, -⟩ := hdb
      cases gap₂ with
      | nil => exact hne rfl
      | cons d gap₂ =>
          obtain ⟨rfl, -⟩ := List.cons.inj htail
          exact absurd (hgap₂ _ List.mem_cons_self) (by decide)
    have hdot : '.'.toUInt8 ∈ line.operand := by
      obtain ⟨middle, db, rfl, -, -⟩ := hdb
      rw [hop]
      exact List.mem_append_right _ List.mem_cons_self
    refine iff_of_true (Or.inl ?_) (Or.inl hdot)
    rw [hone htwo hcheck hfound, getMatch_of_found (found_name hoperand hdb hblank), hop]

section Lines

/-- `open test` -/
def testLine : InputLine :=
  ⟨ascii "open test", by decide, by decide⟩

theorem opened_iff_testLine :
    (Check Pattern.oneParameter testLine.chars = true ∧
      strcasecmp testLine.command (ascii "open") = true ∧ (0 : DataBase) = 0) ∧
    (testLine.Opened ((⟨0, []⟩ : Client).Parse SetLine.succeeding [] testLine) ↔
      '.'.toUInt8 ∈ testLine.operand ∨ testLine.operand = testLine.command ∨
        (∀ d ∈ testLine.operand, isdigit d) ∧ 2 ≤ testLine.trailing.length) :=
  ⟨⟨by decide +kernel, by decide, rfl⟩,
    testLine.opened_iff SetLine.succeeding (c := ⟨0, []⟩) [] (by decide +kernel)
      (by decide) rfl⟩

/-- `open test` opens `open`. -/
theorem opened_otherwise :
    Check Pattern.oneParameter testLine.chars = true ∧
      strcasecmp testLine.command (ascii "open") = true ∧ testLine.operand = ascii "test" ∧
      ((⟨0, []⟩ : Client).Parse SetLine.succeeding [] testLine).calls =
        [.DBCreate (ascii "open")] ∧
      ¬ testLine.Opened ((⟨0, []⟩ : Client).Parse SetLine.succeeding [] testLine) := by
  have hcalls : ((⟨0, []⟩ : Client).Parse SetLine.succeeding [] testLine).calls =
      [.DBCreate (ascii "open")] := by
    decide +kernel
  refine ⟨by decide +kernel, by decide, by decide, hcalls, ?_⟩
  rw [Opened, hcalls]
  decide

end Lines

end InputLine

end DistributedDB
