import DistributedDB.ParseInput

/-!
# Command lines

A line begins with blanks and a word, the command, and an operand stands in the same way
behind the command.  A line determines these pieces, and the three patterns of `Parse` are
stated on them.

**Results.**
* `FirstWord.unique`: a text determines its first word.
* `check_twoParameters_iff`, `check_oneParameter_iff`, `check_noParameter_iff`: the lines that
  the patterns accept.
* `FirstWord.check_twoParameters_blanks`, `FirstWord.not_check`: when the blanks behind an
  operand make a second one, and that a command has 3 to 5 characters.
* `FirstWord.found_command`, `FirstWord.found_key`: what `GetMatch` takes from a line.
-/

namespace DistributedDB

open Regex

section Characters

/-- A property of all characters, one by one. -/
theorem forall_char {P : UInt8 → Prop} (h : ∀ n : Fin 256, P (UInt8.ofNat n)) (c : UInt8) :
    P c := by
  have hc := h ⟨c.toNat, c.toNat_lt⟩
  rw [UInt8.ofNat_toNat] at hc
  exact hc

theorem isword_of_isdigit {c : UInt8} (h : isdigit c) : isword c := by
  simp only [isword, h, Bool.true_or]

theorem isword_of_isspace {c : UInt8} : isspace c → isword c = false :=
  forall_char (P := fun c => isspace c → isword c = false) (by decide +kernel) c

/-- Blanks end a word. -/
theorem head?_blank {gap t : dbValue} (hne : gap ≠ []) (h : ∀ c ∈ gap, isspace c) :
    (gap ++ t).head?.any isword = false := by
  cases gap with
  | nil => exact absurd rfl hne
  | cons c gap => exact isword_of_isspace (h c List.mem_cons_self)

theorem head?_blanks {trailing : dbValue} (h : ∀ c ∈ trailing, isspace c) :
    trailing.head?.any isword = false := by
  cases trailing with
  | nil => rfl
  | cons c trailing => exact isword_of_isspace (h c List.mem_cons_self)

theorem isspace_of_isword {c : UInt8} (h : isword c) : isspace c = false := by
  by_contra hspace
  rw [isword_of_isspace (Bool.not_eq_false _ ▸ hspace)] at h
  cases h

/-- A word ends blanks. -/
theorem head?_word {word t : dbValue} (hne : word ≠ []) (h : ∀ c ∈ word, isword c) :
    (word ++ t).head?.any isspace = false := by
  cases word with
  | nil => exact absurd rfl hne
  | cons c word => exact isspace_of_isword (h c List.mem_cons_self)

theorem eq_dot {c : UInt8} : (tolower c == tolower '.'.toUInt8) = true → c = '.'.toUInt8 :=
  forall_char (P := fun c => (tolower c == tolower '.'.toUInt8) = true → c = '.'.toUInt8)
    (by decide +kernel) c

theorem isword_tolower (c : UInt8) : isword (tolower c) = isword c :=
  forall_char (P := fun c => isword (tolower c) = isword c) (by decide +kernel) c

/-- Strings that `strcasecmp` takes for equal have the same length. -/
theorem length_of_strcasecmp {s₁ s₂ : dbValue} (h : strcasecmp s₁ s₂) :
    s₁.length = s₂.length := by
  have hmap : s₁.map tolower = s₂.map tolower := eq_of_beq h
  simpa only [List.length_map] using congrArg List.length hmap

theorem isword_of_strcasecmp {s₁ s₂ : dbValue} (h : strcasecmp s₁ s₂)
    (hword : ∀ c ∈ s₂, isword c) :
    ∀ c ∈ s₁, isword c := by
  intro c hc
  have hmap : s₁.map tolower = s₂.map tolower := eq_of_beq h
  have hmem : tolower c ∈ s₂.map tolower := hmap ▸ List.mem_map_of_mem hc
  obtain ⟨d, hd, heq⟩ := List.mem_map.mp hmem
  rw [← isword_tolower, ← heq, isword_tolower]
  exact hword d hd

/-- Strings that are equal to a third one for `strcasecmp`. -/
theorem strcasecmp_congr {s₁ s₂ : dbValue} (h : strcasecmp s₁ s₂) (s₃ : dbValue) :
    strcasecmp s₁ s₃ = strcasecmp s₂ s₃ := by
  have hmap : s₁.map tolower = s₂.map tolower := eq_of_beq h
  rw [strcasecmp, strcasecmp, hmap]

/-- `atoi` and the assignment to an `unsigned int` leave the value modulo `2 ^ 32`. -/
theorem toNat_atoi {digits : dbValue} (h : ∀ c ∈ digits, isdigit c) :
    (atoi digits).toUInt32.toNat = numeral digits % 2 ^ 32 := by
  have hdrop : digits.dropWhile isspace = digits := by
    cases digits with
    | nil => rfl
    | cons c digits =>
        refine List.dropWhile_cons_of_neg ?_
        rw [isspace_of_isword (isword_of_isdigit (h c List.mem_cons_self))]
        decide
  have hsign : ∀ s : UInt8, isdigit s = false → digits.head? ≠ some s := by
    intro s hs heq
    have hdigit := h s (List.mem_of_head? heq)
    rw [hs] at hdigit
    cases hdigit
  have hminus : ¬ digits.head? = some '-'.toUInt8 := hsign _ (by decide)
  have hplus : ¬ digits.head? = some '+'.toUInt8 := hsign _ (by decide)
  have htake : digits.takeWhile isdigit = digits := List.takeWhile_eq_self_iff.mpr h
  simp only [atoi, hdrop, hminus, hplus, or_self, if_false, htake]
  exact UInt32.toNat_ofNat' ..

end Characters

/-- A text begins with blanks and a word. -/
structure FirstWord (blanks word rest : dbValue) : Prop where
  blanks_blank : ∀ c ∈ blanks, isspace c
  word_ne : word ≠ []
  word_word : ∀ c ∈ word, isword c
  rest_begin : rest.head?.any isword = false

/-- `\w{3,5}` -/
def CommandLength (command : dbValue) : Prop :=
  3 ≤ command.length ∧ command.length ≤ 5

theorem CommandLength.ne_nil {command : dbValue} (h : CommandLength command) : command ≠ [] :=
  List.ne_nil_of_length_pos (Nat.lt_of_lt_of_le (by decide) h.1)

/-- `\.\w*db` -/
def DBSuffix (suffix : dbValue) : Prop :=
  ∃ middle db, suffix = '.'.toUInt8 :: (middle ++ db) ∧ (∀ c ∈ middle, isword c) ∧
    strcasecmp db (ascii "db")

namespace FirstWord

variable {blanks word rest : dbValue}

/-- **A text determines its first word.** -/
theorem unique {blanks' word' rest' : dbValue} (h : FirstWord blanks word rest)
    (h' : FirstWord blanks' word' rest')
    (heq : blanks ++ (word ++ rest) = blanks' ++ (word' ++ rest')) :
    blanks = blanks' ∧ word = word' ∧ rest = rest' := by
  obtain ⟨hblanks, hwords⟩ := eq_of_runs heq h.blanks_blank h'.blanks_blank
    (head?_word h.word_ne h.word_word) (head?_word h'.word_ne h'.word_word)
  exact ⟨hblanks, eq_of_runs hwords h.word_word h'.word_word h.rest_begin h'.rest_begin⟩

/-- Two words are apart. -/
theorem gap_ne {gap operand tail : dbValue} (h : FirstWord blanks word (gap ++ (operand ++ tail)))
    (h' : FirstWord gap operand tail) : gap ≠ [] := by
  rintro rfl
  have hbegin := h.rest_begin
  cases operand with
  | nil => exact h'.word_ne rfl
  | cons c operand =>
      have hc : isword c := h'.word_word c List.mem_cons_self
      rw [List.nil_append, List.cons_append, List.head?_cons, Option.any_some, hc] at hbegin
      cases hbegin

/-- The first `GetMatch`: the command. -/
theorem found_command (h : FirstWord blanks word rest) (hlength : CommandLength word) :
    Found Pattern.command (blanks ++ (word ++ rest)) blanks word rest := by
  refine found_delimited (List.append_assoc _ _ _).symm ?_
    (fun c hc => isword_of_isspace (h.blanks_blank c hc)) ?_ h.rest_begin
  · intro _ m _ hmatch
    obtain ⟨hlo, -, hall⟩ := (matches_between_chars (by decide)).mp hmatch
    exact ⟨List.ne_nil_of_length_pos (Nat.lt_of_lt_of_le (by decide) hlo), hall⟩
  · exact (matches_between_chars (by decide)).mpr ⟨hlength.1, hlength.2, h.word_word⟩

/-- The second `GetMatch`: the digits. -/
theorem found_key (h : FirstWord blanks word rest) (hdigits : ∀ c ∈ word, isdigit c) :
    Found Pattern.key (blanks ++ (word ++ rest)) blanks word rest := by
  refine found_delimited (List.append_assoc _ _ _).symm ?_
    (fun c hc => isword_of_isspace (h.blanks_blank c hc)) ?_ h.rest_begin
  · intro _ m _ hmatch
    obtain ⟨hne, hall⟩ := matches_plus_chars.mp hmatch
    exact ⟨hne, fun c hc => isword_of_isdigit (hall c hc)⟩
  · exact matches_plus_chars.mpr ⟨h.word_ne, hdigits⟩

end FirstWord

section Patterns

variable {str : dbValue}

theorem check_iff {pat : Regex UInt8} :
    Check pat str = true ↔ ∃ l m t, str = l ++ m ++ t ∧ Matches pat l m t := by
  constructor
  · intro h
    by_contra hnone
    push Not at hnone
    rw [Check, RegMatch, search_eq_none_iff.mpr hnone] at h
    cases h
  · rintro ⟨l, m, t, hstr, hmatch⟩
    exact check_of_matches hstr hmatch

/-- The begin of the three patterns. -/
theorem check_command_iff {as : List (Regex UInt8)} :
    Check (seqs (bol :: star Pattern.space :: between 3 5 Pattern.word :: as)) str = true ↔
      ∃ leading command rest t, str = leading ++ (command ++ (rest ++ t)) ∧
        (∀ c ∈ leading, isspace c) ∧ CommandLength command ∧
          (∀ c ∈ command, isword c) ∧
        Matches (seqs as) (leading ++ command) rest t := by
  rw [check_iff]
  constructor
  · rintro ⟨_, _, t, hstr, _, _, rfl, ⟨rfl, rfl⟩, leading, _, rfl, hleading,
      command, rest, rfl, hcommand, hrest⟩
    obtain ⟨hlo, hhi, hword⟩ := (matches_between_chars (by decide)).mp hcommand
    refine ⟨leading, command, rest, t, ?_, matches_star_chars.mp hleading, ⟨hlo, hhi⟩,
      hword, hrest⟩
    simpa only [List.nil_append, List.append_assoc] using hstr
  · rintro ⟨leading, command, rest, t, rfl, hleading, ⟨hlo, hhi⟩, hword, hrest⟩
    refine ⟨[], leading ++ (command ++ rest), t, ?_, [], _, rfl, ⟨rfl, rfl⟩, leading, _, rfl,
      matches_star_chars.mpr hleading, command, rest, rfl,
      (matches_between_chars (by decide)).mpr ⟨hlo, hhi, hword⟩, hrest⟩
    simp only [List.nil_append, List.append_assoc]

/-- **The first pattern**: a command, digits, and something behind blanks. -/
theorem check_twoParameters_iff :
    Check Pattern.twoParameters str = true ↔
      ∃ leading command gap digits gap₂ text,
        str = leading ++ (command ++ (gap ++ (digits ++ (gap₂ ++ text)))) ∧
          FirstWord leading command (gap ++ (digits ++ (gap₂ ++ text))) ∧
            CommandLength command ∧
          FirstWord gap digits (gap₂ ++ text) ∧ (∀ c ∈ digits, isdigit c) ∧
          gap₂ ≠ [] ∧ (∀ c ∈ gap₂, isspace c) ∧ text ≠ [] := by
  rw [Pattern.twoParameters, check_command_iff]
  constructor
  · rintro ⟨leading, command, _, t, hstr, hleading, hlength, hword, gap, _, rfl, hgap,
      digits, _, rfl, hdigits, gap₂, _, rfl, hgap₂, text, _, rfl, htext, _, _, rfl,
        ⟨rfl, hend⟩, rfl⟩
    obtain rfl : t = [] := hend
    obtain ⟨hgap_ne, hgap_blank⟩ := matches_plus_chars.mp hgap
    obtain ⟨hdigits_ne, hdigits_digit⟩ := matches_plus_chars.mp hdigits
    obtain ⟨hgap₂_ne, hgap₂_blank⟩ := matches_plus_chars.mp hgap₂
    obtain ⟨htext_ne, -⟩ := matches_plus_chars.mp htext
    simp only [List.append_nil] at hstr
    exact ⟨leading, command, gap, digits, gap₂, text, hstr,
      ⟨hleading, hlength.ne_nil, hword, head?_blank hgap_ne hgap_blank⟩, hlength,
      ⟨hgap_blank, hdigits_ne, fun c hc => isword_of_isdigit (hdigits_digit c hc),
        head?_blank hgap₂_ne hgap₂_blank⟩,
      hdigits_digit, hgap₂_ne, hgap₂_blank, htext_ne⟩
  · rintro ⟨leading, command, gap, digits, gap₂, text, rfl, hcommand, hlength, hoperand,
      hdigits, hgap₂_ne, hgap₂, htext⟩
    refine ⟨leading, command, gap ++ (digits ++ (gap₂ ++ text)), [], ?_, hcommand.blanks_blank,
      hlength, hcommand.word_word, gap, _, rfl,
      matches_plus_chars.mpr ⟨hcommand.gap_ne hoperand, hoperand.blanks_blank⟩,
      digits, _, rfl, matches_plus_chars.mpr ⟨hoperand.word_ne, hdigits⟩,
      gap₂, _, rfl, matches_plus_chars.mpr ⟨hgap₂_ne, hgap₂⟩,
      text, [], (List.append_nil text).symm, matches_plus_chars.mpr ⟨htext, fun _ _ => rfl⟩,
      [], [], rfl, ⟨rfl, rfl⟩, rfl⟩
    rw [List.append_nil]

theorem matches_suffix {l m t : dbValue} :
    Matches (seqs [Pattern.literal '.', star Pattern.word, Pattern.literal 'd',
      Pattern.literal 'b']) l m t ↔ DBSuffix m := by
  constructor
  · rintro ⟨_, _, rfl, ⟨dot, rfl, hdot⟩, middle, _, rfl, hmiddle, _, _, rfl,
      ⟨d, rfl, hd⟩, _, _, rfl, ⟨b, rfl, hb⟩, rfl⟩
    obtain rfl := eq_dot hdot
    refine ⟨middle, [d, b], rfl, matches_star_chars.mp hmiddle, ?_⟩
    rw [strcasecmp, List.map_cons, List.map_cons, eq_of_beq hd, eq_of_beq hb]
    decide
  · rintro ⟨middle, db, rfl, hmiddle, hdb⟩
    obtain ⟨d, b, rfl⟩ := List.length_eq_two.mp (length_of_strcasecmp hdb)
    have hmap : [d, b].map tolower = (ascii "db").map tolower := eq_of_beq hdb
    obtain ⟨hd, hb⟩ := List.cons.inj hmap
    obtain ⟨hb, -⟩ := List.cons.inj hb
    refine ⟨['.'.toUInt8], middle ++ [d, b], rfl, ⟨_, rfl, by decide⟩, middle, [d, b], rfl,
      matches_star_chars.mpr hmiddle, [d], [b], rfl, ⟨d, rfl, ?_⟩, [b], [], rfl,
        ⟨b, rfl, ?_⟩, rfl⟩
    · exact beq_iff_eq.mpr hd
    · exact beq_iff_eq.mpr hb

/-- A suffix, and blanks too, end a word. -/
theorem head?_suffix {suffix trailing : dbValue} (h : suffix = [] ∨ DBSuffix suffix)
    (hblank : ∀ c ∈ trailing, isspace c) : (suffix ++ trailing).head?.any isword = false := by
  rcases h with rfl | ⟨middle, db, rfl, -, -⟩
  · exact head?_blanks hblank
  · rfl

/-- **The second pattern**: a command, a word that may have a suffix, and blanks. -/
theorem check_oneParameter_iff :
    Check Pattern.oneParameter str = true ↔
      ∃ leading command gap stem suffix trailing,
        str = leading ++ (command ++ (gap ++ (stem ++ (suffix ++ trailing)))) ∧
          FirstWord leading command (gap ++ (stem ++ (suffix ++ trailing))) ∧
          CommandLength command ∧ FirstWord gap stem (suffix ++ trailing) ∧
          (suffix = [] ∨ DBSuffix suffix) ∧ ∀ c ∈ trailing, isspace c := by
  rw [Pattern.oneParameter, check_command_iff]
  constructor
  · rintro ⟨leading, command, _, t, hstr, hleading, hlength, hword, gap, _, rfl, hgap,
      stem, _, rfl, hstem, suffix, _, rfl, hopt, trailing, _, rfl, htrailing,
      _, _, rfl, ⟨rfl, hend⟩, rfl⟩
    obtain rfl : t = [] := hend
    obtain ⟨hgap_ne, hgap_blank⟩ := matches_plus_chars.mp hgap
    obtain ⟨hstem_ne, hstem_word⟩ := matches_plus_chars.mp hstem
    have hblank := matches_star_chars.mp htrailing
    have hsuffix : suffix = [] ∨ DBSuffix suffix := by
      rcases hopt with hdb | hnil
      · exact Or.inr (matches_suffix.mp hdb)
      · exact Or.inl hnil
    simp only [List.append_nil] at hstr
    exact ⟨leading, command, gap, stem, suffix, trailing, hstr,
      ⟨hleading, hlength.ne_nil, hword, head?_blank hgap_ne hgap_blank⟩, hlength,
      ⟨hgap_blank, hstem_ne, hstem_word, head?_suffix hsuffix hblank⟩, hsuffix, hblank⟩
  · rintro ⟨leading, command, gap, stem, suffix, trailing, rfl, hcommand, hlength, hoperand,
      hsuffix, hblank⟩
    refine ⟨leading, command, gap ++ (stem ++ (suffix ++ trailing)), [], ?_,
      hcommand.blanks_blank, hlength, hcommand.word_word, gap, _, rfl,
      matches_plus_chars.mpr ⟨hcommand.gap_ne hoperand, hoperand.blanks_blank⟩, stem, _, rfl,
      matches_plus_chars.mpr ⟨hoperand.word_ne, hoperand.word_word⟩, suffix, _, rfl, ?_,
      trailing, [], (List.append_nil trailing).symm, matches_star_chars.mpr hblank, [], [], rfl,
      ⟨rfl, rfl⟩, rfl⟩
    · rw [List.append_nil]
    · rcases hsuffix with hnil | hdb
      · exact Or.inr hnil
      · exact Or.inl (matches_suffix.mpr hdb)

/-- **The third pattern**: a command and blanks. -/
theorem check_noParameter_iff :
    Check Pattern.noParameter str = true ↔
      ∃ leading command trailing, str = leading ++ (command ++ trailing) ∧
        FirstWord leading command trailing ∧ CommandLength command ∧
          ∀ c ∈ trailing, isspace c := by
  rw [Pattern.noParameter, check_command_iff]
  constructor
  · rintro ⟨leading, command, _, t, hstr, hleading, hlength, hword, trailing, _, rfl, htrailing,
      _, _, rfl, ⟨rfl, hend⟩, rfl⟩
    obtain rfl : t = [] := hend
    have hblank := matches_star_chars.mp htrailing
    simp only [List.append_nil] at hstr
    exact ⟨leading, command, trailing, hstr,
      ⟨hleading, hlength.ne_nil, hword, head?_blanks hblank⟩, hlength, hblank⟩
  · rintro ⟨leading, command, trailing, rfl, hcommand, hlength, hblank⟩
    refine ⟨leading, command, trailing, [], ?_, hcommand.blanks_blank, hlength,
      hcommand.word_word, trailing, [], (List.append_nil trailing).symm,
      matches_star_chars.mpr hblank, [], [], rfl, ⟨rfl, rfl⟩, rfl⟩
    rw [List.append_nil]

end Patterns

namespace FirstWord

variable {blanks word gap operand tail : dbValue}

/-- The first pattern on a line with an operand. -/
theorem check_twoParameters (h : FirstWord blanks word (gap ++ (operand ++ tail)))
    (h' : FirstWord gap operand tail) :
    Check Pattern.twoParameters (blanks ++ (word ++ (gap ++ (operand ++ tail)))) = true ↔
      CommandLength word ∧ (∀ c ∈ operand, isdigit c) ∧
        ∃ gap₂ text, tail = gap₂ ++ text ∧ gap₂ ≠ [] ∧
          (∀ c ∈ gap₂, isspace c) ∧ text ≠ [] := by
  rw [check_twoParameters_iff]
  constructor
  · rintro ⟨leading, command, gap', digits, gap₂, text, hstr, hcommand, hlength,
      hoperand, hdigits, hgap₂_ne, hgap₂, htext⟩
    obtain ⟨-, rfl, hrest⟩ := h.unique hcommand hstr
    obtain ⟨-, rfl, htail⟩ := h'.unique hoperand hrest
    exact ⟨hlength, hdigits, gap₂, text, htail, hgap₂_ne, hgap₂, htext⟩
  · rintro ⟨hlength, hdigits, gap₂, text, rfl, hgap₂_ne, hgap₂, htext⟩
    exact ⟨blanks, word, gap, operand, gap₂, text, rfl, h, hlength, h', hdigits,
      hgap₂_ne, hgap₂, htext⟩

/-- With digits and blanks only, the second parameter is a blank behind a blank. -/
theorem check_twoParameters_blanks (h : FirstWord blanks word (gap ++ (operand ++ tail)))
    (h' : FirstWord gap operand tail) (hblank : ∀ c ∈ tail, isspace c) :
    Check Pattern.twoParameters (blanks ++ (word ++ (gap ++ (operand ++ tail)))) = true ↔
      CommandLength word ∧ (∀ c ∈ operand, isdigit c) ∧ 2 ≤ tail.length := by
  rw [h.check_twoParameters h']
  refine and_congr_right fun _ => and_congr_right fun _ => ?_
  constructor
  · rintro ⟨gap₂, text, rfl, hgap₂, -, htext⟩
    have hgap₂_pos := List.length_pos_iff.mpr hgap₂
    have htext_pos := List.length_pos_iff.mpr htext
    rw [List.length_append]
    omega
  · intro hlen
    cases tail with
    | nil => cases hlen
    | cons c text =>
        obtain ⟨hc, -⟩ := List.forall_mem_cons.mp hblank
        refine ⟨[c], text, rfl, List.cons_ne_nil c [], List.forall_mem_singleton.mpr hc, ?_⟩
        rintro rfl
        rw [List.length_singleton] at hlen
        omega

/-- No pattern accepts a line with a longer or a shorter command. -/
theorem not_check (h : FirstWord blanks word tail) (hlength : ¬ CommandLength word) :
    Check Pattern.twoParameters (blanks ++ (word ++ tail)) = false ∧
      Check Pattern.oneParameter (blanks ++ (word ++ tail)) = false ∧
      Check Pattern.noParameter (blanks ++ (word ++ tail)) = false := by
  simp only [← Bool.not_eq_true]
  refine ⟨?_, ?_, ?_⟩
  · intro hcheck
    obtain ⟨_, _, _, _, _, _, hstr, hcommand, hlength', -⟩ :=
      check_twoParameters_iff.mp hcheck
    obtain ⟨-, rfl, -⟩ := h.unique hcommand hstr
    exact hlength hlength'
  · intro hcheck
    obtain ⟨_, _, _, _, _, _, hstr, hcommand, hlength', -⟩ := check_oneParameter_iff.mp hcheck
    obtain ⟨-, rfl, -⟩ := h.unique hcommand hstr
    exact hlength hlength'
  · intro hcheck
    obtain ⟨_, _, _, hstr, hcommand, hlength', -⟩ := check_noParameter_iff.mp hcheck
    obtain ⟨-, rfl, -⟩ := h.unique hcommand hstr
    exact hlength hlength'

end FirstWord

end DistributedDB
