import Runbook.Proofs.Recipe.Exchange
import Runbook.Proofs.Text.Quoted

/-! # Values in double quotes

A value that begins with a double quote is read as a string literal, and so is the text of an `info` step: a literal gives
the text that it denotes, of which a step takes what stands between the blanks at its ends, and what is no literal is an
error of its line. Main statement: `Line.quoted_values`. -/

namespace Runbook

open Text Text.Quoted

variable {line : Line} {key s t gap : Text}

/-! ### Steps that print -/

theorem Text.trimLeft_eq_nil_iff : trimLeft s = [] ↔ trim s = [] := by
  constructor
  · intro h
    rw [trim, h]
    rfl
  · intro h
    by_contra hne
    exact trim_ne_nil hne h

theorem Text.trim_trimLeft (s : Text) : trim (trimLeft s) = trim s := by
  have hidem : trimLeft (trimLeft s) = trimLeft s := List.dropWhile_idempotent isBlank s
  rw [trim, hidem, trim]

/-- A text prints what stands between its blanks; a text of blanks alone is nothing to print. -/
theorem ofValue_info (s : Text) (line : Line) : Step.ofValue ("info " ++ s) line =
    if trim s = [] then .error (.malformed .missingDirective line) else .ok ⟨.info, trim s, some line⟩ := by
  have hparts : stepParts? ("info " ++ s) = if trim s = [] then none
      else some ("info".toList, some (trimLeft s)) := by
    show (if (trimLeft s).isEmpty then none else some ("info".toList, some (trimLeft s))) = _
    simp only [List.isEmpty_iff, trimLeft_eq_nil_iff]
  by_cases hblank : trim s = []
  · rw [Step.ofValue, hparts, if_pos hblank, if_pos hblank]
  · rw [Step.ofValue, hparts, if_neg hblank, if_neg hblank]
    show Except.ok (⟨.info, trim (trimLeft s), some line⟩ : Step) = _
    rw [trim_trimLeft]

/-! ### Lines with such values -/

/-- The line, which is not that of a block, assigns a text to a key; blanks may stand around both. -/
structure Line.Assigns (line : Line) (key value : Text) : Prop where
  noBlock : line.value = none
  text : ∃ before after, line.text = before ++ '=' :: after ∧ '=' ∉ before ∧ trim before = key ∧ trim after = value

namespace Line.Assigns

theorem key_eq (h : line.Assigns key t) : line.key = key := by
  obtain ⟨before, after, htext, hequals, hkey, -⟩ := h.text
  rw [Line.key, htext, cut_append hequals, hkey]

theorem written_eq (h : line.Assigns key t) : trim ((cut '=' line.text).2.getD []) = t := by
  obtain ⟨before, after, htext, hequals, -, hvalue⟩ := h.text
  rw [htext, cut_append hequals, Option.getD_some, hvalue]

theorem isTrimmed (h : line.Assigns key t) : IsTrimmed t := h.written_eq ▸ isTrimmed_trim _

theorem assignment_quoted (h : line.Assigns key t) (hstarts : startsWith "\"" t = true) :
    line.assignment = (unquote line t).map fun v => (key, v) := by
  rw [Line.assignment, h.noBlock]
  dsimp only
  rw [h.written_eq, if_pos hstarts, h.key_eq]

theorem assignment_info (h : line.Assigns key ("info" ++ gap ++ t)) (hgap : ∀ c ∈ gap, isBlank c = true) (hne : gap ≠ [])
    (hstarts : startsWith "\"" t = true) : line.assignment = (unquote line t).map fun v => (key, "info ".toList ++ v) := by
  obtain ⟨c, gap, rfl⟩ := List.exists_cons_of_ne_nil hne
  obtain ⟨hc, hgap⟩ := List.forall_mem_cons.mp hgap
  have hleft : trimLeft (gap ++ t) = t := by
    obtain ⟨rest, rfl⟩ := List.isPrefixOf_iff_prefix.mp hstarts
    rw [trimLeft, List.dropWhile_append_of_pos hgap]
    rfl
  have hquoted : quotedInfo? ("info" ++ (c :: gap) ++ t) = some t := by
    show (if isBlank c && startsWith "\"" (trimLeft (gap ++ t)) then some (trimLeft (gap ++ t)) else none) = _
    rw [hleft, hc, hstarts]
    rfl
  rw [Line.assignment, h.noBlock]
  dsimp only
  rw [h.written_eq, hquoted, h.key_eq]
  rfl

end Line.Assigns

theorem unquote_of_denotes (h : Denotes t s) (line : Line) : unquote line t = .ok s := by
  rw [unquote, decodeBody_of_denotes h]

theorem startsWith_of_denotes (h : Denotes t s) : startsWith "\"" t = true := by
  obtain ⟨body, -, rfl⟩ := h
  rfl

/-- A line that assigns a literal assigns the text that the literal denotes; a step that prints a literal prints the
    text, without the blanks at its ends, or is an error of its line if there is nothing else in the text. What begins
    with a double quote and is no literal is an error of its line. -/
theorem Line.quoted_values (line : Line) (key t : Text) :
    (∀ s, line.Assigns key t → Denotes t s → line.assignment = .ok (key, s)) ∧
    (∀ gap s, line.Assigns "step" ("info" ++ gap ++ t) → (∀ c ∈ gap, isBlank c = true) → gap ≠ [] → Denotes t s →
      ∀ r : Recipe, r.assign (some .steps) line =
        if trim s = [] then .error (.malformed .missingDirective line)
        else .ok { r with steps := r.steps ++ [⟨.info, trim s, some line⟩] }) ∧
    (line.Assigns key t → startsWith "\"" t = true → ¬ IsLiteral t →
      ∃ flaw, line.assignment = .error (.malformed (.quotedValue t flaw) line)) := by
  refine ⟨fun s hline hdenotes => ?_, fun gap s hline hgap hne hdenotes r => ?_, fun hline hstarts hliteral => ?_⟩
  · rw [hline.assignment_quoted (startsWith_of_denotes hdenotes), unquote_of_denotes hdenotes]
    rfl
  · have ha : line.assignment = .ok ("step".toList, "info ".toList ++ s) := by
      rw [hline.assignment_info hgap hne (startsWith_of_denotes hdenotes), unquote_of_denotes hdenotes]
      rfl
    obtain ⟨hkey, hvalue⟩ := assignment_ok ha
    rw [assign_steps (by rw [← hkey, ← hvalue, ha]), ← hvalue, ofValue_info]
    split <;> rfl
  · rw [hline.assignment_quoted hstarts, unquote]
    cases hdecode : decodeBody (t.drop 1) with
    | ok s => exact absurd (isLiteral_of_decodeBody hline.isTrimmed hstarts hdecode) hliteral
    | error flaw => exact ⟨flaw, rfl⟩

/-- A literal for a blank, a letter, a character above U+FFFF and a line feed. -/
def Text.Quoted.greeting : Text := "\" \\u00e9\\uD83D\\ude00\\n\""

theorem Text.Quoted.denotes_greeting : Denotes greeting " é😀\n" := by
  have hblank : Piece " " (some ' ') := .raw (by decide) (by decide) (by decide)
  have hletter : Piece "\\u00e9" (some 'é') := .unit (hexFour_of_eq_some (by decide))
  have hsmile : Piece "\\uD83D\\ude00" (some '😀') :=
    @Piece.pair "D83D" "de00" 0x3D 0x200 '😀' (hexFour_of_eq_some (by decide)) (hexFour_of_eq_some (by decide))
      (by decide) (by decide)
  have hfeed : Piece "\\n" (some '\n') := .short (by decide)
  exact ⟨_, .cons hblank (.cons hletter (.cons hsmile (.cons hfeed .nil))), rfl⟩

/-- A line that is not that of a block. -/
def Line.single (text : Text) : Line := ⟨"r", "/w/r", 5, text, none⟩

theorem Line.quoted_values_greeting :
    (single ("x = " ++ greeting)).assignment = .ok ("x", " é😀\n") ∧
    (Recipe.blank "r" "/w/r").assign (some .steps) (single ("step = info " ++ greeting)) =
      .ok { Recipe.blank "r" "/w/r" with steps := [⟨.info, "é😀", some (single ("step = info " ++ greeting))⟩] } ∧
    ¬ IsLiteral "\"a\" b" ∧
    ∃ flaw, (single "x = \"a\" b").assignment =
      .error (.malformed (.quotedValue "\"a\" b" flaw) (single "x = \"a\" b")) := by
  have hx : (single ("x = " ++ greeting)).Assigns "x" greeting :=
    ⟨rfl, "x ", ' ' :: greeting, rfl, by decide, rfl, rfl⟩
  have hstep : (single ("step = info " ++ greeting)).Assigns "step" ("info" ++ " " ++ greeting) :=
    ⟨rfl, "step ", " info " ++ greeting, rfl, by decide, rfl, rfl⟩
  have hopen : (single "x = \"a\" b").Assigns "x" "\"a\" b" := ⟨rfl, "x ", " \"a\" b", rfl, by decide, rfl, rfl⟩
  have hnone : ¬ IsLiteral "\"a\" b" := by
    rintro ⟨values, body, -, hwhole⟩
    have hlast := congrArg List.getLast? hwhole
    rw [List.getLast?_concat] at hlast
    exact absurd hlast (by decide)
  refine ⟨(quoted_values _ _ _).1 _ hx denotes_greeting, ?_, hnone, (quoted_values _ _ _).2.2 hopen rfl hnone⟩
  exact (quoted_values _ "step" _).2.1 " " _ hstep (List.all_eq_true.mp rfl) (by decide) denotes_greeting _

end Runbook
