import Runbook.Proofs.Recipe.Exchange
import Runbook.Proofs.Text.Margins
import Runbook.Proofs.Words.Composition
import Runbook.Proofs.Words.Grammar

/-! # Lines that declare a variable

A line that gives a name a value is no comment, no header and no beginning of a block, whatever the name and the value
are (`Declarable.take`), and it is taken as the assignment of this value to this name (`IsDeclaration.assignment`). But
in every section a line that begins with the word that includes a file is taken for an include line. Of the lines that
declare a variable these are the ones of one name with a blank before the equals sign (`Declarable.isStatement_iff`);
what follows the word is the equals sign then, which is not a path alone unless there is no value
(`Declarable.target_eq`). -/

namespace Runbook

open Text Include

variable {c : Char} {name value text rest : Text} {spaced : Bool} {line : Line}

/-! ### Texts without a double quote -/

theorem Text.startsWith_eq_false (h : c ∉ text) (head : Text) : startsWith (c :: head) text = false := by
  rw [Bool.eq_false_iff]
  intro hstarts
  obtain ⟨rest, rfl⟩ := List.isPrefixOf_iff_prefix.mp hstarts
  exact h List.mem_cons_self

theorem Text.mem_of_mem_trimLeft (h : c ∈ trimLeft text) : c ∈ text := (List.dropWhile_sublist _).subset h

theorem Block.afterFence?_eq_none (h : '"' ∉ text) : afterFence? text = none := by
  rw [afterFence?, fence, startsWith_eq_false h]
  rfl

theorem Block.mem_of_afterWord? {word : Text} (h : afterWord? word text = some rest) (hmem : c ∈ rest) : c ∈ text := by
  unfold afterWord? at h
  split at h
  · split at h
    · rename_i d after hdrop
      split at h <;> cases h
      have hafter : c ∈ text.drop word.length := hdrop ▸ List.mem_cons_of_mem d (mem_of_mem_trimLeft hmem)
      exact List.mem_of_mem_drop hafter
    · cases h
  · cases h

theorem Block.openingOfValue?_eq_none (h : '"' ∉ text) : openingOfValue? text = none := by
  rw [openingOfValue?, afterFence?_eq_none h]
  refine List.findSome?_eq_none_iff.mpr fun d _ => ?_
  cases hrest : afterWord? d.keyword text with
  | none => rfl
  | some rest =>
    have hrest : '"' ∉ rest := fun hmem => h (mem_of_afterWord? hrest hmem)
    rw [Option.bind_some, afterFence?_eq_none hrest, Option.map_none]

theorem Block.opening?_eq_none (h : '"' ∉ text) : opening? text = none := by
  unfold opening?
  dsimp only
  split
  · rename_i rest heq
    split
    · rfl
    · refine openingOfValue?_eq_none fun hmem => ?_
      have hrest : '"' ∈ '=' :: rest := List.mem_cons_of_mem _ (mem_of_mem_trimLeft hmem)
      exact h (List.mem_of_mem_drop (mem_of_mem_trimLeft (heq ▸ hrest)))
  · rfl

theorem quotedInfo?_eq_none (h : '"' ∉ text) : quotedInfo? text = none := by
  unfold quotedInfo?
  dsimp only
  split
  · split
    · rfl
    · rename_i d rest hdrop
      have hrest : '"' ∉ trimLeft rest := fun hmem =>
        h (List.mem_of_mem_drop (hdrop ▸ List.mem_cons_of_mem d (mem_of_mem_trimLeft hmem)))
      have hstarts : startsWith "\"" (trimLeft rest) = false := startsWith_eq_false hrest []
      rw [hstarts, Bool.and_false]
      rfl
  · rfl

/-! ### The text of the line -/

namespace Recipe

/-- What stands around the equals sign. -/
def gap (spaced : Bool) : Text := if spaced then " " else ""

/-- The line that gives a variable a value. -/
def declaration (spaced : Bool) (name value : Text) : Text := name ++ gap spaced ++ '=' :: (gap spaced ++ value)

/-- A name and a value that a line can give it as it stands: no line end and no double quote is in the value, and no
    white space at its ends. -/
structure Declarable (name value : Text) : Prop where
  isValid : VariableName.isValid name = true
  noFeed : '\n' ∉ value
  noQuote : '"' ∉ value
  trimmed : trim value = value

instance (name value : Text) : Decidable (Declarable name value) :=
  decidable_of_iff (VariableName.isValid name = true ∧ '\n' ∉ value ∧ '"' ∉ value ∧ trim value = value)
    ⟨fun ⟨hname, hfeed, hquote, htrim⟩ => ⟨hname, hfeed, hquote, htrim⟩,
      fun h => ⟨h.isValid, h.noFeed, h.noQuote, h.trimmed⟩⟩

theorem isBlank_of_mem_gap (h : c ∈ gap spaced) : isBlank c = true := by
  unfold gap at h
  split at h
  · rw [List.mem_singleton.mp h]
    rfl
  · cases h

theorem not_mem_gap (h : isBlank c = false) : c ∉ gap spaced := fun hmem => by
  rw [isBlank_of_mem_gap hmem] at h
  cases h

namespace Declarable

variable (h : Declarable name value)
include h

theorem isKeyChar : ∀ c ∈ name, Block.IsKeyChar c := Block.isKeyChar_of_isValid h.isValid

theorem not_mem_name (hc : VariableName.isTail c = false) : c ∉ name := VariableName.not_mem_of_isValid h.isValid hc

theorem trim_name : trim name = name := trim_of_noBlank fun c hc => (h.isKeyChar c hc).1

theorem ne_nil : name ≠ [] := by
  rintro rfl
  exact absurd h.isValid (by decide)

theorem trim_declaration : trim (declaration spaced name value) =
    name ++ gap spaced ++ '=' :: trimRight (gap spaced ++ value) := by
  have hleft : trimLeft (declaration spaced name value) = declaration spaced name value := by
    refine trimLeft_of_head fun hne => ?_
    simp only [declaration, List.append_assoc, List.head_append_of_ne_nil h.ne_nil]
    exact (h.isKeyChar _ (List.head_mem _)).1
  have hequals : trimRight (name ++ gap spaced ++ ['=']) = name ++ gap spaced ++ ['='] :=
    List.rdropWhile_concat_neg isBlank _ '=' (by decide)
  rw [trim, hleft, declaration, List.append_cons, trimRight_append hequals, List.append_assoc _ ['=']]
  rfl

theorem noQuote_trim : '"' ∉ trim (declaration spaced name value) := by
  have hname : '"' ∉ name := h.not_mem_name rfl
  have hgap : '"' ∉ gap spaced := not_mem_gap rfl
  refine fun hmem => absurd (mem_of_mem_trim hmem) ?_
  simp [declaration, hname, hgap, h.noQuote]

theorem isSilent_trim : isSilent (trim (declaration spaced name value)) = false := by
  obtain ⟨c, rest, rfl⟩ := List.exists_cons_of_ne_nil h.ne_nil
  obtain ⟨-, -, hhash⟩ := h.isKeyChar c List.mem_cons_self
  rw [h.trim_declaration]
  simp [isSilent, startsWith, List.isPrefixOf, Ne.symm hhash]

/-- What stands before the equals sign, up to the first blank, is the name. -/
theorem takeWhile_trim :
    (trim (declaration spaced name value)).takeWhile (fun c => !isBlank c && c != '=') = name := by
  have hname : ∀ c ∈ name, (!isBlank c && c != '=') = true := fun c hc => by
    obtain ⟨hblank, hequals, -⟩ := h.isKeyChar c hc
    simp [hblank, hequals]
  rw [h.trim_declaration, List.append_assoc, List.takeWhile_append_of_pos hname]
  cases spaced <;> simp [gap, isBlank]

/-- A declaration is taken for an include line if the variable has the name of the word that includes a file and a blank
    stands after it. -/
theorem isStatement_iff :
    isStatement (trim (declaration spaced name value)) = true ↔ spaced = true ∧ name = Include.keyword := by
  constructor
  · intro hstatement
    -- The first word of an include line ends at a blank, as the name does unless the equals sign follows it at once.
    have hname : name = Include.keyword := by rw [← h.takeWhile_trim, Block.takeWhile_of_isStatement hstatement]
    refine ⟨?_, hname⟩
    cases spaced with
    | true => rfl
    | false =>
      rw [h.trim_declaration, hname] at hstatement
      cases hstatement
  · rintro ⟨rfl, rfl⟩
    rw [h.trim_declaration]
    rfl

end Declarable

/-! ### The logical line -/

/-- A logical line that gives a variable a value. -/
structure IsDeclaration (spaced : Bool) (name value : Text) (line : Line) : Prop where
  text : line.text = trim (declaration spaced name value)
  value : line.value = none

namespace IsDeclaration

variable (h : Declarable name value) (hline : IsDeclaration spaced name value line)
include h hline

theorem isHeader : line.isHeader = false := by
  obtain ⟨c, rest, rfl⟩ := List.exists_cons_of_ne_nil h.ne_nil
  have hc : c ≠ '[' := fun hc => h.not_mem_name (c := '[') rfl (hc ▸ List.mem_cons_self)
  rw [Line.isHeader, hline.text, hline.value, h.trim_declaration]
  simp [startsWith, List.isPrefixOf, Ne.symm hc]

theorem cut_eq : cut '=' line.text = (name ++ gap spaced, some (trimRight (gap spaced ++ value))) := by
  have hequals : '=' ∉ name ++ gap spaced := fun hmem =>
    (List.mem_append.mp hmem).elim (h.not_mem_name rfl) (not_mem_gap rfl)
  rw [hline.text, h.trim_declaration, cut_append hequals]

theorem key : line.key = name := by
  rw [Line.key, cut_eq h hline, trim_append_blanks fun c => isBlank_of_mem_gap, h.trim_name]

theorem fits {before : List Line} (hs : lastSection before = some .declarations) : Fits before line := by
  have hequals : '=' ∈ line.text := by
    rw [hline.text, h.trim_declaration]
    exact List.mem_append_right _ List.mem_cons_self
  rw [Fits, if_neg (by simp [isHeader h hline]), hs]
  exact ⟨.declarations, rfl, hequals, rfl⟩

theorem assignment : line.assignment = .ok (name, value) := by
  have hvalue : trim ((cut '=' line.text).2.getD []) = value := by
    rw [cut_eq h hline, Option.getD_some, trim_trimRight, trim_blanks_append fun c => isBlank_of_mem_gap, h.trimmed]
  have hquoted : startsWith "\"" value = false := startsWith_eq_false h.noQuote []
  rw [Line.assignment, hline.value]
  dsimp only
  rw [hvalue, hquoted, quotedInfo?_eq_none h.noQuote, key h hline]
  rfl

theorem assigned : line.assigned = value := by
  rw [Line.assigned, assignment h hline]

end IsDeclaration

/-! ### Reading the line -/

variable {σ : Type} {homes : Homes} {base source path raw : Text} {number : Int}
  {include? : Line → Text → Reading σ (List Line)}

/-- A line that declares a variable and is not taken for an include line is read as it stands, whatever blanks there
    are around it. -/
theorem Declarable.readLine (h : Declarable name value) (hraw : trim raw = trim (declaration spaced name value))
    (hstatement : ¬ (spaced = true ∧ name = Include.keyword)) (st : σ) :
    readLine homes base include? ⟨.ofFile source path, number⟩ raw st =
      .ok (⟨.ofFile source path, number + 1⟩, [⟨source, path, number, trim raw, none⟩]) st := by
  have hsilent : isSilent (trim raw) = false := hraw ▸ h.isSilent_trim
  have hnone : isStatement (trim raw) = false := by
    rw [Bool.eq_false_iff, hraw]
    exact fun hincludes => hstatement (h.isStatement_iff.mp hincludes)
  -- Without a double quote nothing can open a block.
  have hopening : Block.opening? (trim raw) = none := Block.opening?_eq_none (hraw ▸ h.noQuote_trim)
  exact readLine_plain hsilent hnone hopening st

/-- The equals sign is not the only word when there is a value. -/
theorem split_equals (hvalue : value ≠ []) (htrim : trim value = value) (word : Text) :
    Words.split ('=' :: ' ' :: value) ≠ .ok [word] := by
  intro hsplit
  obtain ⟨c, rest, rfl⟩ := List.exists_cons_of_ne_nil hvalue
  have hc : isBlank c = false := (isTrimmed_trim (c :: rest)).first c (by rw [htrim]; rfl)
  -- After the first word the reader is where it began, and the value, which is not blank, has a word.
  rw [Words.split_eq_ok, Words.scan_bare (by decide) rfl rfl, Words.scan_blank rfl] at hsplit
  obtain ⟨words, hscan, hwords⟩ := Words.exists_of_cons_eq_ok hsplit
  have hspells : Words.Spells (c :: rest) words := Words.resumes_of_scan (by simp) hscan
  exact hspells.ne_nil List.mem_cons_self hc (List.cons.inj hwords).2

/-- What a declaration that is taken for an include line includes: nothing if there is a value, which is too much for
    the path of a file, and else a file that is named like the equals sign. -/
theorem Declarable.target_eq (h : Declarable Include.keyword value) (homes : Homes) (base : Text)
    (hline : line.text = trim (declaration true Include.keyword value)) :
    (value ≠ [] → ∃ cause, (cause = .includeArity ∨ ∃ e, cause = .includeQuote e) ∧
      target homes base line = .error (.load (.malformed cause line))) ∧
    (value = [] → target homes base line = .ok (Path.joinText base "=")) := by
  have hwords : trim (line.text.drop keyword.length) = '=' :: trimRight (' ' :: value) := by
    have hright : trimRight ('=' :: trimRight (' ' :: value)) = '=' :: trimRight (' ' :: value) := by
      have hequals : trimRight ['='] = ['='] := rfl
      exact (trimRight_append hequals _).trans (congrArg ('=' :: ·) (dropEndWhile_idem isBlank _))
    rw [hline, h.trim_declaration, List.append_assoc, List.drop_left]
    exact hright
  constructor
  · intro hvalue
    have hright : trimRight value = value := by
      rw [← h.trimmed]
      exact dropEndWhile_idem isBlank _
    have hplain : trimRight (' ' :: value) = ' ' :: value := trimRight_append_self hright hvalue [' ']
    rw [target, hwords, hplain]
    cases hsplit : Words.split ('=' :: ' ' :: value) with
    | error e => exact ⟨.includeQuote e, Or.inr ⟨e, rfl⟩, rfl⟩
    | ok words =>
      match words with
      | [] => exact ⟨.includeArity, Or.inl rfl, rfl⟩
      | [word] => exact absurd hsplit (split_equals hvalue h.trimmed word)
      | _ :: _ :: _ => exact ⟨.includeArity, Or.inl rfl, rfl⟩
  · rintro rfl
    rw [target, hwords]
    rfl

end Recipe

end Runbook
