import Runbook.Recipe.Section
import Mathlib.Tactic.Common

/-! # The structure of a recipe file

Every line is a header or an assignment that its section allows, its section being that of the last header before it. A
file is checked to have this structure (`check_eq_ok`), and the first line that breaks it is the one reported
(`check_eq_error`). -/

namespace Runbook

variable {before after lines : List Line} {line : Line} {e : LoadError} {s : Section} {next : Option Section}

/-! ### Properties of lines in their context -/

/-- Every line, with the lines before it, has the property; `before` stands before all of them. -/
def Throughout (P : List Line → Line → Prop) (before lines : List Line) : Prop :=
  ∀ done line rest, lines = done ++ line :: rest → P (before ++ done) line

/-- The first line without the property fails with the error. -/
def FirstFails (P : List Line → Line → Prop) (Q : List Line → Line → LoadError → Prop) (before lines : List Line)
    (e : LoadError) : Prop :=
  ∃ done line rest, lines = done ++ line :: rest ∧ Throughout P before done ∧ Q (before ++ done) line e

section
variable {P : List Line → Line → Prop} {Q : List Line → Line → LoadError → Prop}

theorem throughout_nil : Throughout P before [] := by
  intro done line rest h
  cases done <;> cases h

theorem throughout_cons :
    Throughout P before (line :: lines) ↔ P before line ∧ Throughout P (before ++ [line]) lines := by
  constructor
  · intro h
    refine ⟨by simpa using h [] line lines rfl, fun done l rest heq => ?_⟩
    simpa using h (line :: done) l rest (by rw [heq, List.cons_append])
  · rintro ⟨hline, hrest⟩ done l rest heq
    cases done with
    | nil =>
      cases heq
      simpa using hline
    | cons first done =>
      cases heq
      simpa using hrest done l rest rfl

theorem throughout_append {lines' : List Line} :
    Throughout P before (lines ++ lines') ↔ Throughout P before lines ∧ Throughout P (before ++ lines) lines' := by
  induction lines generalizing before with
  | nil => simp [throughout_nil]
  | cons line lines ih => simp [throughout_cons, ih, and_assoc]

theorem firstFails_cons : FirstFails P Q before (line :: lines) e ↔
    Q before line e ∨ P before line ∧ FirstFails P Q (before ++ [line]) lines e := by
  constructor
  · rintro ⟨done, l, rest, heq, hdone, hl⟩
    cases done with
    | nil =>
      cases heq
      exact Or.inl (by simpa using hl)
    | cons first done =>
      cases heq
      rw [throughout_cons] at hdone
      exact Or.inr ⟨hdone.1, done, l, rest, rfl, hdone.2, by simpa using hl⟩
  · rintro (hline | ⟨hline, done, l, rest, rfl, hdone, hl⟩)
    · exact ⟨[], line, lines, rfl, throughout_nil, by simpa using hline⟩
    · exact ⟨line :: done, l, rest, rfl, throughout_cons.mpr ⟨hline, hdone⟩, by simpa using hl⟩

theorem not_firstFails_nil : ¬ FirstFails P Q before [] e := by
  rintro ⟨done, line, rest, h, -⟩
  cases done <;> cases h

theorem FirstFails.not_throughout (hfails : ∀ before line e, Throughout P [] before → Q before line e → ¬ P before line)
    (hb : Throughout P [] before) (h : FirstFails P Q before lines e) : ¬ Throughout P before lines := by
  obtain ⟨done, line, rest, rfl, hdone, hline⟩ := h
  intro hall
  refine hfails (before ++ done) line e (throughout_append.mpr ⟨hb, by simpa using hdone⟩) hline ?_
  exact hall done line rest rfl

theorem FirstFails.unique {e' : LoadError}
    (hfails : ∀ before line e, Throughout P [] before → Q before line e → ¬ P before line)
    (hunique : ∀ before line e e', Throughout P [] before → Q before line e → Q before line e' → e = e')
    (hb : Throughout P [] before) (h : FirstFails P Q before lines e) (h' : FirstFails P Q before lines e') : e = e' := by
  induction lines generalizing before with
  | nil => exact absurd h not_firstFails_nil
  | cons line lines ih =>
    rcases firstFails_cons.mp h with hline | ⟨hline, hrest⟩ <;>
      rcases firstFails_cons.mp h' with hline' | ⟨hline', hrest'⟩
    · exact hunique before line e e' hb hline hline'
    · exact absurd hline' (hfails before line e hb hline)
    · exact absurd hline (hfails before line e' hb hline')
    · refine ih ?_ hrest hrest'
      exact throughout_append.mpr ⟨hb, throughout_cons.mpr ⟨by simpa using hline, throughout_nil⟩⟩

end

/-! ### Sections -/

/-- The section after some lines: that of the last header among them. -/
def lastSection (lines : List Line) : Option Section :=
  (lines.filter Line.isHeader).getLast?.bind fun line => Section.ofHeader? line.text

theorem lastSection_nil : lastSection [] = none := rfl

theorem lastSection_header (h : line.isHeader = true) (lines : List Line) :
    lastSection (lines ++ [line]) = Section.ofHeader? line.text := by
  simp [lastSection, List.filter_append, h]

theorem lastSection_assignment (h : line.isHeader = false) (lines : List Line) :
    lastSection (lines ++ [line]) = lastSection lines := by
  simp [lastSection, List.filter_append, h]

theorem Section.ofHeader?_header (s : Section) : ofHeader? s.header = some s := by
  cases s <;> rfl

theorem Section.header_of_ofHeader? {text : Text} (h : ofHeader? text = some s) : s.header = text := by
  simpa using List.find?_some h

theorem Section.ofHeader?_eq_none_iff {text : Text} : ofHeader? text = none ↔ ∀ s : Section, s.header ≠ text := by
  constructor
  · rintro h s rfl
    rw [ofHeader?_header] at h
    cases h
  · intro h
    cases hs : ofHeader? text with
    | none => rfl
    | some s => exact absurd (header_of_ofHeader? hs) (h s)

/-! ### The check -/

/-- A line is a header, or it is an assignment to a key that the section of the last header allows. -/
def Fits (before : List Line) (line : Line) : Prop :=
  if line.isHeader then ∃ s : Section, line.text = s.header
  else ∃ s, lastSection before = some s ∧ '=' ∈ line.text ∧ s.allows line.key = true

/-- How a line breaks the structure, if the lines before it do not. -/
inductive Misplaced (before : List Line) (line : Line) : SyntaxError → Prop
  | unknownSection (h : line.isHeader = true) (hs : ∀ s : Section, line.text ≠ s.header) :
    Misplaced before line (.unknownSection line.text)
  | orphan (h : line.isHeader = false) (hs : ∀ l ∈ before, l.isHeader = false) :
    Misplaced before line (.orphan line.text)
  | missingEquals {s : Section} (h : line.isHeader = false) (hs : lastSection before = some s) (heq : '=' ∉ line.text) :
    Misplaced before line (.missingEquals line.text)
  | unexpectedKey {s : Section} (h : line.isHeader = false) (hs : lastSection before = some s) (heq : '=' ∈ line.text)
      (hkey : s.allows line.key = false) :
    Misplaced before line (.unexpectedKey line.key s.header)

/-- A line breaks the structure, and this is the error. -/
def Breaks (before : List Line) (line : Line) (e : LoadError) : Prop :=
  ∃ cause, Misplaced before line cause ∧ e = .malformed cause line

/-- Every line fits the section it is in. -/
def WellPlaced (lines : List Line) : Prop := Throughout Fits [] lines

/-- Among lines that fit there is no section only if there is no header. -/
theorem lastSection_eq_none_iff (h : WellPlaced lines) :
    lastSection lines = none ↔ ∀ l ∈ lines, l.isHeader = false := by
  constructor
  · intro hnone l hl
    by_contra hheader
    have hheader : l.isHeader = true := by simpa using hheader
    have hne : lines.filter Line.isHeader ≠ [] := List.ne_nil_of_mem (List.mem_filter.mpr ⟨hl, hheader⟩)
    obtain ⟨last, hlast⟩ := Option.isSome_iff_exists.mp (List.getLast?_isSome.mpr hne)
    have hmem := List.mem_filter.mp (List.mem_of_getLast? hlast)
    obtain ⟨done, rest, hsplit⟩ := List.append_of_mem hmem.1
    have hfits := h done last rest hsplit
    rw [Fits, if_pos hmem.2] at hfits
    obtain ⟨s, hs⟩ := hfits
    rw [lastSection, hlast, Option.bind_some, hs, Section.ofHeader?_header] at hnone
    cases hnone
  · intro hall
    have hnil : lines.filter Line.isHeader = [] := List.filter_eq_nil_iff.mpr fun l hl => by simp [hall l hl]
    simp [lastSection, hnil]

theorem step?_header (h : line.isHeader = true) (current : Option Section) : Section.step? current line =
    match Section.ofHeader? line.text with
    | none => .error (.malformed (.unknownSection line.text) line)
    | some s => .ok (some s) := by
  rw [Section.step?.eq_def]
  exact if_pos h

theorem step?_orphan (h : line.isHeader = false) :
    Section.step? none line = .error (.malformed (.orphan line.text) line) := by
  simp [Section.step?, h]

theorem step?_assignment (h : line.isHeader = false) (s : Section) : Section.step? (some s) line =
    if '=' ∈ line.text then
      if s.allows line.key = true then .ok (some s) else .error (.malformed (.unexpectedKey line.key s.header) line)
    else .error (.malformed (.missingEquals line.text) line) := by
  rw [Section.step?, if_neg (by simp [h])]
  by_cases heq : '=' ∈ line.text
  · simp [heq]
  · simp [heq]

/-- A line that fits leads to the section of the last header. -/
theorem step?_eq_ok_iff : Section.step? (lastSection before) line = .ok next ↔
    Fits before line ∧ next = lastSection (before ++ [line]) := by
  by_cases h : line.isHeader = true
  · rw [step?_header h, Fits, if_pos h, lastSection_header h]
    cases hs : Section.ofHeader? line.text with
    | none =>
      have hnone := Section.ofHeader?_eq_none_iff.mp hs
      simp only [reduceCtorEq, false_iff, not_and]
      rintro ⟨s, hs⟩
      exact absurd hs.symm (hnone s)
    | some s =>
      have htext := Section.header_of_ofHeader? hs
      constructor
      · rintro ⟨⟩
        exact ⟨⟨s, htext.symm⟩, rfl⟩
      · rintro ⟨-, rfl⟩
        rfl
  · have h : line.isHeader = false := by simpa using h
    rw [Fits, if_neg (by simp [h]), lastSection_assignment h]
    cases hs : lastSection before with
    | none => simp [step?_orphan h]
    | some s =>
      rw [step?_assignment h]
      by_cases heq : '=' ∈ line.text
      · by_cases hkey : s.allows line.key = true
        · rw [if_pos heq, if_pos hkey]
          constructor
          · rintro ⟨⟩
            exact ⟨⟨s, rfl, heq, hkey⟩, rfl⟩
          · rintro ⟨-, rfl⟩
            rfl
        · simp [heq, hkey]
      · simp [heq]

/-- What is reported for a line is how it breaks the structure. -/
theorem step?_eq_error_iff (hb : WellPlaced before) : Section.step? (lastSection before) line = .error e ↔
    Breaks before line e := by
  constructor
  · intro h
    by_cases hheader : line.isHeader = true
    · rw [step?_header hheader] at h
      cases hs : Section.ofHeader? line.text with
      | none =>
        simp only [hs, Except.error.injEq] at h
        exact ⟨_, .unknownSection hheader fun s => (Section.ofHeader?_eq_none_iff.mp hs s).symm, h.symm⟩
      | some s => simp [hs] at h
    · have hheader : line.isHeader = false := by simpa using hheader
      cases hs : lastSection before with
      | none =>
        -- The lines before it fit, so without a section there has been no header.
        rw [hs, step?_orphan hheader] at h
        exact ⟨_, .orphan hheader ((lastSection_eq_none_iff hb).mp hs), (Except.error.inj h).symm⟩
      | some s =>
        rw [hs, step?_assignment hheader] at h
        split at h
        · split at h
          · cases h
          · rename_i heq hkey
            exact ⟨_, .unexpectedKey hheader hs heq (by simpa using hkey), (Except.error.inj h).symm⟩
        · rename_i heq
          exact ⟨_, .missingEquals hheader hs heq, (Except.error.inj h).symm⟩
  · rintro ⟨cause, hcause, rfl⟩
    cases hcause with
    | unknownSection h hs =>
      rw [step?_header h, Section.ofHeader?_eq_none_iff.mpr fun s => (hs s).symm]
    | orphan h hs => rw [(lastSection_eq_none_iff hb).mpr hs, step?_orphan h]
    | missingEquals h hs heq => rw [hs, step?_assignment h, if_neg heq]
    | unexpectedKey h hs heq hkey => rw [hs, step?_assignment h, if_pos heq, if_neg (by simp [hkey])]

theorem wellPlaced_concat : WellPlaced (before ++ [line]) ↔ WellPlaced before ∧ Fits before line := by
  simp [WellPlaced, throughout_append, throughout_cons, throughout_nil]

/-- The check after some lines that fit. -/
theorem check_from (hb : WellPlaced before) (lines : List Line) :
    Section.check (lastSection before) lines = .ok () ∧ Throughout Fits before lines ∨
      ∃ e, Section.check (lastSection before) lines = .error e ∧ FirstFails Fits Breaks before lines e := by
  induction lines generalizing before with
  | nil => exact Or.inl ⟨rfl, throughout_nil⟩
  | cons line lines ih =>
    rw [Section.check]
    cases hstep : Section.step? (lastSection before) line with
    | error e =>
      exact Or.inr ⟨e, rfl, firstFails_cons.mpr (Or.inl ((step?_eq_error_iff hb).mp hstep))⟩
    | ok next =>
      obtain ⟨hfits, rfl⟩ := step?_eq_ok_iff.mp hstep
      rcases ih (wellPlaced_concat.mpr ⟨hb, hfits⟩) with ⟨hok, hall⟩ | ⟨e, herror, hfirst⟩
      · exact Or.inl ⟨hok, throughout_cons.mpr ⟨hfits, hall⟩⟩
      · exact Or.inr ⟨e, herror, firstFails_cons.mpr (Or.inr ⟨hfits, hfirst⟩)⟩

theorem Breaks.not_fits (hb : WellPlaced before) (h : Breaks before line e) : ¬ Fits before line := by
  intro hfits
  have herror := (step?_eq_error_iff hb).mpr h
  rw [step?_eq_ok_iff.mpr ⟨hfits, rfl⟩] at herror
  cases herror

theorem Breaks.unique {e' : LoadError} (hb : WellPlaced before) (h : Breaks before line e) (h' : Breaks before line e') :
    e = e' := by
  have herror := (step?_eq_error_iff hb).mpr h
  rw [(step?_eq_error_iff hb).mpr h'] at herror
  exact (Except.error.inj herror).symm

theorem check_eq_ok (h : WellPlaced lines) : Section.check none lines = .ok () := by
  rcases check_from throughout_nil lines with ⟨hok, -⟩ | ⟨e, -, hfirst⟩
  · exact hok
  · refine absurd h (hfirst.not_throughout (fun before line e hb hline => hline.not_fits hb) throughout_nil)

/-- The first line that breaks the structure is the one reported. -/
theorem check_eq_error (h : FirstFails Fits Breaks [] lines e) : Section.check none lines = .error e := by
  rcases check_from throughout_nil lines with ⟨-, hall⟩ | ⟨e', herror, hfirst⟩
  · exact absurd hall (h.not_throughout (fun before line e hb hline => hline.not_fits hb) throughout_nil)
  · rw [hfirst.unique (fun before line e hb hline => hline.not_fits hb)
      (fun before line e e' hb hline hline' => hline.unique hb hline') throughout_nil h] at herror
    exact herror

end Runbook
