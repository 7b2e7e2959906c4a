import Runbook.Recipe.Parser
import Runbook.Proofs.Include.Rereading

/-! # What a recipe depends on

The recipe of some lines depends on the gists of the lines and not on where they stand: lines with the same gists make
recipes that say the same, or fail for causes that are alike (`ofLines_agree`). Lines are compared by what they say, which
is all there is to them but where they stand (`Likeness.content`), or by their gists alone (`Likeness.ofGist`). -/

namespace Runbook

/-- What a recipe takes from a logical line: its value, its text if it has no value, its key, and whether it assigns. -/
structure Line.Gist where
  value : Option Text
  text : Option Text
  key : Text
  assigns : Bool
deriving DecidableEq

/-- The gist of a logical line. -/
def Line.gist (line : Line) : Line.Gist :=
  ⟨line.value, if line.value.isNone then some line.text else none, line.key, line.text.contains '='⟩

/-- The same cause, at lines that say the same or at none. -/
inductive LoadError.Alike : LoadError → LoadError → Prop
  | malformed {cause : SyntaxError} {line line' : Line} (h : line.content = line'.content) :
    Alike (.malformed cause line) (.malformed cause line')
  | unknownDirective {word : Text} {line line' : Line} (h : line.content = line'.content) :
    Alike (.unknownDirective word line) (.unknownDirective word line')
  | malformedExport {line line' : Line} (h : line.content = line'.content) :
    Alike (.malformedExport line) (.malformedExport line')
  | incomplete {part : RecipePart} {name name' : Text} : Alike (.incomplete part name) (.incomplete part name')

/-- The same flaw of a line, up to the text of the line. -/
inductive SyntaxError.Akin : SyntaxError → SyntaxError → Prop
  | same {cause : SyntaxError} : Akin cause cause
  | orphan {text text' : Text} : Akin (.orphan text) (.orphan text')
  | missingEquals {text text' : Text} : Akin (.missingEquals text) (.missingEquals text')

/-- The same cause, at whatever lines. -/
inductive LoadError.Akin : LoadError → LoadError → Prop
  | malformed {cause cause' : SyntaxError} {line line' : Line} (h : cause.Akin cause') :
    Akin (.malformed cause line) (.malformed cause' line')
  | unknownDirective {word : Text} {line line' : Line} : Akin (.unknownDirective word line) (.unknownDirective word line')
  | malformedExport {line line' : Line} : Akin (.malformedExport line) (.malformedExport line')
  | openBlock {line line' : Line} : Akin (.openBlock line) (.openBlock line')
  | notUtf8 {flaw flaw' : Utf8.Flaw} {line line' : Line} : Akin (.notUtf8 flaw line) (.notUtf8 flaw' line')
  | incomplete {part : RecipePart} {name name' : Text} : Akin (.incomplete part name) (.incomplete part name')
  | missingFile {path : Text} {includedAt includedAt' : Option Line} :
    Akin (.missingFile path includedAt) (.missingFile path includedAt')
  | unreadableFile {path : Text} {includedAt includedAt' : Option Line} :
    Akin (.unreadableFile path includedAt) (.unreadableFile path includedAt')
  | cycle {chain : List Text} {includedAt includedAt' : Option Line} :
    Akin (.cycle chain includedAt) (.cycle chain includedAt')
  | same {e : LoadError} : Akin e e

/-- Results that agree, or failures that do. -/
inductive Agree {ε α β : Type} (E : ε → ε → Prop) (R : α → β → Prop) : Except ε α → Except ε β → Prop
  | ok {a : α} {b : β} (h : R a b) : Agree E R (.ok a) (.ok b)
  | error {e e' : ε} (h : E e e') : Agree E R (.error e) (.error e')

variable {α β γ δ κ : Type} {E : LoadError → LoadError → Prop} {R : α → β → Prop} {S : γ → δ → Prop} {f : Line → κ}
  {line line' : Line} {lines lines' : List Line} {name name' path path' : Text} {current : Option Section}
  {r r' : Recipe}

/-- How lines are compared, and errors about them: lines of which the function gives the same have the same gist, and
    errors are related if their causes are the same, at such lines. -/
structure Likeness (f : Line → κ) (E : LoadError → LoadError → Prop) : Prop where
  gist {line line' : Line} (h : f line = f line') : line.gist = line'.gist
  malformed {cause : SyntaxError} {line line' : Line} (h : f line = f line') :
    E (.malformed cause line) (.malformed cause line')
  orphan {line line' : Line} (h : f line = f line') :
    E (.malformed (.orphan line.text) line) (.malformed (.orphan line'.text) line')
  missingEquals {line line' : Line} (h : f line = f line') :
    E (.malformed (.missingEquals line.text) line) (.malformed (.missingEquals line'.text) line')
  unknownDirective {word : Text} {line line' : Line} (h : f line = f line') :
    E (.unknownDirective word line) (.unknownDirective word line')
  malformedExport {line line' : Line} (h : f line = f line') : E (.malformedExport line) (.malformedExport line')
  incomplete {part : RecipePart} {name name' : Text} : E (.incomplete part name) (.incomplete part name')

theorem Line.text_eq_of_content (h : line.content = line'.content) : line.text = line'.text := congrArg Prod.fst h

theorem Line.gist_eq_of_content (h : line.content = line'.content) : line.gist = line'.gist := by
  obtain ⟨source, path, number, text, value⟩ := line
  obtain ⟨source', path', number', text', value'⟩ := line'
  cases h
  rfl

/-- Lines are compared by what they say. -/
theorem Likeness.content : Likeness Line.content LoadError.Alike where
  gist := Line.gist_eq_of_content
  malformed := .malformed
  orphan h := by
    rw [Line.text_eq_of_content h]
    exact .malformed h
  missingEquals h := by
    rw [Line.text_eq_of_content h]
    exact .malformed h
  unknownDirective := .unknownDirective
  malformedExport := .malformedExport
  incomplete := .incomplete

/-- Lines are compared by their gists. -/
theorem Likeness.ofGist : Likeness Line.gist LoadError.Akin where
  gist h := h
  malformed _ := .malformed .same
  orphan _ := .malformed .orphan
  missingEquals _ := .malformed .missingEquals
  unknownDirective _ := .unknownDirective
  malformedExport _ := .malformedExport
  incomplete := .incomplete

namespace Agree

variable {x : Except LoadError α} {y : Except LoadError β}

theorem bind {f : α → Except LoadError γ} {g : β → Except LoadError δ} (h : Agree E R x y)
    (hf : ∀ a b, R a b → Agree E S (f a) (g b)) : Agree E S (x >>= f) (y >>= g) := by
  cases h with
  | ok h => exact hf _ _ h
  | error h => exact .error h

theorem map {f : α → γ} {g : β → δ} (h : Agree E R x y) (hf : ∀ a b, R a b → S (f a) (g b)) :
    Agree E S (x.map f) (y.map g) := by
  cases h with
  | ok h => exact .ok (hf _ _ h)
  | error h => exact .error h

end Agree

/-- Steps that do the same. -/
def Step.action (s : Step) : Directive × Text := (s.directive, s.data)

/-- Recipes that say the same. -/
structure Recipe.SaysSame (r r' : Recipe) : Prop where
  brief : r.brief = r'.brief
  full : r.full = r'.full
  defaults : r.defaults = r'.defaults
  steps : r.steps.map Step.action = r'.steps.map Step.action

namespace Line

theorem value_eq (h : line.gist = line'.gist) : line.value = line'.value := congrArg Gist.value h

theorem key_eq (h : line.gist = line'.gist) : line.key = line'.key := congrArg Gist.key h

theorem contains_eq (h : line.gist = line'.gist) : line.text.contains '=' = line'.text.contains '=' :=
  congrArg Gist.assigns h

/-- Of a line without a value the gist has the text. -/
theorem text_eq (h : line.gist = line'.gist) (hvalue : line.value = none) : line.text = line'.text := by
  have htext := congrArg Gist.text h
  have hvalue' : line'.value = none := value_eq h ▸ hvalue
  simpa [gist, hvalue, hvalue'] using htext

theorem isHeader_eq (h : line.gist = line'.gist) : line.isHeader = line'.isHeader := by
  rw [isHeader, isHeader, ← value_eq h]
  cases hvalue : line.value with
  | none => rw [text_eq h hvalue]
  | some value => rfl

theorem value_of_isHeader (h : line.isHeader = true) : line.value = none := by
  rw [isHeader, Bool.and_eq_true] at h
  exact Option.isNone_iff_eq_none.mp h.1

end Line

section
variable (hf : Likeness f E)
include hf

theorem unquote_agree (h : f line = f line') (text : Text) : Agree E Eq (unquote line text) (unquote line' text) := by
  unfold unquote
  cases Text.Quoted.decodeBody (text.drop 1) with
  | ok value => exact .ok rfl
  | error flaw => exact .error (hf.malformed h)

theorem Line.assignment_agree (h : f line = f line') : Agree E Eq line.assignment line'.assignment := by
  have hgist := hf.gist h
  unfold assignment
  rw [← value_eq hgist, ← key_eq hgist]
  cases hvalue : line.value with
  | some value => exact .ok rfl
  | none =>
    dsimp only
    rw [← text_eq hgist hvalue]
    split
    · exact (unquote_agree hf h _).map fun _ _ heq => heq ▸ rfl
    · split
      · exact (unquote_agree hf h _).map fun _ _ heq => heq ▸ rfl
      · exact .ok rfl

theorem Step.ofValue_agree (h : f line = f line') (value : Text) :
    Agree E (fun s s' => s.action = s'.action) (ofValue value line) (ofValue value line') := by
  unfold ofValue
  split
  · exact .error (hf.malformed h)
  · split
    · exact .error (hf.unknownDirective h)
    · exact .error (hf.malformed h)
    · dsimp only
      split
      · exact .error (hf.malformedExport h)
      · exact .ok rfl

namespace Section

theorem step?_agree (h : f line = f line') (current : Option Section) :
    Agree E Eq (step? current line) (step? current line') := by
  have hgist := hf.gist h
  unfold step?
  rw [← Line.isHeader_eq hgist, ← Line.key_eq hgist, ← Line.contains_eq hgist]
  split
  · rw [← Line.text_eq hgist (Line.value_of_isHeader ‹_›)]
    split
    · exact .error (hf.malformed h)
    · exact .ok rfl
  · split
    · exact .error (hf.orphan h)
    · split
      · exact .error (hf.missingEquals h)
      · split
        · exact .ok rfl
        · exact .error (hf.malformed h)

theorem check_agree (h : lines.map f = lines'.map f) (current : Option Section) :
    Agree E Eq (check current lines) (check current lines') := by
  induction lines generalizing lines' current with
  | nil =>
    obtain rfl : lines' = [] := by simpa using h.symm
    exact .ok rfl
  | cons line lines ih =>
    obtain ⟨line', lines', rfl, hline, hlines⟩ := List.map_eq_cons_iff.mp h.symm
    have hstep := step?_agree hf hline.symm current
    rw [check, check]
    generalize step? current line = x at hstep
    generalize step? current line' = y at hstep
    cases hstep with
    | ok heq => exact heq ▸ ih hlines.symm _
    | error herror => exact .error herror

end Section

namespace Recipe

theorem assign_agree (hr : r.SaysSame r') (h : f line = f line') (current : Option Section) :
    Agree E SaysSame (r.assign current line) (r'.assign current line') := by
  unfold assign
  refine (Line.assignment_agree hf h).bind ?_
  rintro ⟨key, value⟩ _ rfl
  dsimp only
  split
  · split
    · exact .ok ⟨rfl, hr.full, hr.defaults, hr.steps⟩
    · exact .ok ⟨hr.brief, rfl, hr.defaults, hr.steps⟩
  · split
    · exact .ok ⟨hr.brief, hr.full, congrArg (Bindings.set key value) hr.defaults, hr.steps⟩
    · exact .error (hf.malformed h)
  · refine (Step.ofValue_agree hf h value).bind fun s s' hs => .ok ⟨hr.brief, hr.full, hr.defaults, ?_⟩
    rw [List.map_append, List.map_append, hr.steps, List.map_singleton, List.map_singleton, hs]

theorem fill_agree (hr : r.SaysSame r') (h : lines.map f = lines'.map f) (current : Option Section) :
    Agree E SaysSame (r.fill current lines) (r'.fill current lines') := by
  induction lines generalizing lines' current r r' with
  | nil =>
    obtain rfl : lines' = [] := by simpa using h.symm
    exact .ok hr
  | cons line lines ih =>
    obtain ⟨line', lines', rfl, hline, hlines⟩ := List.map_eq_cons_iff.mp h.symm
    have hgist := hf.gist hline.symm
    rw [fill, fill, ← Line.isHeader_eq hgist]
    split
    · rw [← Line.text_eq hgist (Line.value_of_isHeader ‹_›)]
      exact ih hr hlines.symm _
    · have hassign := assign_agree hf hr hline.symm current
      generalize r.assign current line = x at hassign
      generalize r'.assign current line' = y at hassign
      cases hassign with
      | ok hr => exact ih hr hlines.symm _
      | error herror => exact .error herror

theorem complete_agree (hr : r.SaysSame r') : Agree E SaysSame r.complete r'.complete := by
  have hsteps : r.steps.isEmpty = r'.steps.isEmpty := by
    simpa using congrArg List.isEmpty hr.steps
  unfold complete
  rw [hr.brief, hr.full, hsteps]
  split
  · exact .error hf.incomplete
  · split
    · exact .error hf.incomplete
    · split
      · exact .error hf.incomplete
      · exact .ok hr

/-- Lines that are alike make recipes that say the same, or fail alike. -/
theorem ofLines_agree (h : lines.map f = lines'.map f) :
    Agree E SaysSame (ofLines name path lines) (ofLines name' path' lines') := by
  unfold ofLines
  refine (Section.check_agree hf h none).bind fun _ _ _ => ?_
  have hblank : (blank name path).SaysSame (blank name' path') := ⟨rfl, rfl, rfl, rfl⟩
  exact (fill_agree hf hblank h none).bind fun r r' => complete_agree hf

end Recipe

end

end Runbook
