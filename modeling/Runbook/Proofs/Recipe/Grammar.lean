import Runbook.Proofs.Bindings.Update
import Runbook.Proofs.Recipe.Structure
import Runbook.Recipe.Parser

/-! # The grammar of recipes

What the lines of a file make (`Reads`): the error of the first line that breaks the structure, whatever the values are;
else the error of the first assignment that is faulty; else what is missing; else the recipe that the assignments
describe. The two passes over the lines give just that (`ofFile_eq_iff`). -/

namespace Runbook

variable {before after lines : List Line} {line : Line} {e e' : LoadError} {s : Section} {name path key value : Text}
  {r r' : Recipe}

/-- The line an error is about. -/
def LoadError.line? : LoadError → Option Line
  | .malformed _ line | .unknownDirective _ line | .malformedExport line | .openBlock line | .notUtf8 _ line => some line
  | .missingFile _ included | .unreadableFile _ included | .cycle _ included => included
  | .incomplete _ _ | .emptyReference | .missingDirectory _ => none

/-! ### Assignments -/

/-- The value a line assigns. -/
def Line.assigned (line : Line) : Text :=
  match line.assignment with
  | .ok (_, value) => value
  | .error _ => []

theorem unquote_error {text : Text} (h : unquote line text = .error e) :
    ∃ text flaw, e = .malformed (.quotedValue text flaw) line := by
  unfold unquote at h
  split at h
  · cases h
  · exact ⟨_, _, (Except.error.inj h).symm⟩

theorem assignment_error (h : line.assignment = .error e) :
    ∃ text flaw, e = .malformed (.quotedValue text flaw) line := by
  have hmap : ∀ {text : Text} {f : Text → Text × Text}, (unquote line text).map f = .error e →
      ∃ text flaw, e = .malformed (.quotedValue text flaw) line := by
    intro text f h
    cases hu : unquote line text with
    | error e' =>
      rw [hu] at h
      cases h
      exact unquote_error hu
    | ok value =>
      rw [hu] at h
      cases h
  unfold Line.assignment at h
  split at h
  · cases h
  · dsimp only at h
    split at h
    · exact hmap h
    · split at h
      · exact hmap h
      · cases h

theorem assignment_ok (h : line.assignment = .ok (key, value)) : key = line.key ∧ value = line.assigned := by
  refine ⟨?_, by rw [Line.assigned, h]⟩
  have hmap : ∀ {text : Text} {f : Text → Text}, (unquote line text).map (fun v => (line.key, f v)) = .ok (key, value) →
      key = line.key := by
    intro text f h
    cases hu : unquote line text with
    | error e' =>
      rw [hu] at h
      cases h
    | ok v =>
      rw [hu] at h
      cases h
      rfl
  unfold Line.assignment at h
  split at h
  · cases h
    rfl
  · dsimp only at h
    split at h
    · exact hmap h
    · split at h
      · exact hmap h
      · cases h
        rfl

theorem Step.ofValue_error (h : Step.ofValue value line = .error e) : e.line? = some line := by
  unfold Step.ofValue at h
  split at h
  · cases h
    rfl
  · split at h
    · cases h
      rfl
    · cases h
      rfl
    · dsimp only at h
      split at h
      · cases h
        rfl
      · cases h

theorem Step.ofValue_source {step : Step} (h : Step.ofValue value line = .ok step) : step.source = some line := by
  unfold Step.ofValue at h
  split at h
  · cases h
  · split at h
    · cases h
    · cases h
    · dsimp only at h
      split at h
      · cases h
      · cases h
        rfl

/-- The assignments among some lines, each with its section. -/
def assignments (lines : List Line) : List (Option Section × Line) :=
  (lines.mapIdx fun i line => (lastSection (lines.take i), line)).filter fun p => !p.2.isHeader

/-- The assignments in the parts of a section. -/
def inSection (s : Section) (lines : List Line) : List Line :=
  ((assignments lines).filter fun p => p.1 == some s).map Prod.snd

/-- The last value that some lines assign to a key; nothing if there is none. -/
def lastValue (key : Text) (lines : List Line) : Text :=
  ((lines.filter fun line => line.key == key).getLast?.map Line.assigned).getD []

theorem sections_concat (lines : List Line) (line : Line) :
    ((lines ++ [line]).mapIdx fun i l => (lastSection ((lines ++ [line]).take i), l)) =
      (lines.mapIdx fun i l => (lastSection (lines.take i), l)) ++ [(lastSection lines, line)] := by
  rw [List.mapIdx_concat, List.take_left]
  congr 1
  rw [List.mapIdx_eq_mapIdx_iff]
  intro i hi
  rw [List.take_append_of_le_length (Nat.le_of_lt hi)]

theorem assignments_header (h : line.isHeader = true) (lines : List Line) :
    assignments (lines ++ [line]) = assignments lines := by
  rw [assignments, assignments, sections_concat, List.filter_append]
  simp [h]

theorem assignments_concat (h : line.isHeader = false) (lines : List Line) :
    assignments (lines ++ [line]) = assignments lines ++ [(lastSection lines, line)] := by
  rw [assignments, assignments, sections_concat, List.filter_append]
  simp [h]

theorem inSection_header (h : line.isHeader = true) (s : Section) (lines : List Line) :
    inSection s (lines ++ [line]) = inSection s lines := by
  rw [inSection, assignments_header h, inSection]

theorem inSection_concat (h : line.isHeader = false) {t : Section} (ht : lastSection lines = some t) (s : Section) :
    inSection s (lines ++ [line]) = if t = s then inSection s lines ++ [line] else inSection s lines := by
  rw [inSection, assignments_concat h, List.filter_append, List.map_append, ← inSection, ht]
  by_cases hts : t = s
  · simp [hts]
  · simp [hts]

theorem lastValue_concat (lines : List Line) (line : Line) (key : Text) :
    lastValue key (lines ++ [line]) = if line.key = key then line.assigned else lastValue key lines := by
  by_cases h : line.key = key
  · simp [lastValue, List.filter_append, h]
  · simp [lastValue, List.filter_append, h]

/-! ### What the assignments describe -/

/-- The recipe that some lines describe: the last values assigned in the description, the variables in the order of
    their first declarations with their last values, and a step for each assignment of a step. -/
structure Describes (name path : Text) (lines : List Line) (r : Recipe) : Prop where
  name : r.name = name
  path : r.path = path
  brief : r.brief = lastValue "brief" (inSection .description lines)
  full : r.full = lastValue "full" (inSection .description lines)
  defaults : r.defaults = ((inSection .declarations lines).map Line.key).eraseDups.map fun n =>
    (n, lastValue n (inSection .declarations lines))
  steps : List.Forall₂ (fun line step => Step.ofValue line.assigned line = .ok step) (inSection .steps lines) r.steps
  sources : r.steps.map Step.source = (inSection .steps lines).map some

/-- A line is an assignment that makes no sense in its section, and this is the error. -/
inductive Faulty (before : List Line) (line : Line) : LoadError → Prop
  | quotedValue {text : Text} {flaw : Text.Quoted.Flaw} (h : line.isHeader = false)
      (hvalue : line.assignment = .error (.malformed (.quotedValue text flaw) line)) :
    Faulty before line (.malformed (.quotedValue text flaw) line)
  | variableName (h : line.isHeader = false) (hs : lastSection before = some .declarations)
      (hvalue : line.assignment = .ok (line.key, line.assigned)) (hname : VariableName.isValid line.key = false) :
    Faulty before line (.malformed (.variableName line.key) line)
  | step {e : LoadError} (h : line.isHeader = false) (hs : lastSection before = some .steps)
      (hvalue : line.assignment = .ok (line.key, line.assigned)) (hstep : Step.ofValue line.assigned line = .error e) :
    Faulty before line e

theorem Faulty.line?_eq (h : Faulty before line e) : e.line? = some line := by
  cases h with
  | quotedValue => rfl
  | variableName => rfl
  | step _ _ _ hstep => exact Step.ofValue_error hstep

theorem Faulty.isHeader_eq (h : Faulty before line e) : line.isHeader = false := by
  cases h <;> assumption

theorem Faulty.unique (h : Faulty before line e) (h' : Faulty before line e') : e = e' := by
  cases h <;> cases h' <;> simp_all

/-- A line is not faulty. -/
def Sound (before : List Line) (line : Line) : Prop := ∀ e, ¬ Faulty before line e

/-! ### Reading the assignments -/

namespace Describes

variable (hd : Describes name path before r)
include hd

theorem header (h : line.isHeader = true) : Describes name path (before ++ [line]) r where
  name := hd.name
  path := hd.path
  brief := by rw [inSection_header h, hd.brief]
  full := by rw [inSection_header h, hd.full]
  defaults := by rw [inSection_header h, hd.defaults]
  steps := by rw [inSection_header h]; exact hd.steps
  sources := by rw [inSection_header h, hd.sources]

theorem setBrief (h : line.isHeader = false) (hs : lastSection before = some .description)
    (hkey : line.key = "brief".toList) : Describes name path (before ++ [line]) { r with brief := line.assigned } where
  name := hd.name
  path := hd.path
  brief := by rw [inSection_concat h hs, if_pos rfl, lastValue_concat, if_pos hkey]
  full := by rw [inSection_concat h hs, if_pos rfl, lastValue_concat, if_neg (hkey ▸ by decide), ← hd.full]
  defaults := by rw [inSection_concat h hs, if_neg (by decide), ← hd.defaults]
  steps := by rw [inSection_concat h hs, if_neg (by decide)]; exact hd.steps
  sources := by rw [inSection_concat h hs, if_neg (by decide), ← hd.sources]

theorem setFull (h : line.isHeader = false) (hs : lastSection before = some .description)
    (hkey : line.key = "full".toList) : Describes name path (before ++ [line]) { r with full := line.assigned } where
  name := hd.name
  path := hd.path
  brief := by rw [inSection_concat h hs, if_pos rfl, lastValue_concat, if_neg (hkey ▸ by decide), ← hd.brief]
  full := by rw [inSection_concat h hs, if_pos rfl, lastValue_concat, if_pos hkey]
  defaults := by rw [inSection_concat h hs, if_neg (by decide), ← hd.defaults]
  steps := by rw [inSection_concat h hs, if_neg (by decide)]; exact hd.steps
  sources := by rw [inSection_concat h hs, if_neg (by decide), ← hd.sources]

theorem declare (h : line.isHeader = false) (hs : lastSection before = some .declarations) :
    Describes name path (before ++ [line]) { r with defaults := Bindings.set line.key line.assigned r.defaults } where
  name := hd.name
  path := hd.path
  brief := by rw [inSection_concat h hs, if_neg (by decide), ← hd.brief]
  full := by rw [inSection_concat h hs, if_neg (by decide), ← hd.full]
  defaults := by
    simp only [inSection_concat h hs, if_pos, lastValue_concat, List.map_append, List.map_singleton, hd.defaults]
    exact Bindings.set_map_eraseDups _ _ _ _
  steps := by rw [inSection_concat h hs, if_neg (by decide)]; exact hd.steps
  sources := by rw [inSection_concat h hs, if_neg (by decide), ← hd.sources]

theorem addStep (h : line.isHeader = false) (hs : lastSection before = some .steps) {step : Step}
    (hstep : Step.ofValue line.assigned line = .ok step) :
    Describes name path (before ++ [line]) { r with steps := r.steps ++ [step] } where
  name := hd.name
  path := hd.path
  brief := by rw [inSection_concat h hs, if_neg (by decide), ← hd.brief]
  full := by rw [inSection_concat h hs, if_neg (by decide), ← hd.full]
  defaults := by rw [inSection_concat h hs, if_neg (by decide), ← hd.defaults]
  steps := by
    rw [inSection_concat h hs, if_pos rfl]
    exact List.rel_append hd.steps (.cons hstep .nil)
  sources := by
    rw [inSection_concat h hs, if_pos rfl, List.map_append, List.map_append, hd.sources, List.map_singleton,
      List.map_singleton, Step.ofValue_source hstep]

end Describes

theorem sound_header (h : line.isHeader = true) : Sound before line := by
  intro e he
  rw [he.isHeader_eq] at h
  cases h

theorem assign_description (ha : line.assignment = .ok (line.key, line.assigned)) (r : Recipe) :
    r.assign (some .description) line =
      if line.key = "brief".toList then .ok { r with brief := line.assigned } else .ok { r with full := line.assigned } := by
  rw [Recipe.assign, ha]
  rfl

theorem assign_declarations (ha : line.assignment = .ok (line.key, line.assigned)) (r : Recipe) :
    r.assign (some .declarations) line =
      if VariableName.isValid line.key then .ok { r with defaults := Bindings.set line.key line.assigned r.defaults }
      else .error (.malformed (.variableName line.key) line) := by
  rw [Recipe.assign, ha]
  rfl

theorem assign_steps (ha : line.assignment = .ok (line.key, line.assigned)) (r : Recipe) :
    r.assign (some .steps) line =
      (Step.ofValue line.assigned line).map fun step => { r with steps := r.steps ++ [step] } := by
  rw [Recipe.assign, ha]
  show (Step.ofValue line.assigned line >>= fun step => pure { r with steps := r.steps ++ [step] }) = _
  cases Step.ofValue line.assigned line <;> rfl

/-- An assignment that fits adds to what is described, or is faulty. -/
theorem assign_from (hd : Describes name path before r) (hfits : Fits before line) (h : line.isHeader = false) :
    (∃ r', r.assign (lastSection before) line = .ok r' ∧ Sound before line ∧ Describes name path (before ++ [line]) r') ∨
      ∃ e, r.assign (lastSection before) line = .error e ∧ Faulty before line e := by
  rw [Fits, if_neg (by simp [h])] at hfits
  obtain ⟨s, hs, -, hkey⟩ := hfits
  rw [hs]
  cases ha : line.assignment with
  | error e =>
    obtain ⟨text, flaw, rfl⟩ := assignment_error ha
    refine Or.inr ⟨_, ?_, .quotedValue h ha⟩
    rw [Recipe.assign, ha]
    rfl
  | ok p =>
    obtain ⟨key, value⟩ := p
    obtain ⟨rfl, rfl⟩ := assignment_ok ha
    have hsound : (s = .declarations → VariableName.isValid line.key = true) →
        (s = .steps → ∃ step, Step.ofValue line.assigned line = .ok step) → Sound before line := by
      intro hname hstep e he
      cases he with
      | quotedValue _ hvalue => simp [ha] at hvalue
      | variableName _ hs' _ hinvalid =>
        rw [hs] at hs'
        simp [hname (Option.some.inj hs')] at hinvalid
      | step _ hs' _ herror =>
        rw [hs] at hs'
        obtain ⟨step, hok⟩ := hstep (Option.some.inj hs')
        simp [hok] at herror
    cases s with
    | description =>
      have hkey : line.key = "brief".toList ∨ line.key = "full".toList := by
        simpa [Section.allows] using hkey
      have hsound : Sound before line := hsound (fun h => by cases h) (fun h => by cases h)
      rcases hkey with hkey | hkey
      · exact Or.inl ⟨_, (assign_description ha r).trans (if_pos hkey), hsound, hd.setBrief h hs hkey⟩
      · exact Or.inl ⟨_, (assign_description ha r).trans (if_neg (hkey ▸ by decide)), hsound, hd.setFull h hs hkey⟩
    | declarations =>
      cases hname : VariableName.isValid line.key with
      | true =>
        have hsound : Sound before line := hsound (fun _ => hname) (fun h => by cases h)
        exact Or.inl ⟨_, (assign_declarations ha r).trans (if_pos hname), hsound, hd.declare h hs⟩
      | false =>
        exact Or.inr ⟨_, (assign_declarations ha r).trans (if_neg (by simp [hname])), .variableName h hs ha hname⟩
    | steps =>
      cases hstep : Step.ofValue line.assigned line with
      | ok step =>
        have hsound : Sound before line := hsound (fun h => by cases h) (fun _ => ⟨step, hstep⟩)
        exact Or.inl ⟨_, by rw [assign_steps ha, hstep, Except.map], hsound, hd.addStep h hs hstep⟩
      | error e => exact Or.inr ⟨e, by rw [assign_steps ha, hstep, Except.map], .step h hs ha hstep⟩

/-- Reading lines that fit, after some that describe a recipe. -/
theorem fill_from (hd : Describes name path before r) (hfits : Throughout Fits before lines) :
    (∃ r', r.fill (lastSection before) lines = .ok r' ∧ Throughout Sound before lines ∧
        Describes name path (before ++ lines) r') ∨
      ∃ e, r.fill (lastSection before) lines = .error e ∧ FirstFails Sound Faulty before lines e := by
  -- The lines read so far are part of the statement, since a header decides the section of the lines after it.
  induction lines generalizing before r with
  | nil => exact Or.inl ⟨r, rfl, throughout_nil, by rwa [List.append_nil]⟩
  | cons line lines ih =>
    obtain ⟨hline, hrest⟩ := throughout_cons.mp hfits
    rw [Recipe.fill]
    by_cases h : line.isHeader = true
    · rw [if_pos h, ← lastSection_header h before]
      rcases ih (hd.header h) hrest with ⟨r', hok, hsound, hd'⟩ | ⟨e, herror, hfirst⟩
      · refine Or.inl ⟨r', hok, throughout_cons.mpr ⟨sound_header h, hsound⟩, ?_⟩
        rwa [List.append_assoc] at hd'
      · exact Or.inr ⟨e, herror, firstFails_cons.mpr (Or.inr ⟨sound_header h, hfirst⟩)⟩
    · have h : line.isHeader = false := by simpa using h
      rw [if_neg (by simp [h])]
      rcases assign_from hd hline h with ⟨r₁, hassign, hsound₁, hd₁⟩ | ⟨e, hassign, hfaulty⟩
      · rw [hassign, ← lastSection_assignment h before]
        rcases ih hd₁ hrest with ⟨r', hok, hsound, hd'⟩ | ⟨e, herror, hfirst⟩
        · refine Or.inl ⟨r', hok, throughout_cons.mpr ⟨hsound₁, hsound⟩, ?_⟩
          rwa [List.append_assoc] at hd'
        · exact Or.inr ⟨e, herror, firstFails_cons.mpr (Or.inr ⟨hsound₁, hfirst⟩)⟩
      · rw [hassign]
        exact Or.inr ⟨e, rfl, firstFails_cons.mpr (Or.inl hfaulty)⟩

/-! ### What the lines of a file make -/

/-- What some lines make. The first line that breaks the structure goes before everything else, the first faulty
    assignment before what is missing. -/
inductive Reads (name path : Text) (lines : List Line) : Except LoadError Recipe → Prop
  | misplaced {done rest : List Line} {line : Line} {cause : SyntaxError} (hl : lines = done ++ line :: rest)
      (hdone : WellPlaced done) (hline : Misplaced done line cause) :
    Reads name path lines (.error (.malformed cause line))
  | faulty {done rest : List Line} {line : Line} {e : LoadError} (hplaced : WellPlaced lines)
      (hl : lines = done ++ line :: rest) (hdone : Throughout Sound [] done) (hline : Faulty done line e)
      (hcarried : e.line? = some line) :
    Reads name path lines (.error e)
  | noBrief {r : Recipe} (hplaced : WellPlaced lines) (hsound : Throughout Sound [] lines)
      (hd : Describes name path lines r) (hbrief : r.brief = []) :
    Reads name path lines (.error (.incomplete .brief name))
  | noFull {r : Recipe} (hplaced : WellPlaced lines) (hsound : Throughout Sound [] lines)
      (hd : Describes name path lines r) (hbrief : r.brief ≠ []) (hfull : r.full = []) :
    Reads name path lines (.error (.incomplete .full name))
  | noSteps {r : Recipe} (hplaced : WellPlaced lines) (hsound : Throughout Sound [] lines)
      (hd : Describes name path lines r) (hbrief : r.brief ≠ []) (hfull : r.full ≠ []) (hsteps : r.steps = []) :
    Reads name path lines (.error (.incomplete .steps name))
  | recipe {r : Recipe} (hplaced : WellPlaced lines) (hsound : Throughout Sound [] lines)
      (hd : Describes name path lines r) (hbrief : r.brief ≠ []) (hfull : r.full ≠ []) (hsteps : r.steps ≠ []) :
    Reads name path lines (.ok r)

theorem Describes.unique (h : Describes name path lines r) (h' : Describes name path lines r') : r = r' := by
  have hsteps : ∀ {ls : List Line} {ss ss' : List Step},
      List.Forall₂ (fun line step => Step.ofValue line.assigned line = .ok step) ls ss →
      List.Forall₂ (fun line step => Step.ofValue line.assigned line = .ok step) ls ss' → ss = ss' := by
    intro ls ss ss' hss hss'
    induction hss generalizing ss' with
    | nil =>
      cases hss'
      rfl
    | cons hstep _ ih =>
      cases hss' with
      | cons hstep' hrest =>
        rw [hstep, Except.ok.injEq] at hstep'
        rw [hstep', ih hrest]
  obtain ⟨rfl, rfl, hbrief, hfull, hdefaults, hss, -⟩ := h
  obtain ⟨hname', hpath', hbrief', hfull', hdefaults', hss', -⟩ := h'
  obtain ⟨n, p, b, f, d, ss⟩ := r
  obtain ⟨n', p', b', f', d', ss'⟩ := r'
  simp only at *
  subst hname' hpath' hbrief hbrief' hfull hfull' hdefaults hdefaults'
  rw [hsteps hss hss']

theorem describes_nil : Describes name path [] (Recipe.blank name path) where
  name := rfl
  path := rfl
  brief := rfl
  full := rfl
  defaults := rfl
  steps := .nil
  sources := rfl

/-- The recipe of lines that fit and are not faulty. -/
theorem fill_eq_ok (hplaced : WellPlaced lines) (hsound : Throughout Sound [] lines)
    (hd : Describes name path lines r) : (Recipe.blank name path).fill none lines = .ok r := by
  rcases fill_from describes_nil hplaced with ⟨r', hok, -, hd'⟩ | ⟨e, -, hfirst⟩
  · exact (hd.unique hd') ▸ hok
  · exact absurd hsound (hfirst.not_throughout (fun before line e _ hline hsound => hsound e hline) throughout_nil)

theorem fill_eq_error (hplaced : WellPlaced lines) (h : FirstFails Sound Faulty [] lines e) :
    (Recipe.blank name path).fill none lines = .error e := by
  rcases fill_from describes_nil hplaced with ⟨r', -, hsound, -⟩ | ⟨e', herror, hfirst⟩
  · exact absurd hsound (h.not_throughout (fun before line e _ hline hsound => hsound e hline) throughout_nil)
  · rw [hfirst.unique (fun before line e _ hline hsound => hsound e hline)
      (fun before line e e' _ hline hline' => hline.unique hline') throughout_nil h] at herror
    exact herror

theorem ofLines_of_check (h : Section.check none lines = .ok ()) : Recipe.ofLines name path lines =
    (do let r ← (Recipe.blank name path).fill none lines
        r.complete) := by
  rw [Recipe.ofLines, h]
  rfl

theorem ofLines_of_fill (h : Section.check none lines = .ok ())
    (hfill : (Recipe.blank name path).fill none lines = .ok r) : Recipe.ofLines name path lines = r.complete := by
  rw [ofLines_of_check h, hfill]
  rfl

/-- What is missing of a recipe is looked for in the order of its parts. -/
theorem reads_complete (hplaced : WellPlaced lines) (hsound : Throughout Sound [] lines)
    (hd : Describes name path lines r) : Reads name path lines r.complete := by
  unfold Recipe.complete
  rw [hd.name]
  split
  · rename_i hbrief
    exact .noBrief hplaced hsound hd (by simpa using hbrief)
  · rename_i hbrief
    split
    · rename_i hfull
      exact .noFull hplaced hsound hd (by simpa using hbrief) (by simpa using hfull)
    · rename_i hfull
      split
      · rename_i hsteps
        exact .noSteps hplaced hsound hd (by simpa using hbrief) (by simpa using hfull) (by simpa using hsteps)
      · rename_i hsteps
        exact .recipe hplaced hsound hd (by simpa using hbrief) (by simpa using hfull) (by simpa using hsteps)

theorem reads_ofLines (name path : Text) (lines : List Line) :
    Reads name path lines (Recipe.ofLines name path lines) := by
  rcases check_from throughout_nil lines with
    ⟨hok, hplaced⟩ | ⟨e, herror, done, line, rest, hl, hdone, cause, hcause, rfl⟩
  · rcases fill_from describes_nil hplaced with ⟨r, hfill, hsound, hd⟩ | ⟨e, hfill, done, line, rest, hl, hdone, hline⟩
    · rw [ofLines_of_fill hok hfill]
      exact reads_complete hplaced hsound hd
    · rw [lastSection_nil] at hok hfill
      rw [ofLines_of_check hok, hfill]
      exact .faulty hplaced hl hdone hline hline.line?_eq
  · have hlines : Recipe.ofLines name path lines = .error (.malformed cause line) := by
      rw [lastSection_nil] at herror
      rw [Recipe.ofLines, herror]
      rfl
    rw [hlines]
    exact .misplaced hl hdone hcause

theorem ofLines_eq_iff {x : Except LoadError Recipe} :
    Recipe.ofLines name path lines = x ↔ Reads name path lines x := by
  constructor
  · rintro rfl
    exact reads_ofLines name path lines
  · intro h
    cases h with
    | misplaced hl hdone hline =>
      rw [Recipe.ofLines, check_eq_error ⟨_, _, _, hl, hdone, _, hline, rfl⟩]
      rfl
    | faulty hplaced hl hdone hline _ =>
      rw [ofLines_of_check (check_eq_ok hplaced), fill_eq_error hplaced ⟨_, _, _, hl, hdone, hline⟩]
      rfl
    | noBrief hplaced hsound hd hbrief =>
      rw [ofLines_of_fill (check_eq_ok hplaced) (fill_eq_ok hplaced hsound hd), Recipe.complete, hbrief, hd.name]
      rfl
    | noFull hplaced hsound hd hbrief hfull =>
      rw [ofLines_of_fill (check_eq_ok hplaced) (fill_eq_ok hplaced hsound hd), Recipe.complete,
        if_neg (by simpa using hbrief), hfull, hd.name]
      rfl
    | noSteps hplaced hsound hd hbrief hfull hsteps =>
      rw [ofLines_of_fill (check_eq_ok hplaced) (fill_eq_ok hplaced hsound hd), Recipe.complete,
        if_neg (by simpa using hbrief), if_neg (by simpa using hfull), hsteps, hd.name]
      rfl
    | recipe hplaced hsound hd hbrief hfull hsteps =>
      rw [ofLines_of_fill (check_eq_ok hplaced) (fill_eq_ok hplaced hsound hd), Recipe.complete,
        if_neg (by simpa using hbrief), if_neg (by simpa using hfull), if_neg (by simpa using hsteps)]

/-- A recipe that lines make is what they describe, and nothing is missing in what they fill it with. -/
theorem ofLines_eq_ok (h : Recipe.ofLines name path lines = .ok r) : WellPlaced lines ∧ Describes name path lines r ∧
    (Recipe.blank name path).fill none lines = .ok r ∧ r.complete = .ok r := by
  rcases ofLines_eq_iff.mp h with _ | _ | _ | _ | _ | ⟨hplaced, hsound, hd, -, -, -⟩
  have hfill := fill_eq_ok hplaced hsound hd
  exact ⟨hplaced, hd, hfill, by rw [← ofLines_of_fill (check_eq_ok hplaced) hfill, h]⟩

/-- The lines of a file make what they read to under its stem and its absolute path. -/
theorem ofFile_eq_iff (cwd p : Path) (lines : List Line) (x : Except LoadError Recipe) :
    Recipe.ofFile cwd p lines = x ↔ Reads p.stem (p.absolute cwd).toText lines x :=
  ofLines_eq_iff

end Runbook
