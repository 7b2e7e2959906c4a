import Runbook.Proofs.Block.Layout
import Runbook.Proofs.Recipe.Grammar

/-! # Exchanging an assignment

When an assignment in the lines of a recipe is exchanged for a block with the same key, the recipe changes in what this
assignment gives and in nothing else (`ofLines_exchange`). What the assignment gives is edited right after it; each
later line does the same to the edited recipe (`assign_edit`), so all of them do (`fill_edit`). -/

namespace Runbook

open Block

variable {before before' after lines lines' : List Line} {line other : Line} {name path value : Text} {r r' : Recipe}
  {slot : Slot} {n : Nat} {d : Directive}

/-! ### Sections -/

theorem lastSection_append_congr (h : lastSection before = lastSection before') (lines : List Line) :
    lastSection (before ++ lines) = lastSection (before' ++ lines) := by
  induction lines using List.reverseRecOn with
  | nil => simpa using h
  | append_singleton lines line ih =>
    rw [← List.append_assoc, ← List.append_assoc]
    cases hline : line.isHeader with
    | true => rw [lastSection_header hline, lastSection_header hline]
    | false => rw [lastSection_assignment hline, lastSection_assignment hline, ih]

theorem Fits.congr (h : lastSection before = lastSection before') (hfits : Fits before line) : Fits before' line := by
  unfold Fits at hfits ⊢
  rwa [← h]

/-- A file keeps its structure when an assignment is exchanged for another one with the same key. -/
theorem WellPlaced.exchange (h : WellPlaced (before ++ other :: after)) (hother : other.isHeader = false)
    (hline : line.isHeader = false) (hequals : '=' ∈ line.text) (hkey : other.key = line.key) :
    WellPlaced (before ++ line :: after) := by
  obtain ⟨hbefore, hrest⟩ := throughout_append.mp h
  obtain ⟨hfits, hafter⟩ := throughout_cons.mp hrest
  have hsame : lastSection (before ++ [other]) = lastSection (before ++ [line]) := by
    rw [lastSection_assignment hother, lastSection_assignment hline]
  refine throughout_append.mpr ⟨hbefore, throughout_cons.mpr ⟨?_, fun done l rest heq => ?_⟩⟩
  · rw [Fits, if_neg (by simp [hother])] at hfits
    rw [Fits, if_neg (by simp [hline])]
    obtain ⟨s, hs, -, hallows⟩ := hfits
    exact ⟨s, hs, hequals, hkey ▸ hallows⟩
  · exact (hafter done l rest heq).congr (lastSection_append_congr hsame done)

theorem WellPlaced.insert (h : WellPlaced (before ++ after)) (hline : line.isHeader = false) (hfits : Fits before line) :
    WellPlaced (before ++ line :: after) := by
  obtain ⟨hbefore, hafter⟩ := throughout_append.mp h
  refine throughout_append.mpr ⟨hbefore, throughout_cons.mpr ⟨hfits, fun done l rest heq => ?_⟩⟩
  exact (hafter done l rest heq).congr (lastSection_append_congr (lastSection_assignment hline before).symm done)

/-! ### Filling in parts -/

theorem exists_of_bind_eq_ok {α β : Type} {x : Except LoadError α} {f : α → Except LoadError β} {b : β}
    (h : x >>= f = .ok b) : ∃ a, x = .ok a ∧ f a = .ok b := by
  cases x with
  | error e => cases h
  | ok a => exact ⟨a, rfl, h⟩

theorem fill_assignment (h : line.isHeader = false) (r : Recipe) (current : Option Section) (lines : List Line) :
    r.fill current (line :: lines) = r.assign current line >>= fun r => r.fill current lines := by
  rw [Recipe.fill, if_neg (by simp [h])]
  cases r.assign current line <;> rfl

theorem fill_append (r : Recipe) (before lines lines' : List Line) : r.fill (lastSection before) (lines ++ lines') =
    r.fill (lastSection before) lines >>= fun r => r.fill (lastSection (before ++ lines)) lines' := by
  induction lines generalizing r before with
  | nil => simp [Recipe.fill, bind, Except.bind]
  | cons line lines ih =>
    have hmore : before ++ line :: lines = before ++ [line] ++ lines := by simp
    rw [List.cons_append, hmore]
    cases hline : line.isHeader with
    | true =>
      rw [Recipe.fill, if_pos hline, Recipe.fill, if_pos hline, ← lastSection_header hline before]
      exact ih r (before ++ [line])
    | false =>
      rw [fill_assignment hline, fill_assignment hline, ← lastSection_assignment hline before, bind_assoc]
      exact congrArg _ (funext fun r => ih r (before ++ [line]))

/-! ### Edits -/

namespace Block.Slot

/-- The recipe with another value in a slot, which for a step is the one at a place. -/
def edit (slot : Slot) (value : Text) (origin : Line) (n : Nat) (r : Recipe) : Recipe :=
  match slot with
  | .full => { r with full := value }
  | .declaration name => { r with defaults := Bindings.set name value r.defaults }
  | .step d => { r with steps := r.steps.set n ⟨d, value, some origin⟩ }

/-- There is something in the slot. -/
def Filled (slot : Slot) (n : Nat) (r : Recipe) : Prop :=
  match slot with
  | .full => True
  | .declaration name => name ∈ r.defaults.names
  | .step _ => n < r.steps.length

/-- No line assigns anew what is in the slot. Another step takes nothing from a step. -/
def Kept (slot : Slot) (before lines : List Line) : Prop :=
  Throughout (fun before line => slot.word = none → line.isHeader = false → lastSection before = some slot.home →
    line.key ≠ slot.key) before lines

end Block.Slot

theorem assign_edit_description (ha : line.assignment = .ok (line.key, line.assigned)) (hfilled : slot.Filled n r)
    (hallows : Section.description.allows line.key = true) (hkept : slot = .full → line.key ≠ "full".toList)
    (hassign : r.assign (some .description) line = .ok r') :
    (slot.edit value other n r).assign (some .description) line = .ok (slot.edit value other n r') ∧
      slot.Filled n r' := by
  rw [assign_description ha] at hassign ⊢
  cases slot with
  | full =>
    have hkey : line.key = "brief".toList ∨ line.key = "full".toList := by simpa [Section.allows] using hallows
    -- The line is kept from the full description, so it gives the brief one.
    have hbrief := hkey.resolve_right (hkept rfl)
    rw [if_pos hbrief] at hassign ⊢
    cases hassign
    exact ⟨rfl, hfilled⟩
  | declaration name | step d =>
    split at hassign <;> cases hassign
    · exact ⟨if_pos ‹_›, hfilled⟩
    · exact ⟨if_neg ‹_›, hfilled⟩

theorem assign_edit_declarations (ha : line.assignment = .ok (line.key, line.assigned)) (hfilled : slot.Filled n r)
    (hkept : ∀ name, slot = .declaration name → line.key ≠ name)
    (hassign : r.assign (some .declarations) line = .ok r') :
    (slot.edit value other n r).assign (some .declarations) line = .ok (slot.edit value other n r') ∧
      slot.Filled n r' := by
  rw [assign_declarations ha] at hassign ⊢
  split at hassign
  · rename_i hname
    rw [if_pos hname]
    cases hassign
    cases slot with
    | full | step d => exact ⟨rfl, hfilled⟩
    | declaration name =>
      -- The edited name is among the defaults already, so the order of the two does not matter.
      have hcomm : Bindings.set line.key line.assigned (Bindings.set name value r.defaults) =
          Bindings.set name value (Bindings.set line.key line.assigned r.defaults) :=
        Bindings.set_comm (hkept name rfl) hfilled
      refine ⟨congrArg (fun b => Except.ok { r with defaults := b }) hcomm, ?_⟩
      show name ∈ (Bindings.set line.key line.assigned r.defaults).names
      rw [Bindings.names_set]
      split
      · exact hfilled
      · exact List.mem_append_left _ hfilled
  · cases hassign

theorem assign_edit_steps (ha : line.assignment = .ok (line.key, line.assigned)) (hfilled : slot.Filled n r)
    (hassign : r.assign (some .steps) line = .ok r') :
    (slot.edit value other n r).assign (some .steps) line = .ok (slot.edit value other n r') ∧ slot.Filled n r' := by
  rw [assign_steps ha] at hassign ⊢
  cases hstep : Step.ofValue line.assigned line with
  | error e =>
    rw [hstep] at hassign
    cases hassign
  | ok step =>
    rw [hstep] at hassign
    cases hassign
    cases slot with
    | full | declaration name => exact ⟨rfl, hfilled⟩
    | step d =>
      -- The new step comes after the edited one.
      have hset := List.set_append_left (s := r.steps) (t := [step]) n ⟨d, value, some other⟩ hfilled
      have hedit : (Except.ok { r with steps := r.steps.set n ⟨d, value, some other⟩ ++ [step] } :
          Except LoadError Recipe) = .ok { r with steps := (r.steps ++ [step]).set n ⟨d, value, some other⟩ } := by
        rw [hset]
      refine ⟨hedit, ?_⟩
      show n < (r.steps ++ [step]).length
      exact Nat.lt_of_lt_of_le hfilled (by simp)

theorem assignment_of_assign {current : Option Section} (h : r.assign current line = .ok r') :
    line.assignment = .ok (line.key, line.assigned) := by
  cases ha : line.assignment with
  | error e =>
    rw [Recipe.assign, ha] at h
    cases h
  | ok p =>
    obtain ⟨key, v⟩ := p
    obtain ⟨rfl, rfl⟩ := assignment_ok ha
    rfl

/-- What an assignment can do to a recipe. -/
inductive Line.Does (line : Line) : (Recipe → Recipe) → Prop
  | brief : line.Does fun r => { r with brief := line.assigned }
  | full : line.Does fun r => { r with full := line.assigned }
  | declare : VariableName.isValid line.key = true →
      line.Does fun r => { r with defaults := Bindings.set line.key line.assigned r.defaults }
  | step {step : Step} : Step.ofValue line.assigned line = .ok step →
      line.Does fun r => { r with steps := r.steps ++ [step] }

/-- An assignment that does something does it to every recipe. -/
theorem exists_does {current : Option Section} (h : r.assign current line = .ok r') :
    ∃ f, line.Does f ∧ r' = f r ∧ ∀ r : Recipe, r.assign current line = .ok (f r) := by
  have ha := assignment_of_assign h
  have hsteps (h : r.assign (some .steps) line = .ok r') :
      ∃ f, line.Does f ∧ r' = f r ∧ ∀ r : Recipe, r.assign (some .steps) line = .ok (f r) := by
    rw [assign_steps ha] at h
    cases hstep : Step.ofValue line.assigned line with
    | error e =>
      rw [hstep] at h
      cases h
    | ok step =>
      rw [hstep] at h
      cases h
      exact ⟨_, .step hstep, rfl, fun r => by rw [assign_steps ha, hstep]; rfl⟩
  cases current with
  | none => exact hsteps h
  | some s =>
    cases s with
    | description =>
      rw [assign_description ha] at h
      split at h <;> cases h
      · exact ⟨_, .brief, rfl, fun r => by rw [assign_description ha, if_pos ‹_›]⟩
      · exact ⟨_, .full, rfl, fun r => by rw [assign_description ha, if_neg ‹_›]⟩
    | declarations =>
      rw [assign_declarations ha] at h
      split at h <;> cases h
      exact ⟨_, .declare ‹_›, rfl, fun r => by rw [assign_declarations ha, if_pos ‹_›]⟩
    | steps => exact hsteps h

/-- What no assignment changes about two recipes is not changed by filling them with the same lines. -/
theorem fill_related {R : Recipe → Recipe → Prop} {current : Option Section}
    (hdoes : ∀ line f r r', Line.Does line f → R r r' → R (f r) (f r')) (hr : R r r')
    (h : r.fill current lines = .ok r₁) : ∃ r₁', r'.fill current lines = .ok r₁' ∧ R r₁ r₁' := by
  induction lines generalizing r r' current with
  | nil =>
    cases h
    exact ⟨r', rfl, hr⟩
  | cons line lines ih =>
    cases hline : line.isHeader with
    | true =>
      rw [Recipe.fill, if_pos hline] at h ⊢
      exact ih hr h
    | false =>
      rw [fill_assignment hline] at h ⊢
      obtain ⟨r₂, hassign, hrest⟩ := exists_of_bind_eq_ok h
      obtain ⟨f, hf, rfl, hall⟩ := exists_does hassign
      rw [hall r']
      exact ih (hdoes line f r r' hf hr) hrest

/-- What every assignment keeps is kept when a recipe is filled. -/
theorem fill_keeps {P : Recipe → Prop} {current : Option Section} (hdoes : ∀ line f r, Line.Does line f → P r → P (f r))
    (hr : P r) (h : r.fill current lines = .ok r') : P r' := by
  obtain ⟨-, -, hkept⟩ : ∃ r₁ : Recipe, r.fill current lines = .ok r₁ ∧ P r' :=
    fill_related (R := fun r _ => P r) (fun line f r _ => hdoes line f r) hr h
  exact hkept

/-- A later line does the same to the edited recipe, and leaves something in the slot. -/
theorem assign_edit (hfits : Fits before line) (h : line.isHeader = false)
    (hkept : slot.word = none → line.isHeader = false → lastSection before = some slot.home → line.key ≠ slot.key)
    (hfilled : slot.Filled n r) (hassign : r.assign (lastSection before) line = .ok r') :
    (slot.edit value other n r).assign (lastSection before) line = .ok (slot.edit value other n r') ∧
      slot.Filled n r' := by
  rw [Fits, if_neg (by simp [h])] at hfits
  obtain ⟨s, hs, -, hallows⟩ := hfits
  rw [hs] at hassign hkept ⊢
  have ha := assignment_of_assign hassign
  cases s with
  | description =>
    refine assign_edit_description ha hfilled hallows (fun hslot => ?_) hassign
    subst hslot
    exact hkept rfl h rfl
  | declarations =>
    refine assign_edit_declarations ha hfilled (fun name hslot => ?_) hassign
    subst hslot
    exact hkept rfl h rfl
  | steps => exact assign_edit_steps ha hfilled hassign

theorem fill_edit (value : Text) (other : Line) (hfits : Throughout Fits before lines) (hkept : slot.Kept before lines)
    (hfilled : slot.Filled n r) (h : r.fill (lastSection before) lines = .ok r') :
    (slot.edit value other n r).fill (lastSection before) lines = .ok (slot.edit value other n r') ∧
      slot.Filled n r' := by
  induction lines generalizing before r with
  | nil =>
    cases h
    exact ⟨rfl, hfilled⟩
  | cons line lines ih =>
    obtain ⟨hline, hrest⟩ := throughout_cons.mp hfits
    obtain ⟨hlinekept, hrestkept⟩ := throughout_cons.mp hkept
    cases hheader : line.isHeader with
    | true =>
      rw [Recipe.fill, if_pos hheader, ← lastSection_header hheader before] at h ⊢
      exact ih hrest hrestkept hfilled h
    | false =>
      rw [fill_assignment hheader] at h ⊢
      obtain ⟨r₁, hassign, h⟩ := exists_of_bind_eq_ok h
      obtain ⟨hedit, hfilled₁⟩ := assign_edit hline hheader hlinekept hfilled hassign
      rw [← lastSection_assignment hheader before] at h
      rw [hedit, ← lastSection_assignment hheader before]
      exact ih hrest hrestkept hfilled₁ h

/-! ### The line of a block -/

/-- A line gives a slot a value as a block does. -/
structure Block.Slot.GivenBy (slot : Slot) (body : Text) (line : Line) : Prop where
  key : line.key = slot.key
  equals : '=' ∈ line.text
  value : line.value = some (Block.value slot.word body)
  trimmed : Text.trim body = body

section
variable (h : slot.GivenBy value line)
include h

theorem Block.Slot.GivenBy.isHeader : line.isHeader = false := by
  rw [Line.isHeader, h.value]
  rfl

theorem Block.Slot.GivenBy.assigned : line.assigned = Block.value slot.word value := by
  rw [Line.assigned, Line.assignment, h.value]

theorem Block.Slot.GivenBy.assignment : line.assignment = .ok (line.key, line.assigned) := by
  rw [h.assigned, Line.assignment, h.value]

end

theorem stepParts?_keyword (hd : d = .script ∨ d = .info) : stepParts? d.keyword = some (d.keyword, none) := by
  rcases hd with rfl | rfl <;> rfl

theorem stepParts?_value (d : Directive) (htrim : Text.trim value = value) (hne : value ≠ []) :
    stepParts? (d.keyword ++ ' ' :: value) = some (d.keyword, some value) := by
  have hword : (d.keyword ++ ' ' :: value).takeWhile (fun c => !Text.isBlank c) = d.keyword := by
    cases d <;> rfl
  have hleft : Text.trimLeft (' ' :: value) = value := by
    show Text.trimLeft value = value
    rw [← htrim, Text.trimLeft_trim]
  have hkeyword : d.keyword ≠ [] := by cases d <;> exact List.cons_ne_nil _ _
  rw [stepParts?, hword, List.drop_left, hleft]
  simp [hkeyword, hne]

/-- A keyword with a text after it gives a step with this text. -/
theorem ofValue_value (hd : d ≠ .exportVar) (htrim : Text.trim value = value) (hne : value ≠ []) (line : Line) :
    Step.ofValue (d.keyword ++ ' ' :: value) line = .ok ⟨d, value, some line⟩ := by
  simp [Step.ofValue, stepParts?_value d htrim hne, Directive.ofKeyword?_keyword, htrim, hd]

theorem ofValue_block (hd : d = .script ∨ d = .info) (htrim : Text.trim value = value) (hne : value ≠ [])
    (line : Line) : Step.ofValue (Block.value (some d) value) line = .ok ⟨d, value, some line⟩ := by
  have hvalue : Block.value (some d) value = d.keyword ++ ' ' :: value := by
    rw [Block.value, if_neg (by simpa using hne), List.append_assoc]
    rfl
  have hexport : d ≠ .exportVar := by rcases hd with rfl | rfl <;> decide
  rw [hvalue, ofValue_value hexport htrim hne]

theorem ofValue_block_nil (hd : d = .script ∨ d = .info) (line : Line) :
    Step.ofValue (Block.value (some d) []) line = .error (.malformed (.missingData d.keyword) line) := by
  have hvalue : Block.value (some d) [] = d.keyword := rfl
  simp [Step.ofValue, hvalue, stepParts?_keyword hd, Directive.ofKeyword?_keyword]

/-- A block does what another line does that assigns to the same key, but with its own value. -/
theorem assign_exchange (hslot : slot.Valid) (hline : slot.GivenBy value line) (hvalue : slot.word = none ∨ value ≠ [])
    (hother : other.key = slot.key) (hassign : r.assign (some slot.home) other = .ok r') :
    r.assign (some slot.home) line = .ok (slot.edit value line r.steps.length r') ∧
      slot.Filled r.steps.length r' := by
  have ha := assignment_of_assign hassign
  cases slot with
  | full =>
    have hbrief : "full".toList ≠ "brief".toList := by decide
    rw [Slot.home, assign_description ha, if_neg (hother ▸ hbrief)] at hassign
    cases hassign
    rw [Slot.home, assign_description hline.assignment, if_neg (hline.key ▸ hbrief), hline.assigned]
    exact ⟨rfl, trivial⟩
  | declaration name =>
    have hname : VariableName.isValid (Slot.declaration name).key = true := hslot.1
    rw [Slot.home, assign_declarations ha, hother, if_pos hname] at hassign
    cases hassign
    rw [Slot.home, assign_declarations hline.assignment, hline.key, if_pos hname, hline.assigned]
    refine ⟨?_, ?_⟩
    · simp only [Slot.edit, Slot.key, Bindings.set_set]
      rfl
    · show name ∈ (Bindings.set name other.assigned r.defaults).names
      rw [Bindings.names_set]
      split
      · assumption
      · exact List.mem_append_right _ (List.mem_singleton_self name)
  | step d =>
    rw [Slot.home, assign_steps ha] at hassign
    cases hstep : Step.ofValue other.assigned other with
    | error e =>
      rw [hstep] at hassign
      cases hassign
    | ok step =>
      rw [hstep] at hassign
      cases hassign
      have hblock : Step.ofValue (Block.value (Slot.step d).word value) line = .ok ⟨d, value, some line⟩ :=
        ofValue_block hslot hline.trimmed (hvalue.resolve_left (Option.some_ne_none d)) line
      rw [Slot.home, assign_steps hline.assignment, hline.assigned, hblock]
      refine ⟨?_, ?_⟩
      · simp [Slot.edit, Except.map]
      · show r.steps.length < (r.steps ++ [step]).length
        simp

/-! ### Recipes -/

theorem ofLines_append (hplaced : WellPlaced (before ++ line :: after)) (hline : line.isHeader = false)
    (hbefore : (Recipe.blank name path).fill none before = .ok r) :
    Recipe.ofLines name path (before ++ line :: after) = (do
      let r ← r.assign (lastSection before) line
      let r ← r.fill (lastSection before) after
      r.complete) := by
  have happend := fill_append (Recipe.blank name path) [] before (line :: after)
  rw [lastSection_nil, hbefore, List.nil_append] at happend
  rw [ofLines_of_check (check_eq_ok hplaced), happend]
  show (r.fill (lastSection before) (line :: after) >>= fun r => r.complete) = _
  rw [fill_assignment hline, bind_assoc]

/-- How a recipe came about in whose lines an assignment stands. -/
theorem exists_fill (hother : other.isHeader = false)
    (h : Recipe.ofLines name path (before ++ other :: after) = .ok r) :
    WellPlaced (before ++ other :: after) ∧ r.complete = .ok r ∧ r.name = name ∧ ∃ r₁ r₂,
      (Recipe.blank name path).fill none before = .ok r₁ ∧ r₁.steps.length = (inSection .steps before).length ∧
      r₁.assign (lastSection before) other = .ok r₂ ∧ r₂.fill (lastSection before) after = .ok r := by
  obtain ⟨hplaced, hd, hfill, hcomplete⟩ := ofLines_eq_ok h
  refine ⟨hplaced, hcomplete, hd.name, ?_⟩
  rw [← lastSection_nil, fill_append, List.nil_append] at hfill
  obtain ⟨r₁, hbefore, hrest⟩ := exists_of_bind_eq_ok hfill
  rw [fill_assignment hother] at hrest
  obtain ⟨r₂, hassign, hafter⟩ := exists_of_bind_eq_ok hrest
  refine ⟨r₁, r₂, hbefore, ?_, hassign, hafter⟩
  rcases fill_from describes_nil (throughout_append.mp hplaced).1 with ⟨r', hok, -, hd'⟩ | ⟨e, herror, -⟩
  · rw [hbefore] at hok
    cases hok
    exact hd'.steps.length_eq.symm
  · rw [hbefore] at herror
    cases herror

theorem nonempty_of_complete (h : r.complete = .ok r') : r.brief ≠ [] ∧ r.full ≠ [] ∧ r.steps ≠ [] := by
  unfold Recipe.complete at h
  split at h
  · cases h
  · split at h
    · cases h
    · split at h
      · cases h
      · simp_all

/-- Nothing is missing in an edited recipe but a full description, if it is empty. -/
theorem complete_edit (h : r.complete = .ok r) : (slot.edit value line n r).complete =
    if slot = .full ∧ value = [] then .error (.incomplete .full r.name) else .ok (slot.edit value line n r) := by
  obtain ⟨hbrief, hfull, hsteps⟩ := nonempty_of_complete h
  cases slot with
  | full => by_cases hvalue : value = [] <;> simp [Recipe.complete, Slot.edit, hbrief, hsteps, hvalue]
  | declaration name => simp [Recipe.complete, Slot.edit, hbrief, hfull, hsteps]
  | step d => simp [Recipe.complete, Slot.edit, hbrief, hfull, hsteps]

section
variable (hslot : slot.Valid) (hline : slot.GivenBy value line) (hother : other.isHeader = false)
  (hkey : other.key = slot.key) (hhome : lastSection before = some slot.home)
  (h : Recipe.ofLines name path (before ++ other :: after) = .ok r)
include hslot hline hother hkey hhome h

/-- A block in the place of another assignment to the same key makes the recipe with its own value. -/
theorem ofLines_exchange (hkept : slot.Kept (before ++ [other]) after) (hvalue : slot.word = none ∨ value ≠ []) :
    Recipe.ofLines name path (before ++ line :: after) =
        (slot.edit value line (inSection .steps before).length r).complete ∧
      slot.Filled (inSection .steps before).length r := by
  obtain ⟨hplaced, -, -, r₁, r₂, hbefore, hlength, hassign, hafter⟩ := exists_fill hother h
  have hnew := hplaced.exchange hother hline.isHeader hline.equals (hkey.trans hline.key.symm)
  have hfits : Throughout Fits (before ++ [other]) after := (throughout_cons.mp (throughout_append.mp hplaced).2).2
  rw [hhome] at hassign hafter
  obtain ⟨hassigned, hfilled⟩ := assign_exchange hslot hline hvalue hkey hassign
  rw [hlength] at hassigned hfilled
  have hsame : lastSection (before ++ [other]) = some slot.home := (lastSection_assignment hother before).trans hhome
  obtain ⟨hedited, hfilled⟩ := fill_edit value line hfits hkept hfilled (hsame ▸ hafter)
  rw [hsame] at hedited
  refine ⟨?_, hfilled⟩
  rw [ofLines_append hnew hline.isHeader hbefore, hhome, hassigned]
  show (Recipe.fill _ _ _ >>= _) = _
  rw [hedited]
  rfl

/-- A step needs something to do. -/
theorem ofLines_exchange_nil (hword : slot.word = some d) (hvalue : value = []) :
    Recipe.ofLines name path (before ++ line :: after) = .error (.malformed (.missingData d.keyword) line) := by
  obtain ⟨hplaced, -, -, r₁, r₂, hbefore, -, -, -⟩ := exists_fill hother h
  have hnew := hplaced.exchange hother hline.isHeader hline.equals (hkey.trans hline.key.symm)
  cases slot with
  | full | declaration name => cases hword
  | step d =>
    cases hword
    have hblock : Step.ofValue (Block.value (Slot.step d).word value) line =
        .error (.malformed (.missingData d.keyword) line) := hvalue ▸ ofValue_block_nil hslot line
    rw [ofLines_append hnew hline.isHeader hbefore, hhome, Slot.home, assign_steps hline.assignment, hline.assigned,
      hblock]
    rfl

end

end Runbook
