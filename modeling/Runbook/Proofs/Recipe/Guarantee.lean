import Runbook.Proofs.History
import Runbook.Proofs.Recipe.Verbosity
import Runbook.Proofs.Step.Frame
import Runbook.Proofs.Text.Margins
import Runbook.Proofs.Variables.Resolution

/-! # What a recipe guarantees to its runs

The recipe of a file has a description and steps, its variables have names that may stand in references, and every step
has a text that begins and ends with a character that is no blank (`Recipe.WellFormed`). Overrides, the references
between the values and the markers of scripts add no other kind of name, so in no session of a run does replacing the
references take an equals sign away: an export always has a name that ends before one. Main statement:
`Recipe.runs_wellFormed`. -/

namespace Runbook

open Effect

variable {c : Char} {s old new name value : Text} {b b' : Bindings} {r r' : Recipe} {line : Line} {lines : List Line}
  {overrides : List Text} {scriptDir : Text} {start : Option Text} {env : Bindings} {w w₁ : World} {context : Context}

/-! ### Replacing -/

namespace Text

/-- What is put in place of a text takes away no character that the text does not hold. -/
theorem mem_replaceFrom (hne : old ≠ []) (hold : c ∉ old) (new : Text) (skip : Nat) (s : Text) (hc : c ∈ s.drop skip) :
    c ∈ replaceFrom old new skip s := by
  fun_induction replaceFrom old new skip s with
  | case1 => simp at hc
  | case2 skip a s ih => exact ih hc
  | case3 a s hpre ih =>
    -- The occurrence holds other characters only, so this one comes after it.
    obtain ⟨first, old, rfl⟩ := List.exists_cons_of_ne_nil hne
    obtain ⟨rest, hrest⟩ := List.isPrefixOf_iff_prefix.mp hpre
    obtain ⟨rfl, rfl⟩ := List.cons.inj hrest
    refine List.mem_append_right new (ih ?_)
    have hrest : c ∈ (first :: old) ++ rest := hc
    simpa using (List.mem_append.mp hrest).resolve_left hold
  | case4 a s hpre ih =>
    rcases List.mem_cons.mp hc with rfl | hc
    · exact List.mem_cons_self
    · exact List.mem_cons_of_mem _ (ih hc)

theorem mem_replace (hold : c ∉ old) (new : Text) (hc : c ∈ s) : c ∈ replace old new s := by
  unfold replace
  split
  · exact hc
  · rename_i hne
    exact mem_replaceFrom (by simpa using hne) hold new 0 s hc

end Text

/-! ### Names that are valid -/

namespace Bindings

/-- Every name is the name of a variable. -/
def AllValid (b : Bindings) : Prop := ∀ n ∈ b.names, VariableName.isValid n = true

theorem AllValid.set (h : AllValid b) (hname : VariableName.isValid name = true) (value : Text) :
    AllValid (Bindings.set name value b) := by
  intro n hn
  rw [names_set] at hn
  split at hn
  · exact h n hn
  · rcases List.mem_append.mp hn with hn | hn
    · exact h n hn
    · exact List.mem_singleton.mp hn ▸ hname

theorem AllValid.update {l : List (Text × Text)} (h : AllValid b) (hl : AllValid l) : AllValid (b.update l) := by
  induction l generalizing b with
  | nil => exact h
  | cons p l ih =>
    obtain ⟨hp, hl⟩ := List.forall_mem_cons.mp hl
    exact ih (h.set hp p.2) hl

theorem AllValid.congr (h : AllValid b) (hnames : b'.names = b.names) : AllValid b' := by
  unfold AllValid
  rwa [hnames]

end Bindings

open Bindings

theorem Marker.allValid_exports (lines : List Text) : AllValid (Marker.exports lines) := by
  have hmarker : ∀ text p, Marker.assignment? text = some p → VariableName.isValid p.1 = true := by
    intro text p hp
    unfold Marker.assignment? at hp
    grind
  refine AllValid.update (fun n hn => by cases hn) fun n hn => ?_
  obtain ⟨p, hp, rfl⟩ := List.mem_map.mp hn
  obtain ⟨raw, -, hraw⟩ := List.mem_filterMap.mp hp
  exact hmarker _ p hraw

namespace Variables

theorem equals_not_mem_reference (h : VariableName.isValid name = true) : '=' ∉ reference name := by
  have hname : '=' ∉ name := VariableName.not_mem_of_isValid h (by decide)
  simp [reference, hname]

/-- Replacing references to variables takes no equals sign away. -/
theorem equals_mem_substitute (h : AllValid b) (hs : '=' ∈ s) : '=' ∈ substitute s b := by
  induction b generalizing s with
  | nil => exact hs
  | cons p b ih =>
    obtain ⟨hp, hb⟩ := List.forall_mem_cons.mp h
    exact ih hb (Text.mem_replace (equals_not_mem_reference hp) p.2 hs)

end Variables

/-! ### Recipes -/

/-- A step has a text without blanks at its ends, which sets something if the step is an export. -/
structure Step.WellFormed (step : Step) : Prop where
  nonempty : step.data ≠ []
  trimmed : Text.IsTrimmed step.data
  sets : step.directive = .exportVar → '=' ∈ step.data

/-- A recipe is described, its variables have names that may stand in references, and it has well-formed steps. -/
structure Recipe.WellFormed (r : Recipe) : Prop where
  brief : r.brief ≠ []
  full : r.full ≠ []
  nonempty : r.steps ≠ []
  names : AllValid r.defaults
  steps : ∀ step ∈ r.steps, step.WellFormed

/-- What follows the word of a step does not consist of blanks. -/
theorem trim_ne_nil_of_stepParts? {word data : Text} (h : stepParts? value = some (word, some data)) :
    Text.trim data ≠ [] := by
  unfold stepParts? at h
  dsimp only at h
  split at h
  · cases h
  · split at h
    · cases h
    · split at h
      · cases h
      · rename_i hdata
        cases h
        refine Text.trim_ne_nil ?_
        rw [Text.trimLeft_of_head fun hs => Text.head_trimLeft hs]
        simpa using hdata

theorem Step.ofValue_wellFormed {step : Step} (h : Step.ofValue value line = .ok step) : step.WellFormed := by
  unfold Step.ofValue at h
  split at h
  · cases h
  · split at h
    · cases h
    · cases h
    · rename_i d data _ hparts
      dsimp only at h
      split at h
      · cases h
      · rename_i hsets
        cases h
        refine ⟨trim_ne_nil_of_stepParts? hparts, Text.isTrimmed_trim data, fun hd => ?_⟩
        by_contra hnone
        exact hsets (by simpa [hnone] using hd)

namespace Recipe

/-- What the assignments read so far may have made of a recipe: its variables have valid names, and its steps are well
    formed. -/
structure Draft (r : Recipe) : Prop where
  names : AllValid r.defaults
  steps : ∀ step ∈ r.steps, step.WellFormed

theorem draft_blank (name path : Text) : (blank name path).Draft where
  names _ hn := by cases hn
  steps _ hstep := by cases hstep

/-- An assignment adds a variable with a valid name, or a well-formed step, or neither. -/
theorem Draft.does {f : Recipe → Recipe} (hr : r.Draft) (h : line.Does f) : (f r).Draft := by
  cases h with
  | brief | full => exact ⟨hr.names, hr.steps⟩
  | declare hname => exact ⟨hr.names.set hname line.assigned, hr.steps⟩
  | step hstep =>
    refine ⟨hr.names, fun step hmem => ?_⟩
    rcases List.mem_append.mp hmem with hmem | hmem
    · exact hr.steps step hmem
    · exact List.mem_singleton.mp hmem ▸ Step.ofValue_wellFormed hstep

theorem ofLines_wellFormed {path : Text} (h : ofLines name path lines = .ok r) : r.WellFormed := by
  obtain ⟨-, -, hfill, hcomplete⟩ := ofLines_eq_ok h
  obtain ⟨hbrief, hfull, hsteps⟩ := nonempty_of_complete hcomplete
  have hdraft : r.Draft := fill_keeps (fun _ _ _ hdoes hr => hr.does hdoes) (draft_blank name path) hfill
  exact ⟨hbrief, hfull, hsteps, hdraft.names, hdraft.steps⟩

/-! ### Runs -/

/-- The context of a run holds the resolved values. -/
theorem begin_values (h : r.begin overrides scriptDir start env w = .ok context w₁) :
    Variables.resolve r.defaults overrides = .ok context.values := by
  unfold begin at h
  cases hresolve : Variables.resolve r.defaults overrides with
  | error e =>
    rw [hresolve] at h
    cases h
  | ok values =>
    rw [hresolve] at h
    obtain ⟨_, w₂, -, h⟩ := bind_eq_ok h
    obtain ⟨context', w₃, hcreate, h⟩ := bind_eq_ok h
    obtain ⟨_, w₄, -, h⟩ := bind_eq_ok h
    cases h
    obtain ⟨cwd, w₅, -, hcreate⟩ := bind_eq_ok (x := Action.resolve _) hcreate
    obtain ⟨dir, w₆, -, hcreate⟩ := bind_eq_ok hcreate
    cases hcreate
    rfl

theorem begin_allValid (hr : r.WellFormed) (h : r.begin overrides scriptDir start env w = .ok context w₁) :
    AllValid context.values :=
  hr.names.congr (Variables.names_resolve (begin_values h))

end Recipe

theorem Step.run_allValid {s s' : Session} {index : Nat} {step : Step} {result : StepResult}
    (hs : AllValid s.context.values) (h : Step.run index step s = .ok result s') : AllValid s'.context.values := by
  obtain ⟨-, -, -, hmakes⟩ := Step.run_eq_ok h
  rw [hmakes.values]
  split
  · exact hs.update (Marker.allValid_exports _)
  · exact hs

theorem visits_allValid {s : Session} {v : Visit} {index : Nat} {steps : List Step} (hs : AllValid s.context.values)
    (hv : v ∈ visits index steps s) : AllValid v.before.context.values :=
  visits_forall (P := fun s => AllValid s.context.values) Step.run_allValid index steps hs v hv

/-- An export that has an equals sign in its text sets, if anything, the variable named by what stands before the first
    one, to what stands after it. This name is never the whole text. -/
theorem Visit.export_env {v : Visit} (hd : v.step.directive = .exportVar) (hmem : '=' ∈ v.text) :
    ∃ before after, v.text = before ++ '=' :: after ∧ '=' ∉ before ∧ Text.trim before ≠ Text.trim v.text ∧
      ((final v.outcome).context.env = v.before.context.env ∨
        (final v.outcome).context.env = Bindings.set (Text.trim before) after v.before.context.env) := by
  obtain ⟨before, after, htext, hbefore⟩ := List.eq_append_cons_of_mem hmem
  refine ⟨before, after, htext, hbefore, fun heq => ?_, ?_⟩
  · exact hbefore (Text.mem_of_mem_trim (heq ▸ Text.mem_trim hmem (by decide)))
  · cases hrun : v.outcome with
    | error e s' => exact Or.inl (congrArg Context.env (Step.run_spares v.index v.step v.before e s' hrun))
    | ok result s' =>
      obtain ⟨-, -, -, hmakes⟩ := Step.run_eq_ok hrun
      have hassignment : Step.assignment v.text = (Text.trim before, after) := by
        rw [Step.assignment, htext, Text.cut_append hbefore]
        rfl
      refine Or.inr ?_
      rw [final_ok, hmakes.env, if_pos hd]
      show Bindings.set (Step.assignment v.text).1 (Step.assignment v.text).2 _ = _
      rw [hassignment]

namespace Recipe

/-- The sessions a run of a recipe comes to: that in which its steps begin, those before and after each step, and those
    between two of the variables that a script sets. -/
inductive Reaches (r : Recipe) (overrides : List Text) (scriptDir : Text) (start : Option Text) (env : Bindings)
    (w : World) : Session → Prop
  | begun {context : Context} {w₁ : World} (h : r.begin overrides scriptDir start env w = .ok context w₁) :
    Reaches r overrides scriptDir start env w ⟨w₁, context⟩
  | before {context : Context} {w₁ : World} {v : Visit} (h : r.begin overrides scriptDir start env w = .ok context w₁)
      (hv : v ∈ visits 1 r.steps ⟨w₁, context⟩) :
    Reaches r overrides scriptDir start env w v.before
  | after {context : Context} {w₁ : World} {v : Visit} (h : r.begin overrides scriptDir start env w = .ok context w₁)
      (hv : v ∈ visits 1 r.steps ⟨w₁, context⟩) :
    Reaches r overrides scriptDir start env w (final v.outcome)
  | taking {context : Context} {w₁ : World} {v : Visit} {s : Session}
      (h : r.begin overrides scriptDir start env w = .ok context w₁) (hv : v ∈ visits 1 r.steps ⟨w₁, context⟩)
      (hs : s.context = v.before.context) (printed : List Text) (k : Nat) :
    Reaches r overrides scriptDir start env w
      (final (((Marker.exports printed).take k).forM (Step.takeExport v.index) s))

theorem Reaches.allValid {s : Session} (hr : r.WellFormed) (h : r.Reaches overrides scriptDir start env w s) :
    AllValid s.context.values := by
  cases h with
  | begun h => exact begin_allValid hr h
  | before h hv => exact visits_allValid (begin_allValid hr h) hv
  | after h hv =>
    have hbefore := visits_allValid (begin_allValid hr h) hv
    exact Step.context_final (P := fun c => AllValid c.values) hbefore (Step.run_allValid hbefore)
  | @taking _ _ v s h hv hs printed k =>
    have hprinted : AllValid ((Marker.exports printed).take k) := fun n hn =>
      Marker.allValid_exports printed n (by
        rw [Bindings.names, List.map_take] at hn
        exact List.mem_of_mem_take hn)
    obtain ⟨w', htake⟩ := Step.takeExports_apply v.index ((Marker.exports printed).take k) s
    rw [htake, final_ok, hs]
    exact (visits_allValid (begin_allValid hr h) hv).update hprinted

/-- A recipe that lines make is well formed. In every session that a run of it comes to, every name is the name of a
    variable; so the text of every export still has an equals sign when its references have been replaced, and the
    variable it sets is named by what stands before the first one. -/
theorem runs_wellFormed {cwd p : Path} (h : ofFile cwd p lines = .ok r) : r.WellFormed ∧
    ∀ (overrides : List Text) (scriptDir : Text) (start : Option Text) (env : Bindings) (w : World),
      (∀ s, r.Reaches overrides scriptDir start env w s → AllValid s.context.values) ∧
      ∀ context w₁, r.begin overrides scriptDir start env w = .ok context w₁ →
        ∀ v ∈ visits 1 r.steps ⟨w₁, context⟩, v.step.directive = .exportVar →
          ∃ before after, v.text = before ++ '=' :: after ∧ '=' ∉ before ∧ Text.trim before ≠ Text.trim v.text ∧
            ((final v.outcome).context.env = v.before.context.env ∨
              (final v.outcome).context.env = Bindings.set (Text.trim before) after v.before.context.env) := by
  have hr : r.WellFormed := ofLines_wellFormed h
  refine ⟨hr, fun overrides scriptDir start env w => ⟨fun s hs => hs.allValid hr, ?_⟩⟩
  intro context w₁ hbegin v hv hd
  have hmem : v.step ∈ r.steps :=
    (visits_isRun 1 r.steps ⟨w₁, context⟩).order.subset (List.mem_map_of_mem hv)
  have hnames := visits_allValid (begin_allValid hr hbegin) hv
  exact Visit.export_env hd (Variables.equals_mem_substitute hnames ((hr.steps v.step hmem).sets hd))

/-- The lines of a recipe that exports a variable which a script sets before. -/
def borrowing : List Line :=
  ["[description]", "brief = b", "full = f", "[variable]", "v = 1", "[step]", "step = script print",
    "step = export X=$\x7bv\x7d"].map fun text => ⟨"r.ini", "/w/r.ini", 1, text, none⟩

/-- The recipe of these lines. -/
def borrowed : Recipe where
  name := "r"
  path := "/w/r.ini"
  brief := "b"
  full := "f"
  defaults := [("v", "1")]
  steps := [⟨.script, "print", some ⟨"r.ini", "/w/r.ini", 1, "step = script print", none⟩⟩,
    ⟨.exportVar, "X=$\x7bv\x7d", some ⟨"r.ini", "/w/r.ini", 1, "step = export X=$\x7bv\x7d", none⟩⟩]

/-- A world whose child prints a marker for a name that is not declared, and one whose value has an equals sign. -/
def lending : World :=
  { Rehearsal.world "/w" [] [] with children := [⟨none, Utf8.encode "###export u=0\n###export v=a=b\n", 0, [], some 0⟩] }

theorem runs_wellFormed_borrowed : ofFile ⟨.root, ["w"]⟩ ⟨.relative, ["r.ini"]⟩ borrowing = .ok borrowed ∧
    ∃ context w₁ v, borrowed.begin ["--v", "2"] "/w/s" none [] lending = .ok context w₁ ∧
      v ∈ visits 1 borrowed.steps ⟨w₁, context⟩ ∧ v.text = "X=a=b" ∧ AllValid v.before.context.values ∧
      (∃ before after, v.text = before ++ '=' :: after ∧ '=' ∉ before) ∧
      (final v.outcome).context.env = [("X".toList, "a=b".toList)] := by
  have hread : ofFile ⟨.root, ["w"]⟩ ⟨.relative, ["r.ini"]⟩ borrowing = .ok borrowed := by decide +kernel
  have hcheck : passes (fun context w₁ => match (visits 1 borrowed.steps ⟨w₁, context⟩)[1]? with
      | some v => v.step.directive == .exportVar && v.text == "X=a=b".toList &&
        (final v.outcome).context.env == [("X".toList, "a=b".toList)]
      | none => false) (borrowed.begin ["--v", "2"] "/w/s" none [] lending) = true := by decide +kernel
  obtain ⟨context, w₁, hbegin, hcheck⟩ := eq_ok_of_passes hcheck
  split at hcheck
  · rename_i v hv
    simp only [Bool.and_eq_true, beq_iff_eq] at hcheck
    obtain ⟨⟨hd, htext⟩, henv⟩ := hcheck
    obtain ⟨-, hruns⟩ := runs_wellFormed hread
    obtain ⟨hnames, hexports⟩ := hruns ["--v", "2"] "/w/s" none [] lending
    have hv := List.mem_of_getElem? hv
    obtain ⟨before, after, hsplit, hbefore, -, -⟩ := hexports context w₁ hbegin v hv hd
    exact ⟨hread, context, w₁, v, hbegin, hv, htext, hnames _ (.before hbegin hv), ⟨before, after, hsplit, hbefore⟩, henv⟩
  · cases hcheck

end Recipe

end Runbook
