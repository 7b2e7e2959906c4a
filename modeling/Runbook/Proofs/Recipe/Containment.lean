import Runbook.CommandLine.Command
import Runbook.Proofs.Include.Failing
import Runbook.Proofs.Recipe.Directory
import Runbook.Proofs.Step.Containment

/-! # What escapes loading

Loading fails with an error in the recipes, which every command reports with status 1, but for what it asks of the system
and does not guard against (`Recipe.Escapes`, `Recipe.EscapesAll`): a home that is not known or may not be asked for; a
path that cannot be looked up, be it that of the reference, of the recipe directory or of what is in it; and what the
reading of the file fails with besides (`Include.Fails`). What escapes is reported by no command. It is taken for granted
that the working directory can be asked for and that the console takes what it is told. Main statement:
`Recipe.load_containment`. -/

namespace Runbook

open Effect Include Text World

variable {w w' w₁ : World} {p q : Path} {source reference recipeDir path : Text} {e : Fault} {cause : FileError}

namespace Recipe

/-! ### What escapes -/

/-- What escapes the loading of the file at a path. -/
inductive FileEscapes (w : World) (p : Path) : Fault → Prop
  /-- The path begins with a home that is not known or may not be asked for. -/
  | home (h : w.files.homes.expand? p = none) : FileEscapes w p (Action.homeFault w.files.homes p)
  /-- The file is read, and what is asked for in it or in the files that it includes cannot be had. -/
  | reading {q : Path} {e : Fault} (hq : w.files.homes.expand? p = some q)
      (h : Fails view Tells w (openings view p.toText q w) (depth w.files) q e) : FileEscapes w p e

/-- What escapes the loading of the recipe a reference means. -/
inductive Escapes (reference recipeDir : Text) (w : World) : Fault → Prop
  /-- The reference begins with a home that is not known or may not be asked for. -/
  | home (hne : reference ≠ []) (h : w.files.homes.expand? (Path.ofText reference) = none) :
    Escapes reference recipeDir w (Action.homeFault w.files.homes (Path.ofText reference))
  /-- The reference cannot be looked up. -/
  | lookup {p : Path} {cause : FileError} (hne : reference ≠ [])
      (hp : w.files.homes.expand? (Path.ofText reference) = some p) (hfile : w.files.isFile p = .error cause) :
      Escapes reference recipeDir w (.file cause p.toText)
  | file {p : Path} {w₁ : World} {e : Fault} (hp : outcome (locate reference recipeDir w) = .ok p) (htells : Tells w w₁)
      (h : FileEscapes w₁ p e) : Escapes reference recipeDir w e

/-- What escapes the loading of the recipes of a directory. -/
inductive EscapesAll (recipeDir : Text) (w : World) : Fault → Prop
  /-- The directory cannot be looked up. -/
  | directory {cause : FileError} (h : w.files.isDirectory (Path.ofText recipeDir) = .error cause) :
    EscapesAll recipeDir w (.file cause (Path.ofText recipeDir).toText)
  /-- What is listed cannot be looked up, or leads to what cannot. -/
  | listed {file : Text} {cause : FileError} (hlisted : file ∈ w.files.list (Path.ofText recipeDir))
      (hsuffix : endsWith suffix file = true)
      (hfile : w.files.isFile ((Path.ofText recipeDir).child file) = .error cause) :
      EscapesAll recipeDir w (.file cause ((Path.ofText recipeDir).child file).toText)
  | file {file : Text} {w₁ : World} {e : Fault} (hfile : IsFileIn w (Path.ofText recipeDir) file) (htells : Tells w w₁)
      (h : FileEscapes w₁ ((Path.ofText recipeDir).child file) e) : EscapesAll recipeDir w e

/-! What escapes is no error in the recipes. -/

theorem homeFault_ne_load (homes : Homes) (p : Path) (cause : LoadError) : Action.homeFault homes p ≠ .load cause := by
  unfold Action.homeFault
  split <;> nofun

theorem FileEscapes.ne_load (h : FileEscapes w p e) (cause : LoadError) : e ≠ .load cause := by
  cases h with
  | home => exact homeFault_ne_load _ _ cause
  | reading _ h =>
    rintro rfl
    cases h

theorem Escapes.ne_load (h : Escapes reference recipeDir w e) (cause : LoadError) : e ≠ .load cause := by
  cases h with
  | home => exact homeFault_ne_load _ _ cause
  | lookup => nofun
  | file _ _ h => exact h.ne_load cause

theorem EscapesAll.ne_load (h : EscapesAll recipeDir w e) (cause : LoadError) : e ≠ .load cause := by
  cases h with
  | directory => nofun
  | listed => nofun
  | file _ _ h => exact h.ne_load cause

theorem readLines_contained (h : outcome (readLines p.toText p w) = .error e) :
    (∃ cause, e = .load cause) ∨ FileEscapes w p e := by
  cases hp : w.files.homes.expand? p with
  | none =>
    have hread : readLines p.toText p w = .error (Action.homeFault w.files.homes p) w := by
      refine bind_of_error ?_
      rw [Action.expandHome_apply, hp]
    rw [hread] at h
    cases h
    exact Or.inr (.home hp)
  | some q =>
    rw [readLines_of_expand hp] at h
    exact (read_fails (fun _ w => tells_say w rfl) (fun _ _ h => h.said.files) h).imp_right (.reading hp)

theorem loadFile_contained (h : outcome (loadFile p w) = .error e) : (∃ cause, e = .load cause) ∨ FileEscapes w p e := by
  rcases bind_eq_error (outcome_eq_error h) with h | ⟨lines, w₁, -, h⟩
  · exact readLines_contained (by rw [h]; rfl)
  · rw [get_bind_apply] at h
    cases hmake : ofFile w₁.files.cwd p lines with
    | ok r =>
      rw [hmake] at h
      cases h
    | error cause =>
      rw [hmake] at h
      cases h
      exact Or.inl ⟨cause, rfl⟩

/-! ### Finding the file -/

theorem locate_contained (h : outcome (locate reference recipeDir w) = .error e) :
    (∃ cause, e = .load cause) ∨ Escapes reference recipeDir w e := by
  rw [locate_outcome] at h
  split at h
  · cases h
    exact Or.inl ⟨_, rfl⟩
  · rename_i hempty
    have hne : reference ≠ [] := by simpa using hempty
    split at h
    · rename_i hnamed
      cases h
      exact Or.inr (.home hne hnamed)
    · rename_i named hnamed
      split at h
      · rename_i cause hfile
        cases h
        exact Or.inr (.lookup hne hnamed hfile)
      · cases h
      · cases h

theorem locate_of_expand_eq_none (hne : reference ≠ []) (h : w.files.homes.expand? (Path.ofText reference) = none)
    (recipeDir : Text) : outcome (locate reference recipeDir w) =
      .error (Action.homeFault w.files.homes (Path.ofText reference)) := by
  rw [locate_outcome, if_neg (by simpa using hne), h]

theorem locate_of_isFile_error (hne : reference ≠ []) (hp : w.files.homes.expand? (Path.ofText reference) = some p)
    (hfile : w.files.isFile p = .error cause) (recipeDir : Text) :
    outcome (locate reference recipeDir w) = .error (.file cause p.toText) := by
  simp only [locate_outcome, hp, hfile]
  rw [if_neg (by simpa using hne)]

/-! ### Loading the recipe -/

/-- Loading is finding the file and reading it, while something is told. -/
theorem load_of_locate (hp : outcome (locate reference recipeDir w) = .ok p) :
    ∃ w₁, Tells w w₁ ∧ load reference recipeDir w = loadFile p w₁ := by
  have hasked : Tells w (w.say (.info ("loading recipe '" ++ reference ++ "'"))) := tells_say w rfl
  obtain ⟨w₁, hfound, htold⟩ := locate_told hasked hp
  refine ⟨w₁.say (.info ("recipe file '" ++ p.toText ++ "'")),
    Frame.trans (Frame.trans hasked htold) (tells_say w₁ rfl), ?_⟩
  rw [load, Action.inform_bind, bind_of_ok hfound, Action.inform_bind]

theorem load_of_locate_error (h : outcome (locate reference recipeDir w) = .error e) :
    outcome (load reference recipeDir w) = .error e := by
  have hasked : Tells w (w.say (.info ("loading recipe '" ++ reference ++ "'"))) := tells_say w rfl
  rw [← outcome_locate hasked.said.files] at h
  rw [load, Action.inform_bind, bind_of_error (outcome_eq_error h)]
  rfl

theorem load_contained (h : outcome (load reference recipeDir w) = .error e) :
    (∃ cause, e = .load cause) ∨ Escapes reference recipeDir w e := by
  cases hlocate : outcome (locate reference recipeDir w) with
  | error e' =>
    rw [load_of_locate_error hlocate] at h
    cases h
    exact locate_contained hlocate
  | ok p =>
    obtain ⟨w₁, htells, hload⟩ := load_of_locate hlocate
    rw [hload] at h
    exact (loadFile_contained h).imp_right fun h => .file hlocate htells h

/-! ### Loading the recipes of a directory -/

theorem loadAll_contained (h : outcome (loadAll recipeDir w) = .error e) :
    (∃ cause, e = .load cause) ∨ EscapesAll recipeDir w e := by
  obtain ⟨w', hload⟩ : ∃ w', loadAll recipeDir w = .error e w' := ⟨_, outcome_eq_error h⟩
  have hlists := loadAll_lists recipeDir w
  rw [hload] at hlists
  cases hlists with
  | unknown hdirectory =>
    exact Or.inr (.directory hdirectory)
  | missing => exact Or.inl ⟨_, rfl⟩
  | unknownFile _ hlisted hsuffix hfile _ =>
    exact Or.inr (.listed hlisted hsuffix hfile)
  | faulty _ hfile htells hload =>
    exact (loadFile_contained (w := _) (by rw [hload]; rfl)).imp_right fun h => .file hfile htells h

/-- Finding a file and reading its lines fails as loading the recipe does. -/
theorem flatten_contained (h : outcome ((do
    let p ← locate reference recipeDir
    readLines p.toText p : Action (List Line)) w) = .error e) :
    (∃ cause, e = .load cause) ∨ Escapes reference recipeDir w e := by
  rcases bind_eq_error (outcome_eq_error h) with hfails | ⟨p, w₁, hfound, hfails⟩
  · exact locate_contained (by rw [hfails]; rfl)
  · have hlocate : outcome (locate reference recipeDir w) = .ok p := by
      rw [hfound]
      rfl
    obtain ⟨w₂, hagain, htells⟩ := locate_told (Frame.refl w) hlocate
    cases hfound.symm.trans hagain
    exact (readLines_contained (by rw [hfails]; rfl)).imp_right fun h => .file hlocate htells h

end Recipe

/-! ### What a command reports -/

namespace CommandLine

variable {i : Invocation} {call : Call} {title : Text}

/-- The loading that a command begins with fails: under which title it would be reported, with which fault and where. -/
inductive LoadFails (i : Invocation) (w : World) : Call → Text → Fault → World → Prop
  | run {reference : Text} {overrides : List Text} {e : Fault} {w' : World}
      (h : Recipe.load reference i.recipes w = .error e w') :
    LoadFails i w (.run reference overrides) "Failed to load recipe" e w'
  | list {e : Fault} {w' : World} (h : Recipe.loadAll i.recipes w = .error e w') :
    LoadFails i w .list "Failed to list recipes" e w'
  | describe {reference : Text} {e : Fault} {w' : World} (h : Recipe.load reference i.recipes w = .error e w') :
    LoadFails i w (.describe reference) "Failed to load recipe" e w'
  | flatten {reference : Text} {e : Fault} {w' : World} (h : (do
        let p ← Recipe.locate reference i.recipes
        Recipe.readLines p.toText p : Action (List Line)) w = .error e w') :
    LoadFails i w (.flatten reference) "Failed to load recipe" e w'

/-- What escapes the loading that a command begins with. -/
def Escapes (i : Invocation) (w : World) : Call → Fault → Prop
  | .list, e => Recipe.EscapesAll i.recipes w e
  | .run reference _, e | .describe reference, e | .flatten reference, e => Recipe.Escapes reference i.recipes w e
  | .exec _ _, _ => False

theorem Escapes.ne_load (h : Escapes i w call e) (cause : LoadError) : e ≠ .load cause := by
  cases call with
  | list => exact Recipe.EscapesAll.ne_load h cause
  | run | describe | flatten => exact Recipe.Escapes.ne_load h cause
  | exec => exact h.elim

theorem LoadFails.contained (h : LoadFails i w call title e w') : (∃ cause, e = .load cause) ∨ Escapes i w call e := by
  cases h with
  | run h => exact Recipe.load_contained (by rw [h]; rfl)
  | list h => exact Recipe.loadAll_contained (by rw [h]; rfl)
  | describe h => exact Recipe.load_contained (by rw [h]; rfl)
  | flatten h => exact Recipe.flatten_contained (by rw [h]; rfl)

theorem orReport_of_load {α : Type} {load : Action α} {cause : LoadError} (h : load w = .error (.load cause) w')
    (title : Text) (use : α → Action Nat) :
    orReport title load use w = .ok 1 (w'.say (.error title cause.message [] [])) := by
  rw [orReport, h]
  rfl

theorem orReport_of_escapes {α : Type} {load : Action α} (h : load w = .error e w') (he : ∀ cause, e ≠ .load cause)
    (title : Text) (use : α → Action Nat) : orReport title load use w = .error e w' := by
  rw [orReport, h]
  cases e with
  | load cause => exact absurd rfl (he cause)
  | _ => rfl

/-- An error in the recipes is reported with status 1. -/
theorem LoadFails.perform {cause : LoadError} (h : LoadFails i w call title (.load cause) w') :
    call.perform i w = .ok 1 (w'.say (.error title cause.message [] [])) := by
  cases h with
  | run h => exact orReport_of_load h _ _
  | list h => exact orReport_of_load h _ _
  | describe h => exact orReport_of_load h _ _
  | flatten h => exact orReport_of_load h _ _

/-- Anything else is not reported. -/
theorem LoadFails.perform_escapes (h : LoadFails i w call title e w') (hescapes : Escapes i w call e) :
    call.perform i w = .error e w' := by
  have he := hescapes.ne_load
  cases h with
  | run h => exact orReport_of_escapes h he _ _
  | list h => exact orReport_of_escapes h he _ _
  | describe h => exact orReport_of_escapes h he _ _
  | flatten h => exact orReport_of_escapes h he _ _

end CommandLine

namespace Recipe

/-- A world with a recipe that lacks its steps, and with a directory of recipes beside it. -/
def stepless : World := Rehearsal.world "/w" [] [("/w/a.ini", Utf8.encode "[description]\nbrief = b\nfull = f\n"),
  ("/w/d/a.ini", Utf8.encode broth)]

end Recipe

end Runbook
