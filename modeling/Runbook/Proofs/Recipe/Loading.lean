import Runbook.Proofs.Console
import Runbook.Proofs.Include.Reading
import Runbook.Proofs.World
import Runbook.Recipe.Lookup

/-! # Finding and loading a recipe

Which file a reference means is said once (`Recipe.locate_outcome`); finding it changes nothing as long as nothing about
it is shown (`Recipe.keeps_locate`), and where the files are alike, the same file is found (`Recipe.steady_locate`).
Loading it is reading its lines and making the recipe of them (`Recipe.loadFile_of_readLines`). -/

namespace Runbook

open Effect Include Text

variable {w w' : World} {p q : Path} {lines : List Line} {source : Text} {content : List UInt8}

namespace Action

theorem keeps_orFault {α : Type} (p : Path) (x : Except FileError α) : Keeps (orFault p x) w := by
  cases x with
  | ok a => exact .pure a
  | error e => exact .throw _

theorem keeps_expandHome (p : Path) : Keeps (expandHome p) w := by
  refine Keeps.get.bind fun w' => ?_
  dsimp only
  cases w'.files.homes.expand? p with
  | some p => exact .pure p
  | none => exact .throw _

theorem keeps_inform (hv : w.verbosity < .info) (message : Text) : Keeps (inform message) w :=
  .modify (World.say_info hv message)

end Action

theorem Recipe.keeps_locate (hv : w.verbosity < .info) (reference recipeDir : Text) :
    Keeps (locate reference recipeDir) w := by
  unfold locate
  dsimp only
  split
  · exact .throw_bind _ _
  · refine Keeps.bind (Action.keeps_expandHome _) fun p => Keeps.get.bind fun w' =>
      (Action.keeps_orFault p _).bind fun there => ?_
    split
    · exact .pure p
    · have hrest : ∀ candidate : Path, Keeps
          (if (candidate.isAbsolute || startsWith "./" reference || startsWith "../" reference) = true then
            Pure.pure candidate
          else do
            Action.inform ("prepending directory path: '" ++ recipeDir ++ "'")
            return (Path.ofText recipeDir).join candidate : Action Path) w := by
        intro candidate
        split
        · exact .pure candidate
        · exact (Action.keeps_inform hv _).bind fun _ => .pure _
      split
      · exact (Action.keeps_inform hv _).bind fun _ => hrest _
      · exact hrest _

/-- Finding the file a reference means takes nothing but looking at the files and informing. -/
theorem Recipe.steady_locate {c : Comparison Fault World World} (hfiles : ∀ w w', c.states w w' → w.files.Like w'.files)
    (hinform : ∀ message w, Steady c (Action.inform message) w) (reference recipeDir : Text) (w : World) :
    Steady c (locate reference recipeDir) w := by
  have hplace : ∀ candidate w, Steady c (do
      if candidate.isAbsolute || startsWith "./" reference || startsWith "../" reference then return candidate
      Action.inform ("prepending directory path: '" ++ recipeDir ++ "'")
      return (Path.ofText recipeDir).join candidate : Action Path) w := by
    intro candidate w
    split
    · exact .pure _ w
    · exact (hinform _ w).bind fun _ => .pure _
  unfold locate
  dsimp only
  split
  · exact (Follows.throw _ w).congr rfl fun _ _ => rfl
  · refine (Action.steady_expandHome hfiles _ w).bind fun p w => ?_
    refine Follows.get_bind ?_ fun w' h => by rw [(hfiles w w' h).isFile_eq]
    refine (Action.steady_orFault p _ w).bind fun there w => ?_
    split
    · exact .pure p w
    · split
      · exact (hinform _ w).bind fun _ => hplace _
      · exact hplace _ w

/-- The path of a file that is not there as it was named: with the suffix. -/
def Recipe.candidate (named : Path) : Path :=
  Path.ofText (if endsWith suffix named.toText then named.toText else named.toText ++ suffix)

/-- Where that file is sought: in the recipe directory, unless the reference is absolute or begins at the working
    directory. -/
def Recipe.sought (reference recipeDir : Text) (named : Path) : Path :=
  if (candidate named).isAbsolute || startsWith "./" reference || startsWith "../" reference then candidate named
  else (Path.ofText recipeDir).join (candidate named)

theorem Recipe.locate_outcome (reference recipeDir : Text) (w : World) : outcome (locate reference recipeDir w) =
    if reference.isEmpty then .error (.load .emptyReference)
    else match w.files.homes.expand? (Path.ofText reference) with
      | none => .error (Action.homeFault w.files.homes (Path.ofText reference))
      | some named =>
        match w.files.isFile named with
        | .error cause => .error (.file cause named.toText)
        | .ok true => .ok named
        | .ok false => .ok (sought reference recipeDir named) := by
  have hplace : ∀ (candidate : Path) (v : World), outcome ((do
      if candidate.isAbsolute || startsWith "./" reference || startsWith "../" reference then return candidate
      Action.inform ("prepending directory path: '" ++ recipeDir ++ "'")
      return (Path.ofText recipeDir).join candidate : Action Path) v) =
        .ok (if candidate.isAbsolute || startsWith "./" reference || startsWith "../" reference then candidate
          else (Path.ofText recipeDir).join candidate) := by
    intro candidate v
    split <;> rfl
  unfold locate
  dsimp only
  split
  · rfl
  · have hexpand := Action.expandHome_apply (Path.ofText reference) w
    cases hnamed : w.files.homes.expand? (Path.ofText reference) with
    | none =>
      rw [hnamed] at hexpand
      rw [bind_of_error hexpand]
      rfl
    | some named =>
      rw [hnamed] at hexpand
      rw [bind_of_ok hexpand, get_bind_apply]
      dsimp only
      cases w.files.isFile named with
      | error cause => rfl
      | ok there =>
        cases there with
        | true => rfl
        | false =>
          unfold sought candidate
          cases endsWith suffix named.toText with
          | true => exact hplace _ w
          | false => exact hplace _ _

/-- Which file a reference means does not depend on what is in the files. -/
theorem Recipe.outcome_locate (h : w.files.Like w'.files) (reference recipeDir : Text) :
    outcome (locate reference recipeDir w') = outcome (locate reference recipeDir w) := by
  simp only [locate_outcome, h.homes, h.isFile_eq]

theorem Recipe.readLines_of_expand (h : w.files.homes.expand? p = some q) (source : Text) :
    readLines source p w = Include.read view [] source q w := by
  have hexpand : Action.expandHome p w = .ok q w := by
    rw [Action.expandHome_apply, h]
  rw [readLines, bind_of_ok hexpand]

section
variable (hexpands : w.files.homes.expand? p = some q) (hfile : w.files.isFile q = .ok true)
  (hallowed : w.files.isDenied q = false)
  (hcontent : (Recipe.view.opened (w.files.absolute q).toText w).files.content q = content)
include hexpands hfile hallowed hcontent

/-- A file to which nothing is added meanwhile reads to what its lines read to. -/
theorem Recipe.readLines_of_takeWith (hflaw : (rawLines content).2 = none) {number : Int}
    (htake : takeWith view (depth w.files - 1) [] w.files q ⟨.ofFile source (w.files.absolute q).toText, 1⟩
      (rawLines content).1 (view.opened (w.files.absolute q).toText w) =
        .ok (⟨.ofFile source (w.files.absolute q).toText, number⟩, lines) w')
    (hlast : w'.files.content q = content) : readLines source p w = .ok lines w' := by
  obtain ⟨n, hn⟩ := depth_pos w.files
  have hdepth : depth (view.files w) = n + 1 := hn
  have hlast : ((view.files w').content q).length ≤ content.length := Nat.le_of_eq (congrArg List.length hlast)
  rw [hn, Nat.add_sub_cancel] at htake
  rw [readLines_of_expand hexpands, Include.read, get_bind_apply, hdepth]
  exact expand_of_takeWith _ hfile List.not_mem_nil hallowed hcontent hflaw htake rfl hlast

theorem Recipe.readLines_of_takeWith_error {e : Fault}
    (htake : takeWith view (depth w.files - 1) [] w.files q ⟨.ofFile source (w.files.absolute q).toText, 1⟩
      (rawLines content).1 (view.opened (w.files.absolute q).toText w) = .error e w') :
    readLines source p w = .error e w' := by
  obtain ⟨n, hn⟩ := depth_pos w.files
  have hdepth : depth (view.files w) = n + 1 := hn
  rw [hn, Nat.add_sub_cancel] at htake
  rw [readLines_of_expand hexpands, Include.read, get_bind_apply, hdepth]
  exact expand_of_takeWith_error hfile List.not_mem_nil hallowed hcontent htake

end

theorem Recipe.loadFile_of_readLines_error {e : Fault} (h : readLines p.toText p w = .error e w') :
    loadFile p w = .error e w' := by
  rw [loadFile, bind_of_error h]

theorem Recipe.loadFile_of_readLines (h : readLines p.toText p w = .ok lines w') :
    loadFile p w = match ofFile w'.files.cwd p lines with
      | .ok r => .ok r w'
      | .error e => .error (.load e) w' := by
  rw [loadFile, bind_of_ok h, get_bind_apply]
  cases ofFile w'.files.cwd p lines <;> rfl

/-- A recipe that is loaded is made of the lines of its file. -/
theorem Recipe.loadFile_eq_ok {r : Recipe} (h : loadFile p w = .ok r w') :
    ∃ lines, readLines p.toText p w = .ok lines w' ∧ ofFile w'.files.cwd p lines = .ok r := by
  obtain ⟨lines, w₁, hread, -⟩ := bind_eq_ok h
  rw [loadFile_of_readLines hread] at h
  split at h
  · rename_i hmade
    cases h
    exact ⟨lines, hread, hmade⟩
  · cases h

end Runbook
