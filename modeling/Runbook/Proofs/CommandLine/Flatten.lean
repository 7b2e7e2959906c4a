import Runbook.Proofs.Console
import Runbook.Proofs.Include.Printing
import Runbook.Proofs.Recipe.Content
import Runbook.Proofs.Recipe.Loading
import Runbook.Proofs.Tree.Names

/-! # Flattening keeps what a recipe says

Flattening prints lines that, written to a file, read to the same texts and values as the recipe with its includes, and
so make the same recipe or fail for the same cause (`flatten_keeps`). -/

namespace Runbook

open Effect Text

variable {w w' : World} {reference recipeDir source : Text} {p q : Path} {lines : List Line} {content : List UInt8}

/-- A path leads to a file that may be read and holds the content. -/
structure Files.Holds (files : Files) (p : Path) (content : List UInt8) : Prop where
  isFile : files.isFile p = .ok true
  allowed : files.isDenied p = false
  content : files.content p = content

/-! ### Reading what was printed -/

namespace Include

variable {σ : Type} {view : View σ} {s s' : σ}

/-- A file to which printed lines were written reads to the same texts and values. -/
theorem read_printed (h : ∀ line ∈ lines, Printable line) (hopened : ∀ path, view.opened path s = s)
    (hfile : (view.files s).Holds p (Utf8.encode (written (CommandLine.flatLines none lines)))) (source : Text) :
    ∃ lines', read view [] source p s = .ok lines' s ∧ lines'.map Line.content = lines.map Line.content := by
  obtain ⟨raws, hwritten, hfeed, hread⟩ := readLines_flatLines h none
  obtain ⟨n, hn⟩ := depth_pos (view.files s)
  obtain ⟨lines', hlines', hcontent⟩ := hread σ (view.files s).homes ((view.files s).absolute p).directory.toText
    (fun line target =>
      expand view n ([] ++ [((view.files s).absolute p).toText]) (some line) target (Path.ofText target))
    source ((view.files s).absolute p).toText 1 s
  have hraws : rawLines ((view.files s).content p) = (raws.map dropLineEnd, none) := by
    rw [hfile.content, ← hwritten, rawLines_written hfeed]
  refine ⟨lines', ?_, hcontent⟩
  rw [read, get_bind_apply, hn]
  refine expand_of_takeWith ⟨.ofFile source ((view.files s).absolute p).toText, 1 + raws.length⟩ hfile.isFile
    List.not_mem_nil hfile.allowed (by rw [hopened]) (by rw [hraws]) ?_ rfl (Nat.le_refl _)
  rw [hraws, hopened]
  exact hlines'

end Include

/-! ### Flattening -/

/-- Loaded recipes that say the same, or the same failure to load. -/
inductive Recipe.LoadsSame : EStateM.Result Fault World Recipe → EStateM.Result Fault World Recipe → Prop
  | recipe {r r' : Recipe} {w w' : World} (h : r.SaysSame r') : LoadsSame (.ok r w) (.ok r' w')
  | failure {e e' : LoadError} {w w' : World} (h : e.Alike e') :
    LoadsSame (.error (.load e) w) (.error (.load e') w')

/-- Two files whose lines say the same make recipes that say the same. -/
theorem Recipe.loadsSame_of_readLines {lines' : List Line} (h : readLines p.toText p w = .ok lines w)
    (h' : readLines q.toText q w' = .ok lines' w') (hcontent : lines'.map Line.content = lines.map Line.content) :
    LoadsSame (loadFile p w) (loadFile q w') := by
  rw [loadFile_of_readLines h, loadFile_of_readLines h', ofFile, ofFile]
  have hagree : Agree LoadError.Alike SaysSame (ofLines p.stem (p.absolute w.files.cwd).toText lines)
    (ofLines q.stem (q.absolute w'.files.cwd).toText lines') := ofLines_agree .content hcontent.symm
  generalize ofLines p.stem _ lines = x at hagree
  generalize ofLines q.stem _ lines' = y at hagree
  cases hagree with
  | ok hr => exact .recipe hr
  | error he => exact .failure he

namespace CommandLine

variable {i : Invocation}

theorem flattenRecipe_eq_ok_zero (h : flattenRecipe i reference w = .ok 0 w') :
    ∃ p lines w₁ w₂, Recipe.locate reference i.recipes w = .ok p w₁ ∧
      Recipe.readLines p.toText p w₁ = .ok lines w₂ ∧
      w'.log = w₂.log ++ (flatLines none lines).map .out := by
  unfold flattenRecipe orReport at h
  split at h
  · rename_i lines w₂ hread
    obtain ⟨p, w₁, hlocate, hread⟩ := bind_eq_ok hread
    obtain ⟨w₃, hprint, hlog⟩ := Action.forM_echo (flatLines none lines) w₂
    dsimp only at h
    rw [bind_of_ok hprint] at h
    cases h
    exact ⟨p, lines, w₁, w₂, hlocate, hread, hlog⟩
  · cases h
  · cases h

/-- Flattening keeps what a recipe says: the printed lines, each with a line feed after it, in any file, read to the
    same texts and values as the recipe with its includes, so that it makes the same recipe or fails for the same
    cause. -/
theorem flatten_keeps (hv : w.verbosity = .normal) (ht : w.files.tree.Lacks '\n')
    (h : flattenRecipe i reference w = .ok 0 w') :
    ∃ p lines printed, Recipe.locate reference i.recipes w = .ok p w ∧
      Recipe.readLines p.toText p w = .ok lines w ∧ w'.log = w.log ++ printed.map .out ∧
      ∀ (v : World) (r q : Path), v.verbosity < .debug → v.files.homes.expand? r = some q →
        v.files.Holds q (Utf8.encode (written printed)) →
        (∀ source, ∃ lines', Recipe.readLines source r v = .ok lines' v ∧
          lines'.map Line.content = lines.map Line.content) ∧
        Recipe.LoadsSame (Recipe.loadFile p w) (Recipe.loadFile r v) := by
  obtain ⟨p, lines, w₁, w₂, hlocate, hread, hlog⟩ := flattenRecipe_eq_ok_zero h
  have hinfo : w.verbosity < .info := hv ▸ (by decide)
  have hdebug : w.verbosity < .debug := hv ▸ (by decide)
  obtain rfl := Recipe.keeps_locate hinfo reference i.recipes p w₁ hlocate
  obtain ⟨p', w₃, hexpand, hexpanded⟩ := bind_eq_ok hread
  obtain rfl := Action.keeps_expandHome p p' w₃ hexpand
  have hopened : ∀ path, Recipe.view.opened path w₃ = w₃ := fun path => World.say_debug hdebug _
  have hprintable : w₂ = w₃ ∧ ∀ line ∈ lines, Include.Printable line := by
    rw [Include.read, get_bind_apply] at hexpanded
    refine Include.expand_printable hopened (fun p hfile => ?_) lines w₂ hexpanded
    exact Files.not_mem_absolute ht (by decide) (by decide) hfile
  obtain ⟨rfl, hprintable⟩ := hprintable
  refine ⟨p, lines, flatLines none lines, hlocate, hread, hlog, fun v r q hquiet hq hholds => ?_⟩
  have hagain : ∀ source, ∃ lines', Recipe.readLines source r v = .ok lines' v ∧
      lines'.map Line.content = lines.map Line.content := by
    intro source
    rw [Recipe.readLines_of_expand hq]
    exact Include.read_printed hprintable (fun path => World.say_debug hquiet _) hholds source
  obtain ⟨lines', hlines', hcontent⟩ := hagain r.toText
  exact ⟨hagain, Recipe.loadsSame_of_readLines hread hlines' hcontent⟩

/-- A world with a file that includes another one, in which a block holds what looks like a comment and an include. -/
def nested : World where
  files := {
    tree := ⟨[
      (["steps"], .file (Utf8.encode "[step]\nstep = script \"\"\"\n # a\n  include b\r\n\"\"\"  \n") 420),
      (["all"], .file (Utf8.encode "[description]\nbrief = x\nfull = y\ninclude steps\nstep = cd /") 420)]⟩
    denied := []
    cwd := ⟨.root, []⟩
    homes := ⟨[], []⟩ }
  env := []
  host := ⟨0, 0, 0, 0, [], [], [], none, [], [], [], []⟩
  children := []
  clock := 0
  tried := 0
  starts := []
  verbosity := .normal
  log := []
  tee := none

/-- What flattening prints there. -/
def flattened : List Text :=
  ["# /all", "[description]", "brief = x", "full = y", "# /steps", "[step]",
    "step = script \"\"\"\n # a\n  include b\n\"\"\"  ", "# /all", "step = cd /"]

/-- The world in which that has been written to a new file. -/
def rewritten : World :=
  nested.withTree (nested.files.tree.set ["flat"] (.file (Utf8.encode (written flattened)) 420))

theorem flatten_keeps_nested :
    ∃ w' p lines lines', flattenRecipe ⟨[], [], [], none⟩ "all" nested = .ok 0 w' ∧ w'.log = flattened.map .out ∧
      Recipe.locate "all" [] nested = .ok p nested ∧ Recipe.readLines p.toText p nested = .ok lines nested ∧
      Recipe.readLines "flat" ⟨.relative, ["flat"]⟩ rewritten = .ok lines' rewritten ∧
      lines'.map Line.content = lines.map Line.content ∧
      Recipe.LoadsSame (Recipe.loadFile p nested) (Recipe.loadFile ⟨.relative, ["flat"]⟩ rewritten) := by
  have hcheck : (match flattenRecipe ⟨[], [], [], none⟩ "all" nested with
      | .ok 0 w' => decide (w'.log = flattened.map .out)
      | _ => false) = true := by decide +kernel
  obtain ⟨w', hrun, hlog⟩ : ∃ w', flattenRecipe ⟨[], [], [], none⟩ "all" nested = .ok 0 w' ∧
      w'.log = flattened.map .out := by
    split at hcheck
    · rename_i w' hrun
      exact ⟨w', hrun, of_decide_eq_true hcheck⟩
    · cases hcheck
  have hlacks : nested.files.tree.Lacks '\n' := by
    unfold Tree.Lacks nested
    decide +kernel
  obtain ⟨p, lines, printed, hlocate, hread, hprinted, hkeeps⟩ := flatten_keeps rfl hlacks hrun
  obtain rfl : flattened = printed := by
    have hinj : Function.Injective Event.out := fun _ _ h => congrArg Event.text h
    exact hinj.list_map (hlog.symm.trans (hprinted.trans (List.nil_append _)))
  obtain ⟨hagain, hloads⟩ := hkeeps rewritten ⟨.relative, ["flat"]⟩ ⟨.relative, ["flat"]⟩ (by decide)
    (by decide +kernel) ⟨by decide +kernel, by decide +kernel, by decide +kernel⟩
  obtain ⟨lines', hlines', hcontent⟩ := hagain "flat"
  exact ⟨w', p, lines, lines', hrun, hlog, hlocate, hread, hlines', hcontent, hloads⟩

end CommandLine

end Runbook
