import Runbook.Proofs.CommandLine.Options
import Runbook.Proofs.Recipe.Single
import Runbook.Proofs.Step.Command

/-! # A command by itself and from a recipe

The command line can run a command by itself or a recipe whose only step runs it. Either way one child is started, with
the same words, in the same directory and with the same environment, and what it prints is shown; the status is zero
exactly if the child ends well (`exec_runs`, `recipe_runs`). Main statement: `exec_like_recipe`. The script directory
matters to recipes only (`exec_unlike_recipe_homeless`). Whoever reads the command line is only relied on to pass words on
(`Reader.PassesOn`). -/

namespace Runbook

open Effect World

variable {words : List Text} {w w' w₀ : World}

/-- An environment that a process can have: no name of a variable holds an equals sign, and there is no U+0000 in it. -/
def Bindings.Possible (env : Bindings) : Prop := ∀ p ∈ env, '=' ∉ p.1 ∧ '\x00' ∉ p.1 ∧ '\x00' ∉ p.2

namespace CommandLine

/-! ### A command by itself -/

/-- What is said of a command that has been run, and the status for it. -/
def conclude (result : CommandResult) : Action Nat := do
  Action.inform ("time   = " ++ (Duration.ofMillis result.millis).render)
  let size := (result.output.flatMap (· ++ ['\n'])).length
  Action.inform ("size   = " ++ Text.ofNat size)
  if result.ok then
    Action.inform "status = passed"
    return 0
  Action.inform
    ("status = failed - " ++ result.startError.getD ("exit status " ++ Text.ofInt result.code))
  return (result.code % 256).toNat

theorem conclude_apply (result : CommandResult) (w : World) : ∃ w',
    conclude result w = .ok (if result.ok then 0 else (result.code % 256).toNat) w' ∧ Tells w w' := by
  have hinformed := Frame.trans (tells_say w rfl) (tells_say (w.say (.info
    ("time   = " ++ (Duration.ofMillis result.millis).render))) (n := .info ("size   = " ++
      Text.ofNat (result.output.flatMap (· ++ ['\n'])).length)) rfl)
  rw [conclude, Action.inform_bind, Action.inform_bind]
  split
  · exact ⟨_, rfl, Frame.trans hinformed (tells_say _ rfl)⟩
  · exact ⟨_, rfl, Frame.trans hinformed (tells_say _ rfl)⟩

theorem runCommand_apply (i : Invocation) (words : List Text) (w : World) : ∃ w₁, runCommand i false words w =
    (Runbook.Command.run words w.files.cwd.toText (i.childEnv w) false >>= conclude) w₁ ∧ Tells w w₁ := by
  have htold : Tells w (w.say (.info ("cmd    = " ++ Words.join words))) := tells_say w rfl
  obtain ⟨w₁, henv, htells⟩ := i.childEnvironment_tells (w.say (.info ("cmd    = " ++ Words.join words)))
  refine ⟨w₁, ?_, Frame.trans htold htells⟩
  rw [runCommand, Action.inform_bind, get_bind_apply]
  dsimp only
  rw [bind_of_ok henv, htold.said.files.cwd, Invocation.childEnv_tells htold]
  rfl

theorem status_eq_zero_iff {result : CommandResult} (h : result.code.natAbs < 256) :
    (if result.ok then 0 else (result.code % 256).toNat) = 0 ↔ result.ok = true := by
  split
  · exact iff_of_true rfl ‹_›
  · rename_i hok
    have hne : result.code ≠ 0 := by simpa [CommandResult.ok] using hok
    exact iff_of_false (by omega) hok

/-- A command by itself ends as its child does; an interrupt is left to the caller. -/
theorem runCommand_ends (i : Invocation)
    (hstarts : Runbook.Command.objection? words w.files.cwd.toText (i.childEnv w) = none)
    (hcode : ∀ code ∈ (w.children.headD .silent).exit, code.natAbs < 256) :
    ∃ u, Runs (w.children.headD .silent) words w.files.cwd.toText (i.childEnv w) w u ∧
      ((w.children.headD .silent).interrupts = true ∧ runCommand i false words w = .error .interrupted u ∨
        (w.children.headD .silent).interrupts = false ∧ ∃ status, runCommand i false words w = .ok status u ∧
          (status = 0 ↔ (w.children.headD .silent).endsWell = true)) := by
  obtain ⟨w₁, hrunCommand, htells⟩ := runCommand_apply i words w
  have hruns : Runs _ words w.files.cwd.toText (i.childEnv w) w₁ _ :=
    ⟨⟨_, Runbook.Command.run_starts hstarts false w₁⟩, Runbook.Command.run_echoes hstarts w₁⟩
  have houtcome := Runbook.Command.run_outcome hstarts false w₁
  rw [htells.said.children] at hruns houtcome
  replace hruns := hruns.after_tells htells
  rw [hrunCommand]
  generalize w.children.headD .silent = child at hcode hruns houtcome ⊢
  cases hrun : Runbook.Command.run words w.files.cwd.toText (i.childEnv w) false w₁ with
  | error e w₂ =>
    rw [hrun] at hruns houtcome
    rw [bind_of_error hrun]
    obtain ⟨hinterrupts, rfl⟩ := Child.result_eq_error houtcome.symm
    exact ⟨w₂, hruns, Or.inl ⟨hinterrupts, rfl⟩⟩
  | ok result w₂ =>
    rw [hrun] at hruns houtcome
    rw [bind_of_ok hrun]
    obtain ⟨hinterrupts, hok, -⟩ := Child.result_eq_ok houtcome.symm
    obtain ⟨w₃, hconclude, htold⟩ := conclude_apply result w₂
    have hbound : result.code.natAbs < 256 := by
      rcases Child.result_code houtcome.symm with hcode' | hexit
      · rw [hcode']
        decide
      · exact hcode _ hexit
    exact ⟨w₃, hruns.trans_tells htold, Or.inr ⟨hinterrupts, _, hconclude, hok ▸ status_eq_zero_iff hbound⟩⟩

/-! ### A recipe that runs it -/

section
variable {v : World} {reference : Text} {r : Recipe} {source : Option Line} {dir : Path}

/-- A recipe whose only step runs a command ends as the child does; an interrupt is reported. -/
theorem runRecipe_ends (i : Invocation) (hload : Recipe.load reference i.recipes v = .ok r w') (htells : Tells w w')
    (hdefaults : r.defaults = []) (hsteps : r.steps = [⟨.exec, Words.join words, source⟩]) (hwords : words ≠ [])
    (hstarts : Command.objection? words w.files.cwd.toText (i.childEnv w) = none) (hdirect : w.files.Direct)
    (hhome : w.files.homes.expand? (Path.ofText i.scripts) = some dir) :
    ∃ u status, Runs (w.children.headD .silent) words w.files.cwd.toText (i.childEnv w) w u ∧
      runRecipe i reference [] v = .ok status
        (if (w.children.headD .silent).interrupts then u.say (.echo "\nInterrupted by user") else u) ∧
      (status = 0 ↔ (w.children.headD .silent).endsWell = true) := by
  obtain ⟨w₁, henv, htold⟩ := i.childEnvironment_tells w'
  replace htold := Frame.trans htells htold
  have hsilent := htold.said.starts_nil
  have hran := Recipe.run_ran (w := w₁) hdefaults hsteps hwords (hsilent.cwd ▸ hstarts)
    (hdirect.noNewLinks hsilent.links hsilent.cwd) (hsilent.homes ▸ hhome)
  rw [htold.said.children, hsilent.cwd] at hran
  replace hran := Ran.after htold hran
  generalize w.children.headD .silent = child at hran ⊢
  have hrun : (do r.run [] i.scripts none (← i.childEnvironment) : Action (List StepResult)) w' =
      r.run [] i.scripts none (i.childEnv w) w₁ := by
    rw [bind_of_ok henv, Invocation.childEnv_tells htells]
  unfold runRecipe orReport
  rw [hload]
  dsimp only
  rw [hrun]
  obtain ⟨hruns, hends⟩ := hran
  generalize r.run [] i.scripts none (i.childEnv w) w₁ = ran at hruns hends ⊢
  cases ran with
  | ok results w₂ =>
    cases hends with
    | well hwell _ =>
      rw [Child.interrupts_eq_false hwell]
      exact ⟨_, 0, hruns.trans_tells (tells_say w₂ rfl), rfl, iff_of_true rfl hwell⟩
  | error e w₂ =>
    cases hends with
    | badly hbadly hinterrupts f =>
      rw [hinterrupts, hbadly]
      exact ⟨_, 1, hruns.trans_tells (tells_say w₂ rfl), rfl, by decide⟩
    | interrupted hinterrupts =>
      rw [hinterrupts, Child.endsWell_eq_false hinterrupts]
      exact ⟨w₂, 130, hruns, rfl, by decide⟩

end

/-! ### From the words of the command line -/

/-- There is no objection to starting words without U+0000 in a directory on whose path no link stands, with an
    environment that a process can have. -/
theorem objection?_eq_none {env : Bindings} (hnull : ∀ word ∈ words, '\x00' ∉ word) (hdirect : w.files.Direct)
    (henv : env.Possible) : Runbook.Command.objection? words w.files.cwd.toText env = none :=
  Runbook.Command.objection?_eq_none_iff.mpr
    ⟨fun p hp => (henv p hp).1, hdirect.noNull, hnull, fun p hp => (henv p hp).2⟩

section
variable {reader : Reader} {options : List Text} {s : Settings} {reference : Text} {p : Path}
  (h : Begins reader options s w w₀) (hwords : words ≠ []) (hnull : ∀ word ∈ words, '\x00' ∉ word)
  (hdirect : w.files.Direct) (henv : ((invocation options s w).childEnv w).Possible)
include h hwords hnull hdirect henv

/-- The words run by themselves. -/
theorem exec_runs (hfirst : ∀ word ∈ words.head?, Text.startsWith "-" word = false)
    (hcode : ∀ code ∈ (w.children.headD .silent).exit, code.natAbs < 256) :
    ∃ u status, Runs (w.children.headD .silent) words w.files.cwd.toText ((invocation options s w).childEnv w)
        (speaking s w) u ∧
      reader.run (options ++ "exec".toList :: words) w = .ok status
        (if (w.children.headD .silent).interrupts then reader.abort u else u) ∧
      (status = 0 ↔ (w.children.headD .silent).endsWell = true) := by
  obtain ⟨word, rest, rfl⟩ := List.exists_cons_of_ne_nil hwords
  obtain ⟨w₁, hdispatch, htells⟩ := h.dispatch (h.reads.options "exec" (List.mem_pair.mpr (Or.inr rfl)) (word :: rest))
    (h.reads.exec word rest (hfirst word rfl))
  obtain ⟨hstarts, hechoes, hchildEnv⟩ := h.told htells (options ++ "exec".toList :: word :: rest)
  have hchildren : w₁.children = w.children := hstarts.children
  have hcwd : w₁.files.cwd = w.files.cwd := hstarts.cwd
  have hobjection : Runbook.Command.objection? (word :: rest) w₁.files.cwd.toText
      ((invocation (options ++ "exec".toList :: word :: rest) s w).childEnv w₁) = none := by
    rw [hcwd, hchildEnv]
    exact objection?_eq_none hnull hdirect henv
  obtain ⟨u, hruns, hends⟩ := runCommand_ends _ hobjection (hchildren ▸ hcode)
  rw [hchildren, hcwd, hchildEnv] at hruns
  rw [hchildren] at hends
  replace hruns := hruns.after hstarts hechoes
  rcases hends with ⟨hinterrupts, hrun⟩ | ⟨hinterrupts, status, hrun, hstatus⟩
  · refine ⟨u, reader.aborted.status, hruns, ?_, ?_⟩
    · rw [if_pos hinterrupts]
      exact Reader.run_of_interrupted (hdispatch.trans hrun)
    · rw [Child.endsWell_eq_false hinterrupts]
      exact iff_of_false h.reads.aborted Bool.false_ne_true
  · refine ⟨u, status, hruns, ?_, hstatus⟩
    rw [if_neg (Bool.eq_false_iff.mp hinterrupts)]
    exact Reader.run_of_ok (hdispatch.trans hrun)

/-- The words run by the only step of a recipe. -/
theorem recipe_runs (hfeed : ∀ word ∈ words, '\n' ∉ word) (hreference : Text.startsWith "-" reference = false)
    (hhome : (w.files.homes.expand? (Path.ofText s.scripts)).isSome)
    (hp : outcome (Recipe.locate reference s.recipes w₀) = .ok p) (i : Recipe.Single w₀.files p words)
    (hlog : w₀.Unopened p.toText i.file) :
    ∃ u status, Runs (w.children.headD .silent) words w.files.cwd.toText ((invocation options s w).childEnv w)
        (speaking s w) u ∧
      reader.run (options ++ ["run".toList, reference]) w = .ok status
        (if (w.children.headD .silent).interrupts then u.say (.echo "\nInterrupted by user") else u) ∧
      (status = 0 ↔ (w.children.headD .silent).endsWell = true) := by
  obtain ⟨dir, hdir⟩ := Option.isSome_iff_exists.mp hhome
  obtain ⟨w₁, hdispatch, htells⟩ := h.dispatch (h.reads.options "run" (List.mem_pair.mpr (Or.inl rfl)) [reference])
    (h.reads.run reference [] hreference)
  obtain ⟨r, w₂, hload, htold, hdefaults, hsteps⟩ := i.load hwords hfeed htells hp hlog
  have hcwd : w₀.files.cwd = w.files.cwd := h.starts.cwd
  have hchildren : w₀.children = w.children := h.starts.children
  have hobjection : Runbook.Command.objection? words w₀.files.cwd.toText
      ((invocation (options ++ ["run".toList, reference]) s w).childEnv w₀) = none := by
    rw [hcwd, h.childEnv]
    exact objection?_eq_none hnull hdirect henv
  obtain ⟨u, status, hruns, hrun, hstatus⟩ := runRecipe_ends (invocation (options ++ ["run".toList, reference]) s w)
    hload htold hdefaults hsteps hwords hobjection (hdirect.noNewLinks h.starts.links hcwd) (h.starts.homes ▸ hdir)
  rw [hchildren, hcwd, h.childEnv] at hruns
  rw [hchildren] at hrun hstatus
  exact ⟨u, status, hruns.after h.starts h.echoes, Reader.run_of_ok (hdispatch.trans hrun), hstatus⟩

/-- A command runs the same way by itself and as the only step of a recipe, whoever reads the command line and passes on
    the words after the options: the same child is started in the same directory with the same environment, the lines it
    prints are shown, and one of the two ends with status zero exactly if the other does. What follows an interrupt is
    said after that. -/
theorem exec_like_recipe (hfeed : ∀ word ∈ words, '\n' ∉ word)
    (hfirst : ∀ word ∈ words.head?, Text.startsWith "-" word = false)
    (hcode : ∀ code ∈ (w.children.headD .silent).exit, code.natAbs < 256)
    (hreference : Text.startsWith "-" reference = false)
    (hhome : (w.files.homes.expand? (Path.ofText s.scripts)).isSome)
    (hp : outcome (Recipe.locate reference s.recipes w₀) = .ok p) (i : Recipe.Single w₀.files p words)
    (hlog : w₀.Unopened p.toText i.file) :
    ∃ u u' status status',
      reader.run (options ++ ["run".toList, reference]) w = .ok status
        (if (w.children.headD .silent).interrupts then u.say (.echo "\nInterrupted by user") else u) ∧
      reader.run (options ++ "exec".toList :: words) w = .ok status'
        (if (w.children.headD .silent).interrupts then reader.abort u' else u') ∧
      Runs (w.children.headD .silent) words w.files.cwd.toText ((invocation options s w).childEnv w) (speaking s w) u ∧
      Runs (w.children.headD .silent) words w.files.cwd.toText ((invocation options s w).childEnv w) (speaking s w) u' ∧
      (status = 0 ↔ status' = 0) := by
  obtain ⟨u, status, hruns, hrun, hstatus⟩ :=
    recipe_runs h hwords hnull hdirect henv hfeed hreference hhome hp i hlog
  obtain ⟨u', status', hruns', hrun', hstatus'⟩ := exec_runs h hwords hnull hdirect henv hfirst hcode
  exact ⟨u, u', status, status', hrun, hrun', hruns, hruns', hstatus.trans hstatus'.symm⟩

end

/-- What is before the step in a file, and after it. -/
def aroundStep : List UInt8 × List UInt8 := (Utf8.encode "[description]\nbrief = b\nfull = f\n[step]\n", [10])

/-- The words of a command, one of them with a blank and a quote. -/
def greeting : List Text := ["echo", "it's me"]

/-- A child that prints two lines and fails. -/
def grumpy : Child := ⟨none, Utf8.encode "it's\nme\n", 0, [], some 3⟩

/-- A world with a recipe that runs the command, and with this child. -/
def kitchen : World :=
  { Rehearsal.world "/w" [("HOME", "/h")]
      [("/w/r.ini", aroundStep.1 ++ (Utf8.encode (Recipe.execLine greeting) ++ aroundStep.2))] with
    children := [grumpy] }

/-- The recipe. -/
def kitchenRecipe : Recipe.Single kitchen.files ⟨.relative, ["r.ini"]⟩ greeting where
  file := ⟨.relative, ["r.ini"]⟩
  head := aroundStep.1
  tail := aroundStep.2
  before := [⟨"r.ini", "/w/r.ini", 1, "[description]", none⟩, ⟨"r.ini", "/w/r.ini", 2, "brief = b", none⟩,
    ⟨"r.ini", "/w/r.ini", 3, "full = f", none⟩, ⟨"r.ini", "/w/r.ini", 4, "[step]", none⟩]
  after := []
  expands := by decide +kernel
  isFile := by decide +kernel
  allowed := by decide +kernel
  content := by decide +kernel
  headEnds := by decide +kernel
  tailBegins := by decide +kernel
  headText := by decide +kernel
  tailText := by decide +kernel
  readHead := rfl
  readTail := rfl
  inSteps := by decide +kernel
  unfinished := by decide +kernel
  undeclared := by decide +kernel

theorem kitchen_direct : kitchen.files.Direct where
  anchor := rfl
  proper := by
    unfold Path.Proper
    decide +kernel
  onward := by
    unfold Path.Onward
    decide +kernel
  noNull := by decide +kernel
  links := by
    intro done hdone target hlink
    rcases List.prefix_cons_iff.mp hdone with rfl | ⟨rest, rfl, hrest⟩
    · cases hlink
    · obtain rfl := List.prefix_nil.mp hrest
      have hnode : kitchen.files.tree.node? ["w"] = some .directory := by decide +kernel
      cases hnode.symm.trans hlink

/-- How the option that asks for more sets the program up there. -/
def louder : Settings := Given.settings ⟨[(.verbose, [])], []⟩ kitchen.host kitchen.env

theorem kitchen_begins : Begins Reader.standard ["-v"] louder kitchen (speaking louder kitchen) :=
  ⟨Reader.standard_passesOn rfl rfl rfl rfl, rfl⟩

theorem exec_like_recipe_kitchen : ∃ u u' status status',
    Reader.standard.run (["-v".toList] ++ ["run".toList, "r.ini"]) kitchen = .ok status u ∧
    Reader.standard.run (["-v".toList] ++ "exec".toList :: greeting) kitchen = .ok status' u' ∧
    Runs grumpy greeting "/w" ((invocation ["-v"] louder kitchen).childEnv kitchen) (speaking louder kitchen) u ∧
    Runs grumpy greeting "/w" ((invocation ["-v"] louder kitchen).childEnv kitchen) (speaking louder kitchen) u' ∧
    (status = 0 ↔ status' = 0) := by
  have hcwd : kitchen.files.cwd.toText = "/w".toList := by decide +kernel
  have henv : ((invocation ["-v"] louder kitchen).childEnv kitchen).Possible := by
    unfold Bindings.Possible
    decide +kernel
  have hreference : Text.startsWith "-" "r.ini" = false := by decide +kernel
  obtain ⟨u, u', status, status', hrun, hrun', hruns, hruns', hstatus⟩ :=
    exec_like_recipe kitchen_begins (by decide) (by decide +kernel) kitchen_direct henv (by decide +kernel)
      (by decide +kernel) (by decide +kernel) hreference (by decide +kernel) (by decide +kernel) kitchenRecipe
      (fun _ _ _ _ _ hlog => by cases hlog)
  rw [hcwd] at hruns hruns'
  exact ⟨u, u', status, status', hrun, hrun', hruns, hruns', hstatus⟩

/-- A home for scripts that is not known ends a recipe before its command has been tried, and makes no difference to the
    command by itself. -/
theorem exec_unlike_recipe_homeless : kitchen.files.Direct ∧
    Nonempty (Recipe.Single kitchen.files ⟨.relative, ["r.ini"]⟩ greeting) ∧ ∃ u u',
      runRecipe ⟨[], "d", "~nosuch", none⟩ "r.ini" [] { kitchen with children := [] } = .ok 1 u ∧ u.starts = [] ∧
      runCommand ⟨[], "d", "~nosuch", none⟩ false greeting { kitchen with children := [] } = .ok 0 u' ∧
      u'.starts.map Start.argv = [greeting] := by
  have hrecipe : passes (fun status u => decide (status = 1 ∧ u.starts = []))
      (runRecipe ⟨[], "d", "~nosuch", none⟩ "r.ini" [] { kitchen with children := [] }) = true := by
    decide +kernel
  have hexec : passes (fun status u => decide (status = 0 ∧ u.starts.map Start.argv = [greeting]))
      (runCommand ⟨[], "d", "~nosuch", none⟩ false greeting { kitchen with children := [] }) = true := by
    decide +kernel
  obtain ⟨status, u, hrun, hrecipe⟩ := eq_ok_of_passes hrecipe
  obtain ⟨status', u', hrun', hexec⟩ := eq_ok_of_passes hexec
  obtain ⟨rfl, hnone⟩ := of_decide_eq_true hrecipe
  obtain ⟨rfl, hone⟩ := of_decide_eq_true hexec
  exact ⟨kitchen_direct, ⟨kitchenRecipe⟩, u, u', hrun, hnone, hrun', hone⟩

end CommandLine

end Runbook
