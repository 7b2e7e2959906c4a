import Runbook.Proofs.Recipe.Single
import Runbook.Proofs.Step.Echo
import Runbook.Proofs.Step.Verbosity
import Runbook.Run

/-! # Recipes at any verbosity

Verbosity decides what is shown, and nothing else. Two runs of a recipe, one of which shows more than the other, go on
side by side: while the recipe is looked for and loaded something is told in both (`Told`, `load_matches`), and from the
first step on the session of one is louder than that of the other (`Session.Louder`). What is shown comes back into a run
by one way only, which is the file of the log: where it is a program that is started, a part of the recipe, or looked at
in the end. Main statement: `Recipe.runs_alike`; `Recipe.runs_apart_diary` goes that way. -/

namespace Runbook

open Effect World Include
open scoped List

variable {hidden : List Text → Bool} {w w' b b' : World} {p q : Path} {r : Recipe} {v v' : Verbosity}

namespace Recipe

/-! ### Loading -/

/-- The log is not read as a part of the recipe a reference means. -/
def ReadsNoLog (reference recipeDir : Text) (w : World) : Prop :=
  ∀ p q, outcome (locate reference recipeDir w) = .ok p → w.files.homes.expand? p = some q → w.OpensOffLog p.toText q

instance (reference recipeDir : Text) (w : World) : Decidable (ReadsNoLog reference recipeDir w) :=
  decidable_of_iff (∀ p ∈ (outcome (locate reference recipeDir w)).toOption, ∀ q ∈ w.files.homes.expand? p,
      w.OpensOffLog p.toText q)
    ⟨fun h p q hp => h p (mem_toOption.mpr hp) q, fun h p hp q => h p q (mem_toOption.mp hp)⟩

/-- Worlds that something has been told in, one of them louder. -/
structure Told (hidden : List Text → Bool) (b b' w w' : World) : Prop where
  louder : Louder hidden w w'
  told : Tells b w
  told' : Tells b' w'

section
variable (hidden) (w) (v v')

/-- Worlds that something has been told in since a world, at two verbosities. -/
abbrev ToldSince : World → World → Prop := Told hidden (w.showing v) (w.showing v')

theorem telling_toldSince : Telling (w.showing v) (w.showing v') (ToldSince hidden w v v') where
  files := rfl
  logPlace := rfl
  told h := ⟨h.told, h.told'⟩
  tell h hn := ⟨h.louder.say _, Frame.trans h.told (tells_say _ hn), Frame.trans h.told' (tells_say _ hn)⟩

end

/-- Loading a recipe that the log is no part of ends in the same way however much is shown. -/
theorem load_matches {reference recipeDir : Text} (hv : v ≤ v') (hlog : ReadsNoLog reference recipeDir w) :
    (Comparison.lockstep (ToldSince hidden w v v')).Matches (load reference recipeDir (w.showing v))
      (load reference recipeDir (w.showing v')) := by
  have hR := telling_toldSince hidden w v v'
  have hbegun : ToldSince hidden w v v' (w.showing v) (w.showing v') :=
    ⟨.showing hv w, Frame.refl _, Frame.refl _⟩
  have hasked := hR.tell (n := .info ("loading recipe '" ++ reference ++ "'")) hbegun rfl
  have hlike : w.files.Like ((w.showing v).say (.info ("loading recipe '" ++ reference ++ "'"))).files :=
    hasked.told.said.files
  unfold load
  rw [Action.inform_bind, Action.inform_bind]
  refine Follows.matches_of (Follows.bind_of_ok ?_ fun p s hlocate => ?_) hasked
  · exact steady_locate (fun _ _ => hR.like) (fun _ => hR.say rfl) reference recipeDir _
  · refine (hR.say rfl s).bind fun _ => hR.loadFile fun q hexpand => hlog p q ?_ hexpand
    rw [← outcome_locate hlike, hlocate]
    rfl

/-! ### Running -/

section
variable {α : Type} (context : Context) (act : Run α) (w : World)

theorem outcome_inContext : outcome (inContext context act w) = outcome (act ⟨w, context⟩) := by
  unfold inContext
  cases act ⟨w, context⟩ <;> rfl

theorem final_inContext : final (inContext context act w) = (final (act ⟨w, context⟩)).world := by
  unfold inContext
  cases act ⟨w, context⟩ <;> rfl

end

/-- What a run does before its first step: the variables are set, and the context is made. -/
def begin (r : Recipe) (overrides : List Text) (scriptDir : Text) (start : Option Text) (env : Bindings) :
    Action Context := do
  match Variables.resolve r.defaults overrides with
  | .error e => throw (.unresolved e)
  | .ok values =>
    values.sorted.forM fun p => Action.say (.debug ("variable " ++ p.1 ++ " = " ++ p.2))
    let context ← Context.create values scriptDir start env
    Action.say (.recipeStarted r.name r.path r.steps.length)
    return context

theorem run_eq (r : Recipe) (overrides : List Text) (scriptDir : Text) (start : Option Text) (env : Bindings) :
    r.run overrides scriptDir start env = (do
      let context ← r.begin overrides scriptDir start env
      inContext context (Step.runAll r.steps)) := by
  unfold run begin
  cases Variables.resolve r.defaults overrides with
  | error e => rfl
  | ok values => simp only [bind_assoc, pure_bind]

theorem steady_begin (r : Recipe) (overrides : List Text) (scriptDir : Text) (start : Option Text) (env : Bindings)
    (s : World) : Steady (.lockstep (ToldSince hidden w v v')) (r.begin overrides scriptDir start env) s := by
  have hR := telling_toldSince hidden w v v'
  have hcreate : ∀ values s, Steady (.lockstep (ToldSince hidden w v v'))
      (Context.create values scriptDir start env) s := by
    intro values s
    refine Follows.get_bind ?_ fun s' h => by rw [(hR.like h).cwd, (Told.louder h).host]
    exact (Action.steady_resolve (fun _ _ => hR.like) _ s).bind fun cwd s =>
      (Action.steady_expandHome (fun _ _ => hR.like) _ s).bind fun dir => .pure _
  unfold begin
  cases Variables.resolve r.defaults overrides with
  | error e => exact .throw _ s
  | ok values =>
    refine (Follows.forM _ (fun p => hR.say rfl) s).bind fun _ s => (hcreate values s).bind fun context s => ?_
    exact (hR.say rfl s).bind fun _ => .pure context

section
variable (reference recipeDir : Text) (overrides : List Text) (scriptDir : Text) (start : Option Text) (env : Bindings)

/-- Loads the recipe a reference means, and runs it. -/
def play : Action (List StepResult) := do (← load reference recipeDir).run overrides scriptDir start env

/-- Loads the recipe a reference means, and does what a run of it does before its first step. -/
def prepare : Action (Recipe × Context) := do
  let r ← load reference recipeDir
  return (r, ← r.begin overrides scriptDir start env)

theorem play_eq : play reference recipeDir overrides scriptDir start env = (do
    let (r, context) ← prepare reference recipeDir overrides scriptDir start env
    inContext context (Step.runAll r.steps)) := by
  simp only [play, prepare, run_eq, bind_assoc, pure_bind]

/-- The visits of a run of the recipe a reference means. -/
def played (w : World) : List Visit :=
  match prepare reference recipeDir overrides scriptDir start env w with
  | .ok (r, context) world => visits 1 r.steps ⟨world, context⟩
  | .error _ _ => []

/-- The context such a run ends with, if it comes to its steps. -/
def lastContext (w : World) : Option Context :=
  match prepare reference recipeDir overrides scriptDir start env w with
  | .ok (r, context) world => some (final (Step.runAll r.steps ⟨world, context⟩)).context
  | .error _ _ => none

theorem prepare_matches (hv : v ≤ v') (hlog : ReadsNoLog reference recipeDir w) :
    (Comparison.lockstep (ToldSince hidden w v v')).Matches
      (prepare reference recipeDir overrides scriptDir start env (w.showing v))
      (prepare reference recipeDir overrides scriptDir start env (w.showing v')) :=
  Follows.matches_bind (load_matches hv hlog) (fun _ _ => id) fun r s =>
    (steady_begin r overrides scriptDir start env s).bind fun _ => .pure _

/-- However much is shown, a recipe that the log is no part of runs in the same way. -/
theorem play_alike (hv : v ≤ v') (hlog : ReadsNoLog reference recipeDir w) :
    outcome (play reference recipeDir overrides scriptDir start env (w.showing v')) =
        outcome (play reference recipeDir overrides scriptDir start env (w.showing v)) ∧
      lastContext reference recipeDir overrides scriptDir start env (w.showing v') =
        lastContext reference recipeDir overrides scriptDir start env (w.showing v) ∧
      EndAlike (played reference recipeDir overrides scriptDir start env (w.showing v)) w
        (final (play reference recipeDir overrides scriptDir start env (w.showing v)))
        (final (play reference recipeDir overrides scriptDir start env (w.showing v'))) := by
  generalize hvs : played reference recipeDir overrides scriptDir start env (w.showing v) = vs
  have hprepare : (Comparison.lockstep (ToldSince (startsLog vs) w v v')).Matches _ _ :=
    prepare_matches reference recipeDir overrides scriptDir start env hv hlog
  -- What has been told before the first step changes neither whether a log is kept nor what is shown.
  have hbefore : ∀ {s w₁ w₂}, Tells (w.showing v) s → EndAlike vs s w₁ w₂ → EndAlike vs w w₁ w₂ :=
    fun htells h => h.before htells.echoes.log_sublist htells.notes.logPlace
  rw [play_eq]
  unfold played at hvs
  unfold lastContext
  cases hquiet : prepare reference recipeDir overrides scriptDir start env (w.showing v) with
  | error e s =>
    rw [hquiet] at hvs hprepare
    generalize hloud : prepare reference recipeDir overrides scriptDir start env (w.showing v') = r at hprepare
    cases hprepare with
    | error h =>
      rw [bind_of_error hquiet, bind_of_error hloud]
      refine ⟨rfl, rfl, hbefore h.told ⟨h.louder, ?_, fun hplace => h.louder.eq_of_unlogged hplace fun argv => ?_⟩⟩
      · rw [← hvs, List.flatMap_nil, List.map_nil, List.append_nil]
        exact List.Sublist.refl _
      · rw [← hvs]
        rfl
  | ok p s =>
    obtain ⟨r, context⟩ := p
    rw [hquiet] at hvs hprepare
    generalize hloud : prepare reference recipeDir overrides scriptDir start env (w.showing v') = r' at hprepare
    cases hprepare with
    | ok h =>
      rw [bind_of_ok hquiet, bind_of_ok hloud]
      have hlouder : Session.Louder (startsLog vs) ⟨s, context⟩ ⟨_, context⟩ := ⟨h.louder, rfl⟩
      rw [← hvs] at hlouder
      obtain ⟨houtcome, hcontext, halike⟩ := Step.runAll_alike hlouder
      dsimp only at hvs ⊢
      rw [hvs] at halike
      rw [outcome_inContext, outcome_inContext, final_inContext, final_inContext]
      exact ⟨houtcome, congrArg some hcontext, hbefore h.told halike⟩

end

/-- However much is shown, loading a recipe and running it ends in the same way, and so does running steps in any
    session, if the children do the same: with the same results or the same fault, the same context, and in worlds that
    are the same up to what has been written to the log. What the user asked to see is in the log each time, and what is
    in the quieter log is in the louder one. All of this holds for the recipe unless the log is one of the files the
    recipe is read from. -/
theorem runs_alike (hv : v ≤ v') :
    (∀ (w : World) (reference recipeDir : Text) (overrides : List Text) (scriptDir : Text) (start : Option Text)
        (env : Bindings), ReadsNoLog reference recipeDir w →
      outcome (play reference recipeDir overrides scriptDir start env (w.showing v')) =
          outcome (play reference recipeDir overrides scriptDir start env (w.showing v)) ∧
        lastContext reference recipeDir overrides scriptDir start env (w.showing v') =
          lastContext reference recipeDir overrides scriptDir start env (w.showing v) ∧
        EndAlike (played reference recipeDir overrides scriptDir start env (w.showing v)) w
          (final (play reference recipeDir overrides scriptDir start env (w.showing v)))
          (final (play reference recipeDir overrides scriptDir start env (w.showing v')))) ∧
    ∀ (steps : List Step) (s : Session),
      outcome (Step.runAll steps (s.showing v')) = outcome (Step.runAll steps (s.showing v)) ∧
        (final (Step.runAll steps (s.showing v'))).context = (final (Step.runAll steps (s.showing v))).context ∧
        EndAlike (visits 1 steps (s.showing v)) s.world (final (Step.runAll steps (s.showing v))).world
          (final (Step.runAll steps (s.showing v'))).world := by
  refine ⟨fun w reference recipeDir overrides scriptDir start env hlog => ?_, fun steps s => ?_⟩
  · exact play_alike reference recipeDir overrides scriptDir start env hv hlog
  · have hlouder : Session.Louder (startsLog (visits 1 steps (s.showing v))) (s.showing v) (s.showing v') := .showing hv s
    obtain ⟨houtcome, hcontext, halike⟩ := Step.runAll_alike hlouder
    exact ⟨houtcome, hcontext, halike.before (List.Sublist.refl _) rfl⟩

/-- A world with a log, with a recipe that runs the log as a program, and with one that includes it. -/
def diary : World :=
  let steps := "[description]\nbrief = b\nfull = f\n[step]\nstep = info x\nstep = exec /w/log\n"
  { Rehearsal.world "/w" [] [("/w/log", []), ("/w/r.ini", Utf8.encode steps),
      ("/w/s.ini", Utf8.encode ("include log\n" ++ steps))] with
    children := [⟨none, Utf8.encode "y\n", 0, [], some 0⟩]
    tee := some (.start ["w", "log"]) }

theorem runs_alike_diary :
    let run := play "r.ini" "/w" [] "/w" none []
    Verbosity.quiet ≤ Verbosity.debug ∧ ReadsNoLog "r.ini" "/w" diary ∧
      outcome (run (diary.showing .debug)) = .ok [⟨1, .info, "x", .ok, 0⟩, ⟨2, .exec, "/w/log", .ok, 0⟩] ∧
      [.out "x", .out "y"] <+ (final (run (diary.showing .quiet))).log ∧
      EndAlike (played "r.ini" "/w" [] "/w" none [] (diary.showing .quiet)) diary
        (final (run (diary.showing .quiet))) (final (run (diary.showing .debug))) := by
  intro run
  have hv : Verbosity.quiet ≤ Verbosity.debug := by decide
  have hlog : ReadsNoLog "r.ini" "/w" diary := by decide +kernel
  obtain ⟨houtcome, -, halike⟩ := (runs_alike hv).1 diary "r.ini" "/w" [] "/w" none [] hlog
  have hquiet : outcome (run (diary.showing .quiet)) = .ok [⟨1, .info, "x", .ok, 0⟩, ⟨2, .exec, "/w/log", .ok, 0⟩] := by
    decide +kernel
  have hechoed : (played "r.ini" "/w" [] "/w" none [] (diary.showing .quiet)).flatMap Visit.echoed = ["x", "y"] := by
    decide +kernel
  have hshown := halike.shown
  rw [hechoed] at hshown
  exact ⟨hv, hlog, houtcome.trans hquiet, hshown, halike⟩

/-- The log is a file: more is in it if more is shown, and so there is in the program of a command that runs it. A recipe
    that includes it is no recipe any more. -/
theorem runs_apart_diary :
    (final (play "r.ini" "/w" [] "/w" none [] (diary.showing .quiet))).files.tree.node? ["w", "log"] ≠
        (final (play "r.ini" "/w" [] "/w" none [] (diary.showing .debug))).files.tree.node? ["w", "log"] ∧
      (final (play "r.ini" "/w" [] "/w" none [] (diary.showing .quiet))).starts ≠
        (final (play "r.ini" "/w" [] "/w" none [] (diary.showing .debug))).starts ∧
      outcome (play "s.ini" "/w" [] "/w" none [] (diary.showing .quiet)) ≠
        outcome (play "s.ini" "/w" [] "/w" none [] (diary.showing .debug)) := by
  decide +kernel

end Recipe

end Runbook
