import Runbook.Proofs.Step.Echo
import Runbook.Proofs.Verbosity

/-! # Steps at any verbosity

However much is shown, steps do the same (`Step.unmoved_runFrom`): a session in a louder world stays one in a louder
world, with the same context. What a step starts is known from the session before it (`Step.launch?`), and so is whether
it starts the log as a program. -/

namespace Runbook

open Effect World
open scoped List

variable {hidden : List Text → Bool} {s s' : Session} {α : Type}

/-- The second session is in a louder world, with the same context. -/
structure Session.Louder (hidden : List Text → Bool) (s s' : Session) : Prop where
  world : World.Louder hidden s.world s'.world
  context : s'.context = s.context

/-- The session at a verbosity. -/
def Session.showing (v : Verbosity) (s : Session) : Session := { s with world := s.world.showing v }

theorem Session.Louder.showing {v v' : Verbosity} (hv : v ≤ v') (s : Session) :
    Louder hidden (s.showing v) (s.showing v') := ⟨.showing hv s.world, rfl⟩

namespace Run

/-- From a session on, the run does the same however much is shown. -/
abbrev Unmoved (hidden : List Text → Bool) (act : Run α) (s : Session) : Prop :=
  Steady (.lockstep (Session.Louder hidden)) act s

theorem unmoved_outside {act : Action α} (h : act.Unmoved hidden s.world) :
    Unmoved hidden (liftM act : Run α) s := by
  refine .of_matches fun s' hs => ?_
  have hmatches := h.matches_of hs.world
  rw [outside_apply, outside_apply, outside, outside]
  generalize act s.world = r at hmatches ⊢
  generalize act s'.world = r' at hmatches ⊢
  cases hmatches with
  | ok h => exact .ok ⟨h, hs.context⟩
  | error h => exact .error ⟨h, hs.context⟩

theorem unmoved_inform (message : Text) (s : Session) :
    Unmoved hidden (liftM (Action.inform message) : Run Unit) s := unmoved_outside (Action.unmoved_inform message _)

theorem unmoved_change (f : Context → Context) (s : Session) : Unmoved hidden (change f) s :=
  .of_matches fun _ h => .ok ⟨h.world, congrArg f h.context⟩

theorem unmoved_context {f : Context → Run α} (hf : Unmoved hidden (f s.context) s) :
    Unmoved hidden (context >>= f) s :=
  hf.congr rfl fun s' h => by rw [context_bind, h.context]

end Run

namespace Step

open Runbook.Action Run

variable {index : Nat} {d : Directive} {data display : Text} {argv words : List Text} {c : Context} {w : World}

/-! ### What a step starts -/

/-- The words of the command a directive starts with a text, and the world it is started in, up to what is said. -/
def launch? (d : Directive) (data : Text) (s : Session) : Option (List Text × World) :=
  match d with
  | .exec | .execNoExit => (command? data).map fun words => (words, s.world)
  | .script =>
    match Script.create data s.context.scriptDir s.context.pid s.world with
    | .ok p w => some ([p.toText], w)
    | .error _ _ => none
  | _ => none

/-- Before a step starts something it does no more than make the file of a script. -/
theorem launch?_outside {R : World → World → Prop} [BearsFiles R] (h : launch? d data s = some (words, w)) :
    R s.world w := by
  cases d with
  | exec | execNoExit =>
    obtain ⟨words', -, hlaunch⟩ := Option.map_eq_some_iff.mp h
    cases hlaunch
    exact Frame.refl s.world
  | script =>
    rw [launch?] at h
    cases hcreate : Script.create data s.context.scriptDir s.context.pid s.world with
    | error e w₁ =>
      rw [hcreate] at h
      cases h
    | ok p w₁ =>
      rw [hcreate] at h
      cases h
      exact (Script.leads_create _ _ _).ok hcreate
  | _ => cases h

/-! ### Commands -/

theorem unmoved_report (index : Nat) (d : Directive) (display : Text) (result : CommandResult) (w : World) :
    Action.Unmoved hidden (report index d display result) w := by
  refine (Action.unmoved_inform _ w).bind fun _ w => ?_
  dsimp only
  exact Follows.guard ((Action.unmoved_inform _ w).bind fun _ => .pure _)

theorem unmoved_spawn (hlog : argv.any (·.contains '\x00') = false → w.runsLog argv = true → hidden argv = true)
    (c : Context) (index : Nat) (d : Directive) (display : Text) :
    Action.Unmoved hidden (spawn c index d argv display) w := by
  refine .of_matches fun w' h => ?_
  have hannounced : Louder hidden (commandAnnounced c argv w) (commandAnnounced c argv w') := (h.say _).say _
  rw [spawn_apply, spawn_apply]
  refine ((Command.unmoved_run (fun hnull hruns => hlog hnull ?_) _ _ false).bind
    (unmoved_report index d display)).matches_of hannounced
  rwa [commandAnnounced, runsLog_say, runsLog_say] at hruns

theorem unmoved_exec (hlog : ∀ words, command? data = some words → w.runsLog words = true → hidden words = true)
    (c : Context) (index : Nat) (d : Directive) : Action.Unmoved hidden (exec c index d data) w := by
  unfold exec Step.argv
  cases hsplit : Words.split data with
  | error e => exact (Follows.throw _ w).bind_of_ok fun _ _ h => by cases h
  | ok words =>
    cases words with
    | nil => exact (Follows.throw _ w).bind_of_ok fun _ _ h => by cases h
    | cons word rest =>
      have hspawn : Action.Unmoved hidden (spawn c index d (word :: rest) data) w := by
        refine unmoved_spawn (fun hnull => hlog _ ?_) c index d data
        rw [← Bool.not_eq_true, any_contains_null hsplit] at hnull
        simp [command?, hsplit, hnull]
      refine (Follows.pure (word :: rest) w).bind_of_ok fun argv w₁ h => ?_
      cases h
      exact hspawn.bind fun _ => .pure _

theorem unmoved_execNoExit (hlog : ∀ words, command? data = some words → w.runsLog words = true → hidden words = true)
    (c : Context) (index : Nat) : Action.Unmoved hidden (execNoExit c index data) w := by
  refine .of_matches fun w' h => ?_
  have hmatches := (unmoved_exec hlog c index .execNoExit).matches_of h
  unfold execNoExit
  generalize exec c index .execNoExit data w = r at hmatches ⊢
  generalize exec c index .execNoExit data w' = r' at hmatches ⊢
  cases hmatches with
  | ok h => exact .ok h
  | @error e w₁ w₁' h =>
    cases e with
    | step f =>
      -- The fault is the same, so that it is a warning in both runs or in neither.
      dsimp only
      cases f.cause with
      | child => exact .ok (h.say _)
      | _ => exact .error h
    | _ => exact .error h

/-! ### Directives -/

theorem unmoved_path (data : Text) (s : Session) : Run.Unmoved hidden (path data) s := by
  refine .of_matches fun s' h => ?_
  have htarget : target data s' = target data s := by rw [target, target, h.context, h.world.files.homes]
  rw [path_apply, path_apply, htarget, h.world.files.homes]
  split
  · exact .error h
  · exact .ok h

theorem unmoved_cd (index : Nat) (data : Text) (s : Session) : Run.Unmoved hidden (cd index data) s := by
  refine (unmoved_path data s).bind fun p s => (Run.unmoved_inform _ s).bind fun _ s => ?_
  refine Follows.get_bind ?_ fun s' h => by
    dsimp only
    rw [(Session.Louder.world h).files.isDirectory_eq, (Session.Louder.world h).files.isDenied_eq]
  refine (unmoved_outside (steady_orFault p _ _)).bind fun there s => ?_
  dsimp only
  refine Follows.guard ((unmoved_outside (steady_resolve (fun _ _ h => Louder.files h) p _)).bind fun cwd s => ?_)
  exact (unmoved_change _ s).bind fun _ => Run.unmoved_inform _

theorem unmoved_exportVar (index : Nat) (data : Text) (s : Session) : Run.Unmoved hidden (exportVar index data) s := by
  unfold exportVar
  dsimp only
  exact Follows.guard ((Run.unmoved_inform _ s).bind fun _ => unmoved_change _)

theorem unmoved_check {test : Files → Path → Except FileError Bool}
    (htest : ∀ {files files' : Files}, files.Like files' → ∀ p, test files' p = test files p) (index : Nat) (d : Directive)
    (data : Text) (bad : Bool) (cause : Text → StepCause) (s : Session) :
    Run.Unmoved hidden (check index d data test bad cause) s := by
  refine (unmoved_path data s).bind fun p s => ?_
  refine Follows.get_bind ?_ fun s' h => by rw [htest (Session.Louder.world h).files]
  refine (unmoved_outside (steady_orFault p _ _)).bind fun there s => ?_
  split
  · exact .throw _ s
  · exact .pure _ s

theorem unmoved_takeExport (index : Nat) (p : Text × Text) (s : Session) : Run.Unmoved hidden (takeExport index p) s :=
  (Run.unmoved_inform _ s).bind fun _ => unmoved_change _

theorem unmoved_script (hlog : ∀ words w, launch? .script data s = some (words, w) → w.runsLog words = true →
    hidden words = true) (index : Nat) : Run.Unmoved hidden (script index data) s := by
  refine unmoved_context ((unmoved_outside (Script.unmoved_during fun p w hcreate => ?_)).bind fun result s => ?_)
  · refine unmoved_spawn (fun _ hruns => hlog [p.toText] w ?_ ?_) _ _ _ _
    · rw [launch?, hcreate]
    · rwa [runsLog_say] at hruns
  · exact Follows.forM _ (unmoved_takeExport index) s

/-- However much is shown, a directive does the same, unless it starts the log as a program that can be compared. -/
theorem unmoved_perform (hlog : ∀ words w, launch? d data s = some (words, w) → w.runsLog words = true →
    hidden words = true) (index : Nat) : Run.Unmoved hidden (perform index d data) s := by
  have hdone : ∀ {x : Run Unit}, Run.Unmoved hidden x s → Run.Unmoved hidden (do x; return .ok : Run Status) s := fun hx =>
    hx.bind fun _ => .pure _
  cases d with
  | cd => exact hdone (unmoved_cd index data s)
  | exportVar => exact hdone (unmoved_exportVar index data s)
  | exec =>
    refine unmoved_context (hdone (unmoved_outside (unmoved_exec (fun words hwords => hlog words s.world ?_) _ _ _)))
    rw [launch?, hwords, Option.map_some]
  | execNoExit =>
    refine unmoved_context (unmoved_outside (unmoved_execNoExit (fun words hwords => hlog words s.world ?_) _ _))
    rw [launch?, hwords, Option.map_some]
  | info => exact hdone (unmoved_outside (unmoved_say _ _))
  | mustExistDir => exact hdone (unmoved_check Files.Like.isDirectory_eq _ _ _ _ _ s)
  | mustExistFile => exact hdone (unmoved_check Files.Like.isFile_eq _ _ _ _ _ s)
  | mustNotExistDir => exact hdone (unmoved_check Files.Like.isDirectory_eq _ _ _ _ _ s)
  | mustNotExistFile => exact hdone (unmoved_check Files.Like.isFile_eq _ _ _ _ _ s)
  | script => exact hdone (unmoved_script hlog index)

/-! ### Steps -/

theorem unmoved_finish (index : Nat) (step : Step) (data : Text) (start : Nat) (status : Status) (s : Session) :
    Run.Unmoved hidden (finish index step data start status) s := by
  refine .of_matches fun s' h => ?_
  rw [finish_apply, finish_apply, h.world.clock]
  exact .ok ⟨h.world.say _, h.context⟩

theorem unmoved_run {step : Step} (hlog : ∀ words w, launch? step.directive (text step s) (started index step s) =
    some (words, w) → w.runsLog words = true → hidden words = true) : Run.Unmoved hidden (run index step) s := by
  refine .of_matches fun s' h => ?_
  have htext : text step s' = text step s := by rw [text, text, h.context]
  have hnotice : startNotice index step s' = startNotice index step s := by
    rw [startNotice, startNotice, htext, h.context]
  have hstarted : Session.Louder hidden (started index step s) (started index step s') := by
    refine ⟨?_, h.context⟩
    rw [started, started, hnotice]
    exact h.world.say _
  rw [run_apply, run_apply, htext, hstarted.world.clock]
  exact ((unmoved_perform hlog index).bind fun status => unmoved_finish index step _ _ status).matches_of hstarted

end Step

/-! ### Runs -/

namespace Visit

/-- The words of the command a step starts, and the world it is started in, up to what is said. -/
def launch? (v : Visit) : Option (List Text × World) :=
  Step.launch? v.step.directive v.text (Step.started v.index v.step v.before)

/-- Whether a step starts the command with the given words, and its program is the log. -/
def runsLog (v : Visit) (argv : List Text) : Bool := v.launch?.any fun l => l.1 == argv && l.2.runsLog argv

end Visit

namespace Step

theorem unmoved_runFrom {index : Nat} {steps : List Step}
    (hlog : ∀ v ∈ visits index steps s, ∀ argv, v.runsLog argv = true → hidden argv = true) :
    Run.Unmoved hidden (runFrom index steps) s := by
  induction steps generalizing index s with
  | nil => exact .pure _ s
  | cons step rest ih =>
    have hstep : ∀ words w, launch? step.directive (text step s) (started index step s) = some (words, w) →
        w.runsLog words = true → hidden words = true := by
      intro words w hlaunch hruns
      refine hlog ⟨index, step, s⟩ List.mem_cons_self words ?_
      have hlaunch' : (⟨index, step, s⟩ : Visit).launch? = some (words, w) := hlaunch
      rw [Visit.runsLog, hlaunch']
      simp [hruns]
    -- The steps after the first one are visits of the run only if it ends well.
    refine (unmoved_run hstep).bind_of_ok fun result s₁ hrun => ?_
    refine (ih fun v hv => hlog v ?_).bind fun results => .pure _
    rw [visits_of_ok hrun]
    exact List.mem_cons_of_mem _ hv

end Step

theorem Step.noNewLog_run (index : Nat) (step : Step) : Leads (Session.Outside NoNewLog) (run index step) :=
  leads_run (fun argv cwd env => Command.noNewLog_run argv cwd env false) index step

/-- Without a log no program is the log. -/
theorem Visit.runsLog_eq_false {index : Nat} {steps : List Step} (hs : s.world.logPlace = none) {v : Visit}
    (hv : v ∈ visits index steps s) (argv : List Text) : v.runsLog argv = false := by
  have hbefore : s.Outside NoNewLog v.before := visits_outside Step.noNewLog_run hv
  have hstarted : NoNewLog s.world (Step.started v.index v.step v.before).world :=
    Frame.trans hbefore (Step.bears_started (R := NoNewLog) v.index v.step v.before)
  have hlaunched : ∀ words w, v.launch? = some (words, w) → w.logPlace = none := by
    intro words w hlaunch
    exact NoNewLog.eq_none (Frame.trans hstarted (Step.launch?_outside hlaunch)) hs
  rw [Visit.runsLog]
  cases hlaunch : v.launch? with
  | none => rfl
  | some l => rw [Option.any_some, World.runsLog_eq_false (hlaunched l.1 l.2 hlaunch), Bool.and_false]

/-- Whether the program of the command with the given words is the log in one of the visits. -/
def startsLog (vs : List Visit) (argv : List Text) : Bool := vs.any (·.runsLog argv)

/-- How the ends of two runs of the same visits belong together, the second one louder: what the visits show has been
    written since the run began, and if no log is kept, the files and the starts are the same. -/
structure World.EndAlike (vs : List Visit) (w₀ w w' : World) : Prop where
  louder : Louder (startsLog vs) w w'
  shown : w₀.log ++ (vs.flatMap Visit.echoed).map Event.out <+ w.log
  unlogged : w₀.logPlace = none → w'.starts = w.starts ∧ w'.files = w.files

theorem World.EndAlike.before {vs : List Visit} {w₀ w₁ w w' : World} (h : EndAlike vs w₁ w w') (hlog : w₀.log <+ w₁.log)
    (hplace : w₁.logPlace = w₀.logPlace) : EndAlike vs w₀ w w' where
  louder := h.louder
  shown := (hlog.append (List.Sublist.refl _)).trans h.shown
  unlogged hunlogged := h.unlogged (hplace.trans hunlogged)

namespace Step

/-- However much is shown, a run of steps ends in the same way. -/
theorem runAll_alike {steps : List Step} (h : s.Louder (startsLog (visits 1 steps s)) s') :
    outcome (runAll steps s') = outcome (runAll steps s) ∧
      (final (runAll steps s')).context = (final (runAll steps s)).context ∧
      EndAlike (visits 1 steps s) s.world (final (runAll steps s)).world (final (runAll steps s')).world := by
  have hmatches := (unmoved_runFrom fun v hv argv hruns => List.any_eq_true.mpr ⟨v, hv, hruns⟩).matches_of h
  have hends : Session.Louder (startsLog (visits 1 steps s)) (final (runAll steps s)) (final (runAll steps s')) :=
    hmatches.final_states
  refine ⟨hmatches.outcome_eq, hends.context, hends.world, ?_, fun hlog => ?_⟩
  · obtain ⟨written, hwritten, hshown⟩ := (runFrom_echoes 1 steps s).sublist
    rw [runAll, hwritten]
    exact (List.Sublist.refl _).append hshown
  · have hunlogged : s.Outside NoNewLog (final (runAll steps s)) := leads_runFrom noNewLog_run 1 steps s
    refine hends.world.eq_of_unlogged (hunlogged.eq_none hlog) fun argv => List.any_eq_false.mpr fun v hv => ?_
    rw [Visit.runsLog_eq_false hlog hv]
    exact Bool.false_ne_true

end Step

end Runbook
