import Runbook.Proofs.Step.Command
import Runbook.Proofs.Step.Echo
import Runbook.Rehearsal

/-! # Commands that may fail

A command that may fail is run like any other, and makes the same of the session. Only a child that is not started or
ends badly is no failure: in its place there is a warning, in the words of the failure (`Step.Excuses`). Main statement:
`Step.execNoExit_like_exec`. -/

namespace Runbook

open Effect World

/-- The session after a warning about a step that has failed. -/
def Session.warned (s : Session) (f : StepFailure) : Session := { s with world := s.world.say (.warning f.message) }

/-! ### Warnings -/

theorem Notice.events_warning (message : Text) (v : Verbosity) : (Notice.warning message).events v =
    if .normal ≤ v then [.err ("[WARNING] " ++ message)] else [] := by
  simp only [events, isShown, threshold, Option.all_some, decide_eq_true_eq]
  rfl

/-- Without a log, what is said changes no file. -/
theorem World.say_files_of_tee {w : World} (h : w.tee = none) (n : Notice) : (w.say n).files = w.files := by
  unfold say
  generalize n.events w.verbosity = events
  induction events generalizing w with
  | nil => rfl
  | cons e events ih =>
    have hwrite : w.write e = { w with log := w.log ++ [e] } := by
      cases w
      cases h
      rfl
    rw [List.foldl_cons, hwrite]
    exact ih h

namespace Step

variable {index : Nat} {d d' : Directive} {data : Text} {c : Context} {s : Session} {w : World} {e : Fault} {α : Type}
  {r r' : EStateM.Result Fault Session Status}

/-- The faults are the same, but that where the first is a failure of the step with the one directive, the second is one
    with the other. -/
inductive Renames (index : Nat) (d d' : Directive) : Fault → Fault → Prop
  | step (cause : StepCause) : Renames index d d' (failure index d cause) (failure index d' cause)
  | other {e : Fault} (h : ∀ f, e ≠ .step f) : Renames index d d' e e

/-- How a step ends that runs a command, and how it ends if the command may fail. -/
inductive Excuses (index : Nat) : EStateM.Result Fault Session Status → EStateM.Result Fault Session Status → Prop
  | well (s : Session) : Excuses index (.ok .ok s) (.ok .ok s)
  /-- A child that cannot be started or ends badly is a warning, in the words of the failure. -/
  | child (startError : Option Text) (command : Text) (code : Int) (s : Session) :
      Excuses index (.error (failure index .exec (.child startError command code)) s)
        (.ok .warning (s.warned ⟨index, .execNoExit, .child startError command code⟩))
  | failed (cause : StepCause) (h : cause.code? = none) (s : Session) :
      Excuses index (.error (failure index .exec cause) s) (.error (failure index .execNoExit cause) s)
  | other {e : Fault} (h : ∀ f, e ≠ .step f) (s : Session) : Excuses index (.error e s) (.error e s)

/-! ### The same command for two directives -/

/-- An effect ends like itself, whatever faults it ends with. -/
theorem runsAlike_self {E : Fault → Fault → Prop} {x : Action α} (h : Raises (fun e => E e e) x) :
    RunsAlike E Eq Eq x x := by
  rintro w _ rfl
  cases hx : x w with
  | ok a w' => exact .ok rfl rfl
  | error e w' => exact .error (h w e w' hx) rfl

theorem raises_run (argv : List Text) (cwd : Text) (env : Bindings) :
    Raises (fun e => ∀ f, e ≠ .step f) (Command.run argv cwd env false) := by
  intro w e w' hrun
  cases hobjection : Command.objection? argv cwd env with
  | some e' =>
    rw [Command.run_of_objection hobjection] at hrun
    cases hrun
    rcases Command.objection?_eq_some hobjection with rfl | rfl <;> exact fun f => nofun
  | none =>
    have houtcome := Command.run_outcome hobjection false w
    rw [hrun] at houtcome
    obtain ⟨-, rfl⟩ := Child.result_eq_error houtcome.symm
    exact fun f => nofun

theorem argv_alike (d d' : Directive) (index : Nat) (data : Text) :
    RunsAlike (Renames index d d') Eq Eq (argv index d data) (argv index d' data) := by
  unfold argv
  split
  · exact .throw (.step _)
  · exact .throw (.step _)
  · exact .pure rfl

theorem report_alike (d d' : Directive) (index : Nat) (display : Text) (result : CommandResult) :
    RunsAlike (Renames index d d') Eq Eq (report index d display result) (report index d' display result) := by
  rintro w _ rfl
  rw [report, report, Action.inform_bind, Action.inform_bind]
  split
  · exact .error (.step _) rfl
  · exact .ok rfl rfl

theorem spawn_alike (d d' : Directive) (c : Context) (index : Nat) (argv : List Text) (display : Text) :
    RunsAlike (Renames index d d') Eq Eq (spawn c index d argv display) (spawn c index d' argv display) := by
  rintro w _ rfl
  rw [spawn_apply, spawn_apply]
  refine RunsAlike.bind (runsAlike_self ((raises_run _ _ _).mono fun e h => .other h)) ?_ _ _ rfl
  rintro result _ rfl
  exact report_alike d d' index display result

/-- A command is run in the same way whichever directive it is run for. -/
theorem exec_alike (d d' : Directive) (c : Context) (index : Nat) (data : Text) :
    RunsAlike (Renames index d d') Eq Eq (exec c index d data) (exec c index d' data) := by
  refine (argv_alike d d' index data).bind ?_
  rintro argv _ rfl
  exact (spawn_alike d d' c index argv data).bind fun _ _ _ => .pure rfl

/-! ### What is excused -/

theorem perform_excuses (index : Nat) (data : Text) (s : Session) :
    Excuses index (perform index .exec data s) (perform index .execNoExit data s) := by
  have halike := exec_alike .exec .execNoExit s.context index data s.world s.world rfl
  have hrun : perform index .execNoExit data s = Run.outside (execNoExit s.context index data) s := rfl
  rw [hrun, Run.outside, execNoExit]
  generalize hr : exec s.context index .exec data s.world = r at halike
  generalize exec s.context index .execNoExit data s.world = r' at halike
  cases halike with
  | ok _ hw =>
    rw [perform_exec_of_ok hr, hw]
    exact .well _
  | @error e _ _ _ he hw =>
    rw [perform_exec_of_error hr, hw]
    cases he with
    | step cause =>
      cases cause with
      | child startError command code => exact .child _ _ _ _
      | _ => exact .failed _ rfl _
    | other h =>
      cases e with
      | step f => exact absurd rfl (h f)
      | _ => exact .other h _

namespace Excuses

variable (h : Excuses index r r')
include h

theorem context_eq : (final r').context = (final r).context := by
  cases h <;> rfl

theorem tells : Tells (final r).world (final r').world := by
  cases h with
  | child => exact tells_say _ rfl
  | _ => exact Frame.refl _

theorem files_eq (hlog : (final r).world.tee = none) : (final r').world.files = (final r).world.files := by
  cases h with
  | child => exact say_files_of_tee hlog _
  | _ => rfl

/-- What is written for a child is the text of its failure, from verbosity 1 on. -/
theorem log_eq {startError : Option Text} {command : Text} {code : Int}
    (hfails : outcome r = .error (failure index .exec (.child startError command code))) :
    (final r').world.log = (final r).world.log ++ if Verbosity.normal ≤ (final r).world.verbosity then
      [.err ("[WARNING] " ++ StepFailure.message ⟨index, .execNoExit, .child startError command code⟩)] else [] := by
  cases h with
  | well => cases hfails
  | child =>
    cases hfails
    exact (say_log _ _).trans (congrArg _ (Notice.events_warning _ _))
  | failed _ hcause =>
    cases hfails
    cases hcause
  | other hother =>
    cases hfails
    exact absurd rfl (hother _)

end Excuses

/-- A command that may fail does what any other does: it is started in the same way or not at all, what its child prints is
    shown, the context stays, and the files are the same at the end. It ends well, or with a fault, as any other would, but
    for a child that cannot be started or ends badly: then it ends with a warning, which is the text of the failure and is
    written from verbosity 1 on, also to the log if one is kept, and to no other file. -/
theorem execNoExit_like_exec (index : Nat) (data : Text) (s : Session) :
    let r := perform index .exec data s
    let r' := perform index .execNoExit data s
    Excuses index r r' ∧
    (∀ startError command code, outcome r = .error (failure index .exec (.child startError command code)) →
      (final r').world.log = (final r).world.log ++ if Verbosity.normal ≤ s.world.verbosity then
        [.err ("[WARNING] " ++ StepFailure.message ⟨index, .execNoExit, .child startError command code⟩)] else []) ∧
    (∃ new, Attempts s.context (command? data) new ∧ ∀ t ∈ [final r, final r'], t.context = s.context ∧
      s.Starts new t ∧ Echoes ((s.world.children.take new.length).flatMap Child.echoed) s.world t.world) ∧
    (final r).world.files.tree.Agrees (final r).world.logPlace (final r').world.files.tree ∧
    (s.world.tee = none → (final r').world.files = (final r).world.files) := by
  intro r r'
  have hexcuses : Excuses index r r' := perform_excuses index data s
  obtain ⟨new, hstarts, hattempts⟩ := perform_starts index .exec data s
  obtain ⟨new', hstarts', hechoes⟩ : s.Outside Shows (final r) :=
    leads_perform Command.shows_run (by decide) index data s
  obtain rfl : new' = new := List.append_cancel_left (hstarts'.starts.symm.trans hstarts.starts)
  have hcontext : (final r).context = s.context := by
    show (final (perform index .exec data s)).context = s.context
    unfold perform
    simp only [Run.context_bind, final_bind_pure, Run.final_outside]
  refine ⟨hexcuses, fun startError command code hfails => ?_, ⟨new', hattempts, ?_⟩, hexcuses.tells.notes.tree,
    fun hlog => hexcuses.files_eq ?_⟩
  · rw [hexcuses.log_eq hfails, hechoes.verbosity]
  · rw [List.forall_mem_cons, List.forall_mem_singleton]
    exact ⟨⟨hcontext, hstarts, hechoes⟩, hexcuses.context_eq.trans hcontext,
      hstarts.trans_nil hexcuses.tells.said.starts_nil, hechoes.trans_nil hexcuses.tells.echoes⟩
  · have hnoLog : s.Outside NoNewLog (final r) :=
      leads_perform (fun argv cwd env => Command.noNewLog_run argv cwd env false) (by decide) index data s
    exact Option.map_eq_none_iff.mp (NoNewLog.eq_none hnoLog (Option.map_eq_none_iff.mpr hlog))

/-- A session with a log, in which the next child prints a line and ends with code 3. -/
def taped : Session where
  world := { Rehearsal.world "/w" [] [("/w/log", [])] with
    verbosity := .normal
    children := [⟨none, Utf8.encode "x\n", 0, [], some 3⟩]
    tee := some (.start ["w", "log"]) }
  context := ⟨⟨.root, ["w"]⟩, [], [], ⟨.root, ["w"]⟩, 7⟩

/-- The warning is in the log, which is a file. -/
theorem execNoExit_unlike_exec : (final (perform 1 .execNoExit "false" taped)).world.files.tree ≠
    (final (perform 1 .exec "false" taped)).world.files.tree := by
  have hlog : (final (perform 1 .execNoExit "false" taped)).world.files.tree.node? ["w", "log"] ≠
      (final (perform 1 .exec "false" taped)).world.files.tree.node? ["w", "log"] := by decide +kernel
  exact fun htree => hlog (by rw [htree])

theorem execNoExit_like_exec_taped :
    let r := perform 1 .exec "false" taped
    let r' := perform 1 .execNoExit "false" taped
    outcome r = .error (failure 1 .exec (.child none "false" 3)) ∧ Excuses 1 r r' ∧
      (final r').world.log =
        (final r).world.log ++ [.err "[WARNING] step 1 (exec-no-exit) failed (exit=3): command failed: false"] ∧
      (final (perform 1 .execNoExit "false" { taped with world.tee := none })).world.files =
        (final (perform 1 .exec "false" { taped with world.tee := none })).world.files := by
  intro r r'
  have hfails : outcome r = .error (failure 1 .exec (.child none "false" 3)) := by decide +kernel
  obtain ⟨hexcuses, hlog, -⟩ := execNoExit_like_exec 1 "false" taped
  obtain ⟨-, -, -, -, hfiles⟩ := execNoExit_like_exec 1 "false" { taped with world.tee := none }
  exact ⟨hfails, hexcuses, hlog none "false" 3 hfails, hfiles rfl⟩

end Step

end Runbook
