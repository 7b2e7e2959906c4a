import Runbook.Proofs.Path.Direct
import Runbook.Proofs.Step
import Runbook.Proofs.Telling
import Runbook.Proofs.Words.Written
import Runbook.Run

/-! # One command, run by a step

Running one command starts one child, shows the lines it prints and does no more than tell otherwise (`World.Runs`); it
ends as the child does (`Child.Ends`). A recipe whose only step runs a command comes to just that (`Recipe.run_ran`). -/

namespace Runbook

open Effect World

variable {child : Child} {argv words : List Text} {cwd data : Text} {env : Bindings} {w w' : World} {α β : Type}
  {index : Nat} {d : Directive} {display : Text} {c : Context} {r : CommandResult} {e : Fault}

/-! ### How a child ends -/

namespace Child

/-- Whether a child starts and ends well. -/
def endsWell (c : Child) : Bool := c.refusal.isNone && c.exit == some 0

/-- Whether a child starts and the one who waits for it is interrupted. -/
def interrupts (c : Child) : Bool := c.refusal.isNone && c.exit.isNone

theorem interrupts_eq_false (h : child.endsWell = true) : child.interrupts = false := by
  rw [endsWell, Bool.and_eq_true, beq_iff_eq] at h
  rw [interrupts, h.2]
  exact Bool.and_false _

theorem endsWell_eq_false (h : child.interrupts = true) : child.endsWell = false :=
  Bool.eq_false_iff.mpr fun hwell => by simp [interrupts_eq_false hwell] at h

theorem result_eq_ok (h : child.result argv = .ok r) :
    child.interrupts = false ∧ r.ok = child.endsWell ∧ (r.startError.isSome || !r.ok) = !child.endsWell := by
  unfold result at h
  unfold interrupts endsWell
  cases hrefusal : child.refusal with
  | some e =>
    rw [hrefusal] at h
    cases h
    exact ⟨rfl, rfl, rfl⟩
  | none =>
    cases hexit : child.exit with
    | none =>
      rw [hrefusal, hexit] at h
      cases h
    | some code =>
      rw [hrefusal, hexit] at h
      cases h
      exact ⟨rfl, rfl, rfl⟩

theorem result_code (h : child.result argv = .ok r) :
    r.code = CommandResult.notStarted ∨ child.exit = some r.code := by
  unfold result at h
  split at h <;> cases h
  · exact Or.inl rfl
  · exact Or.inr ‹_›

theorem result_eq_error (h : child.result argv = .error e) : child.interrupts = true ∧ e = .interrupted := by
  unfold result at h
  unfold interrupts
  cases hrefusal : child.refusal with
  | some e =>
    rw [hrefusal] at h
    cases h
  | none =>
    cases hexit : child.exit with
    | none =>
      rw [hrefusal, hexit] at h
      cases h
      exact ⟨rfl, rfl⟩
    | some code =>
      rw [hrefusal, hexit] at h
      cases h

/-- What is run by steps ends as the child does. -/
inductive Ends (child : Child) : Except Fault α → Prop
  | well (h : child.endsWell = true) (a : α) : Ends child (.ok a)
  | badly (h : child.endsWell = false) (h' : child.interrupts = false) (f : StepFailure) : Ends child (.error (.step f))
  | interrupted (h : child.interrupts = true) : Ends child (.error .interrupted)

theorem Ends.of_ok {a : α} (h : child.Ends (.ok a)) (b : β) : child.Ends (.ok b) := by
  cases h with
  | well h _ => exact .well h b

theorem Ends.of_error (h : child.Ends (.error e : Except Fault α)) : child.Ends (.error e : Except Fault β) := by
  cases h with
  | badly h h' f => exact .badly h h' f
  | interrupted h => exact .interrupted h

end Child

/-! ### What running it changes -/

/-- Between the worlds a child has been started, what it prints has been shown, and otherwise something may have been
    told. -/
structure World.Runs (child : Child) (argv : List Text) (cwd : Text) (env : Bindings) (w w' : World) : Prop where
  starts : ∃ program, Starts [⟨argv, cwd, env, program⟩] w w'
  echoes : Echoes child.echoed w w'

/-- From the world the child has been run and has ended. -/
structure World.Ran (child : Child) (argv : List Text) (cwd : Text) (env : Bindings) (w : World)
    (r : EStateM.Result Fault World α) : Prop where
  runs : Runs child argv cwd env w (final r)
  ends : child.Ends (outcome r)

namespace World

theorem Runs.trans_tells {w'' : World} (h : Runs child argv cwd env w w') (h' : Tells w' w'') :
    Runs child argv cwd env w w'' := by
  obtain ⟨program, hstarts⟩ := h.starts
  exact ⟨⟨program, hstarts.trans_nil h'.said.starts_nil⟩, h.echoes.trans_nil h'.echoes⟩

theorem Runs.after {w'' : World} (hstarts : Starts [] w w') (hechoes : Echoes [] w w')
    (h : Runs child argv cwd env w' w'') : Runs child argv cwd env w w'' := by
  obtain ⟨program, hstarted⟩ := h.starts
  exact ⟨⟨program, hstarts.trans hstarted⟩, hechoes.trans h.echoes⟩

theorem Runs.after_tells {w'' : World} (h : Tells w w') (h' : Runs child argv cwd env w' w'') :
    Runs child argv cwd env w w'' := h'.after h.said.starts_nil h.echoes

theorem Ran.after {r : EStateM.Result Fault World α} (h : Tells w w') (hr : Ran child argv cwd env w' r) :
    Ran child argv cwd env w r := ⟨hr.runs.after_tells h, hr.ends⟩

/-- What is told afterwards makes no difference. -/
theorem Ran.bind {x : Action α} {f : α → Action β} (h : Ran child argv cwd env w (x w))
    (hf : ∀ a w, ∃ b w', f a w = .ok b w' ∧ Tells w w') : Ran child argv cwd env w ((x >>= f) w) := by
  obtain ⟨hruns, hends⟩ := h
  cases hx : x w with
  | error e w₁ =>
    rw [hx] at hruns hends
    rw [bind_of_error hx]
    exact ⟨hruns, hends.of_error⟩
  | ok a w₁ =>
    rw [hx] at hruns hends
    obtain ⟨b, w₂, hrun, htells⟩ := hf a w₁
    rw [bind_of_ok hx, hrun]
    exact ⟨hruns.trans_tells htells, hends.of_ok b⟩

end World

/-! ### Commands of a step -/

namespace Step

theorem tells_commandAnnounced (c : Context) (argv : List Text) (w : World) : Tells w (commandAnnounced c argv w) :=
  Frame.trans (tells_say w rfl) (tells_say _ rfl)

theorem report_apply (index : Nat) (d : Directive) (display : Text) (r : CommandResult) (w : World) :
    Tells w (final (report index d display r w)) ∧ outcome (report index d display r w) =
      if r.startError.isSome || !r.ok then .error (failure index d (.child r.startError display r.code)) else .ok r := by
  rw [report, Action.inform_bind]
  split
  · exact ⟨tells_say w rfl, rfl⟩
  · exact ⟨Frame.trans (tells_say w rfl) (tells_say _ rfl), rfl⟩

theorem spawn_ran (h : Command.objection? argv c.cwd.toText c.env = none) (index : Nat) (d : Directive)
    (display : Text) (w : World) : Ran (w.children.headD .silent) argv c.cwd.toText c.env w
      (spawn c index d argv display w) := by
  have htold := tells_commandAnnounced c argv w
  have hruns : Runs _ argv c.cwd.toText c.env _ _ :=
    ⟨⟨_, Command.run_starts h false (commandAnnounced c argv w)⟩, Command.run_echoes h _⟩
  have houtcome := Command.run_outcome h false (commandAnnounced c argv w)
  rw [← htold.said.children, spawn_apply]
  refine Ran.after htold ?_
  cases hrun : Command.run argv c.cwd.toText c.env false (commandAnnounced c argv w) with
  | error e w₁ =>
    rw [hrun] at hruns houtcome
    rw [bind_of_error hrun]
    obtain ⟨hinterrupts, rfl⟩ := Child.result_eq_error houtcome.symm
    exact ⟨hruns, .interrupted hinterrupts⟩
  | ok r w₁ =>
    rw [hrun] at hruns houtcome
    rw [bind_of_ok hrun]
    obtain ⟨hinterrupts, -, hfails⟩ := Child.result_eq_ok houtcome.symm
    obtain ⟨htells, hreport⟩ := report_apply index d display r w₁
    refine ⟨hruns.trans_tells htells, ?_⟩
    rw [hreport, hfails]
    cases hwell : (commandAnnounced c argv w).children.headD .silent |>.endsWell with
    | true => exact .well hwell r
    | false => exact .badly hwell hinterrupts _

/-- A step that runs written words runs the words. -/
theorem exec_ran (hwords : words ≠ []) (h : Command.objection? words c.cwd.toText c.env = none) (index : Nat)
    (d : Directive) (w : World) : Ran (w.children.headD .silent) words c.cwd.toText c.env w
      (exec c index d (Words.join words) w) := by
  have hargv : Step.argv index d (Words.join words) w = .ok words w := by
    rw [Step.argv, Words.split, Words.scan_join]
    cases words with
    | nil => exact absurd rfl hwords
    | cons word words => rfl
  rw [exec, bind_of_ok hargv]
  exact (spawn_ran h index d _ w).bind fun _ w => ⟨(), w, rfl, Frame.refl w⟩

theorem perform_exec_of_ok {u : Unit} (h : exec c index .exec data w = .ok u w') :
    perform index .exec data ⟨w, c⟩ = .ok .ok ⟨w', c⟩ := by
  have hexec : (liftM (exec c index .exec data) : Run Unit) ⟨w, c⟩ = .ok u ⟨w', c⟩ := by
    rw [Run.outside_apply, Run.outside, h]
  unfold perform
  simp only [Run.context_bind]
  exact bind_of_ok hexec

theorem perform_exec_of_error (h : exec c index .exec data w = .error e w') :
    perform index .exec data ⟨w, c⟩ = .error e ⟨w', c⟩ := by
  have hexec : (liftM (exec c index .exec data) : Run Unit) ⟨w, c⟩ = .error e ⟨w', c⟩ := by
    rw [Run.outside_apply, Run.outside, h]
  unfold perform
  simp only [Run.context_bind]
  exact bind_of_error hexec

/-- So does a run of a step that is alone. -/
theorem runAll_ran (hwords : words ≠ []) (h : Command.objection? words c.cwd.toText c.env = none)
    (hvalues : c.values = []) (source : Option Line) (w : World) :
    Ran (w.children.headD .silent) words c.cwd.toText c.env w
      (Recipe.inContext c (runAll [⟨.exec, Words.join words, source⟩]) w) := by
  generalize hstep : (⟨.exec, Words.join words, source⟩ : Step) = step
  have htext : text step ⟨w, c⟩ = Words.join words := by
    rw [text, hvalues, ← hstep]
    rfl
  have hdirective : step.directive = .exec := hstep ▸ rfl
  obtain ⟨w₁, hstarted⟩ : ∃ w₁, started 1 step ⟨w, c⟩ = ⟨w₁, c⟩ := ⟨_, rfl⟩
  have htold : Tells w w₁ := by
    have htold : Tells w (started 1 step ⟨w, c⟩).world := tells_say w rfl
    rwa [hstarted] at htold
  have hrun := run_apply 1 step ⟨w, c⟩
  rw [htext, hdirective, hstarted] at hrun
  have hran := exec_ran hwords h 1 .exec w₁
  rw [← htold.said.children]
  refine Ran.after htold ?_
  unfold Recipe.inContext runAll runFrom
  cases hexec : exec c 1 .exec (Words.join words) w₁ with
  | error e w₂ =>
    rw [hexec] at hran
    rw [bind_of_error (hrun.trans (bind_of_error (perform_exec_of_error hexec)))]
    exact ⟨hran.runs, hran.ends.of_error⟩
  | ok u w₂ =>
    rw [hexec] at hran
    rw [bind_of_ok (hrun.trans ((bind_of_ok (perform_exec_of_ok hexec)).trans (finish_apply ..)))]
    exact ⟨hran.runs.trans_tells (tells_say w₂ rfl), hran.ends.of_ok _⟩

end Step

/-! ### A recipe with such a step -/

theorem Action.resolve_cwd (h : w.files.Direct) : Action.resolve w.files.cwd w = .ok w.files.cwd w := by
  rw [Action.resolve, if_neg (by simpa using h.noNull)]
  show ((get >>= _ : Action Path) w) = _
  rw [get_bind_apply, h.resolve]
  rfl

/-- Where the working directory is given without links, a run starts in it. -/
theorem Context.create_cwd {scriptDir : Text} {dir : Path} (h : w.files.Direct)
    (hhome : w.files.homes.expand? (Path.ofText scriptDir) = some dir) (values env : Bindings) :
    Context.create values scriptDir none env w = .ok ⟨w.files.cwd, env, values, dir, w.host.pid⟩ w := by
  have hexpand : Action.expandHome (Path.ofText scriptDir) w = .ok dir w := by
    rw [Action.expandHome_apply, hhome]
  rw [Context.create, get_bind_apply]
  dsimp only
  rw [bind_of_ok (Action.resolve_cwd h), bind_of_ok hexpand]
  rfl

/-- A recipe without variables whose only step runs a command runs it in the working directory, if no link stands on its
    path. -/
theorem Recipe.run_ran {r : Recipe} {scriptDir : Text} {dir : Path} {source : Option Line} (hdefaults : r.defaults = [])
    (hsteps : r.steps = [⟨.exec, Words.join words, source⟩]) (hwords : words ≠ [])
    {env : Bindings} (hstarts : Command.objection? words w.files.cwd.toText env = none) (h : w.files.Direct)
    (hhome : w.files.homes.expand? (Path.ofText scriptDir) = some dir) :
    Ran (w.children.headD .silent) words w.files.cwd.toText env w (r.run [] scriptDir none env w) := by
  have htold : Tells w (w.say (.recipeStarted r.name r.path r.steps.length)) := tells_say w rfl
  have hran := Step.runAll_ran (c := ⟨w.files.cwd, env, [], dir, w.host.pid⟩) hwords hstarts rfl source
    (w.say (.recipeStarted r.name r.path r.steps.length))
  rw [← hsteps, htold.said.children] at hran
  have hrun : r.run [] scriptDir none env w = inContext ⟨w.files.cwd, env, [], dir, w.host.pid⟩ (Step.runAll r.steps)
      (w.say (.recipeStarted r.name r.path r.steps.length)) := by
    have hresolve : Variables.resolve [] [] = .ok [] := by
      have hunset : Variables.unset [] = [] := List.mergeSort_nil
      rw [Variables.resolve, Variables.override]
      dsimp only
      rw [hunset]
      rfl
    have hsorted : Bindings.sorted [] = [] := List.mergeSort_nil
    rw [run, hdefaults, hresolve]
    dsimp only
    rw [hsorted]
    show (Context.create [] scriptDir none env >>= _ : Action (List StepResult)) w = _
    rw [bind_of_ok (Context.create_cwd h hhome [] env)]
    rfl
  rw [hrun]
  exact Ran.after htold hran

end Runbook
