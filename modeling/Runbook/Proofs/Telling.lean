import Runbook.Invocation
import Runbook.Proofs.Include.Stack
import Runbook.Proofs.Log

/-! # What is told and what is echoed

Of what is said, some is told by the program itself, and some is what the user asked to see, such as the lines a child
prints (`World.Echoes`). Telling changes nothing else (`World.Tells`). A command that is run echoes what its child prints
(`Command.run_echoes`) and comes to what waiting for its child comes to (`Command.run_outcome`). -/

namespace Runbook

open Effect Include

variable {w w' w'' : World} {lines lines' : List Text} {α : Type}

namespace World

/-- Between the worlds some notices have been said, and nothing else has been written; what the user asked to see with
    them are the lines. -/
structure Echoes (lines : List Text) (w w' : World) : Prop where
  verbosity : w'.verbosity = w.verbosity
  log : ∃ notices : List Notice, notices.filterMap Notice.echo? = lines ∧
    w'.log = w.log ++ notices.flatMap (·.events w.verbosity)

theorem Echoes.of_log (hverbosity : w'.verbosity = w.verbosity) (hlog : w'.log = w.log) : Echoes [] w w' :=
  ⟨hverbosity, [], rfl, by simp [hlog]⟩

theorem Echoes.trans (h : Echoes lines w w') (h' : Echoes lines' w' w'') : Echoes (lines ++ lines') w w'' := by
  obtain ⟨notices, hlines, hlog⟩ := h.log
  obtain ⟨notices', hlines', hlog'⟩ := h'.log
  refine ⟨h'.verbosity.trans h.verbosity, notices ++ notices', ?_, ?_⟩
  · rw [List.filterMap_append, hlines, hlines']
  · rw [hlog', hlog, h.verbosity, List.flatMap_append, List.append_assoc]

instance : Frame (Echoes []) where
  refl _ := .of_log rfl rfl
  trans h h' := h.trans h'

theorem Echoes.trans_nil (h : Echoes lines w w') (h' : Echoes [] w' w'') : Echoes lines w w'' := by
  simpa using h.trans h'

theorem say_log (w : World) (n : Notice) : (w.say n).log = w.log ++ n.events w.verbosity := by
  unfold say
  generalize n.events w.verbosity = events
  induction events generalizing w with
  | nil => simp
  | cons e events ih => rw [List.foldl_cons, ih, write_log, List.append_assoc, List.singleton_append]

theorem echoes_say (w : World) (n : Notice) : Echoes n.echo?.toList w (w.say n) := by
  refine ⟨(says_say w n).verbosity, [n], ?_, ?_⟩
  · cases h : n.echo? <;> simp [h]
  · rw [say_log, List.flatMap_singleton]

instance : BearsTelling (Echoes []) where
  tell w n h := by simpa [h] using echoes_say w n

instance : BearsFiles (Echoes []) where
  tree _ _ _ := .of_log rfl rfl
  count _ _ := .of_log rfl rfl

/-- Between the worlds the program has told something, and nothing else has happened. -/
structure Tells (w w' : World) : Prop where
  said : Says w w'
  notes : Notes w w'
  echoes : Echoes [] w w'
  kinds : w'.files.tree.entries.map (fun e => e.2.kind) = w.files.tree.entries.map fun e => e.2.kind

instance : Frame Tells where
  refl w := ⟨Frame.refl w, Frame.refl w, Frame.refl w, rfl⟩
  trans h h' := ⟨h.said.trans h'.said, Frame.trans h.notes h'.notes, h.echoes.trans h'.echoes, h'.kinds.trans h.kinds⟩

theorem Tells.depth_eq (h : Tells w w') : depth w'.files = depth w.files := depth_of_kinds h.kinds

theorem say_kinds (w : World) (n : Notice) :
    (w.say n).files.tree.entries.map (fun e => e.2.kind) = w.files.tree.entries.map fun e => e.2.kind := by
  unfold say
  generalize n.events w.verbosity = events
  induction events generalizing w with
  | nil => rfl
  | cons e events ih =>
    rw [List.foldl_cons, ih]
    unfold write
    cases w.tee with
    | none => rfl
    | some journal => exact Tree.Like.journal_kinds journal w.files.tree _

theorem tells_say (w : World) {n : Notice} (h : n.echo? = none) : Tells w (w.say n) :=
  ⟨says_say w n, notes_say w n, BearsTelling.tell w h, say_kinds w n⟩

end World

namespace Action

open World

theorem forM_echoes (lines : List Text) (w : World) :
    ∃ w', (lines.forM fun line => say (.echo line)) w = .ok () w' ∧ Echoes lines w w' := by
  induction lines generalizing w with
  | nil => exact ⟨w, rfl, .of_log rfl rfl⟩
  | cons line lines ih =>
    obtain ⟨w', hrun, hechoes⟩ := ih (w.say (.echo line))
    exact ⟨w', hrun, (echoes_say w (.echo line)).trans hechoes⟩

theorem forM_tells {β : Type} (f : β → Text) (l : List β) (w : World) :
    ∃ w', (l.forM fun b => inform (f b)) w = .ok () w' ∧ Tells w w' := by
  induction l generalizing w with
  | nil => exact ⟨w, rfl, Frame.refl w⟩
  | cons b l ih =>
    obtain ⟨w', hrun, htells⟩ := ih (w.say (.info (f b)))
    exact ⟨w', hrun, Frame.trans (tells_say w rfl) htells⟩

end Action

namespace Invocation

open World

theorem describe_tells (i : Invocation) (w : World) : ∃ w', i.describe w = .ok () w' ∧ Tells w w' := by
  obtain ⟨w', hrun, htells⟩ := Action.forM_tells (fun p : Text × Text => "   " ++ Text.padRight 9 p.1 ++ ": " ++ p.2)
    (i.facts w.host w.files.cwd.toText) (w.say (.info "context"))
  exact ⟨w', hrun, Frame.trans (tells_say w rfl) htells⟩

/-- The environment of the children of an invocation. -/
def childEnv (i : Invocation) (w : World) : Bindings := w.env.update (i.environment w.host w.files.cwd.toText)

theorem childEnv_tells (h : Tells w w') (i : Invocation) : i.childEnv w' = i.childEnv w := by
  rw [childEnv, childEnv, h.said.env, h.said.host, h.said.files.cwd]

theorem childEnvironment_tells (i : Invocation) (w : World) :
    ∃ w', i.childEnvironment w = .ok (i.childEnv w) w' ∧ Tells w w' := by
  obtain ⟨w', hrun, htells⟩ := Action.forM_tells (fun p : Text × Text => "built-in env var " ++ p.1 ++ "=" ++ p.2)
    (i.environment w.host w.files.cwd.toText) w
  refine ⟨w', ?_, htells⟩
  rw [childEnvironment, get_bind_apply, bind_of_ok hrun]
  rfl

end Invocation

/-! ### Children -/

namespace Child

/-- The lines of a child that are shown. -/
def echoed (c : Child) : List Text := if c.refusal.isSome then [] else c.lines

/-- What waiting for a child that has been given some words comes to. -/
def result (c : Child) (argv : List Text) : Except Fault CommandResult :=
  match c.refusal, c.exit with
  | some e, _ => .ok ⟨argv, CommandResult.notStarted, 0, [], some (e.reason ++ ": " ++ argv.headD [])⟩
  | none, none => .error .interrupted
  | none, some code => .ok ⟨argv, code, c.millis, c.lines, none⟩

end Child

namespace Command

open World

variable {argv : List Text} {cwd : Text}

theorem echoes_settle (child : Child) (w : World) : Echoes [] w (final (settle child w)) := by
  have hchanges : ∀ (changes : List Change) (w : World), Echoes [] w (changes.foldl undergo w) := by
    intro changes
    induction changes with
    | nil => exact Frame.refl
    | cons change changes ih =>
      intro w
      have hchange : Echoes [] w (undergo w change) := .of_log rfl rfl
      exact hchange.trans_nil (ih _)
  exact (hchanges child.changes w).trans_nil (.of_log rfl rfl)

theorem await_silent {child : Child} (h : child.refusal = none) (argv : List Text) :
    await argv true child = (do settle child; ending argv child) := await_of_none h argv true

/-- The lines of a child that is heard are echoed, and nothing else is said; then its end is waited for. -/
theorem await_heard {child : Child} (h : child.refusal = none) (argv : List Text) (w : World) :
    ∃ w', Echoes child.lines w w' ∧ w'.log = w.log ++ child.lines.map .out ∧
      await argv false child w = (do settle child; ending argv child : Action CommandResult) w' := by
  obtain ⟨w₁, hrun, hechoes⟩ := Action.forM_echoes child.lines w
  obtain ⟨w₂, hrun', hlog⟩ := Action.forM_echo child.lines w
  cases hrun.symm.trans hrun'
  refine ⟨w₁, hechoes, hlog, ?_⟩
  rw [await_of_none h]
  exact bind_of_ok hrun

theorem await_echoes (argv : List Text) (child : Child) (w : World) :
    Echoes child.echoed w (final (await argv false child w)) := by
  unfold Child.echoed
  cases hrefusal : child.refusal with
  | some e =>
    rw [await_of_some hrefusal]
    exact .of_log rfl rfl
  | none =>
    obtain ⟨w₁, hechoes, -, hawait⟩ := await_heard hrefusal argv w
    rw [hawait]
    unfold ending
    cases child.exit <;> exact hechoes.trans_nil (echoes_settle child w₁)

theorem await_outcome (argv : List Text) (silent : Bool) (child : Child) (w : World) :
    outcome (await argv silent child w) = child.result argv := by
  cases hrefusal : child.refusal with
  | some e =>
    rw [await_of_some hrefusal, Child.result, hrefusal]
    rfl
  | none =>
    have hend : ∀ w₁, outcome ((do settle child; ending argv child : Action CommandResult) w₁) = child.result argv := by
      intro w₁
      have hsettle : settle child w₁ = .ok () (final (settle child w₁)) := rfl
      rw [bind_of_ok hsettle, ending, Child.result, hrefusal]
      cases child.exit <;> rfl
    cases silent with
    | true =>
      rw [await_silent hrefusal]
      exact hend w
    | false =>
      obtain ⟨w₁, -, -, hawait⟩ := await_heard hrefusal argv w
      rw [hawait]
      exact hend w₁

section
variable {env : Bindings} (h : objection? argv cwd env = none)
include h

theorem run_echoes (w : World) :
    Echoes (w.children.headD .silent).echoed w (final (run argv cwd env false w)) := by
  obtain ⟨w₁, hnext, -⟩ := starts_nextChild argv cwd env w
  have hsame : Echoes [] w w₁ := by
    cases hnext
    exact .of_log rfl rfl
  rw [run_eq h, bind_of_ok hnext]
  exact hsame.trans (await_echoes argv (w.children.headD .silent) w₁)

theorem run_outcome (silent : Bool) (w : World) :
    outcome (run argv cwd env silent w) = (w.children.headD .silent).result argv := by
  obtain ⟨w₁, hnext, -⟩ := starts_nextChild argv cwd env w
  rw [run_eq h, bind_of_ok hnext]
  exact await_outcome argv silent (w.children.headD .silent) w₁

end

end Command

end Runbook
