import Runbook.Proofs.History
import Runbook.Proofs.Telling

/-! # What a run shows

What the user asked to see in a run are the texts of the `info` steps and the lines the children print, in the order of the
steps (`Visit.echoes`, `runFrom_echoes`); all else that is said is told by the program itself. The lines are in the log
at any verbosity (`World.Echoes.sublist`). -/

namespace Runbook

open Effect World
open scoped List

variable {R : World → World → Prop} {w w' w'' : World} {lines : List Text} {s s' : Session} {index : Nat}

/-- At any verbosity all is written that the user asked to see. -/
theorem Notice.echoes_sublist (notices : List Notice) (v : Verbosity) :
    (notices.filterMap Notice.echo?).map Event.out <+ notices.flatMap (·.events v) := by
  induction notices with
  | nil => exact List.Sublist.refl _
  | cons n notices ih =>
    rw [List.flatMap_cons]
    cases n with
    | echo message => exact ih.cons_cons (Event.out message)
    | _ => exact ih.trans (List.sublist_append_right _ _)

namespace World

theorem Echoes.sublist (h : Echoes lines w w') :
    ∃ written, w'.log = w.log ++ written ∧ lines.map Event.out <+ written := by
  obtain ⟨notices, rfl, hlog⟩ := h.log
  exact ⟨_, hlog, Notice.echoes_sublist notices w.verbosity⟩

theorem Echoes.log_sublist (h : Echoes lines w w') : w.log <+ w'.log := by
  obtain ⟨written, hlog, -⟩ := h.sublist
  rw [hlog]
  exact List.sublist_append_left _ _

/-- Between the worlds some children have been started, and what has been shown is what they print. -/
def Shows (w w' : World) : Prop :=
  ∃ new, Starts new w w' ∧ Echoes ((w.children.take new.length).flatMap Child.echoed) w w'

theorem Shows.of_starts_nil (h : Starts [] w w') (hechoes : Echoes [] w w') : Shows w w' := ⟨[], h, hechoes⟩

instance : Frame Shows where
  refl w := .of_starts_nil (Frame.refl w) (Frame.refl w)
  trans := by
    rintro w w' w'' ⟨new, hstarts, hechoes⟩ ⟨new', hstarts', hechoes'⟩
    refine ⟨new ++ new', hstarts.trans hstarts', ?_⟩
    rw [List.length_append, List.take_add, List.flatMap_append, ← hstarts.children]
    exact hechoes.trans hechoes'

instance : BearsTelling Shows where
  tell w _ h := .of_starts_nil (BearsTelling.tell w h) (BearsTelling.tell w h)

instance : BearsFiles Shows where
  tree w _ h := .of_starts_nil (BearsFiles.tree w h) (BearsFiles.tree w h)
  count w n := .of_starts_nil (BearsFiles.count w n) (BearsFiles.count w n)

end World

theorem Command.shows_run (argv : List Text) (cwd : Text) (env : Bindings) :
    Leads Shows (Command.run argv cwd env false) := by
  intro w
  cases hobjection : objection? argv cwd env with
  | some e =>
    rw [run_of_objection hobjection]
    exact Frame.refl w
  | none =>
    refine ⟨_, run_starts hobjection false w, ?_⟩
    have hechoes := run_echoes hobjection w
    cases hchildren : w.children with
    | nil =>
      rw [hchildren] at hechoes
      exact hechoes
    | cons child rest =>
      rw [hchildren] at hechoes
      simpa using hechoes

/-! ### Visits -/

/-- What a step shows: its text if it is an `info`, and what the children it starts print. -/
def Visit.echoed (v : Visit) : List Text :=
  if v.does .info then [v.text]
  else (v.before.world.children.take
    ((final v.outcome).world.starts.length - v.before.world.starts.length)).flatMap Child.echoed

/-- What the user asked to see in a step is what it shows. -/
theorem Visit.echoes (v : Visit) : Echoes v.echoed v.before.world (final v.outcome).world := by
  obtain ⟨index, step, s⟩ := v
  have hstarted : s.Outside (Echoes []) (Step.started index step s) := Step.bears_started index step s
  unfold Visit.echoed
  cases hinfo : step.directive == .info with
  | true =>
    have hd : step.directive = .info := eq_of_beq hinfo
    rw [if_pos (show Visit.does .info ⟨index, step, s⟩ = true from hinfo)]
    have hshown : Session.Outside (Echoes [Step.text step s]) (Step.started index step s)
        (final (Step.perform index .info (Step.text step s) (Step.started index step s))) :=
      echoes_say _ (.echo (Step.text step s))
    unfold Visit.outcome
    rw [Step.run_apply, hd]
    exact hstarted.trans (final_bind hshown (Step.leads_finish index step _ _) Echoes.trans_nil)
  | false =>
    have hd : step.directive ≠ .info := fun heq => by simp [heq] at hinfo
    rw [if_neg (by simp [Visit.does, hinfo])]
    have hshows : s.Outside Shows (final (Step.run index step s)) := by
      rw [Step.run_apply]
      refine Frame.trans (R := Session.Outside Shows) (Step.bears_started index step s) ?_
      exact Leads.bind (Step.leads_perform Command.shows_run hd index _) (Step.leads_finish index step _ _) _
    obtain ⟨new, hstarts, hechoes⟩ := hshows
    unfold Visit.outcome
    rw [hstarts.starts, List.length_append, Nat.add_sub_cancel_left]
    exact hechoes

theorem runFrom_echoes (index : Nat) (steps : List Step) (s : Session) :
    Echoes ((visits index steps s).flatMap Visit.echoed) s.world (final (Step.runFrom index steps s)).world := by
  induction steps generalizing index s with
  | nil => exact .of_log rfl rfl
  | cons step rest ih =>
    have hfirst : Echoes _ s.world (final (Step.run index step s)).world := Visit.echoes ⟨index, step, s⟩
    cases hrun : Step.run index step s with
    | error e s' =>
      rw [hrun] at hfirst
      rw [visits_of_error hrun, runFrom_of_error hrun, List.flatMap_singleton]
      exact hfirst
    | ok result s' =>
      rw [hrun] at hfirst
      rw [visits_of_ok hrun, runFrom_of_ok hrun, final_bind_pure, List.flatMap_cons]
      exact hfirst.trans (ih (index + 1) s')

end Runbook
