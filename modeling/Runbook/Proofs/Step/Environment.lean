import Runbook.Proofs.History
import Runbook.Proofs.Path.Straight
import Runbook.Proofs.Step.Frame
import Runbook.Rehearsal

/-! # The environment of children

Whatever steps set, a child can be started with the environment (`Bindings.Startable`): a name that an `export` sets is
what stands before the first equals sign, and an `export` fails rather than set an empty name, or U+0000. Directories
stay absolute, for a `cd` goes where its target resolves to. Main statement: `Step.runs_startable`. -/

namespace Runbook

open Effect World

variable {name value : Text} {env : Bindings} {s s' : Session} {index : Nat} {step : Step} {data : Text}
  {result : StepResult} {c : Context} {w w' : World}

/-! ### Environments and directories -/

namespace Bindings

/-- An environment that a child can be started with: no name is empty or holds an equals sign, and nothing holds
    U+0000. -/
def Startable (env : List (Text × Text)) : Prop :=
  ∀ p ∈ env, p.1 ≠ [] ∧ '=' ∉ p.1 ∧ '\x00' ∉ p.1 ∧ '\x00' ∉ p.2

instance (env : List (Text × Text)) : Decidable (Startable env) := inferInstanceAs (Decidable (∀ p ∈ env, _))

theorem Startable.set (h : Startable env) (hne : name ≠ []) (hequals : '=' ∉ name) (hname : '\x00' ∉ name)
    (hvalue : '\x00' ∉ value) : Startable (set name value env) := by
  intro p hp
  rcases mem_set hp with rfl | hp
  · exact ⟨hne, hequals, hname, hvalue⟩
  · exact h p hp

end Bindings

open Bindings

/-- The process is in an absolute directory, and so is the run, which has no `.` and no `..` in its path. -/
structure Session.Placed (s : Session) : Prop where
  isAbsolute : s.world.files.cwd.isAbsolute = true
  proper : s.world.files.cwd.Proper
  cwd : s.context.cwd.Straight

/-- A context that is made for a run is in such a directory, whichever it is given, and has the environment it is
    given. -/
theorem Context.create_placed {values : Bindings} {scriptDir : Text} {start : Option Text}
    (ha : w.files.cwd.isAbsolute = true) (hcwd : w.files.cwd.Proper)
    (h : create values scriptDir start env w = .ok c w') : Session.Placed ⟨w', c⟩ ∧ c.env = env := by
  obtain ⟨cwd, w₁, hresolve, h⟩ := bind_eq_ok (x := Action.resolve _) h
  obtain ⟨dir, w₂, hdir, h⟩ := bind_eq_ok h
  cases h
  have hresolved : World.Starts [] w w₁ := (Action.leads_resolve _).ok hresolve
  have hexpanded : World.Starts [] w₁ w' := (Action.leads_expandHome _).ok hdir
  have hplace : w'.files.cwd = w.files.cwd := hexpanded.cwd.trans hresolved.cwd
  obtain ⟨-, hresolve⟩ := Action.resolve_eq_ok hresolve
  exact ⟨⟨hplace ▸ ha, hplace ▸ hcwd, Files.resolve_straight ha hcwd hresolve⟩, rfl⟩

namespace Step

/-! ### Steps -/

/-- An `export` that does not fail sets a name that is not empty and holds neither an equals sign nor U+0000, to a value
    without U+0000. -/
theorem exportVar_allows (h : exportVar index data s = .ok () s') : (assignment data).1 ≠ [] ∧
    '=' ∉ (assignment data).1 ∧ '\x00' ∉ (assignment data).1 ∧ '\x00' ∉ (assignment data).2 := by
  have hequals : '=' ∉ (assignment data).1 := fun hmem => Text.not_mem_cut '=' data (Text.mem_of_mem_trim hmem)
  unfold exportVar at h
  dsimp only at h
  split at h
  · cases h
  · rename_i hguard
    simp only [Bool.or_eq_true, List.isEmpty_iff, List.contains_iff_mem, not_or] at hguard
    exact ⟨hguard.1.1, hequals, hguard.1.2, hguard.2⟩

theorem run_exportVar_allows (hd : step.directive = .exportVar) (h : run index step s = .ok result s') :
    (assignment (text step s)).1 ≠ [] ∧ '=' ∉ (assignment (text step s)).1 ∧ '\x00' ∉ (assignment (text step s)).1 ∧
      '\x00' ∉ (assignment (text step s)).2 := by
  rw [run_apply, hd] at h
  obtain ⟨status, s₁, hperform, -⟩ := bind_eq_ok h
  obtain ⟨_, s₂, hset, -⟩ := bind_eq_ok (x := exportVar _ _) hperform
  exact exportVar_allows hset

theorem run_startable (hs : Startable s.context.env) (h : run index step s = .ok result s') :
    Startable s'.context.env := by
  obtain ⟨-, -, -, hmakes⟩ := run_eq_ok h
  rw [hmakes.env]
  split
  · rename_i hd
    obtain ⟨hne, hequals, hname, hvalue⟩ := run_exportVar_allows hd h
    exact hs.set hne hequals hname hvalue
  · exact hs

theorem run_placed (hs : s.Placed) (h : run index step s = .ok result s') : s'.Placed := by
  obtain ⟨new, hstarts, -⟩ := run_starts index step s
  rw [h] at hstarts
  have hplace : s'.world.files.cwd = s.world.files.cwd := hstarts.cwd
  refine ⟨hplace ▸ hs.isAbsolute, hplace ▸ hs.proper, ?_⟩
  obtain ⟨-, -, -, hmakes⟩ := run_eq_ok h
  have hcwd := hmakes.cwd
  split at hcwd
  · exact Files.resolve_straight hs.isAbsolute hs.proper hcwd.2
  · rw [hcwd]
    exact hs.cwd

theorem Attempts.env_eq {argv? : Option (List Text)} {new : List Start} (h : Attempts c argv? new) :
    ∀ start ∈ new, start.env = c.env := by
  unfold Attempts at h
  split at h
  · rw [h]
    exact nofun
  · split at h
    · obtain ⟨program, rfl⟩ := h
      exact fun start hstart => by rw [List.mem_singleton.mp hstart]
    · rw [h]
      exact nofun

/-! ### Runs -/

theorem runFrom_startable (index : Nat) (steps : List Step) (hs : Startable s.context.env) :
    ∃ new, s.Starts new (final (runFrom index steps s)) ∧ ∀ start ∈ new, Startable start.env := by
  induction steps generalizing index s with
  | nil => exact ⟨[], Frame.refl s.world, nofun⟩
  | cons step rest ih =>
    obtain ⟨new, hstarts, hattempts⟩ := run_starts index step s
    have hnew : ∀ start ∈ new, Startable start.env := fun start hstart => by
      rw [hattempts.env_eq start hstart]
      exact hs
    cases hrun : run index step s with
    | error e s' =>
      rw [hrun] at hstarts
      rw [runFrom_of_error hrun]
      exact ⟨new, hstarts, hnew⟩
    | ok result s' =>
      rw [hrun] at hstarts
      rw [runFrom_of_ok hrun, final_bind_pure]
      obtain ⟨new', hstarts', hnew'⟩ := ih (index + 1) (run_startable hs hrun)
      exact ⟨new ++ new', hstarts.trans hstarts', fun start hstart =>
        (List.mem_append.mp hstart).elim (hnew start) (hnew' start)⟩

/-- A context that is made for a run is in a directory with an absolute path, and so a run stays, whatever its steps are:
    before and after each step, the path of its directory is absolute and has no `.` and no `..`. If a child can be started
    with the environment at first, so it can before and after each step, and each child whose start is tried is given such
    an environment. -/
theorem runs_startable :
    (∀ (w w' : World) (values : Bindings) (scriptDir : Text) (start : Option Text) (env : Bindings) (c : Context),
      w.files.cwd.isAbsolute = true → w.files.cwd.Proper → Context.create values scriptDir start env w = .ok c w' →
        Session.Placed ⟨w', c⟩ ∧ c.env = env) ∧
    ∀ (steps : List Step) (s : Session), Startable s.context.env →
      (∀ v ∈ visits 1 steps s, ∀ t ∈ [v.before, final v.outcome], Startable t.context.env ∧
        (s.Placed → t.context.cwd.Straight)) ∧
      ∃ new, s.Starts new (final (runAll steps s)) ∧ ∀ start ∈ new, Startable start.env := by
  refine ⟨fun w w' values scriptDir start env c => Context.create_placed, fun steps s hs => ⟨fun v hv => ?_, ?_⟩⟩
  · have henv : Startable v.before.context.env :=
      visits_forall (P := fun s => Startable s.context.env) run_startable 1 steps hs v hv
    have hplaced : s.Placed → v.before.Placed := fun h => visits_forall run_placed 1 steps h v hv
    rw [List.forall_mem_cons, List.forall_mem_singleton]
    refine ⟨⟨henv, fun h => (hplaced h).cwd⟩, ?_, fun h => ?_⟩
    · exact context_final (P := fun c => Startable c.env) henv (run_startable henv)
    · exact context_final (P := fun c => c.cwd.Straight) (hplaced h).cwd fun hrun => (run_placed (hplaced h) hrun).cwd
  · exact runFrom_startable 1 steps hs

/-- A session with a variable whose value has an equals sign. -/
def wandering : Session where
  world := Rehearsal.world "/w/a" [] []
  context := ⟨⟨.root, ["w", "a"]⟩, [("A", "=1")], [("v", "x=y")], ⟨.root, ["w"]⟩, 7⟩

/-- Steps that go up and down, set the variable of the environment, and run a command. -/
def wanderingSteps : List Step := [⟨.cd, ".././a/..", none⟩, ⟨.exportVar, " B =$\x7bv\x7d", none⟩, ⟨.exec, "x", none⟩]

theorem runs_startable_wandering :
    (∃ c w', Context.create [] "/w" (some "b/../../c") [("A", "=1")] wandering.world = .ok c w' ∧
      c.cwd = ⟨.root, ["w", "c"]⟩ ∧ Session.Placed ⟨w', c⟩) ∧
    (∃ v ∈ visits 1 wanderingSteps wandering, v.step.directive = .exec ∧
      (v.before.context.env = [("A".toList, "=1".toList), ("B".toList, "x=y".toList)] ∧ Startable v.before.context.env) ∧
      v.before.context.cwd = ⟨.root, ["w"]⟩ ∧ v.before.context.cwd.Straight) ∧
    ∃ new, wandering.Starts new (final (runAll wanderingSteps wandering)) ∧ ∀ start ∈ new, Startable start.env := by
  obtain ⟨hcreate, hruns⟩ := runs_startable
  obtain ⟨hstates, hstarts⟩ := hruns wanderingSteps wandering (by decide)
  have hplaced : wandering.Placed := ⟨rfl, by decide, ⟨rfl, by decide, by unfold Path.Onward; decide⟩⟩
  have hcheck : passes (fun c _ => decide (c.cwd = ⟨.root, ["w", "c"]⟩))
      (Context.create [] "/w" (some "b/../../c") [("A", "=1")] wandering.world) = true := by decide +kernel
  obtain ⟨c, w', hcreated, hcwd⟩ := eq_ok_of_passes hcheck
  have hvisit : (match (visits 1 wanderingSteps wandering)[2]? with
      | some v => v.step.directive == .exec && v.before.context.cwd == ⟨.root, ["w"]⟩ &&
        v.before.context.env == [("A".toList, "=1".toList), ("B".toList, "x=y".toList)]
      | none => false) = true := by decide +kernel
  refine ⟨⟨c, w', hcreated, of_decide_eq_true hcwd, (hcreate _ _ _ _ _ _ _ rfl (by decide) hcreated).1⟩, ?_, hstarts⟩
  split at hvisit
  · rename_i v hv
    simp only [Bool.and_eq_true, beq_iff_eq] at hvisit
    obtain ⟨⟨hd, hdirectory⟩, henv⟩ := hvisit
    have hv := List.mem_of_getElem? hv
    obtain ⟨hstartable, hstraight⟩ := hstates v hv v.before List.mem_cons_self
    exact ⟨v, hv, hd, ⟨henv, hstartable⟩, hdirectory, hstraight hplaced⟩
  · cases hvisit

end Step

end Runbook
