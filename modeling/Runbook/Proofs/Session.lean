import Runbook.Proofs.World

/-! # What runs change in a session

What is done outside the context changes the world as it would without a session and keeps the context. A session is
clean if nothing it takes paths from holds U+0000; starting children keeps it clean. -/

namespace Runbook

open Effect

variable {s s' s'' : Session} {new : List Start}

/-- Between the worlds of the sessions a relation holds. -/
abbrev Session.Outside (R : World → World → Prop) (s s' : Session) : Prop := R s.world s'.world

/-- Between the sessions some children have been started. -/
abbrev Session.Starts (new : List Start) (s s' : Session) : Prop := Outside (World.Starts new) s s'

/-- Neither the directories nor the links of the session hold U+0000, as no name of a file can. -/
structure Session.Clean (s : Session) : Prop where
  cwd : s.context.cwd.Lacks '\x00'
  files : s.world.files.Lacks '\x00'

instance {R : World → World → Prop} [Frame R] : Frame (Session.Outside R) where
  refl s := Frame.refl s.world
  trans h h' := Frame.trans (R := R) h h'

/-- The context that is made for a run begins a clean session. -/
theorem Context.create_clean {values env : Bindings} {scriptDir : Text} {start : Option Text} {w w' : World}
    {c : Context} (hw : w.files.Lacks '\x00') (h : create values scriptDir start env w = .ok c w') :
    Session.Clean ⟨w', c⟩ := by
  obtain ⟨cwd, w₁, hcwd, h⟩ := bind_eq_ok (x := Action.resolve _) h
  obtain ⟨dir, w₂, hdir, h⟩ := bind_eq_ok h
  cases h
  obtain ⟨hnull, hresolve⟩ := Action.resolve_eq_ok hcwd
  refine ⟨Files.resolve_lacks hw (by decide) (by decide) hnull hresolve, ?_⟩
  have hresolved : World.Starts [] w w₁ := (Action.leads_resolve _).ok hcwd
  have hexpanded : World.Starts [] w₁ w' := (Action.leads_expandHome _).ok hdir
  exact hexpanded.lacks (hresolved.lacks hw)

namespace Run

variable {α β : Type} {act : Action α} {a : α}

theorem outside_apply (act : Action α) (s : Session) : (liftM act : Run α) s = outside act s := rfl

theorem outside_eq_ok (h : (liftM act : Run α) s = .ok a s') :
    act s.world = .ok a s'.world ∧ s'.context = s.context := by
  rw [outside_apply, outside] at h
  cases hact : act s.world with
  | ok b w =>
    simp only [hact] at h
    cases h
    exact ⟨rfl, rfl⟩
  | error e w =>
    simp only [hact] at h
    cases h

theorem final_outside (act : Action α) (s : Session) :
    final ((liftM act : Run α) s) = { s with world := final (act s.world) } := by
  rw [outside_apply, outside]
  cases act s.world <;> rfl

theorem outcome_outside (act : Action α) (s : Session) :
    outcome ((liftM act : Run α) s) = outcome (act s.world) := by
  rw [outside_apply, outside]
  cases act s.world <;> rfl

theorem outside_final {R : World → World → Prop} (h : R s.world (final (act s.world))) :
    Session.Outside R s (final ((liftM act : Run α) s)) := by
  rwa [Session.Outside, final_outside]

theorem leads_outside {R : World → World → Prop} (h : Leads R act) :
    Leads (Session.Outside R) (liftM act : Run α) := fun s => outside_final (h s.world)

theorem raises_outside {P : Fault → Prop} (h : Raises P act) : Raises P (liftM act : Run α) := by
  intro s e s' he
  rw [outside_apply, outside] at he
  split at he
  · cases he
  · rename_i hact
    cases he
    exact h s.world _ _ hact

theorem leads_change {R : World → World → Prop} [Frame R] (f : Context → Context) :
    Leads (Session.Outside R) (change f) := fun s => Frame.refl s.world

theorem context_bind (f : Context → Run β) (s : Session) : (context >>= f) s = f s.context s := rfl

theorem change_bind (g : Context → Context) (f : Unit → Run β) (s : Session) :
    (change g >>= f) s = f () { s with context := g s.context } := rfl

end Run

end Runbook
