import Runbook.Proofs.World

/-! # What running a command changes

A command to which the system has no objection starts one child, the next one, in that directory and with that
environment (`run_starts`); if it starts, its output is what the child prints (`run_output`). -/

namespace Runbook.Command

open Effect World

variable {argv : List Text} {cwd : Text} {env : Bindings} {silent : Bool} {w w' : World} {r : CommandResult} {e : Fault}

theorem starts_undergo (w : World) (change : Change) : Starts [] w (undergo w change) :=
  ⟨(List.append_nil _).symm, rfl, .change _ _, rfl, rfl⟩

theorem starts_settle (child : Child) : Leads (Starts []) (settle child) := by
  refine .modify fun w => ?_
  have hchanges : ∀ (changes : List Change) (w : World), Starts [] w (changes.foldl undergo w) := by
    intro changes
    induction changes with
    | nil => exact Frame.refl
    | cons change changes ih => exact fun w => Frame.trans (starts_undergo w change) (ih _)
  exact Frame.trans (hchanges child.changes w) ⟨(List.append_nil _).symm, rfl, .refl _, rfl, rfl⟩

theorem starts_nextChild (argv : List Text) (cwd : Text) (env : Bindings) (w : World) :
    ∃ w', nextChild argv cwd env w = .ok (w.children.headD .silent) w' ∧
      Starts [⟨argv, cwd, env, program? w.files.tree argv⟩] w w' :=
  ⟨_, rfl, rfl, List.drop_one.symm, .refl _, rfl, rfl⟩

/-- What is done once a child has ended. -/
def ending (argv : List Text) (child : Child) : Action CommandResult :=
  match child.exit with
  | none => throw .interrupted
  | some code => return ⟨argv, code, child.millis, child.lines, none⟩

/-- What is done once it is known what the next child does. -/
def await (argv : List Text) (silent : Bool) (child : Child) : Action CommandResult :=
  match child.refusal with
  | some e => return ⟨argv, CommandResult.notStarted, 0, [], some (e.reason ++ ": " ++ argv.headD [])⟩
  | none => do
    if !silent then child.lines.forM fun line => Action.say (.echo line)
    settle child
    match child.exit with
    | none => throw .interrupted
    | some code => return ⟨argv, code, child.millis, child.lines, none⟩

theorem await_of_some {e : StartError} {child : Child} (h : child.refusal = some e) (argv : List Text) (silent : Bool) :
    await argv silent child =
      pure ⟨argv, CommandResult.notStarted, 0, [], some (e.reason ++ ": " ++ argv.headD [])⟩ := by
  rw [await, h]

theorem await_of_none {child : Child} (h : child.refusal = none) (argv : List Text) (silent : Bool) :
    await argv silent child = (do
      if !silent then child.lines.forM fun line => Action.say (.echo line)
      settle child
      ending argv child) := by
  rw [await, h]
  rfl

/-- However a child ends, nothing is done then. -/
theorem leads_ending {R : World → World → Prop} [Frame R] (argv : List Text) (child : Child) :
    Leads R (ending argv child) := by
  unfold ending
  cases child.exit with
  | none => exact .throw _
  | some code => exact .pure _

theorem starts_await (argv : List Text) (silent : Bool) (child : Child) :
    Leads (Starts []) (await argv silent child) := by
  have hend : Leads (Starts []) (do settle child; ending argv child) :=
    Leads.bind (starts_settle child) fun _ => leads_ending argv child
  cases hrefusal : child.refusal with
  | some e =>
    rw [await_of_some hrefusal]
    exact .pure _
  | none =>
    rw [await_of_none hrefusal]
    dsimp only
    split
    · exact Leads.bind (.forM _ fun line => Action.leads_say _) fun _ => hend
    · exact hend

theorem await_output {child : Child} (h : await argv silent child w = .ok r w') (hr : r.startError = none) :
    r.output = child.lines := by
  have hend : ∀ w₁, (do settle child; ending argv child : Action CommandResult) w₁ = .ok r w' →
      r.output = child.lines := by
    intro w₁ h
    obtain ⟨_, w₂, -, h⟩ := bind_eq_ok h
    unfold ending at h
    cases hexit : child.exit with
    | none =>
      rw [hexit] at h
      cases h
    | some code =>
      rw [hexit] at h
      cases h
      rfl
  cases hrefusal : child.refusal with
  | some e =>
    rw [await_of_some hrefusal] at h
    cases h
    cases hr
  | none =>
    rw [await_of_none hrefusal] at h
    cases hs : silent with
    | true =>
      simp only [hs, Bool.not_true, Bool.false_eq_true, if_false] at h
      exact hend w h
    | false =>
      simp only [hs, Bool.not_false, if_true] at h
      obtain ⟨_, w₁, -, h⟩ := bind_eq_ok h
      exact hend w₁ h

/-- The system has no objection to names of variables without an equals sign, if there is no U+0000 anywhere. -/
theorem objection?_eq_none_iff : objection? argv cwd env = none ↔
    (∀ p ∈ env, '=' ∉ p.1) ∧ '\x00' ∉ cwd ∧ (∀ word ∈ argv, '\x00' ∉ word) ∧
      ∀ p ∈ env, '\x00' ∉ p.1 ∧ '\x00' ∉ p.2 := by
  have hname : env.any (·.1.contains '=') = false ↔ ∀ p ∈ env, '=' ∉ p.1 := by simp
  have hnull : (cwd :: argv ++ env.flatMap fun p => [p.1, p.2]).any (·.contains '\x00') = false ↔
      '\x00' ∉ cwd ∧ (∀ word ∈ argv, '\x00' ∉ word) ∧ ∀ p ∈ env, '\x00' ∉ p.1 ∧ '\x00' ∉ p.2 := by
    simp [forall_and]
  rw [← hname, ← hnull, objection?]
  cases env.any (·.1.contains '=') with
  | true => simp
  | false => cases (cwd :: argv ++ env.flatMap fun p => [p.1, p.2]).any (·.contains '\x00') <;> simp

/-- There is an objection to words if there is one to the directory and the environment, or one of them holds U+0000. -/
theorem objection?_words : objection? argv cwd env = none ↔
    objection? [] cwd env = none ∧ argv.any (·.contains '\x00') = false := by
  have hwords : argv.any (·.contains '\x00') = false ↔ ∀ word ∈ argv, '\x00' ∉ word := by simp
  rw [objection?_eq_none_iff, objection?_eq_none_iff, hwords]
  constructor
  · rintro ⟨hnames, hcwd, hargv, hvalues⟩
    exact ⟨⟨hnames, hcwd, fun word h => absurd h List.not_mem_nil, hvalues⟩, hargv⟩
  · rintro ⟨⟨hnames, hcwd, -, hvalues⟩, hargv⟩
    exact ⟨hnames, hcwd, hargv, hvalues⟩

/-- An objection is to the name of a variable or to U+0000. -/
theorem objection?_eq_some (h : objection? argv cwd env = some e) : e = .variableName ∨ e = .nullCharacter := by
  unfold objection? at h
  split at h
  · exact Or.inl (Option.some.inj h).symm
  · split at h
    · exact Or.inr (Option.some.inj h).symm
    · cases h

theorem run_of_objection (h : objection? argv cwd env = some e) (silent : Bool) (w : World) :
    run argv cwd env silent w = .error e w := by
  rw [run, h]
  rfl

theorem run_eq (h : objection? argv cwd env = none) :
    run argv cwd env silent = (do await argv silent (← nextChild argv cwd env)) := by
  rw [run, h]
  rfl

/-- A command starts one child, if it can start one at all. -/
theorem run_starts (h : objection? argv cwd env = none) (silent : Bool) (w : World) :
    Starts [⟨argv, cwd, env, program? w.files.tree argv⟩] w (final (run argv cwd env silent w)) := by
  obtain ⟨w', hnext, hstart⟩ := starts_nextChild argv cwd env w
  rw [run_eq h, bind_of_ok hnext]
  exact hstart.trans (starts_await argv silent _ w')

/-- The output of a command that has started is that of the child. -/
theorem run_output (h : run argv cwd env silent w = .ok r w') (hr : r.startError = none) :
    r.output = (w.children.headD .silent).lines := by
  cases hobjection : objection? argv cwd env with
  | some e =>
    rw [run_of_objection hobjection] at h
    cases h
  | none =>
    obtain ⟨w₁, hnext, -⟩ := starts_nextChild argv cwd env w
    rw [run_eq hobjection, bind_of_ok hnext] at h
    exact await_output h hr

end Runbook.Command
