import Runbook.Proofs.Step
import Runbook.Proofs.Telling
import Runbook.Proofs.Text.LineEnds
import Runbook.Rehearsal

/-! # What a child prints

The lines of a child that is waited for are echoed in their order, each once, unless it is to be silent (`Command.run_log`),
and they are the output of the result. A child that ends all its lines in the same way has its lines found again, so a
script exports the same variables whichever line end it uses. Main statement: `Command.run_prints`. -/

namespace Runbook

open Effect Text

/-- Lines that can be told apart when they are printed: there is no line end within one of them, and the last one is not
    empty. -/
structure Separable (lines : List Text) : Prop where
  unbroken : ∀ line ∈ lines, Unbroken line
  last : ∀ line ∈ lines.getLast?, line ≠ []

namespace Child

variable {child : Child} {lines : List Text}

/-- A child that starts and prints the lines, all of which end in the same way. -/
structure Prints (child : Child) (lines : List Text) : Prop where
  starts : child.refusal = none
  output : ∃ (e : LineEnd) (closed : Bool), child.output = Utf8.encode (e.write closed lines)

theorem Prints.lines_eq (h : child.Prints lines) (hlines : Separable lines) : child.lines = lines := by
  obtain ⟨e, closed, houtput⟩ := h.output
  rw [Child.lines, houtput, Utf8.decodeLenient_encode, lines_write hlines.unbroken hlines.last]

theorem Prints.echoed_eq (h : child.Prints lines) (hlines : Separable lines) : child.echoed = lines := by
  rw [echoed, h.starts, ← h.lines_eq hlines]
  rfl

theorem unbroken_of_mem_echoed {line : Text} (h : line ∈ child.echoed) : Unbroken line := by
  unfold echoed at h
  split at h
  · cases h
  · exact unbroken_of_mem_lines h

theorem output_eq_echoed {argv : List Text} {r : CommandResult} (h : child.result argv = .ok r) :
    r.output = child.echoed := by
  unfold result at h
  unfold echoed
  split at h
  · rename_i e hrefusal
    cases h
    rw [hrefusal]
    rfl
  · cases h
  · rename_i code hrefusal hexit
    cases h
    rw [hrefusal]
    rfl

end Child

namespace Command

variable {argv : List Text} {cwd : Text} {env : Bindings} {silent : Bool} {child : Child} {w w' : World}
  {r : CommandResult}

theorem settle_log (child : Child) (w : World) : (final (settle child w)).log = w.log := by
  have hchanges : ∀ (changes : List Change) (w : World), (changes.foldl undergo w).log = w.log := by
    intro changes
    induction changes with
    | nil => exact fun _ => rfl
    | cons change changes ih => exact fun w => ih (undergo w change)
  exact hchanges child.changes w

theorem await_log (argv : List Text) (silent : Bool) (child : Child) (w : World) :
    (final (await argv silent child w)).log = w.log ++ (if silent then [] else child.echoed.map .out) := by
  cases hrefusal : child.refusal with
  | some e =>
    rw [await_of_some hrefusal, Child.echoed, hrefusal]
    simp
  | none =>
    have hend : ∀ w₁, (final ((do settle child; ending argv child : Action CommandResult) w₁)).log = w₁.log := by
      intro w₁
      have hsettle : settle child w₁ = .ok () (final (settle child w₁)) := rfl
      rw [bind_of_ok hsettle, ending, ← settle_log child w₁]
      cases child.exit <;> rfl
    have hechoed : child.echoed = child.lines := by simp [Child.echoed, hrefusal]
    rw [hechoed]
    cases silent with
    | true =>
      rw [await_silent hrefusal, if_pos rfl, List.append_nil]
      exact hend w
    | false =>
      obtain ⟨w₁, -, hlog, hawait⟩ := await_heard hrefusal argv w
      rw [hawait, if_neg (by decide), ← hlog]
      exact hend w₁

theorem run_log (h : objection? argv cwd env = none) (silent : Bool) (w : World) :
    (final (run argv cwd env silent w)).log =
      w.log ++ (if silent then [] else (w.children.headD .silent).echoed.map .out) := by
  obtain ⟨w₁, hnext, -⟩ := starts_nextChild argv cwd env w
  have hlog : w₁.log = w.log := by
    cases hnext
    rfl
  rw [run_eq h, bind_of_ok hnext, ← hlog]
  exact await_log argv silent _ w₁

/-- The output of a command is what has been shown of the next child, or would have been. -/
theorem output_eq_echoed (h : run argv cwd env silent w = .ok r w') : r.output = (w.children.headD .silent).echoed := by
  cases hobjection : objection? argv cwd env with
  | some e =>
    rw [run_of_objection hobjection] at h
    cases h
  | none =>
    have hresult := run_outcome hobjection silent w
    rw [h] at hresult
    exact Child.output_eq_echoed hresult.symm

/-- What a child prints arrives line by line. -/
theorem run_prints :
    (∀ (child : Child) (lines : List Text), Separable lines → child.Prints lines →
      -- The lines are the output of the result, and they are echoed.
      (∀ (argv : List Text) (cwd : Text) (env : Bindings) (silent : Bool) (w : World),
        w.children.headD .silent = child → objection? argv cwd env = none →
          (final (run argv cwd env silent w)).log = w.log ++ (if silent then [] else lines.map .out) ∧
          outcome (run argv cwd env silent w) =
            match child.exit with
            | none => .error .interrupted
            | some code => .ok ⟨argv, code, child.millis, lines, none⟩) ∧
      -- They decide what a script exports.
      (∀ (index : Nat) (data : Text) (s s' : Session), s.world.children.headD .silent = child →
        Step.script index data s = .ok () s' →
          s'.context = { s.context with values := s.context.values.update (Marker.exports lines) })) ∧
    -- Whatever is printed, no line of the output holds a line end.
    (∀ (argv : List Text) (cwd : Text) (env : Bindings) (silent : Bool) (w w' : World) (r : CommandResult),
      run argv cwd env silent w = .ok r w' → ∀ line ∈ r.output, Unbroken line) := by
  refine ⟨fun child lines hlines hprints => ⟨?_, ?_⟩, ?_⟩
  · rintro argv cwd env silent w rfl hstarts
    have hlog := run_log hstarts silent w
    rw [hprints.echoed_eq hlines] at hlog
    refine ⟨hlog, ?_⟩
    rw [run_outcome hstarts, Child.result, hprints.starts, hprints.lines_eq hlines]
    cases (w.children.headD .silent).exit <;> rfl
  · rintro index data s s' rfl hscript
    rw [Step.script_eq_ok hscript, hprints.lines_eq hlines]
  · intro argv cwd env silent w w' r h line hline
    rw [output_eq_echoed h] at hline
    exact Child.unbroken_of_mem_echoed hline

/-- Lines of which one holds characters that separate lines elsewhere, one is empty, and the last one is a marker. -/
def separated : List Text := ["a\u2028b\x85c", "", "###export v=1"]

/-- The child that prints them with carriage returns between them. -/
def printer : Child := ⟨none, Utf8.encode (LineEnd.cr.write false separated), 5, [], some 0⟩

/-- A session in which that child comes next. -/
def printing : Session where
  world := { Rehearsal.world "/" [] [] with children := [printer] }
  context := ⟨⟨.root, []⟩, [], [], ⟨.root, ["s"]⟩, 7⟩

theorem run_prints_separated : Separable separated ∧ printer.Prints separated ∧
    outcome (run ["p"] "/" [] false printing.world) = .ok ⟨["p"], 0, 5, separated, none⟩ ∧
    (final (run ["p"] "/" [] false printing.world)).log = separated.map .out ∧
    (final (run ["p"] "/" [] true printing.world)).log = [] ∧
    ∃ s', Step.script 1 "p" printing = .ok () s' ∧ s'.context.values = [("v".toList, "1".toList)] := by
  have hlines : Separable separated := ⟨by decide, by decide⟩
  have hprints : printer.Prints separated := ⟨rfl, .cr, false, rfl⟩
  obtain ⟨hrun, hscript⟩ := run_prints.1 printer separated hlines hprints
  obtain ⟨hlog, houtcome⟩ := hrun ["p"] "/" [] false printing.world rfl (by decide)
  obtain ⟨hsilent, -⟩ := hrun ["p"] "/" [] true printing.world rfl (by decide)
  have hruns : passes (fun _ _ => true) (Step.script 1 "p" printing) = true := by decide +kernel
  obtain ⟨_, s', hends, -⟩ := eq_ok_of_passes hruns
  refine ⟨hlines, hprints, houtcome, hlog, hsilent, s', hends, ?_⟩
  rw [hscript 1 "p" printing s' rfl hends]
  decide +kernel

end Command

end Runbook
