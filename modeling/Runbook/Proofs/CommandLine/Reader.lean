import Runbook.CommandLine.Reader
import Runbook.Proofs.Telling

/-! # From the words to a command

What is relied on of whoever reads the command line is that the words after the options of the program are passed on
unchanged, and so are those after the first argument of a command that takes any words (`Reader.PassesOn`). Then such a
command does its work after nothing but telling (`Begins.dispatch`). -/

namespace Runbook.CommandLine

open Effect World

variable {reader : Reader} {options words rest : List Text} {s : Settings} {call : Call} {w w₀ w' : World}

/-- The options set the program up in a way, and from the first argument on the words are passed on unchanged; an
    interrupt that no command reports is no success. -/
structure Reader.PassesOn (reader : Reader) (h : Host) (env : Bindings) (options : List Text) (s : Settings) : Prop where
  options : ∀ name ∈ ["run".toList, "exec"], ∀ rest, reader.options h env (options ++ name :: rest) = .ok (s, name :: rest)
  run : ∀ word rest, Text.startsWith "-" word = false →
    reader.command h env ("run".toList :: word :: rest) = .ok (.run word rest)
  exec : ∀ word rest, Text.startsWith "-" word = false →
    reader.command h env ("exec".toList :: word :: rest) = .ok (.exec false (word :: rest))
  aborted : reader.aborted.status ≠ 0

/-- The invocation that settings describe. -/
def invocation (words : List Text) (s : Settings) (w : World) : Invocation where
  words := programName :: words
  recipes := s.recipes
  scripts := s.scripts
  tee := if s.tee then some w.host.teeName else none

/-- The world in which an invocation begins: as much is shown as the settings say. -/
def speaking (s : Settings) (w : World) : World := { w with verbosity := s.verbosity }

/-- A command may follow the options: they are passed over, and the log can be opened if there is to be one, which gives
    the world `w₀`. -/
structure Begins (reader : Reader) (options : List Text) (s : Settings) (w w₀ : World) : Prop where
  reads : reader.PassesOn w.host w.env options s
  log : (invocation options s w).tee.forM openTee (speaking s w) = .ok () w₀

theorem openTee_eq_ok {name : Text} (h : openTee name w = .ok () w') :
    ∃ tree tee, w.files.tree.NoNewLinks tree ∧ w' = { w.withTree tree with tee } := by
  unfold openTee at h
  dsimp only at h
  split at h
  · cases h
  · change (if w.files.isDenied (Path.ofText name) then _ else _ : Action Unit) w = _ at h
    split at h
    · cases h
    · cases hplace : w.files.writePlace (Path.ofText name) with
      | error e =>
        rw [hplace] at h
        cases h
      | ok place =>
        rw [hplace] at h
        cases h
        exact ⟨_, _, .writeAt _ _ _, rfl⟩

namespace Begins

variable (h : Begins reader options s w w₀)
include h

/-- To open the log changes nothing but the files, and makes no link. -/
theorem eq_withTree : ∃ tree tee, w.files.tree.NoNewLinks tree ∧ w₀ = { (speaking s w).withTree tree with tee } := by
  have hlog := h.log
  cases htee : (invocation options s w).tee with
  | none =>
    rw [htee] at hlog
    cases hlog
    exact ⟨w.files.tree, w.tee, .refl _, rfl⟩
  | some name =>
    rw [htee] at hlog
    exact openTee_eq_ok hlog

theorem starts : Starts [] (speaking s w) w₀ := by
  obtain ⟨tree, tee, htree, rfl⟩ := h.eq_withTree
  exact ⟨(List.append_nil _).symm, rfl, htree, rfl, rfl⟩

theorem echoes : Echoes [] (speaking s w) w₀ := by
  obtain ⟨tree, tee, -, rfl⟩ := h.eq_withTree
  exact .of_log rfl rfl

theorem childEnv (words : List Text) : (invocation words s w).childEnv w₀ = (invocation options s w).childEnv w := by
  obtain ⟨tree, tee, -, rfl⟩ := h.eq_withTree
  rfl

/-- What has been told then has started nothing and shown nothing, and makes no difference to the children. -/
theorem told (htells : Tells w₀ w') (words : List Text) : Starts [] (speaking s w) w' ∧ Echoes [] (speaking s w) w' ∧
    (invocation words s w).childEnv w' = (invocation options s w).childEnv w :=
  ⟨h.starts.trans_nil htells.said.starts_nil, h.echoes.trans_nil htells.echoes,
    (Invocation.childEnv_tells htells _).trans (h.childEnv words)⟩

theorem invoke (words : List Text) : ∃ w₁, CommandLine.invoke words s w = .ok (invocation words s w) w₁ ∧ Tells w₀ w₁ := by
  obtain ⟨w₁, hdescribe, htells⟩ := Invocation.describe_tells (invocation words s w) w₀
  refine ⟨w₁, ?_, htells⟩
  show ((invocation options s w).tee.forM openTee >>= fun _ => do
    (invocation words s w).describe
    return invocation words s w : Action Invocation) (speaking s w) = _
  rw [bind_of_ok h.log, bind_of_ok hdescribe]
  rfl

/-- What is called with the words does its work after nothing but telling. -/
theorem dispatch (hoptions : reader.options w.host w.env words = .ok (s, rest))
    (hcommand : reader.command w.host w.env rest = .ok call) : ∃ w₁,
      reader.dispatch words w = call.perform (invocation words s w) w₁ ∧ Tells w₀ w₁ := by
  obtain ⟨w₁, hinvoke, htells⟩ := h.invoke words
  refine ⟨w₁, ?_, htells⟩
  unfold Reader.dispatch
  rw [get_bind_apply]
  simp only [hoptions]
  rw [bind_of_ok hinvoke]
  simp only [hcommand]

end Begins

/-! ### The end of the program -/

/-- The world after an interrupt that no command has reported. -/
def Reader.abort (reader : Reader) (u : World) : World := { u with log := u.log ++ reader.aborted.events }

theorem Reader.run_of_ok {status : Nat} (h : reader.dispatch words w = .ok status w') :
    reader.run words w = .ok status w' := by
  rw [run, h]

theorem Reader.run_of_interrupted (h : reader.dispatch words w = .error .interrupted w') :
    reader.run words w = .ok reader.aborted.status (reader.abort w') := by
  rw [run, h]
  rfl

end Runbook.CommandLine
