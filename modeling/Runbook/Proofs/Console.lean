import Runbook.World
import Runbook.Proofs.Effect

/-! # What is said

A notice that is not shown leaves the world as it is; what the user asked to see is always written. The console of the
world takes everything (`Console.not_refuses`); others may refuse what they are told. -/

namespace Runbook

open Effect

variable {n : Notice} {v : Verbosity} {w : World}

/-- The console refuses something with a fault. -/
def Console.Refuses [Console] (e : Fault) : Prop := ∃ n w w', Action.say n w = .error e w'

theorem Action.raises_say [Console] (n : Notice) : Raises Console.Refuses (say n) := fun w _ w' he => ⟨n, w, w', he⟩

theorem Console.not_refuses (e : Fault) : ¬ Console.Refuses e := by
  rintro ⟨n, w, w', he⟩
  cases he

theorem Notice.not_isShown_debug (hv : v < .debug) (message : Text) : (Notice.debug message).isShown v = false := by
  have hnot : ¬ Verbosity.debug ≤ v := Int.not_le.mpr hv
  simp [isShown, threshold, hnot]

theorem Notice.not_isShown_info (hv : v < .info) (message : Text) : (Notice.info message).isShown v = false := by
  have hnot : ¬ Verbosity.info ≤ v := Int.not_le.mpr hv
  simp [isShown, threshold, hnot]

namespace World

theorem say_of_not_shown (h : n.isShown w.verbosity = false) : w.say n = w := by
  simp [say, Notice.events, h]

theorem say_debug (hv : w.verbosity < .debug) (message : Text) : w.say (.debug message) = w :=
  say_of_not_shown (Notice.not_isShown_debug hv message)

theorem say_info (hv : w.verbosity < .info) (message : Text) : w.say (.info message) = w :=
  say_of_not_shown (Notice.not_isShown_info hv message)

@[simp] theorem write_log (w : World) (e : Event) : (w.write e).log = w.log ++ [e] := by
  unfold write
  cases w.tee <;> rfl

@[simp] theorem say_echo_log (w : World) (message : Text) : (w.say (.echo message)).log = w.log ++ [.out message] := by
  simp [say, Notice.events, Notice.isShown, Notice.threshold, Notice.writes]

end World

namespace Action

theorem forM_echo (texts : List Text) (w : World) :
    ∃ w', (texts.forM fun text => say (.echo text)) w = .ok () w' ∧ w'.log = w.log ++ texts.map .out := by
  induction texts generalizing w with
  | nil => exact ⟨w, rfl, by simp⟩
  | cons text texts ih =>
    obtain ⟨w', hrun, hlog⟩ := ih (w.say (.echo text))
    refine ⟨w', hrun, ?_⟩
    rw [hlog, World.say_echo_log, List.append_assoc]
    rfl

end Action

end Runbook
