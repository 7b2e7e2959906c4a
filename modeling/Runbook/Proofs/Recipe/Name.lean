import Runbook.Recipe.Name
import Runbook.Text.Blank

/-! # The characters of variable names

A variable name is made of ASCII letters, digits, underscores and hyphens; so no blank and no equals sign stands in
it. -/

namespace Runbook

variable {c : Char} {name : Text}

theorem Text.isBlank_of_graphic (h : 0x21 ≤ c.toNat) (h' : c.toNat ≤ 0x7E) : isBlank c = false := by
  simp only [isBlank, Bool.or_eq_false_iff, Bool.and_eq_false_iff, decide_eq_false_iff_not, beq_eq_false_iff_ne]
  omega

namespace VariableName

theorem isTail_of_isValid (h : isValid name = true) : ∀ c ∈ name, isTail c = true := by
  cases name with
  | nil => exact fun _ hc => absurd hc List.not_mem_nil
  | cons a as =>
    simp only [isValid, Bool.and_eq_true, List.all_eq_true] at h
    intro c hc
    rcases List.mem_cons.mp hc with rfl | hc
    · rw [isTail, h.1]
      rfl
    · exact h.2 c hc

theorem isBlank_of_isTail (h : isTail c = true) : Text.isBlank c = false := by
  simp only [isTail, isHead, Bool.or_eq_true, Bool.and_eq_true, decide_eq_true_eq, beq_iff_eq, Char.le_def,
    UInt32.le_iff_toNat_le] at h
  rcases h with (((⟨hlow, hhigh⟩ | ⟨hlow, hhigh⟩) | rfl) | rfl) | ⟨hlow, hhigh⟩
  · exact Text.isBlank_of_graphic (Nat.le_trans (by decide) hlow) (Nat.le_trans hhigh (by decide))
  · exact Text.isBlank_of_graphic (Nat.le_trans (by decide) hlow) (Nat.le_trans hhigh (by decide))
  · rfl
  · rfl
  · exact Text.isBlank_of_graphic (Nat.le_trans (by decide) hlow) (Nat.le_trans hhigh (by decide))

theorem not_mem_of_isValid (h : isValid name = true) (hc : isTail c = false) : c ∉ name := by
  intro hmem
  rw [isTail_of_isValid h c hmem] at hc
  cases hc

end VariableName

end Runbook
