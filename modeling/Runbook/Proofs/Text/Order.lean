import Runbook.Text
import Mathlib.Tactic.Common

/-! # The order of texts

Texts are in the order of their characters, which is total (`Text.le_total`), and sorting brings them into it
(`Text.sorted_sort`). Texts with a common end are in the order in which they are without it, unless one of them goes on
where the other one ends (`Text.le_of_le_append`). -/

namespace Runbook.Text

variable {s t u x : Text}

theorem le_cons_iff {a b : Char} : le (a :: s) (b :: t) = true ↔ a < b ∨ a = b ∧ le s t = true := by
  simp only [le, Bool.or_eq_true, decide_eq_true_eq, Bool.and_eq_true, beq_iff_eq]

theorem le_refl : ∀ s : Text, le s s = true
  | [] => rfl
  | _ :: s => le_cons_iff.mpr (Or.inr ⟨rfl, le_refl s⟩)

theorem le_trans : ∀ {s t u : Text}, le s t = true → le t u = true → le s u = true
  | [], _, _, _, _ => rfl
  | _ :: _, [], _, h, _ => by cases h
  | _ :: _, _ :: _, [], _, h => by cases h
  | a :: s, b :: t, c :: u, h, h' => by
    rw [le_cons_iff] at h h' ⊢
    rcases h with h | ⟨rfl, h⟩
    · rcases h' with h' | ⟨rfl, -⟩
      · exact Or.inl (Char.lt_trans h h')
      · exact Or.inl h
    · rcases h' with h' | ⟨rfl, h'⟩
      · exact Or.inl h'
      · exact Or.inr ⟨rfl, le_trans h h'⟩

theorem le_total : ∀ s t : Text, le s t = true ∨ le t s = true
  | [], _ => Or.inl rfl
  | _ :: _, [] => Or.inr rfl
  | a :: s, b :: t => by
    rw [le_cons_iff, le_cons_iff]
    by_cases hab : a = b
    · exact (le_total s t).imp (fun h => Or.inr ⟨hab, h⟩) fun h => Or.inr ⟨hab.symm, h⟩
    · by_cases hlt : a < b
      · exact Or.inl (Or.inl hlt)
      · have hle : b ≤ a := Char.not_lt.mp hlt
        exact Or.inr (Or.inl (Char.not_le.mp fun hle' => hab (Char.le_antisymm hle' hle)))

theorem sorted_sort (ts : List Text) : (sort ts).Pairwise fun s t => le s t = true :=
  @List.pairwise_mergeSort Text le (fun _ _ _ => le_trans) (fun s t => (Bool.or_eq_true _ _).mpr (le_total s t)) ts

theorem le_append : ∀ s x : Text, le s (s ++ x) = true
  | [], _ => rfl
  | _ :: s, x => le_cons_iff.mpr (Or.inr ⟨rfl, le_append s x⟩)

/-- A text that comes before a longer one comes before the beginning of that one, unless it goes on where the beginning
    ends. -/
theorem le_of_le_append_left : ∀ {s t : Text}, le s (t ++ x) = true →
    le s t = true ∨ ∃ u, u ≠ [] ∧ s = t ++ u ∧ le u x = true
  | [], t, _ => Or.inl rfl
  | a :: s, [], h => Or.inr ⟨a :: s, List.cons_ne_nil a s, rfl, h⟩
  | a :: s, b :: t, h => by
    rw [List.cons_append, le_cons_iff] at h
    rw [le_cons_iff]
    rcases h with h | ⟨rfl, h⟩
    · exact Or.inl (Or.inl h)
    · rcases le_of_le_append_left h with h | ⟨u, hu, rfl, hle⟩
      · exact Or.inl (Or.inr ⟨rfl, h⟩)
      · exact Or.inr ⟨u, hu, rfl, hle⟩

/-- Without a common end, texts are in the order in which they are with it, unless the first one goes on where the second
    one ends. -/
theorem le_of_le_append : ∀ {s t : Text}, le (s ++ x) (t ++ x) = true →
    le s t = true ∨ ∃ u, u ≠ [] ∧ s = t ++ u ∧ le (u ++ x) x = true
  | [], t, _ => Or.inl rfl
  | a :: s, [], h => Or.inr ⟨a :: s, List.cons_ne_nil a s, rfl, h⟩
  | a :: s, b :: t, h => by
    rw [List.cons_append, List.cons_append, le_cons_iff] at h
    rw [le_cons_iff]
    rcases h with h | ⟨rfl, h⟩
    · exact Or.inl (Or.inl h)
    · rcases le_of_le_append h with h | ⟨u, hu, rfl, hle⟩
      · exact Or.inl (Or.inr ⟨rfl, h⟩)
      · exact Or.inr ⟨u, hu, rfl, hle⟩

end Runbook.Text
