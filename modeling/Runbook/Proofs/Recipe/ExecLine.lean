import Runbook.Proofs.Recipe.Exchange
import Runbook.Proofs.Words.Written

/-! # Lines that run a command

Words written one after the other neither begin nor end with a blank, whatever is in them (`Words.trim_join`). So a line
that gives a recipe a step which runs a command is read as it stands (`readLine_execLine`), and the text of the step is the
words as they were written (`ofValue_exec`). -/

namespace Runbook

open Text Include

variable {c d : Char} {w : Text} {words : List Text} {line : Line}

/-! ### Written words -/

namespace Words

theorem mem_quote (h : c ∈ quote w) : c = '"' ∨ c = '\\' ∨ c ∈ w := by
  have hbody : c ∈ w.flatMap escape → c = '\\' ∨ c ∈ w := by
    intro hmem
    obtain ⟨d, hd, hc⟩ := List.mem_flatMap.mp hmem
    unfold escape at hc
    split at hc
    · rcases List.mem_cons.mp hc with rfl | hc
      · exact Or.inl rfl
      · exact Or.inr (List.mem_singleton.mp hc ▸ hd)
    · exact Or.inr (List.mem_singleton.mp hc ▸ hd)
  unfold quote at h
  dsimp only at h
  split at h
  · rcases List.mem_append.mp h with h | h
    · rcases List.mem_append.mp h with h | h
      · exact Or.inl (List.mem_singleton.mp h)
      · exact Or.inr (hbody h)
    · exact Or.inl (List.mem_singleton.mp h)
  · exact Or.inr (hbody h)

theorem join_cons_cons (w w' : Text) (words : List Text) :
    join (w :: w' :: words) = quote w ++ ' ' :: join (w' :: words) := by
  simp [join, joinWith]

theorem mem_join (h : c ∈ join words) : c = ' ' ∨ c = '"' ∨ c = '\\' ∨ ∃ w ∈ words, c ∈ w := by
  induction words with
  | nil => cases h
  | cons w words ih =>
    have hquote : c ∈ quote w → c = ' ' ∨ c = '"' ∨ c = '\\' ∨ ∃ v ∈ w :: words, c ∈ v := fun hmem =>
      (mem_quote hmem).elim (fun h => Or.inr (Or.inl h)) fun hmem => hmem.elim (fun h => Or.inr (Or.inr (Or.inl h)))
        fun hmem => Or.inr (Or.inr (Or.inr ⟨w, List.mem_cons_self, hmem⟩))
    cases words with
    | nil => exact hquote h
    | cons w' words =>
      rw [join_cons_cons] at h
      rcases List.mem_append.mp h with h | h
      · exact hquote h
      · rcases List.mem_cons.mp h with rfl | h
        · exact Or.inl rfl
        · rcases ih h with h | h | h | ⟨v, hv, hc⟩
          · exact Or.inl h
          · exact Or.inr (Or.inl h)
          · exact Or.inr (Or.inr (Or.inl h))
          · exact Or.inr (Or.inr (Or.inr ⟨v, List.mem_cons_of_mem _ hv, hc⟩))

/-- A written word begins and ends with a character that is not blank. -/
theorem quote_edges (w : Text) : quote w ≠ [] ∧ trimLeft (quote w) = quote w ∧ trimRight (quote w) = quote w := by
  unfold quote
  dsimp only
  by_cases hneeds : (w.isEmpty || w.any isBlank) = true
  · rw [if_pos hneeds]
    have hquote : trimRight "\"".toList = "\"".toList := rfl
    exact ⟨by simp, rfl, trimRight_append_self hquote (List.cons_ne_nil _ _) _⟩
  · rw [if_neg hneeds]
    obtain ⟨hne, hblank⟩ : w ≠ [] ∧ ∀ c ∈ w, isBlank c = false := by simpa using hneeds
    have hbody : ∀ c ∈ w.flatMap escape, isBlank c = false := by
      intro c hc
      obtain ⟨d, hd, hc⟩ := List.mem_flatMap.mp hc
      unfold escape at hc
      split at hc
      · rcases List.mem_cons.mp hc with rfl | hc
        · rfl
        · exact List.mem_singleton.mp hc ▸ hblank d hd
      · exact List.mem_singleton.mp hc ▸ hblank d hd
    have htrim := trim_of_noBlank hbody
    have hleft : trimLeft (w.flatMap escape) = w.flatMap escape := by rw [← htrim, trimLeft_trim]
    refine ⟨?_, hleft, by rwa [trim, hleft] at htrim⟩
    obtain ⟨c, w, rfl⟩ := List.exists_cons_of_ne_nil hne
    have hescape : escape c ≠ [] := by
      unfold escape
      split <;> exact List.cons_ne_nil _ _
    rw [List.flatMap_cons]
    exact List.append_ne_nil_of_left_ne_nil hescape _

theorem join_edges (h : words ≠ []) :
    join words ≠ [] ∧ trimLeft (join words) = join words ∧ trimRight (join words) = join words := by
  induction words with
  | nil => exact absurd rfl h
  | cons w words ih =>
    obtain ⟨hne, hleft, hright⟩ := quote_edges w
    cases words with
    | nil => exact ⟨hne, hleft, hright⟩
    | cons w' words =>
      obtain ⟨hne', -, hright'⟩ := ih (List.cons_ne_nil _ _)
      rw [join_cons_cons]
      refine ⟨List.append_ne_nil_of_left_ne_nil hne _, ?_, ?_⟩
      · refine trimLeft_of_head fun hs => ?_
        rw [List.head_append_of_ne_nil hne]
        have hhead := head_trimLeft (s := quote w) (by rwa [hleft])
        simpa only [hleft] using hhead
      · rw [List.append_cons]
        exact trimRight_append_self hright' hne' _

theorem trim_join (h : words ≠ []) : trim (join words) = join words := by
  obtain ⟨-, hleft, hright⟩ := join_edges h
  rw [trim, hleft, hright]

end Words

/-! ### The line -/

namespace Recipe

/-- The line that gives a recipe a step which runs a command. -/
def execLine (words : List Text) : Text := "step = exec " ++ Words.join words

theorem trim_execLine (h : words ≠ []) : trim (execLine words) = execLine words := by
  obtain ⟨hne, -, hright⟩ := Words.join_edges h
  have hleft : trimLeft (execLine words) = execLine words := rfl
  rw [trim, hleft]
  exact trimRight_append_self hright hne _

theorem isLine_execLine (h : words ≠ []) (hfeed : ∀ w ∈ words, '\n' ∉ w) : IsLine (execLine words) := by
  have hnone : '\n' ∉ execLine words := by
    intro hmem
    rcases List.mem_append.mp hmem with hmem | hmem
    · exact absurd hmem (by decide)
    · rcases Words.mem_join hmem with h | h | h | ⟨w, hw, hmem⟩
      · cases h
      · cases h
      · cases h
      · exact hfeed w hw hmem
  rw [← trim_execLine h]
  exact isLine_trim hnone

theorem opening?_execLine (words : List Text) : Block.opening? (execLine words) = none := rfl

/-- Such a line is read as it stands. -/
theorem readLine_execLine {σ : Type} {homes : Homes} {base source path : Text} {number : Int}
    {include? : Line → Text → Reading σ (List Line)} (h : words ≠ []) (st : σ) :
    readLine homes base include? ⟨.ofFile source path, number⟩ (execLine words) st =
      .ok (⟨.ofFile source path, number + 1⟩, [⟨source, path, number, execLine words, none⟩]) st := by
  have htrim := trim_execLine h
  rw [readLine_plain (by rw [htrim]; rfl) (by rw [htrim]; rfl) (by rw [htrim]; exact opening?_execLine words), htrim]

/-- The step that the value of such a line makes. -/
theorem ofValue_exec (h : words ≠ []) (line : Line) :
    Step.ofValue ("exec " ++ Words.join words) line = .ok ⟨.exec, Words.join words, some line⟩ :=
  ofValue_value (d := .exec) (by decide) (Words.trim_join h) (Words.join_edges h).1 line

/-- A logical line that gives a recipe a step which runs a command. -/
structure IsExec (words : List Text) (line : Line) : Prop where
  text : line.text = execLine words
  value : line.value = none

namespace IsExec

variable (hline : IsExec words line)
include hline

theorem isHeader : line.isHeader = false := by
  rw [Line.isHeader, hline.text, hline.value]
  rfl

theorem key : line.key = "step".toList := by
  rw [Line.key, hline.text]
  rfl

theorem fits {before : List Line} (h : lastSection before = some .steps) : Fits before line := by
  have hequals : '=' ∈ "step = exec ".toList := by decide
  rw [Fits, if_neg (by simp [hline.isHeader]), h, hline.text, hline.key]
  exact ⟨.steps, rfl, List.mem_append_left _ hequals, rfl⟩

theorem assignment (h : words ≠ []) : line.assignment = .ok ("step", "exec " ++ Words.join words) := by
  obtain ⟨hne, -, hright⟩ := Words.join_edges h
  have hvalue : trim ((cut '=' line.text).2.getD []) = "exec " ++ Words.join words := by
    rw [hline.text]
    show trimRight ("exec ".toList ++ Words.join words) = _
    exact trimRight_append_self hright hne _
  have hquoted : startsWith "\"" ("exec " ++ Words.join words) = false := rfl
  have hinfo : quotedInfo? ("exec " ++ Words.join words) = none := rfl
  rw [Line.assignment, hline.value]
  dsimp only
  rw [hvalue, hquoted, hinfo, hline.key]
  rfl

theorem assigned (h : words ≠ []) : line.assigned = "exec " ++ Words.join words := by
  rw [Line.assigned, hline.assignment h]

end IsExec

end Recipe

end Runbook
