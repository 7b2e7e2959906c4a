import Runbook.Proofs.Path.Direct
import Runbook.Proofs.Path.Lexical

/-! # Straight paths

A straight path is absolute, and each of its names leads on. What a process makes absolute is straight
(`Path.straight_absolute`), and so is what it resolves (`Files.resolve_straight`). -/

namespace Runbook

variable {p q cwd : Path} {files : Files}

/-- The path begins at the root, and each of its names leads on and can be told in its text. -/
structure Path.Straight (p : Path) : Prop where
  isAbsolute : p.isAbsolute = true
  proper : p.Proper
  onward : Path.Onward p.names

namespace Path

theorem straight_absolute (ha : cwd.isAbsolute = true) (hcwd : cwd.Proper) (hp : p.Proper) :
    (p.absolute cwd).Straight := by
  have hjoin : (cwd.join p).Proper := hcwd.join hp
  have habsolute : (cwd.join p).isAbsolute = true := join_isAbsolute ha p
  refine ⟨habsolute, hjoin.collapse, fun name hname => ?_⟩
  rw [absolute, collapse, habsolute] at hname
  have hown := Tree.isOwnName_of_mem_collapse (fun name hname => ⟨(hjoin name hname).1, (hjoin name hname).2.1⟩) name hname
  exact ⟨hown.ne_nil, hown.ne_dot, hown.ne_dots⟩

/-- Whatever links say, only names that can be told in a text are gone through. -/
theorem inherits_proper : Inherits (fun name => name ≠ [] ∧ name ≠ ['.'] ∧ '/' ∉ name) (fun _ => True) where
  part _ hname hne hdot := ⟨hne, hdot, Text.not_mem_of_mem_splitOn hname⟩
  path _ := trivial
  join _ _ := trivial

theorem resolve_proper {target? : Path → Option Text} (h : p.resolve target? = .done q) : q.Proper :=
  (resolveFrom_keeps inherits_proper (fun _ _ _ => trivial) maxDepth (fun _ _ hmem => by cases hmem)
    (fun _ hname => by cases hname) trivial).done q h

end Path

theorem Files.resolve_straight (ha : files.cwd.isAbsolute = true) (hcwd : files.cwd.Proper)
    (h : files.resolve p = .ok q) : q.Straight := by
  unfold Files.resolve at h
  dsimp only at h
  split at h
  · cases h
  · rename_i found hsome
    have hfound : found.Straight := by
      cases hresolution : p.resolve files.target? with
      | done p' =>
        rw [hresolution] at hsome
        cases hsome
        exact Path.straight_absolute ha hcwd (Path.resolve_proper hresolution)
      | circle written =>
        rw [hresolution] at hsome
        cases hsome
        exact Path.straight_absolute ha hcwd (Path.proper_ofText written)
      | tooDeep =>
        rw [hresolution] at hsome
        cases hsome
    split at h
    · cases h
    · cases h
      exact hfound

end Runbook
