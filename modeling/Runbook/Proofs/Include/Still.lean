import Runbook.Proofs.Include.Following

/-! # Files that do not change while they are read

A file that does not change while its lines are read is read as a whole (`readOn_eq_readWhole`), so that there is less to
look at when a file is read (`expand_still_succ`). -/

namespace Runbook

open Effect

namespace Include

variable {σ : Type} {view : View σ} {s : σ} {content : List UInt8} {files : Files} {p : Path} {homes : Homes}
  {base : Text} {include? : Line → Text → Reading σ (List Line)} {c : Cursor}

/-- Reads the content of a file that does not change meanwhile, taking its lines as `take` does. -/
def readWhole (content : List UInt8) (take : Cursor → List Text → Reading σ (Cursor × List Line)) (c : Cursor) :
    Reading σ (List Line) := do
  let (c, lines) ← take c (rawLines content).1
  match (rawLines content).2 with
  | some flaw => throw (.load (.notUtf8 flaw ⟨c.assembler.source, c.assembler.path, c.number, [], none⟩))
  | none => return lines ++ (← c.finish)

/-- A file that does not change while its lines are read is read as a whole: there is nothing more at its end. -/
theorem readOn_eq_readWhole (hcontent : (view.files s).content p = content)
    (hafter : ∀ r s', readLines homes base include? c (rawLines content).1 s = .ok r s' →
      (view.files s').content p = content) :
    readOn view p (readLines homes base include?) maxRounds 0 c s =
      readWhole content (readLines homes base include?) c s := by
  rw [readOn_apply, hcontent]
  by_cases hempty : content.length ≤ 0
  · obtain rfl : content = [] := List.length_eq_zero_iff.mp (Nat.le_zero.mp hempty)
    have hnone : readLines homes base include? c (rawLines []).1 s = .ok (c, []) s := rfl
    rw [if_pos hempty, readWhole, bind_of_ok hnone]
    show c.finish s = (c.finish >>= fun more => pure ([] ++ more) : Reading σ (List Line)) s
    cases hfinish : (c.finish : Reading σ (List Line)) s with
    | ok lines s' => rw [bind_of_ok hfinish, List.nil_append, pure_apply]
    | error e s' => rw [bind_of_error hfinish]
  · rw [if_neg hempty, List.drop_zero, readWhole]
    cases hread : readLines homes base include? c (rawLines content).1 s with
    | error e s' => rw [bind_of_error hread, bind_of_error hread]
    | ok r s' =>
      rw [bind_of_ok hread, bind_of_ok hread]
      dsimp only
      cases (rawLines content).2 with
      | some flaw => rfl
      | none =>
        have hlength : ((view.files s').content p).length ≤ content.length := by rw [hafter r s' hread]
        exact bind_congr_apply (readOn_of_length_le hlength)

theorem expand_still_succ (files : Files) (fuel : Nat) (stack : List Text) (includedAt : Option Line) (source : Text)
    (p : Path) (s : Unit) : expand (View.still files) (fuel + 1) stack includedAt source p s =
      match files.isFile p with
      | .error e => .error (.file e p.toText) s
      | .ok false => .error (.load (.missingFile source includedAt)) s
      | .ok true =>
        if (files.absolute p).toText ∈ stack then
          .error (.load (.cycle (stack ++ [(files.absolute p).toText]) includedAt)) s
        else if files.isDenied p then .error (.load (.unreadableFile source includedAt)) s
        else readWhole (files.content p) (takeWith (View.still files) fuel stack files p)
          ⟨.ofFile source (files.absolute p).toText, 1⟩ s := by
  have hwhole : readOn (View.still files) p (takeWith (View.still files) fuel stack files p) maxRounds 0
      ⟨.ofFile source (files.absolute p).toText, 1⟩ s =
        readWhole (files.content p) (takeWith (View.still files) fuel stack files p)
          ⟨.ofFile source (files.absolute p).toText, 1⟩ s := readOn_eq_readWhole rfl fun _ _ _ => rfl
  rw [← hwhole]
  exact expand_succ (View.still files) fuel stack includedAt source p s

end Include

end Runbook
