import Runbook.Proofs.Effect
import Runbook.Include

/-! # What the readers do

A file is read in rounds, each of which takes what has been added since the one before (`readOn_apply`), once it has
been looked for, is not being read already, and may be opened (`expand_succ`). -/

namespace Runbook.Include

open Text Effect

variable {σ : Type} {view : View σ} {c c' : Cursor} {lines : List Line} {s s' : σ} {source : Text} {p : Path}
  {fuel rounds seen : Nat} {stack : List Text} {includedAt : Option Line}

theorem finish_of_closed (h : c.assembler.block = none) (s : σ) : (c.finish : Reading σ (List Line)) s = .ok [] s := by
  simp [Cursor.finish, Assembler.finish, h]

theorem finish_eq_ok_iff : (c.finish : Reading σ (List Line)) s = .ok lines s' ↔
    c.assembler.block = none ∧ lines = [] ∧ s' = s := by
  unfold Cursor.finish Assembler.finish
  cases c.assembler.block with
  | none => simp [eq_comm]
  | some b => simp

section
variable {take : Cursor → List Text → Reading σ (Cursor × List Line)}

theorem readOn_apply (view : View σ) (p : Path) (take : Cursor → List Text → Reading σ (Cursor × List Line))
    (rounds seen : Nat) (c : Cursor) (s : σ) : readOn view p take rounds seen c s =
      if ((view.files s).content p).length ≤ seen then c.finish s
      else (do
        let (c, lines) ← take c (rawLines (((view.files s).content p).drop seen)).1
        match (rawLines (((view.files s).content p).drop seen)).2 with
        | some flaw => throw (.load (.notUtf8 flaw ⟨c.assembler.source, c.assembler.path, c.number, [], none⟩))
        | none =>
          match rounds with
          | 0 => throw (.endless c.assembler.path)
          | rounds + 1 => return lines ++ (← readOn view p take rounds ((view.files s).content p).length c) :
            Reading σ (List Line)) s := by
  rw [readOn, get_bind_apply]
  split <;> rfl

theorem readOn_of_length_le (h : ((view.files s).content p).length ≤ seen) :
    readOn view p take rounds seen c s = c.finish s := by
  rw [readOn_apply, if_pos h]

/-- A reading that ends well is at the end, or has read what is there and goes on after it. -/
theorem readOn_eq_ok (h : readOn view p take rounds seen c s = .ok lines s') :
    (((view.files s).content p).length ≤ seen ∧ c.finish s = .ok lines s') ∨
      ∃ rounds' c' first more s₁, rounds = rounds' + 1 ∧ seen < ((view.files s).content p).length ∧
        (rawLines (((view.files s).content p).drop seen)).2 = none ∧
        take c (rawLines (((view.files s).content p).drop seen)).1 s = .ok (c', first) s₁ ∧
        readOn view p take rounds' ((view.files s).content p).length c' s₁ = .ok more s' ∧ lines = first ++ more := by
  rw [readOn_apply] at h
  split at h
  · exact Or.inl ⟨‹_›, h⟩
  · rename_i hlt
    obtain ⟨⟨c', first⟩, s₁, htake, h⟩ := bind_eq_ok h
    cases hflaw : (rawLines (((view.files s).content p).drop seen)).2 with
    | some flaw =>
      simp only [hflaw] at h
      cases h
    | none =>
      simp only [hflaw] at h
      cases rounds with
      | zero => cases h
      | succ rounds =>
        obtain ⟨more, s₂, hmore, h⟩ := bind_eq_ok h
        cases h
        exact Or.inr ⟨rounds, c', first, more, s₁, rfl, Nat.not_le.mp hlt, rfl, htake, hmore, rfl⟩

end

/-- How the lines of a file are read while the files on the stack are being read. -/
def takeWith (view : View σ) (fuel : Nat) (stack : List Text) (files : Files) (p : Path) :
    Cursor → List Text → Reading σ (Cursor × List Line) :=
  readLines files.homes (files.absolute p).directory.toText fun line target =>
    expand view fuel (stack ++ [(files.absolute p).toText]) (some line) target (Path.ofText target)

theorem expand_succ (view : View σ) (fuel : Nat) (stack : List Text) (includedAt : Option Line) (source : Text)
    (p : Path) (s : σ) : expand view (fuel + 1) stack includedAt source p s =
      match (view.files s).isFile p with
      | .error e => .error (.file e p.toText) s
      | .ok false => .error (.load (.missingFile source includedAt)) s
      | .ok true =>
        if ((view.files s).absolute p).toText ∈ stack then
          .error (.load (.cycle (stack ++ [((view.files s).absolute p).toText]) includedAt)) s
        else if (view.files s).isDenied p then
          .error (.load (.unreadableFile source includedAt)) (view.opened ((view.files s).absolute p).toText s)
        else
          readOn view p (takeWith view fuel stack (view.files s) p) maxRounds 0
            ⟨.ofFile source ((view.files s).absolute p).toText, 1⟩
            (view.opened ((view.files s).absolute p).toText s) := by
  rw [expand, get_bind_apply]
  dsimp only
  cases (view.files s).isFile p with
  | error e => rfl
  | ok there =>
    cases there with
    | false => rfl
    | true =>
      by_cases hstack : ((view.files s).absolute p).toText ∈ stack
      · simp only [List.contains_iff_mem.mpr hstack, hstack, if_true]
        rfl
      · simp only [List.contains_iff_mem, hstack, if_false]
        rw [modify_bind_apply]
        cases (view.files s).isDenied p <;> rfl

theorem expand_of_isFile (hfile : (view.files s).isFile p = .ok true)
    (hstack : ((view.files s).absolute p).toText ∉ stack) (hdenied : (view.files s).isDenied p = false) :
    expand view (fuel + 1) stack includedAt source p s =
      readOn view p (takeWith view fuel stack (view.files s) p) maxRounds 0
        ⟨.ofFile source ((view.files s).absolute p).toText, 1⟩
        (view.opened ((view.files s).absolute p).toText s) := by
  rw [expand_succ, hfile]
  dsimp only
  rw [if_neg hstack, if_neg (by simp [hdenied])]

/-- A file to which nothing is added while it is read reads to what its lines read to. -/
theorem expand_of_takeWith (c' : Cursor) (hfile : (view.files s).isFile p = .ok true)
    (hstack : ((view.files s).absolute p).toText ∉ stack) (hdenied : (view.files s).isDenied p = false)
    {content : List UInt8}
    (hcontent : (view.files (view.opened ((view.files s).absolute p).toText s)).content p = content)
    (hflaw : (rawLines content).2 = none)
    (htake : takeWith view fuel stack (view.files s) p ⟨.ofFile source ((view.files s).absolute p).toText, 1⟩
      (rawLines content).1 (view.opened ((view.files s).absolute p).toText s) = .ok (c', lines) s')
    (hclosed : c'.assembler.block = none) (hlast : ((view.files s').content p).length ≤ content.length) :
    expand view (fuel + 1) stack includedAt source p s = .ok lines s' := by
  rw [expand_of_isFile hfile hstack hdenied, readOn_apply, hcontent]
  split
  · -- There are no lines in an empty file.
    rename_i hempty
    obtain rfl : content = [] := List.length_eq_zero_iff.mp (Nat.le_zero.mp hempty)
    cases htake
    exact finish_of_closed rfl _
  · rw [List.drop_zero, bind_of_ok htake, hflaw]
    show (readOn view p (takeWith view fuel stack (view.files s) p) 999 content.length c' >>= _) s' = _
    rw [bind_of_ok ((readOn_of_length_le hlast).trans (finish_of_closed hclosed _)), List.append_nil, pure_apply]

/-- So does a file whose lines cannot be read. -/
theorem expand_of_takeWith_error (hfile : (view.files s).isFile p = .ok true)
    (hstack : ((view.files s).absolute p).toText ∉ stack) (hdenied : (view.files s).isDenied p = false)
    {content : List UInt8} {e : Fault}
    (hcontent : (view.files (view.opened ((view.files s).absolute p).toText s)).content p = content)
    (htake : takeWith view fuel stack (view.files s) p ⟨.ofFile source ((view.files s).absolute p).toText, 1⟩
      (rawLines content).1 (view.opened ((view.files s).absolute p).toText s) = .error e s') :
    expand view (fuel + 1) stack includedAt source p s = .error e s' := by
  rw [expand_of_isFile hfile hstack hdenied, readOn_apply, hcontent]
  split
  · rename_i hempty
    obtain rfl : content = [] := List.length_eq_zero_iff.mp (Nat.le_zero.mp hempty)
    cases htake
  · rw [List.drop_zero, bind_of_error htake]

theorem expand_succ_eq_ok (h : expand view (fuel + 1) stack includedAt source p s = .ok lines s') :
    (view.files s).isFile p = .ok true ∧ ((view.files s).absolute p).toText ∉ stack ∧
      (view.files s).isDenied p = false ∧
      readOn view p (takeWith view fuel stack (view.files s) p) maxRounds 0
        ⟨.ofFile source ((view.files s).absolute p).toText, 1⟩ (view.opened ((view.files s).absolute p).toText s) =
          .ok lines s' := by
  rw [expand_succ] at h
  cases hfile : (view.files s).isFile p with
  | error e =>
    simp only [hfile] at h
    cases h
  | ok there =>
    cases there with
    | false =>
      simp only [hfile] at h
      cases h
    | true =>
      simp only [hfile] at h
      split at h
      · cases h
      · split at h
        · cases h
        · exact ⟨rfl, ‹_›, by simpa using ‹¬ (view.files s).isDenied p = true›, h⟩

/-! ### What reading changes -/

section
variable {R : σ → σ → Prop} [Frame R] {homes : Homes} {base : Text}

theorem leads_readLines {include? : Line → Text → Reading σ (List Line)}
    (h : ∀ line target, Leads R (include? line target)) (c : Cursor) (raws : List Text) :
    Leads R (readLines homes base include? c raws) := by
  have hline : ∀ c raw, Leads R (readLine homes base include? c raw) := by
    intro c raw
    unfold readLine
    dsimp only
    split
    · exact .pure _
    · split
      · cases target homes base ⟨c.assembler.source, c.assembler.path, c.number, trim raw, none⟩ with
        | error e => exact .throw _
        | ok path => exact (h _ path).bind fun _ => .pure _
      · exact .pure _
  induction raws generalizing c with
  | nil => exact .pure _
  | cons raw raws ih => exact (hline c raw).bind fun r => (ih r.1).bind fun _ => .pure _

theorem leads_readOn {take : Cursor → List Text → Reading σ (Cursor × List Line)}
    (h : ∀ c raws, Leads R (take c raws)) (view : View σ) (p : Path) (rounds seen : Nat) (c : Cursor) :
    Leads R (readOn view p take rounds seen c) := by
  have hfinish : ∀ c : Cursor, Leads R (c.finish : Reading σ (List Line)) := by
    intro c
    unfold Cursor.finish
    cases c.assembler.finish.2 with
    | none => exact .pure _
    | some start => exact .throw _
  induction rounds generalizing seen c with
  | zero =>
    intro s
    rw [readOn_apply]
    split
    · exact hfinish c s
    · refine (h c _).bind (fun r => ?_) s
      cases (rawLines (((view.files s).content p).drop seen)).2 <;> exact .throw _
  | succ rounds ih =>
    intro s
    rw [readOn_apply]
    split
    · exact hfinish c s
    · refine (h c _).bind (fun r => ?_) s
      cases (rawLines (((view.files s).content p).drop seen)).2 with
      | some flaw => exact .throw _
      | none => exact (ih _ r.1).bind fun _ => .pure _

/-- Reading changes what opening files changes. -/
theorem leads_expand (h : ∀ path s, R s (view.opened path s)) (fuel : Nat) (stack : List Text)
    (includedAt : Option Line) (source : Text) (p : Path) : Leads R (expand view fuel stack includedAt source p) := by
  induction fuel generalizing stack includedAt source p with
  | zero => exact .throw _
  | succ fuel ih =>
    intro s
    rw [expand_succ]
    split
    · exact Frame.refl s
    · exact Frame.refl s
    · split
      · exact Frame.refl s
      · split
        · exact h _ s
        · exact Frame.trans (h _ s)
            (leads_readOn (leads_readLines fun _ target => ih _ _ target _) view p maxRounds 0 _ _)

end

theorem depth_pos (files : Files) : ∃ n, depth files = n + 1 := by
  unfold depth
  split
  · exact ⟨_, rfl⟩
  · exact ⟨_, rfl⟩

end Runbook.Include
