import Runbook.Proofs.Include.Rereading

/-! # Lines at a cursor

Where the reading of a file is after some lines does not depend on what the files included in between read to
(`readLines_cursor`), so it can be told from the lines alone which of them include a file. A reading of lines that fails
does so at one line, before which all has been well (`readLines_eq_error`). -/

namespace Runbook.Include

open Text Effect

variable {σ : Type} {homes : Homes} {base : Text} {include? : Line → Text → Reading σ (List Line)} {c c' : Cursor}
  {raw : Text} {raws : List Text} {lines : List Line} {s s' : σ} {e : Fault}

namespace Cursor

/-- A line as it stands at a cursor. -/
def here (c : Cursor) (raw : Text) : Line := ⟨c.assembler.source, c.assembler.path, c.number, trim raw, none⟩

/-- Whether a line includes a file at a cursor, as no line of an open block does. -/
def Includes (c : Cursor) (raw : Text) : Prop := c.assembler.block = none ∧ isStatement (trim raw) = true

instance (c : Cursor) (raw : Text) : Decidable (c.Includes raw) := inferInstanceAs (Decidable (_ ∧ _))

/-- What a line gives that includes no file: the cursor after it, and the logical line it completes. -/
def take (c : Cursor) (raw : Text) : Cursor × List Line :=
  if c.assembler.block = none ∧ isSilent (trim raw) = true then (⟨c.assembler, c.number + 1⟩, [])
  else
    let r := c.assembler.feed c.number raw
    (⟨r.1, c.number + 1⟩, r.2.toList)

/-- The cursor after a line. -/
def pass (c : Cursor) (raw : Text) : Cursor :=
  if c.Includes raw then ⟨c.assembler, c.number + 1⟩ else (c.take raw).1

/-- The cursor after some lines. -/
def passAll (c : Cursor) (raws : List Text) : Cursor := raws.foldl pass c

@[simp] theorem passAll_nil (c : Cursor) : c.passAll [] = c := rfl

@[simp] theorem passAll_cons (c : Cursor) (raw : Text) (raws : List Text) :
    c.passAll (raw :: raws) = (c.pass raw).passAll raws := rfl

theorem take_number (c : Cursor) (raw : Text) : (c.take raw).1.number = c.number + 1 := by
  unfold take
  split <;> rfl

theorem pass_number (c : Cursor) (raw : Text) : (c.pass raw).number = c.number + 1 := by
  unfold pass
  split
  · rfl
  · exact c.take_number raw

theorem passAll_number (c : Cursor) (raws : List Text) : (c.passAll raws).number = c.number + raws.length := by
  induction raws generalizing c with
  | nil => simp
  | cons raw raws ih =>
    rw [passAll_cons, ih, pass_number, List.length_cons]
    omega

theorem feed_file (a : Assembler) (number : Int) (raw : Text) :
    (a.feed number raw).1.source = a.source ∧ (a.feed number raw).1.path = a.path := by
  unfold Assembler.feed
  cases a.block with
  | some b =>
    dsimp only
    split <;> exact ⟨rfl, rfl⟩
  | none =>
    dsimp only
    split
    · exact ⟨rfl, rfl⟩
    · split <;> exact ⟨rfl, rfl⟩

theorem pass_file (c : Cursor) (raw : Text) :
    (c.pass raw).assembler.source = c.assembler.source ∧ (c.pass raw).assembler.path = c.assembler.path := by
  unfold pass take
  split
  · exact ⟨rfl, rfl⟩
  · split
    · exact ⟨rfl, rfl⟩
    · exact feed_file c.assembler c.number raw

theorem passAll_file (c : Cursor) (raws : List Text) :
    (c.passAll raws).assembler.source = c.assembler.source ∧ (c.passAll raws).assembler.path = c.assembler.path := by
  induction raws generalizing c with
  | nil => exact ⟨rfl, rfl⟩
  | cons raw raws ih =>
    obtain ⟨hsource, hpath⟩ := ih (c.pass raw)
    exact ⟨hsource.trans (c.pass_file raw).1, hpath.trans (c.pass_file raw).2⟩

theorem here_passAll (source path raw : Text) (raws : List Text) :
    ((Cursor.mk (.ofFile source path) 1).passAll raws).here raw =
      ⟨source, path, 1 + raws.length, trim raw, none⟩ := by
  obtain ⟨hsource, hpath⟩ := (Cursor.mk (.ofFile source path) 1).passAll_file raws
  rw [here, passAll_number, hsource, hpath]
  rfl

end Cursor

/-! ### Reading lines -/

/-- A line that includes a file gives what its target gives, any other one what it gives by itself. -/
theorem readLine_eq (c : Cursor) (raw : Text) (s : σ) : readLine homes base include? c raw s =
    if c.Includes raw then
      match target homes base (c.here raw) with
      | .error e => .error e s
      | .ok path => (do
          let lines ← include? (c.here raw) path
          return (c.pass raw, lines) : Reading σ (Cursor × List Line)) s
    else .ok (c.take raw) s := by
  by_cases h : c.Includes raw
  · rw [if_pos h, readLine_statement h.1 h.2, Cursor.pass, if_pos h]
    rfl
  · rw [if_neg h, Cursor.take]
    by_cases hsilent : c.assembler.block = none ∧ isSilent (trim raw) = true
    · rw [if_pos hsilent, readLine_silent hsilent.1 hsilent.2]
    · rw [if_neg hsilent, readLine_feed]
      intro hb
      exact ⟨by simpa [hb] using hsilent, by simpa [Cursor.Includes, hb] using h⟩

theorem readLine_eq_ok (h : readLine homes base include? c raw s = .ok (c', lines) s') : c' = c.pass raw ∧
    ((¬ c.Includes raw ∧ lines = (c.take raw).2 ∧ s' = s) ∨
      ∃ path, c.Includes raw ∧ target homes base (c.here raw) = .ok path ∧
        include? (c.here raw) path s = .ok lines s') := by
  rw [readLine_eq] at h
  by_cases hincludes : c.Includes raw
  · rw [if_pos hincludes] at h
    cases ht : target homes base (c.here raw) with
    | error e =>
      rw [ht] at h
      cases h
    | ok path =>
      simp only [ht] at h
      obtain ⟨lines', s₁, hinclude, h⟩ := bind_eq_ok h
      cases h
      exact ⟨rfl, Or.inr ⟨path, hincludes, rfl, hinclude⟩⟩
  · rw [if_neg hincludes] at h
    obtain ⟨htake, rfl⟩ : c.take raw = (c', lines) ∧ s = s' := by simpa using h
    exact ⟨by rw [Cursor.pass, if_neg hincludes, htake], Or.inl ⟨hincludes, by rw [htake], rfl⟩⟩

theorem readLine_eq_error (h : readLine homes base include? c raw s = .error e s') : c.Includes raw ∧
    (target homes base (c.here raw) = .error e ∨
      ∃ path, target homes base (c.here raw) = .ok path ∧ include? (c.here raw) path s = .error e s') := by
  rw [readLine_eq] at h
  by_cases hincludes : c.Includes raw
  · rw [if_pos hincludes] at h
    refine ⟨hincludes, ?_⟩
    cases ht : target homes base (c.here raw) with
    | error e' =>
      rw [ht] at h
      cases h
      exact Or.inl rfl
    | ok path =>
      simp only [ht] at h
      rcases bind_eq_error h with hinclude | ⟨lines, s₁, -, h⟩
      · exact Or.inr ⟨path, rfl, hinclude⟩
      · cases h
  · rw [if_neg hincludes] at h
    cases h

theorem readLines_cursor (h : readLines homes base include? c raws s = .ok (c', lines) s') : c' = c.passAll raws := by
  induction raws generalizing c lines s with
  | nil =>
    cases h
    rfl
  | cons raw raws ih =>
    obtain ⟨⟨c₁, first⟩, s₁, h₁, h⟩ := bind_eq_ok h
    obtain ⟨⟨c₂, more⟩, s₂, h₂, h⟩ := bind_eq_ok h
    cases h
    rw [ih h₂, (readLine_eq_ok h₁).1, Cursor.passAll_cons]

theorem readLines_eq_error (h : readLines homes base include? c raws s = .error e s') :
    ∃ before raw after lines s₁, raws = before ++ raw :: after ∧
      readLines homes base include? c before s = .ok (c.passAll before, lines) s₁ ∧
      readLine homes base include? (c.passAll before) raw s₁ = .error e s' := by
  induction raws generalizing c s with
  | nil => cases h
  | cons raw raws ih =>
    rcases bind_eq_error h with hread | ⟨⟨c₁, first⟩, s₁, hread, h⟩
    · exact ⟨[], raw, raws, [], s, rfl, rfl, hread⟩
    · obtain rfl := (readLine_eq_ok hread).1
      rcases bind_eq_error h with hrest | ⟨⟨c₂, more⟩, s₂, -, h⟩
      · obtain ⟨before, raw', after, lines, s₃, rfl, hbefore, hat⟩ := ih hrest
        refine ⟨raw :: before, raw', after, first ++ lines, s₃, rfl, ?_, hat⟩
        rw [readLines_cons hread, bind_of_ok hbefore]
        rfl
      · cases h

end Runbook.Include
