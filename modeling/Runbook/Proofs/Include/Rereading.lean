import Runbook.Proofs.Effect
import Runbook.Proofs.Text.Lines

/-! # Logical lines read again

The text of a logical line is that of the lines of the file it was assembled from, so it reads again to the same text
and value, wherever it stands (`Rereads`). -/

namespace Runbook

/-- What a logical line says, wherever it stands. -/
def Line.content (line : Line) : Text × Option Text := (line.text, line.value)

namespace Include

open Text Effect

variable {σ : Type} {homes : Homes} {base : Text} {include? : Line → Text → Reading σ (List Line)} {c c' : Cursor}
  {raw : Text} {raws raws' : List Text} {lines lines' : List Line} {line : Line} {s s' : σ} {source path : Text}
  {number : Int} {b : Block.Open}

/-! ### One line, and lines in a row -/

theorem readLine_silent (hb : c.assembler.block = none) (h : isSilent (trim raw) = true) (s : σ) :
    readLine homes base include? c raw s = .ok (⟨c.assembler, c.number + 1⟩, []) s := by
  simp [readLine, hb, h]

theorem readLine_feed (h : c.assembler.block = none → isSilent (trim raw) = false ∧ isStatement (trim raw) = false)
    (s : σ) : readLine homes base include? c raw s =
      .ok (⟨(c.assembler.feed c.number raw).1, c.number + 1⟩, (c.assembler.feed c.number raw).2.toList) s := by
  cases hb : c.assembler.block with
  | none =>
    obtain ⟨hsilent, hstatement⟩ := h hb
    simp [readLine, hb, hsilent, hstatement]
  | some b => simp [readLine, hb]

/-- A line that begins no block is taken as it stands, without the blanks around it. -/
theorem readLine_plain (hsilent : isSilent (trim raw) = false) (hstatement : isStatement (trim raw) = false)
    (hopening : Block.opening? (trim raw) = none) (s : σ) :
    readLine homes base include? ⟨.ofFile source path, number⟩ raw s =
      .ok (⟨.ofFile source path, number + 1⟩, [⟨source, path, number, trim raw, none⟩]) s := by
  have hfeed : (Assembler.ofFile source path).feed number raw =
      (.ofFile source path, some ⟨source, path, number, trim raw, none⟩) := by
    simp only [Assembler.feed, Assembler.ofFile, hopening]
  rw [readLine_feed (fun _ => ⟨hsilent, hstatement⟩), hfeed]
  rfl

theorem isSilent_of_isStatement {text : Text} (h : isStatement text = true) : isSilent text = false := by
  cases text with
  | nil => cases h
  | cons a text =>
    have hprefix : 'i' :: "nclude".toList <+: a :: text := by
      simp only [isStatement, Bool.and_eq_true] at h
      exact List.isPrefixOf_iff_prefix.mp h.1
    rw [← (List.cons_prefix_cons.mp hprefix).1]
    rfl

/-- An include line outside a block reads to what its target reads to. -/
theorem readLine_statement (hb : c.assembler.block = none) (h : isStatement (trim raw) = true) (s : σ) :
    readLine homes base include? c raw s =
      match target homes base ⟨c.assembler.source, c.assembler.path, c.number, trim raw, none⟩ with
      | .error e => .error e s
      | .ok path => (do
          let lines ← include? ⟨c.assembler.source, c.assembler.path, c.number, trim raw, none⟩ path
          return (⟨c.assembler, c.number + 1⟩, lines) : Reading σ (Cursor × List Line)) s := by
  simp only [readLine, hb, h, isSilent_of_isStatement h, Option.isNone_none, Bool.and_false, Bool.and_true,
    Bool.false_eq_true, if_false, if_true]
  cases target homes base ⟨c.assembler.source, c.assembler.path, c.number, trim raw, none⟩ <;> rfl

theorem readLines_nil (c : Cursor) (s : σ) : readLines homes base include? c [] s = .ok (c, []) s := rfl

theorem readLines_cons (h : readLine homes base include? c raw s = .ok (c', lines) s') :
    readLines homes base include? c (raw :: raws) s =
      (do let (c, lines') ← readLines homes base include? c' raws
          return (c, lines ++ lines')) s' := by
  rw [readLines, bind_of_ok h]

theorem readLines_append (h : readLines homes base include? c raws s = .ok (c', lines) s') :
    readLines homes base include? c (raws ++ raws') s =
      (do let (c, lines') ← readLines homes base include? c' raws'
          return (c, lines ++ lines')) s' := by
  induction raws generalizing c lines s with
  | nil =>
    obtain ⟨⟨rfl, rfl⟩, rfl⟩ : (c = c' ∧ [] = lines) ∧ s = s' := by simpa [readLines] using h
    rw [List.nil_append]
    cases hr : readLines homes base include? c raws' s with
    | ok r s' =>
      rw [bind_of_ok hr]
      rfl
    | error e s' => rw [bind_of_error hr]
  | cons raw raws ih =>
    obtain ⟨⟨c₁, first⟩, s₁, h₁, h⟩ := bind_eq_ok h
    obtain ⟨⟨c₂, more⟩, s₂, h₂, h⟩ := bind_eq_ok h
    obtain ⟨⟨rfl, rfl⟩, rfl⟩ : (c₂ = c' ∧ first ++ more = lines) ∧ s₂ = s' := by simpa using h
    rw [List.cons_append, readLines_cons h₁]
    cases hr : readLines homes base include? c₂ raws' s₂ with
    | ok r s' =>
      rw [bind_of_ok ((ih h₂).trans (bind_of_ok hr)), bind_of_ok hr]
      show EStateM.Result.ok (r.1, first ++ (more ++ r.2)) s' = .ok (r.1, first ++ more ++ r.2) s'
      rw [List.append_assoc]
    | error e s' => rw [bind_of_error ((ih h₂).trans (bind_of_error hr)), bind_of_error hr]

/-! ### What reads again -/

/-- The lines read to the logical line, wherever they stand. -/
structure ReadAs (raws : List Text) (line : Line) : Prop where
  nonempty : raws ≠ []
  text : line.text = joinWith "\n".toList raws
  isLine : ∀ raw ∈ raws, IsLine raw
  read : ∀ (σ : Type) (homes : Homes) (base : Text) (include? : Line → Text → Reading σ (List Line))
    (source path : Text) (number : Int) (s : σ),
    readLines homes base include? ⟨.ofFile source path, number⟩ raws s =
      .ok (⟨.ofFile source path, number + raws.length⟩, [⟨source, path, number, line.text, line.value⟩]) s

/-- Some lines read to the logical line. -/
def Rereads (line : Line) : Prop := ∃ raws, ReadAs raws line

/-- An open block whose first line stands elsewhere. -/
def moved (b : Block.Open) (source path : Text) (number : Int) : Block.Open :=
  { b with start := ⟨source, path, number, b.start.text, none⟩ }

/-- The lines that an open block spans open it again, wherever they stand. -/
structure Reopens (b : Block.Open) : Prop where
  isLine : ∀ raw ∈ b.raw, IsLine raw
  read : ∀ (σ : Type) (homes : Homes) (base : Text) (include? : Line → Text → Reading σ (List Line))
    (source path : Text) (number : Int) (s : σ),
    readLines homes base include? ⟨.ofFile source path, number⟩ b.raw s =
      .ok (⟨⟨source, path, some (moved b source path number)⟩, number + b.raw.length⟩, []) s

theorem readAs_trim {a : Assembler} (ha : a.block = none) (hsilent : isSilent (trim raw) = false)
    (hstatement : isStatement (trim raw) = false) (hraw : IsLine raw) (h : (a.feed number raw).2 = some line) :
    ReadAs [trim raw] line := by
  have htext : line.text = trim raw ∧ ∀ source path number,
      (Assembler.ofFile source path).feed number (trim raw) =
        (.ofFile source path, some ⟨source, path, number, trim raw, line.value⟩) := by
    simp only [Assembler.feed, ha, Assembler.ofFile, trim_trim] at h ⊢
    cases ho : Block.opening? (trim raw) with
    | none =>
      simp only [ho, Option.some.injEq] at h
      subst h
      exact ⟨rfl, fun _ _ _ => rfl⟩
    | some o =>
      simp only [ho] at h ⊢
      by_cases hcloses : Block.closes o.rest = true
      · rw [if_pos hcloses] at h
        cases h
        exact ⟨rfl, fun _ _ _ => if_pos hcloses⟩
      · rw [if_neg hcloses] at h
        cases h
  refine ⟨List.cons_ne_nil _ _, htext.1, ?_, ?_⟩
  · intro raw' hmem
    rw [List.mem_singleton.mp hmem]
    exact isLine_trim hraw.noFeed
  · intro σ homes base include? source path number s
    rw [readLines_cons (readLine_feed (fun _ => by rw [trim_trim]; exact ⟨hsilent, hstatement⟩) s)]
    simp only [htext.2, htext.1]
    rfl

/-- A line that opens a block. -/
theorem reopens_open {a : Assembler} (ha : a.block = none) (hsilent : isSilent (trim raw) = false)
    (hstatement : isStatement (trim raw) = false) (hraw : IsLine raw) (h : (a.feed number raw).1.block = some b) :
    Reopens b := by
  have hfeed : b.raw = [raw] ∧ ∀ source path number,
      (Assembler.ofFile source path).feed number raw = (⟨source, path, some (moved b source path number)⟩, none) := by
    simp only [Assembler.feed, ha, Assembler.ofFile] at h ⊢
    cases ho : Block.opening? (trim raw) with
    | none => simp [ho, ha] at h
    | some o =>
      simp only [ho] at h ⊢
      by_cases hcloses : Block.closes o.rest = true
      · simp [hcloses, ha] at h
      · rw [if_neg hcloses] at h
        cases h
        exact ⟨rfl, fun _ _ _ => if_neg hcloses⟩
  refine ⟨?_, ?_⟩
  · intro raw' hmem
    rw [hfeed.1, List.mem_singleton] at hmem
    exact hmem ▸ hraw
  · intro σ homes base include? source path number s
    rw [hfeed.1, readLines_cons (readLine_feed (fun _ => ⟨hsilent, hstatement⟩) s)]
    simp only [hfeed.2]
    rfl

theorem isLine_of_mem_concat (h : ∀ raw ∈ raws, IsLine raw) (hraw : IsLine raw) :
    ∀ raw' ∈ raws ++ [raw], IsLine raw' := by
  intro raw' hmem
  rcases List.mem_append.mp hmem with hmem | hmem
  · exact h raw' hmem
  · exact List.mem_singleton.mp hmem ▸ hraw

/-- The lines of an open block and one more read as that line is taken with the block open. -/
theorem Reopens.read_concat (hb : Reopens b) (homes : Homes) (base : Text)
    (include? : Line → Text → Reading σ (List Line)) (source path : Text) (number : Int) (raw : Text) (s : σ) :
    readLines homes base include? ⟨.ofFile source path, number⟩ (b.raw ++ [raw]) s =
      let r := Assembler.feed ⟨source, path, some (moved b source path number)⟩ (number + b.raw.length) raw
      .ok (⟨r.1, number + (b.raw ++ [raw]).length⟩, r.2.toList) s := by
  have hfeed : readLine homes base include?
      ⟨⟨source, path, some (moved b source path number)⟩, number + b.raw.length⟩ raw s = _ :=
    readLine_feed (fun hnone => by cases hnone) s
  rw [readLines_append (hb.read σ homes base include? source path number s),
    bind_of_ok ((readLines_cons hfeed).trans rfl), List.length_append, List.length_singleton, Int.natCast_add,
    ← Int.add_assoc]
  simp

/-- A line in an open block that does not end it. -/
theorem reopens_push (hb : Reopens b) (hraw : IsLine raw) (h : Block.closes (trim raw) = false) :
    Reopens (b.push raw) := by
  refine ⟨isLine_of_mem_concat hb.isLine hraw, fun σ homes base include? source path number s => ?_⟩
  rw [Block.Open.push, hb.read_concat]
  simp [Assembler.feed, h, moved, Block.Open.push]

theorem readAs_close (hb : Reopens b) (hraw : IsLine raw) (h : Block.closes (trim raw) = true) :
    ReadAs (b.raw ++ [raw]) (b.close raw) := by
  refine ⟨List.concat_ne_nil _ _, rfl, isLine_of_mem_concat hb.isLine hraw, ?_⟩
  intro σ homes base include? source path number s
  rw [hb.read_concat]
  simp [Assembler.feed, h, moved, Block.Open.close, Assembler.ofFile]

end Include

end Runbook
