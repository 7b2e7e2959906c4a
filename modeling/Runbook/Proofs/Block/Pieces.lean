import Runbook.Proofs.Block.Fields
import Mathlib.Data.List.Induction

/-! # What becomes of the lines that are fed

However an assembler is used, its uses fall into pieces, one after the other (`Piece`): a line that is a logical line by
itself, a block up to the line that closes it, a block that the end of the file drops, and the end of a file with no block
open. What is left after the pieces is the block that is open (`Begun`). What the assembler remembers is told by the lines
of that block alone, and what comes of a piece by the lines of the piece (`Partition`). Main statement: `uses_partition`. -/

namespace Runbook.Assembler

open Text Block

/-- A block that has been begun: the line that opens it, how it does, and the lines after it. -/
structure Begun where
  first : Fed
  opening : Opening
  others : List Fed
deriving DecidableEq, Repr

namespace Begun

/-- The lines of the block, in the order in which they were fed. -/
def lines (b : Begun) : List Fed := b.first :: b.others

/-- The first line opens a block, and neither it nor a line after it closes the block. -/
structure Valid (b : Begun) : Prop where
  opens : opening? (trim b.first.raw) = some b.opening
  unclosed : closes b.opening.rest = false
  open_others : ∀ line ∈ b.others, closes (trim line.raw) = false

variable (source path : Text) (b : Begun)

/-- The opening line, as it is named if the block is never closed. -/
def start : Line := ⟨source, path, b.first.number, trim b.first.raw, none⟩

/-- What an assembler remembers of the block. -/
def block : Block.Open :=
  ⟨b.start source path, b.opening.word, b.lines.map (·.raw), b.opening.rest :: b.others.map (·.raw)⟩

end Begun

/-- Uses of an assembler that leave no block open. -/
inductive Piece
  /-- A line that is a logical line by itself. -/
  | single (line : Fed)
  /-- A block, and the line that closes it. -/
  | closed (b : Begun) (last : Fed)
  /-- A block that is still open when the file ends. -/
  | dropped (b : Begun)
  /-- The end of a file while no block is open. -/
  | idle
deriving DecidableEq, Repr

namespace Piece

/-- The lines of the piece before its last use. -/
def before : Piece → List Fed
  | .single _ | .idle => []
  | .closed b _ | .dropped b => b.lines

/-- The last use of the piece. -/
def last : Piece → Use
  | .single line => .feed line
  | .closed _ line => .feed line
  | .dropped _ | .idle => .finish

/-- The uses of the piece. -/
def uses (p : Piece) : List Use := p.before.map .feed ++ [p.last]

/-- The lines that are fed in the piece. -/
def lines : Piece → List Fed
  | .single line => [line]
  | .closed b line => b.lines ++ [line]
  | .dropped b => b.lines
  | .idle => []

/-- A line by itself opens no block that it does not close, and a block is closed by the first line that can close it. -/
def Valid : Piece → Prop
  | .single line => ∀ o ∈ opening? (trim line.raw), closes o.rest = true
  | .closed b line => b.Valid ∧ closes (trim line.raw) = true
  | .dropped b => b.Valid
  | .idle => True

section
variable (source path : Text)

/-- What comes of the piece: a logical line with the number of its first line, whose text is its line trimmed, or its lines
    as they stand with line feeds between them; or the error that names the opening line. -/
def answer : Piece → Except LoadError (Option Line)
  | .single line => .ok (some ⟨source, path, line.number, trim line.raw,
      (opening? (trim line.raw)).map fun o => value o.word (trim (dropFence o.rest))⟩)
  | .closed b line => .ok (some ⟨source, path, b.first.number, joinWith "\n" ((b.lines ++ [line]).map (·.raw)),
      some (value b.opening.word (trim (joinWith "\n"
        (b.opening.rest :: b.others.map (·.raw) ++ [dropFence (trimRight line.raw)]))))⟩)
  | .dropped b => .error (.openBlock (b.start source path))
  | .idle => .ok none

/-- What comes of the uses of the piece: nothing before the last one. -/
def answers (p : Piece) : List (Except LoadError (Option Line)) :=
  p.before.map (fun _ => .ok none) ++ [p.answer source path]

end

end Piece

/-- The lines that are fed in some uses. -/
def fed (us : List Use) : List Fed := us.filterMap fun
  | .feed line => some line
  | .finish => none

/-- The lines of a block that may be open. -/
def leftLines (left : Option Begun) : List Fed := left.elim [] Begun.lines

/-- The uses of an assembler that was new are those of some pieces and of a block that is left open, if there is one; what
    comes of them and what the assembler remembers is told by these. -/
structure Partition (source path : Text) (us : List Use) (pieces : List Piece) (left : Option Begun) : Prop where
  uses : us = pieces.flatMap Piece.uses ++ (leftLines left).map .feed
  pieces_valid : ∀ p ∈ pieces, p.Valid
  left_valid : ∀ b ∈ left, b.Valid
  answers : (useAll use (ofFile source path) us).2 =
    pieces.flatMap (·.answers source path) ++ (leftLines left).map fun _ => .ok none
  state : (useAll use (ofFile source path) us).1 = ⟨source, path, left.map (·.block source path)⟩

variable {source path : Text} {us : List Use} {u : Use} {pieces : List Piece} {left : Option Begun} {b : Begun}
  {line : Fed} {o : Opening}

/-! ### One use -/

theorem use_single (h : (Piece.single line).Valid) : use ⟨source, path, none⟩ (.feed line) =
    (⟨source, path, none⟩, (Piece.single line).answer source path) := by
  rw [use, feed]
  dsimp only [Piece.answer]
  cases ho : opening? (trim line.raw) with
  | none => rfl
  | some o =>
    dsimp only [Option.map_some]
    rw [if_pos (h o ho)]

theorem use_opens (ho : opening? (trim line.raw) = some o) (hclosed : closes o.rest = false) :
    use ⟨source, path, none⟩ (.feed line) = (⟨source, path, some (Begun.block source path ⟨line, o, []⟩)⟩, .ok none) := by
  rw [use, feed]
  simp [ho, hclosed, Begun.block, Begun.start, Begun.lines]

theorem use_others (h : closes (trim line.raw) = false) :
    use ⟨source, path, some (b.block source path)⟩ (.feed line) =
      (⟨source, path, some (Begun.block source path { b with others := b.others ++ [line] })⟩, .ok none) := by
  rw [use, feed]
  simp [h, Begun.block, Begun.start, Begun.lines, Open.push]

theorem use_closes (h : closes (trim line.raw) = true) :
    use ⟨source, path, some (b.block source path)⟩ (.feed line) =
      (⟨source, path, none⟩, (Piece.closed b line).answer source path) := by
  rw [use, feed]
  simp [h, Piece.answer, Begun.block, Begun.start, Begun.lines, Open.close]

theorem use_finish (source path : Text) (left : Option Begun) :
    use ⟨source, path, left.map (·.block source path)⟩ .finish =
      (ofFile source path, (left.elim .idle .dropped : Piece).answer source path) := by
  cases left <;> rfl

/-! ### Uses in turn -/

theorem fed_map_feed (lines : List Fed) : fed (lines.map .feed) = lines := by
  rw [fed, List.filterMap_map]
  exact List.filterMap_some

theorem fed_append (us us' : List Use) : fed (us ++ us') = fed us ++ fed us' := List.filterMap_append

theorem Piece.fed_uses (p : Piece) : fed p.uses = p.lines := by
  rw [uses, fed_append, fed_map_feed]
  cases p with
  | single line => rfl
  | closed b line => rfl
  | dropped b => exact List.append_nil _
  | idle => rfl

theorem fed_flatMap_uses (pieces : List Piece) : fed (pieces.flatMap Piece.uses) = pieces.flatMap Piece.lines := by
  induction pieces with
  | nil => rfl
  | cons p pieces ih => rw [List.flatMap_cons, fed_append, p.fed_uses, ih, List.flatMap_cons]

namespace Partition

theorem nil (source path : Text) : Partition source path [] [] none :=
  ⟨rfl, nofun, nofun, rfl, rfl⟩

/-- Every line that is fed is in exactly one piece or in the block that is open, and they are in order. -/
theorem fed_eq (h : Partition source path us pieces left) : fed us = pieces.flatMap Piece.lines ++ leftLines left := by
  rw [h.uses, fed_append, fed_flatMap_uses, fed_map_feed]

theorem next_answers (h : Partition source path us pieces left) (u : Use) :
    useAll use (ofFile source path) (us ++ [u]) =
      ((use ⟨source, path, left.map (·.block source path)⟩ u).1,
        pieces.flatMap (·.answers source path) ++ (leftLines left).map (fun _ => .ok none) ++
          [(use ⟨source, path, left.map (·.block source path)⟩ u).2]) := by
  rw [useAll_concat, h.state, h.answers]

/-- The last use of a piece that is begun by the block that is open completes it. -/
theorem complete {p : Piece} (h : Partition source path us pieces left) (hp : p.Valid) (hbefore : p.before = leftLines left)
    (huse : use ⟨source, path, left.map (·.block source path)⟩ p.last = (⟨source, path, none⟩, p.answer source path)) :
    Partition source path (us ++ [p.last]) (pieces ++ [p]) none where
  uses := by
    rw [h.uses, List.flatMap_append, List.flatMap_singleton, Piece.uses, hbefore]
    simp [leftLines]
  pieces_valid q hq := by
    rcases List.mem_append.mp hq with hq | hq
    · exact h.pieces_valid q hq
    · exact List.mem_singleton.mp hq ▸ hp
  left_valid := nofun
  answers := by
    rw [h.next_answers, huse, List.flatMap_append, List.flatMap_singleton, Piece.answers, hbefore]
    simp [leftLines]
  state := by
    rw [h.next_answers, huse]
    rfl

/-- A line that is added to the block that is open, or opens one, leaves it open. -/
theorem grow (h : Partition source path us pieces left) (hb : b.Valid) (hlines : b.lines = leftLines left ++ [line])
    (huse : use ⟨source, path, left.map (·.block source path)⟩ (.feed line) =
      (⟨source, path, some (b.block source path)⟩, .ok none)) :
    Partition source path (us ++ [.feed line]) pieces (some b) where
  uses := by
    show _ = _ ++ b.lines.map Use.feed
    rw [h.uses, hlines, List.map_append, List.append_assoc]
    rfl
  pieces_valid := h.pieces_valid
  left_valid b' hb' := Option.mem_some_iff.mp hb' ▸ hb
  answers := by
    rw [h.next_answers, huse]
    show _ = _ ++ b.lines.map _
    rw [hlines, List.map_append, List.append_assoc]
    rfl
  state := by
    rw [h.next_answers, huse]
    rfl

theorem feed_normal (h : Partition source path us pieces none) (line : Fed) :
    ∃ pieces left, Partition source path (us ++ [.feed line]) pieces left := by
  by_cases hvalid : (Piece.single line).Valid
  · exact ⟨_, _, h.complete (p := .single line) hvalid rfl (use_single hvalid)⟩
  · -- The line opens a block that it does not close.
    simp only [Piece.Valid, not_forall] at hvalid
    obtain ⟨o, ho, hclosed⟩ := hvalid
    have hclosed : closes o.rest = false := by simpa using hclosed
    exact ⟨_, _, h.grow (b := ⟨line, o, []⟩) ⟨ho, hclosed, nofun⟩ rfl (use_opens ho hclosed)⟩

theorem feed_block (h : Partition source path us pieces (some b)) (line : Fed) :
    ∃ pieces left, Partition source path (us ++ [.feed line]) pieces left := by
  have hb : b.Valid := h.left_valid b rfl
  cases hcloses : closes (trim line.raw) with
  | true => exact ⟨_, _, h.complete (p := .closed b line) ⟨hb, hcloses⟩ rfl (use_closes hcloses)⟩
  | false =>
    refine ⟨_, _, h.grow (b := { b with others := b.others ++ [line] }) ⟨hb.opens, hb.unclosed, ?_⟩ rfl
      (use_others hcloses)⟩
    intro l hl
    rcases List.mem_append.mp hl with hl | hl
    · exact hb.open_others l hl
    · exact List.mem_singleton.mp hl ▸ hcloses

theorem finish (h : Partition source path us pieces left) :
    ∃ pieces left, Partition source path (us ++ [.finish]) pieces left := by
  have huse := use_finish source path left
  cases left with
  | none => exact ⟨_, _, h.complete (p := .idle) trivial rfl huse⟩
  | some b => exact ⟨_, _, h.complete (p := .dropped b) (h.left_valid b rfl) rfl huse⟩

end Partition

theorem exists_partition (source path : Text) (us : List Use) :
    ∃ pieces left, Partition source path us pieces left := by
  induction us using List.reverseRecOn with
  | nil => exact ⟨[], none, .nil source path⟩
  | append_singleton us u ih =>
    obtain ⟨pieces, left, h⟩ := ih
    cases u with
    | feed line =>
      cases left with
      | none => exact h.feed_normal line
      | some b => exact h.feed_block line
    | finish => exact h.finish

/-- However an assembler is used, the lines that are fed to it are those of some pieces and of the block that is open, in
    order; what comes of each piece is told by its lines, and the end of a file names the opening line of the block that is
    open, if one is, and leaves the assembler as it was when it was new. The same holds of the fields: a block is open
    exactly when its opening line is stored, nothing is left of a block otherwise, and a block that ends has its opening
    line. -/
theorem uses_partition (source path : Text) (us : List Use) : ∃ pieces left,
    Partition source path us pieces left ∧ fed us = pieces.flatMap Piece.lines ++ leftLines left ∧
    (useAll use (ofFile source path) us).1.use .finish =
      (ofFile source path, left.elim (.ok none) fun b => .error (.openBlock (b.start source path))) ∧
    useAll Fields.use (.ofFile source path) us = ((useAll use (ofFile source path) us).1.fields,
      (useAll use (ofFile source path) us).2.map (·.mapError .load)) ∧
    (useAll Fields.use (.ofFile source path) us).1.Coherent ∧
    ((useAll Fields.use (.ofFile source path) us).1.state = .inBlock ↔ left.isSome = true) ∧
    .error .noOpening ∉ (useAll Fields.use (.ofFile source path) us).2 ∧
    (useAll Fields.use (.ofFile source path) us).1.use .finish =
      (.ofFile source path, left.elim (.ok none) fun b => .error (.load (.openBlock (b.start source path)))) := by
  obtain ⟨pieces, left, h⟩ := exists_partition source path us
  have hfields : useAll Fields.use (.ofFile source path) us = _ := useAll_fields (ofFile source path) us
  have hcoherent : (Fields.ofFile source path).Coherent := coherent_fields (ofFile source path)
  obtain ⟨hstate, hopening, -⟩ := hcoherent.useAll us
  refine ⟨pieces, left, h, h.fed_eq, ?_, hfields, hstate, ?_, hopening, ?_⟩
  · rw [h.state]
    cases left <;> rfl
  · rw [hfields, h.state]
    cases left <;> simp [fields, Fields.ofFile]
  · rw [hfields, h.state]
    cases left <;> rfl

/-- A block that is dropped, and the line after it. -/
example : (useAll use (ofFile "r" "/w/r") [.feed ⟨1, " full = \"\"\""⟩, .feed ⟨2, "x"⟩, .finish, .feed ⟨4, " a = b "⟩]).2 =
    [.ok none, .ok none, .error (.openBlock ⟨"r", "/w/r", 1, "full = \"\"\"", none⟩),
      .ok (some ⟨"r", "/w/r", 4, "a = b", none⟩)] := by
  rfl

end Runbook.Assembler
