import Runbook.Proofs.Include.Cursor
import Runbook.Proofs.Include.Still
import Runbook.Proofs.Text.IllFormed
import Runbook.Rehearsal

/-! # The numbered lines of a file

A file is decoded line by line, and its lines are numbered from 1 on. A file that does not change while it is read gives
what its numbered lines give in turn, and then what is wrong with the first line that cannot be decoded, at the number of
that line (`expand_eq_readNumbered`). The numbered lines are those of the text that the file as a whole decodes to; if it
does not decode, they are those before the line in which its first ill-formed sequence begins. Main statement:
`expand_decodes`. -/

namespace Runbook.Include

open Text Utf8 Effect

variable {σ : Type} {view : View σ} {homes : Homes} {base : Text} {include? : Line → Text → Reading σ (List Line)}
  {s : σ} {stack : List Text} {includedAt : Option Line} {source : Text} {p : Path} {fuel : Nat}
  {content : List UInt8}

/-! ### Lines with their numbers -/

/-- The lines of a file with their numbers, and the number of the first line that is not UTF-8, with its flaw. -/
def numbered (content : List UInt8) : List (Text × Nat) × Option (Nat × Flaw) :=
  let r := rawLines content
  (r.1.zipIdx 1, r.2.map (r.1.length + 1, ·))

/-- Reads numbered lines, one after the other, each at its own number. -/
def readNumbered (homes : Homes) (base : Text) (include? : Line → Text → Reading σ (List Line)) :
    Assembler → List (Text × Nat) → Reading σ (Assembler × List Line)
  | a, [] => return (a, [])
  | a, (raw, number) :: rest => do
    let (c, first) ← readLine homes base include? ⟨a, number⟩ raw
    let (a, lines) ← readNumbered homes base include? c.assembler rest
    return (a, first ++ lines)

/-- The number of a line is one more than that of the line before it. -/
theorem readLines_eq_readNumbered (a : Assembler) (number : Nat) (raws : List Text) (s : σ) :
    readLines homes base include? ⟨a, number⟩ raws s =
      match readNumbered homes base include? a (raws.zipIdx number) s with
      | .ok (a', lines) s' => .ok (⟨a', number + raws.length⟩, lines) s'
      | .error e s' => .error e s' := by
  induction raws generalizing a number s with
  | nil => simp [readLines, readNumbered]
  | cons raw raws ih =>
    rw [List.zipIdx_cons, readNumbered, readLines]
    cases hline : readLine homes base include? ⟨a, number⟩ raw s with
    | error e s' => rw [bind_of_error hline, bind_of_error hline]
    | ok r s' =>
      obtain ⟨c, first⟩ := r
      have hnext : c = ⟨c.assembler, ((number + 1 : Nat) : Int)⟩ :=
        congrArg (Cursor.mk c.assembler) (by rw [(readLine_eq_ok hline).1, Cursor.pass_number, Int.natCast_succ])
      have ih := ih c.assembler (number + 1) s'
      rw [bind_of_ok hline, bind_of_ok hline]
      dsimp only
      rw [← hnext] at ih
      cases hrest : readNumbered homes base include? c.assembler (raws.zipIdx (number + 1)) s' with
      | error e s'' =>
        rw [hrest] at ih
        rw [bind_of_error ih, bind_of_error hrest]
      | ok r' s'' =>
        rw [hrest] at ih
        rw [bind_of_ok ih, bind_of_ok hrest, List.length_cons, Int.natCast_succ, Int.natCast_succ]
        simp [Int.add_assoc, Int.add_comm 1]

/-! ### What decides the numbered lines -/

theorem numbered_encode (text : Text) : numbered (encode text) = (((feedLines text).map dropLineEnd).zipIdx 1, none) := by
  rw [numbered, rawLines_encode]
  rfl

theorem numbered_of_illFormed {bad : List UInt8} (text : Text) (hbad : IllFormed bad) :
    ∃ flaw, decode (encode text ++ bad) = .error flaw ∧ numbered (encode text ++ bad) =
      (((splitOn '\n' text).dropLast.map dropLineEnd).zipIdx 1, some (text.count '\n' + 1, flaw)) := by
  obtain ⟨flaw, hflaw⟩ := decode_of_illFormed hbad
  refine ⟨flaw, decode_encode_append_eq_error hflaw text, ?_⟩
  have hlength : ((splitOn '\n' text).dropLast.map dropLineEnd).length = text.count '\n' := by
    rw [List.length_map, List.length_dropLast, length_splitOn, Nat.add_sub_cancel]
  rw [numbered, rawLines_of_illFormed text hbad hflaw]
  simp only [Option.map_some, hlength]

/-! ### Reading a file -/

/-- Reads a file from its numbered lines. What is wrong with a line that cannot be decoded is said at its number, after
    the lines before it have been read. -/
def readAll (homes : Homes) (base : Text) (include? : Line → Text → Reading σ (List Line)) (a : Assembler)
    (content : List UInt8) : Reading σ (List Line) := do
  let (last, lines) ← readNumbered homes base include? a (numbered content).1
  match (numbered content).2 with
  | some (number, flaw) => throw (.load (.notUtf8 flaw ⟨a.source, a.path, number, [], none⟩))
  | none =>
    match last.finish.2 with
    | some start => throw (.load (.openBlock start))
    | none => return lines

theorem readWhole_eq_readAll (a : Assembler) (content : List UInt8) (s : σ) :
    readWhole content (readLines homes base include?) ⟨a, 1⟩ s = readAll homes base include? a content s := by
  have hfirst : (numbered content).1 = (rawLines content).1.zipIdx 1 := rfl
  have hsecond : (numbered content).2 = (rawLines content).2.map ((rawLines content).1.length + 1, ·) := rfl
  have hlines : readLines homes base include? ⟨a, 1⟩ (rawLines content).1 s = _ := readLines_eq_readNumbered a 1 _ s
  rw [readWhole, readAll, hfirst, hsecond]
  cases hnumbered : readNumbered homes base include? a ((rawLines content).1.zipIdx 1) s with
  | error e s' =>
    rw [hnumbered] at hlines
    rw [bind_of_error hlines, bind_of_error hnumbered]
  | ok r s' =>
    rw [hnumbered] at hlines
    rw [bind_of_ok hlines, bind_of_ok hnumbered]
    cases (rawLines content).2 with
    | some flaw =>
      -- The lines before do not change which file is read.
      obtain ⟨hsource, hpath⟩ := Cursor.passAll_file ⟨a, 1⟩ (rawLines content).1
      rw [← readLines_cursor hlines] at hsource hpath
      dsimp only [Option.map_some] at hsource hpath ⊢
      rw [hsource, hpath, ← Int.natCast_add, Nat.add_comm 1]
    | none =>
      dsimp only [Option.map_none, Cursor.finish]
      cases r.1.finish.2 with
      | some start => rfl
      | none => simp

/-- A file that can be read: it is there, is not being read already, and may be opened. -/
structure Readable (files : Files) (stack : List Text) (p : Path) : Prop where
  isFile : files.isFile p = .ok true
  fresh : (files.absolute p).toText ∉ stack
  allowed : files.isDenied p = false

/-- A file that holds the octets when it has been opened and when its lines have been read. -/
structure Holds (view : View σ) (fuel : Nat) (stack : List Text) (source : Text) (p : Path) (s : σ)
    (content : List UInt8) : Prop where
  before : (view.files (view.opened ((view.files s).absolute p).toText s)).content p = content
  after : ∀ r s', takeWith view fuel stack (view.files s) p ⟨.ofFile source ((view.files s).absolute p).toText, 1⟩
    (rawLines content).1 (view.opened ((view.files s).absolute p).toText s) = .ok r s' →
      (view.files s').content p = content

theorem holds_still (files : Files) (fuel : Nat) (stack : List Text) (source : Text) (p : Path) :
    Holds (View.still files) fuel stack source p () (files.content p) :=
  ⟨rfl, fun _ _ _ => rfl⟩

theorem expand_eq_readAll (hreadable : Readable (view.files s) stack p)
    (hholds : Holds view fuel stack source p s content) :
    expand view (fuel + 1) stack includedAt source p s =
      readAll (view.files s).homes ((view.files s).absolute p).directory.toText
        (fun line target => expand view fuel (stack ++ [((view.files s).absolute p).toText]) (some line) target
          (Path.ofText target))
        (.ofFile source ((view.files s).absolute p).toText) content
        (view.opened ((view.files s).absolute p).toText s) := by
  rw [expand_of_isFile hreadable.isFile hreadable.fresh hreadable.allowed, takeWith,
    readOn_eq_readWhole hholds.before hholds.after]
  exact readWhole_eq_readAll _ content _

/-- Decoding a file line by line comes to the same as decoding it as a whole. -/
theorem expand_decodes (content : List UInt8) :
    -- All lines are decoded if and only if the file is UTF-8, and then they are those of its text.
    ((numbered content).2 = none ↔ ∃ text, encode text = content) ∧
    (∀ text, encode text = content → numbered content = (((feedLines text).map dropLineEnd).zipIdx 1, none)) ∧
    -- Otherwise there is a first ill-formed sequence, and the lines are those before the line in which it begins.
    ((¬ ∃ text, encode text = content) → ∃ text bad, encode text ++ bad = content ∧ IllFormed bad) ∧
    (∀ text bad, encode text ++ bad = content → IllFormed bad → ∃ flaw, decode content = .error flaw ∧
      numbered content =
        (((splitOn '\n' text).dropLast.map dropLineEnd).zipIdx 1, some (text.count '\n' + 1, flaw))) ∧
    -- A file with these octets is read from its numbered lines.
    ∀ (σ : Type) (view : View σ) (fuel : Nat) (stack : List Text) (includedAt : Option Line) (source : Text) (p : Path)
      (s : σ), Readable (view.files s) stack p → Holds view fuel stack source p s content →
        expand view (fuel + 1) stack includedAt source p s =
          readAll (view.files s).homes ((view.files s).absolute p).directory.toText
            (fun line target => expand view fuel (stack ++ [((view.files s).absolute p).toText]) (some line) target
              (Path.ofText target))
            (.ofFile source ((view.files s).absolute p).toText) content
            (view.opened ((view.files s).absolute p).toText s) := by
  have hsplit : (∃ text, encode text = content) ∨ ∃ text bad, encode text ++ bad = content ∧ IllFormed bad := by
    rcases exists_encode_append content with htext | ⟨text, bad, hcontent, hbad⟩
    · exact Or.inl htext
    · exact Or.inr ⟨text, bad, hcontent.symm, hbad⟩
  refine ⟨⟨fun hnone => ?_, ?_⟩, ?_, hsplit.resolve_left, ?_, ?_⟩
  · rcases hsplit with htext | ⟨text, bad, rfl, hbad⟩
    · exact htext
    · obtain ⟨flaw, -, hnumbered⟩ := numbered_of_illFormed text hbad
      rw [hnumbered] at hnone
      cases hnone
  · rintro ⟨text, rfl⟩
    rw [numbered_encode]
  · rintro text rfl
    exact numbered_encode text
  · rintro text bad rfl hbad
    exact numbered_of_illFormed text hbad
  · intro σ view fuel stack includedAt source p s hreadable hholds
    exact expand_eq_readAll hreadable hholds

/-- A recipe with a comment in another encoding, in which an octet that opens a sequence stands before a line feed. -/
def latin : List UInt8 := encode "a = 1\r\n# caf" ++ 0xE9 :: encode "\nb = 2\n"

theorem expand_decodes_latin : IllFormed (0xE9 :: encode "\nb = 2\n") ∧
    numbered latin = ([("a = 1".toList, 1)], some (2, .invalidContinuation)) ∧
    Readable (Rehearsal.world "/" [] [("/r", latin)]).files [] ⟨.relative, ["r"]⟩ ∧
    expand (View.still (Rehearsal.world "/" [] [("/r", latin)]).files) 1 [] none "r" ⟨.relative, ["r"]⟩ () =
      .error (.load (.notUtf8 .invalidContinuation ⟨"r", "/r", 2, [], none⟩)) () := by
  obtain ⟨-, -, -, hflaw, hread⟩ := expand_decodes latin
  have hbad : IllFormed (0xE9 :: encode "\nb = 2\n") := by decide +kernel
  have hnumbered : numbered latin = ([("a = 1".toList, 1)], some (2, .invalidContinuation)) := by
    obtain ⟨flaw, hdecode, hnumbered⟩ := hflaw "a = 1\r\n# caf" _ rfl hbad
    have hflaw : decode latin = .error .invalidContinuation := by decide +kernel
    cases hflaw.symm.trans hdecode
    rw [hnumbered]
    decide +kernel
  have hreadable : Readable (Rehearsal.world "/" [] [("/r", latin)]).files [] ⟨.relative, ["r"]⟩ :=
    ⟨by decide +kernel, List.not_mem_nil, by decide +kernel⟩
  have hcontent : (Rehearsal.world "/" [] [("/r", latin)]).files.content ⟨.relative, ["r"]⟩ = latin := by
    decide +kernel
  refine ⟨hbad, hnumbered, hreadable, ?_⟩
  rw [hread Unit _ 0 [] none "r" ⟨.relative, ["r"]⟩ () hreadable (hcontent ▸ holds_still _ 0 [] "r" _), readAll, hnumbered]
  rfl

end Runbook.Include
