import Runbook.Proofs.Include.Outline
import Mathlib.Logic.Relation

/-! # The layout of a file

The layout of a file is what can be edited outside the bodies of blocks without making a difference to what the file
comes to (`Edit`): lines that say nothing, white space at the ends of lines, carriage returns at the ends of lines, and the
last line feed. Any number of such edits keeps the outline of the file (`outline_eq_of_edits`). -/

namespace Runbook.Include

open Text Utf8

variable {c c' : Cursor} {content content' head line line' rest rest' tail : List UInt8} {s t : Text} {raw : Text}

/-! ### Outlines -/

/-- What the octets of a file come to: the gists of its acts, whether a block is open at its end, and whether all of it is
    text. -/
structure Outline where
  acts : List (Line.Gist ⊕ Text)
  isOpen : Bool
  isText : Bool
deriving DecidableEq

/-- What octets come to from a cursor on. -/
def Cursor.outline (c : Cursor) (content : List UInt8) : Outline :=
  ⟨(c.acts (rawLines content).1).map Act.gist, (c.passAll (rawLines content).1).assembler.block.isSome,
    (rawLines content).2.isNone⟩

/-- Where the reading of a file begins, whatever it is called. -/
def origin : Cursor := ⟨.ofFile [] [], 1⟩

/-- What the octets of a file come to. -/
def outline (content : List UInt8) : Outline := origin.outline content

namespace Cursor

theorem outline_congr (h : InStep c.assembler c'.assembler) (content : List UInt8) :
    c.outline content = c'.outline content := by
  obtain ⟨hacts, hafter⟩ := acts_eq h (rawLines content).1
  rw [outline, outline, hacts, hafter.isSome_eq]

/-- What comes to the same after some lines comes to the same with them. -/
theorem outline_append (hstart : AtLineStart head)
    (h : (rawLines head).2 = none →
      (c.passAll (rawLines head).1).outline rest = (c.passAll (rawLines head).1).outline rest') :
    c.outline (head ++ rest) = c.outline (head ++ rest') := by
  cases hflaw : (rawLines head).2 with
  | some flaw =>
    rw [outline, outline, rawLines_append_of_flaw hstart hflaw, rawLines_append_of_flaw hstart hflaw]
  | none =>
    have hraws : rawLines head = ((rawLines head).1, none) := Prod.ext rfl hflaw
    obtain ⟨hacts, hopen, htext⟩ := Outline.mk.inj (h hflaw)
    rw [outline, outline, rawLines_append hstart hraws, rawLines_append hstart hraws, acts_append, acts_append,
      passAll_append, passAll_append, List.map_append, List.map_append, hacts, hopen, htext]

/-- Lines that come to the same do so with what stands after them. -/
theorem outline_line (hc : InStep c.assembler c.assembler) (hline : 10 ∉ line) (hline' : 10 ∉ line')
    (hrest : AtLineEnd rest) (hrest' : AtLineEnd rest') (htail : rest.tail = rest'.tail) (hne : line ++ rest ≠ [])
    (hne' : line' ++ rest' ≠ [])
    (htakes : ∀ t, decode line = .ok t → ∃ t', decode line' = .ok t' ∧ c.TakesAlike (dropLineEnd t) (dropLineEnd t'))
    (hflaw : ∀ t, decode line' = .ok t → ∃ t, decode line = .ok t) :
    c.outline (line ++ rest) = c.outline (line' ++ rest') := by
  by_cases hdecode : ∃ t, decode line = .ok t
  · obtain ⟨t, ht⟩ := hdecode
    obtain ⟨t', ht', hsame⟩ := htakes t ht
    obtain ⟨hact, hpass⟩ := hsame.act hc
    obtain ⟨hacts, hafter⟩ := acts_eq hpass (rawLines rest'.tail).1
    rw [outline, outline, rawLines_of_decode hline hrest hne ht, rawLines_of_decode hline' hrest' hne' ht', htail]
    rw [acts, acts, passAll_cons, passAll_cons, List.map_append, List.map_append, hact, hacts, hafter.isSome_eq]
  · obtain ⟨flaw, h⟩ := rawLines_of_flaw hline hrest fun t ht => hdecode ⟨t, ht⟩
    obtain ⟨flaw', h'⟩ := rawLines_of_flaw hline' hrest' fun t ht => hdecode (hflaw t ht)
    rw [outline, outline, h, h']
    rfl

/-- A line that says nothing comes to nothing. -/
theorem outline_silent (hblock : c.assembler.block = none) (hs : isSilent (trim s) = true) (hfeed : '\n' ∉ s)
    (hrest : AtLineEnd rest) (hne : encode s ++ rest ≠ []) : c.outline (encode s ++ rest) = c.outline rest.tail := by
  have hline : 10 ∉ encode s := fun h => hfeed (feed_mem_encode.mp h)
  obtain ⟨hact, hpass⟩ := act_silent (dropLineEnd s) hblock (by rwa [trim_dropLineEnd])
  have hstep : InStep (c.pass (dropLineEnd s)).assembler c.assembler := .outside (hpass ▸ hblock) hblock
  refine Eq.trans ?_ (outline_congr hstep rest.tail)
  rw [outline, rawLines_of_decode hline hrest hne (decode_encode s), acts, hact]
  rfl

end Cursor

/-! ### Edits -/

/-- White space within a line. -/
structure IsMargin (s : Text) : Prop where
  blank : ∀ c ∈ s, isBlank c = true
  noFeed : '\n' ∉ s

instance (s : Text) : Decidable (IsMargin s) :=
  decidable_of_iff (s.all isBlank = true ∧ '\n' ∉ s)
    ⟨fun h => ⟨List.all_eq_true.mp h.1, h.2⟩, fun h => ⟨List.all_eq_true.mpr h.blank, h.noFeed⟩⟩

/-- No block is open where some octets of a file end. Where they cannot be read to their end, nothing is. -/
def Outside (head : List UInt8) : Prop :=
  (rawLines head).2 = none → (origin.passAll (rawLines head).1).assembler.block = none

instance (head : List UInt8) : Decidable (Outside head) := inferInstanceAs (Decidable (_ → _))

/-- An edit of the layout of a file. -/
inductive Edit : List UInt8 → List UInt8 → Prop
  /-- A line that says nothing is put in outside blocks. -/
  | silent {head tail : List UInt8} {s : Text} (hstart : AtLineStart head) (houtside : Outside head)
      (hs : isSilent (trim s) = true) (hfeed : '\n' ∉ s) : Edit (head ++ tail) (head ++ (encode s ++ 10 :: tail))
  /-- White space is put before a line outside blocks, which may open one. -/
  | indent {head tail : List UInt8} {s : Text} (hstart : AtLineStart head) (houtside : Outside head) (hs : IsMargin s) :
    Edit (head ++ tail) (head ++ (encode s ++ tail))
  /-- White space is put after a line that no block is open before or after, so that it may open one or close it. -/
  | pad {head line tail : List UInt8} {s : Text} (hstart : AtLineStart head) (hline : 10 ∉ line)
      (houtside : Outside head ∨ Outside (head ++ line)) (hend : AtLineEnd tail) (hs : IsMargin s) :
    Edit (head ++ (line ++ tail)) (head ++ (line ++ encode s ++ tail))
  /-- A carriage return is put before a line feed, wherever it is. -/
  | carriage {head tail : List UInt8} : Edit (head ++ 10 :: tail) (head ++ 13 :: 10 :: tail)
  /-- A line feed is put after the last line. -/
  | final {content : List UInt8} (h : ¬ AtLineStart content) : Edit content (content ++ [10])

/-- Files with the same outline, up to their layout: one is made of the other by edits and by taking edits back. -/
def Edits : List UInt8 → List UInt8 → Prop := Relation.EqvGen Edit

theorem inStep_origin (raws : List Text) :
    InStep (origin.passAll raws).assembler (origin.passAll raws).assembler :=
  (Cursor.acts_eq (.outside rfl rfl) raws).2

theorem atLineEnd_nil : AtLineEnd [] := fun _ h => (Option.not_mem_none _ h).elim

theorem atLineEnd_cons (rest : List UInt8) : AtLineEnd (10 :: rest) := fun b h => by
  rw [List.head?_cons, Option.mem_some_iff] at h
  exact h.symm

theorem feed_not_mem_margin (hs : IsMargin s) : 10 ∉ encode s := fun h => hs.noFeed (feed_mem_encode.mp h)

theorem isSilent_margin (hs : IsMargin s) : isSilent (trim s) = true := by
  have htrim : trim s = [] := by
    rw [← List.nil_append s, trim_append_blanks hs.blank]
    rfl
  rw [htrim]
  rfl

theorem outline_margin (hblock : c.assembler.block = none) (hs : IsMargin s) : c.outline (encode s) = c.outline [] := by
  by_cases hne : encode s = []
  · rw [hne]
  · have hsilent := Cursor.outline_silent hblock (isSilent_margin hs) hs.noFeed atLineEnd_nil (by simpa using hne)
    rwa [List.append_nil] at hsilent

/-- A line that ends the block it stands in ends with a fence. -/
theorem closes_of_outside {b : Block.Open} (hstart : AtLineStart head) (hhead : (rawLines head).2 = none)
    (hblock : (origin.passAll (rawLines head).1).assembler.block = some b) (hline : 10 ∉ line)
    (houtside : Outside (head ++ line)) (ht : decode line = .ok t) :
    Block.closes (trim (dropLineEnd t)) = true := by
  have hne : line ≠ [] := by
    rintro rfl
    rw [List.append_nil] at houtside
    rw [houtside hhead] at hblock
    cases hblock
  have hraws : rawLines line = ([dropLineEnd t], none) := by
    have hfirst := rawLines_of_decode hline atLineEnd_nil (by simpa using hne) ht
    rwa [List.append_nil] at hfirst
  have hall : rawLines (head ++ line) = ((rawLines head).1 ++ [dropLineEnd t], none) := by
    rw [rawLines_append hstart (Prod.ext rfl hhead), hraws]
  have hclosed := houtside (by rw [hall])
  rw [hall, Cursor.passAll_append] at hclosed
  by_contra hcloses
  obtain ⟨-, hpass⟩ := Cursor.act_feed (origin.passAll (rawLines head).1) (dropLineEnd t)
    fun hnone => by simp [hblock] at hnone
  rw [Cursor.passAll_cons, Cursor.passAll_nil, hpass, Assembler.feed, hblock] at hclosed
  simp [hcloses] at hclosed

theorem outline_indent (hstart : AtLineStart head) (houtside : Outside head) (hs : IsMargin s) (tail : List UInt8) :
    outline (head ++ tail) = outline (head ++ (encode s ++ tail)) := by
  refine Cursor.outline_append hstart fun hhead => ?_
  obtain ⟨line, rest, rfl, hline, hend⟩ := exists_atLineEnd tail
  by_cases hne : line ++ rest = []
  · rw [hne, List.append_nil]
    exact (outline_margin (houtside hhead) hs).symm
  · rw [← List.append_assoc]
    refine Cursor.outline_line (inStep_origin _) hline ?_ hend hend rfl hne ?_ (fun t ht => ?_) fun t ht => ?_
    · exact fun h => (List.mem_append.mp h).elim (feed_not_mem_margin hs) hline
    · exact fun hnil => hne (by simp_all)
    · refine ⟨s ++ t, decode_encode_append_eq_ok.mpr ⟨t, ht, rfl⟩, .outside (houtside hhead) ?_⟩
      rw [trim_dropLineEnd, trim_dropLineEnd, trim_blanks_append hs.blank]
    · obtain ⟨u, hu, -⟩ := decode_encode_append_eq_ok.mp ht
      exact ⟨u, hu⟩

theorem outline_pad (hstart : AtLineStart head) (hline : 10 ∉ line) (houtside : Outside head ∨ Outside (head ++ line))
    (hend : AtLineEnd tail) (hs : IsMargin s) :
    outline (head ++ (line ++ tail)) = outline (head ++ (line ++ encode s ++ tail)) := by
  refine Cursor.outline_append hstart fun hhead => ?_
  by_cases hne : line ++ tail = []
  · obtain ⟨rfl, rfl⟩ := List.append_eq_nil_iff.mp hne
    rw [List.append_nil] at houtside
    rw [List.append_nil, List.nil_append, List.append_nil]
    exact (outline_margin (houtside.elim (· hhead) (· hhead)) hs).symm
  · refine Cursor.outline_line (inStep_origin _) hline ?_ hend hend rfl hne ?_ (fun t ht => ?_) fun t ht => ?_
    · exact fun h => (List.mem_append.mp h).elim hline (feed_not_mem_margin hs)
    · exact fun hnil => hne (by simp_all)
    · refine ⟨t ++ s, decode_append_encode.mpr ⟨t, ht, rfl⟩, ?_⟩
      cases hblock : (origin.passAll (rawLines head).1).assembler.block with
      | none =>
        refine .outside hblock ?_
        rw [trim_dropLineEnd, trim_dropLineEnd, trim_append_blanks hs.blank]
      | some b =>
        -- A block is open before the line, and none is after it, so the line closes it.
        have houtside := houtside.resolve_left fun h => by simp [h hhead] at hblock
        refine .closing (closes_of_outside hstart hhead hblock hline houtside ht) ?_
        rw [trimRight_dropLineEnd, trimRight_dropLineEnd, trimRight_append_blanks hs.blank]
    · obtain ⟨u, hu, -⟩ := decode_append_encode.mp ht
      exact ⟨u, hu⟩

theorem outline_carriage (before tail : List UInt8) :
    outline (before ++ 10 :: tail) = outline (before ++ 13 :: 10 :: tail) := by
  obtain ⟨head, line, rfl, hstart, hline⟩ := exists_atLineStart before
  have hreturn : line ++ 13 :: 10 :: tail = line ++ encode ['\r'] ++ 10 :: tail := by
    rw [List.append_assoc]
    rfl
  rw [List.append_assoc, List.append_assoc, hreturn]
  refine Cursor.outline_append hstart fun hhead => ?_
  refine Cursor.outline_line (inStep_origin _) hline ?_ (atLineEnd_cons tail) (atLineEnd_cons tail) rfl (by simp)
    (by simp) (fun t ht => ?_) fun t ht => ?_
  · exact fun h => (List.mem_append.mp h).elim hline (by decide)
  · exact ⟨t ++ ['\r'], decode_append_encode.mpr ⟨t, ht, rfl⟩, .same (dropLineEnd_append_return t).symm⟩
  · obtain ⟨u, hu, -⟩ := decode_append_encode.mp ht
    exact ⟨u, hu⟩

theorem outline_final (h : ¬ AtLineStart content) : outline content = outline (content ++ [10]) := by
  obtain ⟨head, line, rfl, hstart, hline⟩ := exists_atLineStart content
  have hne : line ≠ [] := by
    rintro rfl
    exact h (by rwa [List.append_nil])
  rw [List.append_assoc]
  conv_lhs => rw [← List.append_nil line]
  refine Cursor.outline_append hstart fun hhead => ?_
  exact Cursor.outline_line (inStep_origin _) hline hline atLineEnd_nil (atLineEnd_cons []) rfl (by simpa using hne)
    (by simp) (fun t ht => ⟨t, ht, .same rfl⟩) fun t ht => ⟨t, ht⟩

/-- An edit of the layout of a file keeps what it comes to. -/
theorem outline_eq_of_edit (h : Edit content content') : outline content = outline content' := by
  cases h with
  | silent hstart houtside hs hfeed =>
    refine Cursor.outline_append hstart fun hhead => ?_
    exact (Cursor.outline_silent (houtside hhead) hs hfeed (atLineEnd_cons _) (by simp)).symm
  | indent hstart houtside hs => exact outline_indent hstart houtside hs _
  | pad hstart hline houtside hend hs => exact outline_pad hstart hline houtside hend hs
  | carriage => exact outline_carriage _ _
  | final h => exact outline_final h

/-- Any number of edits keeps what a file comes to. -/
theorem outline_eq_of_edits (h : Edits content content') : outline content = outline content' := by
  induction h with
  | rel _ _ h => exact outline_eq_of_edit h
  | refl => rfl
  | symm _ _ _ ih => exact ih.symm
  | trans _ _ _ _ _ ih ih' => exact ih.trans ih'

/-- Putting a carriage return before each line feed of a file is made of edits. -/
theorem edits_returns (content : List UInt8) :
    Edits content (content.flatMap fun b => if b = 10 then [13, 10] else [b]) := by
  have hall : ∀ head, Edits (head ++ content) (head ++ content.flatMap fun b => if b = 10 then [13, 10] else [b]) := by
    induction content with
    | nil => exact fun head => .refl _
    | cons b content ih =>
      intro head
      by_cases hb : b = 10
      · subst hb
        have hmore := ih (head ++ [13, 10])
        simp only [List.append_assoc, List.cons_append, List.nil_append] at hmore
        exact .trans _ _ _ (.rel _ _ .carriage) hmore
      · have hmore := ih (head ++ [b])
        simp only [List.append_assoc, List.singleton_append] at hmore
        rwa [List.flatMap_cons, if_neg hb]
  exact hall []

end Runbook.Include
