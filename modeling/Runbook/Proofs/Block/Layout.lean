import Runbook.Proofs.Include.Cursor
import Runbook.Proofs.Recipe.Name
import Runbook.Recipe.Section

/-! # Blocks written and read

Lines between fences are read as one logical line whose value is these lines, whatever is in them, provided that none of
them ends with a fence (`Layout.read`). The first line may stand after the opening fence or on a line of its own, and so
may the closing fence after the last line. -/

namespace Runbook.Block

open Text Effect Include

/-! ### Where blocks stand -/

/-- What a block gives the value of: the full description, a variable, or a step of which it is the text. -/
inductive Slot
  | full
  | declaration (name : Text)
  | step (d : Directive)
deriving DecidableEq, Repr

namespace Slot

/-- The key of the line. -/
def key : Slot → Text
  | .full => "full"
  | .declaration name => name
  | .step _ => "step"

/-- The keyword before the block. -/
def word : Slot → Option Directive
  | .full | .declaration _ => none
  | .step d => some d

/-- The section in which the line stands. -/
def home : Slot → Section
  | .full => .description
  | .declaration _ => .declarations
  | .step _ => .steps

/-- What stands between the equals sign and the block. -/
def lead (slot : Slot) : Text :=
  match slot.word with
  | none => []
  | some d => d.keyword ++ " "

/-- What is written before the block. -/
def head (slot : Slot) : Text := slot.key ++ " = " ++ slot.lead

/-- A variable has a name that is not the word that includes a file, and a block is the text of a script or of an
    information. -/
def Valid : Slot → Prop
  | .full => True
  | .declaration name => VariableName.isValid name = true ∧ name ≠ Include.keyword
  | .step d => d = .script ∨ d = .info

instance (slot : Slot) : Decidable slot.Valid := by
  cases slot <;> unfold Valid <;> infer_instance

end Slot

/-! ### Layouts -/

/-- How lines are written as a block: whether the first one stands right after the opening fence, and whether the
    closing fence stands right after the last one. -/
structure Layout where
  opensInline : Bool
  closesInline : Bool
deriving DecidableEq, Repr

namespace Layout

variable {layout : Layout} {slot : Slot} {bs : List Text}

/-- What stands between the fences, line by line. -/
def parts (layout : Layout) (bs : List Text) : List Text :=
  (if layout.opensInline then [] else [[]]) ++ bs ++ (if layout.closesInline then [] else [[]])

/-- The assignment of some lines as a block. -/
def text (layout : Layout) (slot : Slot) (bs : List Text) : Text :=
  slot.head ++ fence ++ joinWith "\n" (layout.parts bs) ++ fence

/-- The lines of that assignment. -/
def lines (layout : Layout) (slot : Slot) (bs : List Text) : List Text := splitOn '\n' (layout.text slot bs)

/-- The logical line these lines are read as. -/
def line (layout : Layout) (slot : Slot) (bs : List Text) (source path : Text) (number : Int) : Line :=
  ⟨source, path, number, layout.text slot bs, some (value slot.word (trim (joinWith "\n" bs)))⟩

/-- The layout can carry the lines: none of them ends with a fence, and a line right after the opening fence does not
    end with a blank. -/
structure Carries (layout : Layout) (bs : List Text) : Prop where
  nonempty : bs ≠ []
  isLine : ∀ b ∈ bs, IsLine b
  unclosed : ∀ b ∈ bs, closes (trim b) = false
  first : layout.opensInline = true → ∀ b ∈ bs.head?, trimRight b = b

instance (layout : Layout) (bs : List Text) : Decidable (layout.Carries bs) :=
  decidable_of_iff (bs ≠ [] ∧ (∀ b ∈ bs, IsLine b) ∧ (∀ b ∈ bs, closes (trim b) = false) ∧
      (layout.opensInline = true → ∀ b ∈ bs.head?, trimRight b = b))
    ⟨fun ⟨hne, hline, hopen, hfirst⟩ => ⟨hne, hline, hopen, hfirst⟩,
      fun h => ⟨h.nonempty, h.isLine, h.unclosed, h.first⟩⟩

end Layout

variable {slot : Slot} {layout : Layout} {b text rest : Text} {bs parts raws : List Text} {c : Char} {o : Open}

/-! ### Fences -/

theorem closes_iff : closes text = true ↔ fence <:+ text := List.isSuffixOf_iff_suffix

theorem trimLeft_fence_append (rest : Text) : trimLeft (fence ++ rest) = fence ++ rest := rfl

theorem trimRight_append_fence (s : Text) : trimRight (s ++ fence) = s ++ fence := by
  have h : trimRight (s ++ ['"', '"'] ++ ['"']) = _ :=
    List.rdropWhile_concat_neg isBlank (s ++ ['"', '"']) '"' (by decide)
  rwa [List.append_assoc] at h

theorem trim_append_fence (s : Text) : trim (s ++ fence) = trimLeft s ++ fence := by
  have hfence : trimLeft fence = fence := rfl
  rw [trim, trimLeft_append hfence, trimRight_append_fence]

theorem closes_append_fence (s : Text) : closes (s ++ fence) = true := closes_iff.mpr (List.suffix_append s fence)

theorem closes_trim (h : closes text = true) : closes (trim text) = true := by
  obtain ⟨s, rfl⟩ := closes_iff.mp h
  rw [trim_append_fence]
  exact closes_append_fence _

theorem dropFence_append (s : Text) : dropFence (s ++ fence) = s := by
  rw [dropFence, List.length_append, Nat.add_sub_cancel, List.take_left]

/-! ### The line that opens a block -/

/-- A character of a key. -/
def IsKeyChar (c : Char) : Prop := isBlank c = false ∧ c ≠ '=' ∧ c ≠ '#'

theorem isKeyChar_of_isTail (h : VariableName.isTail c = true) : IsKeyChar c := by
  refine ⟨VariableName.isBlank_of_isTail h, ?_, ?_⟩
  all_goals
    rintro rfl
    revert h
    decide

theorem isKeyChar_of_isValid {name : Text} (h : VariableName.isValid name = true) : ∀ c ∈ name, IsKeyChar c :=
  fun c hc => isKeyChar_of_isTail (VariableName.isTail_of_isValid h c hc)

theorem Slot.Valid.isKeyChar (h : slot.Valid) : ∀ c ∈ slot.key, IsKeyChar c := by
  cases slot with
  | declaration name => exact isKeyChar_of_isValid h.1
  | full => exact isKeyChar_of_isValid (by decide : VariableName.isValid "full".toList = true)
  | step d => exact isKeyChar_of_isValid (by decide : VariableName.isValid "step".toList = true)

theorem Slot.Valid.key_ne_nil (h : slot.Valid) : slot.key ≠ [] := by
  cases slot with
  | declaration name =>
    rintro hnil
    obtain ⟨hname, -⟩ := h
    rw [show name = [] from hnil] at hname
    cases hname
  | full => exact List.cons_ne_nil _ _
  | step d => exact List.cons_ne_nil _ _

theorem Slot.Valid.key_ne_include (h : slot.Valid) : slot.key ≠ Include.keyword := by
  cases slot with
  | declaration name => exact h.2
  | full => decide
  | step d => exact (by decide : "step".toList ≠ Include.keyword)

theorem Slot.head_append (slot : Slot) (rest : Text) :
    slot.head ++ rest = slot.key ++ ' ' :: '=' :: ' ' :: (slot.lead ++ rest) := by
  simp [head]

theorem takeWhile_head (h : slot.Valid) (rest : Text) :
    (slot.head ++ rest).takeWhile (fun c => !isBlank c && c != '=') = slot.key := by
  rw [slot.head_append, List.takeWhile_append_of_pos]
  · simp [isBlank]
  · intro c hc
    obtain ⟨hblank, hequals, -⟩ := h.isKeyChar c hc
    simp [hblank, hequals]

theorem afterFence?_append (h : '\n' ∉ rest) : afterFence? (fence ++ rest) = some rest := by
  have hstarts : startsWith fence (fence ++ rest) = true := List.isPrefixOf_iff_prefix.mpr (List.prefix_append _ _)
  have hfeed : (fence ++ rest).contains '\n' = false := by simpa [fence] using h
  rw [afterFence?, hstarts, hfeed]
  exact congrArg some List.drop_left

theorem afterWord?_keyword {d : Directive} (h : d = .script ∨ d = .info) (text : Text) :
    afterWord? d.keyword (d.keyword ++ ' ' :: text) = some (trimLeft text) := by
  rcases h with rfl | rfl <;> rfl

theorem openingOfValue?_lead (h : slot.Valid) (hrest : '\n' ∉ rest) :
    openingOfValue? (trimLeft (' ' :: (slot.lead ++ (fence ++ rest)))) = some ⟨slot.word, rest⟩ := by
  have hfence := afterFence?_append hrest
  cases slot with
  | full | declaration name =>
    show openingOfValue? (fence ++ rest) = _
    rw [openingOfValue?, hfence]
    rfl
  | step d =>
    have hword := afterWord?_keyword h (fence ++ rest)
    have hvalue : trimLeft (' ' :: ((Slot.step d).lead ++ (fence ++ rest))) = d.keyword ++ ' ' :: (fence ++ rest) ∧
        afterFence? (d.keyword ++ ' ' :: (fence ++ rest)) = none := by
      rcases h with rfl | rfl <;> exact ⟨rfl, rfl⟩
    rw [hvalue.1, openingOfValue?, hvalue.2]
    dsimp only
    rcases h with rfl | rfl
    · rw [List.findSome?_cons, hword, trimLeft_fence_append, Option.bind_some, hfence]
      rfl
    · have hother : afterWord? Directive.script.keyword (Directive.info.keyword ++ ' ' :: (fence ++ rest)) = none := rfl
      rw [List.findSome?_cons, hother, Option.bind_none, List.findSome?_cons, hword, trimLeft_fence_append,
        Option.bind_some, hfence]
      rfl

theorem opening?_head (h : slot.Valid) (hrest : '\n' ∉ rest) :
    opening? (slot.head ++ (fence ++ rest)) = some ⟨slot.word, rest⟩ := by
  have hkey : slot.key.isEmpty = false := List.isEmpty_eq_false_iff.mpr h.key_ne_nil
  rw [opening?, takeWhile_head h, slot.head_append, List.drop_left]
  show (if slot.key.isEmpty then none else openingOfValue? (trimLeft (' ' :: (slot.lead ++ (fence ++ rest))))) = _
  rw [hkey, openingOfValue?_lead h hrest]
  rfl

theorem not_isSilent_head (h : slot.Valid) (rest : Text) : isSilent (slot.head ++ rest) = false := by
  obtain ⟨c, key, hkey⟩ := List.exists_cons_of_ne_nil h.key_ne_nil
  obtain ⟨-, -, hhash⟩ := h.isKeyChar c (hkey ▸ List.mem_cons_self)
  rw [slot.head_append, hkey, List.cons_append]
  simp [isSilent, startsWith, List.isPrefixOf, Ne.symm hhash]

theorem takeWhile_of_isStatement (h : isStatement text = true) :
    text.takeWhile (fun c => !isBlank c && c != '=') = Include.keyword := by
  rw [isStatement, Bool.and_eq_true] at h
  obtain ⟨hstarts, hblank⟩ := h
  obtain ⟨rest, rfl⟩ := List.isPrefixOf_iff_prefix.mp hstarts
  rw [List.drop_left] at hblank
  rw [List.takeWhile_append_of_pos (List.all_eq_true.mp rfl)]
  cases rest with
  | nil => exact List.append_nil _
  | cons c rest =>
    rw [List.takeWhile_cons_of_neg (by simpa using fun hne => absurd hblank (by simp [hne]))]
    exact List.append_nil _

theorem not_isStatement_head (h : slot.Valid) (rest : Text) : isStatement (slot.head ++ rest) = false := by
  rw [Bool.eq_false_iff]
  intro hstatement
  exact h.key_ne_include ((takeWhile_head h rest).symm.trans (takeWhile_of_isStatement hstatement))

theorem trim_head (h : slot.Valid) (hrest : trimRight rest = rest) :
    trim (slot.head ++ (fence ++ rest)) = slot.head ++ (fence ++ rest) := by
  obtain ⟨c, key, hkey⟩ := List.exists_cons_of_ne_nil h.key_ne_nil
  obtain ⟨hblank, -⟩ := h.isKeyChar c (hkey ▸ List.mem_cons_self)
  have hleft : trimLeft (slot.head ++ (fence ++ rest)) = slot.head ++ (fence ++ rest) := by
    rw [slot.head_append, hkey]
    exact List.dropWhile_cons_of_neg (by simp [hblank])
  rw [trim, hleft, ← List.append_assoc, trimRight_append (trimRight_append_fence _), hrest]

/-! ### The lines of a block -/

theorem Slot.Valid.noFeed_head (h : slot.Valid) : '\n' ∉ slot.head := by
  have hkey : '\n' ∉ slot.key := fun hmem => absurd (h.isKeyChar _ hmem).1 (by decide)
  have hlead : '\n' ∉ " = ".toList ++ slot.lead := by
    cases slot with
    | full | declaration name => exact (by decide : '\n' ∉ " = ".toList ++ [])
    | step d => rcases h with rfl | rfl <;> decide
  rw [Slot.head, List.append_assoc]
  exact fun hmem => (List.mem_append.mp hmem).elim hkey hlead

namespace Layout

theorem parts_ne_nil (layout : Layout) (h : bs ≠ []) : layout.parts bs ≠ [] := by
  rw [parts, List.append_assoc]
  exact List.append_ne_nil_of_right_ne_nil _ (List.append_ne_nil_of_left_ne_nil h _)

theorem mem_parts (h : b ∈ layout.parts bs) : b ∈ bs ∨ b = [] := by
  unfold parts at h
  rcases List.mem_append.mp h with h | h
  · rcases List.mem_append.mp h with h | h
    · split at h
      · cases h
      · exact Or.inr (List.mem_singleton.mp h)
    · exact Or.inl h
  · split at h
    · cases h
    · exact Or.inr (List.mem_singleton.mp h)

theorem Carries.noFeed (h : layout.Carries bs) (hb : b ∈ layout.parts bs) : '\n' ∉ b := by
  rcases mem_parts hb with hb | rfl
  · exact (h.isLine b hb).noFeed
  · exact List.not_mem_nil

theorem Carries.not_closes (h : layout.Carries bs) (hb : b ∈ layout.parts bs) : closes (trim b) = false := by
  rcases mem_parts hb with hb | rfl
  · exact h.unclosed b hb
  · rfl

theorem Carries.trimRight_head (h : layout.Carries bs) (hb : b ∈ (layout.parts bs).head?) : trimRight b = b := by
  unfold parts at hb
  cases hopens : layout.opensInline with
  | false =>
    simp only [hopens, Bool.false_eq_true, if_false, List.cons_append, List.head?_cons] at hb
    cases hb
    rfl
  | true =>
    obtain ⟨first, rest, rfl⟩ := List.exists_cons_of_ne_nil h.nonempty
    simp only [hopens, if_true, List.nil_append, List.cons_append, List.head?_cons] at hb
    exact h.first hopens b hb

/-- Lines of their own for the fences are trimmed away. -/
theorem trim_joinWith_parts (layout : Layout) (h : bs ≠ []) :
    trim (joinWith "\n" (layout.parts bs)) = trim (joinWith "\n" bs) := by
  have hblank : ∀ c ∈ "\n".toList, isBlank c = true := List.all_eq_true.mp rfl
  have hbefore : ∀ ls : List Text, ls ≠ [] →
      trim (joinWith "\n" ((if layout.opensInline then [] else [[]]) ++ ls)) = trim (joinWith "\n" ls) := by
    intro ls hls
    split
    · rfl
    · rw [List.singleton_append, joinWith_cons_of_ne_nil _ _ hls, List.nil_append, trim_blanks_append hblank]
  have hafter : trim (joinWith "\n" (bs ++ if layout.closesInline then [] else [[]])) = trim (joinWith "\n" bs) := by
    split
    · rw [List.append_nil]
    · rw [joinWith_concat _ _ h, List.append_nil, trim_append_blanks hblank]
  rw [parts, List.append_assoc, hbefore _ (List.append_ne_nil_of_left_ne_nil h _), hafter]

theorem lines_eq (hne : raws ≠ []) (hfeed : ∀ raw ∈ raws, '\n' ∉ raw) (h : layout.text slot bs = joinWith "\n" raws) :
    layout.lines slot bs = raws := by
  rw [lines, h]
  exact splitOn_joinWith hne hfeed

theorem joinWith_lines (layout : Layout) (slot : Slot) (bs : List Text) :
    joinWith "\n" (layout.lines slot bs) = layout.text slot bs :=
  joinWith_splitOn '\n' _

/-- The lines of a block: one line that is between the fences, or a first and a last one with the others in between. -/
theorem lines_cases (slot : Slot) (hslot : slot.Valid) (h : layout.Carries bs) :
    (∃ first, layout.parts bs = [first] ∧ layout.lines slot bs = [slot.head ++ (fence ++ (first ++ fence))]) ∨
      ∃ first mid last, layout.parts bs = first :: (mid ++ [last]) ∧
        layout.lines slot bs = (slot.head ++ (fence ++ first)) :: (mid ++ [last ++ fence]) := by
  obtain ⟨first, rest, hparts⟩ := List.exists_cons_of_ne_nil (layout.parts_ne_nil h.nonempty)
  have hfirst : '\n' ∉ first := h.noFeed (hparts ▸ List.mem_cons_self)
  -- The closing fence is on the line of the opening one unless there is another line between them.
  rcases List.eq_nil_or_concat rest with rfl | ⟨mid, last, rfl⟩
  · refine Or.inl ⟨first, hparts, lines_eq (List.cons_ne_nil _ _) ?_ ?_⟩
    · intro raw hraw
      rw [List.mem_singleton.mp hraw]
      simp [hslot.noFeed_head, hfirst, fence]
    · rw [text, hparts]
      simp only [joinWith, List.append_assoc]
  · rw [List.concat_eq_append] at hparts
    refine Or.inr ⟨first, mid, last, hparts, lines_eq (List.cons_ne_nil _ _) ?_ ?_⟩
    · have hmid : ∀ raw ∈ mid, '\n' ∉ raw := fun raw hraw => h.noFeed (by simp [hparts, hraw])
      have hlast : '\n' ∉ last := h.noFeed (by simp [hparts])
      intro raw hraw
      rcases List.mem_cons.mp hraw with rfl | hraw
      · simp [hslot.noFeed_head, hfirst, fence]
      · rcases List.mem_append.mp hraw with hraw | hraw
        · exact hmid raw hraw
        · rw [List.mem_singleton.mp hraw]
          simp [hlast, fence]
    · have hne : first :: mid ≠ [] := List.cons_ne_nil _ _
      rw [text, hparts, ← List.append_assoc slot.head, joinWith_cons_append, ← List.cons_append, ← List.cons_append,
        joinWith_concat _ _ hne, joinWith_concat _ _ hne]
      simp only [List.append_assoc]

theorem isLine_of_trimRight {s : Text} (hfeed : '\n' ∉ s) (h : trimRight s = s) : IsLine s := by
  refine ⟨hfeed, ?_⟩
  rw [← h]
  exact dropEndWhile_of_imp (fun _ => isBlank_of_lineEnd) s

theorem Carries.isLine_lines (hslot : slot.Valid) (h : layout.Carries bs) :
    ∀ raw ∈ layout.lines slot bs, IsLine raw := by
  intro raw hraw
  have hfeed : '\n' ∉ raw := not_mem_of_mem_splitOn hraw
  rcases lines_cases slot hslot h with ⟨first, -, hlines⟩ | ⟨first, mid, last, hparts, hlines⟩
  · refine isLine_of_trimRight hfeed ?_
    rw [hlines, List.mem_singleton] at hraw
    rw [hraw, ← List.append_assoc, ← List.append_assoc]
    exact trimRight_append_fence _
  · rw [hlines] at hraw
    rcases List.mem_cons.mp hraw with rfl | hraw
    · refine isLine_of_trimRight hfeed ?_
      rw [← List.append_assoc, trimRight_append (trimRight_append_fence _), h.trimRight_head (by rw [hparts]; rfl)]
    · rcases List.mem_append.mp hraw with hraw | hraw
      · have hmem : raw ∈ layout.parts bs := hparts ▸ List.mem_cons_of_mem _ (List.mem_append_left _ hraw)
        rcases mem_parts hmem with hmem | rfl
        · exact h.isLine raw hmem
        · exact ⟨hfeed, rfl⟩
      · rw [List.mem_singleton.mp hraw] at hfeed ⊢
        exact isLine_of_trimRight hfeed (trimRight_append_fence _)

theorem Carries.last_ne_nil (hslot : slot.Valid) (h : layout.Carries bs) :
    ∀ raw ∈ (layout.lines slot bs).getLast?, raw ≠ [] := by
  have hfence : ∀ s : Text, s ++ fence ≠ [] := fun s => List.append_ne_nil_of_right_ne_nil s (List.cons_ne_nil _ _)
  intro raw hraw
  rcases lines_cases slot hslot h with ⟨first, -, hlines⟩ | ⟨first, mid, last, -, hlines⟩
  · rw [hlines, List.getLast?_singleton, Option.mem_some_iff, ← List.append_assoc, ← List.append_assoc] at hraw
    exact hraw ▸ hfence _
  · rw [hlines, ← List.cons_append, List.getLast?_concat, Option.mem_some_iff] at hraw
    exact hraw ▸ hfence _

theorem lines_ne_nil : layout.lines slot bs ≠ [] := by
  rw [lines, splitOn_eq_listSplitOn]
  exact List.splitOn_ne_nil _ _

/-- A file in which a block stands on lines of its own has the lines of the block among its lines. -/
theorem Carries.rawLines (hslot : slot.Valid) (h : layout.Carries bs) {before after : List UInt8} {raws : List Text}
    (hbefore : ∀ b ∈ before.getLast?, b = 10) (hraws : Include.rawLines before = (raws, none))
    (hafter : ∀ b ∈ after.head?, b = 10) :
    Include.rawLines (before ++ (Utf8.encode (layout.text slot bs) ++ after)) =
      (raws ++ (layout.lines slot bs ++ (Include.rawLines after.tail).1), (Include.rawLines after.tail).2) := by
  rw [rawLines_append hbefore hraws, ← joinWith_lines,
    rawLines_joinWith (h.isLine_lines hslot) (h.last_ne_nil hslot) lines_ne_nil hafter]

end Layout

/-! ### Reading a block -/

variable {σ : Type} {homes : Homes} {base source path : Text} {include? : Line → Text → Reading σ (List Line)}
  {number : Int}

/-- Lines of an open block that do not end with a fence are taken as they stand. -/
theorem readLines_unclosed (h : ∀ raw ∈ raws, closes (trim raw) = false) (o : Open) (s : σ) :
    readLines homes base include? ⟨⟨source, path, some o⟩, number⟩ raws s =
      .ok (⟨⟨source, path, some { o with raw := o.raw ++ raws, body := o.body ++ raws }⟩, number + raws.length⟩, [])
        s := by
  induction raws generalizing o number with
  | nil => simp [readLines_nil]
  | cons raw raws ih =>
    have hfeed : Assembler.feed ⟨source, path, some o⟩ number raw = (⟨source, path, some (o.push raw)⟩, none) :=
      if_neg (by simp [h raw List.mem_cons_self])
    rw [readLines_cons (readLine_feed (fun hnone => by cases hnone) s), hfeed,
      bind_of_ok (ih (fun raw hraw => h raw (List.mem_cons_of_mem _ hraw)) (o.push raw))]
    simp [Open.push, Int.add_assoc, Int.add_comm 1]

theorem feed_head (hslot : slot.Valid) (hrest : trimRight rest = rest) (hfeed : '\n' ∉ rest) :
    (Assembler.ofFile source path).feed number (slot.head ++ (fence ++ rest)) =
      if closes rest then (.ofFile source path,
        some ⟨source, path, number, slot.head ++ (fence ++ rest), some (value slot.word (trim (dropFence rest)))⟩)
      else (⟨source, path, some ⟨⟨source, path, number, slot.head ++ (fence ++ rest), none⟩, slot.word,
        [slot.head ++ (fence ++ rest)], [rest]⟩⟩, none) := by
  simp only [Assembler.feed, Assembler.ofFile, trim_head hslot hrest, opening?_head hslot hfeed]

theorem readLine_head (hslot : slot.Valid) (hrest : trimRight rest = rest) (s : σ) :
    readLine homes base include? ⟨.ofFile source path, number⟩ (slot.head ++ (fence ++ rest)) s =
      .ok (⟨((Assembler.ofFile source path).feed number (slot.head ++ (fence ++ rest))).1, number + 1⟩,
        ((Assembler.ofFile source path).feed number (slot.head ++ (fence ++ rest))).2.toList) s :=
  readLine_feed (fun _ => by
    rw [trim_head hslot hrest]
    exact ⟨not_isSilent_head hslot _, not_isStatement_head hslot _⟩) s

theorem feed_fence (o : Open) (last : Text) : Assembler.feed ⟨source, path, some o⟩ number (last ++ fence) =
    (.ofFile source path, some { o.start with
      text := joinWith "\n" (o.raw ++ [last ++ fence])
      value := some (value o.word (trim (joinWith "\n" (o.body ++ [last])))) }) := by
  have hcloses : closes (trim (last ++ fence)) = true := closes_trim (closes_append_fence last)
  simp only [Assembler.feed, hcloses, if_true, Open.close, trimRight_append_fence, dropFence_append, Assembler.ofFile]

theorem readLines_fence (h : ∀ raw ∈ raws, closes (trim raw) = false) (o : Open) (last : Text) (s : σ) :
    readLines homes base include? ⟨⟨source, path, some o⟩, number⟩ (raws ++ [last ++ fence]) s =
      .ok (⟨.ofFile source path, number + (raws ++ [last ++ fence]).length⟩, [{ o.start with
        text := joinWith "\n" (o.raw ++ raws ++ [last ++ fence])
        value := some (value o.word (trim (joinWith "\n" (o.body ++ raws ++ [last])))) }]) s := by
  rw [readLines_append (readLines_unclosed h o s),
    bind_of_ok ((readLines_cons (readLine_feed (fun hnone => by cases hnone) s)).trans rfl), feed_fence]
  simp [Int.add_assoc]

/-- A block reads to one logical line, in every layout that can carry it. -/
theorem Layout.read (hslot : slot.Valid) (h : layout.Carries bs) (source path : Text) (number : Int) (s : σ) :
    readLines homes base include? ⟨.ofFile source path, number⟩ (layout.lines slot bs) s =
      .ok (⟨.ofFile source path, number + (layout.lines slot bs).length⟩,
        [layout.line slot bs source path number]) s := by
  have hfeed : ∀ b ∈ layout.parts bs, '\n' ∉ b := fun b hb => h.noFeed hb
  have hcloses : ∀ b ∈ layout.parts bs, closes (trim b) = false := fun b hb => h.not_closes hb
  have hhead : ∀ b ∈ (layout.parts bs).head?, trimRight b = b := fun b hb => h.trimRight_head hb
  rw [Layout.line, ← layout.trim_joinWith_parts h.nonempty, ← joinWith_lines]
  rcases lines_cases slot hslot h with ⟨first, hparts, hlines⟩ | ⟨first, mid, last, hparts, hlines⟩ <;>
    rw [hparts] at hfeed hcloses hhead ⊢ <;> rw [hlines]
  · -- Both fences stand on one line.
    have hrest : '\n' ∉ first ++ fence := by simp [hfeed first List.mem_cons_self, fence]
    rw [readLines_cons (readLine_head hslot (trimRight_append_fence first) s),
      feed_head hslot (trimRight_append_fence first) hrest, if_pos (closes_append_fence first), dropFence_append]
    rfl
  · have hfirst : trimRight first = first := hhead first rfl
    have hopen : ¬ closes first = true := fun hclosed => by
      simpa [closes_trim hclosed] using hcloses first List.mem_cons_self
    have hmid : ∀ raw ∈ mid, closes (trim raw) = false := fun raw hraw =>
      hcloses raw (List.mem_cons_of_mem _ (List.mem_append_left _ hraw))
    rw [readLines_cons (readLine_head hslot hfirst s),
      feed_head hslot hfirst (hfeed first List.mem_cons_self), if_neg hopen]
    -- The lines in between are taken as they stand, and the last one ends the block.
    rw [bind_of_ok (readLines_fence hmid _ last s)]
    simp [Int.add_assoc, Int.add_comm 1]

/-! ### The logical line -/

theorem text_line (layout : Layout) (slot : Slot) (bs : List Text) : ∃ rest,
    layout.text slot bs = slot.key ++ " ".toList ++ '=' :: rest := by
  refine ⟨' ' :: (slot.lead ++ (fence ++ (joinWith "\n" (layout.parts bs) ++ fence))), ?_⟩
  rw [Layout.text, List.append_assoc, List.append_assoc, slot.head_append, List.append_assoc]
  rfl

theorem mem_text_line : '=' ∈ (layout.line slot bs source path number).text := by
  obtain ⟨rest, hrest⟩ := text_line layout slot bs
  rw [Layout.line, hrest]
  exact List.mem_append_right _ List.mem_cons_self

theorem key_line (hslot : slot.Valid) : (layout.line slot bs source path number).key = slot.key := by
  obtain ⟨rest, hrest⟩ := text_line layout slot bs
  have hequals : '=' ∉ slot.key ++ " ".toList := fun hmem =>
    (List.mem_append.mp hmem).elim (fun hmem => (hslot.isKeyChar _ hmem).2.1 rfl) (by decide)
  rw [Line.key, Layout.line, hrest, cut_append hequals, trim_append_blanks (List.all_eq_true.mp rfl),
    trim_of_noBlank fun c hc => (hslot.isKeyChar c hc).1]

end Runbook.Block
