import Runbook.Proofs.Include.Cursor
import Runbook.Proofs.Recipe.Content
import Runbook.Proofs.Text.Margins

/-! # What lines come to

Reading the lines of a file comes to a row of acts (`Cursor.acts`): logical lines that are given, and files that are
included. What a recipe takes from an act is its gist (`Act.gist`); where the line stands in its file is not part of it,
nor is white space at the ends of a line outside blocks, of the opening line of a block, or at the end of its closing line
(`Cursor.TakesAlike.act`). -/

namespace Runbook

open Text

namespace Include

open Effect

variable {σ : Type} {homes : Homes} {base : Text} {include? : Line → Text → Reading σ (List Line)} {c c' : Cursor}
  {raw raw' text : Text} {raws : List Text} {b b' : Block.Open} {o : Block.Opening}

/-! ### Acts -/

/-- What a line comes to: a logical line is given, or a line includes a file. -/
inductive Act
  | gives (line : Line)
  | includes (here : Line)

/-- What a recipe takes from an act: the gist of a logical line, or the text of a line that includes a file. -/
def Act.gist : Act → Line.Gist ⊕ Text
  | .gives line => .inl line.gist
  | .includes here => .inr here.text

section
variable (homes base include?)

/-- The logical lines that come of an act. -/
def Act.perform : Act → Reading σ (List Line)
  | .gives line => return [line]
  | .includes here =>
    match target homes base here with
    | .error e => throw e
    | .ok path => include? here path

/-- The logical lines that come of some acts. -/
def performAll : List Act → Reading σ (List Line)
  | [] => return []
  | act :: acts => do
    let lines ← act.perform homes base include?
    let more ← performAll acts
    return lines ++ more

end

/-- The acts of a line at a cursor. -/
def Cursor.act (c : Cursor) (raw : Text) : List Act :=
  if c.Includes raw then [.includes (c.here raw)] else (c.take raw).2.map .gives

/-- The acts of some lines from a cursor on. -/
def Cursor.acts : Cursor → List Text → List Act
  | _, [] => []
  | c, raw :: raws => c.act raw ++ (c.pass raw).acts raws

theorem Cursor.acts_append (c : Cursor) (raws raws' : List Text) :
    c.acts (raws ++ raws') = c.acts raws ++ (c.passAll raws).acts raws' := by
  induction raws generalizing c with
  | nil => rfl
  | cons raw raws ih => rw [List.cons_append, acts, acts, ih, passAll_cons, List.append_assoc]

theorem Cursor.passAll_append (c : Cursor) (raws raws' : List Text) :
    c.passAll (raws ++ raws') = (c.passAll raws).passAll raws' := List.foldl_append

theorem performAll_append (acts acts' : List Act) : performAll homes base include? (acts ++ acts') = (do
    let lines ← performAll homes base include? acts
    let more ← performAll homes base include? acts'
    return lines ++ more) := by
  induction acts with
  | nil => simp [performAll]
  | cons act acts ih => simp [performAll, ih, ← List.append_assoc]

theorem performAll_gives (lines : List Line) : performAll homes base include? (lines.map .gives) = pure lines := by
  induction lines with
  | nil => rfl
  | cons line lines ih => simp [performAll, Act.perform, ih]

theorem readLine_eq_perform (c : Cursor) (raw : Text) : readLine homes base include? c raw = (do
    let lines ← performAll homes base include? (c.act raw)
    return (c.pass raw, lines)) := by
  funext s
  rw [readLine_eq, Cursor.act]
  by_cases h : c.Includes raw
  · rw [if_pos h, if_pos h]
    cases ht : target homes base (c.here raw) with
    | error e => simp [performAll, Act.perform, ht]
    | ok path => simp [performAll, Act.perform, ht]
  · rw [if_neg h, if_neg h, performAll_gives, Cursor.pass, if_neg h, pure_bind]
    rfl

/-- Reading lines is performing their acts. -/
theorem readLines_eq_perform (c : Cursor) (raws : List Text) : readLines homes base include? c raws = (do
    let lines ← performAll homes base include? (c.acts raws)
    return (c.passAll raws, lines)) := by
  induction raws generalizing c with
  | nil => rfl
  | cons raw raws ih =>
    rw [readLines, readLine_eq_perform]
    simp [ih, Cursor.acts, performAll_append]

end Include

/-! ### Keys -/

/-- The text of a logical line that assigns begins with the same key whichever of these its first line is. -/
structure Text.SameKey (s t : Text) : Prop where
  assigns : '=' ∈ s
  assigns' : '=' ∈ t
  key : trim (cut '=' s).1 = trim (cut '=' t).1

namespace Text

variable {s t : Text}

theorem exists_cut (h : '=' ∈ s) : ∃ key rest, s = key ++ '=' :: rest ∧ '=' ∉ key ∧ (cut '=' s).1 = key := by
  obtain ⟨key, rest, rfl, hkey⟩ := List.eq_append_cons_of_mem h
  exact ⟨key, rest, rfl, hkey, by rw [cut_append hkey]⟩

theorem cut_append_of_mem (h : '=' ∈ s) (t : Text) : (cut '=' (s ++ t)).1 = (cut '=' s).1 := by
  obtain ⟨key, rest, rfl, hkey, -⟩ := exists_cut h
  rw [List.append_assoc, List.cons_append, cut_append hkey, cut_append hkey]

theorem trim_cut_trim (h : '=' ∈ trim s) : trim (cut '=' s).1 = trim (cut '=' (trim s)).1 := by
  obtain ⟨lead, blanks, hs, hlead, -⟩ := exists_trim s
  obtain ⟨key, rest, htrim, hkey, hcut⟩ := exists_cut h
  have hnone : '=' ∉ lead ++ key := fun hmem => (List.mem_append.mp hmem).elim (fun hmem => by cases hlead _ hmem) hkey
  rw [hcut, hs, htrim]
  simp only [List.append_assoc, List.cons_append]
  rw [← List.append_assoc, cut_append hnone, trim_blanks_append hlead]

/-- White space at the ends of a line makes no difference to its key. -/
theorem SameKey.of_trim (h : trim s = trim t) (hassigns : '=' ∈ trim s) : SameKey s t where
  assigns := mem_of_mem_trim hassigns
  assigns' := mem_of_mem_trim (h ▸ hassigns)
  key := by
    have hassigns' : '=' ∈ trim t := h ▸ hassigns
    rw [trim_cut_trim hassigns, trim_cut_trim hassigns', h]

/-- What stands after the first lines makes no difference to the key. -/
theorem SameKey.append (h : SameKey s t) (u v : Text) : SameKey (s ++ u) (t ++ v) where
  assigns := List.mem_append_left _ h.assigns
  assigns' := List.mem_append_left _ h.assigns'
  key := by rw [cut_append_of_mem h.assigns, cut_append_of_mem h.assigns', h.key]

end Text

/-- The gist of a block is its value and its key. -/
theorem Line.gist_eq_of_block {line line' : Line} {value : Text} (hvalue : line.value = some value)
    (hvalue' : line'.value = some value) (h : SameKey line.text line'.text) : line.gist = line'.gist := by
  rw [gist, gist, hvalue, hvalue', key, key, h.key, List.contains_iff_mem.mpr h.assigns,
    List.contains_iff_mem.mpr h.assigns']
  rfl

/-! ### Blocks -/

namespace Block

variable {text value raw raw' : Text} {o : Opening} {b b' : Open}

theorem mem_of_opening? (h : opening? text = some o) : '=' ∈ text := by
  unfold opening? at h
  dsimp only at h
  split at h
  · rename_i value heq
    have hmem : '=' ∈ Text.trimLeft (text.drop (text.takeWhile fun c => !isBlank c && c != '=').length) :=
      heq ▸ List.mem_cons_self
    exact List.mem_of_mem_drop ((List.dropWhile_sublist _).subset hmem)
  · cases h

/-- Blocks that are begun in the same way, up to white space at the ends of the opening line. -/
structure Open.Alike (b b' : Open) : Prop where
  word : b.word = b'.word
  body : b.body = b'.body
  raw : ∃ raw rest raw' rest', b.raw = raw :: rest ∧ b'.raw = raw' :: rest' ∧ SameKey raw raw'

theorem Open.Alike.push (h : b.Alike b') (raw : Text) : (b.push raw).Alike (b'.push raw) := by
  obtain ⟨first, rest, first', rest', hraw, hraw', hkey⟩ := h.raw
  refine ⟨h.word, congrArg (· ++ [raw]) h.body, first, rest ++ [raw], first', rest' ++ [raw], ?_, ?_, hkey⟩
  · rw [Open.push, hraw]
    rfl
  · rw [Open.push, hraw']
    rfl

theorem exists_joinWith_cons (sep s : Text) (lines : List Text) : ∃ t, joinWith sep (s :: lines) = s ++ t := by
  cases lines with
  | nil => exact ⟨[], (List.append_nil s).symm⟩
  | cons t lines => exact ⟨sep ++ joinWith sep (t :: lines), List.append_assoc _ _ _⟩

/-- White space at the end of its closing line makes no difference to a block. -/
theorem Open.Alike.close (h : b.Alike b') (hraw : trimRight raw = trimRight raw') :
    (b.close raw).gist = (b'.close raw').gist := by
  obtain ⟨first, rest, first', rest', hfirst, hfirst', hkey⟩ := h.raw
  have hvalue : (b.close raw).value = (b'.close raw').value := by
    rw [Open.close, Open.close, h.word, h.body, hraw]
  refine Line.gist_eq_of_block rfl hvalue.symm ?_
  obtain ⟨t, ht⟩ := exists_joinWith_cons "\n" first (rest ++ [raw])
  obtain ⟨t', ht'⟩ := exists_joinWith_cons "\n" first' (rest' ++ [raw'])
  rw [Open.close, Open.close, hfirst, hfirst']
  show SameKey (joinWith "\n" (first :: (rest ++ [raw]))) (joinWith "\n" (first' :: (rest' ++ [raw'])))
  rw [ht, ht']
  exact hkey.append t t'

end Block

/-! ### What a line comes to -/

namespace Include

variable {c c' : Cursor} {raw raw' : Text} {raws : List Text}

theorem Cursor.act_silent (raw : Text) (hblock : c.assembler.block = none) (h : isSilent (trim raw) = true) :
    c.act raw = [] ∧ (c.pass raw).assembler = c.assembler := by
  have hincludes : ¬ c.Includes raw := fun hincludes => by
    rw [isSilent_of_isStatement hincludes.2] at h
    cases h
  rw [act, if_neg hincludes, pass, if_neg hincludes, take, if_pos ⟨hblock, h⟩]
  exact ⟨rfl, rfl⟩

theorem Cursor.act_statement (hblock : c.assembler.block = none) (h : isStatement (trim raw) = true) :
    c.act raw = [.includes (c.here raw)] ∧ (c.pass raw).assembler = c.assembler := by
  have hincludes : c.Includes raw := ⟨hblock, h⟩
  rw [act, if_pos hincludes, pass, if_pos hincludes]
  exact ⟨rfl, rfl⟩

theorem Cursor.act_feed (c : Cursor) (raw : Text)
    (h : c.assembler.block = none → isSilent (trim raw) = false ∧ isStatement (trim raw) = false) :
    c.act raw = (c.assembler.feed c.number raw).2.toList.map .gives ∧
      (c.pass raw).assembler = (c.assembler.feed c.number raw).1 := by
  have hincludes : ¬ c.Includes raw := fun hincludes => by
    have hstatement := (h hincludes.1).2
    rw [hincludes.2] at hstatement
    cases hstatement
  have hsilent : ¬ (c.assembler.block = none ∧ isSilent (trim raw) = true) := fun hsilent => by
    have hnot := (h hsilent.1).1
    rw [hsilent.2] at hnot
    cases hnot
  rw [act, if_neg hincludes, pass, if_neg hincludes, take, if_neg hsilent]
  exact ⟨rfl, rfl⟩

/-! ### Lines that come to the same -/

/-- Assemblers in blocks that are begun in the same way, or outside blocks. -/
inductive InStep (a a' : Assembler) : Prop
  | outside (h : a.block = none) (h' : a'.block = none) : InStep a a'
  | inside {b b' : Block.Open} (h : a.block = some b) (h' : a'.block = some b') (hb : b.Alike b') : InStep a a'

theorem InStep.isSome_eq {a a' : Assembler} (h : InStep a a') : a.block.isSome = a'.block.isSome := by
  cases h with
  | outside h h' => rw [h, h']
  | inside h h' => rw [h, h']; rfl

theorem feed_outside {a a' : Assembler} (h : a.block = none) (h' : a'.block = none) (ht : trim raw = trim raw')
    (number number' : Int) : (a.feed number raw).2.map Line.gist = (a'.feed number' raw').2.map Line.gist ∧
      InStep (a.feed number raw).1 (a'.feed number' raw').1 := by
  simp only [Assembler.feed, h, h', ← ht]
  cases ho : Block.opening? (trim raw) with
  | none => exact ⟨rfl, .outside h h'⟩
  | some o =>
    have hassigns := Block.mem_of_opening? ho
    by_cases hcloses : Block.closes o.rest = true
    · simp only [hcloses, if_true]
      exact ⟨rfl, .outside h h'⟩
    · simp only [hcloses]
      exact ⟨rfl, .inside rfl rfl ⟨rfl, rfl, raw, [], raw', [], rfl, rfl, .of_trim ht hassigns⟩⟩

theorem feed_inside {a a' : Assembler} {b b' : Block.Open} (h : a.block = some b) (h' : a'.block = some b')
    (hb : b.Alike b') (hraw : raw = raw' ∨ Block.closes (trim raw) = true ∧ trimRight raw = trimRight raw')
    (number number' : Int) : (a.feed number raw).2.map Line.gist = (a'.feed number' raw').2.map Line.gist ∧
      InStep (a.feed number raw).1 (a'.feed number' raw').1 := by
  have hright : trimRight raw = trimRight raw' := hraw.elim (congrArg trimRight) And.right
  have ht : trim raw = trim raw' := trim_eq_of_trimRight_eq hright
  simp only [Assembler.feed, h, h', ← ht]
  by_cases hcloses : Block.closes (trim raw) = true
  · simp only [hcloses, if_true]
    exact ⟨congrArg some (hb.close hright), .outside rfl rfl⟩
  · obtain rfl := hraw.resolve_right fun hclosing => hcloses hclosing.1
    simp only [hcloses]
    exact ⟨rfl, .inside rfl rfl (hb.push raw)⟩

namespace Cursor

/-- Lines come to the same at a cursor: they are the same, or they differ in white space at both ends outside blocks, or
    at the end of the closing line of a block. -/
inductive TakesAlike (c : Cursor) (raw raw' : Text) : Prop
  | same (h : raw = raw') : TakesAlike c raw raw'
  | outside (hblock : c.assembler.block = none) (h : trim raw = trim raw') : TakesAlike c raw raw'
  | closing (hcloses : Block.closes (trim raw) = true) (h : trimRight raw = trimRight raw') : TakesAlike c raw raw'

theorem TakesAlike.trim_eq (h : c.TakesAlike raw raw') : trim raw = trim raw' := by
  cases h with
  | same h => rw [h]
  | outside _ h => exact h
  | closing _ h => exact trim_eq_of_trimRight_eq h

/-- Lines that come to the same have the same gists, and leave assemblers in step. -/
theorem TakesAlike.act (hraw : c.TakesAlike raw raw') (h : InStep c.assembler c'.assembler) :
    (c.act raw).map Act.gist = (c'.act raw').map Act.gist ∧ InStep (c.pass raw).assembler (c'.pass raw').assembler := by
  have ht := hraw.trim_eq
  have hfeeds : ∀ {line line' : Option Line}, line.map Line.gist = line'.map Line.gist →
      (line.toList.map Act.gives).map Act.gist = (line'.toList.map Act.gives).map Act.gist := by
    intro line line' heq
    cases line <;> cases line' <;> simp_all [Act.gist]
  cases h with
  | outside h h' =>
    by_cases hsilent : isSilent (trim raw) = true
    · obtain ⟨hact, hpass⟩ := act_silent raw h hsilent
      obtain ⟨hact', hpass'⟩ := act_silent raw' h' (ht ▸ hsilent)
      rw [hact, hact', hpass, hpass']
      exact ⟨rfl, .outside h h'⟩
    · by_cases hstatement : isStatement (trim raw) = true
      · obtain ⟨hact, hpass⟩ := act_statement h hstatement
        obtain ⟨hact', hpass'⟩ := act_statement h' (ht ▸ hstatement)
        rw [hact, hact', hpass, hpass']
        refine ⟨?_, .outside h h'⟩
        show [Sum.inr (trim raw)] = [Sum.inr (trim raw')]
        rw [ht]
      · obtain ⟨hact, hpass⟩ := act_feed c raw fun _ => ⟨by simpa using hsilent, by simpa using hstatement⟩
        obtain ⟨hact', hpass'⟩ := act_feed c' raw' fun _ =>
          ⟨by simpa [← ht] using hsilent, by simpa [← ht] using hstatement⟩
        obtain ⟨hgist, hstep⟩ := feed_outside h h' ht c.number c'.number
        rw [hact, hact', hpass, hpass']
        exact ⟨hfeeds hgist, hstep⟩
  | inside h h' hb =>
    obtain ⟨hact, hpass⟩ := act_feed c raw fun hnone => by simp [h] at hnone
    obtain ⟨hact', hpass'⟩ := act_feed c' raw' fun hnone => by simp [h'] at hnone
    have hsame : raw = raw' ∨ Block.closes (trim raw) = true ∧ trimRight raw = trimRight raw' := by
      cases hraw with
      | same h => exact Or.inl h
      | outside hnone _ => simp [h] at hnone
      | closing hcloses h => exact Or.inr ⟨hcloses, h⟩
    obtain ⟨hgist, hstep⟩ := feed_inside h h' hb hsame c.number c'.number
    rw [hact, hact', hpass, hpass']
    exact ⟨hfeeds hgist, hstep⟩

/-- What the same lines come to depends only on whether a block is open, and how it is begun. -/
theorem acts_eq (h : InStep c.assembler c'.assembler) (raws : List Text) :
    (c.acts raws).map Act.gist = (c'.acts raws).map Act.gist ∧
      InStep (c.passAll raws).assembler (c'.passAll raws).assembler := by
  induction raws generalizing c c' with
  | nil => exact ⟨rfl, h⟩
  | cons raw raws ih =>
    obtain ⟨hact, hpass⟩ := TakesAlike.act (.same (rfl : raw = raw)) h
    obtain ⟨hacts, hpassAll⟩ := ih hpass
    rw [acts, acts, List.map_append, List.map_append, hact, hacts]
    exact ⟨rfl, hpassAll⟩

end Cursor

end Include

end Runbook
