import Runbook.Proofs.Include.Logged
import Runbook.Proofs.Tree.Linkless

/-! # Where logical lines come from

The lines of a file that is read fall into stretches, one after the other: a line or the lines of a block, which make
one logical line, and an include line, which stands for what its target reads to. What lies in no stretch says nothing
(`Expansion`). The invariant `Progress` says this of the lines read so far; a line keeps it (`Progress.readLine`), and so
does a reading. Main statement: `Recipe.read_attribution`. -/

namespace Runbook

open Effect Text

variable {w v v' : World} {files : Files} {source path raw target : Text} {raws more : List Text} {first count : Nat}
  {line : Line} {lines : List Line} {p : Path} {place : Place}

namespace Include

/-! ### Stretches -/

/-- Some lines of a file in a row: how many lines are before them, how many they are, and the logical lines they stand
    for. -/
structure Stretch where
  first : Nat
  count : Nat
  lines : List Line

/-- Whether a line belongs to a stretch, given how many lines are before it. -/
def Stretch.Covers (x : Stretch) (i : Nat) : Prop := x.first ≤ i ∧ i < x.first + x.count

/-- A stretch ends before another one begins. -/
def Stretch.Before (x y : Stretch) : Prop := x.first + x.count ≤ y.first

/-- A line of a file that makes a logical line, or the first line of a block. -/
def Speaks (raw : Text) : Prop := isSilent (trim raw) = false ∧ isStatement (trim raw) = false

/-- A logical line is that of a line of the file, trimmed, or of the lines of a block as they stand, and names the file
    and the first of these lines. -/
structure Stands (source path : Text) (raws : List Text) (first count : Nat) (line : Line) : Prop where
  source : line.source = source
  path : line.path = path
  number : line.number = first + 1
  speaks : ∃ raw, raws[first]? = some raw ∧ Speaks raw
  text : (count = 1 ∧ ∃ raw, raws[first]? = some raw ∧ line.text = trim raw) ∨
    (2 ≤ count ∧ first + count ≤ raws.length ∧ line.value.isSome ∧
      line.text = joinWith "\n" ((raws.drop first).take count))

/-- The lines of a stretch make one logical line. -/
def Stretch.IsOwn (source path : Text) (raws : List Text) (x : Stretch) : Prop :=
  ∃ line, x.lines = [line] ∧ Stands source path raws x.first x.count line

/-- The stretch is a line that includes a target. -/
def Stretch.Includes (files : Files) (source path : Text) (raws : List Text) (x : Stretch) (target : Text) : Prop :=
  x.count = 1 ∧ ∃ raw, raws[x.first]? = some raw ∧ isStatement (trim raw) = true ∧
    Include.target files.homes (Path.ofText path).directory.toText ⟨source, path, x.first + 1, trim raw, none⟩ =
      .ok target

/-- What a file reads to. Its lines, of which `gives` says whether they are the lines of the file with a path, fall into
    stretches, and what is in none of them says nothing; the logical lines are those of the stretches, and those of an
    include line are what its target reads to. -/
inductive Expansion (files : Files) (gives : Text → List Text → Prop) : (source path : Text) → List Line → Prop
  | intro {source path : Text} {raws : List Text} {stretches : List Stretch} (hgives : gives path raws)
      (hknown : ∀ x ∈ stretches, x.IsOwn source path raws ∨ ∃ target, x.Includes files source path raws target)
      (hthere : ∀ x ∈ stretches, ∀ target, x.Includes files source path raws target →
        Expansion files gives target (files.absolute (Path.ofText target)).toText x.lines)
      (hordered : stretches.Pairwise Stretch.Before)
      (hsilent : ∀ (i : Nat) (raw : Text), raws[i]? = some raw → (∀ x ∈ stretches, ¬ x.Covers i) →
        isSilent (trim raw) = true) :
      Expansion files gives source path (stretches.flatMap Stretch.lines)

/-- A reading leads from a state with a property to such a state again, and gives what a file reads to. -/
def Expands {σ : Type} (files : Files) (gives : Text → List Text → Prop) (I : σ → Prop) (act : Reading σ (List Line))
    (source path : Text) : Prop :=
  ∀ s lines s', I s → act s = .ok lines s' → I s' ∧ Expansion files gives source path lines

/-- Each logical line is that of lines of a file that has been read. -/
theorem Expansion.stands {gives : Text → List Text → Prop} (h : Expansion files gives source path lines) :
    ∀ line ∈ lines, ∃ raws first count, gives line.path raws ∧ Stands line.source line.path raws first count line := by
  induction h with
  | intro hgives hknown hthere hordered hsilent ih =>
    intro line hline
    obtain ⟨x, hx, hline⟩ := List.mem_flatMap.mp hline
    rcases hknown x hx with ⟨line', hlines, hstands⟩ | ⟨target, hincludes⟩
    · rw [hlines, List.mem_singleton] at hline
      subst hline
      exact ⟨_, x.first, x.count, hstands.path ▸ hgives, hstands.path ▸ hstands.source ▸ hstands⟩
    · exact ih x hx target hincludes line hline

theorem Stands.append (h : Stands source path raws first count line) (more : List Text) :
    Stands source path (raws ++ more) first count line := by
  have hget : ∀ raw, raws[first]? = some raw → (raws ++ more)[first]? = some raw := fun raw hraw => by
    rw [List.getElem?_append_left (List.getElem?_eq_some_iff.mp hraw).1, hraw]
  obtain ⟨raw, hraw, hspeaks⟩ := h.speaks
  refine ⟨h.source, h.path, h.number, ⟨raw, hget raw hraw, hspeaks⟩, h.text.imp ?_ ?_⟩
  · rintro ⟨hcount, raw, hraw, htext⟩
    exact ⟨hcount, raw, hget raw hraw, htext⟩
  · rintro ⟨hcount, hle, hvalue, htext⟩
    refine ⟨hcount, ?_, hvalue, ?_⟩
    · rw [List.length_append]
      omega
    · rw [htext, List.drop_append_of_le_length (by omega), List.take_append_of_le_length (by rw [List.length_drop]; omega)]

theorem Stretch.includes_append_iff {x : Stretch} (hx : x.first + x.count ≤ raws.length) (more : List Text) :
    x.Includes files source path (raws ++ more) target ↔ x.Includes files source path raws target := by
  refine and_congr_right fun hcount => ?_
  rw [List.getElem?_append_left (by omega)]

/-! ### Progress -/

/-- How far the reading of a file has come: the lines `raws` have been read, of which the first `settled` ones fall into
    stretches; the others belong to the block that is open. -/
structure Progress (files : Files) (gives : Text → List Text → Prop) (source path : Text) (raws : List Text)
    (settled : Nat) (stretches : List Stretch) (c : Cursor) : Prop where
  ofSource : c.assembler.source = source
  ofPath : c.assembler.path = path
  number : c.number = raws.length + 1
  known : ∀ x ∈ stretches, x.IsOwn source path raws ∨ ∃ target, x.Includes files source path raws target
  there : ∀ x ∈ stretches, ∀ target, x.Includes files source path raws target →
    Expansion files gives target (files.absolute (Path.ofText target)).toText x.lines
  ordered : stretches.Pairwise Stretch.Before
  bounded : ∀ x ∈ stretches, x.first + x.count ≤ settled
  silent : ∀ (i : Nat) (raw : Text), i < settled → raws[i]? = some raw → (∀ x ∈ stretches, ¬ x.Covers i) →
    isSilent (trim raw) = true
  block : match c.assembler.block with
    | none => settled = raws.length
    | some b => b.start.source = source ∧ b.start.path = path ∧ b.start.number = settled + 1 ∧
        settled < raws.length ∧ b.raw = raws.drop settled ∧ ∃ raw, raws[settled]? = some raw ∧ Speaks raw

namespace Progress

variable {gives : Text → List Text → Prop} {settled : Nat} {stretches : List Stretch} {x : Stretch} {c : Cursor}

theorem start (source path : Text) : Progress files gives source path [] 0 [] ⟨.ofFile source path, 1⟩ :=
  ⟨rfl, rfl, rfl, by simp, by simp, .nil, by simp, by simp, rfl⟩

theorem settled_le (h : Progress files gives source path raws settled stretches c) : settled ≤ raws.length := by
  have hblock := h.block
  split at hblock
  · exact hblock.le
  · exact hblock.2.2.2.1.le

theorem settled_eq (h : Progress files gives source path raws settled stretches c) (hc : c.assembler.block = none) :
    settled = raws.length := by
  have hblock := h.block
  rwa [hc] at hblock

theorem known_append (h : Progress files gives source path raws settled stretches c) (more : List Text) :
    ∀ x ∈ stretches, x.IsOwn source path (raws ++ more) ∨ ∃ target, x.Includes files source path (raws ++ more) target := by
  intro x hx
  refine (h.known x hx).imp ?_ ?_
  · rintro ⟨line, hlines, hstands⟩
    exact ⟨line, hlines, hstands.append more⟩
  · rintro ⟨target, hincludes⟩
    exact ⟨target, (Stretch.includes_append_iff ((h.bounded x hx).trans h.settled_le) more).mpr hincludes⟩

theorem there_append (h : Progress files gives source path raws settled stretches c) (more : List Text) :
    ∀ x ∈ stretches, ∀ target, x.Includes files source path (raws ++ more) target →
      Expansion files gives target (files.absolute (Path.ofText target)).toText x.lines := fun x hx target hincludes =>
  h.there x hx target ((Stretch.includes_append_iff ((h.bounded x hx).trans h.settled_le) more).mp hincludes)

theorem silent_append (h : Progress files gives source path raws settled stretches c) (more : List Text) (i : Nat)
    (raw : Text) (hi : i < settled) (hraw : (raws ++ more)[i]? = some raw) (hx : ∀ x ∈ stretches, ¬ x.Covers i) :
    isSilent (trim raw) = true := by
  rw [List.getElem?_append_left (hi.trans_le h.settled_le)] at hraw
  exact h.silent i raw hi hraw hx

/-- A line that says nothing. -/
theorem skip (h : Progress files gives source path raws settled stretches c) (hc : c.assembler.block = none)
    (hraw : isSilent (trim raw) = true) : Progress files gives source path (raws ++ [raw]) (raws ++ [raw]).length
      stretches ⟨c.assembler, c.number + 1⟩ where
  ofSource := h.ofSource
  ofPath := h.ofPath
  number := by simp [h.number]
  known := h.known_append [raw]
  there := h.there_append [raw]
  ordered := h.ordered
  bounded y hy := by
    have hle := (h.bounded y hy).trans h.settled_le
    rw [List.length_append]
    omega
  silent i raw' hi hraw' hx := by
    have hsettled := h.settled_eq hc
    by_cases hlt : i < settled
    · exact h.silent_append [raw] i raw' hlt hraw' hx
    · rw [List.length_append, List.length_singleton] at hi
      obtain rfl : i = raws.length := by omega
      rw [List.getElem?_concat_length] at hraw'
      cases hraw'
      exact hraw
  block := by simp [hc]

/-- A line after which one more stretch is settled, with all lines. -/
theorem settle (h : Progress files gives source path raws settled stretches c) {a : Assembler}
    (hsource : a.source = source) (hpath : a.path = path) (ha : a.block = none) (hfirst : x.first = settled)
    (hcount : x.first + x.count = (raws ++ [raw]).length)
    (hknown : x.IsOwn source path (raws ++ [raw]) ∨ ∃ target, x.Includes files source path (raws ++ [raw]) target)
    (hthere : ∀ target, x.Includes files source path (raws ++ [raw]) target →
      Expansion files gives target (files.absolute (Path.ofText target)).toText x.lines) :
    Progress files gives source path (raws ++ [raw]) (raws ++ [raw]).length (stretches ++ [x]) ⟨a, c.number + 1⟩ where
  ofSource := hsource
  ofPath := hpath
  number := by simp [h.number]
  known y hy := by
    rcases List.mem_append.mp hy with hy | hy
    · exact h.known_append [raw] y hy
    · exact List.mem_singleton.mp hy ▸ hknown
  there y hy := by
    rcases List.mem_append.mp hy with hy | hy
    · exact h.there_append [raw] y hy
    · exact List.mem_singleton.mp hy ▸ hthere
  ordered := by
    refine List.pairwise_append.mpr ⟨h.ordered, List.pairwise_singleton _ _, fun y hy z hz => ?_⟩
    rw [List.mem_singleton.mp hz, Stretch.Before, hfirst]
    exact h.bounded y hy
  bounded y hy := by
    rcases List.mem_append.mp hy with hy | hy
    · have hle := (h.bounded y hy).trans h.settled_le
      rw [List.length_append]
      omega
    · exact (List.mem_singleton.mp hy ▸ hcount).le
  silent i raw' hi hraw' hx := by
    -- Lines that were not settled before are in the new stretch.
    have hlt : i < settled := by
      by_contra hge
      exact hx x List.mem_concat_self ⟨by omega, by omega⟩
    exact h.silent_append [raw] i raw' hlt hraw' fun y hy => hx y (List.mem_append_left _ hy)
  block := by simp [ha]

/-- A line after which a block is open, to which it belongs. -/
theorem hold (h : Progress files gives source path raws settled stretches c) {a : Assembler} {b : Block.Open}
    (hsource : a.source = source) (hpath : a.path = path) (ha : a.block = some b)
    (hb : b.start.source = source ∧ b.start.path = path ∧ b.start.number = settled + 1)
    (hraw : b.raw = (raws ++ [raw]).drop settled) (hspeaks : ∃ raw', (raws ++ [raw])[settled]? = some raw' ∧ Speaks raw') :
    Progress files gives source path (raws ++ [raw]) settled stretches ⟨a, c.number + 1⟩ where
  ofSource := hsource
  ofPath := hpath
  number := by simp [h.number]
  known := h.known_append [raw]
  there := h.there_append [raw]
  ordered := h.ordered
  bounded := h.bounded
  silent := h.silent_append [raw]
  block := by
    have hle := h.settled_le
    simp only [ha, List.length_append, List.length_singleton]
    exact ⟨hb.1, hb.2.1, hb.2.2, by omega, hraw, hspeaks⟩

/-! ### Lines -/

/-- A line that the assembler takes. -/
theorem feed (h : Progress files gives source path raws settled stretches c)
    (hspeaks : c.assembler.block = none → Speaks raw) : ∃ settled' new,
      Progress files gives source path (raws ++ [raw]) settled' (stretches ++ new)
        ⟨(c.assembler.feed c.number raw).1, c.number + 1⟩ ∧
      new.flatMap Stretch.lines = (c.assembler.feed c.number raw).2.toList := by
  obtain ⟨⟨source', path', block⟩, number⟩ := c
  obtain rfl : source' = source := h.ofSource
  obtain rfl : path' = path := h.ofPath
  have hnumber : number = raws.length + 1 := h.number
  have hlast : (raws ++ [raw])[raws.length]? = some raw := List.getElem?_concat_length
  cases block with
  | none =>
    obtain rfl : settled = raws.length := h.settled_eq rfl
    -- A line on its own makes a logical line, with the value of a block or without.
    have hown : ∀ value, ∃ new : List Stretch,
        Progress files gives source' path' (raws ++ [raw]) (raws ++ [raw]).length (stretches ++ new)
          ⟨⟨source', path', none⟩, number + 1⟩ ∧
        new.flatMap Stretch.lines = [⟨source', path', number, trim raw, value⟩] := fun value => by
      have hstands : Stands source' path' (raws ++ [raw]) raws.length 1 ⟨source', path', number, trim raw, value⟩ :=
        ⟨rfl, rfl, hnumber, ⟨raw, hlast, hspeaks rfl⟩, Or.inl ⟨rfl, raw, hlast, rfl⟩⟩
      refine ⟨[⟨raws.length, 1, [⟨source', path', number, trim raw, value⟩]⟩], ?_, rfl⟩
      refine h.settle rfl rfl rfl rfl (by simp) (Or.inl ⟨_, rfl, hstands⟩) fun target hincludes => ?_
      obtain ⟨-, raw', hraw', hstatement, -⟩ := hincludes
      rw [hlast] at hraw'
      cases hraw'
      rw [(hspeaks rfl).2] at hstatement
      cases hstatement
    simp only [Assembler.feed]
    cases Block.opening? (trim raw) with
    | none =>
      obtain ⟨new, hnew, hlines⟩ := hown none
      exact ⟨_, new, hnew, hlines⟩
    | some o =>
      by_cases hcloses : Block.closes o.rest = true
      · obtain ⟨new, hnew, hlines⟩ := hown (some (Block.value o.word (trim (Block.dropFence o.rest))))
        simp only [hcloses, if_true]
        exact ⟨_, new, hnew, hlines⟩
      · simp only [hcloses, Bool.false_eq_true, if_false]
        refine ⟨raws.length, [], ?_, rfl⟩
        rw [List.append_nil]
        exact h.hold rfl rfl rfl ⟨rfl, rfl, hnumber⟩ (by rw [List.drop_left]) ⟨raw, hlast, hspeaks rfl⟩
  | some b =>
    obtain ⟨hsource, hpath, hstart, hlt, hraws, raw', hraw', hfirst⟩ := h.block
    have hdrop : b.raw ++ [raw] = (raws ++ [raw]).drop settled := by
      rw [hraws, List.drop_append_of_le_length hlt.le]
    have hspeaks' : ∃ raw', (raws ++ [raw])[settled]? = some raw' ∧ Speaks raw' :=
      ⟨raw', by rw [List.getElem?_append_left hlt, hraw'], hfirst⟩
    simp only [Assembler.feed]
    by_cases hcloses : Block.closes (trim raw) = true
    · simp only [hcloses, if_true]
      have htake : ((raws ++ [raw]).drop settled).take (raws.length + 1 - settled) = b.raw ++ [raw] := by
        rw [hdrop, List.take_of_length_le (by simp)]
      have hstands : Stands source' path' (raws ++ [raw]) settled (raws.length + 1 - settled) (b.close raw) :=
        ⟨hsource, hpath, hstart, hspeaks', Or.inr ⟨by omega, by simp; omega, rfl, by rw [htake]; rfl⟩⟩
      refine ⟨(raws ++ [raw]).length, [⟨settled, raws.length + 1 - settled, [b.close raw]⟩], ?_, rfl⟩
      refine h.settle rfl rfl rfl rfl (by simp; omega) (Or.inl ⟨_, rfl, hstands⟩) fun target hincludes => ?_
      have hone : raws.length + 1 - settled = 1 := hincludes.1
      omega
    · simp only [hcloses, Bool.false_eq_true, if_false]
      refine ⟨settled, [], ?_, rfl⟩
      rw [List.append_nil]
      exact h.hold rfl rfl rfl ⟨hsource, hpath, hstart⟩ hdrop hspeaks'

variable {σ : Type} {I : σ → Prop} {s s' : σ} {base : Text} {include? : Line → Text → Reading σ (List Line)} {c' : Cursor}

theorem readLine (h : Progress files gives source path raws settled stretches c)
    (hinclude : ∀ line target,
      Expands files gives I (include? line target) target (files.absolute (Path.ofText target)).toText)
    (hs : I s) (hread : Include.readLine files.homes (Path.ofText path).directory.toText include? c raw s =
      .ok (c', lines) s') : I s' ∧ ∃ settled' new,
        Progress files gives source path (raws ++ [raw]) settled' (stretches ++ new) c' ∧
        new.flatMap Stretch.lines = lines := by
  obtain ⟨rfl, ⟨hincludes, rfl, rfl⟩ | ⟨target, hincludes, htarget, hread⟩⟩ := readLine_eq_ok hread
  · refine ⟨hs, ?_⟩
    rw [Cursor.pass, if_neg hincludes, Cursor.take]
    by_cases hsilent : c.assembler.block = none ∧ isSilent (trim raw) = true
    · rw [if_pos hsilent]
      exact ⟨_, [], (stretches.append_nil).symm ▸ h.skip hsilent.1 hsilent.2, rfl⟩
    · rw [if_neg hsilent]
      exact h.feed fun hc => ⟨by simpa [hc] using hsilent, by simpa [Cursor.Includes, hc] using hincludes⟩
  · obtain ⟨hs', hexpansion⟩ := hinclude _ target s lines s' hs hread
    have hsettled := h.settled_eq hincludes.1
    have hlast : (raws ++ [raw])[raws.length]? = some raw := List.getElem?_concat_length
    have hhere : c.here raw = ⟨source, path, raws.length + 1, trim raw, none⟩ := by
      rw [Cursor.here, h.ofSource, h.ofPath, h.number]
    rw [hhere] at htarget
    rw [Cursor.pass, if_pos hincludes]
    refine ⟨hs', (raws ++ [raw]).length, [⟨raws.length, 1, lines⟩], ?_, List.append_nil _⟩
    refine h.settle h.ofSource h.ofPath hincludes.1 hsettled.symm (by simp)
      (Or.inr ⟨target, rfl, raw, hlast, hincludes.2, htarget⟩) fun target' hthere => ?_
    -- An include line has one target.
    obtain ⟨-, raw', hraw', -, htarget'⟩ := hthere
    rw [hlast] at hraw'
    cases hraw'
    rw [htarget] at htarget'
    cases htarget'
    exact hexpansion

theorem readLines (h : Progress files gives source path raws settled stretches c)
    (hinclude : ∀ line target,
      Expands files gives I (include? line target) target (files.absolute (Path.ofText target)).toText)
    (hs : I s) (hread : Include.readLines files.homes (Path.ofText path).directory.toText include? c more s =
      .ok (c', lines) s') : I s' ∧ ∃ settled' new,
        Progress files gives source path (raws ++ more) settled' (stretches ++ new) c' ∧
        new.flatMap Stretch.lines = lines := by
  induction more generalizing raws settled stretches c lines s with
  | nil =>
    cases hread
    exact ⟨hs, settled, [], by simpa using h, rfl⟩
  | cons raw more ih =>
    obtain ⟨⟨c₁, first⟩, s₁, hfirst, hread⟩ := bind_eq_ok hread
    obtain ⟨⟨c₂, rest⟩, s₂, hrest, hread⟩ := bind_eq_ok hread
    cases hread
    obtain ⟨hs₁, settled₁, new, h₁, rfl⟩ := h.readLine hinclude hs hfirst
    obtain ⟨hs₂, settled₂, new', h₂, rfl⟩ := ih h₁ hs₁ hrest
    refine ⟨hs₂, settled₂, new ++ new', ?_, List.flatMap_append⟩
    simpa [List.append_assoc] using h₂

end Progress

end Include

/-! ### Files -/

namespace World

open Include

/-- The lines of the file at a place after its first `seen` octets, read in rounds: those that are there, and then those
    that have been added meanwhile. Between the rounds no file changes but the one that is written to. -/
inductive Gathers (w : World) (place : Place) : (seen : Nat) → List Text → Prop
  | done {v : World} {content : List UInt8} {mode seen : Nat} (hv : w.WritesOnly v)
      (hnode : v.files.tree.node? place = some (.file content mode)) (hle : content.length ≤ seen) :
      Gathers w place seen []
  | more {v : World} {content : List UInt8} {mode seen : Nat} {raws more : List Text} (hv : w.WritesOnly v)
      (hnode : v.files.tree.node? place = some (.file content mode)) (hraws : rawLines (content.drop seen) = (raws, none))
      (hmore : Gathers w place content.length more) : Gathers w place seen (raws ++ more)

/-- The lines of the file with an absolute path are these: all the lines of a file that is there, unless it is the one
    that is written to, which is read in rounds. -/
def Gives (w : World) (path : Text) (raws : List Text) : Prop :=
  w.files.Opens path ∧ ∃ content mode, w.files.tree.node? (Path.ofText path).names = some (.file content mode) ∧
    w.Gathers (Path.ofText path).names 0 raws ∧
    (w.writesTo ≠ some (Path.ofText path).names → rawLines content = (raws, none))

theorem Gathers.eq_of_unwritten {seen mode : Nat} {content : List UInt8} (h : w.Gathers place seen raws)
    (hplace : w.writesTo ≠ some place) (hnode : w.files.tree.node? place = some (.file content mode)) :
    rawLines (content.drop seen) = (raws, none) := by
  induction h with
  | done hv hnode' hle =>
    rw [hv.node place hplace, hnode] at hnode'
    cases hnode'
    rw [List.drop_eq_nil_of_le hle]
    rfl
  | more hv hnode' hraws _ ih =>
    rw [hv.node place hplace, hnode] at hnode'
    cases hnode'
    -- Nothing has been added.
    have hend : rawLines (content.drop content.length) = ([], none) := by
      rw [List.drop_length]
      rfl
    rw [hend] at ih
    cases ih
    rw [hraws, List.append_nil]

theorem WritesOnly.stat_file {mode : Nat} {content : List UInt8} (hv : w.WritesOnly v)
    (hstat : w.files.stat p = .ok (place, .file content mode)) : ∃ content' mode',
      v.files.content p = content' ∧ v.files.tree.node? place = some (.file content' mode') := by
  obtain ⟨content', mode', hstat'⟩ : ∃ content' mode', v.files.stat p = .ok (place, .file content' mode') := by
    rcases hv.files.stat_cases p with heq | ⟨place', _, _, content', mode', hstat', hstat''⟩
    · exact ⟨content, mode, heq.trans hstat⟩
    · obtain rfl : place' = place := (Prod.mk.inj (Except.ok.inj (hstat'.symm.trans hstat))).1
      exact ⟨content', mode', hstat''⟩
  refine ⟨content', mode', ?_, (Files.stat_eq_ok hstat').2⟩
  rw [Files.content, hstat']

end World

namespace Recipe

open Include

/-- A file is read in rounds, up to its end, where no block is open. -/
theorem readOn_progress {gives : Text → List Text → Prop} {settled mode rounds seen : Nat} {stretches : List Include.Stretch}
    {c : Cursor} {content : List UInt8} {include? : Line → Text → Reading World (List Line)}
    (h : Progress w.files gives source path raws settled stretches c)
    (hinclude : ∀ line target, Expands w.files gives w.WritesOnly (include? line target) target
      (w.files.absolute (Path.ofText target)).toText)
    (hstat : w.files.stat p = .ok (place, .file content mode)) (hv : w.WritesOnly v)
    (hread : readOn view p (Include.readLines w.files.homes (Path.ofText path).directory.toText include?) rounds seen c v =
      .ok lines v') : w.WritesOnly v' ∧ ∃ more settled' new c', w.Gathers place seen more ∧
        Progress w.files gives source path (raws ++ more) settled' (stretches ++ new) c' ∧
        c'.assembler.block = none ∧ new.flatMap Include.Stretch.lines = lines := by
  induction rounds using Nat.strongRecOn generalizing raws settled stretches c lines v seen with
  | ind rounds ih =>
    obtain ⟨content', mode', hcontent, hnode⟩ := hv.stat_file hstat
    rcases readOn_eq_ok hread with ⟨hle, hfinish⟩ | ⟨rounds', c', first, more, v₁, hrounds, -, hflaw, htake, hmore, rfl⟩
    · obtain ⟨hclosed, rfl, rfl⟩ := finish_eq_ok_iff.mp hfinish
      exact ⟨hv, [], settled, [], c, .done hv hnode (hcontent ▸ hle), by simpa using h, hclosed, rfl⟩
    · obtain ⟨hv₁, settled₁, new, h₁, rfl⟩ := h.readLines hinclude hv htake
      obtain ⟨hv', raws', settled', new', c'', hgathers, h', hclosed, rfl⟩ :=
        ih rounds' (hrounds ▸ Nat.lt_succ_self rounds') h₁ hv₁ hmore
      have hraws : rawLines (content'.drop seen) = ((rawLines (content'.drop seen)).1, none) :=
        Prod.ext rfl (hcontent ▸ hflaw)
      refine ⟨hv', _, settled', new ++ new', c'', .more hv hnode hraws (hcontent ▸ hgathers), ?_, hclosed,
        List.flatMap_append⟩
      have hfiles : view.files v = v.files := rfl
      rw [hfiles, hcontent] at h'
      simpa [List.append_assoc] using h'

/-- What a file reads to, whatever is being read already. -/
theorem expand_expansion (h : w.files.Linkless) (hp : p.Proper) (fuel : Nat) (stack : List Text)
    (includedAt : Option Line) (source : Text) : Expands w.files w.Gives w.WritesOnly
      (expand view fuel stack includedAt source p) source (w.files.absolute p).toText := by
  induction fuel generalizing stack includedAt source p with
  | zero =>
    intro v lines v' _ hread
    cases hread
  | succ fuel ih =>
    intro v lines v' hv hread
    obtain ⟨hfile, -, -, hread⟩ := expand_succ_eq_ok hread
    have hfiles : view.files v = v.files := rfl
    rw [hfiles, hv.files.isFile_eq] at hfile
    rw [hfiles, takeWith_like hv.files, hv.files.absolute_eq] at hread
    obtain ⟨place, content, mode, hstat⟩ := Files.isFile_eq_ok_true hfile
    have hname : Path.ofText (w.files.absolute p).toText = w.files.absolute p := h.ofText_absolute hp
    obtain ⟨rfl, hnode⟩ := h.stat_place hp hstat
    have hopened : w.WritesOnly (view.opened (w.files.absolute p).toText v) := hv.trans (World.writesOnly_debug _ _)
    rw [takeWith, ← congrArg (fun q : Path => q.directory.toText) hname] at hread
    obtain ⟨hv', raws, settled, stretches, c, hgathers, hprogress, hclosed, rfl⟩ :=
      readOn_progress (.start source _) (fun line target => ih (Path.proper_ofText target) _ _ _) hstat hopened hread
    have hgives : w.Gives (w.files.absolute p).toText raws := by
      refine ⟨⟨p, hp, hfile, rfl⟩, content, mode, ?_⟩
      rw [hname]
      exact ⟨hnode, hgathers, fun hplace => hgathers.eq_of_unwritten hplace hnode⟩
    refine ⟨hv', .intro hgives hprogress.known hprogress.there hprogress.ordered fun i raw hraw => ?_⟩
    exact hprogress.silent i raw (hprogress.settled_eq hclosed ▸ (List.getElem?_eq_some_iff.mp hraw).1) hraw

/-- No line is lost, repeated or taken for one of another file. What a file reads to comes from stretches of its lines,
    each after the one before: of one line or of the lines of a block, or of an include line, for which what its target
    reads to stands, read in the same way; and a line in no stretch is blank or a comment. So each logical line names a
    file that is there, and the line of it where its text begins. -/
theorem read_attribution (h : w.files.Linkless) (hp : p.Proper) (hread : readLines source p w = .ok lines w') :
    ∃ q, w.files.homes.expand? p = some q ∧ Expansion w.files w.Gives source (w.files.absolute q).toText lines ∧
      ∀ line ∈ lines, ∃ raws first count, w.Gives line.path raws ∧
        Stands line.source line.path raws first count line := by
  obtain ⟨q, v, hexpand, hlines⟩ := bind_eq_ok hread
  obtain ⟨hq, rfl⟩ := Action.expandHome_eq_ok hexpand
  have hexpansion := (expand_expansion h (hp.expand hq) (depth v.files) [] none source v lines w' (.refl v) hlines).2
  exact ⟨q, hq, hexpansion, hexpansion.stands⟩

/-- A world with a file that includes another one from between a comment and a block, which looks as if it included one
    as well. -/
def nested : World :=
  Rehearsal.world "/" [] [("/a", Utf8.encode "# a\nx = 1\ninclude d/b\ny = \"\"\"\n\ninclude c\n\"\"\"\n"),
    ("/d/b", Utf8.encode "\n  z = 2\n")]

/-- What that file reads to. -/
def nestedLines : List Line :=
  [⟨"a", "/a", 2, "x = 1", none⟩, ⟨"/d/b", "/d/b", 2, "z = 2", none⟩,
    ⟨"a", "/a", 4, "y = \"\"\"\n\ninclude c\n\"\"\"", some "include c"⟩]

theorem read_attribution_nested : nested.files.Linkless ∧ (∃ w', readLines "a" ⟨.relative, ["a"]⟩ nested =
    .ok nestedLines w') ∧ Expansion nested.files nested.Gives "a" "/a" nestedLines ∧
      ∀ line ∈ nestedLines, ∃ raws first count, nested.Gives line.path raws ∧
        Stands line.source line.path raws first count line := by
  have hlinkless : nested.files.Linkless := by
    refine ⟨Tree.linkless_of_entries ?_, by decide +kernel, by decide +kernel⟩
    decide +kernel
  have hcheck : passes (fun lines _ => decide (lines = nestedLines)) (readLines "a" ⟨.relative, ["a"]⟩ nested) = true := by
    decide +kernel
  obtain ⟨lines, w', hread, hlines⟩ := eq_ok_of_passes hcheck
  cases of_decide_eq_true hlines
  obtain ⟨q, hq, hexpansion, hstands⟩ := read_attribution hlinkless (by decide +kernel) hread
  cases hq
  have hpath : (nested.files.absolute ⟨.relative, ["a"]⟩).toText = "/a".toList := by decide +kernel
  exact ⟨hlinkless, ⟨w', hread⟩, hpath ▸ hexpansion, hstands⟩

end Recipe

end Runbook
