import Runbook.CommandLine
import Runbook.Proofs.Include.Reading
import Runbook.Proofs.Include.Rereading

/-! # The lines of a file read and printed

Whatever a file includes, each logical line it reads to reads again (`expand_printable`). So the lines printed for them,
in which a comment names each file, read to the same texts and values from any file they are written to
(`read_printed`). -/

namespace Runbook.Include

open Text Effect

variable {σ : Type} {view : View σ} {homes : Homes} {base : Text} {include? : Line → Text → Reading σ (List Line)}
  {c c' : Cursor} {raw : Text} {raws : List Text} {lines : List Line} {line : Line} {s s' : σ} {source path : Text}
  {number : Int} {p : Path} {fuel rounds seen : Nat} {stack : List Text} {includedAt : Option Line}

/-! ### What is read -/

/-- A logical line that can be printed: it reads again, and its file can be named in a comment. -/
structure Printable (line : Line) : Prop where
  rereads : Rereads line
  path : '\n' ∉ line.path

/-- Where the reading of a file is, so that the lines it will make can be printed. -/
structure Cursor.Sound (c : Cursor) : Prop where
  path : '\n' ∉ c.assembler.path
  block : ∀ b, c.assembler.block = some b → Reopens b ∧ '\n' ∉ b.start.path

theorem feed_sound (hc : c.Sound) (hraw : IsLine raw) (hn : c.assembler.block = none →
    isSilent (trim raw) = false ∧ isStatement (trim raw) = false) :
    Cursor.Sound ⟨(c.assembler.feed number raw).1, c.number + 1⟩ ∧
      ∀ line ∈ (c.assembler.feed number raw).2, Printable line := by
  cases hb : c.assembler.block with
  | none =>
    obtain ⟨hsilent, hstatement⟩ := hn hb
    have hpath : (c.assembler.feed number raw).1.path = c.assembler.path ∧
        (∀ b, (c.assembler.feed number raw).1.block = some b → b.start.path = c.assembler.path) ∧
        ∀ line, (c.assembler.feed number raw).2 = some line → line.path = c.assembler.path := by
      simp only [Assembler.feed, hb]
      cases Block.opening? (trim raw) with
      | none => simp [hb]
      | some o =>
        by_cases hcloses : Block.closes o.rest = true
        · simp [hcloses, hb]
        · simp [hcloses]
    refine ⟨⟨hpath.1 ▸ hc.path, fun b h => ⟨reopens_open hb hsilent hstatement hraw h, ?_⟩⟩, fun line h => ?_⟩
    · exact hpath.2.1 b h ▸ hc.path
    · exact ⟨⟨_, readAs_trim hb hsilent hstatement hraw h⟩, hpath.2.2 line h ▸ hc.path⟩
  | some b =>
    obtain ⟨hreopens, hstart⟩ := hc.block b hb
    by_cases hcloses : Block.closes (trim raw) = true
    · simp only [Assembler.feed, hb, hcloses, if_true]
      refine ⟨⟨hc.path, fun _ h => by cases h⟩, fun line h => ?_⟩
      cases h
      exact ⟨⟨_, readAs_close hreopens hraw hcloses⟩, hstart⟩
    · simp only [Assembler.feed, hb, hcloses, if_false, Bool.false_eq_true]
      refine ⟨⟨hc.path, fun _ h => ?_⟩, fun line h => by cases h⟩
      cases h
      exact ⟨reopens_push hreopens hraw (by simpa using hcloses), hstart⟩

/-- A reading that changes nothing and makes lines that can be printed. -/
def Prints (act : Reading σ (List Line)) (s : σ) : Prop :=
  ∀ lines s', act s = .ok lines s' → s' = s ∧ ∀ line ∈ lines, Printable line

theorem readLine_sound (hinclude : ∀ line path, Prints (include? line path) s) (hc : c.Sound) (hraw : IsLine raw)
    (h : readLine homes base include? c raw s = .ok (c', lines) s') :
    s' = s ∧ c'.Sound ∧ ∀ line ∈ lines, Printable line := by
  by_cases hsilent : c.assembler.block = none ∧ isSilent (trim raw) = true
  · rw [readLine_silent hsilent.1 hsilent.2] at h
    cases h
    exact ⟨rfl, ⟨hc.path, hc.block⟩, by simp⟩
  by_cases hstatement : c.assembler.block = none ∧ isStatement (trim raw) = true
  · have hloud : isSilent (trim raw) = false := by simpa [hstatement.1] using hsilent
    simp only [readLine, hstatement.1, hstatement.2, hloud, Option.isNone_none, Bool.and_true, Bool.and_false,
      Bool.false_eq_true, if_false, if_true] at h
    cases ht : target homes base ⟨c.assembler.source, c.assembler.path, c.number, trim raw, none⟩ with
    | error e =>
      simp only [ht] at h
      cases h
    | ok path =>
      simp only [ht] at h
      obtain ⟨lines', s₁, hread, h⟩ := bind_eq_ok h
      cases h
      obtain ⟨rfl, hprint⟩ := hinclude _ _ _ _ hread
      exact ⟨rfl, ⟨hc.path, hc.block⟩, hprint⟩
  · have hn : c.assembler.block = none → isSilent (trim raw) = false ∧ isStatement (trim raw) = false := fun hb =>
      ⟨by simpa [hb] using hsilent, by simpa [hb] using hstatement⟩
    rw [readLine_feed hn] at h
    cases h
    obtain ⟨hsound, hprint⟩ := feed_sound hc hraw hn
    exact ⟨rfl, hsound, fun line hmem => hprint line (Option.mem_toList.mp hmem)⟩

theorem readLines_sound (hinclude : ∀ line path, Prints (include? line path) s) (hc : c.Sound)
    (hraws : ∀ raw ∈ raws, IsLine raw) (h : readLines homes base include? c raws s = .ok (c', lines) s') :
    s' = s ∧ c'.Sound ∧ ∀ line ∈ lines, Printable line := by
  induction raws generalizing c lines with
  | nil =>
    cases h
    exact ⟨rfl, hc, by simp⟩
  | cons raw raws ih =>
    obtain ⟨⟨c₁, first⟩, s₁, h₁, h⟩ := bind_eq_ok h
    obtain ⟨⟨c₂, more⟩, s₂, h₂, h⟩ := bind_eq_ok h
    obtain ⟨⟨rfl, rfl⟩, rfl⟩ : (c₂ = c' ∧ first ++ more = lines) ∧ s₂ = s' := by simpa using h
    obtain ⟨rfl, hc₁, hfirst⟩ := readLine_sound hinclude hc (hraws raw List.mem_cons_self) h₁
    obtain ⟨rfl, hc₂, hmore⟩ := ih hc₁ (fun raw hmem => hraws raw (List.mem_cons_of_mem _ hmem)) h₂
    refine ⟨rfl, hc₂, fun line hmem => ?_⟩
    exact (List.mem_append.mp hmem).elim (hfirst line) (hmore line)

theorem readOn_sound (hinclude : ∀ line path, Prints (include? line path) s) (hc : c.Sound) :
    Prints (readOn view p (readLines homes base include?) rounds seen c) s := by
  intro lines s' h
  induction rounds generalizing seen c lines with
  | zero =>
    rcases readOn_eq_ok h with ⟨-, hfinish⟩ | ⟨rounds', c', first, more, s₁, hrounds, -⟩
    · obtain ⟨-, rfl, rfl⟩ := finish_eq_ok_iff.mp hfinish
      exact ⟨rfl, by simp⟩
    · cases hrounds
  | succ rounds ih =>
    rcases readOn_eq_ok h with ⟨-, hfinish⟩ | ⟨rounds', c', first, more, s₁, hrounds, -, -, htake, hmore, rfl⟩
    · obtain ⟨-, rfl, rfl⟩ := finish_eq_ok_iff.mp hfinish
      exact ⟨rfl, by simp⟩
    · cases hrounds
      obtain ⟨rfl, hc', hfirst⟩ := readLines_sound hinclude hc (fun raw => isLine_of_mem_rawLines) htake
      obtain ⟨rfl, hrest⟩ := ih hc' _ hmore
      refine ⟨rfl, fun line hmem => ?_⟩
      exact (List.mem_append.mp hmem).elim (hfirst line) (hrest line)

/-- Every line a file reads to can be printed, if opening files changes nothing and no file has a line feed in its
    path. -/
theorem expand_printable (hopened : ∀ path, view.opened path s = s)
    (hpath : ∀ p, (view.files s).isFile p = .ok true → '\n' ∉ ((view.files s).absolute p).toText) :
    Prints (expand view fuel stack includedAt source p) s := by
  induction fuel generalizing stack includedAt source p with
  | zero =>
    intro lines s' h
    cases h
  | succ fuel ih =>
    intro lines s' h
    obtain ⟨hfile, -, -, h⟩ := expand_succ_eq_ok h
    rw [hopened] at h
    -- No block is open at the beginning of a file.
    refine readOn_sound (fun line path => ih) ⟨hpath p hfile, fun b hb => ?_⟩ lines s' h
    cases hb

/-! ### What is printed -/

/-- A comment in which a file is named. -/
def IsComment (text : Text) : Prop := ∃ rest, text = '#' :: rest

theorem dropEndWhile_cons {q : Char → Bool} {a : Char} (ha : q a = false) (t : Text) :
    ∃ rest, dropEndWhile q (a :: t) = a :: rest := by
  have hne : dropEndWhile q (a :: t) ≠ [] := by
    rw [dropEndWhile_eq_rdropWhile, ne_eq, List.rdropWhile_eq_nil_iff]
    intro h
    simp [h a List.mem_cons_self] at ha
  obtain ⟨first, rest, hcons⟩ := List.exists_cons_of_ne_nil hne
  have hpre : dropEndWhile q (a :: t) <+: a :: t := dropEndWhile_isPrefix q _
  rw [hcons, List.cons_prefix_cons] at hpre
  exact ⟨rest, hpre.1 ▸ hcons⟩

theorem IsComment.isSilent {text : Text} (h : IsComment text) : isSilent (trim (dropLineEnd text)) = true := by
  obtain ⟨rest, rfl⟩ := h
  obtain ⟨line, hline⟩ : ∃ line, dropLineEnd ('#' :: rest) = '#' :: line := dropEndWhile_cons rfl rest
  obtain ⟨text, htext⟩ : ∃ text, trimRight ('#' :: line) = '#' :: text := dropEndWhile_cons rfl line
  have hleft : trimLeft ('#' :: line) = '#' :: line := rfl
  rw [hline, trim, hleft, htext]
  rfl

theorem readLines_comments (h : ∀ raw ∈ raws, IsComment raw) (number : Int) (s : σ) :
    readLines homes base include? ⟨.ofFile source path, number⟩ (raws.map dropLineEnd) s =
      .ok (⟨.ofFile source path, number + raws.length⟩, []) s := by
  induction raws generalizing number with
  | nil => simp [readLines_nil]
  | cons raw raws ih =>
    rw [List.map_cons, readLines_cons (readLine_silent rfl (h raw List.mem_cons_self).isSilent s),
      bind_of_ok (ih (fun raw hmem => h raw (List.mem_cons_of_mem _ hmem)) (number + 1))]
    simp only [List.length_cons, List.nil_append, pure_apply]
    push_cast
    rw [Int.add_assoc, Int.add_comm 1]

/-- The comment before a line, if there is one. -/
theorem flatLines_cons (current : Option Text) (line : Line) (lines : List Line) :
    ∃ comments : List Text, (∀ text ∈ comments, IsComment text) ∧ (∀ text ∈ comments, text = "# ".toList ++ line.path) ∧
      CommandLine.flatLines current (line :: lines) =
        comments ++ line.text :: CommandLine.flatLines (some line.path) lines := by
  rw [CommandLine.flatLines]
  by_cases h : current = some line.path
  · exact ⟨[], by simp, by simp, by simp [h]⟩
  · refine ⟨["# ".toList ++ line.path], ?_, by simp, by simp [h]⟩
    rintro text (_ | ⟨_, hmem⟩)
    · exact ⟨' ' :: line.path, rfl⟩
    · cases hmem

/-- Printed lines read to the same texts and values. -/
theorem readLines_flatLines (h : ∀ line ∈ lines, Printable line) (current : Option Text) :
    ∃ raws, written raws = written (CommandLine.flatLines current lines) ∧ (∀ raw ∈ raws, '\n' ∉ raw) ∧
      ∀ (σ : Type) (homes : Homes) (base : Text) (include? : Line → Text → Reading σ (List Line))
        (source path : Text) (number : Int) (s : σ), ∃ lines',
          readLines homes base include? ⟨.ofFile source path, number⟩ (raws.map dropLineEnd) s =
            .ok (⟨.ofFile source path, number + raws.length⟩, lines') s ∧
          lines'.map Line.content = lines.map Line.content := by
  induction lines generalizing current with
  | nil => exact ⟨[], rfl, by simp, fun σ homes base include? source path number s => ⟨[], by simp [readLines_nil]⟩⟩
  | cons line lines ih =>
    obtain ⟨comments, hcomments, hpath, hflat⟩ := flatLines_cons current line lines
    -- The written lines are the comments, which are silent, those of the line itself, and those of the rest.
    obtain ⟨⟨raws₁, hread₁⟩, hline⟩ := h line List.mem_cons_self
    obtain ⟨raws₂, hwritten₂, hfeed₂, hread₂⟩ :=
      ih (fun line hmem => h line (List.mem_cons_of_mem _ hmem)) (some line.path)
    have hraws₁ : raws₁.map dropLineEnd = raws₁ :=
      (List.map_congr_left fun raw hmem => (hread₁.isLine raw hmem).dropLineEnd).trans (List.map_id _)
    refine ⟨comments ++ (raws₁ ++ raws₂), ?_, ?_, ?_⟩
    · rw [hflat, written_append, written_append, hwritten₂, ← joinWith_append_feed hread₁.nonempty, ← hread₁.text,
        written_append, written_cons]
      simp
    · intro raw hmem
      rcases List.mem_append.mp hmem with hmem | hmem
      · rw [hpath raw hmem]
        simpa using hline
      · exact (List.mem_append.mp hmem).elim (fun hmem => (hread₁.isLine raw hmem).noFeed) (hfeed₂ raw)
    · intro σ homes base include? source path number s
      obtain ⟨lines', hrest, hcontent⟩ :=
        hread₂ σ homes base include? source path (number + comments.length + raws₁.length) s
      refine ⟨⟨source, path, number + comments.length, line.text, line.value⟩ :: lines', ?_, ?_⟩
      · rw [List.map_append, List.map_append, hraws₁, readLines_append (readLines_comments hcomments number s),
          bind_of_ok ((readLines_append (hread₁.read σ homes base include? source path _ s)).trans (bind_of_ok hrest))]
        simp only [List.length_append, pure_apply]
        push_cast
        rw [Int.add_assoc, Int.add_assoc]
        rfl
      · rw [List.map_cons, List.map_cons, hcontent]
        rfl

end Runbook.Include
