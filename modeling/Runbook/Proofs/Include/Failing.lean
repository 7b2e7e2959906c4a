import Runbook.Proofs.Include.Cursor
import Runbook.Proofs.Include.Openings

/-! # Where a reading fails

A reading that does not find fault with the recipes fails at something it asks for (`Include.Fails`): at a path that
cannot be looked up, be it the first one or one that an include line means of a file that has been opened; at an include
line that names a home that may not be asked for; because files include one another more deeply than the bound allows; or
because a file is still added to after it has been read on often enough. Main statement: `Include.expand_fails`, for any
bound. -/

namespace Runbook

open Effect Text

/-- The file of an opening holds an include line, in a state. -/
def Opening.Holds (files : Files) (o : Opening) (line : Line) : Prop :=
  line.path = o.path ∧ ∃ seen, ∃ raw ∈ (Include.rawLines ((files.content o.through).drop seen)).1,
    Include.isStatement (trim raw) = true ∧ line.text = trim raw

/-- The path that an include line of the file of an opening means. -/
def Opening.Means (files : Files) (o : Opening) (line : Line) (q : Path) : Prop :=
  ∃ t, Include.target files.homes (files.absolute o.through).directory.toText line = .ok t ∧ q = Path.ofText t

namespace Include

variable {σ : Type} {view : View σ} {s s' : σ} {p q : Path} {source : Text} {e : Fault}

/-! ### Lines -/

/-- A home that may not be asked for is the only thing an include line has wrong that is no error in its recipe. -/
theorem target_eq_error {homes : Homes} {base : Text} {line : Line} (h : target homes base line = .error e) :
    (∃ cause, e = .load cause) ∨ e = .nullCharacter ∧
      ∃ word, Words.split (trim (line.text.drop keyword.length)) = .ok [word] ∧ homes.refuses word = true := by
  unfold target at h
  split at h
  · cases h
    exact Or.inl ⟨_, rfl⟩
  · split at h
    · cases h
      exact Or.inl ⟨_, rfl⟩
    · split at h
      · cases h
        exact Or.inr ⟨rfl, _, ‹_›, ‹_›⟩
      · cases h
  · cases h
    exact Or.inl ⟨_, rfl⟩

section
variable {homes : Homes} {base : Text} {include? : Line → Text → Reading σ (List Line)} {c : Cursor} {rounds seen : Nat}
  {R : σ → σ → Prop} [Frame R]

/-- Reading lines fails at an include line: with what is wrong with its target, or with what including it fails with. -/
theorem readLines_stops (hinclude : ∀ line t, Leads R (include? line t)) {raws : List Text}
    (h : readLines homes base include? c raws s = .error e s') :
    ∃ raw ∈ raws, ∃ line s₁, isStatement (trim raw) = true ∧ line.path = c.assembler.path ∧ line.text = trim raw ∧
      R s s₁ ∧ (target homes base line = .error e ∨
        ∃ t, target homes base line = .ok t ∧ include? line t s₁ = .error e s') := by
  obtain ⟨before, raw, after, lines, s₁, rfl, hbefore, hraw⟩ := readLines_eq_error h
  obtain ⟨hincludes, hstops⟩ := readLine_eq_error hraw
  exact ⟨raw, List.mem_append_right _ List.mem_cons_self, _, s₁, hincludes.2, (c.passAll_file before).2, rfl,
    (leads_readLines hinclude c before).ok hbefore, hstops⟩

theorem finish_eq_error (h : (c.finish : Reading σ (List Line)) s = .error e s') :
    ∃ start, e = .load (.openBlock start) := by
  unfold Cursor.finish at h
  cases hfinish : c.assembler.finish.2 with
  | none =>
    rw [hfinish] at h
    cases h
  | some start =>
    rw [hfinish] at h
    cases h
    exact ⟨start, rfl⟩

/-- Reading a file fails with an error in the recipe, because the file is still added to, or at an include line of what
    the file holds in a state. When the last round begins, what has been seen is what the file held in an earlier
    state. -/
theorem readOn_stops {s₀ : σ} (hinclude : ∀ line t, Leads R (include? line t)) (hs : R s₀ s)
    (hseen : rounds = 0 → ∃ s₁, R s₀ s₁ ∧ R s₁ s ∧ seen = ((view.files s₁).content p).length)
    (h : readOn view p (readLines homes base include?) rounds seen c s = .error e s') :
    (∃ cause, e = .load cause) ∨
    (e = .endless c.assembler.path ∧ ∃ s₁ s₂, R s₀ s₁ ∧ R s₁ s₂ ∧
      (view.files s₂).content p ≠ (view.files s₁).content p) ∨
    ∃ s₁ seen', R s₀ s₁ ∧ ∃ raw ∈ (rawLines (((view.files s₁).content p).drop seen')).1, ∃ line s₂,
      isStatement (trim raw) = true ∧ line.path = c.assembler.path ∧ line.text = trim raw ∧ R s₀ s₂ ∧
      (target homes base line = .error e ∨
        ∃ t, target homes base line = .ok t ∧ include? line t s₂ = .error e s') := by
  -- The lines that are there stop the reading, or it goes on after them, if they are well-formed.
  have hlines : ∀ {e : Fault} {s' : σ}, readLines homes base include? c
      (rawLines (((view.files s).content p).drop seen)).1 s = .error e s' →
      ∃ s₁ seen', R s₀ s₁ ∧ ∃ raw ∈ (rawLines (((view.files s₁).content p).drop seen')).1, ∃ line s₂,
        isStatement (trim raw) = true ∧ line.path = c.assembler.path ∧ line.text = trim raw ∧ R s₀ s₂ ∧
        (target homes base line = .error e ∨
          ∃ t, target homes base line = .ok t ∧ include? line t s₂ = .error e s') := fun h => by
    obtain ⟨raw, hraw, line, s₂, hstatement, hpath, htext, hR, hstops⟩ := readLines_stops hinclude h
    exact ⟨s, seen, hs, raw, hraw, line, s₂, hstatement, hpath, htext, Frame.trans hs hR, hstops⟩
  induction rounds generalizing seen c s with
  | zero =>
    rw [readOn_apply] at h
    split at h
    · obtain ⟨start, rfl⟩ := finish_eq_error h
      exact Or.inl ⟨_, rfl⟩
    · rename_i hmore
      rcases bind_eq_error h with h | ⟨⟨c', lines⟩, s₁, hread, h⟩
      · exact Or.inr (Or.inr (hlines h))
      · cases hflaw : (rawLines (((view.files s).content p).drop seen)).2 with
        | some flaw =>
          simp only [hflaw] at h
          cases h
          exact Or.inl ⟨_, rfl⟩
        | none =>
          simp only [hflaw] at h
          cases h
          have hcursor : c'.assembler.path = c.assembler.path := readLines_cursor hread ▸ (c.passAll_file _).2
          obtain ⟨s₁, hR, hR', rfl⟩ := hseen rfl
          refine Or.inr (Or.inl ⟨by rw [hcursor], s₁, s, hR, hR', fun heq => hmore ?_⟩)
          rw [heq]
  | succ rounds ih =>
    rw [readOn_apply] at h
    split at h
    · obtain ⟨start, rfl⟩ := finish_eq_error h
      exact Or.inl ⟨_, rfl⟩
    · rcases bind_eq_error h with h | ⟨⟨c', lines⟩, s₁, hread, h⟩
      · exact Or.inr (Or.inr (hlines h))
      · cases hflaw : (rawLines (((view.files s).content p).drop seen)).2 with
        | some flaw =>
          simp only [hflaw] at h
          cases h
          exact Or.inl ⟨_, rfl⟩
        | none =>
          simp only [hflaw] at h
          have hlead := (leads_readLines hinclude c _).ok hread
          have hs₁ := Frame.trans hs hlead
          have hcursor : c'.assembler.path = c.assembler.path := readLines_cursor hread ▸ (c.passAll_file _).2
          rcases bind_eq_error h with h | ⟨more, s₂, -, h⟩
          · have hrest := ih hs₁ (fun _ => ⟨s, hs, hlead, rfl⟩) h fun hstop => by
              obtain ⟨raw, hraw, line, s₂, hstatement, hpath, htext, hR, hstops⟩ := readLines_stops hinclude hstop
              exact ⟨s₁, _, hs₁, raw, hraw, line, s₂, hstatement, hpath, htext, Frame.trans hs₁ hR, hstops⟩
            rwa [hcursor] at hrest
          · cases h

end

/-! ### Files -/

/-- A path that a reading asks for: the first one, or what an include line means of a file that has been opened. -/
def AsksFor (view : View σ) (R : σ → σ → Prop) (s : σ) (noted : List Opening) (p q : Path) : Prop :=
  q = p ∨ ∃ o ∈ noted, ∃ s₁ line, R s s₁ ∧ o.Holds (view.files s₁) line ∧ o.Means (view.files s₁) line q

/-- What a reading fails with that is no error in the recipes; `noted` are the files that it opens, and as many as `room`
    may be noted before the bound of the nesting is met. -/
inductive Fails (view : View σ) (R : σ → σ → Prop) (s : σ) (noted : List Opening) (room : Nat) (p : Path) : Fault → Prop
  /-- A path that is asked for cannot be looked up. -/
  | lookup {q : Path} {cause : FileError} (hasks : AsksFor view R s noted p q)
      (hfile : (view.files s).isFile q = .error cause) : Fails view R s noted room p (.file cause q.toText)
  /-- An include line names a home that may not be asked for. -/
  | home {o : Opening} {s₁ : σ} {line : Line} {word : Text} (ho : o ∈ noted) (hR : R s s₁)
      (hholds : o.Holds (view.files s₁) line) (hword : Words.split (trim (line.text.drop keyword.length)) = .ok [word])
      (hrefuses : (view.files s).homes.refuses word = true) : Fails view R s noted room p .nullCharacter
  /-- Files include one another as deeply as the bound allows. -/
  | deep {t : Text} (hmany : room ≤ noted.length) : Fails view R s noted room p (.includesTooDeep t)
  /-- A file changes while it is read. -/
  | endless {o : Opening} {s₁ s₂ : σ} (ho : o ∈ noted) (hR : R s s₁) (hR' : R s₁ s₂)
      (hchanges : (view.files s₂).content o.through ≠ (view.files s₁).content o.through) :
      Fails view R s noted room p (.endless o.path)

/-- The files that are opened when the file a path leads to is read under a bound, one after the other. -/
def openingsWithin (view : View σ) (fuel : Nat) (source : Text) (p : Path) (s : σ) : List Opening :=
  (final (expandNoting view fuel [] none source p (s, []))).2

/-- Between the states, files may have been opened. -/
structure NotesMore (R : σ → σ → Prop) (s s' : σ × List Opening) : Prop where
  related : R s.1 s'.1
  noted : s.2 <+: s'.2

instance (R : σ → σ → Prop) [Frame R] : Frame (NotesMore R) where
  refl s := ⟨Frame.refl s.1, List.prefix_rfl⟩
  trans h h' := ⟨Frame.trans h.related h'.related, h.noted.trans h'.noted⟩

section
variable {fuel room room' : Nat} {stack : List Text} {includedAt : Option Line} {n n' : σ × List Opening}
  {noted : List Opening} {R : σ → σ → Prop} [Frame R]

/-- What a reading fails with that is part of another one is what that one fails with, if it asks for the path. -/
theorem Fails.nested {s₁ : σ} (h : Fails view R s₁ noted room' q e) (hR : R s s₁)
    (hlike : (view.files s).Like (view.files s₁)) (hasks : AsksFor view R s noted p q) (hroom : room ≤ room') :
    Fails view R s noted room p e := by
  cases h with
  | @lookup q' cause hasks' hfile =>
    refine .lookup ?_ (hlike.isFile_eq _ ▸ hfile)
    rcases hasks' with rfl | ⟨o, ho, s₂, line, hR', hmeans⟩
    · exact hasks
    · exact Or.inr ⟨o, ho, s₂, line, Frame.trans hR hR', hmeans⟩
  | home ho hR' hholds hword hrefuses => exact .home ho (Frame.trans hR hR') hholds hword (hlike.homes ▸ hrefuses)
  | deep hmany => exact .deep (hroom.trans hmany)
  | endless ho hR₁ hR₂ hchanges => exact .endless ho (Frame.trans hR hR₁) hR₂ hchanges

variable (hopened : ∀ path s, R s (view.opened path s))
include hopened

theorem notesMore_expandNoting (fuel : Nat) (stack : List Text) (includedAt : Option Line) (source : Text) (p : Path) :
    Leads (NotesMore R) (expandNoting view fuel stack includedAt source p) :=
  leads_noting (P := fun _ => True) (fun _ => trivial) (fun s _ _ _ => ⟨hopened _ s.1, List.prefix_append _ _⟩) fuel
    stack includedAt source trivial

variable (hlike : ∀ s s', R s s' → (view.files s).Like (view.files s'))
include hlike

theorem expandNoting_fails (h : expandNoting view fuel stack includedAt source p n = .error e n') :
    (∃ cause, e = .load cause) ∨ Fails view R n.1 n'.2 (n.2.length + fuel) p e := by
  induction fuel generalizing stack includedAt source p n with
  | zero =>
    cases h
    exact Or.inr (.deep le_rfl)
  | succ fuel ih =>
    rw [expandNoting_succ] at h
    cases hfile : (view.files n.1).isFile p with
    | error cause =>
      rw [hfile] at h
      cases h
      exact Or.inr (.lookup (Or.inl rfl) hfile)
    | ok there =>
      cases there with
      | false =>
        rw [hfile] at h
        cases h
        exact Or.inl ⟨_, rfl⟩
      | true =>
        rw [hfile] at h
        dsimp only at h
        split at h
        · cases h
          exact Or.inl ⟨_, rfl⟩
        · split at h
          · cases h
            exact Or.inl ⟨_, rfl⟩
          · -- The file is on record when its first line is read, and so it is at the end.
            let path := ((view.files n.1).absolute p).toText
            let opened : σ × List Opening := (view.opened path n.1, n.2 ++ [⟨p, path⟩])
            have hnested : ∀ line target, Leads (NotesMore R) (expandNoting view fuel (stack ++ [path]) (some line) target
                (Path.ofText target)) := fun line target => notesMore_expandNoting hopened _ _ _ _ _
            have hmore : NotesMore R opened n' :=
              (leads_readOn (fun c raws => leads_readLines hnested c raws) _ _ _ _ _).error h
            have ho : (⟨p, path⟩ : Opening) ∈ n'.2 := hmore.noted.subset (List.mem_append_right _ List.mem_cons_self)
            have hR : ∀ {n₁}, NotesMore R opened n₁ → R n.1 n₁.1 := fun h => Frame.trans (hopened _ n.1) h.related
            rcases readOn_stops hnested (Frame.refl opened) (by simp [maxRounds]) h with hload |
              ⟨rfl, n₁, n₂, hn₁, hn₂, hchanges⟩ |
              ⟨n₁, seen, hn₁, raw, hraw, line, n₂, hstatement, hpath, htext, hn₂, hstops⟩
            · exact Or.inl hload
            · exact Or.inr (.endless ho (hR hn₁) hn₂.related hchanges)
            · have hholds : Opening.Holds (view.files n₁.1) ⟨p, path⟩ line := ⟨hpath, seen, raw, hraw, hstatement, htext⟩
              rcases hstops with htarget | ⟨t, htarget, hfails⟩
              · refine (target_eq_error htarget).imp_right ?_
                rintro ⟨rfl, word, hword, hrefuses⟩
                exact .home ho (hR hn₁) hholds hword hrefuses
              · refine (ih hfails).imp_right fun h => h.nested (hR hn₂) (hlike _ _ (hR hn₂)) ?_ ?_
                · refine Or.inr ⟨_, ho, n₁.1, line, hR hn₁, hholds, t, ?_, rfl⟩
                  have hlike₁ := hlike _ _ (hR hn₁)
                  rw [hlike₁.homes, hlike₁.absolute_eq]
                  exact htarget
                · have hlength : n.2.length + 1 ≤ n₂.2.length := by
                    simpa [opened] using hn₂.noted.length_le
                  omega

/-- A reading that does not find fault with the recipes fails at something it asks for. -/
theorem expand_fails (h : outcome (expand view fuel [] none source p s) = .error e) :
    (∃ cause, e = .load cause) ∨ Fails view R s (openingsWithin view fuel source p s) fuel p e := by
  have hnoting := outcome_eq_error ((expandNoting_eq view fuel source p s).1.trans h)
  simpa [openingsWithin] using expandNoting_fails hopened hlike hnoting

theorem read_fails (h : outcome (read view [] source p s) = .error e) :
    (∃ cause, e = .load cause) ∨ Fails view R s (openings view source p s) (depth (view.files s)) p e :=
  expand_fails hopened hlike h

end

end Include

end Runbook
