import Runbook.Proofs.Include.Following
import Runbook.Proofs.Include.Layout
import Runbook.Proofs.Include.Still

/-! # Reading files whose layout is edited

Files with the same outlines read to logical lines with the same gists, or fail for the same cause (`expand_alike`). A file
either has the same content in states that belong together, as one that is written to meanwhile, or it does not change
while it is read and has the same outline (`View.Relaid`). -/

namespace Runbook

open Effect

/-- Faults that are the same, up to where in the files they are met. -/
inductive Fault.Akin : Fault → Fault → Prop
  | load {e e' : LoadError} (h : e.Akin e') : Akin (.load e) (.load e')
  | same {e : Fault} : Akin e e

/-- What is needed to compare readings of files whose layout is edited. States that belong together show the same places,
    and belong together after a file has been opened; where a path leads, the content is the same in each two of them, or
    it is always the same in those of the first kind and in those of the second kind, with the same outline. -/
structure View.Relaid {σ τ : Type} (view : View σ) (view' : View τ) (R : σ → τ → Prop) : Prop where
  like {s : σ} {t : τ} (h : R s t) : (view.files s).Like (view'.files t)
  opened {s : σ} {t : τ} (path : Text) (h : R s t) : R (view.opened path s) (view'.opened path t)
  content (p : Path) : (∀ s t, R s t → (view'.files t).content p = (view.files s).content p) ∨
    ∃ content content', Include.outline content = Include.outline content' ∧
      ∀ s t, R s t → (view.files s).content p = content ∧ (view'.files t).content p = content'

namespace Include

variable {σ τ : Type} {view : View σ} {view' : View τ} {R : σ → τ → Prop} {homes : Homes} {base : Text}
  {include? : Line → Text → Reading σ (List Line)} {include?' : Line → Text → Reading τ (List Line)} {k k' : Cursor}
  {line line' : Line} {act act' : Act} {acts acts' : List Act} {content content' : List UInt8} {p : Path}
  {raws raws' : List Text}

/-- Lines with the same gists. -/
def SameGists (lines lines' : List Line) : Prop := lines.map Line.gist = lines'.map Line.gist

theorem SameGists.append {first first' more more' : List Line} (h : SameGists first first') (h' : SameGists more more') :
    SameGists (first ++ more) (first' ++ more') := by
  rw [SameGists, List.map_append, List.map_append, h, h']

/-- Readings of lines that end alike. -/
abbrev ReadsAlike (R : σ → τ → Prop) (x : Reading σ (List Line)) (y : Reading τ (List Line)) : Prop :=
  RunsAlike Fault.Akin R SameGists x y

/-! ### Lines -/

theorem target_agree (h : line.text = line'.text) :
    Agree Fault.Akin Eq (target homes base line) (target homes base line') := by
  unfold target
  rw [h]
  split
  · exact .error (.load (.malformed .same))
  · split
    · exact .error (.load (.malformed .same))
    · split
      · exact .error .same
      · exact .ok rfl
  · exact .error (.load (.malformed .same))

section
variable (hinclude : ∀ line line' path, ReadsAlike R (include? line path) (include?' line' path))
include hinclude

theorem perform_alike (h : act.gist = act'.gist) :
    ReadsAlike R (act.perform homes base include?) (act'.perform homes base include?') := by
  cases act with
  | gives line =>
    cases act' with
    | gives line' => exact .pure (congrArg (fun gist => [gist]) (Sum.inl.inj h))
    | includes here' => cases h
  | includes here =>
    cases act' with
    | gives line' => cases h
    | includes here' =>
      have htarget : Agree Fault.Akin Eq (target homes base here) (target homes base here') :=
        target_agree (Sum.inr.inj h)
      unfold Act.perform
      dsimp only
      generalize target homes base here = x at htarget
      generalize target homes base here' = y at htarget
      cases htarget with
      | ok heq =>
        subst heq
        exact hinclude _ _ _
      | error he => exact .throw he

theorem performAll_alike (h : acts.map Act.gist = acts'.map Act.gist) :
    ReadsAlike R (performAll homes base include? acts) (performAll homes base include?' acts') := by
  induction acts generalizing acts' with
  | nil =>
    obtain rfl : acts' = [] := by simpa using h.symm
    exact .pure rfl
  | cons act acts ih =>
    obtain ⟨act', acts', rfl, hact, hacts⟩ := List.map_eq_cons_iff.mp h.symm
    refine (perform_alike hinclude hact.symm).bind fun first first' hfirst => ?_
    exact (ih hacts.symm).bind fun more more' hmore => .pure (hfirst.append hmore)

/-- Lines that come to the same acts. -/
theorem readLines_alike (h : (k.acts raws).map Act.gist = (k'.acts raws').map Act.gist) :
    RunsAlike Fault.Akin R (fun r r' => r.1 = k.passAll raws ∧ r'.1 = k'.passAll raws' ∧ SameGists r.2 r'.2)
      (readLines homes base include? k raws) (readLines homes base include?' k' raws') := by
  rw [readLines_eq_perform, readLines_eq_perform]
  exact (performAll_alike hinclude h).bind fun _ _ hlines => .pure ⟨rfl, rfl, hlines⟩

end

/-! ### Files -/

theorem finish_alike (h : k.assembler.block.isSome = k'.assembler.block.isSome) :
    ReadsAlike R k.finish k'.finish := by
  unfold Cursor.finish Assembler.finish
  cases hk : k.assembler.block with
  | none =>
    cases hk' : k'.assembler.block with
    | none => exact .pure rfl
    | some b' => simp [hk, hk'] at h
  | some b =>
    cases hk' : k'.assembler.block with
    | none => simp [hk, hk'] at h
    | some b' => exact .throw (.load .openBlock)

theorem passAll_path_eq (h : k.assembler.path = k'.assembler.path) (raws : List Text) :
    (k.passAll raws).assembler.path = (k'.passAll raws).assembler.path := by
  rw [(k.passAll_file raws).2, (k'.passAll_file raws).2, h]

section
variable (hinclude : ∀ line line' path, ReadsAlike R (include? line path) (include?' line' path))
include hinclude

/-- A file with the same content in states that belong together, which may be added to meanwhile. -/
theorem readOn_alike (hcontent : ∀ s t, R s t → (view'.files t).content p = (view.files s).content p)
    (h : InStep k.assembler k'.assembler) (hpath : k.assembler.path = k'.assembler.path) (rounds seen : Nat) :
    ReadsAlike R (readOn view p (readLines homes base include?) rounds seen k)
      (readOn view' p (readLines homes base include?') rounds seen k') := by
  induction rounds generalizing seen k k' with
  | zero =>
    intro s t hst
    rw [readOn_apply, readOn_apply, hcontent s t hst]
    generalize rawLines (((view.files s).content p).drop seen) = lines
    obtain ⟨hacts, -⟩ := Cursor.acts_eq h lines.1
    split
    · exact finish_alike h.isSome_eq s t hst
    · refine (readLines_alike hinclude hacts).bind (fun r r' hr => ?_) s t hst
      obtain ⟨hk, hk', -⟩ := hr
      cases lines.2 with
      | some flaw => exact .throw (.load .notUtf8)
      | none =>
        have hsame : r.1.assembler.path = r'.1.assembler.path := by rw [hk, hk', passAll_path_eq hpath]
        dsimp only
        rw [hsame]
        exact .throw .same
  | succ rounds ih =>
    intro s t hst
    rw [readOn_apply, readOn_apply, hcontent s t hst]
    generalize rawLines (((view.files s).content p).drop seen) = lines
    obtain ⟨hacts, hafter⟩ := Cursor.acts_eq h lines.1
    split
    · exact finish_alike h.isSome_eq s t hst
    · refine (readLines_alike hinclude hacts).bind (fun r r' hr => ?_) s t hst
      obtain ⟨hk, hk', hgists⟩ := hr
      cases lines.2 with
      | some flaw => exact .throw (.load .notUtf8)
      | none =>
        have hsame : r.1.assembler.path = r'.1.assembler.path := by rw [hk, hk', passAll_path_eq hpath]
        have hstep : InStep r.1.assembler r'.1.assembler := by rwa [hk, hk']
        exact (ih hstep hsame _).bind fun more more' hmore => .pure (hgists.append hmore)

/-- Files with the same outline that do not change meanwhile. -/
theorem readWhole_alike (h : k.outline content = k'.outline content') :
    ReadsAlike R (readWhole content (readLines homes base include?) k)
      (readWhole content' (readLines homes base include?') k') := by
  obtain ⟨hacts, hopen, htext⟩ := Outline.mk.inj h
  refine (readLines_alike hinclude hacts).bind fun r r' hr => ?_
  obtain ⟨hk, hk', hgists⟩ := hr
  cases hflaw : (rawLines content).2 with
  | some flaw =>
    cases hflaw' : (rawLines content').2 with
    | some flaw' => exact .throw (.load .notUtf8)
    | none => simp [hflaw, hflaw'] at htext
  | none =>
    cases hflaw' : (rawLines content').2 with
    | some flaw' => simp [hflaw, hflaw'] at htext
    | none => exact (finish_alike (by rwa [hk, hk'])).bind fun more more' hmore => .pure (hgists.append hmore)

theorem readOn_alike_of_outline (h : k.outline content = k'.outline content')
    (hcontent : ∀ s t, R s t → (view.files s).content p = content ∧ (view'.files t).content p = content') :
    ReadsAlike R (readOn view p (readLines homes base include?) maxRounds 0 k)
      (readOn view' p (readLines homes base include?') maxRounds 0 k') := by
  intro s t hst
  have hafter : R (final (readLines homes base include? k (rawLines content).1 s))
      (final (readLines homes base include?' k' (rawLines content').1 t)) :=
    (readLines_alike hinclude (Outline.mk.inj h).1 s t hst).final
  -- The states after the lines belong together as well, so neither file has changed meanwhile.
  rw [readOn_eq_readWhole (hcontent s t hst).1 fun r s' hread => ?_,
    readOn_eq_readWhole (hcontent s t hst).2 fun r t' hread => ?_]
  · exact readWhole_alike hinclude h s t hst
  · rw [hread] at hafter
    exact (hcontent _ _ hafter).2
  · rw [hread] at hafter
    exact (hcontent _ _ hafter).1

end

/-- A file with the same outline reads alike, whatever it is called and wherever it is included. -/
theorem expand_alike (h : view.Relaid view' R) (fuel : Nat) (stack : List Text) (includedAt includedAt' : Option Line)
    (source : Text) (p : Path) :
    ReadsAlike R (expand view fuel stack includedAt source p) (expand view' fuel stack includedAt' source p) := by
  induction fuel generalizing stack includedAt includedAt' source p with
  | zero => exact .throw .same
  | succ fuel ih =>
    intro s t hst
    have hlike := h.like hst
    rw [expand_succ, expand_succ, hlike.isFile_eq, hlike.absolute_eq, hlike.isDenied_eq, takeWith_like hlike]
    unfold takeWith
    generalize ((view.files s).absolute p).toText = path
    cases (view.files s).isFile p with
    | error e => exact .error .same hst
    | ok there =>
      cases there with
      | false => exact .error (.load .missingFile) hst
      | true =>
        dsimp only
        split
        · exact .error (.load .cycle) hst
        · split
          · exact .error (.load .unreadableFile) (h.opened path hst)
          · have hinclude : ∀ line line' target,
                ReadsAlike R (expand view fuel (stack ++ [path]) (some line) target (Path.ofText target))
                  (expand view' fuel (stack ++ [path]) (some line') target (Path.ofText target)) :=
              fun line line' target => ih _ _ _ target _
            have hstart : InStep (Cursor.mk (.ofFile source path) 1).assembler origin.assembler := .outside rfl rfl
            rcases h.content p with hcontent | ⟨content, content', houtline, hcontent⟩
            · exact readOn_alike hinclude hcontent (.outside rfl rfl) rfl maxRounds 0 _ _ (h.opened path hst)
            · refine readOn_alike_of_outline hinclude ?_ hcontent _ _ (h.opened path hst)
              rw [Cursor.outline_congr hstart, Cursor.outline_congr hstart]
              exact houtline

end Include

end Runbook
