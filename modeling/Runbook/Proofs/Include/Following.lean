import Runbook.Proofs.Include.Cursor
import Runbook.Proofs.Include.Reading
import Runbook.Proofs.Path.Resolution

/-! # Readings that follow one another

Reading looks at a state through its view only, so readings of the same file through two views follow one another if the
views show the same, up to what is in files that are not opened (`expand_follows`). The stack, the line that includes
the file and the bound of the nesting are for faults: a reading that ends well ends in the same way with fewer files on
the stack, and with a larger bound. -/

namespace Runbook

/-- What is needed to compare readings through two views. States that belong together show the same, up to what is in
    files that are not `apart`, and they belong together after a file has been opened; a run that counts opens only
    files that are apart, and none under an absolute path that is `away`. -/
structure View.Comparable {σ τ : Type} (view : View σ) (view' : View τ) (c : Comparison Fault σ τ) (apart : Path → Prop)
    (away : List Text) : Prop where
  like {s : σ} {t : τ} (h : c.states s t) : (view.files s).Like (view'.files t)
  content {s : σ} {t : τ} {p : Path} (h : c.states s t) (hp : apart p) :
    (view'.files t).content p = (view.files s).content p
  opened {s : σ} {t : τ} (path : Text) (h : c.states s t) : c.states (view.opened path s) (view'.opened path t)
  ends {s : σ} {p : Path} (h : c.ends (view.opened ((view.files s).absolute p).toText s)) :
    c.ends s ∧ apart p ∧ ((view.files s).absolute p).toText ∉ away

theorem View.Comparable.of_files {σ τ : Type} {view : View σ} {view' : View τ} {c : Comparison Fault σ τ}
    {away : List Text} (hfiles : ∀ s t, c.states s t → view'.files t = view.files s)
    (hopened : ∀ path s t, c.states s t → c.states (view.opened path s) (view'.opened path t))
    (hends : ∀ path s, c.ends (view.opened path s) → c.ends s ∧ path ∉ away) :
    view.Comparable view' c (fun _ => True) away where
  like h := hfiles _ _ h ▸ .refl _
  content h _ := by rw [hfiles _ _ h]
  opened path h := hopened path _ _ h
  ends h := (hends _ _ h).imp_right fun haway => ⟨trivial, haway⟩

theorem View.Comparable.same {σ : Type} (view : View σ) (faults : Fault → Prop) :
    view.Comparable view (.same faults) (fun _ => True) [] := by
  refine .of_files ?_ ?_ fun _ _ _ => ⟨trivial, List.not_mem_nil⟩
  · rintro s _ rfl
    rfl
  · rintro path s _ rfl
    rfl

namespace Include

open Text Effect

variable {σ τ : Type} {view : View σ} {view' : View τ} {c : Comparison Fault σ τ} {homes : Homes} {base : Text}
  {include? : Line → Text → Reading σ (List Line)} {include?' : Line → Text → Reading τ (List Line)}
  {stack stack' : List Text} {includedAt includedAt' : Option Line} {fuel fuel' : Nat} {p : Path}

/-! ### Lines -/

theorem readLine_follows (hinclude : ∀ line target s, Follows c (include? line target) (include?' line target) s)
    (k : Cursor) (raw : Text) (s : σ) :
    Follows c (readLine homes base include? k raw) (readLine homes base include?' k raw) s := by
  have hx : readLine homes base include? k raw s = _ := readLine_eq k raw s
  have hy : ∀ t, readLine homes base include?' k raw t = _ := readLine_eq k raw
  by_cases h : k.Includes raw
  · cases ht : target homes base (k.here raw) with
    | error e =>
      simp only [h, ht, if_true] at hx hy
      exact (Follows.throw _ s).congr hx fun t _ => hy t
    | ok path =>
      simp only [h, ht, if_true] at hx hy
      exact ((hinclude _ path s).bind fun lines => Follows.pure _).congr hx fun t _ => hy t
  · simp only [h, if_false] at hx hy
    exact (Follows.pure _ s).congr hx fun t _ => hy t

theorem readLines_follows (hinclude : ∀ line target s, Follows c (include? line target) (include?' line target) s)
    (k : Cursor) (raws : List Text) (s : σ) :
    Follows c (readLines homes base include? k raws) (readLines homes base include?' k raws) s := by
  induction raws generalizing k s with
  | nil => exact Follows.pure _ s
  | cons raw raws ih =>
    refine (readLine_follows hinclude k raw s).bind fun r s₁ => ?_
    exact (ih r.1 s₁).bind fun r' => Follows.pure _

theorem finish_follows (k : Cursor) (s : σ) : Follows c k.finish k.finish s := by
  unfold Cursor.finish
  cases k.assembler.finish.2 with
  | none => exact Follows.pure _ s
  | some start => exact Follows.throw _ s

/-! ### Files -/

section
variable {take : Cursor → List Text → Reading σ (Cursor × List Line)}
  {take' : Cursor → List Text → Reading τ (Cursor × List Line)}

theorem readOn_follows (hcontent : ∀ s t, c.states s t → (view'.files t).content p = (view.files s).content p)
    (htake : ∀ k raws s, Follows c (take k raws) (take' k raws) s) (rounds seen : Nat) (k : Cursor) (s : σ) :
    Follows c (readOn view p take rounds seen k) (readOn view' p take' rounds seen k) s := by
  induction rounds generalizing seen k s with
  | zero =>
    have hy : ∀ t, c.states s t → _ := fun t ht =>
      (readOn_apply view' p take' 0 seen k t).trans (by rw [hcontent s t ht])
    by_cases hend : ((view.files s).content p).length ≤ seen
    · exact (finish_follows k s).congr ((readOn_apply ..).trans (if_pos hend)) fun t ht => (hy t ht).trans (if_pos hend)
    · refine Follows.congr ?_ ((readOn_apply ..).trans (if_neg hend)) fun t ht => (hy t ht).trans (if_neg hend)
      refine (htake k _ s).bind fun r s₁ => ?_
      cases (rawLines (((view.files s).content p).drop seen)).2 with
      | some flaw => exact Follows.throw _ s₁
      | none => exact Follows.throw _ s₁
  | succ rounds ih =>
    have hy : ∀ t, c.states s t → _ := fun t ht =>
      (readOn_apply view' p take' (rounds + 1) seen k t).trans (by rw [hcontent s t ht])
    by_cases hend : ((view.files s).content p).length ≤ seen
    · exact (finish_follows k s).congr ((readOn_apply ..).trans (if_pos hend)) fun t ht => (hy t ht).trans (if_pos hend)
    · refine Follows.congr ?_ ((readOn_apply ..).trans (if_neg hend)) fun t ht => (hy t ht).trans (if_neg hend)
      refine (htake k _ s).bind fun r s₁ => ?_
      cases (rawLines (((view.files s).content p).drop seen)).2 with
      | some flaw => exact Follows.throw _ s₁
      | none => exact (ih _ r.1 s₁).bind fun more => Follows.pure _

end

theorem takeWith_like {files files' : Files} (h : files.Like files') (view : View σ) (fuel : Nat) (stack : List Text)
    (p : Path) : takeWith view fuel stack files' p = takeWith view fuel stack files p := by
  rw [takeWith, takeWith, h.homes, h.absolute_eq]

/-- Expanding with larger bounds and fewer files on the stack follows expanding; the files that are away may be on the
    stack all the same. -/
theorem expand_follows {apart : Path → Prop} {away : List Text} (h : view.Comparable view' c apart away)
    (hstack : ∀ path ∈ stack', path ∈ stack ∨ path ∈ away)
    (hsame : stack' = stack ∧ includedAt' = includedAt ∨ ∀ e, ¬ c.faults e)
    (hfuel : fuel ≤ fuel') (hdeep : fuel' = fuel ∨ ∀ path, ¬ c.faults (.includesTooDeep path))
    (source : Text) (p : Path) (s : σ) :
    Follows c (expand view fuel stack includedAt source p) (expand view' fuel' stack' includedAt' source p) s := by
  induction fuel generalizing fuel' stack stack' includedAt includedAt' source p s with
  | zero =>
    rcases hdeep with rfl | hdeep
    · exact Follows.throw _ s
    · exact Follows.of_error rfl (hdeep source)
  | succ fuel ih =>
    obtain ⟨fuel', rfl⟩ : ∃ n, fuel' = n + 1 := ⟨fuel' - 1, by omega⟩
    have hx := expand_succ view fuel stack includedAt source p s
    have hy : ∀ t, c.states s t → _ := fun t ht =>
      (expand_succ view' fuel' stack' includedAt' source p t).trans (by
        have hlike := h.like ht
        rw [hlike.isFile_eq, hlike.absolute_eq, hlike.isDenied_eq, takeWith_like hlike])
    have hincluded : ∀ fault : Option Line → Fault, fault includedAt' = fault includedAt ∨ ∀ e, ¬ c.faults e :=
      fun fault => hsame.imp_left fun h => congrArg fault h.2
    cases hfile : (view.files s).isFile p with
    | error e =>
      simp only [hfile] at hx hy
      exact (Follows.throw _ s).congr hx hy
    | ok there =>
      cases there with
      | false =>
        simp only [hfile] at hx hy
        exact (Follows.throw_of (hincluded fun at? => .load (.missingFile source at?))).congr hx hy
      | true =>
        simp only [hfile] at hx hy
        have hends := h.ends (s := s) (p := p)
        generalize ((view.files s).absolute p).toText = path at hx hy hends
        by_cases hnested : path ∈ stack
        · simp only [hnested, if_true] at hx
          rcases hsame with ⟨rfl, rfl⟩ | hnone
          · exact (Follows.throw _ s).congr hx fun t ht => (hy t ht).trans (if_pos hnested)
          · exact Follows.of_error hx (hnone _)
        simp only [hnested, if_false] at hx
        have htake : ∀ k raws s', Follows c (takeWith view fuel stack (view.files s) p k raws)
            (takeWith view' fuel' stack' (view.files s) p k raws) s' := by
          intro k raws s'
          refine readLines_follows (fun line target s' => ?_) k raws s'
          refine ih ?_ (hsame.imp_left fun h => ⟨by rw [h.1], rfl⟩)
            (Nat.le_of_succ_le_succ hfuel) (hdeep.imp_left Nat.succ.inj) target _ s'
          intro path hmem
          rcases List.mem_append.mp hmem with hmem | hmem
          · exact (hstack path hmem).imp_left (List.mem_append_left _)
          · exact Or.inl (List.mem_append_right _ hmem)
        by_cases hopens : apart p ∧ path ∉ away
        · have hfresh : path ∉ stack' := fun hmem => (hstack path hmem).elim hnested hopens.2
          simp only [hfresh, if_false] at hy
          by_cases hdenied : (view.files s).isDenied p = true
          · simp only [hdenied, if_true] at hx hy
            exact (Follows.throw_of (hincluded fun at? => .load (.unreadableFile source at?))).after
              (fun hs => (hends hs).1) (fun _ => h.opened path) hx hy
          · simp only [hdenied, Bool.false_eq_true, if_false] at hx hy
            exact (readOn_follows (fun _ _ ht => h.content ht hopens.1) htake _ _ _ _).after (fun hs => (hends hs).1)
              (fun _ => h.opened path) hx hy
        · -- No run counts in which the file is opened, so that only its end is looked at.
          have hblind : ∀ k s', Follows c.blind
              (readOn view p (takeWith view fuel stack (view.files s) p) maxRounds 0 k)
              (readOn view' p (takeWith view' fuel' stack' (view.files s) p) maxRounds 0 k) s' :=
            readOn_follows (c := c.blind) (fun _ _ ht => ht.elim) (fun k raws s' => (htake k raws s').blind) maxRounds 0
          intro hcounts
          refine absurd (hends ?_).2 hopens
          rw [hx] at hcounts
          split at hcounts
          · exact hcounts.2
          · exact (hblind _ _ hcounts).1

end Include

end Runbook
