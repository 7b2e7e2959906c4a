import Runbook.Proofs.Variables.Resolution

/-! # Replacing references all at once

The references in the text of a step are replaced one variable after the other, in the text that the earlier ones have
changed. When the values refer to no variable, nothing that is put in is replaced later, and no new reference comes to
be where two pieces meet; so every reference to a variable becomes its value and all else stays (`foldl_fill`), as if
it were done all at once.

Main statement: `substitute_simultaneous`. -/

namespace Runbook.Variables
open Template Declarations

variable {d d' : Declarations} {ps qs : Template} {n : Text}

/-- The text of a piece in which a reference to a known name is replaced by the value. -/
def Piece.replaced (values : Bindings) : Piece → Text
  | literal s => s
  | reference n => (values.get? n).getD (Variables.reference n)

/-- The pieces a piece becomes when the references to all declared names become their values. -/
def Piece.fillAll (d : Declarations) : Piece → Template
  | literal s => [literal s]
  | reference n => (d.lookup n).getD [reference n]

/-- The template in which the references to all declared names have become their values. -/
def Template.fillAll (d : Declarations) (ps : Template) : Template := ps.flatMap (Piece.fillAll d)

/-- Whether a template refers to no declared name. -/
def Template.Free (d : Declarations) (ps : Template) : Prop := ∀ n ∈ d.names, .reference n ∉ ps

/-- Whether no value refers to a declared name. -/
def Declarations.Resolved (d : Declarations) : Prop := ∀ p ∈ d, Template.Free d p.2

instance (d : Declarations) (ps : Template) : Decidable (ps.Free d) :=
  inferInstanceAs (Decidable (∀ n ∈ d.names, .reference n ∉ ps))

instance (d : Declarations) : Decidable d.Resolved :=
  inferInstanceAs (Decidable (∀ p ∈ d, Template.Free d p.2))

/-! ### All at once -/

theorem lookup_eq_none (h : n ∉ d.names) : d.lookup n = none :=
  Option.eq_none_iff_forall_ne_some.mpr fun _ hn => h (mem_names_of_lookup hn)

theorem render_fillAll : render (fillAll d ps) = ps.flatMap (Piece.replaced d.rendered) := by
  rw [fillAll, render, List.flatMap_assoc]
  refine List.flatMap_congr fun p _ => ?_
  cases p with
  | literal s => simp [Piece.fillAll, Piece.text, Piece.replaced]
  | reference n =>
    rw [Piece.fillAll, Piece.replaced, get?_rendered]
    cases d.lookup n <;> simp [Piece.text, render]

theorem fillAll_of_free (h : ps.Free d) : fillAll d ps = ps := by
  induction ps with
  | nil => rfl
  | cons p ps ih =>
    have ih := ih fun n hn hmem => h n hn (List.mem_cons_of_mem p hmem)
    rw [fillAll] at ih
    rw [fillAll, List.flatMap_cons, ih]
    cases p with
    | literal s => rfl
    | reference n =>
      have hn : n ∉ d.names := fun hn => h n hn List.mem_cons_self
      rw [Piece.fillAll, lookup_eq_none hn, Option.getD_none, List.singleton_append]

theorem mem_fillAll {p : Piece} (h : p ∈ fillAll d ps) :
    (p ∈ ps ∧ ∀ n ∈ d.names, p ≠ .reference n) ∨ ∃ q ∈ d, p ∈ q.2 := by
  obtain ⟨q, hq, hp⟩ := List.mem_flatMap.mp h
  cases q with
  | literal s =>
    obtain rfl := List.mem_singleton.mp hp
    exact .inl ⟨hq, by simp⟩
  | reference m =>
    rw [Piece.fillAll] at hp
    rcases hm : d.lookup m with _ | value
    · rw [hm] at hp
      obtain rfl := List.mem_singleton.mp hp
      refine .inl ⟨hq, fun n hn hmn => ?_⟩
      obtain ⟨value, hvalue⟩ := lookup_isSome_of_mem_names hn
      rw [← Piece.reference.inj hmn, hm] at hvalue
      cases hvalue
    · rw [hm] at hp
      exact .inr ⟨_, mem_of_lookup hm, hp⟩

theorem free_fillAll (h : d.Resolved) : (fillAll d ps).Free d := by
  intro n hn hmem
  rcases mem_fillAll hmem with ⟨-, hne⟩ | ⟨q, hq, hmem⟩
  · exact hne n hn rfl
  · exact h q hq n hn hmem

theorem wellFormed_fillAll (hd : d.WellFormed) (hps : ps.WellFormed) : (fillAll d ps).WellFormed := by
  intro p hp
  rcases mem_fillAll hp with ⟨hp, -⟩ | ⟨q, hq, hp⟩
  · exact hps p hp
  · exact hd q hq p hp

/-! ### One after the other -/

/-- Filling the references to one more name first changes nothing, since its value refers to none of the others. -/
theorem fillAll_fill {p : Text × Template} (h : p.2.Free d) : fillAll d (fill p.1 p.2 ps) = fillAll (p :: d) ps := by
  rw [fillAll, fillAll, fill, List.flatMap_assoc]
  refine List.flatMap_congr fun q _ => ?_
  cases q with
  | literal s => simp [Piece.fill, Piece.fillAll]
  | reference m =>
    rw [Piece.fill, Piece.fillAll, lookup_cons_eq]
    by_cases hm : m = p.1
    · have hvalue := fillAll_of_free h
      rw [fillAll] at hvalue
      simp [hm, hvalue]
    · simp [hm, Piece.fillAll]

theorem foldl_fill (h : d.Resolved) : d.foldl (fun ps p => fill p.1 p.2 ps) ps = fillAll d ps := by
  induction d generalizing ps with
  | nil => exact (fillAll_of_free (d := []) fun _ hn => by cases hn).symm
  | cons p d ih =>
    have hfree : ∀ q ∈ p :: d, q.2.Free d := fun q hq n hn => h q hq n (List.mem_cons_of_mem _ hn)
    rw [List.foldl_cons, ih fun q hq => hfree q (List.mem_cons_of_mem _ hq), fillAll_fill (hfree p List.mem_cons_self)]

theorem substitute_render (hd : d.WellFormed) (hplain : ∀ n ∈ d.names, Plain n) (hps : ps.WellFormed) :
    substitute ps.render d.rendered = render (d.foldl (fun ps p => fill p.1 p.2 ps) ps) := by
  induction d generalizing ps with
  | nil => rfl
  | cons p d ih =>
    obtain ⟨hp, hd⟩ := List.forall_mem_cons.mp hd
    obtain ⟨hn, hplain⟩ := List.forall_mem_cons.mp hplain
    rw [List.foldl_cons, ← ih hd hplain (hps.fill hp), ← replace_render hn hps]
    rfl

theorem substitute_eq_fillAll (hd : d.WellFormed) (hplain : ∀ n ∈ d.names, Plain n) (h : d.Resolved)
    (hps : ps.WellFormed) : substitute ps.render d.rendered = render (fillAll d ps) := by
  rw [substitute_render hd hplain hps, foldl_fill h]

/-! ### The order of the variables -/

/-- The variables in another order are the variables of other declarations with the same values. -/
theorem exists_rendered_of_perm {values : Bindings} (h : values.Perm d.rendered) :
    ∃ d' : Declarations, d'.Perm d ∧ values = d'.rendered := by
  have hcomp := congrFun₂ (List.eq_map_comp_perm fun p : Text × Template => (p.1, p.2.render)) values d
  obtain ⟨d', hvalues, hd'⟩ := hcomp.mpr h
  exact ⟨d', hd', hvalues⟩

theorem Declarations.Resolved.perm (h : d.Resolved) (hperm : d'.Perm d) : d'.Resolved := fun p hp n hn =>
  h p (hperm.mem_iff.mp hp) n ((hperm.map Prod.fst).mem_iff.mp hn)

/-- When the values refer to no variable, the references in a text are replaced by the values all at once, and all else
    stays. So the order of the variables does not matter, and doing it again changes nothing. -/
theorem substitute_simultaneous (hnodup : d.names.Nodup) (hvalid : ∀ n ∈ d.names, VariableName.isValid n = true)
    (hd : d.WellFormed) (hresolved : d.Resolved) (hps : ps.WellFormed) :
    substitute ps.render d.rendered = ps.flatMap (Piece.replaced d.rendered) ∧
      (∀ values : Bindings, values.Perm d.rendered →
        substitute ps.render values = substitute ps.render d.rendered) ∧
      substitute (substitute ps.render d.rendered) d.rendered = substitute ps.render d.rendered := by
  have hplain : ∀ n ∈ d.names, Plain n := fun n hn => plain_of_isValid (hvalid n hn)
  have hall := substitute_eq_fillAll hd hplain hresolved hps
  refine ⟨hall.trans render_fillAll, fun values hperm => ?_, ?_⟩
  · obtain ⟨d', hd', rfl⟩ := exists_rendered_of_perm hperm
    have hget : d'.rendered.get? = d.rendered.get? := by
      funext n
      exact Bindings.get?_perm hperm (by rwa [names_rendered])
    have hall' := substitute_eq_fillAll (d := d') (fun p hp => hd p (hd'.mem_iff.mp hp))
      (fun n hn => hplain n ((hd'.map Prod.fst).mem_iff.mp hn)) (hresolved.perm hd') hps
    have hreplaced : Piece.replaced d'.rendered = Piece.replaced d.rendered := by
      funext p
      cases p <;> simp [Piece.replaced, hget]
    rw [hall', hall, render_fillAll, render_fillAll, hreplaced]
  · rw [hall, substitute_eq_fillAll hd hplain hresolved (wellFormed_fillAll hd hps),
      fillAll_of_free (free_fillAll hresolved)]

/-- Two variables whose values hold the name of the other one between braces. -/
def braces : Declarations :=
  [(['a'], [.literal "\x7bb\x7d"]), (['b'], [.literal "\x7ba\x7d", .reference ['u']])]

/-- What comes to stand between a dollar sign and a brace is put in as it is, and so is a reference to no variable. -/
theorem substitute_simultaneous_braces :
    braces.names.Nodup ∧ (∀ n ∈ braces.names, VariableName.isValid n = true) ∧ braces.WellFormed ∧ braces.Resolved ∧
      Template.WellFormed [.literal "$(", .reference ['b'], .literal ")", .reference ['v'], .reference ['a']] ∧
      substitute "$($\x7bb\x7d)$\x7bv\x7d$\x7ba\x7d" [(['b'], "\x7ba\x7d$\x7bu\x7d"), (['a'], "\x7bb\x7d")] =
        "$(\x7ba\x7d$\x7bu\x7d)$\x7bv\x7d\x7bb\x7d" := by
  have hnodup : braces.names.Nodup := by decide
  have hvalid : ∀ n ∈ braces.names, VariableName.isValid n = true := by decide
  have hwell : braces.WellFormed := by decide
  have hresolved : braces.Resolved := by decide
  have htext : Template.WellFormed
      [.literal "$(", .reference ['b'], .literal ")", .reference ['v'], .reference ['a']] := by decide
  obtain ⟨hall, horder, -⟩ := substitute_simultaneous hnodup hvalid hwell hresolved htext
  exact ⟨hnodup, hvalid, hwell, hresolved, htext, (horder _ (.swap _ _ _)).trans hall⟩

end Runbook.Variables
