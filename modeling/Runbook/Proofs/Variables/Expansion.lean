import Runbook.Proofs.Bindings
import Runbook.Proofs.Variables.Template
import Mathlib.Logic.Relation

/-! # Expanding the references between variables

When the value of every variable is a template, the references between the values make a graph on the declared names.
The full expansion of a value (`Expands`) follows the references as far as they go. The one pass that pushes the current
value of each variable into all the others leaves references only to names that the value involved before, and to a
pushed name only if it is on a cycle (`Remains`). So it reaches the full expansion for every name from which no cycle of
the graph can be reached (`pass_expands`): a name that has been pushed is gone from the values of these names for good,
since what is pushed later refers to no name pushed before (`Reduced`). Neither the length of a chain of references nor
the order of the declarations matters. -/

namespace Runbook.Variables
open Template Relation

/-- The variables with their values seen as templates. -/
abbrev Declarations := List (Text × Template)

namespace Declarations

/-- The declared names, in order. -/
def names (d : Declarations) : List Text := d.map Prod.fst

/-- The variables with their values. -/
def rendered (d : Declarations) : Bindings := d.map fun p => (p.1, render p.2)

/-- Whether every value is well formed. -/
def WellFormed (d : Declarations) : Prop := ∀ p ∈ d, p.2.WellFormed

instance (d : Declarations) : Decidable d.WellFormed :=
  inferInstanceAs (Decidable (∀ p ∈ d, p.2.WellFormed))

/-- The value of `a` refers to the declared name `n`. -/
def Refers (d : Declarations) (a n : Text) : Prop := ∃ ps, d.lookup a = some ps ∧ .reference n ∈ ps ∧ n ∈ d.names

/-- The value of `a` refers to `n`, which may be undeclared, directly or through the values of other variables. -/
def Involves (d : Declarations) (a n : Text) : Prop :=
  ∃ m ps, ReflTransGen d.Refers a m ∧ d.lookup m = some ps ∧ .reference n ∈ ps

/-- From `a` no cycle of references can be reached. -/
def Settles (d : Declarations) (a : Text) : Prop := ∀ n, ReflTransGen d.Refers a n → ¬ TransGen d.Refers n n

/-- Full expansion: a reference to a declared name becomes the expansion of its value, and all else stays. -/
inductive Expands (d : Declarations) : Template → Text → Prop
  | nil : Expands d [] []
  | literal (s : Text) {ps : Template} {t : Text} (hps : Expands d ps t) : Expands d (.literal s :: ps) (s ++ t)
  | unknown {n : Text} {ps : Template} {t : Text} (hn : d.lookup n = none) (hps : Expands d ps t) :
      Expands d (.reference n :: ps) (reference n ++ t)
  | known {n : Text} {ps qs : Template} {t u : Text} (hn : d.lookup n = some qs) (hqs : Expands d qs u)
      (hps : Expands d ps t) : Expands d (.reference n :: ps) (u ++ t)

/-- The value of `n` pushed into the values of all the others. -/
def push (d : Declarations) (n : Text) : Declarations :=
  d.map fun p => (p.1, if p.1 = n then p.2 else fill n ((d.lookup n).getD []) p.2)

/-- Every value pushed in turn. -/
def pass (d : Declarations) : Declarations := d.names.foldl push d

variable {d d' e : Declarations} {a m n t u : Text} {ps qs : Template} {done order : List Text}

/-! ### Names and look-up -/

theorem lookup_mapped (f : Text → Template → Template) :
    (d.map fun p => (p.1, f p.1 p.2)).lookup a = (d.lookup a).map (f a) := by
  induction d with
  | nil => rfl
  | cons p d ih =>
    rw [List.map_cons, lookup_cons_eq, lookup_cons_eq, ih]
    by_cases h : a = p.1 <;> simp [h]

theorem lookup_isSome_of_mem_names (h : n ∈ d.names) : ∃ ps, d.lookup n = some ps := by
  rw [← Option.isSome_iff_exists, List.lookup_isSome_iff]
  obtain ⟨p, hp, rfl⟩ := List.mem_map.mp h
  exact ⟨p, hp, by simp⟩

theorem mem_names_of_lookup (h : d.lookup n = some ps) : n ∈ d.names :=
  List.mem_map_of_mem (f := Prod.fst) (mem_of_lookup h)

theorem names_rendered : d.rendered.names = d.names := by
  simp [rendered, names, Bindings.names, Function.comp_def]

theorem get?_rendered : d.rendered.get? a = (d.lookup a).map render := by
  induction d with
  | nil => rfl
  | cons p d ih =>
    rw [rendered, List.map_cons, Bindings.get?_cons, lookup_cons_eq, ← rendered, ih]
    by_cases h : a = p.1 <;> simp [h]

theorem names_push : (d.push n).names = d.names := by
  simp [push, names, Function.comp_def]

theorem lookup_push : (d.push n).lookup a =
    (d.lookup a).map fun ps => if a = n then ps else fill n ((d.lookup n).getD []) ps :=
  lookup_mapped fun b ps => if b = n then ps else fill n ((d.lookup n).getD []) ps

theorem lookup_push_self : (d.push n).lookup n = d.lookup n := by
  rw [lookup_push]
  simp

theorem lookup_push_of_ne (h : a ≠ n) :
    (d.push n).lookup a = (d.lookup a).map (fill n ((d.lookup n).getD [])) := by
  rw [lookup_push]
  simp [h]

/-! ### The graph -/

theorem Settles.of_reaches (h : d.Settles a) (hn : ReflTransGen d.Refers a n) : d.Settles n :=
  fun m hm => h m (hn.trans hm)

theorem Involves.refers (h : d.Involves a n) (hn : n ∈ d.names) : TransGen d.Refers a n := by
  obtain ⟨m, ps, ham, hps, hmem⟩ := h
  exact .tail' ham ⟨ps, hps, hmem, hn⟩

theorem Involves.trans (h : TransGen d.Refers a m) (hn : d.Involves m n) : d.Involves a n := by
  obtain ⟨k, ps, hmk, hps, hmem⟩ := hn
  exact ⟨k, ps, h.to_reflTransGen.trans hmk, hps, hmem⟩

theorem mem_names_of_refers (h : TransGen d.Refers a n) : n ∈ d.names := by
  obtain ⟨m, -, ps, -, -, hn⟩ := TransGen.tail'_iff.mp h
  exact hn

theorem settles_of_acyclic (h : ∀ n, ¬ TransGen d.Refers n n) : d.Settles a := fun n _ => h n

/-! ### Expansion -/

theorem expands_append_iff :
    Expands d (ps ++ qs) t ↔ ∃ t₁ t₂, t = t₁ ++ t₂ ∧ Expands d ps t₁ ∧ Expands d qs t₂ := by
  induction ps generalizing t with
  | nil =>
    constructor
    · intro h
      exact ⟨[], t, rfl, .nil, h⟩
    · rintro ⟨t₁, t₂, rfl, h₁, h₂⟩
      cases h₁
      exact h₂
  | cons p ps ih =>
    constructor
    · intro h
      cases h with
      | literal s h =>
        obtain ⟨t₁, t₂, rfl, h₁, h₂⟩ := ih.mp h
        exact ⟨s ++ t₁, t₂, (List.append_assoc _ _ _).symm, .literal s h₁, h₂⟩
      | unknown hn h =>
        obtain ⟨t₁, t₂, rfl, h₁, h₂⟩ := ih.mp h
        exact ⟨_ ++ t₁, t₂, (List.append_assoc _ _ _).symm, .unknown hn h₁, h₂⟩
      | known hn hqs h =>
        obtain ⟨t₁, t₂, rfl, h₁, h₂⟩ := ih.mp h
        exact ⟨_ ++ t₁, t₂, (List.append_assoc _ _ _).symm, .known hn hqs h₁, h₂⟩
    · rintro ⟨t₁, t₂, rfl, h₁, h₂⟩
      cases h₁ with
      | literal s h => exact List.append_assoc _ _ _ ▸ .literal s (ih.mpr ⟨_, _, rfl, h, h₂⟩)
      | unknown hn h => exact List.append_assoc _ _ _ ▸ .unknown hn (ih.mpr ⟨_, _, rfl, h, h₂⟩)
      | known hn hqs h => exact List.append_assoc _ _ _ ▸ .known hn hqs (ih.mpr ⟨_, _, rfl, h, h₂⟩)

theorem Expands.unique (h : Expands d ps t) (h' : Expands d ps u) : t = u := by
  induction h generalizing u with
  | nil => cases h'; rfl
  | literal s _ ih =>
    cases h' with
    | literal _ h' => rw [ih h']
  | unknown hn _ ih =>
    cases h' with
    | unknown _ h' => rw [ih h']
    | known hn' _ _ => rw [hn] at hn'; cases hn'
  | known hn _ _ ihq ihp =>
    cases h' with
    | unknown hn' _ => rw [hn] at hn'; cases hn'
    | known hn' hq h' =>
      rw [hn] at hn'
      obtain rfl := Option.some.inj hn'
      rw [ihq hq, ihp h']

/-- Expansion depends on the values of the names only, not on their order. -/
theorem Expands.congr (h : Expands d ps t) (hd : ∀ n, d'.lookup n = d.lookup n) : Expands d' ps t := by
  induction h with
  | nil => exact .nil
  | literal s _ ih => exact .literal s ih
  | unknown hn _ ih => exact .unknown ((hd _).trans hn) ih
  | known hn _ _ ihq ihp => exact .known ((hd _).trans hn) ihq ihp

/-- A template that refers to no declared name is its own expansion. -/
theorem expands_render (h : ∀ n ∈ d.names, .reference n ∉ ps) : Expands d ps (render ps) := by
  induction ps with
  | nil => exact .nil
  | cons p ps ih =>
    replace ih := ih fun n hn hmem => h n hn (by simp [hmem])
    cases p with
    | literal s => exact .literal s ih
    | reference m =>
      refine .unknown ?_ ih
      cases hm : d.lookup m with
      | none => rfl
      | some qs => exact absurd (List.mem_cons_self ..) (h m (mem_names_of_lookup hm))

/-- What expands after the references to `n` are filled expands before, if what they are filled with has the
    expansions of the value of `n`. -/
theorem Expands.of_fill {value w : Template} (h : Expands d (fill n value ps) t)
    (hn : .reference n ∈ ps → d.lookup n = some w ∧ ∀ u, Expands d value u → Expands d w u) : Expands d ps t := by
  induction ps generalizing t with
  | nil => exact h
  | cons p ps ih =>
    rw [fill_cons, expands_append_iff] at h
    obtain ⟨t₁, t₂, rfl, h₁, h₂⟩ := h
    replace ih := ih h₂ fun hmem => hn (by simp [hmem])
    cases p with
    | literal s =>
      cases h₁ with
      | literal _ h₁ =>
        cases h₁
        simpa using Expands.literal s ih
    | reference m =>
      by_cases hm : m = n
      · subst hm
        rw [Piece.fill, if_pos rfl] at h₁
        obtain ⟨hlookup, hvalue⟩ := hn (by simp)
        exact .known hlookup (hvalue _ h₁) ih
      · rw [Piece.fill, if_neg hm] at h₁
        cases h₁ with
        | unknown hm h₁ =>
          cases h₁
          simpa using Expands.unknown hm ih
        | known hm hqs h₁ =>
          cases h₁
          simpa using Expands.known hm hqs ih

/-! ### What pushing a value leaves -/

theorem WellFormed.push (hd : d.WellFormed) : (d.push n).WellFormed := by
  intro p hp
  obtain ⟨q, hq, rfl⟩ := List.mem_map.mp hp
  have hvalue : Template.WellFormed ((d.lookup n).getD []) := by
    cases hn : d.lookup n with
    | none => exact fun _ h => absurd h (by simp)
    | some ps => exact hd _ (mem_of_lookup hn)
  by_cases h : q.1 = n
  · simpa [h] using hd q hq
  · have hfill : (fill n ((d.lookup n).getD []) q.2).WellFormed := (hd q hq).fill hvalue
    simpa [h] using hfill

/-- What can be left in the declarations `e` when the names in `done` have been pushed in `d`: references to names that
    the value involved before, and to a pushed name only if it is on a cycle. -/
structure Remains (d : Declarations) (done : List Text) (e : Declarations) : Prop where
  names : e.names = d.names
  wellFormed : e.WellFormed
  involves : ∀ {a ps n}, e.lookup a = some ps → .reference n ∈ ps → d.Involves a n
  cyclic : ∀ {a ps n}, e.lookup a = some ps → .reference n ∈ ps → n ∈ done → TransGen d.Refers n n

namespace Remains

theorem start (hd : d.WellFormed) : Remains d [] d where
  names := rfl
  wellFormed := hd
  involves hps hn := ⟨_, _, .refl, hps, hn⟩
  cyclic _ _ hn := absurd hn (by simp)

/-- After the step a reference is one that was there, to another name than `n`, or it comes from the value of `n`. -/
theorem lookup_push (h : Remains d done e) (hn : n ∈ d.names) (hps : (e.push n).lookup a = some ps)
    (hmem : .reference m ∈ ps) : ∃ value, e.lookup n = some value ∧
      ((m ≠ n ∧ ∃ qs, e.lookup a = some qs ∧ .reference m ∈ qs) ∨
        .reference m ∈ value ∧ (a = n ∨ ∃ qs, e.lookup a = some qs ∧ .reference n ∈ qs)) := by
  obtain ⟨value, hvalue⟩ := lookup_isSome_of_mem_names (d := e) (h.names ▸ hn)
  refine ⟨value, hvalue, ?_⟩
  by_cases ha : a = n
  · subst ha
    rw [lookup_push_self, hvalue] at hps
    obtain rfl := Option.some.inj hps
    exact .inr ⟨hmem, .inl rfl⟩
  · rw [lookup_push_of_ne ha, hvalue, Option.getD_some] at hps
    obtain ⟨qs, hqs, rfl⟩ := Option.map_eq_some_iff.mp hps
    rcases mem_fill hmem with ⟨hmem, hne⟩ | ⟨hmem, hmem'⟩
    · exact .inl ⟨fun hmn => hne (hmn ▸ rfl), qs, hqs, hmem⟩
    · exact .inr ⟨hmem', .inr ⟨qs, hqs, hmem⟩⟩

theorem push (h : Remains d done e) (hn : n ∈ d.names) : Remains d (n :: done) (e.push n) := by
  refine ⟨names_push.trans h.names, h.wellFormed.push, fun hps hmem => ?_, fun hps hmem hm => ?_⟩
  · obtain ⟨value, hvalue, ⟨-, qs, hqs, hmem⟩ | ⟨hmem, rfl | ⟨qs, hqs, hmem'⟩⟩⟩ := h.lookup_push hn hps hmem
    · exact h.involves hqs hmem
    · exact h.involves hvalue hmem
    · exact .trans ((h.involves hqs hmem').refers hn) (h.involves hvalue hmem)
  · obtain ⟨value, hvalue, ⟨hne, qs, hqs, hmem⟩ | ⟨hmem, -⟩⟩ := h.lookup_push hn hps hmem
    · exact h.cyclic hqs hmem ((List.mem_cons.mp hm).resolve_left hne)
    · -- The value of `n` refers to a pushed name, or to `n` itself.
      rcases List.mem_cons.mp hm with rfl | hm
      · exact (h.involves hvalue hmem).refers hn
      · exact h.cyclic hvalue hmem hm

theorem foldl (h : Remains d done e) (horder : ∀ n ∈ order, n ∈ d.names) :
    Remains d (order.reverse ++ done) (order.foldl Declarations.push e) := by
  induction order generalizing done e with
  | nil => exact h
  | cons n order ih =>
    rw [List.reverse_cons, List.append_assoc]
    exact ih (h.push (horder n (by simp))) fun m hm => horder m (by simp [hm])

theorem pass (hd : d.WellFormed) : Remains d d.names.reverse d.pass := by
  simpa [Declarations.pass] using (Remains.start hd).foldl fun n (hn : n ∈ d.names) => hn

/-- A name that settles refers to no pushed name any more. -/
theorem gone (h : Remains d done e) (ha : d.Settles a) (hps : e.lookup a = some ps) : ∀ n ∈ done, .reference n ∉ ps := by
  intro n hn hmem
  have hcycle := h.cyclic hps hmem hn
  exact ha n ((h.involves hps hmem).refers (mem_names_of_refers hcycle)).to_reflTransGen hcycle

end Remains

/-! ### What pushing a value keeps -/

/-- The declarations `e` that are left of `d` when the names in `done` have been pushed. Only the names that settle are
    kept track of: their values refer to no pushed name, refer to what they referred to before, and have no other
    expansion. -/
structure Reduced (d : Declarations) (done : List Text) (e : Declarations) : Prop where
  names : e.names = d.names
  wellFormed : e.WellFormed
  gone : ∀ {a ps}, d.Settles a → e.lookup a = some ps → ∀ n ∈ done, .reference n ∉ ps
  reaches : ∀ {a ps n}, d.Settles a → e.lookup a = some ps → .reference n ∈ ps → n ∈ d.names →
    TransGen d.Refers a n
  expands : ∀ {a ps qs t}, d.Settles a → d.lookup a = some ps → e.lookup a = some qs → Expands d qs t →
    Expands d ps t

theorem Reduced.start (hd : d.WellFormed) : Reduced d [] d where
  names := rfl
  wellFormed := hd
  gone _ _ _ hn := absurd hn (by simp)
  reaches _ hps hn hnames := .single ⟨_, hps, hn, hnames⟩
  expands _ hps hqs h := by
    rw [hps] at hqs
    obtain rfl := Option.some.inj hqs
    exact h

namespace Reduced

/-- What is left of `d` is left of it also for the names that settle; there the expansions are kept too. -/
theorem push (h : Reduced d done e) (hr : Remains d done e) (hn : n ∈ d.names) : Reduced d (n :: done) (e.push n) := by
  have hr' := hr.push hn
  refine ⟨hr'.names, hr'.wellFormed, hr'.gone, fun _ hps hmem => (hr'.involves hps hmem).refers, ?_⟩
  intro a ps qs t ha hps hqs ht
  by_cases hne : a = n
  · subst hne
    rw [lookup_push_self] at hqs
    exact h.expands ha hps hqs ht
  · obtain ⟨value, hvalue⟩ := lookup_isSome_of_mem_names (d := e) (h.names ▸ hn)
    obtain ⟨w, hw⟩ := lookup_isSome_of_mem_names hn
    rw [lookup_push_of_ne hne, hvalue, Option.getD_some] at hqs
    obtain ⟨rs, hrs, rfl⟩ := Option.map_eq_some_iff.mp hqs
    refine h.expands ha hps hrs (ht.of_fill fun hmem => ⟨hw, fun u hu => ?_⟩)
    -- A name whose value refers to `n` reaches it, so `n` settles with it.
    exact h.expands (ha.of_reaches (h.reaches ha hrs hmem hn).to_reflTransGen) hw hvalue hu

theorem foldl (h : Reduced d done e) (hr : Remains d done e) (horder : ∀ n ∈ order, n ∈ d.names) :
    Reduced d (order.reverse ++ done) (order.foldl Declarations.push e) := by
  induction order generalizing done e with
  | nil => exact h
  | cons n order ih =>
    have hn : n ∈ d.names := horder n (by simp)
    rw [List.reverse_cons, List.append_assoc]
    exact ih (h.push hr hn) (hr.push hn) fun m hm => horder m (by simp [hm])

theorem pass (hd : d.WellFormed) : Reduced d d.names.reverse d.pass := by
  simpa [Declarations.pass] using (Reduced.start hd).foldl (.start hd) fun n (hn : n ∈ d.names) => hn

end Reduced

/-- The pass gives every name that settles the expansion of its value, and leaves no reference to a declared name in
    it. -/
theorem pass_expands (hd : d.WellFormed) (ha : d.Settles a) (hps : d.lookup a = some ps) :
    ∃ qs, d.pass.lookup a = some qs ∧ Expands d ps (render qs) ∧ ∀ n ∈ d.names, .reference n ∉ qs := by
  have h := Reduced.pass hd
  obtain ⟨qs, hqs⟩ := lookup_isSome_of_mem_names (d := d.pass) (h.names ▸ mem_names_of_lookup hps)
  have hgone : ∀ n ∈ d.names, .reference n ∉ qs := fun n hn => h.gone ha hqs n (by simpa using hn)
  exact ⟨qs, hqs, h.expands ha hps hqs (expands_render hgone), hgone⟩

end Declarations

end Runbook.Variables
