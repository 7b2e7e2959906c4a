import Runbook.Proofs.Recipe.Name
import Runbook.Variables
import Mathlib.Data.List.Basic

/-! # Templates

A template is a text seen as pieces: literal text, and references to names. The pieces are such that a reference is
found where it was written and nowhere else (`reference_infix_render`), so replacing the reference to a name in the
text replaces the pieces that refer to it and keeps every other one (`replace_render`). -/

namespace Runbook.Variables

/-- A piece of a template. -/
inductive Piece
  | literal (s : Text)
  | reference (name : Text)
deriving DecidableEq, Repr

/-- A text seen as pieces. -/
abbrev Template := List Piece

/-- Whether a text has none of the characters a reference is written with. -/
def Plain (s : Text) : Prop := ∀ c ∈ s, c ≠ '$' ∧ c ≠ '\x7b' ∧ c ≠ '\x7d'

namespace Piece

/-- The text of a piece. -/
def text : Piece → Text
  | literal s => s
  | reference name => Variables.reference name

/-- A literal holds no beginning of a reference and cannot become one by what follows it; a name in a reference is
    plain. -/
def WellFormed : Piece → Prop
  | literal s => ¬ ['$', '\x7b'] <:+: s ∧ s.getLast? ≠ some '$'
  | reference name => Plain name

instance (s : Text) : Decidable (Plain s) :=
  List.decidableBAll (fun c => c ≠ '$' ∧ c ≠ '\x7b' ∧ c ≠ '\x7d') s

instance (p : Piece) : Decidable p.WellFormed :=
  match p with
  | literal s => inferInstanceAs (Decidable (¬ ['$', '\x7b'] <:+: s ∧ s.getLast? ≠ some '$'))
  | reference name => inferInstanceAs (Decidable (Plain name))

/-- The pieces a piece becomes when the references to `name` become `value`. -/
def fill (name : Text) (value : Template) : Piece → Template
  | literal s => [literal s]
  | reference m => if m = name then value else [reference m]

end Piece

namespace Template

/-- The text of a template. -/
def render (ps : Template) : Text := ps.flatMap Piece.text

/-- Whether every piece is well formed. -/
def WellFormed (ps : Template) : Prop := ∀ p ∈ ps, p.WellFormed

instance (ps : Template) : Decidable ps.WellFormed :=
  inferInstanceAs (Decidable (∀ p ∈ ps, p.WellFormed))

/-- The template in which the references to `name` have become `value`. -/
def fill (name : Text) (value ps : Template) : Template := ps.flatMap (Piece.fill name value)

@[simp] theorem render_nil : render [] = [] := rfl

@[simp] theorem render_cons (p : Piece) (ps : Template) : render (p :: ps) = p.text ++ render ps := rfl

theorem render_append (ps qs : Template) : render (ps ++ qs) = render ps ++ render qs := by
  simp [render]

@[simp] theorem fill_nil (name : Text) (value : Template) : fill name value [] = [] := rfl

@[simp] theorem fill_cons (name : Text) (value : Template) (p : Piece) (ps : Template) :
    fill name value (p :: ps) = p.fill name value ++ fill name value ps := rfl

end Template

open Template

variable {name m s rest old new : Text} {c : Char} {ps value : Template}

/-! ### Names -/

theorem plain_of_isTail (h : VariableName.isTail c = true) : c ≠ '$' ∧ c ≠ '\x7b' ∧ c ≠ '\x7d' := by
  refine ⟨?_, ?_, ?_⟩ <;> rintro rfl <;> revert h <;> decide

theorem plain_of_isValid (h : VariableName.isValid name = true) : Plain name :=
  fun c hc => plain_of_isTail (VariableName.isTail_of_isValid h c hc)

/-! ### Where a reference can begin -/

theorem reference_eq : reference name = '$' :: '\x7b' :: (name ++ ['\x7d']) := rfl

theorem not_reference_prefix_of_ne (hc : c ≠ '$') : ¬ reference name <+: c :: s := by
  rw [reference_eq, List.cons_prefix_cons]
  exact fun h => hc h.1.symm

/-- No reference begins inside a literal, whatever follows the literal. -/
theorem not_reference_prefix_literal (hwf : (Piece.literal (c :: s)).WellFormed) :
    ¬ reference name <+: c :: (s ++ rest) := by
  obtain ⟨hinf, hlast⟩ := hwf
  intro h
  rw [reference_eq, List.cons_prefix_cons] at h
  obtain ⟨rfl, h⟩ := h
  cases s with
  | nil => exact hlast rfl
  | cons d s =>
    rw [List.cons_append, List.cons_prefix_cons] at h
    obtain ⟨rfl, -⟩ := h
    exact hinf ⟨[], s, rfl⟩

theorem literal_wellFormed_tail (hwf : (Piece.literal (c :: s)).WellFormed) : (Piece.literal s).WellFormed := by
  obtain ⟨hinf, hlast⟩ := hwf
  refine ⟨fun h => hinf (h.trans (List.suffix_cons c s).isInfix), fun h => hlast ?_⟩
  cases s with
  | nil => cases h
  | cons d s => simpa using h

/-- Plain texts that are followed by a closing brace are equal if one of them begins the other. -/
theorem eq_of_prefix_close (hn : Plain name) (hm : Plain m) (h : name ++ ['\x7d'] <+: m ++ '\x7d' :: rest) :
    name = m := by
  induction name generalizing m with
  | nil =>
    cases m with
    | nil => rfl
    | cons d m =>
      rw [List.nil_append, List.cons_append, List.cons_prefix_cons] at h
      exact absurd h.1.symm (hm d (by simp)).2.2
  | cons a as ih =>
    cases m with
    | nil =>
      rw [List.nil_append, List.cons_append, List.cons_prefix_cons] at h
      exact absurd h.1 (hn a (by simp)).2.2
    | cons d m =>
      rw [List.cons_append, List.cons_append, List.cons_prefix_cons] at h
      obtain ⟨rfl, h⟩ := h
      rw [ih (fun c hc => hn c (by simp [hc])) (fun c hc => hm c (by simp [hc])) h]

theorem reference_prefix_reference (hn : Plain name) (hm : Plain m) :
    reference name <+: reference m ++ rest ↔ name = m := by
  constructor
  · intro h
    simp only [reference_eq, List.cons_append, List.append_assoc, List.nil_append, List.cons_prefix_cons,
      true_and] at h
    exact eq_of_prefix_close hn hm h
  · rintro rfl
    exact List.prefix_append _ _

/-- What follows the dollar sign of a reference holds no other one. -/
theorem tail_reference_plain (hm : Plain m) : ∀ c ∈ '\x7b' :: (m ++ ['\x7d']), c ≠ '$' := by
  intro c hc
  simp only [List.mem_cons, List.mem_append, List.not_mem_nil, or_false] at hc
  rcases hc with rfl | hc | rfl
  · decide
  · exact (hm c hc).1
  · decide

/-! ### Replacing the references to a name -/

theorem replaceFrom_skip (t : Text) : Text.replaceFrom old new t.length (t ++ s) = Text.replaceFrom old new 0 s := by
  induction t with
  | nil => rfl
  | cons a t ih => simp only [List.length_cons, List.cons_append, Text.replaceFrom, ih]

theorem replaceFrom_of_not_prefix (h : ¬ old <+: c :: s) :
    Text.replaceFrom old new 0 (c :: s) = c :: Text.replaceFrom old new 0 s := by
  rw [Text.replaceFrom, if_neg (by simpa using h)]

theorem replaceFrom_plain (hs : ∀ c ∈ s, c ≠ '$') :
    Text.replaceFrom (reference name) new 0 (s ++ rest) = s ++ Text.replaceFrom (reference name) new 0 rest := by
  induction s with
  | nil => rfl
  | cons c s ih =>
    rw [List.cons_append, replaceFrom_of_not_prefix (not_reference_prefix_of_ne (hs c (by simp))),
      ih fun d hd => hs d (by simp [hd])]
    rfl

theorem replaceFrom_literal (hwf : (Piece.literal s).WellFormed) :
    Text.replaceFrom (reference name) new 0 (s ++ rest) = s ++ Text.replaceFrom (reference name) new 0 rest := by
  induction s with
  | nil => rfl
  | cons c s ih =>
    rw [List.cons_append, replaceFrom_of_not_prefix (not_reference_prefix_literal hwf),
      ih (literal_wellFormed_tail hwf)]
    rfl

theorem replaceFrom_reference_self :
    Text.replaceFrom (reference name) new 0 (reference name ++ rest) =
      new ++ Text.replaceFrom (reference name) new 0 rest := by
  have hskip : (reference name).length - 1 = ('\x7b' :: (name ++ ['\x7d'])).length := by
    simp [reference_eq]
  rw [show reference name ++ rest = '$' :: ('\x7b' :: (name ++ ['\x7d']) ++ rest) from rfl, Text.replaceFrom,
    if_pos (by simp [reference_eq]), hskip, replaceFrom_skip]

theorem replaceFrom_reference_of_ne (hn : Plain name) (hm : Plain m) (hne : name ≠ m) :
    Text.replaceFrom (reference name) new 0 (reference m ++ rest) =
      reference m ++ Text.replaceFrom (reference name) new 0 rest := by
  have hprefix : ¬ reference name <+: '$' :: ('\x7b' :: (m ++ ['\x7d']) ++ rest) :=
    fun h => hne ((reference_prefix_reference hn hm).mp h)
  rw [show reference m ++ rest = '$' :: ('\x7b' :: (m ++ ['\x7d']) ++ rest) from rfl,
    replaceFrom_of_not_prefix hprefix, replaceFrom_plain (tail_reference_plain hm)]
  rfl

theorem replaceFrom_render (hn : Plain name) (hps : ps.WellFormed) :
    Text.replaceFrom (reference name) (render value) 0 (render ps) = render (fill name value ps) := by
  induction ps with
  | nil => rfl
  | cons p ps ih =>
    replace ih := ih fun q hq => hps q (by simp [hq])
    have hp : p.WellFormed := hps p (by simp)
    rw [fill_cons, render_append, render_cons]
    cases p with
    | literal s =>
      rw [Piece.text, replaceFrom_literal hp, ih, Piece.fill, render_cons, render_nil, List.append_nil, Piece.text]
    | reference m =>
      by_cases hm : m = name
      · subst hm
        rw [Piece.text, replaceFrom_reference_self, ih, Piece.fill, if_pos rfl]
      · rw [Piece.text, replaceFrom_reference_of_ne hn hp (Ne.symm hm), ih, Piece.fill, if_neg hm, render_cons,
          render_nil, List.append_nil, Piece.text]

/-- Replacing the reference to a name in the text of a template fills the pieces that refer to it. -/
theorem replace_render (hn : Plain name) (hps : ps.WellFormed) :
    Text.replace (reference name) (render value) (render ps) = render (fill name value ps) := by
  have hne : (reference name).isEmpty = false := rfl
  rw [Text.replace, hne, if_neg (by simp), replaceFrom_render hn hps]

/-! ### Finding references -/

theorem infix_cons_of_not_prefix (h : ¬ old <+: c :: s) : old <:+: c :: s ↔ old <:+: s := by
  rw [List.infix_cons_iff]
  exact or_iff_right h

theorem reference_infix_plain (hs : ∀ c ∈ s, c ≠ '$') : reference name <:+: s ++ rest ↔ reference name <:+: rest := by
  induction s with
  | nil => rfl
  | cons c s ih =>
    rw [List.cons_append, infix_cons_of_not_prefix (not_reference_prefix_of_ne (hs c (by simp))),
      ih fun d hd => hs d (by simp [hd])]

theorem reference_infix_literal (hwf : (Piece.literal s).WellFormed) :
    reference name <:+: s ++ rest ↔ reference name <:+: rest := by
  induction s with
  | nil => rfl
  | cons c s ih =>
    rw [List.cons_append, infix_cons_of_not_prefix (not_reference_prefix_literal hwf),
      ih (literal_wellFormed_tail hwf)]

theorem reference_infix_reference_of_ne (hn : Plain name) (hm : Plain m) (hne : name ≠ m) :
    reference name <:+: reference m ++ rest ↔ reference name <:+: rest := by
  have hprefix : ¬ reference name <+: '$' :: (('\x7b' :: (m ++ ['\x7d'])) ++ rest) :=
    fun h => hne ((reference_prefix_reference hn hm).mp h)
  rw [show reference m ++ rest = '$' :: (('\x7b' :: (m ++ ['\x7d'])) ++ rest) from rfl,
    infix_cons_of_not_prefix hprefix, reference_infix_plain (tail_reference_plain hm)]

/-- A reference stands in the text of a template where a piece refers to its name, and nowhere else. -/
theorem reference_infix_render (hn : Plain name) (hps : ps.WellFormed) :
    reference name <:+: render ps ↔ .reference name ∈ ps := by
  induction ps with
  | nil => simp [reference_eq]
  | cons p ps ih =>
    replace ih := ih fun q hq => hps q (by simp [hq])
    have hp : p.WellFormed := hps p (by simp)
    rw [render_cons]
    cases p with
    | literal s => simp [Piece.text, reference_infix_literal hp, ih]
    | reference m =>
      by_cases hm : name = m
      · subst hm
        simp only [Piece.text, List.mem_cons, true_or, iff_true]
        exact (List.prefix_append _ _).isInfix
      · simp [Piece.text, reference_infix_reference_of_ne hn hp hm, ih, hm]

/-! ### Filling -/

theorem mem_fill {p : Piece} (h : p ∈ fill name value ps) :
    p ∈ ps ∧ p ≠ .reference name ∨ .reference name ∈ ps ∧ p ∈ value := by
  obtain ⟨q, hq, hp⟩ := List.mem_flatMap.mp h
  cases q with
  | literal s =>
    obtain rfl := List.mem_singleton.mp hp
    exact Or.inl ⟨hq, by simp⟩
  | reference m =>
    by_cases hm : m = name
    · subst hm
      rw [Piece.fill, if_pos rfl] at hp
      exact Or.inr ⟨hq, hp⟩
    · rw [Piece.fill, if_neg hm] at hp
      obtain rfl := List.mem_singleton.mp hp
      exact Or.inl ⟨hq, by simpa using hm⟩

theorem fill_of_not_mem (h : .reference name ∉ ps) : fill name value ps = ps := by
  induction ps with
  | nil => rfl
  | cons p ps ih =>
    rw [List.mem_cons, not_or] at h
    rw [fill_cons, ih h.2]
    cases p with
    | literal s => rfl
    | reference m => rw [Piece.fill, if_neg fun e => h.1 (by rw [e]), List.singleton_append]

theorem Template.WellFormed.fill (hps : ps.WellFormed) (hvalue : value.WellFormed) :
    (Template.fill name value ps).WellFormed := by
  intro p hp
  rcases mem_fill hp with ⟨hp, -⟩ | ⟨-, hp⟩
  · exact hps p hp
  · exact hvalue p hp

end Runbook.Variables
