import Runbook.Proofs.Text.Lines
import Runbook.Proofs.Tree.Names

/-! # Paths written and read back

A path whose names can be told apart in its text is read back from it, whatever it is made absolute from
(`ofText_toText`); so two of them have one text only if they are the same path. -/

namespace Runbook

namespace Path

variable {p q : Path} {text name : Text}

/-- Each name of the path can be told in its text. -/
def Proper (p : Path) : Prop := ∀ name ∈ p.names, name ≠ [] ∧ name ≠ ['.'] ∧ '/' ∉ name

instance (p : Path) : Decidable p.Proper := inferInstanceAs (Decidable (∀ name ∈ p.names, _))

theorem proper_ofText (text : Text) : (ofText text).Proper := by
  intro name hname
  obtain ⟨hsplit, hkept⟩ := List.mem_filter.mp hname
  rw [Bool.and_eq_true, Bool.not_eq_true', List.isEmpty_eq_false_iff, bne_iff_ne] at hkept
  exact ⟨hkept.1, hkept.2, Text.not_mem_of_mem_splitOn hsplit⟩

theorem Proper.join (hp : p.Proper) (hq : q.Proper) : (p.join q).Proper := by
  unfold Path.join
  split
  · exact hq
  · intro name hname
    exact (List.mem_append.mp hname).elim (hp name) (hq name)

theorem join_isAbsolute (hp : p.isAbsolute = true) (q : Path) : (p.join q).isAbsolute = true := by
  unfold Path.join
  split
  · assumption
  · exact hp

theorem Proper.collapse (h : p.Proper) : p.collapse.Proper := fun name hname => h name (mem_of_mem_collapse hname)

theorem Proper.expand {homes : Homes} (h : p.Proper) (hq : homes.expand? p = some q) : q.Proper := by
  unfold Homes.expand? at hq
  split at hq
  · rename_i first rest _ hnames
    dsimp only at hq
    split at hq
    · split at hq
      · cases hq
      · cases hq
        intro name hname
        refine (List.mem_append.mp hname).elim (proper_ofText _ name) fun hmem => h name ?_
        rw [hnames]
        exact .tail _ hmem
    · cases hq
      exact h
  · cases hq
    exact h

theorem namesOf_slash (s : Text) : namesOf ('/' :: s) = namesOf s := rfl

theorem namesOf_joinWith (h : p.Proper) : namesOf (Text.joinWith "/" p.names) = p.names := by
  by_cases hne : p.names = []
  · rw [hne]
    rfl
  · have hslash : ∀ name ∈ p.names, '/' ∉ name := fun name hname => (h name hname).2.2
    have hsplit : Text.splitOn '/' (Text.joinWith "/" p.names) = p.names := Text.splitOn_joinWith hne hslash
    rw [namesOf, hsplit, List.filter_eq_self]
    intro name hname
    simp [(h name hname).1, (h name hname).2.1]

theorem head_joinWith (h : p.Proper) : ∀ s, Text.joinWith "/" p.names ≠ '/' :: s := by
  obtain ⟨anchor, names⟩ := p
  intro s hs
  cases names with
  | nil => cases hs
  | cons name rest =>
    obtain ⟨hne, -, hslash⟩ := h name List.mem_cons_self
    obtain ⟨c, name, rfl⟩ := List.exists_cons_of_ne_nil hne
    have hc : c = '/' := by
      cases rest with
      | nil => exact (List.cons.inj hs).1
      | cons next rest => exact (List.cons.inj hs).1
    exact hslash (hc ▸ List.mem_cons_self)

theorem anchorOf_slash (h : ∀ s, text ≠ '/' :: s) : anchorOf ('/' :: text) = .root := by
  cases text with
  | nil => rfl
  | cons c text =>
    have hc : c ≠ '/' := fun hc => h text (hc ▸ rfl)
    simp [anchorOf, hc]

theorem anchorOf_slashes (h : ∀ s, text ≠ '/' :: s) : anchorOf ('/' :: '/' :: text) = .doubled := by
  cases text with
  | nil => rfl
  | cons c text =>
    simp [anchorOf]

theorem anchorOf_name_append (hne : name ≠ []) (hslash : '/' ∉ name) (text : Text) : anchorOf (name ++ text) = .relative := by
  obtain ⟨c, rest, rfl⟩ := List.exists_cons_of_ne_nil hne
  have hc : c ≠ '/' := fun hc => hslash (hc ▸ List.mem_cons_self)
  simp [anchorOf, hc]

/-- An absolute path is read back from its text. -/
theorem ofText_toText (h : p.Proper) (ha : p.isAbsolute = true) : ofText p.toText = p := by
  have hnames := namesOf_joinWith h
  have hhead := head_joinWith h
  obtain ⟨anchor, names⟩ := p
  cases anchor with
  | relative => cases ha
  | root =>
    show Path.mk (anchorOf ('/' :: Text.joinWith "/" names)) (namesOf ('/' :: Text.joinWith "/" names)) = _
    rw [anchorOf_slash hhead, namesOf_slash, hnames]
  | doubled =>
    show Path.mk (anchorOf ('/' :: '/' :: Text.joinWith "/" names))
      (namesOf ('/' :: '/' :: Text.joinWith "/" names)) = _
    rw [anchorOf_slashes hhead, namesOf_slash, namesOf_slash, hnames]

end Path

end Runbook
