import Runbook.Proofs.Bindings
import Runbook.Proofs.Path.Written

/-! # Paths that begin with a home

Only a path that begins with `~` is expanded (`Homes.expand?_of_beginsAtHome`). Where all homes are absolute, what it is
expanded to begins with no home again (`Homes.Rooted.beginsAtHome`), and neither does what is read back from the text of
such a path, also with something written after its last name (`Path.beginsAtHome_ofText_append`). -/

namespace Runbook

variable {p q : Path} {name s u : Text} {homes : Homes}

namespace Path

/-- Whether a path begins with a home: whether it starts from the working directory, with a name that begins with `~`. -/
def beginsAtHome (p : Path) : Bool :=
  match p.anchor, p.names with
  | .relative, first :: _ => Text.startsWith "~" first
  | _, _ => false

theorem beginsAtHome_of_isAbsolute (h : p.isAbsolute = true) : p.beginsAtHome = false := by
  obtain ⟨anchor, names⟩ := p
  cases anchor with
  | relative => cases h
  | root => rfl
  | doubled => rfl

theorem isAbsolute_ofText (h : Text.startsWith "/" s = true) : (ofText s).isAbsolute = true := by
  obtain ⟨t, rfl⟩ := List.isPrefixOf_iff_prefix.mp h
  show (anchorOf ('/' :: t) != .relative) = true
  unfold anchorOf
  split
  · rfl
  · rfl
  · rfl
  · rename_i hslash
    exact (hslash t rfl).elim

theorem beginsAtHome_join (hp : p.beginsAtHome = false) (hq : q.beginsAtHome = false) : (p.join q).beginsAtHome = false := by
  unfold join
  split
  · exact hq
  · rename_i hrelative
    obtain ⟨anchor, names⟩ := p
    obtain ⟨anchor', names'⟩ := q
    cases anchor with
    | root => rfl
    | doubled => rfl
    | relative =>
      cases names with
      | cons name names => exact hp
      | nil =>
        cases anchor' with
        | relative => exact hq
        | root => exact absurd rfl hrelative
        | doubled => exact absurd rfl hrelative

/-- What begins like a name is read as a relative path whose first name begins so. -/
theorem ofText_name_append (hne : name ≠ []) (hdot : name ≠ ['.']) (hslash : '/' ∉ name) (u : Text) :
    ∃ x names, ofText (name ++ u) = ⟨.relative, (name ++ x) :: names⟩ := by
  obtain ⟨x, parts, hu⟩ : ∃ x parts, Text.splitOn '/' u = x :: parts := by
    refine List.exists_cons_of_ne_nil ?_
    rw [Text.splitOn_eq_listSplitOn]
    exact List.splitOn_ne_nil '/' u
  have hsplit : Text.splitOn '/' (name ++ u) = (name ++ x) :: parts := by
    have hjoin : name ++ u = Text.joinWith "/" ((name ++ x) :: parts) := by
      rw [Text.joinWith_cons_append, ← hu]
      exact congrArg _ (Text.joinWith_splitOn '/' u).symm
    have hparts : ∀ part ∈ x :: parts, '/' ∉ part := fun part hpart => Text.not_mem_of_mem_splitOn (hu ▸ hpart)
    rw [hjoin]
    refine Text.splitOn_joinWith (List.cons_ne_nil _ _) fun part hpart => ?_
    rcases List.mem_cons.mp hpart with rfl | hpart
    · exact fun hmem => (List.mem_append.mp hmem).elim hslash (hparts x List.mem_cons_self)
    · exact hparts part (.tail _ hpart)
  have hkept : name ++ x ≠ ['.'] := by
    obtain ⟨c, rest, rfl⟩ := List.exists_cons_of_ne_nil hne
    exact fun h => hdot (by simp_all)
  refine ⟨x, parts.filter fun n => !n.isEmpty && n != ['.'], ?_⟩
  rw [ofText, anchorOf_name_append hne hslash, namesOf, hsplit, List.filter_cons_of_pos (by simp [hne, hkept])]

theorem beginsAtHome_ofText_name_append (hne : name ≠ []) (hdot : name ≠ ['.']) (hslash : '/' ∉ name)
    (h : Text.startsWith "~" name = false) (u : Text) : (ofText (name ++ u)).beginsAtHome = false := by
  obtain ⟨x, names, hread⟩ := ofText_name_append hne hdot hslash u
  rw [hread]
  obtain ⟨c, rest, rfl⟩ := List.exists_cons_of_ne_nil hne
  exact h

/-- What is read back from the text of a path, with something written after its last name, begins with a home only if
    the path does. -/
theorem beginsAtHome_ofText_append (h : p.Proper) (hp : p.beginsAtHome = false) (hu : '/' ∉ u) :
    (ofText (p.toText ++ u)).beginsAtHome = false := by
  obtain ⟨anchor, names⟩ := p
  cases anchor with
  | root => exact beginsAtHome_of_isAbsolute (isAbsolute_ofText rfl)
  | doubled => exact beginsAtHome_of_isAbsolute (isAbsolute_ofText rfl)
  | relative =>
    cases names with
    | cons name names =>
      obtain ⟨hne, hdot, hslash⟩ := h name List.mem_cons_self
      have htext : toText ⟨.relative, name :: names⟩ = name ++ Text.joinWith "/" ([] :: names) := by
        rw [← Text.joinWith_cons_append, List.append_nil]
        rfl
      rw [htext, List.append_assoc]
      exact beginsAtHome_ofText_name_append hne hdot hslash hp _
    | nil =>
      -- The working directory is written as a dot.
      show (ofText ('.' :: u)).beginsAtHome = false
      by_cases hempty : u = []
      · rw [hempty]
        rfl
      · have hslash : '/' ∉ '.' :: u := fun hmem => (List.mem_cons.mp hmem).elim (by decide) hu
        rw [← List.append_nil ('.' :: u)]
        exact beginsAtHome_ofText_name_append (List.cons_ne_nil _ _) (by simpa using hempty) hslash rfl []

end Path

namespace Homes

/-- Every home is absolute. Nothing stands for the root. -/
def Rooted (homes : Homes) : Prop :=
  ∀ home ∈ homes.own :: homes.accounts.filterMap Prod.snd, home = [] ∨ Text.startsWith "/" home = true

instance (homes : Homes) : Decidable homes.Rooted := inferInstanceAs (Decidable (∀ home ∈ _, _))

theorem expand?_of_beginsAtHome (h : p.beginsAtHome = false) : homes.expand? p = some p := by
  obtain ⟨anchor, names⟩ := p
  cases anchor with
  | root => rfl
  | doubled => rfl
  | relative =>
    cases names with
    | nil => rfl
    | cons name names => exact if_neg (ne_true_of_eq_false h)

/-- What begins with `~` is expanded to a home, without the slashes at its end, and what comes after it, or stays as it
    is. -/
theorem expandText_cases (homes : Homes) (rest : Text) : homes.expandText ('~' :: rest) = '~' :: rest ∨
    ∃ home ∈ homes.own :: homes.accounts.filterMap Prod.snd, ∃ whole,
      whole = Text.dropEndWhile (· == '/') home ++ rest.dropWhile (· != '/') ∧
      homes.expandText ('~' :: rest) = if whole.isEmpty then "/".toList else whole := by
  unfold expandText
  split
  · rename_i rest' heq
    obtain rfl : rest = rest' := (List.cons.inj heq).2
    dsimp only
    split
    · exact Or.inl rfl
    · rename_i home hhome
      refine Or.inr ⟨home, ?_, _, rfl, rfl⟩
      split at hhome
      · cases hhome
        exact List.mem_cons_self
      · exact .tail _ (List.mem_filterMap.mpr ⟨_, mem_of_lookup (Option.join_eq_some_iff.mp hhome), rfl⟩)
  · exact Or.inl rfl

theorem Rooted.expandText (h : homes.Rooted) (rest : Text) :
    homes.expandText ('~' :: rest) = '~' :: rest ∨ Text.startsWith "/" (homes.expandText ('~' :: rest)) = true := by
  refine (homes.expandText_cases rest).imp_right ?_
  rintro ⟨home, hhome, whole, hwhole, hexpand⟩
  rw [hexpand]
  have hslash : ∀ c t, whole = c :: t → c = '/' := by
    intro c t hct
    -- The text begins with the home, or with what comes after it.
    cases hkept : Text.dropEndWhile (· == '/') home with
    | nil =>
      rw [hwhole, hkept, List.nil_append] at hct
      simpa [hct] using List.head?_dropWhile_not (· != '/') rest
    | cons c' t' =>
      obtain ⟨t'', rfl⟩ := hkept ▸ Text.dropEndWhile_isPrefix (· == '/') home
      rw [hwhole, hkept, List.cons_append] at hct
      obtain rfl : c' = c := (List.cons.inj hct).1
      exact (show '/' = c' by simpa [Text.startsWith] using h _ hhome).symm
  cases whole with
  | nil => rfl
  | cons c t =>
    rw [hslash c t rfl]
    rfl

theorem Rooted.beginsAtHome (h : homes.Rooted) (hq : homes.expand? p = some q) : q.beginsAtHome = false := by
  unfold expand? at hq
  split at hq
  · rename_i first rest hanchor hnames
    dsimp only at hq
    split at hq
    · rename_i hfirst
      split at hq
      · cases hq
      · rename_i hhome
        cases hq
        obtain ⟨account, rfl⟩ := List.isPrefixOf_iff_prefix.mp hfirst
        -- What is not expanded still begins with `~`, and then no path is given.
        refine Path.beginsAtHome_of_isAbsolute (Path.isAbsolute_ofText ?_)
        exact (h.expandText account).resolve_left fun hsame => hhome ((congrArg _ hsame).trans hfirst)
    · rename_i hfirst
      cases hq
      simpa [Path.beginsAtHome, hanchor, hnames] using hfirst
  · rename_i hother
    cases hq
    unfold Path.beginsAtHome
    split
    · exact (hother _ _ ‹_› ‹_›).elim
    · rfl

end Homes

end Runbook
