import Runbook.Proofs.Tree.Growth

/-! # Walks that arrive

A walk that arrives is described by its steps and by how many links it follows (`Tree.Goes`): a walk that may follow so
many links arrives exactly if it needs no more of them (`walkFrom_eq_ok_iff`), and then there is only one place it can
arrive at (`Goes.unique`). A walk along names and more names is a walk along the names and then one along the others
(`goes_append_iff`). A place that a walk arrives at is reached directly along its own names (`Goes.canonical`). -/

namespace Runbook.Tree

open Text

variable {t : Tree} {here mid place place' : Place} {name : Text} {names names' rest : List Text} {node : Node}
  {k k' links : Nat} {target : Text}

/-- A walk from a place along names arrives at a place, and follows so many links. -/
inductive Goes (t : Tree) : Nat → Place → List Text → Place → Prop
  | done (here : Place) : Goes t 0 here [] here
  | stay {k : Nat} {here place : Place} {name : Text} {rest : List Text} (hdir : t.node? here = some .directory)
      (hname : name = [] ∨ name = ['.']) (h : Goes t k here rest place) : Goes t k here (name :: rest) place
  | up {k : Nat} {here place : Place} {rest : List Text} (hdir : t.node? here = some .directory)
      (h : Goes t k here.dropLast rest place) : Goes t k here (['.', '.'] :: rest) place
  | down {k : Nat} {here place : Place} {name : Text} {rest : List Text} {node : Node}
      (hdir : t.node? here = some .directory) (hname : IsOwnName name) (hlong : isTooLong name = false)
      (hnode : t.node? (here ++ [name]) = some node) (hlink : ∀ target, node ≠ .link target)
      (h : Goes t k (here ++ [name]) rest place) : Goes t k here (name :: rest) place
  | follow {k : Nat} {here place : Place} {name target : Text} {rest : List Text}
      (hdir : t.node? here = some .directory) (hname : IsOwnName name) (hlong : isTooLong name = false)
      (hnode : t.node? (here ++ [name]) = some (.link target))
      (h : Goes t k (startOf here target) (splitOn '/' target ++ rest) place) : Goes t (k + 1) here (name :: rest) place

theorem IsOwnName.of_not (hstay : ¬(name.isEmpty || name = ['.']) = true) (hup : name ≠ ['.', '.']) : IsOwnName name := by
  simp only [Bool.or_eq_true, List.isEmpty_iff, decide_eq_true_eq, not_or] at hstay
  exact ⟨hstay.1, hstay.2, hup⟩

theorem IsOwnName.moves (h : IsOwnName name) : ¬(name = [] ∨ name = ['.']) := not_or.mpr ⟨h.ne_nil, h.ne_dot⟩

theorem IsOwnName.not_stay (h : IsOwnName name) : ¬(name.isEmpty || name = ['.']) = true := by
  simp [h.ne_nil, h.ne_dot]

/-! ### Walks and their steps -/

theorem goes_of_walkWith {follow : Place → List Text → Text → Except FileError Place}
    (hfollow : ∀ here rest target place, follow here rest target = .ok place →
      ∃ k < links, Goes t k (startOf here target) (splitOn '/' target ++ rest) place)
    (h : t.walkWith follow here names = .ok place) : ∃ k ≤ links, Goes t k here names place := by
  fun_induction walkWith t follow here names with
  | case1 here =>
    cases h
    exact ⟨0, Nat.zero_le _, .done _⟩
  | case2 here name rest hdir hstay ih =>
    obtain ⟨k, hk, hgoes⟩ := ih h
    exact ⟨k, hk, .stay hdir (by simpa using hstay) hgoes⟩
  | case3 here rest hdir hstay ih =>
    obtain ⟨k, hk, hgoes⟩ := ih h
    exact ⟨k, hk, .up hdir hgoes⟩
  | case4 => cases h
  | case5 => cases h
  | case6 here name rest hdir hstay hup hlong target hlink =>
    obtain ⟨k, hk, hgoes⟩ := hfollow _ _ _ _ h
    exact ⟨k + 1, hk, .follow hdir (.of_not hstay hup) (by simpa using hlong) hlink hgoes⟩
  | case7 here name rest hdir hstay hup hlong node hnext hother ih =>
    obtain ⟨k, hk, hgoes⟩ := ih h
    refine ⟨k, hk, .down hdir (.of_not hstay hup) (by simpa using hlong) hother (fun target hlink => ?_) hgoes⟩
    exact hnext target hlink
  | case8 => cases h
  | case9 => cases h

theorem goes_of_walkFrom (h : t.walkFrom links here names = .ok place) : ∃ k ≤ links, Goes t k here names place := by
  induction links generalizing here names place with
  | zero => exact goes_of_walkWith (fun _ _ _ _ hfollow => by cases hfollow) h
  | succ links ih =>
    refine goes_of_walkWith (fun here rest target place hfollow => ?_) h
    obtain ⟨k, hk, hgoes⟩ := ih hfollow
    exact ⟨k, Nat.lt_succ_of_le hk, hgoes⟩

/-- What a walk does at a link depends on how many more it may follow; otherwise it goes on in the same way. -/
theorem walkFrom_eq_walkWith (t : Tree) (links : Nat) : ∃ follow, t.walkFrom links = t.walkWith follow ∧
    ∀ n, links = n + 1 → follow = fun here rest target => t.walkFrom n (startOf here target) (splitOn '/' target ++ rest) := by
  cases links with
  | zero => exact ⟨_, rfl, fun _ h => by cases h⟩
  | succ links => exact ⟨_, rfl, fun n h => by cases h; rfl⟩

theorem Goes.walkFrom (h : Goes t k here names place) (hk : k ≤ links) : t.walkFrom links here names = .ok place := by
  induction h generalizing links with
  | done => cases links <;> rfl
  | stay hdir hname _ ih =>
    obtain ⟨follow, hwalk, -⟩ := walkFrom_eq_walkWith t links
    rw [← ih hk, hwalk, walkWith, hdir]
    dsimp only
    rw [if_pos (by simpa using hname)]
  | up hdir _ ih =>
    obtain ⟨follow, hwalk, -⟩ := walkFrom_eq_walkWith t links
    rw [← ih hk, hwalk, walkWith, hdir]
    rfl
  | down hdir hname hlong hnode hlink _ ih =>
    obtain ⟨follow, hwalk, -⟩ := walkFrom_eq_walkWith t links
    rw [← ih hk, hwalk, walkWith, hdir]
    dsimp only
    rw [if_neg hname.not_stay, if_neg hname.ne_dots, if_neg (by simp [hlong]), hnode]
    rename_i node _
    cases node with
    | link target => exact absurd rfl (hlink target)
    | _ => rfl
  | follow hdir hname hlong hnode _ ih =>
    obtain ⟨n, rfl⟩ : ∃ n, links = n + 1 := ⟨links - 1, by omega⟩
    obtain ⟨follow, hwalk, hfollow⟩ := walkFrom_eq_walkWith t (n + 1)
    rw [← ih (Nat.le_of_succ_le_succ hk), hwalk, walkWith, hdir]
    dsimp only
    rw [if_neg hname.not_stay, if_neg hname.ne_dots, if_neg (by simp [hlong]), hnode, hfollow n rfl]

/-- A walk arrives if it may follow as many links as it needs. -/
theorem walkFrom_eq_ok_iff : t.walkFrom links here names = .ok place ↔ ∃ k ≤ links, Goes t k here names place :=
  ⟨goes_of_walkFrom, fun ⟨_, hk, h⟩ => h.walkFrom hk⟩

/-- A walk arrives at one place only, and by as many links. -/
theorem Goes.unique (h : Goes t k here names place) (h' : Goes t k' here names place') : k = k' ∧ place = place' := by
  induction h generalizing k' with
  | done =>
    cases h'
    exact ⟨rfl, rfl⟩
  | stay hdir hname _ ih =>
    cases h' with
    | stay _ _ h' => exact ih h'
    | up _ h' => rcases hname with hname | hname <;> cases hname
    | down _ hown => exact absurd hname hown.moves
    | follow _ hown => exact absurd hname hown.moves
  | up hdir _ ih =>
    cases h' with
    | stay _ hname h' => rcases hname with hname | hname <;> cases hname
    | up _ h' => exact ih h'
    | down _ hown => exact absurd rfl hown.ne_dots
    | follow _ hown => exact absurd rfl hown.ne_dots
  | down hdir hown hlong hnode hlink _ ih =>
    cases h' with
    | stay _ hname h' => exact absurd hname hown.moves
    | up _ h' => exact absurd rfl hown.ne_dots
    | down _ _ _ _ _ h' => exact ih h'
    | follow _ _ _ hnode' h' =>
      rw [hnode] at hnode'
      exact absurd (Option.some.inj hnode') (hlink _)
  | follow hdir hown hlong hnode _ ih =>
    cases h' with
    | stay _ hname h' => exact absurd hname hown.moves
    | up _ h' => exact absurd rfl hown.ne_dots
    | down _ _ _ hnode' hlink h' =>
      rw [hnode] at hnode'
      exact absurd (Option.some.inj hnode').symm (hlink _)
    | follow _ _ _ hnode' h' =>
      rw [hnode] at hnode'
      obtain rfl : _ = _ := Node.link.inj (Option.some.inj hnode')
      obtain ⟨rfl, rfl⟩ := ih h'
      exact ⟨rfl, rfl⟩

/-! ### Walks in a row -/

theorem Goes.append (h : Goes t k here names mid) (h' : Goes t k' mid names' place) :
    Goes t (k + k') here (names ++ names') place := by
  induction h with
  | done => rwa [Nat.zero_add]
  | stay hdir hname _ ih => exact .stay hdir hname (ih h')
  | up hdir _ ih => exact .up hdir (ih h')
  | down hdir hname hlong hnode hlink _ ih => exact .down hdir hname hlong hnode hlink (ih h')
  | follow hdir hname hlong hnode _ ih =>
    rw [Nat.succ_add]
    refine .follow hdir hname hlong hnode ?_
    show Goes t _ _ (_ ++ (_ ++ names')) _
    rw [← List.append_assoc]
    exact ih h'

/-- A walk along names and more names is one along the names and then one along the others. -/
theorem goes_append_iff : Goes t k here (names ++ names') place ↔
    ∃ k₁ k₂ mid, k = k₁ + k₂ ∧ Goes t k₁ here names mid ∧ Goes t k₂ mid names' place := by
  refine ⟨fun h => ?_, ?_⟩
  · generalize hall : names ++ names' = all at h
    induction h generalizing names with
    | done here =>
      obtain ⟨rfl, rfl⟩ := List.append_eq_nil_iff.mp hall
      exact ⟨0, 0, here, rfl, .done here, .done here⟩
    | stay hdir hname h ih =>
      rcases List.append_eq_cons_iff.mp hall with ⟨rfl, rfl⟩ | ⟨names, rfl, hrest⟩
      · exact ⟨0, _, _, (Nat.zero_add _).symm, .done _, .stay hdir hname h⟩
      · obtain ⟨k₁, k₂, mid, hk, h₁, h₂⟩ := ih hrest.symm
        exact ⟨k₁, k₂, mid, hk, .stay hdir hname h₁, h₂⟩
    | up hdir h ih =>
      rcases List.append_eq_cons_iff.mp hall with ⟨rfl, rfl⟩ | ⟨names, rfl, hrest⟩
      · exact ⟨0, _, _, (Nat.zero_add _).symm, .done _, .up hdir h⟩
      · obtain ⟨k₁, k₂, mid, hk, h₁, h₂⟩ := ih hrest.symm
        exact ⟨k₁, k₂, mid, hk, .up hdir h₁, h₂⟩
    | down hdir hname hlong hnode hlink h ih =>
      rcases List.append_eq_cons_iff.mp hall with ⟨rfl, rfl⟩ | ⟨names, rfl, hrest⟩
      · exact ⟨0, _, _, (Nat.zero_add _).symm, .done _, .down hdir hname hlong hnode hlink h⟩
      · obtain ⟨k₁, k₂, mid, hk, h₁, h₂⟩ := ih hrest.symm
        exact ⟨k₁, k₂, mid, hk, .down hdir hname hlong hnode hlink h₁, h₂⟩
    | follow hdir hname hlong hnode h ih =>
      rcases List.append_eq_cons_iff.mp hall with ⟨rfl, rfl⟩ | ⟨names, rfl, hrest⟩
      · exact ⟨0, _, _, (Nat.zero_add _).symm, .done _, .follow hdir hname hlong hnode h⟩
      · obtain ⟨k₁, k₂, mid, hk, h₁, h₂⟩ := ih (by rw [hrest, List.append_assoc])
        exact ⟨k₁ + 1, k₂, mid, by omega, .follow hdir hname hlong hnode h₁, h₂⟩
  · rintro ⟨k₁, k₂, mid, rfl, h₁, h₂⟩
    exact h₁.append h₂

/-- A walk along one more name goes to where the names lead first. -/
theorem goes_concat_iff : Goes t k here (names ++ [name]) place ↔
    ∃ k₁ k₂ mid, k = k₁ + k₂ ∧ Goes t k₁ here names mid ∧ Goes t k₂ mid [name] place := goes_append_iff

theorem goes_up_iff : Goes t k here [['.', '.']] place ↔
    k = 0 ∧ t.node? here = some .directory ∧ place = here.dropLast := by
  constructor
  · intro h
    cases h with
    | stay _ hname => rcases hname with hname | hname <;> cases hname
    | up hdir h =>
      cases h
      exact ⟨rfl, hdir, rfl⟩
    | down _ hown => exact absurd rfl hown.ne_dots
    | follow _ hown => exact absurd rfl hown.ne_dots
  · rintro ⟨rfl, hdir, rfl⟩
    exact .up hdir (.done _)

/-- A walk along a name of its own starts in a directory that has something of the name. -/
theorem Goes.next (hown : IsOwnName name) (h : Goes t k here (name :: rest) place) :
    t.node? here = some .directory ∧ isTooLong name = false ∧ ∃ node, t.node? (here ++ [name]) = some node ∧
      ((∀ target, node ≠ .link target) → Goes t k (here ++ [name]) rest place) := by
  cases h with
  | stay _ hname => exact absurd hname hown.moves
  | up => exact absurd rfl hown.ne_dots
  | down hdir _ hlong hnode _ h => exact ⟨hdir, hlong, _, hnode, fun _ => h⟩
  | follow hdir _ hlong hnode _ => exact ⟨hdir, hlong, _, hnode, fun hlink => absurd rfl (hlink _)⟩

/-! ### Places as paths -/

/-- A place is reached directly along its own names. -/
structure Canonical (t : Tree) (here : Place) : Prop where
  names : ∀ name ∈ here, IsOwnName name
  goes : Goes t 0 [] here here

theorem canonical_nil (t : Tree) : Canonical t [] := ⟨fun _ h => (List.not_mem_nil h).elim, .done []⟩

theorem Canonical.child (h : Canonical t here) (hdir : t.node? here = some .directory) (hname : IsOwnName name)
    (hlong : isTooLong name = false) (hnode : t.node? (here ++ [name]) = some node)
    (hlink : ∀ target, node ≠ .link target) : Canonical t (here ++ [name]) where
  names next hnext := by
    rcases List.mem_append.mp hnext with hnext | hnext
    · exact h.names next hnext
    · rwa [List.mem_singleton.mp hnext]
  goes := h.goes.append (.down hdir hname hlong hnode hlink (.done _))

theorem Canonical.parent (h : Canonical t here) : Canonical t here.dropLast := by
  rcases List.eq_nil_or_concat here with rfl | ⟨above, name, rfl⟩
  · exact canonical_nil t
  · rw [List.concat_eq_append] at h ⊢
    rw [List.dropLast_concat]
    obtain ⟨k₁, k₂, mid, hk, habove, hlast⟩ := goes_concat_iff.mp h.goes
    obtain ⟨rfl, rfl⟩ : k₁ = 0 ∧ k₂ = 0 := by omega
    have hown := h.names name (List.mem_append_right _ (List.mem_singleton_self name))
    cases hlast with
    | stay _ hname => exact absurd hname hown.moves
    | up => exact absurd rfl hown.ne_dots
    | down _ _ _ _ _ hrest =>
      -- Without a link the last step goes to the name itself, so that the walk before it is at what is above.
      generalize hplace : mid ++ [name] = there at hrest
      cases hrest
      obtain ⟨rfl, -⟩ := List.append_inj' hplace rfl
      exact ⟨fun name hname => h.names name (List.mem_append_left _ hname), habove⟩

theorem Canonical.startOf (h : Canonical t here) (target : Text) : Canonical t (startOf here target) := by
  unfold Tree.startOf
  split
  · exact canonical_nil t
  · exact h

/-- Where a walk arrives is reached directly along its own names if it began at such a place. -/
theorem Goes.canonical (h : Goes t k here names place) (hhere : Canonical t here) : Canonical t place := by
  induction h with
  | done => exact hhere
  | stay _ _ _ ih => exact ih hhere
  | up _ _ ih => exact ih hhere.parent
  | down hdir hname hlong hnode hlink _ ih => exact ih (hhere.child hdir hname hlong hnode hlink)
  | follow _ _ _ _ _ ih => exact ih (hhere.startOf _)

/-- The place a path leads to is itself reached directly. -/
theorem canonical_of_walk {p : Path} (h : t.walk p = .ok place) : Canonical t place := by
  obtain ⟨k, -, hgoes⟩ := walkFrom_eq_ok_iff.mp h
  exact hgoes.canonical (canonical_nil t)

end Runbook.Tree
