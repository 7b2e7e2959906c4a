import Runbook.Proofs.Path.Resolution

/-! # Trees that grow

What a path names in a tree it names in a larger one as well (`Grows.locate`), and a path that names a place leads to what
stands there (`stat_child`). Trees that agree up to a file that is written to are told apart by nothing but its content
(`Agrees`). -/

namespace Runbook

variable {t t' t'' : Tree} {here above place q : Place} {names : List Text} {name : Text} {node : Node} {p : Path}
  {log log' : Option Place}

namespace Tree

/-- What stands in the first tree stands in the second one. -/
def Grows (t t' : Tree) : Prop := ∀ place node, t.node? place = some node → t'.node? place = some node

namespace Grows

theorem trans (h : Grows t t') (h' : Grows t' t'') : Grows t t'' := fun place node hn => h' place node (h place node hn)

theorem set (h : t.node? place = none) (node : Node) : Grows t (t.set place node) := by
  intro q n hn
  cases q with
  | nil => exact hn
  | cons name rest =>
    rw [node?_set t place _ node (List.cons_ne_nil _ _), if_neg ?_, hn]
    rintro rfl
    rw [h] at hn
    cases hn

theorem erase (t : Tree) (place : Place) : Grows (t.erase place) t := by
  intro q n hn
  cases q with
  | nil => exact hn
  | cons name rest =>
    rw [node?_erase t place _ (List.cons_ne_nil _ _)] at hn
    split at hn
    · cases hn
    · exact hn

theorem none_of_none (h : Grows t t') (hnone : t'.node? place = none) : t.node? place = none := by
  cases hn : t.node? place with
  | none => rfl
  | some n =>
    rw [h place n hn] at hnone
    cases hnone

theorem walkWith (h : Grows t t') {follow follow' : Place → List Text → Text → Except FileError Place}
    (hfollow : ∀ here rest target place, follow here rest target = .ok place → follow' here rest target = .ok place)
    (hwalk : t.walkWith follow here names = .ok place) : t'.walkWith follow' here names = .ok place := by
  fun_induction Tree.walkWith t follow here names with
  | case1 here =>
    cases hwalk
    rfl
  | case2 here name rest hdir hstay ih => simpa [Tree.walkWith, h _ _ hdir, hstay] using ih hwalk
  | case3 here rest hdir hstay ih => simpa [Tree.walkWith, h _ _ hdir] using ih hwalk
  | case4 => cases hwalk
  | case5 => cases hwalk
  | case6 here name rest hdir hstay hup hlong target hlink =>
    simpa [Tree.walkWith, h _ _ hdir, hstay, hup, hlong, h _ _ hlink] using hfollow _ _ _ _ hwalk
  | case7 here name rest hdir hstay hup hlong node hnext hother ih =>
    cases node with
    | link target => exact absurd rfl (hnext target)
    | _ => simpa [Tree.walkWith, h _ _ hdir, hstay, hup, hlong, h _ _ hother] using ih hwalk
  | case8 => cases hwalk
  | case9 => cases hwalk

theorem walkFrom (h : Grows t t') {links : Nat} (hwalk : t.walkFrom links here names = .ok place) :
    t'.walkFrom links here names = .ok place := by
  induction links generalizing here names place with
  | zero => exact h.walkWith (fun _ _ _ _ hfollow => by cases hfollow) hwalk
  | succ links ih => exact h.walkWith (fun _ _ _ _ hfollow => ih hfollow) hwalk

end Grows

/-- A directory that is walked to is one. -/
theorem directory_eq_ok_iff : t.directory here names = .ok place ↔
    t.walkFrom maxLinks here names = .ok place ∧ t.node? place = some .directory := by
  unfold directory
  cases t.walkFrom maxLinks here names with
  | error e => simp
  | ok q =>
    dsimp only
    constructor
    · intro h
      split at h <;> cases h
      exact ⟨rfl, ‹_›⟩
    · rintro ⟨hq, hdir⟩
      cases hq
      rw [hdir]

theorem Grows.directory (h : Grows t t') (hdir : t.directory here names = .ok place) :
    t'.directory here names = .ok place :=
  directory_eq_ok_iff.mpr ((directory_eq_ok_iff.mp hdir).imp h.walkFrom (h _ _))

theorem Grows.locate (h : Grows t t') (hlocate : t.locate p = .ok place) : t'.locate p = .ok place := by
  unfold Tree.locate at hlocate ⊢
  cases hlast : p.names.getLast? with
  | none => rwa [hlast] at hlocate
  | some name =>
    rw [hlast] at hlocate
    cases hdir : t.directory [] p.names.dropLast with
    | error e =>
      simp only [hdir] at hlocate
      cases hlocate
    | ok above =>
      simp only [hdir] at hlocate
      simp only [h.directory hdir]
      exact hlocate

/-! ### A name further -/

/-- The path one name further names what has this name in the directory the path leads to. -/
theorem locate_child (hup : name ≠ ['.', '.']) (p : Path) : t.locate (p.child name) =
    match t.directory [] p.names with
    | .error e => .error e
    | .ok above => if isTooLong name then .error .nameTooLong else .ok (above ++ [name]) := by
  cases hdirectory : t.directory [] p.names with
  | error e => simp [Path.child, locate, hdirectory]
  | ok above => simp [Path.child, locate, hup, hdirectory]

theorem locate_child_eq_ok_iff (hup : name ≠ ['.', '.']) : t.locate (p.child name) = .ok place ↔
    isTooLong name = false ∧ ∃ above, t.directory [] p.names = .ok above ∧ place = above ++ [name] := by
  rw [locate_child hup]
  cases t.directory [] p.names with
  | error e => simp
  | ok above =>
    cases isTooLong name <;> simp [eq_comm]

/-- A name that stands for something in a directory, and not for the directory itself or the one above. -/
structure IsOwnName (name : Text) : Prop where
  ne_nil : name ≠ []
  ne_dot : name ≠ ['.']
  ne_dots : name ≠ ['.', '.']

theorem walkWith_concat (hname : IsOwnName name) (hlong : isTooLong name = false)
    (habove : t.node? above = some .directory) (hnode : t.node? (above ++ [name]) = some node)
    (hlink : ∀ target, node ≠ .link target) {follow follow' : Place → List Text → Text → Except FileError Place}
    (hfollow : ∀ here rest target, follow here rest target = .ok above →
      follow' here (rest ++ [name]) target = .ok (above ++ [name]))
    (hwalk : t.walkWith follow here names = .ok above) :
    t.walkWith follow' here (names ++ [name]) = .ok (above ++ [name]) := by
  fun_induction Tree.walkWith t follow here names with
  | case1 here =>
    cases hwalk
    cases node with
    | link target => exact absurd rfl (hlink target)
    | _ => simp [walkWith, habove, hname.ne_nil, hname.ne_dot, hname.ne_dots, hlong, hnode]
  | case2 here name' rest hdir hstay ih => simpa [Tree.walkWith, hdir, hstay] using ih hwalk
  | case3 here rest hdir hstay ih => simpa [Tree.walkWith, hdir] using ih hwalk
  | case4 => cases hwalk
  | case5 => cases hwalk
  | case6 here name' rest hdir hstay hup hlong' target hlink' =>
    simpa [Tree.walkWith, hdir, hstay, hup, hlong', hlink'] using hfollow _ _ _ hwalk
  | case7 here name' rest hdir hstay hup hlong' node' hnext hother ih =>
    cases node' with
    | link target => exact absurd rfl (hnext target)
    | _ => simpa [Tree.walkWith, hdir, hstay, hup, hlong', hother] using ih hwalk
  | case8 => cases hwalk
  | case9 => cases hwalk

theorem walkFrom_concat (hname : IsOwnName name) (hlong : isTooLong name = false)
    (habove : t.node? above = some .directory) (hnode : t.node? (above ++ [name]) = some node)
    (hlink : ∀ target, node ≠ .link target) {links : Nat} (hwalk : t.walkFrom links here names = .ok above) :
    t.walkFrom links here (names ++ [name]) = .ok (above ++ [name]) := by
  induction links generalizing here names with
  | zero => exact walkWith_concat hname hlong habove hnode hlink (fun _ _ _ hfollow => by cases hfollow) hwalk
  | succ links ih =>
    refine walkWith_concat hname hlong habove hnode hlink (fun here rest target hfollow => ?_) hwalk
    rw [← List.append_assoc]
    exact ih hfollow

/-- A path leads to what stands at the place it names, unless that is a link. -/
theorem stat_child (hname : IsOwnName name) (hlocate : t.locate (p.child name) = .ok place)
    (hnode : t.node? place = some node) (hlink : ∀ target, node ≠ .link target) :
    t.stat (p.child name) = .ok (place, node) := by
  obtain ⟨hlong, above, hdir, rfl⟩ := (locate_child_eq_ok_iff hname.ne_dots).mp hlocate
  obtain ⟨hwalk, habove⟩ := directory_eq_ok_iff.mp hdir
  have harrives : t.walk (p.child name) = .ok (above ++ [name]) :=
    walkFrom_concat hname hlong habove hnode hlink hwalk
  rw [stat, harrives]
  dsimp only
  rw [hnode]

/-! ### Trees that agree -/

/-- The trees agree up to the content of the file at a place, if there is such a place. -/
structure Agrees (log : Option Place) (t t' : Tree) : Prop where
  like : Like t t'
  node : ∀ place, log ≠ some place → t'.node? place = t.node? place

namespace Agrees

theorem refl (log : Option Place) (t : Tree) : Agrees log t t := ⟨.refl t, fun _ _ => rfl⟩

theorem trans (h : Agrees log t t') (h' : Agrees log t' t'') : Agrees log t t'' :=
  ⟨h.like.trans h'.like, fun place hplace => (h'.node place hplace).trans (h.node place hplace)⟩

theorem mono (h : Agrees log t t') (hlog : ∀ place, log = some place → log' = some place) : Agrees log' t t' :=
  ⟨h.like, fun _ hplace => h.node _ fun hsame => hplace (hlog _ hsame)⟩

theorem journal (j : Journal) (t : Tree) (new : List UInt8) : Agrees (some j.place) t (j.write t new) :=
  ⟨.journal j t new, fun _ hplace => Like.journal_node? j t new fun hsame => hplace (congrArg some hsame.symm)⟩

theorem of_node (h : ∀ place, t'.node? place = t.node? place) : Agrees log t t' :=
  ⟨fun place => congrArg _ (h place), fun place _ => h place⟩

theorem erase (h : Agrees log t t') (place : Place) : Agrees log (t.erase place) (t'.erase place) := by
  refine ⟨fun q => ?_, fun q hq => ?_⟩
  · cases q with
    | nil => rfl
    | cons name rest =>
      rw [node?_erase _ _ _ (List.cons_ne_nil _ _), node?_erase _ _ _ (List.cons_ne_nil _ _)]
      split
      · rfl
      · exact h.like _
  · cases q with
    | nil => rfl
    | cons name rest =>
      rw [node?_erase _ _ _ (List.cons_ne_nil _ _), node?_erase _ _ _ (List.cons_ne_nil _ _)]
      split
      · rfl
      · exact h.node _ hq

end Agrees

/-- To take away what is not there changes nothing. -/
theorem node?_erase_of_none (h : t.node? place = none) (q : Place) : (t.erase place).node? q = t.node? q := by
  cases q with
  | nil => rfl
  | cons name rest =>
    rw [node?_erase _ _ _ (List.cons_ne_nil _ _)]
    split
    · rename_i heq
      rw [heq, h]
    · rfl

/-- What has been put where nothing stood and is taken away again leaves nothing behind. -/
theorem node?_set_erase (h : t.node? place = none) (node : Node) (q : Place) :
    ((t.set place node).erase place).node? q = t.node? q := by
  cases q with
  | nil => rfl
  | cons name rest =>
    rw [node?_erase _ _ _ (List.cons_ne_nil _ _), node?_set _ _ _ _ (List.cons_ne_nil _ _)]
    split
    · rename_i heq
      rw [heq, h]
    · rfl

end Tree

end Runbook
