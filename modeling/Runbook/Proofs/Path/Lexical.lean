import Runbook.Proofs.Path.Written
import Runbook.Proofs.Tree.Linkless
import Runbook.Proofs.Tree.Walks
import Mathlib.Data.List.Infix

/-! # Taking `..` back by name

Taking `..` back with the name before it, without looking at any file, is right as long as no link stands where the names
before it lead (`Tree.NoLinkTakenBack`): then the path that is made absolute by name leads where the path itself leads
(`Files.stat_absolute`). -/

namespace Runbook

variable {t : Tree} {place : Place} {names : List Text} {k : Nat} {files files' : Files} {p q : Path} {node : Node}
  {path : Text}

namespace Tree

/-- Whether a link stands at the place a path names. -/
def namesLink (t : Tree) (p : Path) : Bool :=
  match t.locate p with
  | .error _ => false
  | .ok place => (t.node? place).any Node.isLink

/-- Wherever names go back by `..`, what the names before it come to is no link. -/
def NoLinkTakenBack (t : Tree) (names : List Text) : Prop :=
  ∀ done, done ++ [['.', '.']] <+: names → t.namesLink ⟨.root, done.foldl (Path.collapseStep true) []⟩ = false

instance (t : Tree) (names : List Text) : Decidable (t.NoLinkTakenBack names) :=
  decidable_of_iff (∀ done ∈ names.inits, done ++ [['.', '.']] <+: names →
      t.namesLink ⟨.root, done.foldl (Path.collapseStep true) []⟩ = false)
    ⟨fun h done hdone => h done ((List.mem_inits done names).mpr ((List.prefix_append _ _).trans hdone)) hdone,
      fun h done _ => h done⟩

theorem NoLinkTakenBack.mono {names' : List Text} (h : t.NoLinkTakenBack names) (hnames : names' <+: names) :
    t.NoLinkTakenBack names' := fun done hdone => h done (hdone.trans hnames)

/-- Where no link stands, none is taken back. -/
theorem Linkless.noLinkTakenBack (h : t.Linkless) (names : List Text) : t.NoLinkTakenBack names := by
  intro done _
  unfold namesLink
  split
  · rfl
  · rename_i place _
    cases hnode : t.node? place with
    | none => rfl
    | some node =>
      cases node with
      | link target => exact absurd hnode (h place target)
      | _ => rfl

/-- No `..` is left when it is taken back from the root on. -/
theorem isOwnName_of_mem_collapse (hnames : ∀ name ∈ names, name ≠ [] ∧ name ≠ ['.']) :
    ∀ name ∈ names.foldl (Path.collapseStep true) [], IsOwnName name := by
  induction names using List.reverseRecOn with
  | nil => simp
  | append_singleton names last ih =>
    have ih := ih fun name hname => hnames name (List.mem_append_left _ hname)
    obtain ⟨hne, hdot⟩ := hnames last (List.mem_append_right _ (List.mem_singleton_self last))
    rw [List.foldl_concat]
    by_cases hup : last = ['.', '.']
    · rw [hup, collapseStep_up fun hmem => (ih _ hmem).ne_dots rfl]
      exact fun name hname => ih name (List.dropLast_subset _ hname)
    · rw [collapseStep_down hup]
      intro name hname
      rcases List.mem_append.mp hname with hname | hname
      · exact ih name hname
      · rw [List.mem_singleton.mp hname]
        exact ⟨hne, hdot, hup⟩

/-- A walk from the root arrives at the same place along the names in which `..` has been taken back. -/
theorem Goes.collapse (h : Goes t k [] names place) (hk : k ≤ maxLinks) (hback : t.NoLinkTakenBack names)
    (hnames : ∀ name ∈ names, name ≠ [] ∧ name ≠ ['.']) :
    ∃ k' ≤ k, Goes t k' [] (names.foldl (Path.collapseStep true) []) place := by
  induction names using List.reverseRecOn generalizing k place with
  | nil => exact ⟨k, Nat.le_refl k, h⟩
  | append_singleton names last ih =>
    have hbefore : ∀ name ∈ names, name ≠ [] ∧ name ≠ ['.'] := fun name hname => hnames name (List.mem_append_left _ hname)
    obtain ⟨k₁, k₂, mid, rfl, hfirst, hlast⟩ := goes_concat_iff.mp h
    obtain ⟨k', hk', hcollapsed⟩ := ih hfirst (by omega) (hback.mono (List.prefix_append names [last])) hbefore
    have hown := isOwnName_of_mem_collapse hbefore
    rw [List.foldl_concat]
    by_cases hup : last = ['.', '.']
    · subst hup
      obtain ⟨rfl, -, rfl⟩ := goes_up_iff.mp hlast
      have hnolink := hback names List.prefix_rfl
      rw [collapseStep_up fun hmem => (hown _ hmem).ne_dots rfl]
      generalize names.foldl (Path.collapseStep true) [] = done at hcollapsed hown hnolink ⊢
      rcases List.eq_nil_or_concat done with rfl | ⟨above, name, rfl⟩
      · cases hcollapsed
        exact ⟨0, Nat.zero_le _, .done []⟩
      · rw [List.concat_eq_append] at hcollapsed hown hnolink ⊢
        rw [List.dropLast_concat]
        have hname := hown name (List.mem_append_right _ (List.mem_singleton_self name))
        obtain ⟨a, b, here, hab, habove, hstep⟩ := goes_concat_iff.mp hcollapsed
        obtain ⟨hdir, hlong, node, hnode, hgoes⟩ := hstep.next hname
        have hplace : t.locate ⟨.root, above ++ [name]⟩ = .ok (here ++ [name]) :=
          (locate_child_eq_ok_iff (p := ⟨.root, above⟩) hname.ne_dots).mpr
            ⟨hlong, here, directory_eq_ok_iff.mpr ⟨habove.walkFrom (by omega), hdir⟩, rfl⟩
        -- The name leads to what stands there itself, so that going back leads above it again.
        have hrest := hgoes fun target hlink => by
          rw [namesLink, hplace] at hnolink
          simp [hnode, hlink, Node.isLink] at hnolink
        generalize hthere : here ++ [name] = there at hrest
        cases hrest
        rw [← hthere, List.dropLast_concat]
        exact ⟨a, by omega, habove⟩
    · rw [collapseStep_down hup]
      exact ⟨k' + k₂, by omega, hcollapsed.append hlast⟩

theorem walk_collapse (h : t.walk p = .ok place) (hback : t.NoLinkTakenBack p.names) (hp : p.Proper)
    (ha : p.isAbsolute = true) : t.walk p.collapse = .ok place := by
  obtain ⟨k, hk, hgoes⟩ := walkFrom_eq_ok_iff.mp h
  obtain ⟨k', hk', hcollapsed⟩ := hgoes.collapse hk hback fun name hname => ⟨(hp name hname).1, (hp name hname).2.1⟩
  rw [← ha] at hcollapsed
  exact hcollapsed.walkFrom (hk'.trans hk)

end Tree

namespace Files

/-- A path that is made absolute by name leads where the path leads, if no `..` on it takes a link back and it can be
    looked up. -/
theorem stat_absolute (ha : files.cwd.isAbsolute = true) (hcwd : files.cwd.Proper) (hp : p.Proper)
    (hback : files.tree.NoLinkTakenBack (files.cwd.join p).names) (hreach : files.reach (files.absolute p) = .ok q)
    (h : files.stat p = .ok (place, node)) : files.stat (files.absolute p) = .ok (place, node) := by
  obtain ⟨hwalk, hnode⟩ := stat_eq_ok h
  have hjoin : (files.cwd.join p).isAbsolute = true := Path.join_isAbsolute ha p
  have hq : q = files.absolute p := by
    rw [reach_eq_ok hreach, Path.join, if_pos (show (files.absolute p).isAbsolute = true from hjoin)]
  subst hq
  rw [Files.stat, hreach]
  dsimp only
  rw [Tree.stat, show files.tree.walk (files.absolute p) = .ok place from
    Tree.walk_collapse hwalk hback (hcwd.join hp) hjoin]
  dsimp only
  rw [hnode]

theorem Linkless.of_like (h : files.Linkless) (hlike : files.Like files') : files'.Linkless where
  tree place target hlink := h.tree place target (hlike.tree.link_iff.mp hlink)
  isAbsolute := hlike.cwd ▸ h.isAbsolute
  proper := hlike.cwd ▸ h.proper

/-- Without links, a file that is read is there under its absolute path, however long that is. -/
theorem Linkless.stat_of_opens (h : files.Linkless) (hopens : files.Opens path) : ∃ content mode,
    files.tree.stat (Path.ofText path) = .ok ((Path.ofText path).names, .file content mode) := by
  obtain ⟨p, hp, hfile, rfl⟩ := hopens
  obtain ⟨place, content, mode, hstat⟩ := isFile_eq_ok_true hfile
  obtain ⟨rfl, hnode⟩ := h.stat_place hp hstat
  have hwalk : files.tree.walk (files.absolute p) = .ok (files.absolute p).names :=
    Tree.walk_collapse (stat_eq_ok hstat).1 (h.tree.noLinkTakenBack _) (h.proper.join hp) (h.join_isAbsolute p)
  refine ⟨content, mode, ?_⟩
  rw [h.ofText_absolute hp, Tree.stat, hwalk]
  dsimp only
  rw [hnode]

end Files

end Runbook
