import Runbook.Proofs.Path.Written
import Runbook.Proofs.Tree.Nodes
import Runbook.Include
import Mathlib.Data.List.Dedup

/-! # Trees without links

Without links a walk arrives where its names say, `..` taken back (`Linkless.walk_place`). So a file has two absolute
paths at most, with one slash at the beginning and with two (`length_le_of_opens`). -/

namespace Runbook

variable {t : Tree} {here place : Place} {names stack : List Text} {name : Text} {node : Node} {files : Files}
  {p : Path}

namespace Tree

/-- No link stands in the tree. -/
def Linkless (t : Tree) : Prop := ∀ place target, t.node? place ≠ some (.link target)

theorem linkless_of_entries (h : ∀ e ∈ t.entries, e.2.isLink = false) : t.Linkless := by
  intro place target hlink
  have hne : place ≠ [] := by
    rintro rfl
    cases hlink
  rw [node?_of_ne_nil hne] at hlink
  cases h _ (mem_of_lookup hlink)

theorem collapseStep_up (h : ['.', '.'] ∉ here) : Path.collapseStep true here ['.', '.'] = here.dropLast := by
  unfold Path.collapseStep
  rw [if_pos rfl]
  cases hlast : here.getLast? with
  | none =>
    rw [List.getLast?_eq_none_iff] at hlast
    rw [hlast]
    rfl
  | some last =>
    have hne : last ≠ ['.', '.'] := by
      rintro rfl
      exact h (List.mem_of_getLast? hlast)
    simp [hne]

theorem collapseStep_down (h : name ≠ ['.', '.']) : Path.collapseStep true here name = here ++ [name] := by
  rw [Path.collapseStep, if_neg h]

theorem Linkless.walkWith_place (ht : t.Linkless) {follow : Place → List Text → Text → Except FileError Place}
    (hhere : ['.', '.'] ∉ here) (hnames : ∀ name ∈ names, name ≠ [] ∧ name ≠ ['.'])
    (h : t.walkWith follow here names = .ok place) : place = names.foldl (Path.collapseStep true) here := by
  fun_induction walkWith t follow here names with
  | case1 here =>
    cases h
    rfl
  | case2 here name rest hnode hstay =>
    obtain ⟨hne, hdot⟩ := hnames name List.mem_cons_self
    simp [hne, hdot] at hstay
  | case3 here rest hnode hstay ih =>
    rw [List.foldl_cons, collapseStep_up hhere]
    exact ih (fun hmem => hhere (List.dropLast_subset _ hmem)) (fun name hname => hnames name (.tail _ hname)) h
  | case4 => cases h
  | case5 => cases h
  | case6 here name rest hnode hstay hup hlong target hlink => exact absurd hlink (ht _ _)
  | case7 here name rest hnode hstay hup hlong node hnext hother ih =>
    rw [List.foldl_cons, collapseStep_down hup]
    refine ih (fun hmem => ?_) (fun name hname => hnames name (.tail _ hname)) h
    rcases List.mem_append.mp hmem with hmem | hmem
    · exact hhere hmem
    · exact hup (List.mem_singleton.mp hmem).symm
  | case8 => cases h
  | case9 => cases h

/-- A walk arrives where the names say. -/
theorem Linkless.walk_place (ht : t.Linkless) (hp : p.Proper) (h : t.walk p = .ok place) :
    place = p.names.foldl (Path.collapseStep true) [] :=
  ht.walkWith_place List.not_mem_nil (fun name hname => ⟨(hp name hname).1, (hp name hname).2.1⟩) h

/-- The places of the regular files. -/
def regular (t : Tree) : List Place :=
  (t.entries.map Prod.fst).dedup.filter fun place => (t.node? place).any Node.isFile

theorem mem_regular (h : t.node? place = some node) (hfile : node.isFile = true) : place ∈ t.regular := by
  refine List.mem_filter.mpr ⟨List.mem_dedup.mpr ?_, by simpa [h] using hfile⟩
  have hne : place ≠ [] := by
    rintro rfl
    cases h
    cases hfile
  rw [node?_of_ne_nil hne] at h
  exact List.mem_map.mpr ⟨(place, node), mem_of_lookup h, rfl⟩

theorem length_regular_le (t : Tree) : t.regular.length ≤ t.entries.length :=
  calc t.regular.length ≤ (t.entries.map Prod.fst).dedup.length := List.length_filter_le _ _
    _ ≤ (t.entries.map Prod.fst).length := (List.dedup_sublist _).length_le
    _ = t.entries.length := List.length_map _

end Tree

namespace Files

/-- A process sees no links, from a directory whose path is absolute. -/
structure Linkless (files : Files) : Prop where
  tree : files.tree.Linkless
  isAbsolute : files.cwd.isAbsolute = true
  proper : files.cwd.Proper

theorem Linkless.join_isAbsolute (h : files.Linkless) (p : Path) : (files.cwd.join p).isAbsolute = true :=
  Path.join_isAbsolute h.isAbsolute p

theorem Linkless.absolute_isAbsolute (h : files.Linkless) (p : Path) : (files.absolute p).isAbsolute = true :=
  h.join_isAbsolute p

theorem Linkless.absolute_proper (h : files.Linkless) (hp : p.Proper) : (files.absolute p).Proper :=
  (h.proper.join hp).collapse

theorem Linkless.ofText_absolute (h : files.Linkless) (hp : p.Proper) :
    Path.ofText (files.absolute p).toText = files.absolute p :=
  Path.ofText_toText (h.absolute_proper hp) (h.absolute_isAbsolute p)

/-- What a path leads to stands where its absolute path says. -/
theorem Linkless.stat_place (h : files.Linkless) (hp : p.Proper) (hstat : files.stat p = .ok (place, node)) :
    place = (files.absolute p).names ∧ files.tree.node? (files.absolute p).names = some node := by
  obtain ⟨hwalk, hnode⟩ := stat_eq_ok hstat
  have hplace : place = (files.absolute p).names := by
    rw [h.tree.walk_place (h.proper.join hp) hwalk, absolute, Path.absolute, Path.collapse, h.join_isAbsolute]
  exact ⟨hplace, hplace ▸ hnode⟩

/-- A file is read under the absolute path. -/
def Opens (files : Files) (path : Text) : Prop :=
  ∃ p : Path, p.Proper ∧ files.isFile p = .ok true ∧ path = (files.absolute p).toText

/-- The texts of the absolute paths of regular files. -/
def spellings (files : Files) : List Text :=
  files.tree.regular.flatMap fun place => [Path.toText ⟨.root, place⟩, Path.toText ⟨.doubled, place⟩]

theorem length_spellings (files : Files) : files.spellings.length = 2 * files.tree.regular.length := by
  rw [spellings, List.length_flatMap]
  simp [Nat.mul_comm]

theorem Linkless.mem_spellings (h : files.Linkless) {path : Text} (hopens : files.Opens path) :
    path ∈ files.spellings := by
  obtain ⟨p, hp, hfile, rfl⟩ := hopens
  obtain ⟨place, content, mode, hstat⟩ := isFile_eq_ok_true hfile
  have hmem : (files.absolute p).names ∈ files.tree.regular := Tree.mem_regular (h.stat_place hp hstat).2 rfl
  -- The path is that of a place where a file stands, with one slash at the beginning or with two.
  refine List.mem_flatMap.mpr ⟨_, hmem, ?_⟩
  have habsolute := h.absolute_isAbsolute p
  generalize files.absolute p = q at habsolute
  obtain ⟨anchor, names⟩ := q
  cases anchor with
  | relative => cases habsolute
  | root => exact List.mem_cons_self
  | doubled => exact List.mem_cons_of_mem _ List.mem_cons_self

/-- Files that are read under different absolute paths are at most twice as many as there are regular files. -/
theorem Linkless.length_le_of_opens (h : files.Linkless) (hnodup : stack.Nodup)
    (hopens : ∀ path ∈ stack, files.Opens path) : stack.length ≤ 2 * files.tree.regular.length := by
  rw [← length_spellings]
  exact hnodup.length_le_of_subset fun path hmem => h.mem_spellings (hopens path hmem)

end Files

namespace Include

/-- Includes can nest more deeply than there are absolute paths of regular files. -/
theorem lt_depth (files : Files) : 2 * files.tree.regular.length < depth files := by
  have hle := files.tree.length_regular_le
  unfold depth
  dsimp only
  generalize files.tree.entries.length = n at hle
  split
  · have hsquare : 2 * (n + 2) ≤ (n + 2) ^ 2 := by
      rw [Nat.pow_two]
      exact Nat.mul_le_mul_right (n + 2) (Nat.le_add_left 2 n)
    have hpow : (n + 2) ^ 2 ≤ Nat.pow (n + 2) ((Tree.maxLinks + 1) * (n + 2)) :=
      Nat.pow_le_pow_right (by omega) (by simp only [Tree.maxLinks]; omega)
    omega
  · omega

/-- A file can include another one. -/
theorem depth_of_isFile (h : files.isFile p = .ok true) : ∃ n, depth files = n + 2 := by
  obtain ⟨place, content, mode, hstat⟩ := Files.isFile_eq_ok_true h
  have hpos : 0 < files.tree.regular.length :=
    List.length_pos_of_mem (Tree.mem_regular (Files.stat_eq_ok hstat).2 rfl)
  have hlt := lt_depth files
  exact ⟨depth files - 2, by omega⟩

end Include

end Runbook
