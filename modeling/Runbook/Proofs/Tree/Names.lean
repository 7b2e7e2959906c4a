import Runbook.Files
import Mathlib.Tactic.Common

/-! # The names of a path that leads somewhere

A walk that arrives goes through names of the tree only, links or not (`walk_names`). So the absolute path of something
that exists holds no character that no name in the tree holds (`not_mem_absolute`). -/

namespace Runbook

variable {t : Tree} {here place : Place} {name : Text} {names : List Text} {c : Char}

namespace Tree

/-- A name that stands for a directory by itself, or that something in the tree has. -/
def Knows (t : Tree) (name : Text) : Prop :=
  name = [] ∨ name = ['.'] ∨ name = ['.', '.'] ∨ ∃ e ∈ t.entries, name ∈ e.1

theorem knows_of_node? {node : Node} (h : t.node? (here ++ [name]) = some node) : t.Knows name := by
  have hlookup : List.lookup (here ++ [name]) t.entries = some node := by
    cases hp : here ++ [name] with
    | nil => simp at hp
    | cons first rest => rwa [hp] at h
  rw [List.lookup_eq_some_iff] at hlookup
  obtain ⟨before, after, hentries, -⟩ := hlookup
  refine Or.inr (Or.inr (Or.inr ⟨(here ++ [name], node), ?_, List.mem_concat_self⟩))
  rw [hentries]
  exact List.mem_append_right _ List.mem_cons_self

theorem walkWith_names {follow : Place → List Text → Text → Except FileError Place}
    (hfollow : ∀ here rest target place, follow here rest target = .ok place → ∀ name ∈ rest, t.Knows name)
    (h : t.walkWith follow here names = .ok place) : ∀ name ∈ names, t.Knows name := by
  fun_induction walkWith t follow here names with
  | case1 => simp
  | case2 here name rest hnode hstay ih =>
    have hname : name = [] ∨ name = ['.'] := by simpa using hstay
    rintro _ (_ | ⟨_, hmem⟩)
    · exact hname.elim Or.inl fun hdot => Or.inr (Or.inl hdot)
    · exact ih h _ hmem
  | case3 here rest hnode hstay ih =>
    rintro _ (_ | ⟨_, hmem⟩)
    · exact Or.inr (Or.inr (Or.inl rfl))
    · exact ih h _ hmem
  | case4 => cases h
  | case5 => cases h
  | case6 here name rest hnode hstay hup hlong target hlink =>
    rintro _ (_ | ⟨_, hmem⟩)
    · exact knows_of_node? hlink
    · exact hfollow here rest target place h _ hmem
  | case7 here name rest hnode hstay hup hlong node hnext hother ih =>
    rintro _ (_ | ⟨_, hmem⟩)
    · exact knows_of_node? hother
    · exact ih h _ hmem
  | case8 => cases h
  | case9 => cases h

theorem walkFrom_names {links : Nat} (h : t.walkFrom links here names = .ok place) : ∀ name ∈ names, t.Knows name := by
  induction links generalizing here names place with
  | zero => exact walkWith_names (fun _ _ _ _ h => by cases h) h
  | succ links ih =>
    refine walkWith_names (fun here rest target place h name hmem => ?_) h
    exact ih h name (List.mem_append_right _ hmem)

/-- A walk that arrives goes through names that the tree knows. -/
theorem walk_names {p : Path} (h : t.walk p = .ok place) : ∀ name ∈ p.names, t.Knows name := walkFrom_names h

/-- No name in the tree holds the character. -/
def Lacks (t : Tree) (c : Char) : Prop := ∀ e ∈ t.entries, ∀ name ∈ e.1, c ∉ name

theorem Lacks.not_mem_of_knows (h : t.Lacks c) (hdot : c ≠ '.') (hname : t.Knows name) : c ∉ name := by
  rcases hname with rfl | rfl | rfl | ⟨e, he, hmem⟩
  · exact List.not_mem_nil
  · simpa using hdot
  · simpa using hdot
  · exact h e he name hmem

end Tree

namespace Path

variable {p q : Path} {done ts : List Text} {sep : Text}

theorem mem_of_mem_collapseStep {absolute : Bool} {next : Text} (h : name ∈ collapseStep absolute done next) :
    name ∈ done ∨ name = next := by
  have hconcat : name ∈ done ++ [next] → name ∈ done ∨ name = next := by simp
  unfold collapseStep at h
  split at h
  · split at h
    · split at h
      · exact Or.inl h
      · exact hconcat h
    · split at h
      · exact hconcat h
      · exact Or.inl (List.dropLast_subset _ h)
  · exact hconcat h

theorem mem_of_mem_foldl_collapseStep {absolute : Bool} (h : name ∈ names.foldl (collapseStep absolute) done) :
    name ∈ done ∨ name ∈ names := by
  induction names generalizing done with
  | nil => exact Or.inl h
  | cons next names ih =>
    rcases ih h with hmem | hmem
    · rcases mem_of_mem_collapseStep hmem with hmem | rfl
      · exact Or.inl hmem
      · exact Or.inr List.mem_cons_self
    · exact Or.inr (List.mem_cons_of_mem _ hmem)

theorem mem_of_mem_collapse (h : name ∈ p.collapse.names) : name ∈ p.names :=
  (mem_of_mem_foldl_collapseStep h).resolve_left List.not_mem_nil

theorem mem_of_mem_joinWith : ∀ {ts : List Text}, c ∈ Text.joinWith sep ts → c ∈ sep ∨ ∃ t ∈ ts, c ∈ t
  | [], h => by simp [Text.joinWith] at h
  | [t], h => Or.inr ⟨t, List.mem_singleton_self t, h⟩
  | s :: t :: rest, h => by
    rw [Text.joinWith, List.append_assoc] at h
    rcases List.mem_append.mp h with h | h
    · exact Or.inr ⟨s, List.mem_cons_self, h⟩
    · rcases List.mem_append.mp h with h | h
      · exact Or.inl h
      · refine (mem_of_mem_joinWith h).imp_right ?_
        rintro ⟨u, hu, hc⟩
        exact ⟨u, List.mem_cons_of_mem _ hu, hc⟩

/-- The text of a path holds what its names hold, slashes and a dot. -/
theorem not_mem_toText (hdot : c ≠ '.') (hslash : c ≠ '/') (h : ∀ name ∈ p.names, c ∉ name) : c ∉ p.toText := by
  have hjoin : c ∉ Text.joinWith "/".toList p.names := by
    intro hmem
    rcases mem_of_mem_joinWith hmem with hmem | ⟨name, hname, hmem⟩
    · exact hslash (List.mem_singleton.mp hmem)
    · exact h name hname hmem
  have hslashes : c ∉ Anchor.slashes p.anchor := by
    cases p.anchor <;> simp [Anchor.slashes, hslash]
  rw [toText]
  split
  · simpa using hdot
  · intro hmem
    exact (List.mem_append.mp hmem).elim hslashes hjoin

end Path

namespace Files

variable {files : Files} {p q : Path}

theorem reach_eq_ok (h : files.reach p = .ok q) : q = files.cwd.join p := by
  unfold reach at h
  split at h
  · cases h
  · split at h
    · cases h
    · split at h
      · cases h
      · exact (Except.ok.inj h).symm

theorem exists_reach_of_locate {place : Place} (h : files.locate p = .ok place) : ∃ q, files.reach p = .ok q := by
  unfold locate at h
  cases hreach : files.reach p with
  | error e => simp [hreach] at h
  | ok q => exact ⟨q, rfl⟩

theorem unlink_eq_ok {tree : Tree} (h : files.unlink p = .ok tree) :
    ∃ q, files.reach p = .ok q ∧ files.tree.unlink q = .ok tree ∧ files.isDenied p = false := by
  unfold unlink at h
  split at h
  · cases h
  · rename_i q hreach
    split at h
    · cases h
    · split at h
      · cases h
      · rename_i hallowed
        exact ⟨q, hreach, h, by simpa using hallowed⟩

theorem stat_eq_ok {place : Place} {node : Node} (h : files.stat p = .ok (place, node)) :
    files.tree.walk (files.cwd.join p) = .ok place ∧ files.tree.node? place = some node := by
  unfold stat at h
  cases hreach : files.reach p with
  | error e => simp [hreach] at h
  | ok q =>
    simp only [hreach, reach_eq_ok hreach, Tree.stat] at h
    cases hwalk : files.tree.walk (files.cwd.join p) with
    | error e => simp [hwalk] at h
    | ok here =>
      simp only [hwalk] at h
      cases hnode : files.tree.node? here with
      | none => simp [hnode] at h
      | some n =>
        obtain ⟨rfl, rfl⟩ : here = place ∧ n = node := by simpa [hnode] using h
        exact ⟨rfl, hnode⟩

theorem isFile_eq_ok_true (h : files.isFile p = .ok true) :
    ∃ place content mode, files.stat p = .ok (place, .file content mode) := by
  unfold isFile leadsTo at h
  cases hstat : files.stat p with
  | error e => cases e <;> simp [hstat] at h
  | ok r =>
    obtain ⟨place, node⟩ := r
    cases node with
    | file content mode => exact ⟨place, content, mode, rfl⟩
    | directory => simp [hstat, Node.isFile] at h
    | link target => simp [hstat, Node.isFile] at h

/-- The absolute path of a file holds no character that the names in the tree lack. -/
theorem not_mem_absolute (ht : files.tree.Lacks c) (hdot : c ≠ '.') (hslash : c ≠ '/') (h : files.isFile p = .ok true) :
    c ∉ (files.absolute p).toText := by
  obtain ⟨place, content, mode, hstat⟩ := isFile_eq_ok_true h
  refine Path.not_mem_toText hdot hslash fun name hname => ?_
  exact ht.not_mem_of_knows hdot (Tree.walk_names (stat_eq_ok hstat).1 name (Path.mem_of_mem_collapse hname))

end Files

end Runbook
