import Runbook.Proofs.Tree.Names
import Runbook.Proofs.Tree.Nodes

/-! # Where paths lead

Where a path leads and what it resolves to does not depend on the content of files (`Files.Like.resolve_eq`), and a
character that neither a path nor a link nor the working directory holds is not in what the path resolves to
(`Files.resolve_lacks`). -/

namespace Runbook

variable {t t' : Tree} {here place : Place} {names : List Text} {p q : Path} {files files' : Files} {c : Char}

namespace Tree.Like

theorem walkWith_eq (h : Like t t') (follow : Place → List Text → Text → Except FileError Place) (here : Place)
    (names : List Text) : t'.walkWith follow here names = t.walkWith follow here names := by
  induction names generalizing here with
  | nil => rfl
  | cons name rest ih =>
    simp only [walkWith, ih]
    rcases h.node?_cases here with heq | ⟨content, mode, content', mode', hn, hn'⟩
    · rw [heq]
      rcases h.node?_cases (here ++ [name]) with heq | ⟨content, mode, content', mode', hn, hn'⟩
      · rw [heq]
      · simp only [hn, hn']
    · simp only [hn, hn']

theorem walkFrom_eq (h : Like t t') (links : Nat) (here : Place) (names : List Text) :
    t'.walkFrom links here names = t.walkFrom links here names := by
  induction links generalizing here names with
  | zero => exact h.walkWith_eq _ here names
  | succ links ih =>
    rw [walkFrom, walkFrom, h.walkWith_eq]
    simp only [ih]

theorem walk_eq (h : Like t t') (p : Path) : t'.walk p = t.walk p := h.walkFrom_eq _ _ _

theorem directory_eq (h : Like t t') (here : Place) (names : List Text) :
    t'.directory here names = t.directory here names := by
  rw [Tree.directory, Tree.directory, h.walkFrom_eq]
  split
  · rfl
  · rename_i place _
    rcases h.node?_cases place with heq | ⟨content, mode, content', mode', hn, hn'⟩
    · rw [heq]
    · simp only [hn, hn']

theorem locate_eq (h : Like t t') (p : Path) : t'.locate p = t.locate p := by
  rw [Tree.locate, Tree.locate, h.directory_eq]

end Tree.Like

namespace Files

/-- Two processes see the same places, up to the content of files. -/
structure Like (files files' : Files) : Prop where
  tree : files.tree.Like files'.tree
  cwd : files'.cwd = files.cwd
  homes : files'.homes = files.homes
  denied : files'.denied = files.denied
  hidden : files'.hidden = files.hidden

namespace Like

theorem refl (files : Files) : Like files files := ⟨.refl _, rfl, rfl, rfl, rfl⟩

theorem trans {files'' : Files} (h : Like files files') (h' : Like files' files'') : Like files files'' :=
  ⟨h.tree.trans h'.tree, h'.cwd.trans h.cwd, h'.homes.trans h.homes, h'.denied.trans h.denied,
    h'.hidden.trans h.hidden⟩

theorem symm (h : Like files files') : Like files' files :=
  ⟨h.tree.symm, h.cwd.symm, h.homes.symm, h.denied.symm, h.hidden.symm⟩

theorem eq_with_tree (h : Like files files') : files' = { files with tree := files'.tree } := by
  obtain ⟨tree, denied, cwd, homes, hidden⟩ := files'
  obtain ⟨-, rfl, rfl, rfl, rfl⟩ := h
  rfl

theorem reach_eq (h : Like files files') (p : Path) : files'.reach p = files.reach p := by
  rw [reach, reach, h.cwd, h.hidden]

theorem locate_eq (h : Like files files') (p : Path) : files'.locate p = files.locate p := by
  rw [Files.locate, Files.locate, h.reach_eq]
  split
  · rfl
  · exact h.tree.locate_eq _

theorem target?_eq (h : Like files files') (p : Path) : files'.target? p = files.target? p := by
  rw [target?, target?, h.locate_eq]
  split
  · rfl
  · rename_i place _
    rcases h.tree.node?_cases place with heq | ⟨content, mode, content', mode', hn, hn'⟩
    · rw [heq]
    · simp only [hn, hn']

/-- A path leads to the same thing, or to a file either way. -/
theorem stat_cases (h : Like files files') (p : Path) : files'.stat p = files.stat p ∨
    ∃ place content mode content' mode', files.stat p = .ok (place, .file content mode) ∧
      files'.stat p = .ok (place, .file content' mode') := by
  rw [Files.stat, Files.stat, h.reach_eq]
  split
  · exact Or.inl rfl
  · rename_i q _
    rw [Tree.stat, Tree.stat, h.tree.walk_eq]
    split
    · exact Or.inl rfl
    · rename_i place _
      rcases h.tree.node?_cases place with heq | ⟨content, mode, content', mode', hn, hn'⟩
      · rw [heq]
        exact Or.inl rfl
      · rw [hn, hn']
        exact Or.inr ⟨place, content, mode, content', mode', rfl, rfl⟩

/-- A path leads to the same place. -/
theorem stat_place (h : Like files files') {node' : Node} (hstat : files'.stat p = .ok (place, node')) :
    ∃ node, files.stat p = .ok (place, node) := by
  rcases h.stat_cases p with heq | ⟨place', content, mode, content', mode', hleft, hright⟩
  · exact ⟨node', heq.symm.trans hstat⟩
  · rw [hright] at hstat
    cases hstat
    exact ⟨_, hleft⟩

theorem stat_linkLoop_iff (h : Like files files') (p : Path) :
    files'.stat p = .error .linkLoop ↔ files.stat p = .error .linkLoop := by
  rcases h.stat_cases p with heq | ⟨place, content, mode, content', mode', hstat, hstat'⟩
  · rw [heq]
  · simp [hstat, hstat']

theorem absolute_eq (h : Like files files') : files'.absolute = files.absolute := by
  funext p
  rw [absolute, absolute, h.cwd]

theorem isDenied_eq (h : Like files files') (p : Path) : files'.isDenied p = files.isDenied p := by
  rw [isDenied, isDenied, h.denied, h.absolute_eq]

theorem isFile_eq (h : Like files files') (p : Path) : files'.isFile p = files.isFile p := by
  rw [isFile, isFile, leadsTo, leadsTo]
  rcases h.stat_cases p with heq | ⟨place, content, mode, content', mode', hstat, hstat'⟩
  · rw [heq]
  · simp [hstat, hstat', Node.isFile]

theorem isDirectory_eq (h : Like files files') (p : Path) : files'.isDirectory p = files.isDirectory p := by
  rw [isDirectory, isDirectory, leadsTo, leadsTo]
  rcases h.stat_cases p with heq | ⟨place, content, mode, content', mode', hstat, hstat'⟩
  · rw [heq]
  · simp [hstat, hstat']

/-- A path leads to the same content if the same thing stands where it leads. -/
theorem content_eq (h : Like files files')
    (hnode : ∀ place node, files.stat p = .ok (place, node) → files'.tree.node? place = files.tree.node? place) :
    files'.content p = files.content p := by
  rw [content, content]
  rcases h.stat_cases p with heq | ⟨place, content, mode, content', mode', hstat, hstat'⟩
  · rw [heq]
  · have hsame := hnode place _ hstat
    rw [(stat_eq_ok hstat).2, (stat_eq_ok hstat').2] at hsame
    cases hsame
    rw [hstat, hstat']

theorem resolve_eq (h : Like files files') (p : Path) : files'.resolve p = files.resolve p := by
  have htarget : files'.target? = files.target? := funext h.target?_eq
  rw [Files.resolve, Files.resolve, htarget, h.absolute_eq]
  split
  · rfl
  · rename_i q _
    by_cases hloop : files.stat q = .error .linkLoop
    · rw [hloop, (h.stat_linkLoop_iff q).mpr hloop]
    · have hloop' : files'.stat q ≠ .error .linkLoop := fun e => hloop ((h.stat_linkLoop_iff q).mp e)
      split
      · exact absurd ‹_› hloop'
      · rfl

end Like

end Files

/-! ### The names of a resolved path -/

namespace Path

variable {visited : Visited} {text : Text} {target? : Path → Option Text} {named written : Text → Prop}
  {follow : Visited → Path → Text → Visited × Resolution}

/-- What holds of the names that resolving goes through, given what holds of the texts that are resolved. -/
structure Inherits (named written : Text → Prop) : Prop where
  part : ∀ {text name}, written text → name ∈ Text.splitOn '/' text → name ≠ [] → name ≠ ['.'] → named name
  path : ∀ {p : Path}, (∀ name ∈ p.names, named name) → written p.toText
  join : ∀ {base names}, written base → (∀ name ∈ names, name ≠ [] → name ≠ ['.'] → named name) →
    written (joinText base (Text.joinWith "/" names))

/-- It holds of the names of the paths that links were found to lead to. -/
def VisitedKeeps (named : Text → Prop) (visited : Visited) : Prop :=
  ∀ p there, (p, some there) ∈ visited → ∀ name ∈ there.names, named name

/-- It holds of what a search finds and remembers. -/
structure SearchKeeps (named written : Text → Prop) (r : Visited × Resolution) : Prop where
  visited : VisitedKeeps named r.1
  done : ∀ p, r.2 = .done p → ∀ name ∈ p.names, named name
  circle : ∀ text, r.2 = .circle text → written text

theorem VisitedKeeps.cons {found : Option Path} (h : VisitedKeeps named visited)
    (hfound : ∀ there, found = some there → ∀ name ∈ there.names, named name) :
    VisitedKeeps named ((p, found) :: visited) := by
  rintro q there (_ | ⟨_, hmem⟩)
  · exact hfound there rfl
  · exact h q there hmem

theorem SearchKeeps.of_done (hvisited : VisitedKeeps named visited) (hp : ∀ name ∈ p.names, named name) :
    SearchKeeps named written (visited, .done p) where
  visited := hvisited
  done := by
    rintro _ ⟨⟩
    exact hp
  circle := nofun

theorem SearchKeeps.of_circle (hvisited : VisitedKeeps named visited) (htext : written text) :
    SearchKeeps named written (visited, .circle text) where
  visited := hvisited
  done := nofun
  circle := by
    rintro _ ⟨⟩
    exact htext

theorem SearchKeeps.of_tooDeep (hvisited : VisitedKeeps named visited) :
    SearchKeeps named written (visited, .tooDeep) := ⟨hvisited, nofun, nofun⟩

section
variable (h : Inherits named written) (htarget : ∀ p target, target? p = some target → written target)
include h htarget

theorem resolveWith_keeps
    (hfollow : ∀ visited here text, VisitedKeeps named visited → (∀ name ∈ here.names, named name) → written text →
      SearchKeeps named written (follow visited here text))
    {here : Path} (hvisited : VisitedKeeps named visited) (hhere : ∀ name ∈ here.names, named name)
    (hnames : ∀ name ∈ names, name ≠ [] → name ≠ ['.'] → named name) :
    SearchKeeps named written (resolveWith target? follow visited here names) := by
  induction names generalizing visited here with
  | nil => exact .of_done hvisited hhere
  | cons name rest ih =>
    have hrest : ∀ name ∈ rest, name ≠ [] → name ≠ ['.'] → named name := fun name hmem => hnames name (.tail _ hmem)
    rw [resolveWith]
    split
    · exact ih hvisited hhere hrest
    · rename_i hkept
      have hnext : ∀ next ∈ (here.step name).names, named next := by
        intro next hmem
        rcases mem_of_mem_collapseStep hmem with hmem | rfl
        · exact hhere next hmem
        · have hkept : next ≠ [] ∧ next ≠ ['.'] := by simpa using hkept
          exact hnames next List.mem_cons_self hkept.1 hkept.2
      dsimp only
      split
      · exact ih hvisited hnext hrest
      · rename_i target hlink
        have hlink : written target := by
          split at hlink
          · cases hlink
          · exact htarget _ _ hlink
        split
        · rename_i there hlookup
          exact ih hvisited (hvisited _ _ (mem_of_lookup hlookup)) hrest
        · exact .of_circle hvisited (h.join (h.path hnext) hrest)
        · -- A link is remembered without a path while its target is resolved.
          have hfound := hfollow ((here.step name, none) :: visited) here target (hvisited.cons nofun) hhere hlink
          split
          · rename_i visited' there hdone
            rw [hdone] at hfound
            refine ih (hfound.visited.cons ?_) (hfound.done _ rfl) hrest
            rintro _ ⟨⟩
            exact hfound.done _ rfl
          · rename_i visited' text hcircle
            rw [hcircle] at hfound
            exact .of_circle hfound.visited (h.join (hfound.circle _ rfl) hrest)
          · rename_i visited' hdeep
            rw [hdeep] at hfound
            exact .of_tooDeep hfound.visited

/-- What is found has names that the resolved text and the links on the way have. -/
theorem resolveFrom_keeps (depth : Nat) {here : Path} (hvisited : VisitedKeeps named visited)
    (hhere : ∀ name ∈ here.names, named name) (htext : written text) :
    SearchKeeps named written (resolveFrom target? depth visited here text) := by
  induction depth generalizing visited here text with
  | zero => exact .of_tooDeep hvisited
  | succ depth ih =>
    rw [resolveFrom]
    refine resolveWith_keeps h htarget (fun visited here text => ih) hvisited ?_ fun name => h.part htext
    split
    · exact fun name hname => by cases hname
    · exact hhere

end

end Path

/-! ### The characters of a resolved path -/

theorem Text.mem_of_mem_splitOn {d : Char} : ∀ {s part : Text}, part ∈ splitOn d s → c ∈ part → c ∈ s
  | [], part, h, hc => by simp_all [splitOn]
  | a :: s, part, h, hc => by
    rw [splitOn] at h
    split at h
    · rcases List.mem_cons.mp h with rfl | h
      · cases hc
      · exact List.mem_cons_of_mem _ (mem_of_mem_splitOn h hc)
    · split at h
      · rw [List.mem_singleton.mp h, List.mem_singleton] at hc
        exact hc ▸ List.mem_cons_self
      · rename_i first parts hsplit
        have hrest : ∀ part ∈ first :: parts, c ∈ part → c ∈ s := fun part hp => mem_of_mem_splitOn (hsplit ▸ hp)
        rcases List.mem_cons.mp h with rfl | h
        · rcases List.mem_cons.mp hc with rfl | hc
          · exact List.mem_cons_self
          · exact List.mem_cons_of_mem _ (hrest first List.mem_cons_self hc)
        · exact List.mem_cons_of_mem _ (hrest part (List.mem_cons_of_mem _ h) hc)

namespace Path

variable {visited : Visited} {text base : Text} {target? : Path → Option Text}
  {follow : Visited → Path → Text → Visited × Resolution}

/-- No name of the path holds the character. -/
def Lacks (p : Path) (c : Char) : Prop := ∀ name ∈ p.names, c ∉ name

theorem Lacks.toText (h : p.Lacks c) (hdot : c ≠ '.') (hslash : c ≠ '/') : c ∉ p.toText := not_mem_toText hdot hslash h

theorem lacks_ofText (h : c ∉ text) : (ofText text).Lacks c := fun _ hname hc =>
  h (Text.mem_of_mem_splitOn (List.mem_of_mem_filter hname) hc)

theorem Lacks.join (hp : p.Lacks c) (hq : q.Lacks c) : (p.join q).Lacks c := by
  unfold Path.join
  split
  · exact hq
  · intro name hname
    exact (List.mem_append.mp hname).elim (hp name) (hq name)

theorem Lacks.collapse (h : p.Lacks c) : p.collapse.Lacks c := fun name hname => h name (mem_of_mem_collapse hname)

theorem not_mem_joinWith_slash (hslash : c ≠ '/') (h : ∀ name ∈ names, c ∉ name) : c ∉ Text.joinWith "/" names := by
  intro hc
  rcases mem_of_mem_joinWith hc with hc | ⟨name, hname, hc⟩
  · exact hslash (List.mem_singleton.mp hc)
  · exact h name hname hc

theorem not_mem_joinText (hslash : c ≠ '/') (hbase : c ∉ base) (htext : c ∉ text) : c ∉ joinText base text := by
  unfold joinText
  split
  · exact htext
  · split
    · exact fun hc => (List.mem_append.mp hc).elim hbase htext
    · intro hc
      rcases List.mem_append.mp hc with hc | hc
      · rcases List.mem_append.mp hc with hc | hc
        · exact hbase hc
        · exact hslash (List.mem_singleton.mp hc)
      · exact htext hc

/-- What was found does not hold the character. -/
def Resolution.Lacks (c : Char) : Resolution → Prop
  | .done p => p.Lacks c
  | .circle written => c ∉ written
  | .tooDeep => True

/-- No path that a link was found to lead to holds the character. -/
def VisitedLacks (visited : Visited) (c : Char) : Prop := ∀ p there, (p, some there) ∈ visited → there.Lacks c

/-- Whether the character is held by what a search finds and remembers. -/
def SearchLacks (r : Visited × Resolution) (c : Char) : Prop := VisitedLacks r.1 c ∧ r.2.Lacks c

theorem inherits_lacks (hdot : c ≠ '.') (hslash : c ≠ '/') : Inherits (c ∉ ·) (c ∉ ·) where
  part htext hname _ _ hc := htext (Text.mem_of_mem_splitOn hname hc)
  path h := Lacks.toText h hdot hslash
  join hbase hnames := by
    refine not_mem_joinText hslash hbase (not_mem_joinWith_slash hslash fun name hname hc => hnames name hname ?_ ?_ hc)
    · rintro rfl
      cases hc
    · rintro rfl
      exact hdot (List.mem_singleton.mp hc)

theorem resolveFrom_lacks (hdot : c ≠ '.') (hslash : c ≠ '/')
    (htarget : ∀ p target, target? p = some target → c ∉ target)
    (depth : Nat) {here : Path} (hvisited : VisitedLacks visited c) (hhere : here.Lacks c) (htext : c ∉ text) :
    SearchLacks (resolveFrom target? depth visited here text) c := by
  have hkeeps := resolveFrom_keeps (inherits_lacks hdot hslash) htarget depth hvisited hhere htext
  refine ⟨hkeeps.visited, ?_⟩
  generalize hfound : (resolveFrom target? depth visited here text).2 = found
  cases found with
  | done p => exact hkeeps.done p hfound
  | circle written => exact hkeeps.circle written hfound
  | tooDeep => trivial

end Path

namespace Files

/-- Neither a link nor the working directory holds the character. -/
structure Lacks (files : Files) (c : Char) : Prop where
  links : ∀ place target, files.tree.node? place = some (.link target) → c ∉ target
  cwd : files.cwd.Lacks c

theorem Lacks.target? (h : files.Lacks c) (p : Path) {target : Text} (ht : files.target? p = some target) :
    c ∉ target := by
  unfold Files.target? at ht
  split at ht
  · cases ht
  · rename_i place _
    split at ht
    · rename_i target' hlink
      cases ht
      exact h.links place _ hlink
    · cases ht

theorem Lacks.absolute (h : files.Lacks c) (hp : p.Lacks c) : (files.absolute p).Lacks c := (h.cwd.join hp).collapse

theorem resolve_lacks (h : files.Lacks c) (hdot : c ≠ '.') (hslash : c ≠ '/') (hp : c ∉ p.toText)
    (hq : files.resolve p = .ok q) : q.Lacks c := by
  have hstart : Path.Lacks ⟨.relative, []⟩ c := fun name hname => by cases hname
  have hfound : (p.resolve files.target?).Lacks c :=
    (Path.resolveFrom_lacks hdot hslash (fun p target => h.target? p) Path.maxDepth
      (fun _ _ hmem => by cases hmem) hstart hp).2
  unfold Files.resolve at hq
  dsimp only at hq
  split at hq
  · cases hq
  · rename_i found hsome
    have hlacks : found.Lacks c := by
      cases hresolution : p.resolve files.target? with
      | done p' =>
        rw [hresolution] at hsome hfound
        cases hsome
        exact h.absolute hfound
      | circle written =>
        rw [hresolution] at hsome hfound
        cases hsome
        exact h.absolute (Path.lacks_ofText hfound)
      | tooDeep =>
        rw [hresolution] at hsome
        cases hsome
    split at hq
    · cases hq
    · cases hq
      exact hlacks

end Files

end Runbook
