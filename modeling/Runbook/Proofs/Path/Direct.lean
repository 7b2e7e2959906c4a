import Runbook.Proofs.Path.Resolution
import Runbook.Proofs.Tree.Linkless

/-! # Paths without links on them

A walk along names at which no link stands arrives where the names say or fails, but not for too many links
(`Tree.walkWith_of_direct`). So a path from the root without links on it stands for itself (`Files.Direct.resolve`). -/

namespace Runbook

variable {t t' : Tree} {here place : Place} {names : List Text} {files files' : Files} {p : Path} {target : Text}

/-- Each name leads on to something: none stays where it is, and none leads back. -/
def Path.Onward (names : List Text) : Prop := ∀ name ∈ names, name ≠ [] ∧ name ≠ ['.'] ∧ name ≠ ['.', '.']

namespace Tree

/-- No link stands on the way from a place along names. -/
def Direct (t : Tree) (here : Place) (names : List Text) : Prop :=
  ∀ done, done <+: names → ∀ target, t.node? (here ++ done) ≠ some (.link target)

theorem Direct.cons {name : Text} (h : t.Direct here (name :: names)) : t.Direct (here ++ [name]) names := by
  intro done hdone target
  have hmore := h (name :: done) (List.cons_prefix_cons.mpr ⟨rfl, hdone⟩) target
  rwa [List.append_cons] at hmore

theorem Direct.mono {names' : List Text} (h : t.Direct here names) (hnames : names' <+: names) : t.Direct here names' :=
  fun done hdone => h done (hdone.trans hnames)

theorem Direct.noNewLinks (h : t.Direct here names) (hlinks : t.NoNewLinks t') : t'.Direct here names :=
  fun done hdone target hlink => h done hdone target (hlinks _ target hlink)

theorem walkWith_of_direct {follow : Place → List Text → Text → Except FileError Place} (hnames : Path.Onward names)
    (h : t.Direct here names) : t.walkWith follow here names = .ok (here ++ names) ∨
      ∃ e, t.walkWith follow here names = .error e ∧ e ≠ .linkLoop := by
  fun_induction walkWith t follow here names with
  | case1 here => exact Or.inl (by rw [List.append_nil])
  | case2 here name rest hnode hstay =>
    obtain ⟨hne, hdot, -⟩ := hnames name List.mem_cons_self
    simp [hne, hdot] at hstay
  | case3 here rest hnode hstay =>
    exact absurd rfl (hnames _ List.mem_cons_self).2.2
  | case4 => exact Or.inr ⟨_, rfl, by decide⟩
  | case5 => exact Or.inr ⟨_, rfl, by decide⟩
  | case6 here name rest hnode hstay hup hlong target hlink =>
    exact absurd hlink (h [name] (List.cons_prefix_cons.mpr ⟨rfl, List.nil_prefix⟩) target)
  | case7 here name rest hnode hstay hup hlong node hnext hother ih =>
    rw [List.append_cons here name rest]
    exact ih (fun name hname => hnames name (.tail _ hname)) h.cons
  | case8 => exact Or.inr ⟨_, rfl, by decide⟩
  | case9 => exact Or.inr ⟨_, rfl, by decide⟩

theorem walkFrom_of_direct (links : Nat) (hnames : Path.Onward names) (h : t.Direct here names) :
    t.walkFrom links here names = .ok (here ++ names) ∨
      ∃ e, t.walkFrom links here names = .error e ∧ e ≠ .linkLoop := by
  cases links with
  | zero => exact walkWith_of_direct hnames h
  | succ links => exact walkWith_of_direct hnames h

/-- What such a path names stands where its names say. -/
theorem locate_of_direct (hnames : Path.Onward p.names) (h : t.Direct [] p.names) (hplace : t.locate p = .ok place) :
    place = p.names := by
  unfold locate at hplace
  cases hlast : p.names.getLast? with
  | none =>
    rw [hlast] at hplace
    cases hplace
    exact (List.getLast?_eq_none_iff.mp hlast).symm
  | some name =>
    obtain ⟨above, habove⟩ := List.getLast?_eq_some_iff.mp hlast
    rw [habove] at hnames h hplace ⊢
    simp only [List.getLast?_concat, List.dropLast_concat] at hplace
    split at hplace
    · cases hplace
    · rename_i here hdirectory
      obtain ⟨-, -, hup⟩ := hnames name (List.mem_append_right _ (List.mem_singleton_self _))
      have hwalk := walkFrom_of_direct maxLinks
        (fun name hname => hnames name (List.mem_append_left _ hname)) (h.mono (List.prefix_append above [name]))
      unfold directory at hdirectory
      rcases hwalk with hwalk | ⟨e, hwalk, -⟩
      · rw [hwalk] at hdirectory
        dsimp only at hdirectory
        split at hdirectory
        · cases hdirectory
        · cases hdirectory
          split at hplace
          · cases hplace
          · cases hplace
            rfl
        · cases hdirectory
      · rw [hwalk] at hdirectory
        cases hdirectory

end Tree

/-! ### Resolving -/

namespace Path

/-- Where no link stands, resolving goes along the names. -/
theorem resolveWith_of_none {target? : Path → Option Text} {follow : Visited → Path → Text → Visited × Resolution}
    {visited : Visited} (hnames : Onward names) {here : Path}
    (h : ∀ done, done <+: names → target? { here with names := here.names ++ done } = none) :
    resolveWith target? follow visited here names = (visited, .done { here with names := here.names ++ names }) := by
  induction names generalizing here with
  | nil => simp [resolveWith]
  | cons name names ih =>
    obtain ⟨hne, hdot, hup⟩ := hnames name List.mem_cons_self
    have hstep : here.step name = { here with names := here.names ++ [name] } := by
      rw [step, collapseStep, if_neg hup]
    have hnone : target? (here.step name) = none := by
      rw [hstep]
      exact h [name] (List.cons_prefix_cons.mpr ⟨rfl, List.nil_prefix⟩)
    rw [resolveWith, if_neg (by simp [hne, hdot])]
    simp only [hup, if_false, hnone]
    rw [ih (fun name hname => hnames name (.tail _ hname)), hstep]
    · simp
    · intro done hdone
      rw [hstep]
      simpa using h (name :: done) (List.cons_prefix_cons.mpr ⟨rfl, hdone⟩)

theorem foldl_collapseStep (hnames : Onward names) (done : List Text) :
    names.foldl (collapseStep true) done = done ++ names := by
  induction names generalizing done with
  | nil => simp
  | cons name names ih =>
    obtain ⟨-, -, hup⟩ := hnames name List.mem_cons_self
    rw [List.foldl_cons, Tree.collapseStep_down hup, ih fun name hname => hnames name (.tail _ hname), List.append_assoc]
    rfl

/-- The parts of the text of a path from the root, between its slashes. -/
theorem splitOn_toText (h : Path.Proper ⟨.root, names⟩) :
    Text.splitOn '/' (toText ⟨.root, names⟩) = [] :: if names = [] then [[]] else names := by
  have hslash : Text.splitOn '/' (toText ⟨.root, names⟩) = [] :: Text.splitOn '/' (Text.joinWith "/" names) := by
    show Text.splitOn '/' ('/' :: Text.joinWith "/" names) = _
    rw [Text.splitOn, if_pos rfl]
  rw [hslash]
  split
  · subst names
    rfl
  · rename_i hne
    exact congrArg _ (Text.splitOn_joinWith hne fun name hname => (h name hname).2.2)

end Path

namespace Files

/-- The working directory is given by a path from the root that no link stands on. -/
structure Direct (files : Files) : Prop where
  anchor : files.cwd.anchor = .root
  proper : files.cwd.Proper
  onward : Path.Onward files.cwd.names
  noNull : '\x00' ∉ files.cwd.toText
  links : files.tree.Direct [] files.cwd.names

theorem Direct.noNewLinks (h : files.Direct) (hlinks : files.tree.NoNewLinks files'.tree)
    (hcwd : files'.cwd = files.cwd) : files'.Direct := by
  obtain ⟨hanchor, hproper, honward, hnull, hdirect⟩ := h
  rw [← hcwd] at hanchor hproper honward hnull hdirect
  exact ⟨hanchor, hproper, honward, hnull, hdirect.noNewLinks hlinks⟩

/-- An absolute path that can be looked up is looked up as it is. -/
theorem reach_isAbsolute {q : Path} (ha : p.isAbsolute = true) (h : files.reach p = .ok q) : q = p := by
  rw [reach_eq_ok h, Path.join, if_pos ha]

theorem target?_of_direct (ha : p.isAbsolute = true) (hnames : Path.Onward p.names) (h : files.tree.Direct [] p.names) :
    files.target? p = none := by
  unfold target? Files.locate
  cases hreach : files.reach p with
  | error e => rfl
  | ok q =>
    obtain rfl := reach_isAbsolute ha hreach
    dsimp only
    split
    · rfl
    · rename_i place hplace
      have hlink := h q.names List.prefix_rfl
      rw [List.nil_append, ← Tree.locate_of_direct hnames h hplace] at hlink
      split
      · exact absurd ‹_› (hlink _)
      · rfl

/-- Looking up a path gets lost in links only if the walk along its names does. -/
theorem stat_ne_linkLoop (ha : p.isAbsolute = true) (h : files.tree.walk p ≠ .error .linkLoop) :
    files.stat p ≠ .error .linkLoop := by
  unfold Files.stat
  cases hreach : files.reach p with
  | error e =>
    unfold reach at hreach
    split at hreach
    · cases hreach
      simp
    · split at hreach
      · cases hreach
        simp
      · split at hreach <;> cases hreach
        simp
  | ok q =>
    obtain rfl := reach_isAbsolute ha hreach
    dsimp only
    rw [Tree.stat]
    cases hwalk : files.tree.walk q with
    | error e =>
      rw [hwalk] at h
      simpa using h
    | ok place =>
      dsimp only
      split <;> simp

theorem stat_of_direct (ha : p.isAbsolute = true) (hnames : Path.Onward p.names) (h : files.tree.Direct [] p.names) :
    files.stat p ≠ .error .linkLoop := by
  refine stat_ne_linkLoop ha ?_
  rw [Tree.walk]
  rcases Tree.walkFrom_of_direct Tree.maxLinks hnames h with hwalk | ⟨e, hwalk, he⟩
  · simp [hwalk]
  · simpa [hwalk] using he

/-- Such a directory stands for itself. -/
theorem Direct.resolve (h : files.Direct) : files.resolve files.cwd = .ok files.cwd := by
  obtain ⟨hanchor, hproper, honward, -, hdirect⟩ := h
  generalize hcwd : files.cwd = cwd at hanchor hproper honward hdirect ⊢
  obtain ⟨anchor, names⟩ := cwd
  subst hanchor
  have habsolute : files.absolute ⟨.root, names⟩ = ⟨.root, names⟩ := by
    show Path.collapse ⟨.root, names⟩ = _
    exact congrArg (Path.mk .root) ((Path.foldl_collapseStep honward []).trans (List.nil_append _))
  have hnone : ∀ done, done <+: names → files.target? ⟨.root, [] ++ done⟩ = none := fun done hdone =>
    target?_of_direct rfl (fun name hname => honward name (hdone.subset hname)) (hdirect.mono hdone)
  have hfound : Path.resolve files.target? ⟨.root, names⟩ = .done ⟨.root, names⟩ := by
    show (Path.resolveWith files.target? (Path.resolveFrom files.target? 979) [] ⟨.root, []⟩
      (Text.splitOn '/' (Path.toText ⟨.root, names⟩))).2 = _
    rw [Path.splitOn_toText hproper]
    show (Path.resolveWith files.target? (Path.resolveFrom files.target? 979) [] ⟨.root, []⟩
      (if names = [] then [[]] else names)).2 = _
    split
    · subst names
      rfl
    · rw [Path.resolveWith_of_none honward hnone]
      rfl
  rw [Files.resolve, hfound]
  dsimp only [Option.map]
  rw [habsolute]
  split
  · exact absurd ‹_› (stat_of_direct rfl honward hdirect)
  · rfl

end Files

end Runbook
