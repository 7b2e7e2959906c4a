import Runbook.Proofs.Include.Stack
import Runbook.Proofs.Path.Lexical
import Runbook.Proofs.World

/-! # The file that is read and the file that is named

A file is looked for and opened through a path as it is written, and known by the absolute path that is made of it by
name: on the stack, in the lines, and as what its own includes are sought from. A reader that notes both with each file
it opens reads as `expand` does (`expand_follows_noting`). Both lead to the same file unless a `..` takes back a name at
which a link stands. Main statement: `Recipe.read_same_file`; with such a `..` there may be two files
(`Recipe.read_other_file`). -/

namespace Runbook

open Effect Include

variable {σ : Type}

/-- A file that is opened: the path it is opened through, and the absolute path it is known by. -/
structure Opening where
  through : Path
  path : Text
deriving DecidableEq

/-- What files are opened stands beside the state, and opening a file does not change it. -/
def View.aside (view : View σ) : View (σ × List Opening) :=
  ⟨fun s => view.files s.1, fun path s => (view.opened path s.1, s.2)⟩

/-- What is needed to compare a reader that notes which files are opened with one that does not, through another view.
    States that belong together show the same, up to what is in files that are not `apart`, and they belong together
    after a file has been opened and noted; a run that counts opens only files that are apart. -/
structure View.Noted {τ : Type} (view : View σ) (view' : View τ) (c : Comparison Fault (σ × List Opening) τ)
    (apart : Path → Prop) : Prop where
  like {s : σ × List Opening} {t : τ} (h : c.states s t) : (view.files s.1).Like (view'.files t)
  content {s : σ × List Opening} {t : τ} {p : Path} (h : c.states s t) (hp : apart p) :
    (view'.files t).content p = (view.files s.1).content p
  opened {s : σ × List Opening} {t : τ} {o : Opening} (h : c.states s t)
    (ho : o.path = ((view.files s.1).absolute o.through).toText) :
    c.states (view.opened o.path s.1, s.2 ++ [o]) (view'.opened o.path t)
  ends {s : σ × List Opening} {o : Opening} (h : c.ends (view.opened o.path s.1, s.2 ++ [o])) :
    c.ends s ∧ apart o.through

namespace Include

variable {view : View σ} {source : Text} {p : Path} {stack : List Text} {includedAt : Option Line} {s : σ}
  {fuel : Nat} {files files' : Files} {o : Opening}

/-- Reads the file a path leads to, as `expand` does, and notes which files are opened. -/
def expandNoting (view : View σ) : (fuel : Nat) → (stack : List Text) → (includedAt : Option Line) → (source : Text) →
    Path → Reading (σ × List Opening) (List Line)
  | 0, _, _, source, _ => throw (.includesTooDeep source)
  | fuel + 1, stack, includedAt, source, p => do
    let files := view.files (← get).1
    let here := files.absolute p
    let path := here.toText
    match files.isFile p with
    | .error e => throw (.file e p.toText)
    | .ok false => throw (.load (.missingFile source includedAt))
    | .ok true =>
      if stack.contains path then throw (.load (.cycle (stack ++ [path]) includedAt))
      modify fun s => (view.opened path s.1, s.2 ++ [⟨p, path⟩])
      if files.isDenied p then throw (.load (.unreadableFile source includedAt))
      let include? := fun line target => expandNoting view fuel (stack ++ [path]) (some line) target (Path.ofText target)
      readOn view.aside p (readLines files.homes here.directory.toText include?) maxRounds 0 ⟨.ofFile source path, 1⟩

/-- The files that are opened when the file a path leads to is read, one after the other. -/
def openings (view : View σ) (source : Text) (p : Path) (s : σ) : List Opening :=
  (final (expandNoting view (depth (view.files s)) [] none source p (s, []))).2

/-- How the lines of a file are read and noted while the files on the stack are being read. -/
def takeNoting (view : View σ) (fuel : Nat) (stack : List Text) (files : Files) (p : Path) :
    Cursor → List Text → Reading (σ × List Opening) (Cursor × List Line) :=
  readLines files.homes (files.absolute p).directory.toText fun line target =>
    expandNoting view fuel (stack ++ [(files.absolute p).toText]) (some line) target (Path.ofText target)

theorem expandNoting_succ (view : View σ) (fuel : Nat) (stack : List Text) (includedAt : Option Line) (source : Text)
    (p : Path) (s : σ × List Opening) : expandNoting view (fuel + 1) stack includedAt source p s =
      match (view.files s.1).isFile p with
      | .error e => .error (.file e p.toText) s
      | .ok false => .error (.load (.missingFile source includedAt)) s
      | .ok true =>
        let path := ((view.files s.1).absolute p).toText
        if path ∈ stack then .error (.load (.cycle (stack ++ [path]) includedAt)) s
        else if (view.files s.1).isDenied p then
          .error (.load (.unreadableFile source includedAt)) (view.opened path s.1, s.2 ++ [⟨p, path⟩])
        else
          readOn view.aside p (takeNoting view fuel stack (view.files s.1) p) maxRounds 0 ⟨.ofFile source path, 1⟩
            (view.opened path s.1, s.2 ++ [⟨p, path⟩]) := by
  rw [expandNoting, get_bind_apply]
  dsimp only
  cases (view.files s.1).isFile p with
  | error e => rfl
  | ok there =>
    cases there with
    | false => rfl
    | true =>
      by_cases hstack : ((view.files s.1).absolute p).toText ∈ stack
      · simp only [List.contains_iff_mem.mpr hstack, hstack, if_true]
        rfl
      · simp only [List.contains_iff_mem, hstack, if_false]
        rw [modify_bind_apply]
        cases (view.files s.1).isDenied p <;> rfl

/-! ### Reading and noting -/

/-- Reading follows reading and noting. -/
theorem expand_follows_noting {τ : Type} {view' : View τ} {c : Comparison Fault (σ × List Opening) τ}
    {apart : Path → Prop} (h : view.Noted view' c apart) (fuel : Nat) (stack : List Text) (includedAt : Option Line)
    (source : Text) (p : Path) (s : σ × List Opening) : Follows c (expandNoting view fuel stack includedAt source p)
      (expand view' fuel stack includedAt source p) s := by
  induction fuel generalizing stack includedAt source p s with
  | zero => exact .throw _ s
  | succ fuel ih =>
    have hx := expandNoting_succ view fuel stack includedAt source p s
    have hy : ∀ t, c.states s t → _ := fun t ht =>
      (expand_succ view' fuel stack includedAt source p t).trans (by
        have hlike := h.like ht
        rw [hlike.isFile_eq, hlike.absolute_eq, hlike.isDenied_eq, takeWith_like hlike])
    cases hfile : (view.files s.1).isFile p with
    | error e =>
      simp only [hfile] at hx hy
      exact (Follows.throw _ s).congr hx hy
    | ok there =>
      cases there with
      | false =>
        simp only [hfile] at hx hy
        exact (Follows.throw _ s).congr hx hy
      | true =>
        simp only [hfile] at hx hy
        by_cases hstack : ((view.files s.1).absolute p).toText ∈ stack
        · simp only [hstack, if_true] at hx hy
          exact (Follows.throw _ s).congr hx hy
        · simp only [hstack, if_false] at hx hy
          have hopened : ∀ t, c.states s t → _ := fun t ht =>
            h.opened (o := ⟨p, ((view.files s.1).absolute p).toText⟩) ht rfl
          generalize ((view.files s.1).absolute p).toText = path at hx hy hopened
          have htake : ∀ k raws s', Follows c (takeNoting view fuel stack (view.files s.1) p k raws)
              (takeWith view' fuel stack (view.files s.1) p k raws) s' :=
            readLines_follows fun line target s' => ih _ _ target _ s'
          have hends := h.ends (s := s) (o := ⟨p, path⟩)
          cases hdenied : (view.files s.1).isDenied p with
          | true =>
            simp only [hdenied, if_true] at hx hy
            exact Follows.after (g := fun s => (view.opened path s.1, s.2 ++ [⟨p, path⟩])) (.throw _ _)
              (fun hs => (hends hs).1) hopened hx hy
          | false =>
            simp only [hdenied, Bool.false_eq_true, if_false] at hx hy
            by_cases hapart : apart p
            · exact Follows.after (g := fun s => (view.opened path s.1, s.2 ++ [⟨p, path⟩]))
                (readOn_follows (fun _ _ ht => h.content ht hapart) htake _ _ _ _) (fun hs => (hends hs).1) hopened
                hx hy
            · -- No run counts in which the file is opened, so that only its end is looked at.
              have hblind : ∀ k s', Follows c.blind
                  (readOn view.aside p (takeNoting view fuel stack (view.files s.1) p) maxRounds 0 k)
                  (readOn view' p (takeWith view' fuel stack (view.files s.1) p) maxRounds 0 k) s' :=
                readOn_follows (c := c.blind) (fun _ _ ht => ht.elim) (fun k raws s' => (htake k raws s').blind)
                  maxRounds 0
              intro hcounts
              rw [hx] at hcounts
              exact absurd (hends (hblind _ _ hcounts).1).2 hapart

/-- The reader that notes reads as the one that does not. -/
theorem expandNoting_eq (view : View σ) (fuel : Nat) (source : Text) (p : Path) (s : σ) :
    outcome (expandNoting view fuel [] none source p (s, [])) = outcome (expand view fuel [] none source p s) ∧
      (final (expandNoting view fuel [] none source p (s, []))).1 = final (expand view fuel [] none source p s) := by
  have hnoted : view.Noted view (.lockstep fun s t => t = s.1) (fun _ => True) := {
    like := fun h => h ▸ .refl _
    content := fun h _ => by rw [h]
    opened := fun h _ => congrArg _ h
    ends := fun _ => ⟨trivial, trivial⟩ }
  have hmatches := (expand_follows_noting hnoted fuel [] none source p (s, [])).matches_of rfl
  exact ⟨hmatches.outcome_eq.symm, hmatches.final_states.symm⟩

/-- What a reading notes are the files that are opened. -/
theorem readNoting_eq (view : View σ) (source : Text) (p : Path) (s : σ) :
    outcome (expandNoting view (depth (view.files s)) [] none source p (s, [])) = outcome (read view [] source p s) ∧
      final (expandNoting view (depth (view.files s)) [] none source p (s, [])) =
        (final (read view [] source p s), openings view source p s) := by
  obtain ⟨houtcome, hfinal⟩ := expandNoting_eq view (depth (view.files s)) source p s
  exact ⟨houtcome, Prod.ext hfinal rfl⟩

theorem path_of_mem_openings (ho : o ∈ openings (View.still files) source p ()) :
    o.path = (files.absolute o.through).toText := by
  have hnoted : (View.still files).Noted (View.still files)
      (.lockstep fun s _ => ∀ o ∈ s.2, o.path = (files.absolute o.through).toText) (fun _ => True) := {
    like := fun _ => .refl _
    content := fun _ _ => rfl
    opened := fun h ho o hmem => (List.mem_append.mp hmem).elim (h o) fun h => List.mem_singleton.mp h ▸ ho
    ends := fun _ => ⟨trivial, trivial⟩ }
  have hmatches := (expand_follows_noting hnoted (depth files) [] none source p ((), [])).matches_of (t := ())
    fun _ hmem => absurd hmem List.not_mem_nil
  exact hmatches.final_states o ho

/-- The files that are opened are on record by the paths they are known by. -/
theorem map_path_openings (view : View σ) (source : Text) (p : Path) (s : σ) :
    (openings view source p s).map (·.path) = opened view source p s := by
  have hnoted : view.Noted view.recording (.lockstep fun s t => t = (s.1, s.2.map (·.path))) (fun _ => True) := {
    like := fun h => h ▸ .refl _
    content := fun h _ => by rw [h]; rfl
    opened := fun {s t o} h _ => by
      have hmap : (s.2 ++ [o]).map (·.path) = s.2.map (·.path) ++ [o.path] := List.map_append
      exact (congrArg (view.recording.opened o.path) h).trans (Prod.ext rfl hmap.symm)
    ends := fun _ => ⟨trivial, trivial⟩ }
  have hmatches := (expand_follows_noting hnoted (depth (view.files s)) [] none source p (s, [])).matches_of rfl
  exact (congrArg Prod.snd hmatches.final_states).symm

/-! ### What is noted -/

/-- A file is opened through a path that leads to one, and known by what the path is when it is made absolute. -/
structure Opening.Of (files : Files) (o : Opening) : Prop where
  proper : o.through.Proper
  isFile : files.isFile o.through = .ok true
  path : o.path = (files.absolute o.through).toText

theorem Opening.Of.like (h : Opening.Of files' o) (hlike : files.Like files') : Opening.Of files o where
  proper := h.proper
  isFile := by rw [← hlike.isFile_eq, h.isFile]
  path := by rw [h.path, hlike.absolute_eq]

/-- Files have been opened, and nothing else has changed that tells one file from another. -/
structure Opens (view : View σ) (s s' : σ × List Opening) : Prop where
  like : (view.files s.1).Like (view.files s'.1)
  noted : ∀ o ∈ s'.2, o ∈ s.2 ∨ Opening.Of (view.files s.1) o

instance (view : View σ) : Frame (Opens view) where
  refl _ := ⟨.refl _, fun _ => Or.inl⟩
  trans h h' := ⟨h.like.trans h'.like, fun o ho =>
    (h'.noted o ho).elim (h.noted o) fun hof => Or.inr (hof.like h.like)⟩

/-- Reading and noting changes what opening and noting files changes that satisfy a predicate, as the first one and the
    targets of includes do. -/
theorem leads_noting {R : σ × List Opening → σ × List Opening → Prop} [Frame R] {P : Path → Prop}
    (htarget : ∀ target, P (Path.ofText target))
    (hopened : ∀ s q, P q → (view.files s.1).isFile q = .ok true →
      R s (view.opened ((view.files s.1).absolute q).toText s.1, s.2 ++ [⟨q, ((view.files s.1).absolute q).toText⟩]))
    (fuel : Nat) (stack : List Text) (includedAt : Option Line) (source : Text) (hp : P p) :
    Leads R (expandNoting view fuel stack includedAt source p) := by
  induction fuel generalizing stack includedAt source p with
  | zero => exact .throw _
  | succ fuel ih =>
    intro s
    rw [expandNoting_succ]
    split
    · exact Frame.refl s
    · exact Frame.refl s
    · rename_i hfile
      dsimp only
      split
      · exact Frame.refl s
      · split
        · exact hopened s p hp hfile
        · exact Frame.trans (hopened s p hp hfile)
            (leads_readOn (leads_readLines fun _ target => ih _ _ target (htarget target)) view.aside p maxRounds 0 _ _)

theorem leads_expandNoting (hopened : ∀ path s, (view.files s).Like (view.files (view.opened path s))) (fuel : Nat)
    (stack : List Text) (includedAt : Option Line) (source : Text) (hp : p.Proper) :
    Leads (Opens view) (expandNoting view fuel stack includedAt source p) := by
  refine leads_noting Path.proper_ofText (fun s q hq hfile => ⟨hopened _ s.1, fun o ho => ?_⟩) fuel stack includedAt
    source hp
  rcases List.mem_append.mp ho with ho | ho
  · exact Or.inl ho
  · obtain rfl := List.mem_singleton.mp ho
    exact Or.inr ⟨hq, hfile, rfl⟩

theorem of_mem_openings (hopened : ∀ path s, (view.files s).Like (view.files (view.opened path s))) (hp : p.Proper)
    (ho : o ∈ openings view source p s) : Opening.Of (view.files s) o :=
  ((leads_expandNoting hopened _ [] none source hp (s, [])).noted o ho).resolve_left List.not_mem_nil

end Include

/-! ### Recipe files -/

namespace Recipe

variable {w : World} {p : Path}

/-- Whatever files are opened when a recipe file is read, each is a regular file that the path it is opened through leads
    to, and the absolute path it is known by leads to the same file: unless a `..` takes back a name at which a link
    stands, or the absolute path is too long to be looked up. The reader that notes them reads as the one that does not. -/
theorem read_same_file (ha : w.files.cwd.isAbsolute = true) (hcwd : w.files.cwd.Proper) (hp : p.Proper)
    (source : Text) :
    outcome (expandNoting view (depth w.files) [] none source p (w, [])) = outcome (read view [] source p w) ∧
    final (expandNoting view (depth w.files) [] none source p (w, [])) =
      (final (read view [] source p w), openings view source p w) ∧
    ∀ o ∈ openings view source p w, o.path = (w.files.absolute o.through).toText ∧
      ∃ place content mode, w.files.stat o.through = .ok (place, .file content mode) ∧
        (w.files.tree.NoLinkTakenBack (w.files.cwd.join o.through).names →
          (w.files.reach (Path.ofText o.path)).isOk = true →
          w.files.stat (Path.ofText o.path) = .ok (place, .file content mode)) := by
  obtain ⟨houtcome, hfinal⟩ := readNoting_eq view source p w
  refine ⟨houtcome, hfinal, fun o ho => ?_⟩
  have hof : Opening.Of w.files o :=
    of_mem_openings (fun path w => (World.says_say w (.debug ("reading recipe file " ++ path))).files) hp ho
  obtain ⟨place, content, mode, hstat⟩ := Files.isFile_eq_ok_true hof.isFile
  refine ⟨hof.path, place, content, mode, hstat, fun hback hreach => ?_⟩
  have hread : Path.ofText o.path = w.files.absolute o.through := by
    rw [hof.path]
    exact Path.ofText_toText (hcwd.join hof.proper).collapse (Path.join_isAbsolute ha o.through)
  rw [hread] at hreach ⊢
  cases hq : w.files.reach (w.files.absolute o.through) with
  | error e =>
    rw [hq] at hreach
    cases hreach
  | ok q => exact Files.stat_absolute ha hcwd hof.proper hback hq hstat

/-- A world with files that are included through a link and past a directory. -/
def branches : World :=
  let w := Rehearsal.world "/w" []
    [("/w/r", Utf8.encode "include l/c\n"), ("/w/s/c", Utf8.encode "include d/../x\n"), ("/w/s/d/y", []),
      ("/w/s/x", Utf8.encode "a = 1\n")]
  w.withTree (w.files.tree.set ["w", "l"] (.link "s"))

theorem read_same_file_branches :
    branches.files.cwd.isAbsolute = true ∧ branches.files.cwd.Proper ∧ Path.Proper ⟨.relative, ["r"]⟩ ∧
    openings view "r" ⟨.relative, ["r"]⟩ branches =
      [⟨⟨.relative, ["r"]⟩, "/w/r"⟩, ⟨⟨.root, ["w", "l", "c"]⟩, "/w/l/c"⟩,
        ⟨⟨.root, ["w", "l", "d", "..", "x"]⟩, "/w/l/x"⟩] ∧
    branches.files.tree.NoLinkTakenBack ["w", "l", "d", "..", "x"] ∧
    ∃ place content mode,
      branches.files.stat ⟨.root, ["w", "l", "d", "..", "x"]⟩ = .ok (place, .file content mode) ∧
      branches.files.stat (Path.ofText "/w/l/x") = .ok (place, .file content mode) := by
  have hopenings : openings view "r" ⟨.relative, ["r"]⟩ branches =
      [⟨⟨.relative, ["r"]⟩, "/w/r"⟩, ⟨⟨.root, ["w", "l", "c"]⟩, "/w/l/c"⟩,
        ⟨⟨.root, ["w", "l", "d", "..", "x"]⟩, "/w/l/x"⟩] := by decide +kernel
  have hback : branches.files.tree.NoLinkTakenBack ["w", "l", "d", "..", "x"] := by decide +kernel
  have hcwd : branches.files.cwd.Proper := by decide +kernel
  obtain ⟨-, -, hsame⟩ := read_same_file (w := branches) (p := ⟨.relative, ["r"]⟩) rfl hcwd (by decide +kernel) "r"
  obtain ⟨-, place, content, mode, hstat, hagain⟩ := hsame ⟨⟨.root, ["w", "l", "d", "..", "x"]⟩, "/w/l/x"⟩ (by
    rw [hopenings]
    simp)
  exact ⟨rfl, hcwd, by decide +kernel, hopenings, hback, place, content, mode, hstat,
    hagain hback (by decide +kernel)⟩

/-- A world in which a `..` takes back a link into another directory, where a file of the same name stands. -/
def crossed : World :=
  let w := Rehearsal.world "/w" [] [("/w/b/c/z", []), ("/w/b/x", Utf8.encode "include y\n"),
    ("/w/b/y", Utf8.encode "a = 1\n"), ("/w/y", Utf8.encode "a = 2\n")]
  w.withTree (w.files.tree.set ["w", "l"] (.link "b/c"))

/-- With a link taken back, a file is known by an absolute path that leads nowhere, and what it includes is read from
    another directory than its own. -/
theorem read_other_file :
    openings view "l/../x" (Path.ofText "l/../x") crossed =
      [⟨⟨.relative, ["l", "..", "x"]⟩, "/w/x"⟩, ⟨⟨.root, ["w", "y"]⟩, "/w/y"⟩] ∧
    crossed.files.stat ⟨.relative, ["l", "..", "x"]⟩ =
      .ok (["w", "b", "x"], .file (Utf8.encode "include y\n") Tree.newFileMode) ∧
    crossed.files.stat (Path.ofText "/w/x") = .error .missing := by
  decide +kernel

end Recipe

end Runbook
