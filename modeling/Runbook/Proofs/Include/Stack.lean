import Runbook.Proofs.Include.Following
import Runbook.Proofs.Tree.Nodes
import Runbook.Recipe.Lookup
import Runbook.Rehearsal

/-! # Reading does not depend on the stack

The files that are being read already can only make a reading fail: what a file reads to is the same whether it is read
on its own or from within other files (`read_of_read`, `read_of_opened`), so an include line stands for what its target
reads to on its own (`unfoldsFile_of_read`). A reader that keeps the stack in its state, where it puts a file on it and
takes it off again, does what `expand` does and leaves the stack as it was (`expandKept_eq`). Main statement:
`Recipe.read_in_place`. -/

namespace Runbook

open Effect

variable {σ : Type}

/-- The view with a record of the files that have been opened. -/
def View.recording (view : View σ) : View (σ × List Text) :=
  ⟨fun s => view.files s.1, fun path s => (view.opened path s.1, s.2 ++ [path])⟩

/-- The view with a stack beside the state, which opening a file does not change. -/
def View.beside (view : View σ) : View (σ × List Text) :=
  ⟨fun s => view.files s.1, fun path s => (view.opened path s.1, s.2)⟩

namespace Include

variable {view : View σ} {homes : Homes} {base source : Text} {p : Path} {stack : List Text} {c c' : Cursor}
  {raws : List Text} {lines : List Line} {s s' : σ} {fuel rounds seen : Nat}

/-! ### With other files on the stack -/

theorem read_apply (view : View σ) (stack : List Text) (source : Text) (p : Path) (s : σ) :
    read view stack source p s = expand view (depth (view.files s)) stack none source p s := rfl

/-- A file that reads well while others are being read reads to the same on its own. -/
theorem read_of_read (h : read view stack source p s = .ok lines s') : read view [] source p s = .ok lines s' := by
  have hfollows : Follows (.same fun _ => False) (expand view (depth (view.files s)) stack none source p)
      (expand view (depth (view.files s)) [] none source p) s :=
    expand_follows (.same view _) (fun _ hmem => by cases hmem) (Or.inr fun _ => id) (Nat.le_refl _) (Or.inl rfl)
      source p s
  obtain ⟨_, hread, rfl⟩ := hfollows.ok h trivial rfl
  exact hread

/-- The end of a run with a list of paths beside its state. -/
def beside {α : Type} (stack : List Text) : EStateM.Result Fault σ α → EStateM.Result Fault (σ × List Text) α
  | .ok a s => .ok a (s, stack)
  | .error e s => .error e (s, stack)

/-- The absolute paths of the files a reading opens, one after the other. -/
def opened (view : View σ) (source : Text) (p : Path) (s : σ) : List Text :=
  (final (read view.recording [] source p (s, []))).2

theorem expand_recording (view : View σ) (fuel : Nat) (stack : List Text) (includedAt : Option Line) (source : Text)
    (p : Path) (s : σ) (record : List Text) :
    ∃ record', expand view.recording fuel stack includedAt source p (s, record) =
      beside record' (expand view fuel stack includedAt source p s) := by
  let c : Comparison Fault σ (σ × List Text) := ⟨fun _ => True, fun _ => True, fun s t => t.1 = s⟩
  have hcomparable : view.Comparable view.recording c (fun _ => True) [] := by
    refine .of_files ?_ ?_ fun _ _ _ => ⟨trivial, List.not_mem_nil⟩
    · rintro _ t rfl
      rfl
    · rintro path _ t rfl
      rfl
  have hfollows : Follows c (expand view fuel stack includedAt source p)
      (expand view.recording fuel stack includedAt source p) s :=
    expand_follows hcomparable (fun _ hmem => Or.inl hmem) (Or.inl ⟨rfl, rfl⟩) (Nat.le_refl _) (Or.inl rfl) source p s
  cases hrun : expand view fuel stack includedAt source p s with
  | ok lines s' =>
    obtain ⟨t, hread, rfl⟩ := hfollows.ok hrun trivial (show c.states s (s, record) from rfl)
    exact ⟨t.2, hread⟩
  | error e s' =>
    obtain ⟨t, hread, rfl⟩ := hfollows.error hrun trivial trivial (show c.states s (s, record) from rfl)
    exact ⟨t.2, hread⟩

@[simp] theorem final_beside {α : Type} (stack : List Text) (r : EStateM.Result Fault σ α) :
    final (beside stack r) = (final r, stack) := by
  cases r <;> rfl

@[simp] theorem outcome_beside {α : Type} (stack : List Text) (r : EStateM.Result Fault σ α) :
    outcome (beside stack r) = outcome r := by
  cases r <;> rfl

theorem read_recording (view : View σ) (source : Text) (p : Path) (s : σ) :
    read view.recording [] source p (s, []) = beside (opened view source p s) (read view [] source p s) := by
  obtain ⟨record, hread⟩ := expand_recording view (depth (view.files s)) [] none source p s []
  have hopened : opened view source p s = record := by
    rw [opened, read_apply]
    exact (congrArg (fun r => (final r).2) hread).trans (by rw [final_beside])
  rw [hopened]
  exact hread

/-- A file that reads well on its own reads to the same while files are being read that it does not open. -/
theorem read_of_opened (h : read view [] source p s = .ok lines s')
    (haway : ∀ path ∈ opened view source p s, path ∉ stack) : read view stack source p s = .ok lines s' := by
  -- A run counts in whose record there is nothing that is on the stack.
  let c : Comparison Fault (σ × List Text) σ :=
    ⟨fun s => ∀ path ∈ s.2, path ∉ stack, fun _ => False, fun s t => t = s.1⟩
  have hfollows : Follows c (expand view.recording (depth (view.files s)) [] none source p)
      (expand view (depth (view.files s)) stack none source p) (s, []) := by
    have hcomparable : view.recording.Comparable view c (fun _ => True) stack := by
      refine .of_files ?_ ?_ ?_
      · rintro t _ rfl
        rfl
      · rintro path t _ rfl
        rfl
      · intro path t hends
        exact ⟨fun path' hmem => hends path' (List.mem_append_left _ hmem), hends path List.mem_concat_self⟩
    exact expand_follows hcomparable (fun _ hmem => Or.inr hmem) (Or.inr fun _ => id) (Nat.le_refl _) (Or.inl rfl)
      source p (s, [])
  have hrecorded : read view.recording [] source p (s, []) = .ok lines (s', opened view source p s) := by
    rw [read_recording, h, beside]
  obtain ⟨t, hread, rfl⟩ := hfollows.ok hrecorded haway rfl
  exact hread

/-! ### What stands for an include line -/

/-- What some lines read to when each include line stands for what its target reads to on its own. -/
inductive Unfolds (view : View σ) (homes : Homes) (base : Text) : Cursor → List Text → σ → List Line → σ → Prop
  | nil (c : Cursor) (s : σ) : Unfolds view homes base c [] s [] s
  | own {c : Cursor} {raw : Text} {raws : List Text} {lines : List Line} {s s' : σ} (h : ¬ c.Includes raw)
      (hrest : Unfolds view homes base (c.pass raw) raws s lines s') :
      Unfolds view homes base c (raw :: raws) s ((c.take raw).2 ++ lines) s'
  | included {c : Cursor} {raw path : Text} {raws : List Text} {there lines : List Line} {s s₁ s' : σ}
      (h : c.Includes raw) (hpath : target homes base (c.here raw) = .ok path)
      (hread : read view [] path (Path.ofText path) s = .ok there s₁)
      (hrest : Unfolds view homes base (c.pass raw) raws s₁ lines s') :
      Unfolds view homes base c (raw :: raws) s (there ++ lines) s'

/-- What a file reads to after its first `seen` octets: its lines, and then those that have been added meanwhile. -/
inductive UnfoldsFile (view : View σ) (homes : Homes) (base : Text) (p : Path) :
    Nat → Cursor → σ → List Line → σ → Prop
  | done {seen : Nat} {c : Cursor} {s : σ} (hend : ((view.files s).content p).length ≤ seen)
      (hclosed : c.assembler.block = none) : UnfoldsFile view homes base p seen c s [] s
  | more {seen : Nat} {c : Cursor} {raws : List Text} {first rest : List Line} {s s₁ s' : σ}
      (hmore : seen < ((view.files s).content p).length)
      (hraws : rawLines (((view.files s).content p).drop seen) = (raws, none))
      (hlines : Unfolds view homes base c raws s first s₁)
      (hrest : UnfoldsFile view homes base p ((view.files s).content p).length (c.passAll raws) s₁ rest s') :
      UnfoldsFile view homes base p seen c s (first ++ rest) s'

/-- The reader of the target of an include line that reads it on its own. -/
def onItsOwn (view : View σ) : Line → Text → Reading σ (List Line) := fun _ path => read view [] path (Path.ofText path)

theorem unfolds_of_readLines (h : readLines homes base (onItsOwn view) c raws s = .ok (c', lines) s') :
    Unfolds view homes base c raws s lines s' := by
  induction raws generalizing c lines s with
  | nil =>
    cases h
    exact .nil _ _
  | cons raw raws ih =>
    obtain ⟨⟨c₁, first⟩, s₁, h₁, h⟩ := bind_eq_ok h
    obtain ⟨⟨c₂, more⟩, s₂, h₂, h⟩ := bind_eq_ok h
    cases h
    obtain ⟨rfl, ⟨hown, rfl, rfl⟩ | ⟨path, hincludes, hpath, hread⟩⟩ := readLine_eq_ok h₁
    · exact .own hown (ih h₂)
    · exact .included hincludes hpath hread (ih h₂)

theorem unfoldsFile_of_readOn
    (h : readOn view p (readLines homes base (onItsOwn view)) rounds seen c s = .ok lines s') :
    UnfoldsFile view homes base p seen c s lines s' := by
  induction rounds generalizing seen c lines s with
  | zero =>
    rcases readOn_eq_ok h with ⟨hend, hfinish⟩ | ⟨rounds', c', first, more, s₁, hrounds, -⟩
    · obtain ⟨hclosed, rfl, rfl⟩ := finish_eq_ok_iff.mp hfinish
      exact .done hend hclosed
    · cases hrounds
  | succ rounds ih =>
    rcases readOn_eq_ok h with ⟨hend, hfinish⟩ | ⟨rounds', c', first, more, s₁, hrounds, hlt, hflaw, htake, hmore, rfl⟩
    · obtain ⟨hclosed, rfl, rfl⟩ := finish_eq_ok_iff.mp hfinish
      exact .done hend hclosed
    · cases hrounds
      obtain rfl := readLines_cursor htake
      exact .more hlt (Prod.ext rfl hflaw) (unfolds_of_readLines htake) (ih hmore)

/-- Readings that end well are compared in states in which includes can nest to the same depth. -/
def steady (view : View σ) (n : Nat) : Comparison Fault σ σ :=
  ⟨fun _ => True, fun _ => False, fun s t => s = t ∧ depth (view.files s) = n⟩

theorem read_follows (hdepth : ∀ path s, depth (view.files (view.opened path s)) = depth (view.files s)) {n : Nat}
    (hfuel : fuel ≤ n) (stack : List Text) (includedAt : Option Line) (source : Text) (p : Path) (s : σ) :
    Follows (steady view n) (expand view fuel stack includedAt source p) (read view [] source p) s := by
  have hexpand : Follows (steady view n) (expand view fuel stack includedAt source p)
      (expand view n [] none source p) s := by
    have hcomparable : view.Comparable view (steady view n) (fun _ => True) [] := by
      refine .of_files ?_ ?_ fun _ _ _ => ⟨trivial, List.not_mem_nil⟩
      · rintro s _ ⟨rfl, -⟩
        rfl
      · rintro path s _ ⟨rfl, hs⟩
        exact ⟨rfl, (hdepth path s).trans hs⟩
    exact expand_follows hcomparable (fun _ hmem => by cases hmem) (Or.inr fun _ => id) hfuel (Or.inr fun _ => id)
      source p s
  refine hexpand.congr rfl ?_
  rintro t ⟨rfl, ht⟩
  rw [read_apply, ht]

theorem unfoldsFile_of_read (hdepth : ∀ path s, depth (view.files (view.opened path s)) = depth (view.files s))
    (h : read view stack source p s = .ok lines s') :
    UnfoldsFile view (view.files s).homes ((view.files s).absolute p).directory.toText p 0
      ⟨.ofFile source ((view.files s).absolute p).toText, 1⟩ (view.opened ((view.files s).absolute p).toText s) lines
      s' := by
  obtain ⟨n, hn⟩ := depth_pos (view.files s)
  rw [read_apply, hn] at h
  obtain ⟨-, -, -, h⟩ := expand_succ_eq_ok h
  have htake : ∀ k raws s₁, Follows (steady view (n + 1)) (takeWith view n stack (view.files s) p k raws)
      (readLines (view.files s).homes ((view.files s).absolute p).directory.toText (onItsOwn view) k raws) s₁ :=
    fun k raws s₁ => readLines_follows
      (fun line path s₂ => read_follows hdepth (Nat.le_succ n) _ (some line) path _ s₂) k raws s₁
  have hcontent : ∀ s t, (steady view (n + 1)).states s t → (view.files t).content p = (view.files s).content p := by
    rintro s _ ⟨rfl, -⟩
    rfl
  obtain ⟨_, hread, rfl, -⟩ := (readOn_follows hcontent htake maxRounds 0 _ _).ok h trivial ⟨rfl, (hdepth _ s).trans hn⟩
  exact unfoldsFile_of_readOn hread

/-! ### The stack as it is kept -/

section

variable {α : Type} {act : Reading (σ × List Text) α} {r : EStateM.Result Fault σ α} {path : Text}
  {includedAt : Option Line}

/-- Does something with one more file on the stack, and takes it off again however that ends. -/
def within (path : Text) (act : Reading (σ × List Text) α) : Reading (σ × List Text) α := fun s =>
  match act (s.1, s.2 ++ [path]) with
  | .ok a s => .ok a (s.1, s.2.dropLast)
  | .error e s => .error e (s.1, s.2.dropLast)

/-- Reads the file a path leads to while the files on the stack are being read, as `expand` does, with the stack in the
    state. -/
def expandKept (view : View σ) : (fuel : Nat) → (includedAt : Option Line) → (source : Text) → Path →
    Reading (σ × List Text) (List Line)
  | 0, _, source, _ => throw (.includesTooDeep source)
  | fuel + 1, includedAt, source, p => do
    let (s, stack) ← get
    let files := view.files s
    let here := files.absolute p
    let path := here.toText
    match files.isFile p with
    | .error e => throw (.file e p.toText)
    | .ok false => throw (.load (.missingFile source includedAt))
    | .ok true =>
      if stack.contains path then throw (.load (.cycle (stack ++ [path]) includedAt))
      within path do
        modify (view.beside.opened path)
        if files.isDenied p then throw (.load (.unreadableFile source includedAt))
        let include? := fun line target => expandKept view fuel (some line) target (Path.ofText target)
        readOn view.beside p (readLines files.homes here.directory.toText include?) maxRounds 0 ⟨.ofFile source path, 1⟩

/-- Reads the file a path leads to, as `read` does, with the stack in the state. -/
def readKept (view : View σ) (source : Text) (p : Path) : Reading (σ × List Text) (List Line) := do
  expandKept view (depth (view.files (← get).1)) none source p

theorem within_apply (h : act (s, stack ++ [path]) = beside (stack ++ [path]) r) :
    within path act (s, stack) = beside stack r := by
  unfold within
  dsimp only
  rw [h]
  cases r <;> simp [beside]

/-- Any end counts, and the stack stays as it is. -/
def unmoved (stack : List Text) : Comparison Fault σ (σ × List Text) :=
  ⟨fun _ => True, fun _ => True, fun s t => t = (s, stack)⟩

theorem follows_unmoved_iff {x : Reading σ α} {y : Reading (σ × List Text) α} :
    Follows (unmoved stack) x y s ↔ y (s, stack) = beside stack (x s) := by
  unfold Follows
  constructor
  · intro h
    have hmatches := (h (by cases x s <;> exact (by simp [Comparison.Counts, unmoved]))).2 (s, stack) rfl
    generalize x s = r at hmatches
    generalize y (s, stack) = r' at hmatches
    cases hmatches with
    | ok h => rw [show _ = _ from h]; rfl
    | error h => rw [show _ = _ from h]; rfl
  · intro h _
    refine ⟨trivial, ?_⟩
    rintro _ rfl
    rw [h]
    cases x s with
    | ok a s' => exact .ok rfl
    | error e s' => exact .error rfl

theorem expandKept_eq (view : View σ) (fuel : Nat) (stack : List Text) (includedAt : Option Line) (source : Text)
    (p : Path) (s : σ) : expandKept view fuel includedAt source p (s, stack) =
      beside stack (expand view fuel stack includedAt source p s) := by
  induction fuel generalizing stack includedAt source p s with
  | zero => rfl
  | succ fuel ih =>
    rw [expand_succ, expandKept, get_bind_apply]
    dsimp only
    cases (view.files s).isFile p with
    | error e => rfl
    | ok there =>
      cases there with
      | false => rfl
      | true =>
        dsimp only
        by_cases hstack : ((view.files s).absolute p).toText ∈ stack
        · rw [if_pos hstack, if_pos (List.contains_iff_mem.mpr hstack)]
          rfl
        · rw [if_neg hstack, if_neg (by simpa using hstack)]
          refine within_apply ?_
          rw [modify_bind_apply]
          by_cases hdenied : (view.files s).isDenied p = true
          · rw [if_pos hdenied, if_pos hdenied]
            rfl
          · rw [if_neg hdenied, if_neg hdenied]
            refine follows_unmoved_iff.mp (readOn_follows ?_ (fun k raws s' => ?_) maxRounds 0 _ _)
            · rintro s _ rfl
              rfl
            · exact readLines_follows (fun line path s' => follows_unmoved_iff.mpr (ih ..)) k raws s'

end

/-! ### Recipes -/

theorem depth_of_kinds {files files' : Files}
    (h : files'.tree.entries.map (fun e => e.2.kind) = files.tree.entries.map fun e => e.2.kind) :
    depth files' = depth files := by
  -- Neither the number of things nor whether there is a link depends on more than their kinds.
  have hkind : ∀ files : Files, depth files =
      let kinds := files.tree.entries.map fun e => e.2.kind
      if kinds.any Node.isLink then Nat.pow (kinds.length + 2) ((Tree.maxLinks + 1) * (kinds.length + 2)) + 1
      else 2 * kinds.length + 1 := by
    intro files
    dsimp only
    rw [List.length_map, List.any_map]
    refine if_congr (Bool.eq_iff_iff.mp (congrArg files.tree.entries.any (funext ?_))) rfl rfl
    rintro ⟨place, _ | _ | _⟩ <;> rfl
  rw [hkind, hkind, h]

end Include

namespace Recipe

open Include

theorem depth_opened (path : Text) (w : World) : depth (view.files (view.opened path w)) = depth (view.files w) := by
  show depth (World.say w _).files = depth w.files
  unfold World.say
  generalize Notice.events _ w.verbosity = events
  induction events generalizing w with
  | nil => rfl
  | cons e events ih =>
    rw [List.foldl_cons, ih]
    unfold World.write
    cases w.tee with
    | none => rfl
    | some journal => exact depth_of_kinds (Tree.Like.journal_kinds journal w.files.tree _)

/-- Includes are expanded in place, whatever is being read already: a file that reads well while the files on the stack
    are being read reads to the same on its own; one that reads well on its own reads to the same while files are being
    read that it does not open; each include line stands for what its target reads to on its own; and a stack that is
    kept in the state is left as it was however the reading ends. -/
theorem read_in_place (stack : List Text) (source : Text) (p : Path) (w : World) :
    (∀ lines w', read view stack source p w = .ok lines w' → read view [] source p w = .ok lines w') ∧
    (∀ lines w', read view [] source p w = .ok lines w' → (∀ path ∈ opened view source p w, path ∉ stack) →
      read view stack source p w = .ok lines w') ∧
    (∀ lines w', read view stack source p w = .ok lines w' →
      UnfoldsFile view w.files.homes (w.files.absolute p).directory.toText p 0
        ⟨.ofFile source (w.files.absolute p).toText, 1⟩ (view.opened (w.files.absolute p).toText w) lines w') ∧
    readKept view source p (w, stack) = beside stack (read view stack source p w) :=
  ⟨fun _ _ => read_of_read, fun _ _ => read_of_opened, fun _ _ => unfoldsFile_of_read depth_opened,
    expandKept_eq view (depth w.files) stack none source p w⟩

/-- A world with a file that includes another one twice, by way of two others. -/
def shared : World :=
  Rehearsal.world "/" [] [("/all", Utf8.encode "include a\ninclude b\n"), ("/a", Utf8.encode "include c\nx = 1\n"),
    ("/b", Utf8.encode "y = \"\"\"\ninclude c\n\"\"\"\ninclude c\n"), ("/c", Utf8.encode "z = 2\n")]

/-- What that file reads to. -/
def sharedTexts : List Text := ["z = 2", "x = 1", "y = \"\"\"\ninclude c\n\"\"\"", "z = 2"]

theorem read_in_place_shared : ∃ lines w', lines.map Line.text = sharedTexts ∧
    read view ["/e".toList] "all" ⟨.relative, ["all"]⟩ shared = .ok lines w' ∧
    read view [] "all" ⟨.relative, ["all"]⟩ shared = .ok lines w' ∧
    (∀ path ∈ opened view "all" ⟨.relative, ["all"]⟩ shared, path ∉ ["/d".toList]) ∧
    read view ["/d".toList] "all" ⟨.relative, ["all"]⟩ shared = .ok lines w' ∧
    UnfoldsFile view ⟨[], []⟩ "/" ⟨.relative, ["all"]⟩ 0 ⟨.ofFile "all" "/all", 1⟩ (view.opened "/all" shared) lines
      w' ∧
    readKept view "all" ⟨.relative, ["all"]⟩ (shared, ["/e".toList]) = .ok lines (w', ["/e".toList]) := by
  have hcheck : (match read view ["/e".toList] "all" ⟨.relative, ["all"]⟩ shared with
      | .ok lines _ => decide (lines.map Line.text = sharedTexts)
      | _ => false) = true := by decide +kernel
  have haway : ∀ path ∈ opened view "all" ⟨.relative, ["all"]⟩ shared, path ∉ ["/d".toList] := by decide +kernel
  have hhomes : shared.files.homes = ⟨[], []⟩ := rfl
  have hbase : (shared.files.absolute ⟨.relative, ["all"]⟩).directory.toText = "/".toList := by decide +kernel
  have hpath : (shared.files.absolute ⟨.relative, ["all"]⟩).toText = "/all".toList := by decide +kernel
  split at hcheck
  · rename_i lines w' hread
    obtain ⟨halone, -, hunfolds, hkept⟩ := read_in_place ["/e".toList] "all" ⟨.relative, ["all"]⟩ shared
    have hagain := (read_in_place ["/d".toList] "all" ⟨.relative, ["all"]⟩ shared).2.1
    have hfile := hunfolds lines w' hread
    rw [hhomes, hbase, hpath] at hfile
    rw [hread] at hkept
    exact ⟨lines, w', of_decide_eq_true hcheck, hread, halone lines w' hread, haway,
      hagain lines w' (halone lines w' hread) haway, hfile, hkept⟩
  · cases hcheck

end Recipe

end Runbook
