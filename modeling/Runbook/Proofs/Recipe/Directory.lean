import Runbook.Proofs.Recipe.Listing
import Runbook.Proofs.Text.Order

/-! # The recipes of a directory

What listing a directory gives (`Recipe.Lists`): the recipe of each regular file in it that is called like a recipe file,
once, in ascending order of what the files are called; or the fault of the first of them that does not load. The names of
the recipes lack the suffix, so they are in ascending order too unless one of them begins with another one and goes on
with something that the suffix comes after (`Text.le_of_le_append`). Main statement: `Recipe.loadAll_complete`.
`Recipe.loadAll_unordered` has such names, and `Recipe.loadAll_locked` a directory that cannot be listed. -/

namespace Runbook

open Effect Include Text World

variable {w w' w₁ : World} {recipeDir : Text} {directory : Path} {names : List Text} {r : Recipe} {rs : List Recipe}
  {found : List (Option Recipe)} {e : Fault}

/-! ### The names in a directory -/

/-- A name is listed once. -/
theorem Files.nodup_list (files : Files) (p : Path) : (files.list p).Nodup := by
  unfold list
  split
  · exact List.nodup_nil
  · split
    · exact nodup_eraseDups _
    · exact List.nodup_nil

namespace Recipe

/-- A name of a regular file in a directory that is called like a recipe file. -/
structure IsFileIn (w : World) (directory : Path) (file : Text) : Prop where
  listed : file ∈ w.files.list directory
  suffix : endsWith suffix file = true
  regular : w.files.isFile (directory.child file) = .ok true

/-- The names are those of the regular files in a directory that are called like recipe files, each of them once, in
    ascending order. -/
structure AreFilesIn (w : World) (directory : Path) (names : List Text) : Prop where
  mem_iff : ∀ {file : Text}, file ∈ names ↔ IsFileIn w directory file
  nodup : names.Nodup
  sorted : names.Pairwise fun file file' => Text.le file file' = true

/-- The recipe is that of a file in a directory; something may have been told before it was loaded. -/
def IsLoadedFrom (w : World) (directory : Path) (file : Text) (r : Recipe) : Prop :=
  ∃ w₁ w₂, Tells w w₁ ∧ loadFile (directory.child file) w₁ = .ok r w₂

/-- How listing the recipes of a directory ends. -/
inductive Lists (recipeDir : Text) (w : World) : EStateM.Result Fault World (List Recipe) → Prop
  /-- The directory cannot be looked up. -/
  | unknown {e : FileError} (h : w.files.isDirectory (Path.ofText recipeDir) = .error e) :
    Lists recipeDir w (.error (.file e (Path.ofText recipeDir).toText) w)
  | missing (h : w.files.isDirectory (Path.ofText recipeDir) = .ok false) :
    Lists recipeDir w (.error (.load (.missingDirectory (Path.ofText recipeDir).toText)) w)
  /-- What is listed cannot be looked up. -/
  | unknownFile {file : Text} {e : FileError} {w' : World}
      (h : w.files.isDirectory (Path.ofText recipeDir) = .ok true) (hlisted : file ∈ w.files.list (Path.ofText recipeDir))
      (hsuffix : endsWith suffix file = true)
      (hfile : w.files.isFile ((Path.ofText recipeDir).child file) = .error e) (htells : Tells w w') :
    Lists recipeDir w (.error (.file e ((Path.ofText recipeDir).child file).toText) w')
  /-- A file does not load. -/
  | faulty {file : Text} {e : Fault} {w₁ w' : World} (h : w.files.isDirectory (Path.ofText recipeDir) = .ok true)
      (hfile : IsFileIn w (Path.ofText recipeDir) file) (htells : Tells w w₁)
      (hload : loadFile ((Path.ofText recipeDir).child file) w₁ = .error e w') :
    Lists recipeDir w (.error e w')
  /-- Every file loads. -/
  | recipes {names : List Text} {rs : List Recipe} {w' : World}
      (h : w.files.isDirectory (Path.ofText recipeDir) = .ok true)
      (hnames : AreFilesIn w (Path.ofText recipeDir) names)
      (hloaded : List.Forall₂ (IsLoadedFrom w (Path.ofText recipeDir)) names rs) (htells : Tells w w') :
    Lists recipeDir w (.ok rs w')

/-- The names that are looked up in a directory, and those of them that are regular files. -/
theorem areFilesIn_filter (w : World) (directory : Path) : AreFilesIn w directory
    ((Text.sort ((w.files.list directory).filter (endsWith suffix))).filter fun file =>
      w.files.isFile (directory.child file) = .ok true) where
  mem_iff {file} := by
    rw [List.mem_filter, Text.sort, List.mem_mergeSort, List.mem_filter, decide_eq_true_eq]
    exact ⟨fun h => ⟨h.1.1, h.1.2, h.2⟩, fun h => ⟨⟨h.listed, h.suffix⟩, h.regular⟩⟩
  nodup := ((List.mergeSort_perm _ _).nodup_iff.mpr ((w.files.nodup_list directory).filter _)).filter _
  sorted := (Text.sorted_sort _).sublist List.filter_sublist

/-! ### Loading the files in a row -/

/-- What loading a file that may be there ends with; whether it is there is not changed by what has been told. -/
theorem loadFile?_apply {p : Path} (htells : Tells w w₁) : loadFile? p w₁ =
    match w.files.isFile p, loadFile p w₁ with
    | .error e, _ => .error (.file e p.toText) w₁
    | .ok false, _ => .ok none w₁
    | .ok true, .ok r w₂ => .ok (some r) w₂
    | .ok true, .error e w₂ => .error e w₂ := by
  rw [loadFile?, get_bind_apply, htells.said.files.isFile_eq]
  cases w.files.isFile p with
  | error e => rfl
  | ok there =>
    cases there with
    | false => rfl
    | true =>
      show (loadFile p >>= fun r => pure (some r)) w₁ = _
      cases hload : loadFile p w₁ with
      | ok r w₂ => rw [bind_of_ok hload, pure_apply]
      | error e w₂ => rw [bind_of_error hload]

/-- What loading some files in a row gives: the recipes of those that are there. -/
theorem mapM_loadFile?_eq_ok (htells : Tells w w₁)
    (h : (names.map directory.child).mapM loadFile? w₁ = .ok found w') : List.Forall₂ (IsLoadedFrom w directory)
      (names.filter fun file => w.files.isFile (directory.child file) = .ok true) (found.filterMap id) := by
  induction names generalizing w₁ found with
  | nil =>
    cases h
    exact .nil
  | cons file names ih =>
    rw [List.map_cons, List.mapM_cons] at h
    obtain ⟨first, w₂, hfirst, h⟩ := bind_eq_ok h
    obtain ⟨rest, w₃, hrest, h⟩ := bind_eq_ok h
    cases h
    have ih := ih (Frame.trans htells ((leads_loadFile? _).ok hfirst)) hrest
    rw [loadFile?_apply htells] at hfirst
    split at hfirst
    · cases hfirst
    · rename_i hfile
      cases hfirst
      rwa [List.filter_cons_of_neg (by simp [hfile])]
    · rename_i hfile hload
      cases hfirst
      rw [List.filter_cons_of_pos (by simp [hfile])]
      exact .cons ⟨w₁, w₂, htells, hload⟩ ih
    · cases hfirst

/-- Why loading some files in a row fails: because one of them cannot be looked up, or does not load. -/
theorem mapM_loadFile?_eq_error (htells : Tells w w₁)
    (h : (names.map directory.child).mapM loadFile? w₁ = .error e w') : ∃ file ∈ names,
      (∃ cause, w.files.isFile (directory.child file) = .error cause ∧
        e = .file cause (directory.child file).toText) ∨
      w.files.isFile (directory.child file) = .ok true ∧
        ∃ w₂, Tells w w₂ ∧ loadFile (directory.child file) w₂ = .error e w' := by
  induction names generalizing w₁ with
  | nil => cases h
  | cons file names ih =>
    rw [List.map_cons, List.mapM_cons] at h
    rcases bind_eq_error h with h | ⟨first, w₂, hfirst, h⟩
    · refine ⟨file, List.mem_cons_self, ?_⟩
      rw [loadFile?_apply htells] at h
      split at h
      · rename_i hfile
        cases h
        exact Or.inl ⟨_, hfile, rfl⟩
      · cases h
      · cases h
      · rename_i hfile hload
        cases h
        exact Or.inr ⟨hfile, w₁, htells, hload⟩
    · rcases bind_eq_error h with h | ⟨rest, w₃, -, h⟩
      · obtain ⟨file', hmem, hcause⟩ := ih (Frame.trans htells ((leads_loadFile? _).ok hfirst)) h
        exact ⟨file', List.mem_cons_of_mem file hmem, hcause⟩
      · cases h

/-- Listing ends in one of these ways. -/
theorem loadAll_lists (recipeDir : Text) (w : World) : Lists recipeDir w (loadAll recipeDir w) := by
  cases hdirectory : w.files.isDirectory (Path.ofText recipeDir) with
  | error e =>
    have hload : loadAll recipeDir w = .error (.file e (Path.ofText recipeDir).toText) w := by
      rw [loadAll, get_bind_apply]
      dsimp only
      rw [hdirectory]
      rfl
    exact hload ▸ .unknown hdirectory
  | ok there =>
    cases there with
    | false =>
      have hload : loadAll recipeDir w = .error (.load (.missingDirectory (Path.ofText recipeDir).toText)) w := by
        rw [loadAll, get_bind_apply]
        dsimp only
        rw [hdirectory]
        rfl
      exact hload ▸ .missing hdirectory
    | true =>
      have htells := leads_loadAll recipeDir w
      rw [loadAll_of_isDirectory hdirectory] at htells ⊢
      cases hfound : (pathsIn w.files (Path.ofText recipeDir)).mapM loadFile? w with
      | ok found w' =>
        rw [bind_of_ok hfound] at htells ⊢
        exact .recipes hdirectory (areFilesIn_filter w _) (mapM_loadFile?_eq_ok (Frame.refl w) hfound) htells
      | error e w' =>
        rw [bind_of_error hfound] at htells ⊢
        obtain ⟨file, hmem, hcause⟩ := mapM_loadFile?_eq_error (Frame.refl w) hfound
        obtain ⟨hlisted, hsuffix⟩ := List.mem_filter.mp (List.mem_mergeSort.mp hmem)
        rcases hcause with ⟨cause, hfile, rfl⟩ | ⟨hfile, w₂, htold, hload⟩
        · exact .unknownFile hdirectory hlisted hsuffix hfile htells
        · exact .faulty hdirectory ⟨hlisted, hsuffix, hfile⟩ htold hload

/-! ### The names of the recipes -/

/-- The first text comes before the second one with the suffix after both: so it does without it, or it begins with the
    second one, and what it goes on with comes before the suffix. -/
def InOrder (s t : Text) : Prop := Text.le s t = true ∨ ∃ u, u ≠ [] ∧ s = t ++ u ∧ Text.le (u ++ suffix) suffix = true

theorem stem_suffix (directory : Path) : (directory.child suffix).stem = suffix := by
  rw [Path.stem, Path.lastName_child]
  rfl

/-- Nothing that the suffix ends with comes before it. -/
theorem not_le_suffix {head u : Text} (hhead : head ≠ []) (hu : u ≠ []) (h : suffix = head ++ u) :
    Text.le u suffix = false := by
  obtain ⟨c, head, rfl⟩ := List.exists_cons_of_ne_nil hhead
  have htail : u <:+ ['i', 'n', 'i'] := ⟨head, (List.cons.inj h).2.symm⟩
  simp only [List.suffix_cons_iff, List.suffix_nil, hu, or_false] at htail
  rcases htail with rfl | rfl | rfl <;> rfl

/-- The names of recipes are in the order of what their files are called. -/
theorem inOrder_stem {file file' : Text} (directory : Path) (hends : endsWith suffix file = true)
    (hends' : endsWith suffix file' = true) (h : Text.le file file' = true) :
    InOrder (directory.child file).stem (directory.child file').stem := by
  obtain ⟨name, rfl⟩ := List.isSuffixOf_iff_suffix.mp hends
  obtain ⟨name', rfl⟩ := List.isSuffixOf_iff_suffix.mp hends'
  by_cases hname : name = []
  · subst hname
    rw [List.nil_append] at h ⊢
    rw [stem_suffix]
    by_cases hname' : name' = []
    · subst hname'
      rw [List.nil_append, stem_suffix]
      exact Or.inl (Text.le_refl suffix)
    · rw [Path.stem_child directory hname']
      rcases Text.le_of_le_append_left h with h | ⟨u, hu, hsplit, hle⟩
      · exact Or.inl h
      · rw [not_le_suffix hname' hu hsplit] at hle
        cases hle
  · rw [Path.stem_child directory hname]
    by_cases hname' : name' = []
    · subst hname'
      rw [List.nil_append] at h ⊢
      rw [stem_suffix]
      exact Or.inl (Text.le_trans (Text.le_append name suffix) h)
    · rw [Path.stem_child directory hname']
      exact Text.le_of_le_append h

theorem names_eq_stems (h : List.Forall₂ (IsLoadedFrom w directory) names rs) :
    rs.map Recipe.name = names.map fun file => (directory.child file).stem := by
  induction h with
  | nil => rfl
  | cons hload _ ih =>
    obtain ⟨w₁, w₂, -, hload⟩ := hload
    rw [List.map_cons, List.map_cons, name_of_loadFile hload, ih]

theorem inOrder_names (hnames : AreFilesIn w directory names) (h : List.Forall₂ (IsLoadedFrom w directory) names rs) :
    (rs.map Recipe.name).Pairwise InOrder := by
  rw [names_eq_stems h, List.pairwise_map]
  refine hnames.sorted.imp_of_mem fun {file file'} hfile hfile' hle => ?_
  exact inOrder_stem directory (hnames.mem_iff.mp hfile).suffix (hnames.mem_iff.mp hfile').suffix hle

theorem loadAll_of_isDenied (hdirectory : w.files.isDirectory (Path.ofText recipeDir) = .ok true)
    (hdenied : w.files.isDenied (Path.ofText recipeDir) = true) : loadAll recipeDir w = .ok [] w := by
  have hlist : w.files.list (Path.ofText recipeDir) = [] := by rw [Files.list, if_pos hdenied]
  rw [loadAll_of_isDirectory hdirectory, pathsIn, hlist]
  simp [Text.sort]

/-- Listing a directory gives the recipe of each file in it that is called like a recipe file, once, and their names are in
    order with the suffix; or it fails because the directory is none, or because of one of its files. It does not fail if
    all of them can be looked up and load. A directory that cannot be listed has no files. -/
theorem loadAll_complete (recipeDir : Text) (w : World) : Lists recipeDir w (loadAll recipeDir w) ∧
    (∀ rs w', loadAll recipeDir w = .ok rs w' → (rs.map Recipe.name).Pairwise InOrder) ∧
    (w.files.isDirectory (Path.ofText recipeDir) = .ok true →
      (∀ file ∈ w.files.list (Path.ofText recipeDir), endsWith suffix file = true →
        ∃ there, w.files.isFile ((Path.ofText recipeDir).child file) = .ok there) →
      (∀ file, IsFileIn w (Path.ofText recipeDir) file → ∀ v, Tells w v →
        ∃ r v', loadFile ((Path.ofText recipeDir).child file) v = .ok r v') →
      ∃ names rs w', AreFilesIn w (Path.ofText recipeDir) names ∧
        List.Forall₂ (IsLoadedFrom w (Path.ofText recipeDir)) names rs ∧ loadAll recipeDir w = .ok rs w') ∧
    (w.files.isDirectory (Path.ofText recipeDir) = .ok true → w.files.isDenied (Path.ofText recipeDir) = true →
      loadAll recipeDir w = .ok [] w) := by
  have hlists := loadAll_lists recipeDir w
  refine ⟨hlists, fun rs w' hload => ?_, fun hdirectory hknown hloads => ?_, fun hdirectory hdenied => ?_⟩
  · rw [hload] at hlists
    cases hlists with
    | recipes _ hnames hloaded _ => exact inOrder_names hnames hloaded
  · generalize loadAll recipeDir w = result at hlists ⊢
    cases hlists with
    | unknown h =>
      rw [hdirectory] at h
      cases h
    | missing h =>
      rw [hdirectory] at h
      cases h
    | unknownFile _ hlisted hsuffix hfile _ =>
      obtain ⟨there, hthere⟩ := hknown _ hlisted hsuffix
      rw [hthere] at hfile
      cases hfile
    | faulty _ hfile htells hload =>
      obtain ⟨r, v', hloaded⟩ := hloads _ hfile _ htells
      rw [hloaded] at hload
      cases hload
    | recipes _ hnames hloaded _ => exact ⟨_, _, _, hnames, hloaded, rfl⟩
  · exact loadAll_of_isDenied hdirectory hdenied

/-- A world with two recipes one of whose names begins with the other one, a file that is included, and a directory that is
    called like a recipe file. -/
def hyphened : World := Rehearsal.world "/w" [] [("/w/d/a.ini", Utf8.encode broth), ("/w/d/a-b.ini", Utf8.encode broth),
  ("/w/d/c.inc", []), ("/w/d/e.ini/x", [])]

/-- What stands in a directory of that world, and which of it is a file called like a recipe file. -/
theorem isFileIn_hyphened (file : Text) :
    IsFileIn hyphened (Path.ofText "d") file ↔ file = "a.ini".toList ∨ file = "a-b.ini".toList := by
  constructor
  · rintro ⟨hlisted, hsuffix, hregular⟩
    have hall : ∀ name ∈ hyphened.files.list (Path.ofText "d"), endsWith suffix name = true →
        hyphened.files.isFile ((Path.ofText "d").child name) = .ok true →
          name = "a.ini".toList ∨ name = "a-b.ini".toList := by decide +kernel
    exact hall file hlisted hsuffix hregular
  · rintro (rfl | rfl)
    · exact ⟨by decide +kernel, by decide +kernel, by decide +kernel⟩
    · exact ⟨by decide +kernel, by decide +kernel, by decide +kernel⟩

theorem loadAll_complete_hyphened : ∃ names rs w', loadAll "d" hyphened = .ok rs w' ∧ names.Nodup ∧
    (∀ file, file ∈ names ↔ file = "a.ini".toList ∨ file = "a-b.ini".toList) ∧
    List.Forall₂ (IsLoadedFrom hyphened (Path.ofText "d")) names rs ∧ (rs.map Recipe.name).Pairwise InOrder := by
  have hknown : ∀ file ∈ hyphened.files.list (Path.ofText "d"), endsWith suffix file = true →
      ∃ there, hyphened.files.isFile ((Path.ofText "d").child file) = .ok there := by
    have hall : ∀ file ∈ hyphened.files.list (Path.ofText "d"), endsWith suffix file = true →
        ∃ there ∈ [true, false], hyphened.files.isFile ((Path.ofText "d").child file) = .ok there := by decide +kernel
    exact fun file hfile hends => (hall file hfile hends).imp fun there h => h.2
  have hloads : ∀ file, IsFileIn hyphened (Path.ofText "d") file → ∀ v, Tells hyphened v →
      ∃ r v', loadFile ((Path.ofText "d").child file) v = .ok r v' := by
    intro file hfile v htells
    -- There is no log in this world, so what has been told since makes no difference to a file that loads.
    have hload : passes (fun _ _ => true) (loadFile ((Path.ofText "d").child file) hyphened) = true := by
      rcases (isFileIn_hyphened file).mp hfile with rfl | rfl <;> decide +kernel
    obtain ⟨r, w', hload, -⟩ := eq_ok_of_passes hload
    obtain ⟨v', hagain, -⟩ := loadFile_again hload (Frame.refl hyphened) (fun _ _ _ _ _ _ _ hlog => by cases hlog) htells
    exact ⟨r, v', hagain⟩
  obtain ⟨-, horder, hcomplete, -⟩ := loadAll_complete "d" hyphened
  obtain ⟨names, rs, w', hnames, hloaded, hall⟩ := hcomplete (by decide +kernel) hknown hloads
  exact ⟨names, rs, w', hall, hnames.nodup, fun file => hnames.mem_iff.trans (isFileIn_hyphened file), hloaded,
    horder rs w' hall⟩

/-- The names are in the order of what the files are called, which is not their own. -/
theorem loadAll_unordered : ∃ rs w', loadAll "d" hyphened = .ok rs w' ∧ rs.map Recipe.name = ["a-b".toList, "a"] ∧
    Text.le "a-b" "a" = false := by
  have hpaths : pathsIn hyphened.files (Path.ofText "d") =
      ["a-b.ini".toList, "a.ini", "e.ini"].map (Path.ofText "d").child := by
    have hlisted : (hyphened.files.list (Path.ofText "d")).filter (endsWith suffix) =
        ["a.ini".toList, "a-b.ini", "e.ini"] := by decide +kernel
    rw [pathsIn, hlisted]
    simp [Text.sort, List.mergeSort, List.MergeSort.Internal.splitInTwo, Text.le]
  have hload : passes (fun found _ => decide ((found.filterMap id).map Recipe.name = ["a-b".toList, "a"]))
      ((["a-b.ini".toList, "a.ini", "e.ini"].map (Path.ofText "d").child).mapM loadFile? hyphened) = true := by
    decide +kernel
  obtain ⟨found, w', hmapM, hnames⟩ := eq_ok_of_passes hload
  refine ⟨found.filterMap id, w', ?_, of_decide_eq_true hnames, by decide⟩
  rw [loadAll_of_isDirectory (by decide +kernel), hpaths, bind_of_ok hmapM]
  rfl

/-- The same world, whose directory of recipes is denied. -/
def locked : World := { hyphened with files := { hyphened.files with denied := ["/w/d"] } }

/-- A directory that cannot be listed is one without recipes. -/
theorem loadAll_locked : locked.files.isFile (Path.ofText "d/a.ini") = .ok true ∧ loadAll "d" locked = .ok [] locked :=
  ⟨by decide +kernel, loadAll_of_isDenied (by decide +kernel) (by decide +kernel)⟩

end Recipe

end Runbook
