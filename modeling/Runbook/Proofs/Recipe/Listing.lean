import Runbook.Proofs.Path.Home
import Runbook.Proofs.Recipe.Single

/-! # Listed recipes and recipes referred to by name

The name of a listed recipe is what its file is called, without the suffix (`stem_child`); the reference that is this
name means that file (`locate_name`), unless it begins with a home or leads to something from the working directory. What
is told meanwhile makes no difference to the recipe that is loaded (`loadFile_again`). Main statement: `load_of_loadAll`.
Where a reference leads is asked before the directory is looked at, so that a link with too long a target in the working
directory is in the way of a recipe of that name (`load_of_loadAll_overshadowed`). -/

namespace Runbook

open Effect Include Text World

variable {w w' w₁ w₂ v : World} {name recipeDir source : Text} {names : List Text} {p q : Path} {r : Recipe}
  {rs : List Recipe}

/-! ### Names without slashes -/

namespace Path

/-- A text without a slash is a single name. -/
theorem ofText_name (hne : name ≠ []) (hdot : name ≠ ['.']) (hslash : '/' ∉ name) : ofText name = ⟨.relative, [name]⟩ := by
  have hsplit : splitOn '/' name = [name] :=
    splitOn_joinWith (List.cons_ne_nil name []) fun s hs => List.mem_singleton.mp hs ▸ hslash
  have hanchor : anchorOf name = .relative := List.append_nil name ▸ anchorOf_name_append hne hslash []
  rw [ofText, hanchor, namesOf, hsplit]
  simp [hne, hdot]

/-- A text without a slash is the text of its path, also if it is the working directory. -/
theorem toText_ofText_name (hne : name ≠ []) (hslash : '/' ∉ name) : (ofText name).toText = name := by
  by_cases hdot : name = ['.']
  · rw [hdot]
    rfl
  · rw [ofText_name hne hdot hslash]
    rfl

theorem lastName_child (p : Path) (name : Text) : (p.child name).lastName = name := by simp [lastName, child]

/-- The stem of what ends like a recipe file is the rest, if there is any. -/
theorem stem_child (p : Path) (hne : name ≠ []) : (p.child (name ++ Recipe.suffix)).stem = name := by
  have hupToDot : ((name ++ Recipe.suffix).reverse.dropWhile (· != '.')).reverse = name ++ ['.'] := by
    rw [List.reverse_append]
    show ('.' :: name.reverse).reverse = _
    simp
  rw [stem, lastName_child, hupToDot]
  have hlength : 0 < name.length := List.length_pos_iff.mpr hne
  have hsuffix : Recipe.suffix.length = 4 := rfl
  cases hdotted : name ++ ['.'] with
  | nil => simp at hdotted
  | cons c rest =>
    dsimp only
    rw [← hdotted]
    simp only [List.length_append, List.length_singleton, hsuffix, Bool.or_eq_true, decide_eq_true_eq]
    rw [if_neg (by omega), List.dropLast_concat]

end Path

namespace Files

variable {files : Files}

/-- What is listed is called like something in the tree. -/
theorem exists_of_mem_list (h : name ∈ files.list p) : ∃ e ∈ files.tree.entries, name ∈ e.1 := by
  unfold list at h
  split at h
  · cases h
  · split at h
    · obtain ⟨e, he, hlast⟩ := List.mem_filterMap.mp (List.mem_eraseDups.mp h)
      split at hlast
      · exact ⟨e, he, List.mem_of_getLast? hlast⟩
      · cases hlast
    · cases h

end Files

namespace Recipe

/-! ### Loading while something is told -/

theorem leads_read (source : Text) (p : Path) : Leads Tells (Include.read view [] source p) := fun w =>
  leads_expand (fun _ w => tells_say w rfl) (depth w.files) [] none source p w

theorem leads_loadFile (p : Path) : Leads Tells (loadFile p) := by
  refine Leads.bind (Leads.bind (Action.leads_expandHome p) fun q => leads_read _ q) fun lines =>
    Leads.get_bind fun w => ?_
  cases ofFile w.files.cwd p lines with
  | ok r => exact Frame.refl w
  | error e => exact Frame.refl w

theorem leads_loadFile? (p : Path) : Leads Tells (loadFile? p) := by
  refine Leads.get_bind fun w => Leads.bind (Action.leads_orFault p _) (fun there => ?_) w
  split
  · exact Leads.bind (leads_loadFile p) fun r => .pure _
  · exact .pure _

theorem loadFile?_eq_ok (h : loadFile? p w = .ok (some r) w') : loadFile p w = .ok r w' := by
  unfold loadFile? at h
  rw [get_bind_apply] at h
  obtain ⟨there, w₁, hthere, hrest⟩ := bind_eq_ok h
  have hsame := Action.orFault_final p (w.files.isFile p) w
  rw [hthere, final_ok] at hsame
  rw [hsame] at hrest
  split at hrest
  · obtain ⟨r', w₂, hload, hsome⟩ := bind_eq_ok hrest
    cases hsome
    exact hload
  · cases hrest

/-- A file that makes a recipe makes the same one whatever else has been told. -/
theorem loadFile_again (h : loadFile p w₁ = .ok r w₂) (htells₁ : Tells w w₁)
    (hlog : ∀ q, w.files.homes.expand? p = some q → w.Unopened p.toText q) (htells : Tells w v) :
    ∃ v', loadFile p v = .ok r v' ∧ Tells w v' := by
  have hboth : Telling w w fun w' v' => Tells w w' ∧ Tells w v' :=
    ⟨rfl, rfl, id, fun h hn => ⟨Frame.trans h.1 (tells_say _ hn), Frame.trans h.2 (tells_say _ hn)⟩⟩
  obtain ⟨v', hagain, -, htells'⟩ := (hboth.loadFile (fun q hq => (hlog q hq).offLog) w₁).ok h trivial ⟨htells₁, htells⟩
  exact ⟨v', hagain, htells'⟩

theorem name_of_loadFile (h : loadFile p w = .ok r w') : r.name = p.stem := by
  obtain ⟨lines, -, hmade⟩ := loadFile_eq_ok h
  exact (ofLines_eq_ok hmade).2.1.name

/-! ### Listing -/

theorem loadAll_of_isDirectory (h : w.files.isDirectory (Path.ofText recipeDir) = .ok true) :
    loadAll recipeDir w = (do
      let recipes ← (pathsIn w.files (Path.ofText recipeDir)).mapM loadFile?
      return recipes.filterMap id : Action (List Recipe)) w := by
  rw [loadAll, get_bind_apply]
  dsimp only
  rw [h]
  rfl

/-- The recipes of a directory are made of its files that end like recipe files. -/
theorem exists_of_mem_loadAll (h : loadAll recipeDir w = .ok rs w') (hr : r ∈ rs) :
    ∃ file ∈ w.files.list (Path.ofText recipeDir), endsWith suffix file = true ∧
      ∃ w₁ w₂, Tells w w₁ ∧ loadFile ((Path.ofText recipeDir).child file) w₁ = .ok r w₂ := by
  unfold loadAll at h
  rw [get_bind_apply] at h
  obtain ⟨there, w₁, hthere, hrest⟩ := bind_eq_ok h
  have hsame := Action.orFault_final (Path.ofText recipeDir) (w.files.isDirectory (Path.ofText recipeDir)) w
  rw [hthere, final_ok] at hsame
  rw [hsame] at hrest
  split at hrest
  · cases hrest
  · obtain ⟨found, w₂, hfound, hkept⟩ := bind_eq_ok hrest
    cases hkept
    rw [List.mem_filterMap] at hr
    obtain ⟨_, hmem, rfl⟩ := hr
    obtain ⟨p, hp, w₃, w₄, htells, hload⟩ := mapM_eq_ok leads_loadFile? hfound _ hmem
    obtain ⟨file, hfile, rfl⟩ := List.mem_map.mp hp
    obtain ⟨hlisted, hends⟩ := List.mem_filter.mp (List.mem_mergeSort.mp hfile)
    exact ⟨file, hlisted, hends, w₃, w₄, htells, loadFile?_eq_ok hload⟩

/-- Listing does nothing but tell. -/
theorem leads_loadAll (recipeDir : Text) : Leads Tells (loadAll recipeDir) := by
  refine Leads.get_bind fun w => Leads.bind (Action.leads_orFault _ _) (fun there => ?_) w
  have hrest : Leads Tells (do
      let recipes ← (pathsIn w.files (Path.ofText recipeDir)).mapM loadFile?
      return recipes.filterMap id : Action (List Recipe)) :=
    Leads.bind (.mapM _ leads_loadFile?) fun _ => .pure _
  split
  · exact Leads.bind (.throw _) fun _ => hrest
  · exact hrest

/-! ### Referring by name -/

/-- A name that is nothing in the working directory means the file of that name in the recipe directory. -/
theorem locate_name (hne : name ≠ []) (hslash : '/' ∉ name) (hhome : startsWith "~" name = false)
    (hsuffix : endsWith suffix name = false) (hfile : w.files.isFile (Path.ofText name) = .ok false) (recipeDir : Text) :
    outcome (locate name recipeDir w) = .ok ((Path.ofText recipeDir).child (name ++ suffix)) := by
  have hknown : w.files.homes.expand? (Path.ofText name) = some (Path.ofText name) := by
    refine Homes.expand?_of_beginsAtHome ?_
    by_cases hdot : name = ['.']
    · rw [hdot]
      rfl
    · rw [Path.ofText_name hne hdot hslash]
      exact hhome
  have hcandidate : candidate (Path.ofText name) = ⟨.relative, [name ++ suffix]⟩ := by
    rw [candidate, Path.toText_ofText_name hne hslash, if_neg (ne_true_of_eq_false hsuffix)]
    refine Path.ofText_name (by simp [hne]) (fun h => ?_) (by simpa [suffix] using hslash)
    have := congrArg List.length h
    simp [suffix] at this
  have hparts : ∀ head : Text, '/' ∈ head → startsWith head name = false := by
    intro head hhead
    by_contra hstarts
    exact hslash ((List.isPrefixOf_iff_prefix.mp (Bool.not_eq_false _ ▸ hstarts)).subset hhead)
  have hsought : sought name recipeDir (Path.ofText name) = (Path.ofText recipeDir).child (name ++ suffix) := by
    rw [sought, hcandidate, hparts "./" (by decide), hparts "../" (by decide)]
    rfl
  simp only [locate_outcome, hknown, hfile, hsought]
  rw [if_neg (by simpa using hne)]

/-! ### Listed, then loaded -/

/-- A recipe that is listed can be loaded by its name and is the same then, whatever has been told meanwhile. Its name
    does not end like a recipe file or begin with a home, and can be looked up in the working directory, where it is no
    file; names in the tree hold no slash, and the log, if there is one, is not among what is read. -/
theorem load_of_loadAll (h : loadAll recipeDir w = .ok rs w') (hr : r ∈ rs) (htree : w.files.tree.Lacks '/')
    (hsuffix : endsWith suffix r.name = false) (hhome : startsWith "~" r.name = false)
    (hfile : w.files.isFile (Path.ofText r.name) = .ok false)
    (hlog : ∀ q, w.files.homes.expand? ((Path.ofText recipeDir).child (r.name ++ suffix)) = some q →
      w.Unopened ((Path.ofText recipeDir).child (r.name ++ suffix)).toText q) :
    Tells w w' ∧ ∀ v, Tells w v → ∃ v', load r.name recipeDir v = .ok r v' ∧ Tells w v' := by
  refine ⟨(leads_loadAll recipeDir).ok h, fun v htells => ?_⟩
  obtain ⟨file, hlisted, hends, w₁, w₂, htells₁, hload⟩ := exists_of_mem_loadAll h hr
  obtain ⟨name, rfl⟩ := List.isSuffixOf_iff_suffix.mp hends
  have hslash : '/' ∉ name := by
    obtain ⟨e, he, hname⟩ := Files.exists_of_mem_list hlisted
    exact fun hmem => htree e he _ hname (List.mem_append_left _ hmem)
  have hstem : r.name = ((Path.ofText recipeDir).child (name ++ suffix)).stem := name_of_loadFile hload
  have hne : name ≠ [] := by
    -- The file that is called like the suffix alone keeps it in its name.
    rintro rfl
    have hbare : ((Path.ofText recipeDir).child ([] ++ suffix)).stem = suffix := by
      rw [Path.stem, Path.lastName_child]
      rfl
    rw [hstem, hbare] at hsuffix
    cases hsuffix
  rw [Path.stem_child _ hne] at hstem
  subst hstem
  have hasked : Tells w (v.say (.info ("loading recipe '" ++ r.name ++ "'"))) := Frame.trans htells (tells_say v rfl)
  obtain ⟨v₁, hfound, htold⟩ := locate_told hasked (locate_name hne hslash hhome hsuffix hfile recipeDir)
  have hfiled : Tells w (v₁.say (.info ("recipe file '" ++
      ((Path.ofText recipeDir).child (r.name ++ suffix)).toText ++ "'"))) :=
    Frame.trans (Frame.trans hasked htold) (tells_say v₁ rfl)
  obtain ⟨v', hagain, htells'⟩ := loadFile_again hload htells₁ hlog hfiled
  refine ⟨v', ?_, htells'⟩
  rw [load, Action.inform_bind, bind_of_ok hfound, Action.inform_bind, hagain]

/-! ### Names with dots and blanks -/

/-- What stands in a recipe file. -/
def broth : Text := "[description]\nbrief = b\nfull = f\n[variable]\nx = 1\n[step]\nstep = info ${x}\n"

/-- A world with recipes whose names have dots and blanks. -/
def larder : World := Rehearsal.world "/w" [] [("/w/d/a. .ini", Utf8.encode broth), ("/w/d/..ini", Utf8.encode broth)]

/-- That world with a link in the working directory whose target is too long. -/
def overshadowed : World := larder.withTree (larder.files.tree.set ["w", "a. "] (.link (List.replicate 300 'b')))

/-- The recipe of a file in the directory of recipes. -/
def larderRecipe (name file : Text) : Recipe where
  name
  path := "/w/d/" ++ file
  brief := "b"
  full := "f"
  defaults := [("x", "1")]
  steps := [⟨.info, "${x}", some ⟨"d/" ++ file, "/w/d/" ++ file, 7, "step = info ${x}", none⟩⟩]

theorem loadAll_larder {w : World} (hdirectory : w.files.isDirectory (Path.ofText "d") = .ok true)
    (hlisted : (w.files.list (Path.ofText "d")).filter (endsWith suffix) = ["a. .ini".toList, "..ini"])
    (hload : passes (fun rs _ => decide (rs = [some (larderRecipe "." "..ini"), some (larderRecipe "a. " "a. .ini")]))
      ([(Path.ofText "d").child "..ini", (Path.ofText "d").child "a. .ini"].mapM loadFile? w) = true) :
    ∃ w', loadAll "d" w = .ok [larderRecipe "." "..ini", larderRecipe "a. " "a. .ini"] w' := by
  have hpaths : pathsIn w.files (Path.ofText "d") =
      [(Path.ofText "d").child "..ini", (Path.ofText "d").child "a. .ini"] := by
    rw [pathsIn, hlisted]
    simp [Text.sort, List.mergeSort, List.MergeSort.Internal.splitInTwo, Text.le]
  obtain ⟨_, w', hmapM, hrs⟩ := eq_ok_of_passes hload
  obtain rfl := of_decide_eq_true hrs
  refine ⟨w', ?_⟩
  rw [loadAll_of_isDirectory hdirectory, hpaths, bind_of_ok hmapM]
  rfl

theorem load_of_loadAll_larder : ∃ w', loadAll "d" larder =
      .ok [larderRecipe "." "..ini", larderRecipe "a. " "a. .ini"] w' ∧ larder.files.tree.Lacks '/' ∧
    larder.files.isFile (Path.ofText "a. ") = .ok false ∧
    ∃ v', load "a. " "d" w' = .ok (larderRecipe "a. " "a. .ini") v' ∧ Tells larder v' := by
  have htree : larder.files.tree.Lacks '/' := by
    unfold Tree.Lacks
    decide +kernel
  have hfile : larder.files.isFile (Path.ofText "a. ") = .ok false := by decide +kernel
  obtain ⟨w', hall⟩ := loadAll_larder (w := larder) (by decide +kernel) (by decide +kernel) (by decide +kernel)
  obtain ⟨htells, hload⟩ := load_of_loadAll hall (r := larderRecipe "a. " "a. .ini") (by simp) htree (by decide +kernel)
    (by decide +kernel) hfile (fun _ _ _ _ _ _ _ hlog => by cases hlog)
  exact ⟨w', hall, htree, hfile, hload w' htells⟩

/-- Whether a reference leads to a file is asked before the directory is looked at, and the answer may be a fault although
    the directory has the recipe. -/
theorem load_of_loadAll_overshadowed : ∃ w' u, loadAll "d" overshadowed =
      .ok [larderRecipe "." "..ini", larderRecipe "a. " "a. .ini"] w' ∧
    overshadowed.files.isFile (Path.ofText "a. ") ≠ .ok true ∧
    load "a. " "d" overshadowed = .error (.file .nameTooLong "a. ") u := by
  obtain ⟨w', hall⟩ := loadAll_larder (w := overshadowed) (by decide +kernel) (by decide +kernel) (by decide +kernel)
  have hload : fails (fun e _ => decide (e = .file .nameTooLong "a. ")) (load "a. " "d" overshadowed) = true := by
    decide +kernel
  obtain ⟨_, u, hload, he⟩ := eq_error_of_fails hload
  obtain rfl := of_decide_eq_true he
  exact ⟨w', u, hall, by decide +kernel, hload⟩

end Recipe

end Runbook
