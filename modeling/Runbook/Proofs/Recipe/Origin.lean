import Runbook.Proofs.Include.Attribution
import Runbook.Proofs.Path.Home
import Runbook.Proofs.Path.Lexical
import Runbook.Proofs.Recipe.Containment
import Runbook.Rehearsal

/-! # The file a recipe comes from

A reference is expanded when the file is sought, and the path that is found once more when the file is read, but not when
the recipe is given its path. The steps of a recipe name the file that was read (`Recipe.MadeOf`); the path of the recipe
is that of the same file unless the path that was found begins with a home. Then the recipe directory does, or a home is
not absolute (`Recipe.beginsAtHome_of_locate`). Main statement: `Recipe.load_origin`. -/

namespace Runbook

open Effect Include Text World

variable {w w' : World} {p : Path} {reference recipeDir source path : Text} {raws : List Text} {lines : List Line}
  {line : Line} {r : Recipe}

namespace Include

/-- A logical line that a file reads to is that of lines of the file itself, or is among what the target of an include
    line of the file reads to. -/
inductive Origin (files : Files) (gives : Text → List Text → Prop) (source path : Text) (raws : List Text)
    (line : Line) : Prop
  | own {first count : Nat} (hstands : Stands source path raws first count line)
  | included {x : Stretch} {target : Text} (hincludes : x.Includes files source path raws target)
      (hthere : Expansion files gives target (files.absolute (Path.ofText target)).toText x.lines) (hline : line ∈ x.lines)

theorem Expansion.origin {files : Files} {gives : Text → List Text → Prop} (h : Expansion files gives source path lines) :
    ∃ raws, gives path raws ∧ ∀ line ∈ lines, Origin files gives source path raws line := by
  obtain ⟨hgives, hknown, hthere, -, -⟩ := h
  refine ⟨_, hgives, fun line hline => ?_⟩
  obtain ⟨x, hx, hline⟩ := List.mem_flatMap.mp hline
  rcases hknown x hx with ⟨line', hlines, hstands⟩ | ⟨target, hincludes⟩
  · rw [hlines, List.mem_singleton] at hline
    exact .own (hline ▸ hstands)
  · exact .included hincludes (hthere x hx target hincludes) hline

end Include

namespace Recipe

/-- A recipe is made of the file with an absolute path: a regular file is there, its lines read to logical lines, each of
    which is one of the file itself, with its path, or comes from a file it includes, and the steps are those of its
    section of steps. -/
structure MadeOf (r : Recipe) (w : World) (source path : Text) (raws : List Text) (lines : List Line) : Prop where
  there : ∃ content mode,
    w.files.tree.stat (Path.ofText path) = .ok ((Path.ofText path).names, .file content mode)
  gives : w.Gives path raws
  reads : Expansion w.files w.Gives source path lines
  origin : ∀ line ∈ lines, Origin w.files w.Gives source path raws line
  steps : r.steps.map Step.source = (inSection .steps lines).map some

/-! ### Finding the file -/

/-- A reference means the path it is expanded to, or where the file is sought if nothing is there. -/
theorem locate_eq_ok (h : outcome (locate reference recipeDir w) = .ok p) : ∃ named,
    w.files.homes.expand? (Path.ofText reference) = some named ∧ (p = named ∨ p = sought reference recipeDir named) := by
  rw [locate_outcome] at h
  split at h
  · cases h
  · split at h
    · cases h
    · rename_i named hnamed
      refine ⟨named, hnamed, ?_⟩
      split at h
      · cases h
      · cases h
        exact Or.inl rfl
      · cases h
        exact Or.inr rfl

theorem proper_sought (reference recipeDir : Text) (named : Path) : (sought reference recipeDir named).Proper := by
  have hcandidate : (candidate named).Proper := Path.proper_ofText _
  unfold sought
  split
  · exact hcandidate
  · exact (Path.proper_ofText recipeDir).join hcandidate

theorem beginsAtHome_candidate (h : p.Proper) (hp : p.beginsAtHome = false) : (candidate p).beginsAtHome = false := by
  unfold candidate
  split
  · exact List.append_nil p.toText ▸ Path.beginsAtHome_ofText_append h hp List.not_mem_nil
  · exact Path.beginsAtHome_ofText_append h hp (by decide)

theorem beginsAtHome_sought (reference : Text) (hdir : (Path.ofText recipeDir).beginsAtHome = false) (h : p.Proper)
    (hp : p.beginsAtHome = false) : (sought reference recipeDir p).beginsAtHome = false := by
  unfold sought
  split
  · exact beginsAtHome_candidate h hp
  · exact Path.beginsAtHome_join hdir (beginsAtHome_candidate h hp)

theorem proper_of_locate (h : outcome (locate reference recipeDir w) = .ok p) : p.Proper := by
  obtain ⟨named, hnamed, rfl | rfl⟩ := locate_eq_ok h
  · exact (Path.proper_ofText reference).expand hnamed
  · exact proper_sought reference recipeDir named

/-- What a reference means begins with a home only if the recipe directory does, or if a home is not absolute. -/
theorem beginsAtHome_of_locate (h : outcome (locate reference recipeDir w) = .ok p) (hhomes : w.files.homes.Rooted)
    (hdir : (Path.ofText recipeDir).beginsAtHome = false) : p.beginsAtHome = false := by
  obtain ⟨named, hnamed, hp⟩ := locate_eq_ok h
  have hstays : named.beginsAtHome = false := hhomes.beginsAtHome hnamed
  rcases hp with rfl | rfl
  · exact hstays
  · exact beginsAtHome_sought reference hdir ((Path.proper_ofText reference).expand hnamed) hstays

/-! ### The recipe and its file -/

/-- A recipe is made of the file that its path is expanded to. -/
theorem loadFile_madeOf (h : w.files.Linkless) (hp : p.Proper) (hload : loadFile p w = .ok r w') :
    r.path = (w.files.absolute p).toText ∧ ∃ q raws lines, w.files.homes.expand? p = some q ∧
      r.MadeOf w p.toText (w.files.absolute q).toText raws lines := by
  obtain ⟨lines, hread, hmade⟩ := loadFile_eq_ok hload
  obtain ⟨q, v, hexpand, hlines⟩ := bind_eq_ok hread
  obtain ⟨hq, rfl⟩ := Action.expandHome_eq_ok hexpand
  obtain ⟨hwrites, hreads⟩ :=
    expand_expansion h (hp.expand hq) (depth v.files) [] none p.toText v lines w' (.refl v) hlines
  obtain ⟨raws, hgives, horigin⟩ := hreads.origin
  have hd := (ofLines_eq_ok hmade).2.1
  refine ⟨?_, q, raws, lines, hq, h.stat_of_opens hgives.1, hgives, hreads, horigin, hd.sources⟩
  rw [hd.path, hwrites.files.cwd, Files.absolute]

/-- A recipe that is loaded is made of the file that the path its reference means is expanded to, and its path is that path
    as it was found. So it is the path of the file unless the path that was found begins with a home. That does not happen
    as long as the homes are absolute and the recipe directory does not begin with one, whatever the reference begins
    with. -/
theorem load_origin (h : w.files.Linkless) (hload : load reference recipeDir w = .ok r w') :
    ∃ p q v raws lines, outcome (locate reference recipeDir w) = .ok p ∧ w.files.homes.expand? p = some q ∧ Tells w v ∧
      r.path = (w.files.absolute p).toText ∧ r.MadeOf v p.toText (w.files.absolute q).toText raws lines ∧
      (r.path = (w.files.absolute q).toText ↔ w.files.absolute p = w.files.absolute q) ∧
      (p.beginsAtHome = false → r.MadeOf v p.toText r.path raws lines) ∧
      (w.files.homes.Rooted → (Path.ofText recipeDir).beginsAtHome = false → r.MadeOf v p.toText r.path raws lines) := by
  cases hlocate : outcome (locate reference recipeDir w) with
  | error e =>
    have hfails := load_of_locate_error hlocate
    rw [hload] at hfails
    cases hfails
  | ok p =>
    obtain ⟨v, htells, hsame⟩ := load_of_locate hlocate
    rw [hsame] at hload
    have hproper := proper_of_locate hlocate
    -- That the file was found may have been written to a log before it is read.
    have hlike := htells.said.files
    obtain ⟨hpath, q, raws, lines, hq, hmade⟩ := loadFile_madeOf (h.of_like hlike) hproper hload
    rw [hlike.absolute_eq] at hpath hmade
    rw [hlike.homes] at hq
    have hunexpanded : p.beginsAtHome = false → r.MadeOf v p.toText r.path raws lines := fun hstays => by
      rw [Homes.expand?_of_beginsAtHome hstays] at hq
      cases hq
      exact hpath ▸ hmade
    refine ⟨p, q, v, raws, lines, rfl, hq, htells, hpath, hmade, ?_, hunexpanded, fun hhomes hdir =>
      hunexpanded (beginsAtHome_of_locate hlocate hhomes hdir)⟩
    rw [hpath]
    refine ⟨fun hsame => ?_, fun hsame => congrArg _ hsame⟩
    rw [← h.ofText_absolute hproper, hsame, h.ofText_absolute (hproper.expand hq)]

/-- A world with a recipe in a home, which includes a file beside it. -/
def pantry : World := Rehearsal.world "/w" [("HOME", "/home/cook")]
  [("/home/cook/recipes/x.ini", Utf8.encode "[description]\nbrief = b\nfull = f\n[step]\ninclude y\nstep = exec true\n"),
    ("/home/cook/recipes/y", Utf8.encode "step = info y\n")]

theorem linkless_pantry : pantry.files.Linkless := by
  refine ⟨Tree.linkless_of_entries ?_, by decide +kernel, by decide +kernel⟩
  decide +kernel

/-- The steps of that recipe. -/
def pantrySteps (source : Text) : List Step :=
  [⟨.info, "y", some ⟨"/home/cook/recipes/y", "/home/cook/recipes/y", 1, "step = info y", none⟩⟩,
    ⟨.exec, "true", some ⟨source, "/home/cook/recipes/x.ini", 6, "step = exec true", none⟩⟩]

theorem load_origin_pantry : ∃ r w', load "~/recipes/x" "d" pantry = .ok r w' ∧
    r.path = "/home/cook/recipes/x.ini".toList ∧ r.steps = pantrySteps r.path ∧
    ∃ p v raws lines, outcome (locate "~/recipes/x" "d" pantry) = .ok p ∧ r.MadeOf v p.toText r.path raws lines := by
  have hcheck : passes (fun r _ => decide (r.path = "/home/cook/recipes/x.ini".toList ∧ r.steps = pantrySteps r.path))
      (load "~/recipes/x" "d" pantry) = true := by
    decide +kernel
  obtain ⟨r, w', hload, hr⟩ := eq_ok_of_passes hcheck
  obtain ⟨hpath, hsteps⟩ := of_decide_eq_true hr
  obtain ⟨p, -, v, raws, lines, hp, -, -, -, -, -, -, hmade⟩ := load_origin linkless_pantry hload
  exact ⟨r, w', hload, hpath, hsteps, p, v, raws, lines, hp, hmade (by decide +kernel) (by decide +kernel)⟩

/-- In a recipe directory that begins with a home, the same file is found and read, but its recipe has the path of a file
    that is not there. -/
theorem load_elsewhere : pantry.files.Linkless ∧ ∃ r w', load "x" "~/recipes" pantry = .ok r w' ∧
    r.path = "/w/~/recipes/x.ini".toList ∧ pantry.files.isFile (Path.ofText r.path) = .ok false ∧
    r.steps = pantrySteps "~/recipes/x.ini" := by
  have hcheck : passes (fun r _ => decide (r.path = "/w/~/recipes/x.ini".toList ∧ r.steps = pantrySteps "~/recipes/x.ini"))
      (load "x" "~/recipes" pantry) = true := by
    decide +kernel
  obtain ⟨r, w', hload, hr⟩ := eq_ok_of_passes hcheck
  obtain ⟨hpath, hsteps⟩ := of_decide_eq_true hr
  refine ⟨linkless_pantry, r, w', hload, hpath, ?_, hsteps⟩
  rw [hpath]
  decide +kernel

end Recipe

end Runbook
