import Runbook.Proofs.Include.Openings
import Runbook.Proofs.Recipe.ExecLine
import Runbook.Proofs.Recipe.Loading
import Runbook.Proofs.Telling

/-! # Recipes with a single step

A step adds to the steps that are there already and is not looked at afterwards (`fill_steps`), so that a recipe in which
nothing but a step is missing is complete with one more line (`ofLines_single`). A file that holds such a recipe, its step
running a command, is read from the octets of that line (`Recipe.Single.read_still`), whatever is told meanwhile, as long
as the log is not among what is read (`Recipe.read_eq`; for two worlds that are told the same, `Recipe.Telling.loadFile`),
and found as it would be without (`Recipe.locate_told`). Main statement: `Recipe.Single.load`. -/

namespace Runbook

open Effect Include Text World

variable {before after lines : List Line} {line : Line} {name path source : Text} {r r' : Recipe} {step : Step}
  {current : Option Section} {w v v' : World} {files : Files} {p q : Path} {words : List Text}

/-! ### Steps -/

/-- What is added to the steps does not depend on those that are there, and neither does anything else. -/
theorem assign_steps_append (h : r.assign current line = .ok r') : ∃ more, r'.steps = r.steps ++ more ∧
    ∀ steps, ({ r with steps } : Recipe).assign current line = .ok { r' with steps := steps ++ more } := by
  obtain ⟨f, hdoes, rfl, hassign⟩ := exists_does h
  cases hdoes with
  | step _ => exact ⟨[_], rfl, fun steps => hassign _⟩
  | brief | full | declare _ =>
    exact ⟨[], (List.append_nil _).symm, fun steps => by rw [hassign, List.append_nil]⟩

theorem fill_steps (h : r.fill current lines = .ok r') : ∃ more, r'.steps = r.steps ++ more ∧
    ∀ steps, ({ r with steps } : Recipe).fill current lines = .ok { r' with steps := steps ++ more } := by
  induction lines generalizing r current with
  | nil =>
    cases h
    exact ⟨[], (List.append_nil _).symm, fun steps => by rw [List.append_nil]; rfl⟩
  | cons line lines ih =>
    cases hline : line.isHeader with
    | true =>
      rw [Recipe.fill, if_pos hline] at h
      obtain ⟨more, hmore, hfill⟩ := ih h
      exact ⟨more, hmore, fun steps => by rw [Recipe.fill, if_pos hline]; exact hfill steps⟩
    | false =>
      rw [fill_assignment hline] at h
      obtain ⟨r₁, hassign, hrest⟩ := exists_of_bind_eq_ok h
      obtain ⟨first, hfirst, hassigned⟩ := assign_steps_append hassign
      obtain ⟨more, hmore, hfill⟩ := ih hrest
      refine ⟨first ++ more, by rw [hmore, hfirst, List.append_assoc], fun steps => ?_⟩
      rw [fill_assignment hline, hassigned]
      exact (hfill _).trans (by rw [List.append_assoc])

/-- With the line of a step, a recipe is complete in which nothing but a step is missing. -/
theorem ofLines_single (hsection : lastSection before = some .steps) (hfits : Fits before line)
    (hline : line.isHeader = false) (ha : line.assignment = .ok (line.key, line.assigned))
    (hstep : Step.ofValue line.assigned line = .ok step) (hvariables : inSection .declarations (before ++ after) = [])
    (h : Recipe.ofLines name path (before ++ after) = .error (.incomplete .steps name)) :
    ∃ r, Recipe.ofLines name path (before ++ line :: after) = .ok r ∧ r.defaults = [] ∧ r.steps = [step] := by
  have hreads := ofLines_eq_iff.mp h
  generalize hx : (Except.error (.incomplete .steps name) : Except LoadError Recipe) = x at hreads
  cases hreads with
  | noSteps hplaced hsound hd hbrief hfull hsteps =>
    rename_i r₀
    have hfill := fill_eq_ok hplaced hsound hd
    rw [← lastSection_nil, fill_append, List.nil_append] at hfill
    obtain ⟨r₁, hbefore, hafter⟩ := exists_of_bind_eq_ok hfill
    obtain ⟨more, hmore, hrest⟩ := fill_steps hafter
    rw [hsteps] at hmore
    obtain ⟨hnone, rfl⟩ := List.append_eq_nil_iff.mp hmore.symm
    have hassign : r₁.assign (lastSection before) line = .ok { r₁ with steps := [step] } := by
      rw [hsection, assign_steps ha, hstep, hnone]
      rfl
    refine ⟨{ r₀ with steps := [step] }, ?_, ?_, rfl⟩
    · rw [ofLines_append (hplaced.insert hline hfits) hline hbefore, hassign]
      show (Recipe.fill _ _ _ >>= Recipe.complete) = _
      rw [hrest]
      show Recipe.complete _ = _
      simp [Recipe.complete, hbrief, hfull]
    · show r₀.defaults = []
      rw [hd.defaults, hvariables]
      rfl
  | faulty hplaced hl hdone hline hcarried =>
    cases hx
    cases hcarried
  | _ => cases hx

/-! ### Reading while something is told -/

namespace World

/-- A path does not lead to the log. -/
def OffLog (w : World) (p : Path) : Prop := ∀ place node, w.files.stat p = .ok (place, node) → w.logPlace ≠ some place

instance (w : World) (p : Path) : Decidable (w.OffLog p) :=
  decidable_of_iff (∀ found ∈ (w.files.stat p).toOption, w.logPlace ≠ some found.1)
    ⟨fun h place node hstat => h (place, node) (mem_toOption.mpr hstat),
      fun h found hfound => h found.1 found.2 (mem_toOption.mp hfound)⟩

/-- The log is not one of the files that are opened when the file a path leads to is read. -/
def Unopened (w : World) (source : Text) (p : Path) : Prop :=
  ∀ q : Path, (w.files.absolute q).toText ∈ opened (View.still w.files) source p () → w.OffLog q

/-- None of the files that are opened when the file a path leads to is read is the log. -/
def OpensOffLog (w : World) (source : Text) (p : Path) : Prop :=
  ∀ o ∈ openings (View.still w.files) source p (), w.OffLog o.through

instance (w : World) (source : Text) (p : Path) : Decidable (w.OpensOffLog source p) :=
  inferInstanceAs (Decidable (∀ o ∈ openings (View.still w.files) source p (), w.OffLog o.through))

theorem Unopened.offLog (h : w.Unopened source p) : w.OpensOffLog source p := by
  intro o ho
  refine h o.through ?_
  rw [← path_of_mem_openings ho, ← map_path_openings]
  exact List.mem_map_of_mem ho

theorem Tells.content_eq (h : Tells w v) (hp : w.OffLog p) : v.files.content p = w.files.content p :=
  h.said.files.content_eq fun place node hstat => h.notes.tree.node place (hp place node hstat)

end World

/-- The world after the opening of files has been said. -/
def Recipe.reported (paths : List Text) (w : World) : World := paths.foldl (fun w path => view.opened path w) w

theorem Recipe.reported_concat (paths : List Text) (path : Text) (w : World) :
    reported (paths ++ [path]) w = view.opened path (reported paths w) := by
  simp [reported, List.foldl_append]

theorem Recipe.tells_reported (paths : List Text) (w : World) : Tells w (reported paths w) := by
  induction paths generalizing w with
  | nil => exact Frame.refl w
  | cons path paths ih => exact Frame.trans (tells_say w rfl) (ih (view.opened path w))

/-- Telling something, before and while a file is read, makes no difference to how the reading ends, and reading tells
    nothing but which files are opened, as long as none of them is the log. -/
theorem Recipe.read_eq (htells : Tells w v) (hlog : w.OpensOffLog source p) :
    outcome (Include.read view [] source p v) = outcome (Include.read (View.still w.files) [] source p ()) ∧
      final (Include.read view [] source p v) = reported (opened (View.still w.files) source p ()) v := by
  -- A run counts if the log is not among the files it opens.
  let c : Comparison Fault (Unit × List Opening) World :=
    ⟨fun s => ∀ o ∈ s.2, w.OffLog o.through, fun _ => True, fun s v' => v' = reported (s.2.map (·.path)) v⟩
  have htold : ∀ {s v'}, c.states s v' → Tells w v' := fun {s v'} h => by
    rw [h]
    exact Frame.trans htells (tells_reported (s.2.map (·.path)) v)
  have hnoted : (View.still w.files).Noted view c w.OffLog := {
    like := fun h => (htold h).said.files
    content := fun h hp => (htold h).content_eq hp
    opened := fun {s _ o} h _ => by
      have hmap : (s.2 ++ [o]).map (·.path) = s.2.map (·.path) ++ [o.path] := List.map_append
      show _ = reported ((s.2 ++ [o]).map (·.path)) v
      rw [h, hmap, reported_concat]
    ends := fun h => ⟨fun o ho => h o (List.mem_append_left _ ho), h _ List.mem_concat_self⟩ }
  have hfollows := expand_follows_noting hnoted (depth w.files) [] none source p ((), [])
  obtain ⟨houtcome, hfinal⟩ := readNoting_eq (View.still w.files) source p ()
  have hmatches := (hfollows (Comparison.counts_iff.mpr ⟨fun o ho => hlog o ho, fun _ _ => trivial⟩)).2 v rfl
  have hread : Include.read view [] source p v = expand view (depth w.files) [] none source p v := by
    rw [← htells.depth_eq]
    rfl
  rw [hread]
  refine ⟨hmatches.outcome_eq.trans houtcome, hmatches.final_states.trans ?_⟩
  rw [← map_path_openings]
  rfl

theorem Recipe.read_outcome (htells : Tells w v) (hlog : w.Unopened source p) :
    outcome (Include.read view [] source p v) = outcome (Include.read (View.still w.files) [] source p ()) ∧
      Tells w (final (Include.read view [] source p v)) := by
  obtain ⟨houtcome, hfinal⟩ := read_eq htells hlog.offLog
  exact ⟨houtcome, hfinal ▸ Frame.trans htells (tells_reported _ v)⟩

theorem Recipe.read_told (htells : Tells w v) (hlog : w.Unopened source p)
    (h : Include.read (View.still w.files) [] source p () = .ok lines ()) :
    ∃ v', Include.read view [] source p v = .ok lines v' ∧ Tells w v' := by
  obtain ⟨houtcome, htells'⟩ := read_outcome htells hlog
  rw [h] at houtcome
  cases hread : Include.read view [] source p v with
  | ok lines' v' =>
    rw [hread] at houtcome htells'
    cases houtcome
    exact ⟨v', rfl, htells'⟩
  | error e v' =>
    rw [hread] at houtcome
    cases houtcome

namespace Recipe

variable {R : World → World → Prop}

/-- Worlds that belong together have come from two worlds with the same files and the same log by telling, and still
    belong together when the same is told in both. -/
structure Telling (w v : World) (R : World → World → Prop) : Prop where
  files : v.files = w.files
  logPlace : v.logPlace = w.logPlace
  told {w' v' : World} (h : R w' v') : Tells w w' ∧ Tells v v'
  tell {w' v' : World} {n : Notice} (h : R w' v') (hn : n.echo? = none) : R (w'.say n) (v'.say n)

namespace Telling

variable {s t : World} (hR : Telling w v R)
include hR

theorem like (h : R s t) : s.files.Like t.files :=
  (hR.told h).1.said.files.symm.trans (hR.files ▸ (hR.told h).2.said.files)

theorem say {n : Notice} (hn : n.echo? = none) (s : World) : Steady (.lockstep R) (Action.say n) s :=
  .of_matches fun _ h => .ok (hR.tell h hn)

theorem reported (h : R s t) (paths : List Text) : R (reported paths s) (Recipe.reported paths t) := by
  induction paths generalizing s t with
  | nil => exact h
  | cons path paths ih => exact ih (hR.tell h rfl)

/-- A file that the log is no part of reads the same in both. -/
theorem read (h : R s t) (hlog : w.OpensOffLog source p) :
    (Comparison.lockstep R).Matches (Include.read view [] source p s) (Include.read view [] source p t) := by
  have hlog' : v.OpensOffLog source p := by
    unfold OpensOffLog OffLog
    rw [hR.files, hR.logPlace]
    exact hlog
  obtain ⟨houtcome, hfinal⟩ := read_eq (hR.told h).1 hlog
  obtain ⟨houtcome', hfinal'⟩ := read_eq (hR.told h).2 hlog'
  rw [hR.files] at houtcome' hfinal'
  refine .of_outcome (houtcome'.trans houtcome.symm) ?_
  rw [hfinal, hfinal']
  exact hR.reported h _

/-- It makes the same recipe, or none for the same reason. -/
theorem loadFile (hlog : ∀ q, w.files.homes.expand? p = some q → w.OpensOffLog p.toText q) (s : World) :
    Steady (.lockstep R) (loadFile p) s := by
  have hlines : Steady (.lockstep R) (readLines p.toText p) s := by
    refine .of_matches fun t h => ?_
    cases hexpand : s.files.homes.expand? p with
    | none =>
      refine Follows.matches_of ((Action.steady_expandHome (fun _ _ => hR.like) p s).bind_of_ok fun q s₁ hq => ?_) h
      rw [(Action.expandHome_eq_ok hq).1] at hexpand
      cases hexpand
    | some q =>
      have hexpand' : t.files.homes.expand? p = some q := by rw [(hR.like h).homes, hexpand]
      rw [readLines_of_expand hexpand, readLines_of_expand hexpand']
      rw [(hR.told h).1.said.files.homes] at hexpand
      exact hR.read h (hlog q hexpand)
  refine hlines.bind fun lines s => Follows.get_bind ?_ fun t h => by rw [(hR.like h).cwd]
  cases ofFile s.files.cwd p lines with
  | ok r => exact .pure r s
  | error e => exact .throw _ s

end Telling

end Recipe

/-! ### Finding the file while something is told -/

namespace Recipe

theorem locate_told (htells : Tells w v) {reference recipeDir : Text}
    (h : outcome (locate reference recipeDir w) = .ok p) :
    ∃ v', locate reference recipeDir v = .ok p v' ∧ Tells v v' := by
  cases hrun : locate reference recipeDir w with
  | error e w' =>
    rw [hrun] at h
    cases h
  | ok q w' =>
    rw [hrun] at h
    cases h
    have hsteady : Steady (.lockstep fun s t => Says w s ∧ Tells v t) (locate reference recipeDir) w := by
      refine steady_locate (fun s t h => ?_) (fun message s => fun _ => ⟨trivial, fun t h => .ok ?_⟩) reference recipeDir w
      · exact h.1.files.symm.trans (htells.said.files.trans h.2.said.files)
      · exact ⟨h.1.trans (says_say s _), Frame.trans h.2 (tells_say t rfl)⟩
    obtain ⟨v', hagain, hstates⟩ := hsteady.ok hrun trivial ⟨Frame.refl w, Frame.refl v⟩
    exact ⟨v', hagain, hstates.2⟩

end Recipe

/-! ### The file of the recipe -/

/-- A recipe file with a single step, which runs a command: the path of the file, what is in it before the line of the
    step and after it, and what the lines before and after it read to while no file changes. They declare no variable,
    and nothing but a step is missing in them. -/
structure Recipe.Single (files : Files) (p : Path) (words : List Text) where
  file : Path
  head : List UInt8
  tail : List UInt8
  before : List Line
  after : List Line
  expands : files.homes.expand? p = some file
  isFile : files.isFile file = .ok true
  allowed : files.isDenied file = false
  content : files.content file = head ++ (Utf8.encode (execLine words) ++ tail)
  headEnds : ∀ b ∈ head.getLast?, b = 10
  tailBegins : ∀ b ∈ tail.head?, b = 10
  headText : (rawLines head).2 = none
  tailText : (rawLines tail.tail).2 = none
  readHead : takeWith (View.still files) (depth files - 1) [] files file
      ⟨.ofFile p.toText (files.absolute file).toText, 1⟩ (rawLines head).1 () =
    .ok (⟨.ofFile p.toText (files.absolute file).toText, 1 + (rawLines head).1.length⟩, before) ()
  readTail : takeWith (View.still files) (depth files - 1) [] files file
      ⟨.ofFile p.toText (files.absolute file).toText, 1 + (rawLines head).1.length + 1⟩ (rawLines tail.tail).1 () =
    .ok (⟨.ofFile p.toText (files.absolute file).toText,
      1 + (rawLines head).1.length + 1 + (rawLines tail.tail).1.length⟩, after) ()
  inSteps : lastSection before = some .steps
  unfinished : ofFile files.cwd p (before ++ after) = .error (.incomplete .steps p.stem)
  undeclared : inSection .declarations (before ++ after) = []

namespace Recipe.Single

variable (i : Single w.files p words)

/-- The logical line of the step. -/
def stepLine : Line :=
  ⟨p.toText, (w.files.absolute i.file).toText, 1 + (rawLines i.head).1.length, execLine words, none⟩

theorem isExec_stepLine : IsExec words i.stepLine := ⟨rfl, rfl⟩

section
variable (hwords : words ≠ []) (hfeed : ∀ word ∈ words, '\n' ∉ word)
include hwords hfeed

theorem rawLines_eq : rawLines (i.head ++ (Utf8.encode (execLine words) ++ i.tail)) =
    ((rawLines i.head).1 ++ (execLine words :: (rawLines i.tail.tail).1), none) := by
  have hhead : rawLines i.head = ((rawLines i.head).1, none) := Prod.ext rfl i.headText
  have hline : rawLines (Utf8.encode (execLine words) ++ i.tail) =
      ([execLine words] ++ (rawLines i.tail.tail).1, (rawLines i.tail.tail).2) := by
    have hraws : ∀ raw ∈ [execLine words], IsLine raw := fun raw hraw => by
      rw [List.mem_singleton.mp hraw]
      exact isLine_execLine hwords hfeed
    have hlast : ∀ raw ∈ [execLine words].getLast?, raw ≠ [] := fun raw hraw => by
      cases hraw
      exact List.cons_ne_nil _ _
    exact rawLines_joinWith hraws hlast (List.cons_ne_nil _ _) i.tailBegins
  rw [rawLines_append i.headEnds hhead, hline, i.tailText]
  rfl

omit hfeed in
theorem take_eq : ∃ number, takeWith (View.still w.files) (depth w.files - 1) [] w.files i.file
      ⟨.ofFile p.toText (w.files.absolute i.file).toText, 1⟩
      ((rawLines i.head).1 ++ (execLine words :: (rawLines i.tail.tail).1)) () =
    .ok (⟨.ofFile p.toText (w.files.absolute i.file).toText, number⟩, i.before ++ i.stepLine :: i.after) () := by
  have hhead := i.readHead
  have htail := i.readTail
  unfold takeWith at hhead htail ⊢
  rw [readLines_append hhead,
    bind_of_ok ((readLines_cons (readLine_execLine hwords ())).trans (bind_of_ok htail))]
  exact ⟨_, rfl⟩

/-- As long as no file changes, the file reads to the lines before the step, the line of the step, and the lines after
    it. -/
theorem read_still :
    Include.read (View.still w.files) [] p.toText i.file () = .ok (i.before ++ i.stepLine :: i.after) () := by
  obtain ⟨n, hn⟩ := depth_pos w.files
  obtain ⟨number, htake⟩ := i.take_eq hwords
  have hraws := i.rawLines_eq hwords hfeed
  rw [hn, Nat.add_sub_cancel] at htake
  rw [read_apply]
  show expand (View.still w.files) (depth w.files) [] none p.toText i.file () = _
  rw [hn]
  refine expand_of_takeWith ⟨.ofFile p.toText (w.files.absolute i.file).toText, number⟩ i.isFile List.not_mem_nil
    i.allowed i.content (by rw [hraws]) ?_ rfl (Nat.le_of_eq (congrArg List.length i.content))
  rw [hraws]
  exact htake

omit hfeed in
theorem ofFile_eq : ∃ r, ofFile w.files.cwd p (i.before ++ i.stepLine :: i.after) = .ok r ∧ r.defaults = [] ∧
    r.steps = [⟨.exec, Words.join words, some i.stepLine⟩] := by
  have hline := i.isExec_stepLine
  have ha : i.stepLine.assignment = .ok (i.stepLine.key, i.stepLine.assigned) := by
    rw [hline.assignment hwords, hline.key, hline.assigned hwords]
  refine ofLines_single i.inSteps (hline.fits i.inSteps) hline.isHeader ha ?_ i.undeclared i.unfinished
  rw [hline.assigned hwords]
  exact ofValue_exec hwords i.stepLine

/-- Loading the file, whatever has been told before, gives a recipe without variables whose only step runs the
    command. -/
theorem loadFile (htells : Tells w v) (hlog : w.Unopened p.toText i.file) :
    ∃ r v', Recipe.loadFile p v = .ok r v' ∧ Tells w v' ∧ r.defaults = [] ∧
      r.steps = [⟨.exec, Words.join words, some i.stepLine⟩] := by
  obtain ⟨v', hread, htells'⟩ := read_told htells hlog (i.read_still hwords hfeed)
  obtain ⟨r, hmade, hdefaults, hsteps⟩ := i.ofFile_eq hwords
  have hexpands : v.files.homes.expand? p = some i.file := by
    rw [htells.said.files.homes]
    exact i.expands
  have hcwd : v'.files.cwd = w.files.cwd := htells'.said.files.cwd
  refine ⟨r, v', ?_, htells', hdefaults, hsteps⟩
  rw [loadFile_of_readLines ((readLines_of_expand hexpands _).trans hread), hcwd, hmade]

/-- So does loading by a reference that means the file. -/
theorem load (htells : Tells w v) {reference recipeDir : Text}
    (hp : outcome (Recipe.locate reference recipeDir w) = .ok p) (hlog : w.Unopened p.toText i.file) :
    ∃ r v', Recipe.load reference recipeDir v = .ok r v' ∧ Tells w v' ∧ r.defaults = [] ∧
      r.steps = [⟨.exec, Words.join words, some i.stepLine⟩] := by
  have hasked : Tells w (v.say (.info ("loading recipe '" ++ reference ++ "'"))) :=
    Frame.trans htells (tells_say v rfl)
  obtain ⟨v₁, hfound, htold⟩ := locate_told hasked hp
  have hfiled : Tells w (v₁.say (.info ("recipe file '" ++ p.toText ++ "'"))) :=
    Frame.trans (Frame.trans hasked htold) (tells_say v₁ rfl)
  obtain ⟨r, v₂, hload, htells₂, hr⟩ := i.loadFile hwords hfeed hfiled hlog
  refine ⟨r, v₂, ?_, htells₂, hr⟩
  rw [Recipe.load, Action.inform_bind, bind_of_ok hfound, Action.inform_bind, hload]

end

end Recipe.Single

end Runbook
