import Runbook.Proofs.Recipe.DeclarationLine
import Runbook.Proofs.Recipe.Surroundings
import Runbook.Proofs.Tree.Linkless
import Runbook.Rehearsal

/-! # Declaring a variable

A line that declares a variable gives a recipe one more variable and changes nothing else in it: the lines after it do
the same to the recipe with the variable as to the one without (`fill_gains`), as long as none of them declares the same
name. So a file that makes a recipe still does with such a line in it, wherever the line stands in a section of
variables, and the recipe has the variable in its place. The exception is a variable with the name of the word that
includes a file. Main statement: `Recipe.loadFile_declaration`. -/

namespace Runbook

open Effect Include Text

variable {before after lines : List Line} {line : Line} {name value stem path raw : Text} {r r' r₁ : Recipe}
  {current : Option Section} {spaced : Bool} {w : World} {p : Path}

/-! ### One more variable -/

namespace Recipe

/-- The other recipe has one more variable, and is the same for the rest. -/
def Gains (name value : Text) (r r' : Recipe) : Prop :=
  ∃ d e, r.defaults = d ++ e ∧ r' = { r with defaults := d ++ (name, value) :: e }

theorem names_of_does {f : Recipe → Recipe} (h : line.Does f) : ∀ n ∈ r.defaults.names, n ∈ (f r).defaults.names := by
  intro n hn
  cases h with
  | brief | full | step _ => exact hn
  | declare _ =>
    show n ∈ (Bindings.set line.key line.assigned r.defaults).names
    rw [Bindings.names_set]
    split
    · exact hn
    · exact List.mem_append_left _ hn

theorem names_of_fill (h : r.fill current lines = .ok r₁) : ∀ n ∈ r.defaults.names, n ∈ r₁.defaults.names :=
  fun n hn => fill_keeps (P := fun r => n ∈ r.defaults.names) (fun _ _ _ hdoes => names_of_does hdoes n) hn h

/-- A line that does not declare the variable does the same to the recipe with it. -/
theorem Gains.does {f : Recipe → Recipe} (hgains : r.Gains name value r') (h : line.Does f)
    (hnew : name ∉ (f r).defaults.names) : (f r).Gains name value (f r') := by
  obtain ⟨d, e, hdefaults, rfl⟩ := hgains
  cases h with
  | brief | full | step _ => exact ⟨d, e, hdefaults, rfl⟩
  | declare _ =>
    have hne : line.key ≠ name := by
      rintro rfl
      refine hnew ?_
      show line.key ∈ (Bindings.set line.key line.assigned r.defaults).names
      rw [Bindings.names_set]
      split
      · assumption
      · exact List.mem_append_right _ (List.mem_singleton_self _)
    obtain ⟨d', e', hset, hset'⟩ := Bindings.set_insert hne line.assigned value d e
    exact ⟨d', e', by rw [← hset, ← hdefaults], by rw [← hset']⟩

theorem Gains.fill (hgains : r.Gains name value r') (h : r.fill current lines = .ok r₁)
    (hnew : name ∉ r₁.defaults.names) : ∃ r₁', r'.fill current lines = .ok r₁' ∧ r₁.Gains name value r₁' := by
  -- A line that leaves the name undeclared has found it undeclared.
  have hdoes : ∀ line f (r r' : Recipe), Line.Does line f → (name ∉ r.defaults.names → r.Gains name value r') →
      name ∉ (f r).defaults.names → (f r).Gains name value (f r') := fun line f r r' hdoes hgains hnew =>
    (hgains fun hmem => hnew (names_of_does hdoes name hmem)).does hdoes hnew
  obtain ⟨r₁', hfill, hgains₁⟩ := fill_related hdoes (fun _ => hgains) h
  exact ⟨r₁', hfill, hgains₁ hnew⟩

theorem Gains.get? (hgains : r.Gains name value r') (hnew : name ∉ r.defaults.names) :
    r'.defaults.get? name = some value := by
  obtain ⟨d, e, hdefaults, rfl⟩ := hgains
  refine Bindings.get?_insert (fun hmem => hnew ?_) value e
  rw [hdefaults, Bindings.names, List.map_append]
  exact List.mem_append_left _ hmem

theorem Gains.complete (hgains : r.Gains name value r') (h : r.complete = .ok r) : r'.complete = .ok r' := by
  obtain ⟨d, e, -, rfl⟩ := hgains
  obtain ⟨hbrief, hfull, hsteps⟩ := nonempty_of_complete h
  simp [Recipe.complete, hbrief, hfull, hsteps]

/-- With a line that declares one more variable, a recipe has this variable and is the same for the rest. -/
theorem ofLines_declaration (hd : Declarable name value) (hline : IsDeclaration spaced name value line)
    (hsection : lastSection before = some .declarations) (h : ofLines stem path (before ++ after) = .ok r)
    (hnew : name ∉ r.defaults.names) :
    ∃ r', ofLines stem path (before ++ line :: after) = .ok r' ∧ r.Gains name value r' := by
  obtain ⟨hplaced, -, hfill, hcomplete⟩ := ofLines_eq_ok h
  rw [← lastSection_nil, fill_append, List.nil_append] at hfill
  obtain ⟨r₁, hbefore, hafter⟩ := exists_of_bind_eq_ok hfill
  have hheader := IsDeclaration.isHeader hd hline
  have hnew₁ : name ∉ r₁.defaults.names := fun hmem => hnew (names_of_fill hafter name hmem)
  have hassign : r₁.assign (lastSection before) line =
      .ok { r₁ with defaults := r₁.defaults ++ [(name, value)] } := by
    have hkey := IsDeclaration.key hd hline
    have hassigned := IsDeclaration.assigned hd hline
    have ha : line.assignment = .ok (line.key, line.assigned) := by
      rw [IsDeclaration.assignment hd hline, hkey, hassigned]
    rw [hsection, assign_declarations ha, hkey, hassigned, if_pos hd.isValid, Bindings.set_of_not_mem hnew₁]
  have hgains : r₁.Gains name value { r₁ with defaults := r₁.defaults ++ [(name, value)] } :=
    ⟨r₁.defaults, [], (List.append_nil _).symm, rfl⟩
  obtain ⟨r', hrest, hgains'⟩ := hgains.fill hafter hnew
  refine ⟨r', ?_, hgains'⟩
  rw [ofLines_append (hplaced.insert hheader (IsDeclaration.fits hd hline hsection)) hheader hbefore, hassign]
  show (Recipe.fill _ _ _ >>= Recipe.complete) = _
  rw [hrest]
  exact hgains'.complete hcomplete

end Recipe

/-! ### A line that declares a variable -/

namespace Recipe.Surroundings

variable (i : Surroundings w p raw 1)

/-- The line, read by itself. -/
def here : Line := i.cursor.here raw

section
variable (hd : Declarable name value)
include hd

theorem readLine_declaration (hraw : trim raw = trim (declaration spaced name value))
    (hstatement : ¬ (spaced = true ∧ name = Include.keyword)) :
    readLine w.files.homes i.base i.include? i.cursor (dropLineEnd raw) i.between =
      .ok (⟨i.cursor.assembler, i.cursor.number + 1⟩, [i.here]) i.between := by
  have htrim := trim_dropLineEnd raw
  rw [here, Cursor.here, ← htrim]
  exact hd.readLine (htrim.trans hraw) hstatement i.between

/-- The line is taken as it stands, between the lines before and after it. -/
theorem readLines_declaration (hraw : trim raw = trim (declaration spaced name value)) (hne : raw ≠ [])
    (hfeed : '\n' ∉ raw) (hstatement : ¬ (spaced = true ∧ name = Include.keyword)) :
    readLines p.toText p w = .ok (i.before ++ i.here :: i.after) i.last :=
  i.readLines_eq (i.has_line hne hfeed) (readLines_cons (i.readLine_declaration hd hraw hstatement))

end

section
variable (hd : Declarable Include.keyword value)
  (hraw : trim raw = trim (declaration true Include.keyword value))
include hd hraw

theorem readLine_statement : readLine w.files.homes i.base i.include? i.cursor (dropLineEnd raw) i.between =
    match target w.files.homes i.base i.here with
    | .error e => .error e i.between
    | .ok path => (do
        let lines ← i.include? i.here path
        return (⟨i.cursor.assembler, i.cursor.number + 1⟩, lines) : Reading World (Cursor × List Line)) i.between := by
  have htrim := trim_dropLineEnd raw
  have hstatement : isStatement (trim (dropLineEnd raw)) = true := by
    rw [htrim, hraw]
    exact hd.isStatement_iff.mpr ⟨rfl, rfl⟩
  rw [here, Cursor.here, ← htrim]
  exact Include.readLine_statement rfl hstatement i.between

theorem readLine_include (hvalue : value ≠ []) : ∃ cause, (cause = .includeArity ∨ ∃ e, cause = .includeQuote e) ∧
    readLine w.files.homes i.base i.include? i.cursor (dropLineEnd raw) i.between =
      .error (.load (.malformed cause i.here)) i.between := by
  obtain ⟨cause, hcause, htarget⟩ := (hd.target_eq w.files.homes i.base (show i.here.text = _ from hraw)).1 hvalue
  exact ⟨cause, hcause, by rw [i.readLine_statement hd hraw, htarget]⟩

theorem readLine_include_nil (hvalue : value = [])
    (hmissing : i.between.files.isFile (Path.ofText (Path.joinText i.base "=")) = .ok false) :
    readLine w.files.homes i.base i.include? i.cursor (dropLineEnd raw) i.between =
      .error (.load (.missingFile (Path.joinText i.base "=") (some i.here))) i.between := by
  obtain ⟨n, hn⟩ := depth_of_isFile i.isFile
  have htarget := (hd.target_eq w.files.homes i.base (show i.here.text = _ from hraw)).2 hvalue
  have hmissing : (view.files i.between).isFile (Path.ofText (Path.joinText i.base "=")) = .ok false := hmissing
  rw [i.readLine_statement hd hraw, htarget]
  refine bind_of_error ?_
  rw [include?, hn, Nat.add_sub_cancel_right (n + 1) 1, expand_succ, hmissing]

end

end Recipe.Surroundings

/-- A line that gives a variable a value, with blanks around the equals sign or without, gives a recipe the variable with
    the value, in its place, and nothing else, when the file makes a recipe without the line in which there is no such
    variable. But the variable with the name of the word that includes a file needs a line without blanks. -/
theorem Recipe.loadFile_declaration (hd : Declarable name value)
    (hraw : trim raw = trim (declaration spaced name value)) (hfeed : '\n' ∉ raw) (i : Surroundings w p raw 1)
    (hsection : lastSection i.before = some .declarations)
    (h : ofFile i.last.files.cwd p (i.before ++ i.after) = .ok r) (hnew : name ∉ r.defaults.names) :
    (¬ (spaced = true ∧ name = Include.keyword) → ∃ r', loadFile p w = .ok r' i.last ∧ r.Gains name value r' ∧
      r'.defaults.get? name = some value) ∧
    (spaced = true ∧ name = Include.keyword →
      (value ≠ [] → ∃ cause, (cause = .includeArity ∨ ∃ e, cause = .includeQuote e) ∧
        loadFile p w = .error (.load (.malformed cause i.here)) i.between) ∧
      (value = [] → i.between.files.isFile (Path.ofText (Path.joinText i.base "=")) = .ok false →
        loadFile p w = .error (.load (.missingFile (Path.joinText i.base "=") (some i.here))) i.between)) := by
  have hne : raw ≠ [] := by
    rintro rfl
    have hsilent : isSilent (trim (declaration spaced name value)) = false := hd.isSilent_trim
    rw [← hraw] at hsilent
    cases hsilent
  refine ⟨fun hstatement => ?_, ?_⟩
  · have hline : IsDeclaration spaced name value i.here := ⟨hraw, rfl⟩
    obtain ⟨r', hmade, hgains⟩ := ofLines_declaration hd hline hsection h hnew
    refine ⟨r', ?_, hgains, hgains.get? hnew⟩
    rw [loadFile_of_readLines (i.readLines_declaration hd hraw hne hfeed hstatement), ofFile, hmade]
  · rintro ⟨rfl, rfl⟩
    refine ⟨fun hvalue => ?_, fun hvalue hmissing => ?_⟩
    · obtain ⟨cause, hcause, hread⟩ := i.readLine_include hd hraw hvalue
      exact ⟨cause, hcause, loadFile_of_readLines_error (i.readLines_error (i.has_line hne hfeed) hread)⟩
    · have hread := i.readLine_include_nil hd hraw hvalue hmissing
      exact loadFile_of_readLines_error (i.readLines_error (i.has_line hne hfeed) hread)

/-- What is before a declaration in a file, and after it. -/
def Recipe.aroundDeclaration : List UInt8 × List UInt8 :=
  (Utf8.encode "[description]\nbrief = x\nfull = y\n[variable]\na = 1\n", Utf8.encode "\nb = 2\n[step]\nstep = cd /\n")

/-- A world with a file in which a line stands among declarations. -/
def Recipe.declaring (raw : Text) : World :=
  Rehearsal.world "/" [] [("/r", aroundDeclaration.1 ++ (Utf8.encode raw ++ aroundDeclaration.2))]

theorem Recipe.opened_declaring (raw path : Text) : view.opened path (declaring raw) = declaring raw :=
  World.say_debug (show Verbosity.normal < .debug by decide) _

/-- How that file is read. -/
def Recipe.declaringSurroundings (raw : Text) : Surroundings (declaring raw) ⟨.relative, ["r"]⟩ raw 1 where
  file := ⟨.relative, ["r"]⟩
  head := aroundDeclaration.1
  tail := aroundDeclaration.2
  before := [⟨"r", "/r", 1, "[description]", none⟩, ⟨"r", "/r", 2, "brief = x", none⟩,
    ⟨"r", "/r", 3, "full = y", none⟩, ⟨"r", "/r", 4, "[variable]", none⟩, ⟨"r", "/r", 5, "a = 1", none⟩]
  after := [⟨"r", "/r", 7, "b = 2", none⟩, ⟨"r", "/r", 8, "[step]", none⟩, ⟨"r", "/r", 9, "step = cd /", none⟩]
  between := declaring raw
  last := declaring raw
  expands := rfl
  isFile := rfl
  allowed := rfl
  content := by
    rw [opened_declaring]
    rfl
  starts := by decide +kernel
  ends := by decide +kernel
  headText := by decide +kernel
  tailText := by decide +kernel
  readHead := by
    rw [opened_declaring]
    rfl
  readTail := rfl
  unchanged := rfl

/-- The recipe that the other lines of that file make. -/
def Recipe.declared : Recipe :=
  ⟨"r", "/r", "x", "y", [("a", "1"), ("b", "2")], [⟨.cd, "/", some ⟨"r", "/r", 9, "step = cd /", none⟩⟩]⟩

theorem Recipe.ofFile_declaring (raw : Text) :
    ofFile (declaringSurroundings raw).last.files.cwd ⟨.relative, ["r"]⟩
      ((declaringSurroundings raw).before ++ (declaringSurroundings raw).after) = .ok declared := by
  show ofFile (Path.ofText "/") _ ([⟨"r", "/r", 1, "[description]", none⟩, ⟨"r", "/r", 2, "brief = x", none⟩,
    ⟨"r", "/r", 3, "full = y", none⟩, ⟨"r", "/r", 4, "[variable]", none⟩, ⟨"r", "/r", 5, "a = 1", none⟩,
    ⟨"r", "/r", 7, "b = 2", none⟩, ⟨"r", "/r", 8, "[step]", none⟩, ⟨"r", "/r", 9, "step = cd /", none⟩]) = _
  decide +kernel

/-- A value that looks like a comment and a header, in a line with blanks and a carriage return around it; and a variable
    with the name of the word that includes a file, with a value and without. -/
theorem Recipe.loadFile_declaration_around :
    (∃ r u, loadFile ⟨.relative, ["r"]⟩ (declaring "\tx-1 = # it's [a]\r") = .ok r u ∧
      r.defaults.get? "x-1" = some "# it's [a]".toList) ∧
    (∃ cause line u, loadFile ⟨.relative, ["r"]⟩ (declaring "include = 'v") =
      .error (.load (.malformed cause line)) u) ∧
    (∃ line u, loadFile ⟨.relative, ["r"]⟩ (declaring "include = ") = .error (.load (.missingFile "/=" line)) u) := by
  have hsection (raw : Text) : lastSection (declaringSurroundings raw).before = some .declarations := rfl
  refine ⟨?_, ?_, ?_⟩
  · have hfeed : '\n' ∉ "\tx-1 = # it's [a]\r".toList := by decide +kernel
    have hd : Declarable "x-1" "# it's [a]" := by decide +kernel
    have hraw : trim "\tx-1 = # it's [a]\r" = trim (declaration true "x-1" "# it's [a]") := by decide +kernel
    have hnew : "x-1".toList ∉ declared.defaults.names := by decide +kernel
    obtain ⟨hload, -⟩ := loadFile_declaration hd hraw hfeed (declaringSurroundings _) (hsection _)
      (ofFile_declaring _) hnew
    obtain ⟨r, hload, -, hget⟩ := hload (by decide +kernel)
    exact ⟨r, _, hload, hget⟩
  · have hfeed : '\n' ∉ "include = 'v".toList := by decide +kernel
    have hd : Declarable Include.keyword "'v" := by decide +kernel
    have hraw : trim "include = 'v" = trim (declaration true Include.keyword "'v") := by decide +kernel
    have hnew : Include.keyword ∉ declared.defaults.names := by decide +kernel
    obtain ⟨-, hload⟩ := loadFile_declaration hd hraw hfeed (declaringSurroundings _) (hsection _)
      (ofFile_declaring _) hnew
    obtain ⟨cause, -, hload⟩ := (hload ⟨rfl, rfl⟩).1 (by decide +kernel)
    exact ⟨cause, _, _, hload⟩
  · have hfeed : '\n' ∉ "include = ".toList := by decide +kernel
    have hd : Declarable Include.keyword "" := by decide +kernel
    have hraw : trim "include = " = trim (declaration true Include.keyword "") := by decide +kernel
    have hnew : Include.keyword ∉ declared.defaults.names := by decide +kernel
    obtain ⟨-, hload⟩ := loadFile_declaration hd hraw hfeed (declaringSurroundings _) (hsection _)
      (ofFile_declaring _) hnew
    have hmissing : (declaring "include = ").files.isFile (Path.ofText "/=") = .ok false := by decide +kernel
    exact ⟨_, _, (hload ⟨rfl, rfl⟩).2 rfl hmissing⟩

/-- One and the same declaration is an assignment without blanks around the equals sign, and an include line that includes
    nothing with them. -/
theorem Recipe.loadFile_declaration_include : VariableName.isValid "include" = true ∧
    (∃ r u, load "r" "/" (declaring "include=v") = .ok r u ∧
      r.defaults = [("a".toList, "1".toList), ("include", "v"), ("b", "2")]) ∧
    ∃ u, load "r" "/" (declaring "include = v") =
      .error (.load (.malformed .includeArity ⟨"r", "/r", 6, "include = v", none⟩)) u := by
  have hassigns : passes (fun r _ => decide (r.defaults = [("a".toList, "1".toList), ("include", "v"), ("b", "2")]))
      (load "r" "/" (declaring "include=v")) = true := by
    decide +kernel
  have hincludes : fails (fun e _ => decide
        (e = .load (.malformed .includeArity ⟨"r", "/r", 6, "include = v", none⟩)))
      (load "r" "/" (declaring "include = v")) = true := by
    decide +kernel
  obtain ⟨r, u, hload, hr⟩ := eq_ok_of_passes hassigns
  obtain ⟨e, u', hload', he⟩ := eq_error_of_fails hincludes
  obtain rfl := of_decide_eq_true he
  exact ⟨by decide, ⟨r, u, hload, of_decide_eq_true hr⟩, u', hload'⟩

end Runbook
