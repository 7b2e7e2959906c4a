import Runbook.Proofs.Console
import Runbook.Proofs.History
import Runbook.Proofs.Path.Arrival
import Runbook.Proofs.Script.Lifecycle
import Runbook.Proofs.Step.Command

/-! # What escapes steps

A step that goes wrong fails with a failure of its own, or is interrupted (`Step.Contained`), but for what it asks of the
system and does not guard against: a command to which the system objects, a home that may not be asked for, a path that
cannot be looked at, a script file that cannot be made or taken away (`Step.Escapes`). A console that refuses what it is
told adds nothing but its refusal (`Step.run_ends`). Main statement: `Step.run_containment`. -/

namespace Runbook

open Effect World

variable {index : Nat} {d : Directive} {data display : Text} {argv words : List Text} {c : Context} {s : Session}
  {w w' : World} {p : Path} {e : Fault} {files : Files} {α : Type}

/-- An error that is one all the same when it is only asked what a path leads to. -/
def FileError.IsRaised (e : FileError) : Prop := e = .nameTooLong ∨ e = .denied

/-- The fault comes from the system. -/
def Fault.IsSystem : Fault → Prop
  | .nullCharacter | .variableName | .linkCircle _ | .linksTooDeep | .file _ _ => True
  | _ => False

/-- The fault that links cannot be replaced. -/
def LinkError.fault : LinkError → Fault
  | .circle p => .linkCircle p.toText
  | .tooDeep => .linksTooDeep

namespace Step

/-- A step ends with a failure of its own, or it is interrupted. -/
def Contained (index : Nat) (d : Directive) : Fault → Prop
  | .step f => f.index = index ∧ f.directive = d
  | .interrupted => True
  | _ => False

/-- Whether a directive looks at what the path leads to that its text names. -/
def looks : Directive → Bool
  | .cd | .mustExistDir | .mustExistFile | .mustNotExistDir | .mustNotExistFile => true
  | _ => false

/-- The world in which the file of a script that has been run is to be taken away. -/
def scriptConcluded (index : Nat) (s : Session) (p : Path) (w : World) : World :=
  Script.concluded p (final (spawn s.context index .script [p.toText] p.toText (Script.announced p w)))

/-- What a step ends with that is neither a failure of its own nor an interrupt. -/
inductive Escapes (index : Nat) (s : Session) (data : Text) : Directive → Fault → Prop
  /-- The system objects to a command, its directory or its environment. -/
  | command {d : Directive} {words : List Text} {e : Fault} (hd : d = .exec ∨ d = .execNoExit)
      (hsplit : Words.split data = .ok words) (hwords : words ≠ [])
      (hobjection : Command.objection? words s.context.cwd.toText s.context.env = some e) : Escapes index s data d e
  /-- The home a text begins with may not be asked for. -/
  | home {d : Directive} (hd : looks d = true) (hrefuses : s.world.files.homes.refuses data = true) :
      Escapes index s data d .nullCharacter
  /-- A path is too long to be looked at, or may not be looked at. -/
  | path {d : Directive} {e : FileError} (hd : looks d = true) (hasks : s.world.files.homes.refuses data = false)
      (hstat : s.world.files.stat (target data s) = .error e) (hraised : e.IsRaised) :
      Escapes index s data d (.file e (target data s).toText)
  /-- The links on the path of a directory cannot be replaced. -/
  | links {e : LinkError} (hasks : s.world.files.homes.refuses data = false)
      (hdir : s.world.files.isDirectory (target data s) = .ok true)
      (hdenied : s.world.files.isDenied (target data s) = false)
      (hresolve : s.world.files.resolve (target data s) = .error e) : Escapes index s data .cd e.fault
  /-- The file of a script cannot be made. -/
  | creation {e : Fault} {w : World}
      (hcreate : Script.create data s.context.scriptDir s.context.pid s.world = .error e w) :
      Escapes index s data .script e
  /-- The system objects to the directory of a script, or to its environment. -/
  | start {p : Path} {w : World} {e : Fault}
      (hcreate : Script.create data s.context.scriptDir s.context.pid s.world = .ok p w)
      (hobjection : Command.objection? [p.toText] s.context.cwd.toText s.context.env = some e)
      (hgone : ∀ e, (scriptConcluded index s p w).files.unlink p = .error e → e = .missing) :
      Escapes index s data .script e
  /-- The file of a script cannot be taken away. -/
  | deletion {p : Path} {w : World} {e : FileError}
      (hcreate : Script.create data s.context.scriptDir s.context.pid s.world = .ok p w)
      (hunlink : (scriptConcluded index s p w).files.unlink p = .error e) (hthere : e ≠ .missing) :
      Escapes index s data .script (.file e p.toText)

/-! ### What the files fail with -/

theorem not_contained_file (e : FileError) (path : Text) : ¬ Contained index d (.file e path) := id

theorem not_contained_null : ¬ Contained index d .nullCharacter := id

theorem not_contained_objection {cwd : Text} {env : Bindings} (h : Command.objection? argv cwd env = some e) :
    ¬ Contained index d e := by
  rcases Command.objection?_eq_some h with rfl | rfl <;> exact id

theorem not_contained_links (e : LinkError) : ¬ Contained index d e.fault := by
  cases e <;> exact id

end Step

theorem Files.leadsTo_eq_error_iff {test : Node → Bool} {e : FileError} :
    files.leadsTo p test = .error e ↔ files.stat p = .error e ∧ e.IsRaised := by
  unfold Files.leadsTo FileError.IsRaised
  cases files.stat p with
  | ok found => simp
  | error e' => cases e' <;> cases e <;> simp

/-- Where a directory is found there is one, at a path without U+0000. -/
theorem Files.isDirectory_eq_ok_true (h : files.isDirectory p = .ok true) :
    '\x00' ∉ p.toText ∧ ∃ place, files.stat p = .ok (place, .directory) := by
  have hstat : ∃ place, files.stat p = .ok (place, .directory) := by
    unfold Files.isDirectory Files.leadsTo at h
    cases hstat : files.stat p with
    | error e => cases e <;> simp [hstat] at h
    | ok found =>
      obtain ⟨place, node⟩ := found
      exact ⟨place, by simpa [hstat] using h⟩
  refine ⟨fun hnull => ?_, hstat⟩
  obtain ⟨place, hstat⟩ := hstat
  rw [Files.stat, Files.reach, if_pos (by simpa using hnull)] at hstat
  cases hstat

section Creation
variable {P : Fault → Prop} (hfile : ∀ e path, P (.file e path))
include hfile

theorem Action.raises_orFault (p : Path) (x : Except FileError α) : Raises P (orFault p x) := by
  cases x with
  | ok a => exact .pure a
  | error e => exact .throw (hfile e _)

theorem Action.raises_makeDirectoryOr {missing : Action Unit} (hmissing : Raises P missing) (p : Path) :
    Raises P (makeDirectoryOr missing p) := by
  refine .get_bind fun w => ?_
  have hpresent : ∀ e : FileError, Raises P (do
      if !(← orFault p ((← get).files.isDirectory p)) then throw (.file e p.toText) : Action Unit) := fun e =>
    .get_bind fun w => .bind (raises_orFault hfile p _) fun there => by
      split
      · exact .throw (hfile e _)
      · exact .pure _
  cases w.files.makeDirectory p with
  | ok files => rintro _ _ _ ⟨⟩
  | error e => cases e with
    | missing => exact hmissing
    | _ => exact hpresent _

theorem Action.raises_makeDirectories (depth : Nat) (p : Path) : Raises P (makeDirectories depth p) := by
  induction depth generalizing p with
  | zero => exact raises_makeDirectoryOr hfile (.throw (hfile _ _)) p
  | succ depth ih =>
    refine raises_makeDirectoryOr hfile ?_ p
    split
    · exact .throw (hfile _ _)
    · exact .bind (ih p.parent) fun _ => raises_makeDirectoryOr hfile (.throw (hfile _ _)) p

theorem Script.raises_freshPath (directory : Path) (pid : Int) (tries : Nat) :
    Raises P (freshPath directory pid tries) := by
  have hnext : Raises P (freshPath.next directory pid) := by
    intro w e w' h
    simp only [freshPath.next, get_bind_apply] at h
    split at h <;> cases h
    exact hfile _ _
  induction tries with
  | zero => exact hnext
  | succ tries ih =>
    refine .bind hnext fun p => .get_bind fun w => ?_
    split
    · exact ih
    · exact .pure p

theorem Script.raises_create (hnull : P .nullCharacter) (body : Text) (directory : Path) (pid : Int) :
    Raises P (create body directory pid) := by
  have hmake : Raises P (do
      Action.makeDirectories (directory.names.length + 1) directory
      let w ← get
      let p ← freshPath (w.files.absolute directory) pid w.files.tree.entries.length
      let w ← get
      let place ← Action.orFault p (w.files.locate p)
      set (w.withTree (w.files.tree.set place (.file (Utf8.encode (content body)) mode)))
      return p : Action Path) :=
    .bind (Action.raises_makeDirectories hfile _ _) fun _ => .get_bind fun w =>
      .bind (raises_freshPath hfile _ _ _) fun p => .get_bind fun w =>
        .bind (Action.raises_orFault hfile p _) fun place => by
          rintro _ _ _ ⟨⟩
  unfold create
  split
  · exact .bind (.throw hnull) fun _ => hmake
  · exact hmake

end Creation

theorem Script.delete_outcome (p : Path) (w : World) : outcome (delete p w) = .error e ↔
    ∃ fault, w.files.unlink p = .error fault ∧ fault ≠ .missing ∧ e = .file fault p.toText := by
  rw [delete, get_bind_apply]
  cases w.files.unlink p with
  | ok tree =>
    have hdone : outcome ((set (w.withTree tree) : Action Unit) w) = .ok () := rfl
    simp [hdone]
  | error fault => cases fault <;> simp [outcome, eq_comm]

theorem Action.outcome_andFinally (act : Action α) (last : Action Unit) (w : World) :
    outcome (andFinally act last w) = match outcome (last (final (act w))) with
      | .ok _ => outcome (act w)
      | .error e => .error e := by
  unfold andFinally
  cases act w with
  | ok a w₁ =>
    dsimp only [final_ok]
    cases last w₁ <;> rfl
  | error e w₁ =>
    dsimp only [final_error]
    cases last w₁ <;> rfl

theorem Action.raises_andFinally {P : Fault → Prop} {act : Action α} {last : Action Unit} (hact : Raises P act)
    (hlast : Raises P last) : Raises P (andFinally act last) := by
  intro w e w' h
  have houtcome := outcome_andFinally act last w
  rw [h] at houtcome
  split at houtcome
  · exact hact.outcome houtcome.symm
  · rename_i hfails
    cases houtcome
    exact hlast.outcome hfails

theorem Action.resolve_outcome (p : Path) (w : World) : outcome (resolve p w) =
    if '\x00' ∈ p.toText then .error .nullCharacter else (w.files.resolve p).mapError LinkError.fault := by
  unfold resolve
  by_cases hnull : '\x00' ∈ p.toText
  · rw [if_pos (by simpa using hnull), if_pos hnull]
    rfl
  · rw [if_neg (by simpa using hnull), if_neg hnull]
    simp only [get_bind_apply]
    cases w.files.resolve p with
    | ok q => rfl
    | error e => cases e <;> rfl

namespace Step

/-! ### Commands -/

/-- A text stands for a command to which the system objects, in the directory and with the environment of a context. -/
def Objects (c : Context) (data : Text) (e : Fault) : Prop :=
  ∃ words, Words.split data = .ok words ∧ words ≠ [] ∧ Command.objection? words c.cwd.toText c.env = some e

theorem spawn_of_objection (h : Command.objection? argv c.cwd.toText c.env = some e) (index : Nat) (d : Directive)
    (display : Text) (w : World) : outcome (spawn c index d argv display w) = .error e := by
  rw [spawn_apply, bind_of_error (Command.run_of_objection h false _)]
  rfl

/-- Beside an interrupt, a command fails only for a child that cannot be started or ends badly. -/
theorem raises_spawn (h : Command.objection? argv c.cwd.toText c.env = none) (index : Nat) (d : Directive)
    (display : Text) : Raises
      (fun e => e = .interrupted ∨ ∃ startError code, e = failure index d (.child startError display code))
      (spawn c index d argv display) := by
  intro w e w' hspawn
  rw [spawn_apply] at hspawn
  rcases bind_eq_error hspawn with hrun | ⟨result, w₁, -, hreport⟩
  · have houtcome := Command.run_outcome h false (commandAnnounced c argv w)
    rw [hrun] at houtcome
    obtain ⟨-, rfl⟩ := Child.result_eq_error houtcome.symm
    exact Or.inl rfl
  · have houtcome := (report_apply index d display result w₁).2
    rw [hreport] at houtcome
    split at houtcome <;> cases houtcome
    exact Or.inr ⟨_, _, rfl⟩

theorem spawn_contained (h : Command.objection? argv c.cwd.toText c.env = none) (display : Text) :
    Raises (Contained index d) (spawn c index d argv display) := by
  refine (raises_spawn h index d display).mono fun e he => ?_
  rcases he with rfl | ⟨startError, code, rfl⟩
  · trivial
  · exact ⟨rfl, rfl⟩

theorem exec_outcome (hsplit : Words.split data = .ok words) (hwords : words ≠ []) (index : Nat) (d : Directive)
    (w : World) : outcome (exec c index d data w) = .error e ↔ outcome (spawn c index d words data w) = .error e := by
  have hargv : Step.argv index d data w = .ok words w := by
    rw [Step.argv, hsplit]
    cases words with
    | nil => exact absurd rfl hwords
    | cons word words => rfl
  rw [exec, bind_of_ok hargv]
  exact outcome_bind_eq_error_iff fun _ w => ⟨(), w, rfl⟩

theorem exec_of_objects (h : Objects c data e) (index : Nat) (d : Directive) (w : World) :
    outcome (exec c index d data w) = .error e := by
  obtain ⟨words, hsplit, hwords, hobjection⟩ := h
  exact (exec_outcome hsplit hwords index d w).mpr (spawn_of_objection hobjection index d data w)

theorem exec_contained (hexec : outcome (exec c index d data w) = .error e) : Contained index d e ∨ Objects c data e := by
  cases hsplit : Words.split data with
  | error unclosed =>
    rw [exec, argv, hsplit] at hexec
    cases hexec
    exact Or.inl ⟨rfl, rfl⟩
  | ok words =>
    by_cases hwords : words = []
    · subst hwords
      rw [exec, argv, hsplit] at hexec
      cases hexec
      exact Or.inl ⟨rfl, rfl⟩
    · have hspawn := (exec_outcome hsplit hwords index d w).mp hexec
      cases hobjection : Command.objection? words c.cwd.toText c.env with
      | some e' =>
        rw [spawn_of_objection hobjection] at hspawn
        cases hspawn
        exact Or.inr ⟨words, hsplit, hwords, hobjection⟩
      | none => exact Or.inl ((spawn_contained hobjection data).outcome hspawn)

/-- What ends a command ends it as well if it may fail, but for a child that cannot be started or ends badly. -/
theorem execNoExit_outcome (c : Context) (index : Nat) (data : Text) (w : World) :
    outcome (execNoExit c index data w) = .error e ↔ outcome (exec c index .execNoExit data w) = .error e ∧
      ∀ f, e = .step f → f.cause.code? = none := by
  unfold execNoExit
  cases hexec : exec c index .execNoExit data w with
  | ok u w₁ => simp [outcome]
  | error e' w₁ =>
    cases e' with
    | step f =>
      obtain ⟨i, d, cause⟩ := f
      cases cause with
      | child =>
        change (Except.ok Status.warning : Except Fault Status) = .error e ↔ _
        simp +contextual [outcome, StepCause.code?, eq_comm]
      | _ => simp +contextual [outcome, StepCause.code?, eq_comm]
    | _ => simp +contextual [outcome, eq_comm]

/-! ### Directories and tests -/

theorem cd_of_refuses (h : s.world.files.homes.refuses data = true) (index : Nat) :
    outcome (cd index data s) = .error .nullCharacter := by
  rw [cd, path_bind_of_refuses h]
  rfl

theorem cd_outcome (h : s.world.files.homes.refuses data = false) (index : Nat) : outcome (cd index data s) =
    match s.world.files.isDirectory (target data s) with
    | .error e => .error (.file e (target data s).toText)
    | .ok there =>
      if !there || s.world.files.isDenied (target data s) then
        .error (failure index .cd (.changeDirectory (target data s).toText))
      else if '\x00' ∈ (target data s).toText then .error .nullCharacter
      else match s.world.files.resolve (target data s) with
        | .error e => .error e.fault
        | .ok _ => .ok () := by
  obtain ⟨s₁, hsay, hsaid⟩ : ∃ s₁ : Session, (liftM (Action.inform ("cd to " ++ (target data s).toText)) : Run Unit) s =
      .ok () s₁ ∧ Says s.world s₁.world := ⟨_, rfl, says_say _ _⟩
  have hmove : outcome ((do
      let cwd ← Action.resolve (target data s)
      Run.change fun c => { c with cwd }
      Action.inform ("pwd = " ++ cwd.toText) : Run Unit) s₁) =
      if '\x00' ∈ (target data s).toText then .error .nullCharacter
      else match s.world.files.resolve (target data s) with
        | .error e => .error e.fault
        | .ok _ => .ok () := by
    have hresolve := Action.resolve_outcome (target data s) s₁.world
    have hmoves : ∀ (cwd : Path) (s : Session), ∃ u s', (do
        Run.change fun c => { c with cwd }
        Action.inform ("pwd = " ++ cwd.toText) : Run Unit) s = .ok u s' := fun cwd s => ⟨(), _, rfl⟩
    rw [hsaid.files.resolve_eq, ← Run.outcome_outside] at hresolve
    split at hresolve
    · rw [if_pos ‹_›]
      exact (outcome_bind_eq_error_iff hmoves).mpr hresolve
    · rw [if_neg ‹_›]
      cases hfiles : s.world.files.resolve (target data s) with
      | error e =>
        rw [hfiles] at hresolve
        exact (outcome_bind_eq_error_iff hmoves).mpr hresolve
      | ok cwd =>
        rw [hfiles] at hresolve
        rw [bind_of_ok (outcome_eq_ok hresolve)]
        rfl
  rw [cd, path_bind h, bind_of_ok hsay, get_bind_apply, hsaid.files.isDirectory_eq, hsaid.files.isDenied_eq]
  cases s.world.files.isDirectory (target data s) with
  | error e => rfl
  | ok there =>
    have hthere : (liftM (Action.orFault (target data s) (.ok there)) : Run Bool) s₁ = .ok there s₁ := rfl
    rw [bind_of_ok hthere]
    cases hbad : !there || s.world.files.isDenied (target data s) with
    | true =>
      simp only [hbad, if_true]
      rfl
    | false => simpa only [hbad, Bool.false_eq_true, if_false] using hmove

theorem check_of_refuses {test : Files → Path → Except FileError Bool} {bad : Bool} {cause : Text → StepCause}
    (h : s.world.files.homes.refuses data = true) (index : Nat) (d : Directive) :
    outcome (check index d data test bad cause s) = .error .nullCharacter := by
  rw [check, path_bind_of_refuses h]
  rfl

theorem check_outcome {test : Files → Path → Except FileError Bool} {bad : Bool} {cause : Text → StepCause}
    (h : s.world.files.homes.refuses data = false) (index : Nat) (d : Directive) :
    outcome (check index d data test bad cause s) =
    match test s.world.files (target data s) with
    | .error e => .error (.file e (target data s).toText)
    | .ok there => if there == bad then .error (failure index d (cause data)) else .ok () := by
  rw [check, path_bind h, get_bind_apply]
  cases test s.world.files (target data s) with
  | error e => rfl
  | ok there =>
    dsimp only
    show outcome ((if there == bad then throw (failure index d (cause data)) else pure () : Run Unit) s) = _
    split <;> rfl

/-! ### Scripts -/

theorem during_outcome {body : Text} {directory : Path} {pid : Int} {use : Path → Action α}
    (h : Script.create body directory pid w = .ok p w') : outcome (Script.during body directory pid use w) =
    match outcome (Script.delete p (Script.concluded p (final (use p (Script.announced p w'))))) with
    | .ok _ => outcome (use p (Script.announced p w'))
    | .error e => .error e := by
  rw [Script.during, bind_of_ok h, Action.outcome_andFinally]
  rfl

theorem script_outcome (index : Nat) (data : Text) (s : Session) : outcome (script index data s) = .error e ↔
    outcome (Script.during data s.context.scriptDir s.context.pid
      (fun p => spawn s.context index .script [p.toText] p.toText) s.world) = .error e := by
  have hexports : ∀ (result : CommandResult) (s : Session), ∃ u s',
      (Marker.exports result.output).forM (takeExport index) s = .ok u s' := fun result s => by
    obtain ⟨w, htake⟩ := takeExports_apply index (Marker.exports result.output) s
    exact ⟨(), _, htake⟩
  rw [script, Run.context_bind, outcome_bind_eq_error_iff hexports, Run.outcome_outside]

theorem script_contained (h : outcome (script index data s) = .error e) :
    Contained index .script e ∨ Escapes index s data .script e := by
  rw [script_outcome] at h
  cases hcreate : Script.create data s.context.scriptDir s.context.pid s.world with
  | error e' w =>
    rw [Script.during, bind_of_error hcreate] at h
    cases h
    exact Or.inr (.creation hcreate)
  | ok p w =>
    rw [during_outcome hcreate] at h
    cases hdelete : outcome (Script.delete p (scriptConcluded index s p w)) with
    | error e' =>
      obtain ⟨fault, hunlink, hthere, rfl⟩ := (Script.delete_outcome p _).mp hdelete
      rw [scriptConcluded] at hdelete
      rw [hdelete] at h
      cases h
      exact Or.inr (.deletion hcreate hunlink hthere)
    | ok u =>
      have hgone : ∀ fault, (scriptConcluded index s p w).files.unlink p = .error fault → fault = .missing := by
        intro fault hunlink
        by_contra hthere
        rw [(Script.delete_outcome p _).mpr ⟨fault, hunlink, hthere, rfl⟩] at hdelete
        cases hdelete
      rw [scriptConcluded] at hdelete
      rw [hdelete] at h
      cases hobjection : Command.objection? [p.toText] s.context.cwd.toText s.context.env with
      | some e' =>
        rw [spawn_of_objection hobjection] at h
        cases h
        exact Or.inr (.start hcreate hobjection hgone)
      | none => exact Or.inl ((spawn_contained hobjection p.toText).outcome h)

theorem script_of_escapes (h : Escapes index s data .script e) : outcome (script index data s) = .error e := by
  rw [script_outcome]
  cases h with
  | command hd => simp at hd
  | home hd => cases hd
  | path hd => cases hd
  | creation hcreate =>
    rw [Script.during, bind_of_error hcreate]
    rfl
  | @start p w e hcreate hobjection hgone =>
    have hdelete : outcome (Script.delete p (scriptConcluded index s p w)) = .ok () := by
      cases hdelete : outcome (Script.delete p (scriptConcluded index s p w)) with
      | ok u => rfl
      | error e =>
        obtain ⟨fault, hunlink, hthere, -⟩ := (Script.delete_outcome p _).mp hdelete
        exact absurd (hgone fault hunlink) hthere
    rw [scriptConcluded] at hdelete
    rw [during_outcome hcreate, hdelete]
    exact spawn_of_objection hobjection index .script _ _
  | @deletion p w fault hcreate hunlink hthere =>
    have hdelete := (Script.delete_outcome p _).mpr ⟨fault, hunlink, hthere, rfl⟩
    rw [scriptConcluded] at hdelete
    rw [during_outcome hcreate, hdelete]

/-! ### Steps -/

/-- Only the console can make an assignment fail otherwise than it should. -/
theorem raises_exportVar [Console] (index : Nat) (data : Text) :
    Raises (fun e => Contained index .exportVar e ∨ Console.Refuses e) (exportVar index data) := by
  have hset : ∀ name value : Text, Raises (fun e => Contained index .exportVar e ∨ Console.Refuses e) (do
      Action.inform ("export " ++ name ++ "=" ++ value)
      Run.change fun c => { c with env := Bindings.set name value c.env } : Run Unit) := fun name value =>
    (Run.raises_outside ((Action.raises_say _).mono fun _ => Or.inr)).bind fun _ => .modify _
  unfold exportVar
  dsimp only
  split
  · exact .bind (.throw (Or.inl ⟨rfl, rfl⟩)) fun _ => hset _ _
  · exact hset _ _

theorem Escapes.not_contained (h : Escapes index s data d e) : ¬ Contained index d e := by
  cases h with
  | command _ _ _ hobjection => exact not_contained_objection hobjection
  | start _ hobjection => exact not_contained_objection hobjection
  | links => exact not_contained_links _
  | creation hcreate =>
    exact Script.raises_create (P := fun e => ¬ Contained index .script e) not_contained_file not_contained_null data _ _
      _ _ _ hcreate
  | _ => exact id

theorem outcome_done {x : Run Unit} : outcome ((do x; return .ok : Run Status) s) = .error e ↔ outcome (x s) = .error e :=
  outcome_bind_eq_error_iff fun _ s => ⟨.ok, s, rfl⟩

theorem check_contained {test : Files → Path → Except FileError Bool} {bad : Bool} {cause : Text → StepCause}
    (htest : ∀ files p e, test files p = .error e → files.stat p = .error e ∧ e.IsRaised)
    (hd : looks d = true) (h : outcome (check index d data test bad cause s) = .error e) :
    Contained index d e ∨ Escapes index s data d e := by
  cases hhome : s.world.files.homes.refuses data with
  | true =>
    rw [check_of_refuses hhome] at h
    cases h
    exact Or.inr (.home hd hhome)
  | false =>
    rw [check_outcome hhome] at h
    cases hthere : test s.world.files (target data s) with
    | error fault =>
      obtain ⟨hstat, hraised⟩ := htest _ _ _ hthere
      rw [hthere] at h
      cases h
      exact Or.inr (.path hd hhome hstat hraised)
    | ok there =>
      rw [hthere] at h
      dsimp only at h
      split at h <;> cases h
      exact Or.inl ⟨rfl, rfl⟩

theorem cd_contained (h : outcome (cd index data s) = .error e) : Contained index .cd e ∨ Escapes index s data .cd e := by
  cases hhome : s.world.files.homes.refuses data with
  | true =>
    rw [cd_of_refuses hhome] at h
    cases h
    exact Or.inr (.home rfl hhome)
  | false =>
    rw [cd_outcome hhome] at h
    cases hthere : s.world.files.isDirectory (target data s) with
    | error fault =>
      obtain ⟨hstat, hraised⟩ := Files.leadsTo_eq_error_iff.mp hthere
      rw [hthere] at h
      cases h
      exact Or.inr (.path rfl hhome hstat hraised)
    | ok there =>
      rw [hthere] at h
      dsimp only at h
      split at h
      · cases h
        exact Or.inl ⟨rfl, rfl⟩
      · rename_i hgood
        simp only [Bool.or_eq_true, Bool.not_eq_true', not_or, Bool.not_eq_false, Bool.not_eq_true] at hgood
        obtain ⟨rfl, hdenied⟩ := hgood
        rw [if_neg (Files.isDirectory_eq_ok_true hthere).1] at h
        cases hresolve : s.world.files.resolve (target data s) with
        | error fault =>
          rw [hresolve] at h
          cases h
          exact Or.inr (.links hhome hthere hdenied hresolve)
        | ok cwd =>
          rw [hresolve] at h
          cases h

theorem perform_contained (h : outcome (perform index d data s) = .error e) :
    Contained index d e ∨ Escapes index s data d e := by
  cases d with
  | cd => exact cd_contained (outcome_done.mp h)
  | exportVar =>
    have hends := (raises_exportVar index data).outcome (outcome_done.mp h)
    exact Or.inl (hends.resolve_right (Console.not_refuses _))
  | info => cases h
  | script => exact script_contained (outcome_done.mp h)
  | mustExistDir => exact check_contained (fun _ _ _ => Files.leadsTo_eq_error_iff.mp) rfl (outcome_done.mp h)
  | mustExistFile => exact check_contained (fun _ _ _ => Files.leadsTo_eq_error_iff.mp) rfl (outcome_done.mp h)
  | mustNotExistDir => exact check_contained (fun _ _ _ => Files.leadsTo_eq_error_iff.mp) rfl (outcome_done.mp h)
  | mustNotExistFile => exact check_contained (fun _ _ _ => Files.leadsTo_eq_error_iff.mp) rfl (outcome_done.mp h)
  | exec =>
    have hexec : outcome (exec s.context index .exec data s.world) = .error e := by
      rw [← Run.outcome_outside]
      exact outcome_done.mp h
    refine (exec_contained hexec).imp_right ?_
    rintro ⟨words, hsplit, hwords, hobjection⟩
    exact .command (Or.inl rfl) hsplit hwords hobjection
  | execNoExit =>
    have hexec : outcome (execNoExit s.context index data s.world) = .error e := by
      rw [← Run.outcome_outside]
      exact h
    rw [execNoExit_outcome] at hexec
    refine (exec_contained hexec.1).imp_right ?_
    rintro ⟨words, hsplit, hwords, hobjection⟩
    exact .command (Or.inr rfl) hsplit hwords hobjection

theorem perform_of_escapes (h : Escapes index s data d e) : outcome (perform index d data s) = .error e := by
  cases h with
  | command hd hsplit hwords hobjection =>
    have hobjects : Objects s.context data e := ⟨_, hsplit, hwords, hobjection⟩
    rcases hd with rfl | rfl
    · have hexec : outcome ((liftM (exec s.context index .exec data) : Run Unit) s) = .error e := by
        rw [Run.outcome_outside, exec_of_objects hobjects]
      exact outcome_done.mpr hexec
    · have hother : ∀ f, e ≠ .step f := by
        rcases Command.objection?_eq_some hobjection with rfl | rfl <;> exact fun f => nofun
      have hexec := (execNoExit_outcome s.context index data s.world).mpr
        ⟨exec_of_objects hobjects index .execNoExit s.world, fun f hf => absurd hf (hother f)⟩
      rwa [← Run.outcome_outside] at hexec
  | home hd hrefuses =>
    cases d with
    | cd => exact outcome_done.mpr (cd_of_refuses hrefuses index)
    | mustExistDir | mustExistFile | mustNotExistDir | mustNotExistFile =>
      exact outcome_done.mpr (check_of_refuses hrefuses index _)
    | _ => cases hd
  | @path _ fault hd hasks hstat hraised =>
    have hfails : ∀ test, s.world.files.leadsTo (target data s) test = .error fault := fun test =>
      Files.leadsTo_eq_error_iff.mpr ⟨hstat, hraised⟩
    have hcheck : ∀ {test : Files → Path → Except FileError Bool} {bad : Bool} {cause : Text → StepCause},
        test s.world.files (target data s) = .error fault →
        outcome (check index d data test bad cause s) = .error (.file fault (target data s).toText) := fun htest => by
      rw [check_outcome hasks, htest]
    cases d with
    | cd =>
      refine outcome_done.mpr ?_
      rw [cd_outcome hasks, Files.isDirectory, hfails]
    | mustExistDir | mustExistFile | mustNotExistDir | mustNotExistFile => exact outcome_done.mpr (hcheck (hfails _))
    | _ => cases hd
  | links hasks hdir hdenied hresolve =>
    refine outcome_done.mpr ?_
    rw [cd_outcome hasks, hdir, hdenied, hresolve, if_neg (Files.isDirectory_eq_ok_true hdir).1]
    rfl
  | creation hcreate => exact outcome_done.mpr (script_of_escapes (.creation hcreate))
  | start hcreate hobjection hgone => exact outcome_done.mpr (script_of_escapes (.start hcreate hobjection hgone))
  | deletion hcreate hunlink hthere => exact outcome_done.mpr (script_of_escapes (.deletion hcreate hunlink hthere))

theorem run_outcome (index : Nat) (step : Step) (s : Session) : outcome (run index step s) = .error e ↔
    outcome (perform index step.directive (text step s) (started index step s)) = .error e := by
  rw [run_apply]
  exact outcome_bind_eq_error_iff fun status s => ⟨_, _, finish_apply ..⟩

/-- A directory that can be looked at is changed to if it is entered at all. -/
theorem Escapes.cd_eq (h : Escapes index s data .cd e) (hlinks : s.world.files.SeesLinks)
    (hcwd : s.context.cwd.Proper) (ha : s.context.cwd.isAbsolute = true) :
    (e = .nullCharacter ∧ s.world.files.homes.refuses data = true) ∨
      ∃ fault : FileError, fault.IsRaised ∧ e = .file fault (target data s).toText := by
  cases h with
  | command hd => simp at hd
  | home _ hrefuses => exact Or.inl ⟨rfl, hrefuses⟩
  | path _ _ _ hraised => exact Or.inr ⟨_, hraised, rfl⟩
  | links _ hdir _ hresolve =>
    obtain ⟨-, place, hstat⟩ := Files.isDirectory_eq_ok_true hdir
    have hproper : (target data s).Proper := hcwd.join (Path.proper_ofText _)
    rw [Files.resolve_of_stat hlinks hproper (Path.join_isAbsolute ha _) hstat] at hresolve
    cases hresolve

/-- A command that may fail is a failure of its step only if the text is no command. -/
theorem execNoExit_fails {f : StepFailure} (h : outcome (execNoExit c index data w) = .error (.step f)) :
    (∃ unclosed, Words.split data = .error unclosed) ∨ Words.split data = .ok [] := by
  obtain ⟨hexec, hcode⟩ := (execNoExit_outcome c index data w).mp h
  cases hsplit : Words.split data with
  | error unclosed => exact Or.inl ⟨unclosed, rfl⟩
  | ok words =>
    by_cases hwords : words = []
    · exact Or.inr (congrArg _ hwords)
    · cases hobjection : Command.objection? words c.cwd.toText c.env with
      | some e =>
        rw [exec_of_objects ⟨words, hsplit, hwords, hobjection⟩] at hexec
        rcases Command.objection?_eq_some hobjection with rfl | rfl <;> cases hexec
      | none =>
        rw [exec_outcome hsplit hwords] at hexec
        rcases (raises_spawn hobjection index .execNoExit data).outcome hexec with h | ⟨startError, code, h⟩
        · cases h
        · cases h
          have hcode := hcode _ rfl
          cases hcode

theorem run_contained (index : Nat) (step : Step) (s : Session) (h : outcome (run index step s) = .error e) :
    Contained index step.directive e ∨ Escapes index (started index step s) (text step s) step.directive e :=
  perform_contained ((run_outcome index step s).mp h)

/-! ### Whatever the console takes -/

section
variable [Console]

/-- What a step may end with, whatever the console takes: as it should, with a fault of the system, or with what the
    console refuses to take. -/
def Ends (index : Nat) (d : Directive) (e : Fault) : Prop :=
  Contained index d e ∨ e.IsSystem ∨ Console.Refuses e

theorem ends_failure (index : Nat) (d : Directive) (cause : StepCause) : Ends index d (failure index d cause) :=
  Or.inl ⟨rfl, rfl⟩

theorem ends_file (e : FileError) (path : Text) : Ends index d (.file e path) := Or.inr (Or.inl trivial)

theorem ends_nullCharacter : Ends index d .nullCharacter := Or.inr (Or.inl trivial)

theorem raises_say (n : Notice) : Raises (Ends index d) (Action.say n) :=
  (Action.raises_say n).mono fun _ he => Or.inr (Or.inr he)

theorem raises_command (argv : List Text) (cwd : Text) (env : Bindings) :
    Raises (Ends index d) (Command.run argv cwd env false) := by
  unfold Command.run
  cases hobjection : Command.objection? argv cwd env with
  | some e => rcases Command.objection?_eq_some hobjection with rfl | rfl <;> exact .throw (Or.inr (Or.inl trivial))
  | none =>
    refine .bind (x := Command.nextChild argv cwd env) (by rintro _ _ _ ⟨⟩) fun child => ?_
    cases child.refusal with
    | some e => exact .pure _
    | none =>
      refine .bind (.forM _ fun line => raises_say _) fun _ => .bind (.modify _) fun _ => ?_
      cases child.exit with
      | none => exact .throw (Or.inl trivial)
      | some code => exact .pure _

theorem raises_started (c : Context) (argv : List Text) (display : Text) :
    Raises (Ends index d) (spawn c index d argv display) := by
  refine .bind (raises_say _) fun _ => .bind (raises_say _) fun _ => .bind (raises_command _ _ _) fun result =>
    .bind (raises_say _) fun _ => ?_
  dsimp only
  split
  · exact .bind (.throw (ends_failure _ _ _)) fun _ => .bind (raises_say _) fun _ => .pure _
  · exact .bind (raises_say _) fun _ => .pure _

theorem raises_exec (c : Context) (data : Text) : Raises (Ends index d) (exec c index d data) := by
  have hargv : Raises (Ends index d) (Step.argv index d data) := by
    unfold Step.argv
    split
    · exact .throw (ends_failure _ _ _)
    · exact .throw (ends_failure _ _ _)
    · exact .pure _
  exact hargv.bind fun argv => (raises_started c argv data).bind fun _ => .pure _

theorem raises_execNoExit (c : Context) (data : Text) : Raises (Ends index .execNoExit) (execNoExit c index data) := by
  intro w e w' h
  unfold execNoExit at h
  cases hexec : exec c index .execNoExit data w with
  | ok u w₁ =>
    rw [hexec] at h
    cases h
  | error e' w₁ =>
    have hends := raises_exec c data w e' w₁ hexec
    have hwarn : ∀ message, Raises (Ends index .execNoExit) (do
        Action.say (.warning message)
        return .warning : Action Status) := fun message => (raises_say _).bind fun _ => .pure _
    rw [hexec] at h
    cases e' with
    | step f =>
      dsimp only at h
      split at h
      · exact hwarn _ _ _ _ h
      · cases h
        exact hends
    | _ =>
      cases h
      exact hends

theorem raises_path (data : Text) : Raises (Ends index d) (path data) := by
  intro s e s' h
  rw [path_apply] at h
  split at h
  · cases h
    exact ends_nullCharacter
  · cases h

theorem raises_check {test : Files → Path → Except FileError Bool} {bad : Bool} {cause : Text → StepCause} :
    Raises (Ends index d) (check index d data test bad cause) := by
  refine (raises_path data).bind fun p => .get_bind fun s =>
    (Run.raises_outside (Action.raises_orFault ends_file p _)).bind fun there => ?_
  split
  · exact .throw (ends_failure _ _ _)
  · exact .pure _

theorem raises_cd (data : Text) : Raises (Ends index .cd) (cd index data) := by
  have hresolve : ∀ p, Raises (Ends index .cd) (Action.resolve p) := by
    intro p w e w' h
    have houtcome := Action.resolve_outcome p w
    rw [h] at houtcome
    split at houtcome
    · cases houtcome
      exact ends_nullCharacter
    · cases hfound : w.files.resolve p with
      | ok q =>
        rw [hfound] at houtcome
        cases houtcome
      | error fault =>
        rw [hfound] at houtcome
        cases houtcome
        cases fault <;> exact Or.inr (Or.inl trivial)
  have hmove : ∀ p : Path, Raises (Ends index .cd) (do
      let cwd ← Action.resolve p
      Run.change fun c => { c with cwd }
      Action.inform ("pwd = " ++ cwd.toText) : Run Unit) := fun p =>
    (Run.raises_outside (hresolve p)).bind fun cwd => .bind (.modify _) fun _ => Run.raises_outside (raises_say _)
  refine (raises_path data).bind fun p => (Run.raises_outside (raises_say _)).bind fun _ => .get_bind fun s =>
    (Run.raises_outside (Action.raises_orFault ends_file p _)).bind fun there => ?_
  dsimp only
  split
  · exact .bind (.throw (ends_failure _ _ _)) fun _ => hmove p
  · exact hmove p

theorem raises_script (data : Text) : Raises (Ends index .script) (script index data) := by
  have hdelete : ∀ p, Raises (Ends index .script) (Script.delete p) := by
    intro p w e w' h
    obtain ⟨fault, -, -, rfl⟩ := (Script.delete_outcome p w).mp (by rw [h]; rfl)
    exact ends_file _ _
  have hduring : ∀ c : Context, Raises (Ends index .script) (Script.during data c.scriptDir c.pid fun p =>
      spawn c index .script [p.toText] p.toText) := fun c =>
    (Script.raises_create ends_file ends_nullCharacter data c.scriptDir c.pid).bind fun p =>
      Action.raises_andFinally ((raises_say _).bind fun _ => raises_started c _ _) ((raises_say _).bind fun _ => hdelete p)
  refine .bind (x := Run.context) (by rintro _ _ _ ⟨⟩) fun c => (Run.raises_outside (hduring c)).bind fun result =>
    .forM _ fun p => (Run.raises_outside (raises_say _)).bind fun _ => .modify _

theorem raises_perform (index : Nat) (d : Directive) (data : Text) : Raises (Ends index d) (perform index d data) := by
  have hdone : ∀ {x : Run Unit}, Raises (Ends index d) x → Raises (Ends index d) (do x; return .ok : Run Status) :=
    fun hx => hx.bind fun _ => .pure _
  have hcontext : Raises (Ends index d) Run.context := by
    rintro _ _ _ ⟨⟩
  cases d with
  | cd => exact hdone (raises_cd data)
  | exportVar => exact hdone ((raises_exportVar index data).mono fun _ => Or.imp_right Or.inr)
  | exec => exact hcontext.bind fun c => hdone (Run.raises_outside (raises_exec c data))
  | execNoExit => exact hcontext.bind fun c => Run.raises_outside (raises_execNoExit c data)
  | info => exact hdone (Run.raises_outside (raises_say _))
  | mustExistDir => exact hdone raises_check
  | mustExistFile => exact hdone raises_check
  | mustNotExistDir => exact hdone raises_check
  | mustNotExistFile => exact hdone raises_check
  | script => exact hdone (raises_script data)

theorem run_ends (index : Nat) (step : Step) : Raises (Ends index step.directive) (run index step) := by
  have hcontext : Raises (Ends index step.directive) Run.context := by
    rintro _ _ _ ⟨⟩
  exact hcontext.bind fun c => (Run.raises_outside (raises_say _)).bind fun _ => .get_bind fun s =>
    (raises_perform index step.directive _).bind fun status => .get_bind fun s =>
      (Run.raises_outside (raises_say _)).bind fun _ => .pure _

end

/-- A session in a directory. -/
def settled : Session where
  world := {
    files := { tree := ⟨[(["w"], .directory)]⟩, denied := [], cwd := ⟨.root, ["w"]⟩, homes := ⟨[], []⟩ }
    env := []
    host := ⟨0, 0, 0, 0, [], [], [], none, [], [], [], []⟩
    children := []
    clock := 0
    tried := 0
    starts := []
    verbosity := .normal
    log := []
    tee := none }
  context := ⟨⟨.root, ["w"]⟩, [], [], ⟨.root, ["s"]⟩, 7⟩

end Step

end Runbook
