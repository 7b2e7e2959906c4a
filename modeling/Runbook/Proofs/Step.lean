import Runbook.Proofs.Command
import Runbook.Proofs.Script
import Runbook.Proofs.Session
import Runbook.Proofs.Words
import Runbook.Step

/-! # What steps do

What a step tries to start, however it ends (`Step.run_starts`), and what a step that does not fail makes of the context
and gives as its result (`Step.run_eq_ok`). -/

namespace Runbook.Step

open Effect World

variable {index : Nat} {d : Directive} {data display : Text} {argv words : List Text} {c : Context} {s s' : Session}
  {w w' : World} {new : List Start} {r : CommandResult}

/-- A child can be in the directory of a context and have its environment. -/
abbrev Habitable (c : Context) : Prop := Command.objection? [] c.cwd.toText c.env = none

/-- What has been started is the command with the given words, in the directory and with the environment of a context;
    nothing if there are no words, or if no child can be in the directory or have the environment. -/
def Attempts (c : Context) (argv? : Option (List Text)) (new : List Start) : Prop :=
  match argv? with
  | none => new = []
  | some argv => if Habitable c then ∃ program, new = [⟨argv, c.cwd.toText, c.env, program⟩] else new = []

theorem attempts_nil (argv? : Option (List Text)) (h : ¬ Habitable c) : Attempts c argv? [] := by
  cases argv? with
  | none => rfl
  | some argv => exact (if_neg h).mpr rfl

theorem attempts_singleton (argv : List Text) (program : Option (List UInt8 × Nat)) (h : Habitable c) :
    Attempts c (some argv) [⟨argv, c.cwd.toText, c.env, program⟩] :=
  (if_pos h).mpr ⟨program, rfl⟩

/-- The words of the command a text stands for, if there can be one. -/
def command? (data : Text) : Option (List Text) :=
  match Words.split data with
  | .error _ => none
  | .ok words => if words = [] ∨ '\x00' ∈ data then none else some words

/-- The words of the script a text stands for, if its file can be made. -/
def scriptCommand? (c : Context) (data : Text) (w : World) : Option (List Text) :=
  match Script.create data c.scriptDir c.pid w with
  | .ok p _ => some [p.toText]
  | .error _ _ => none

/-- The words of what a directive starts with a text, if it starts anything. -/
def words? (d : Directive) (data : Text) (s : Session) : Option (List Text) :=
  match d with
  | .exec | .execNoExit => command? data
  | .script => scriptCommand? s.context data s.world
  | _ => none

/-! ### Commands -/

theorem plain_null : Words.IsPlain '\x00' := ⟨by decide, by decide, by decide⟩

theorem any_contains_null (hsplit : Words.split data = .ok words) :
    words.any (·.contains '\x00') = true ↔ '\x00' ∈ data := by
  rw [← Words.mem_split_iff plain_null hsplit]
  simp

/-- What is said of a command that has been run, and whether it fails the step. -/
def report (index : Nat) (d : Directive) (display : Text) (result : CommandResult) : Action CommandResult := do
  Action.inform ("cmd.elapsed = " ++ (Duration.ofMillis result.millis).render)
  if result.startError.isSome || !result.ok then
    throw (failure index d (.child result.startError display result.code))
  Action.inform "cmd.status = passed"
  return result

/-- The world in which a command is run that has been announced. -/
def commandAnnounced (c : Context) (argv : List Text) (w : World) : World :=
  (w.say (.info ("cmd.cmd = " ++ Words.join argv))).say (.info ("cmd.pwd = " ++ c.cwd.toText))

theorem bears_commandAnnounced {R : World → World → Prop} [BearsTelling R] (c : Context) (argv : List Text) (w : World) :
    R w (commandAnnounced c argv w) := Frame.trans (BearsTelling.tell w rfl) (BearsTelling.tell _ rfl)

theorem says_commandAnnounced (c : Context) (argv : List Text) (w : World) : Says w (commandAnnounced c argv w) :=
  bears_commandAnnounced c argv w

theorem spawn_apply (c : Context) (index : Nat) (d : Directive) (argv : List Text) (display : Text) (w : World) :
    spawn c index d argv display w =
      (Command.run argv c.cwd.toText c.env false >>= report index d display) (commandAnnounced c argv w) := rfl

theorem leads_report {R : World → World → Prop} [BearsTelling R] (index : Nat) (d : Directive) (display : Text)
    (result : CommandResult) : Leads R (report index d display result) := by
  have hpassed : Leads R (do Action.inform "cmd.status = passed"; return result : Action CommandResult) :=
    Leads.bind (Action.leads_inform _) fun _ => .pure _
  refine Leads.bind (Action.leads_inform _) fun _ => ?_
  dsimp only
  split
  · exact Leads.bind (.throw _) fun _ => hpassed
  · exact hpassed

theorem report_eq_ok {result : CommandResult} (h : report index d display result w = .ok r w') :
    r = result ∧ result.startError = none := by
  rw [report, Action.inform_bind] at h
  split at h
  · cases h
  · rename_i hok
    cases h
    simp only [Bool.or_eq_true, not_or, Bool.not_eq_true, Option.isSome_eq_false_iff, Option.isNone_iff_eq_none] at hok
    exact ⟨rfl, hok.1⟩

theorem spawn_starts (c : Context) (index : Nat) (d : Directive) (argv : List Text) (display : Text) (w : World) :
    ∃ new, Starts new w (final (spawn c index d argv display w)) ∧
      Attempts c (if argv.any (·.contains '\x00') then none else some argv) new := by
  have hsaid := (says_commandAnnounced c argv w).starts_nil
  rw [spawn_apply]
  cases hobjection : Command.objection? argv c.cwd.toText c.env with
  | some e =>
    -- The fault comes before the next child is taken.
    refine ⟨[], ?_, ?_⟩
    · rw [bind_of_error (Command.run_of_objection hobjection false _)]
      exact hsaid
    · split
      · rfl
      · rename_i hargv
        refine attempts_nil _ fun hfit => ?_
        have hnone := Command.objection?_words.mpr ⟨hfit, Bool.eq_false_iff.mpr hargv⟩
        rw [hobjection] at hnone
        cases hnone
  | none =>
    obtain ⟨hfit, hargv⟩ := Command.objection?_words.mp hobjection
    have hrun := Command.run_starts hobjection false (commandAnnounced c argv w)
    refine ⟨_, hsaid.trans (final_bind hrun (leads_report index d display) Starts.trans_nil), ?_⟩
    rw [if_neg (ne_true_of_eq_false hargv)]
    exact attempts_singleton argv _ hfit

/-- A command that is spawned and ends well has started, and its output is what the next child prints. -/
theorem spawn_eq_ok (h : spawn c index d argv display w = .ok r w') : r.output = (w.children.headD .silent).lines := by
  rw [spawn_apply] at h
  obtain ⟨result, w₁, hrun, h⟩ := bind_eq_ok h
  obtain ⟨rfl, hstarted⟩ := report_eq_ok h
  rw [Command.run_output hrun hstarted, (says_commandAnnounced c argv w).children]

theorem exec_starts (c : Context) (index : Nat) (d : Directive) (data : Text) (w : World) :
    ∃ new, Starts new w (final (exec c index d data w)) ∧ Attempts c (command? data) new := by
  unfold exec argv command?
  cases hsplit : Words.split data with
  | error e => exact ⟨[], Frame.refl w, rfl⟩
  | ok words =>
    cases words with
    | nil => exact ⟨[], Frame.refl w, rfl⟩
    | cons word words =>
      obtain ⟨new, hstarts, hnew⟩ := spawn_starts c index d (word :: words) data w
      refine ⟨new, ?_, ?_⟩
      · simpa using hstarts
      · simpa only [any_contains_null hsplit, reduceCtorEq, false_or] using hnew

theorem execNoExit_starts (c : Context) (index : Nat) (data : Text) (w : World) :
    ∃ new, Starts new w (final (execNoExit c index data w)) ∧ Attempts c (command? data) new := by
  obtain ⟨new, hstarts, hnew⟩ := exec_starts c index .execNoExit data w
  refine ⟨new, ?_, hnew⟩
  unfold execNoExit
  cases hexec : exec c index .execNoExit data w with
  | ok _ w₁ =>
    rw [hexec] at hstarts
    exact hstarts
  | error e w₁ =>
    rw [hexec] at hstarts
    cases e with
    | step f =>
      dsimp only
      split
      · exact hstarts.trans_nil (says_say w₁ _).starts_nil
      · exact hstarts
    | _ => exact hstarts

/-! ### Scripts -/

theorem takeExport_apply (index : Nat) (p : Text × Text) (s : Session) : takeExport index p s = .ok ()
    ⟨s.world.say (.info ("variable " ++ p.1 ++ " = " ++ p.2 ++ " (exported by step " ++ Text.ofNat index ++ ")")),
      { s.context with values := Bindings.set p.1 p.2 s.context.values }⟩ := rfl

theorem takeExports_apply (index : Nat) (l : List (Text × Text)) (s : Session) :
    ∃ w, l.forM (takeExport index) s = .ok () ⟨w, { s.context with values := s.context.values.update l }⟩ := by
  induction l generalizing s with
  | nil => exact ⟨s.world, rfl⟩
  | cons p l ih =>
    obtain ⟨w, hrest⟩ := ih _
    exact ⟨w, (bind_of_ok (takeExport_apply index p s)).trans hrest⟩

theorem leads_takeExports {R : World → World → Prop} [BearsTelling R] (index : Nat) (l : List (Text × Text)) :
    Leads (Session.Outside R) (l.forM (takeExport index)) :=
  .forM l fun p s => by
    rw [takeExport_apply]
    exact BearsTelling.tell _ rfl

theorem script_starts (index : Nat) (data : Text) (s : Session) : ∃ new, s.Starts new (final (script index data s)) ∧
    Attempts s.context (scriptCommand? s.context data s.world) new := by
  have hduring : ∃ new, Starts new s.world (final (Script.during data s.context.scriptDir s.context.pid
      (fun p => spawn s.context index .script [p.toText] p.toText) s.world)) ∧
      Attempts s.context (scriptCommand? s.context data s.world) new := by
    unfold scriptCommand?
    cases hcreate : Script.create data s.context.scriptDir s.context.pid s.world with
    | error e w₁ => exact ⟨[], Script.starts_during_of_error hcreate, rfl⟩
    | ok p w₁ =>
      obtain ⟨new, hstarts, hnew⟩ := spawn_starts s.context index .script [p.toText] p.toText (Script.announced p w₁)
      refine ⟨new, Script.starts_during hcreate hstarts, ?_⟩
      have hnull : [p.toText].any (·.contains '\x00') = false := by simpa using Script.create_not_mem hcreate
      simpa only [hnull, Bool.false_eq_true, if_false] using hnew
  obtain ⟨new, hstarts, hnew⟩ := hduring
  refine ⟨new, ?_, hnew⟩
  unfold script
  rw [Run.context_bind]
  refine final_bind (R := Session.Starts new) ?_ (fun result => leads_takeExports index _) Starts.trans_nil
  exact Run.outside_final hstarts

theorem script_eq_ok (h : script index data s = .ok () s') : s'.context = { s.context with
    values := s.context.values.update (Marker.exports (s.world.children.headD .silent).lines) } := by
  rw [script, Run.context_bind] at h
  obtain ⟨result, s₁, hduring, h⟩ := bind_eq_ok h
  obtain ⟨hduring, hcontext⟩ := Run.outside_eq_ok hduring
  -- No child has been started before the script is, so the next one is its own.
  obtain ⟨p, w₁, w₂, hcreate, hspawn⟩ := Script.during_eq_ok hduring
  have hcreated : Starts [] s.world w₁ := (Script.leads_create _ _ _).ok hcreate
  have hchildren : (Script.announced p w₁).children = s.world.children :=
    (Script.says_announced p w₁).children.trans hcreated.children
  obtain ⟨w, htake⟩ := takeExports_apply index (Marker.exports result.output) s₁
  rw [htake] at h
  cases h
  rw [spawn_eq_ok hspawn, hchildren, hcontext]

/-! ### Directories, the environment and tests -/

/-- The path a text names in a session. -/
def target (data : Text) (s : Session) : Path := s.context.cwd.join (Path.ofText (s.world.files.homes.expandText data))

theorem path_apply (data : Text) (s : Session) : path data s =
    if s.world.files.homes.refuses data then .error .nullCharacter s else .ok (target data s) s := by
  unfold path
  rw [get_bind_apply]
  split <;> rfl

theorem path_bind {α : Type} (h : s.world.files.homes.refuses data = false) (f : Path → Run α) :
    (path data >>= f) s = f (target data s) s :=
  bind_of_ok ((path_apply data s).trans (if_neg (ne_true_of_eq_false h)))

theorem path_bind_of_refuses {α : Type} (h : s.world.files.homes.refuses data = true) (f : Path → Run α) :
    (path data >>= f) s = .error .nullCharacter s :=
  bind_of_error ((path_apply data s).trans (if_pos h))

/-- What goes on with the path a text names goes on only if its home may be asked for. -/
theorem path_bind_eq_ok {α : Type} {a : α} {f : Path → Run α} (h : (path data >>= f) s = .ok a s') :
    f (target data s) s = .ok a s' := by
  cases hhome : s.world.files.homes.refuses data with
  | true =>
    rw [path_bind_of_refuses hhome] at h
    cases h
  | false => rwa [path_bind hhome] at h

section
variable {R : World → World → Prop} [BearsTelling R]

theorem leads_path (data : Text) : Leads (Session.Outside R) (path data) := by
  intro s
  rw [path_apply]
  split <;> exact Frame.refl s.world

theorem leads_cd (index : Nat) (data : Text) : Leads (Session.Outside R) (cd index data) := by
  have hmove : ∀ p : Path, Leads (Session.Outside R) (do
      let cwd ← Action.resolve p
      Run.change fun c => { c with cwd }
      Action.inform ("pwd = " ++ cwd.toText) : Run Unit) := fun p =>
    Leads.bind (Run.leads_outside (Action.leads_resolve p)) fun cwd => Leads.bind (Run.leads_change _) fun _ =>
      Run.leads_outside (Action.leads_inform _)
  refine Leads.bind (leads_path data) fun p => Leads.bind (Run.leads_outside (Action.leads_inform _)) fun _ =>
    Leads.get.bind fun s => Leads.bind (Run.leads_outside (Action.leads_orFault p _)) fun there => ?_
  dsimp only
  split
  · exact Leads.bind (.throw _) fun _ => hmove p
  · exact hmove p

theorem leads_exportVar (index : Nat) (data : Text) : Leads (Session.Outside R) (exportVar index data) := by
  have hset : ∀ name value : Text, Leads (Session.Outside R) (do
      Action.inform ("export " ++ name ++ "=" ++ value)
      Run.change fun c => { c with env := Bindings.set name value c.env } : Run Unit) := fun name value =>
    Leads.bind (Run.leads_outside (Action.leads_inform _)) fun _ => Run.leads_change _
  unfold exportVar
  dsimp only
  split
  · exact Leads.bind (.throw _) fun _ => hset _ _
  · exact hset _ _

theorem leads_check {test : Files → Path → Except FileError Bool} {bad : Bool} {cause : Text → StepCause} :
    Leads (Session.Outside R) (check index d data test bad cause) := by
  refine Leads.bind (leads_path data) fun p => Leads.get.bind fun s =>
    Leads.bind (Run.leads_outside (Action.leads_orFault p _)) fun there => ?_
  split
  · exact .throw _
  · exact .pure _

end

/-- A change of directory that does not fail leads to where the target leads. -/
theorem cd_eq_ok (h : cd index data s = .ok () s') : ∃ cwd, '\x00' ∉ (target data s).toText ∧
    s.world.files.resolve (target data s) = .ok cwd ∧ s'.context = { s.context with cwd } := by
  obtain ⟨_, s₁, hsay, h⟩ := bind_eq_ok (path_bind_eq_ok h)
  obtain ⟨hsay, hcontext⟩ := Run.outside_eq_ok hsay
  have hsaid : Says s.world s₁.world := (Action.leads_inform _).ok hsay
  rw [get_bind_apply] at h
  obtain ⟨there, s₂, hthere, h⟩ := bind_eq_ok h
  obtain ⟨hthere, hcontext'⟩ := Run.outside_eq_ok hthere
  have hworld : s₂.world = s₁.world := by
    have := Action.orFault_final (target data s) (s₁.world.files.isDirectory (target data s)) s₁.world
    rwa [hthere] at this
  split at h
  · cases h
  · obtain ⟨cwd, s₃, hresolve, h⟩ := bind_eq_ok h
    obtain ⟨hresolve, hcontext''⟩ := Run.outside_eq_ok hresolve
    obtain ⟨hnull, hresolve⟩ := Action.resolve_eq_ok hresolve
    rw [Run.change_bind] at h
    -- What has been said may be in a log file, which leads nowhere else.
    refine ⟨cwd, hnull, ?_, ?_⟩
    · rw [← hresolve, hworld, hsaid.files.resolve_eq]
    · rw [(Run.outside_eq_ok h).2, hcontext'', hcontext', hcontext]

/-- The name and the value an environment variable is set from. -/
def assignment (data : Text) : Text × Text :=
  ((Text.cut '=' data).1.trim, (Text.cut '=' data).2.getD [])

theorem exportVar_eq_ok (h : exportVar index data s = .ok () s') : s'.context = { s.context with
    env := Bindings.set (assignment data).1 (assignment data).2 s.context.env } := by
  unfold exportVar at h
  dsimp only at h
  split at h
  · cases h
  · obtain ⟨_, s₁, hsay, h⟩ := bind_eq_ok h
    rw [← (Run.outside_eq_ok hsay).2]
    cases h
    rfl

theorem check_eq_ok {test : Files → Path → Except FileError Bool} {bad : Bool} {cause : Text → StepCause}
    (h : check index d data test bad cause s = .ok () s') : s'.context = s.context := by
  have h := path_bind_eq_ok h
  rw [get_bind_apply] at h
  obtain ⟨there, s₁, hthere, h⟩ := bind_eq_ok h
  split at h
  · cases h
  · cases h
    exact (Run.outside_eq_ok hthere).2

/-! ### Directives -/

theorem perform_starts (index : Nat) (d : Directive) (data : Text) (s : Session) :
    ∃ new, s.Starts new (final (perform index d data s)) ∧ Attempts s.context (words? d data s) new := by
  -- What leads nowhere with regard to children starts none.
  have hquiet : ∀ {x : Run Unit}, Leads (Session.Starts []) x →
      s.Starts [] (final ((do x; return .ok : Run Status) s)) := fun hx => by
    rw [final_bind_pure]
    exact hx s
  cases d with
  | cd => exact ⟨[], hquiet (leads_cd index data), rfl⟩
  | exportVar => exact ⟨[], hquiet (leads_exportVar index data), rfl⟩
  | info => exact ⟨[], hquiet (Run.leads_outside (Action.leads_say _)), rfl⟩
  | mustExistDir => exact ⟨[], hquiet leads_check, rfl⟩
  | mustExistFile => exact ⟨[], hquiet leads_check, rfl⟩
  | mustNotExistDir => exact ⟨[], hquiet leads_check, rfl⟩
  | mustNotExistFile => exact ⟨[], hquiet leads_check, rfl⟩
  | exec =>
    obtain ⟨new, hstarts, hnew⟩ := exec_starts s.context index .exec data s.world
    refine ⟨new, ?_, hnew⟩
    unfold perform
    simp only [Run.context_bind, final_bind_pure]
    exact Run.outside_final hstarts
  | execNoExit =>
    obtain ⟨new, hstarts, hnew⟩ := execNoExit_starts s.context index data s.world
    exact ⟨new, Run.outside_final hstarts, hnew⟩
  | script =>
    obtain ⟨new, hstarts, hnew⟩ := script_starts index data s
    refine ⟨new, ?_, hnew⟩
    unfold perform
    simp only [final_bind_pure]
    exact hstarts

/-- The context is the one that a directive which does not fail makes with a text in a session. -/
def Makes (d : Directive) (data : Text) (s : Session) (c : Context) : Prop :=
  match d with
  | .cd => ∃ cwd, '\x00' ∉ (target data s).toText ∧ s.world.files.resolve (target data s) = .ok cwd ∧
      c = { s.context with cwd }
  | .exportVar => c = { s.context with env := Bindings.set (assignment data).1 (assignment data).2 s.context.env }
  | .script => c = { s.context with
      values := s.context.values.update (Marker.exports (s.world.children.headD .silent).lines) }
  | _ => c = s.context

namespace Makes

theorem values (h : Makes d data s c) : c.values =
    if d = .script then s.context.values.update (Marker.exports (s.world.children.headD .silent).lines)
    else s.context.values := by
  cases d with
  | cd =>
    obtain ⟨cwd, -, -, rfl⟩ := h
    rfl
  | _ =>
    subst h
    rfl

theorem env (h : Makes d data s c) : c.env =
    if d = .exportVar then Bindings.set (assignment data).1 (assignment data).2 s.context.env else s.context.env := by
  cases d with
  | cd =>
    obtain ⟨cwd, -, -, rfl⟩ := h
    rfl
  | _ =>
    subst h
    rfl

theorem cwd (h : Makes d data s c) : if d = .cd then
    '\x00' ∉ (target data s).toText ∧ s.world.files.resolve (target data s) = .ok c.cwd else c.cwd = s.context.cwd := by
  cases d with
  | cd =>
    obtain ⟨cwd, hnull, hresolve, rfl⟩ := h
    exact ⟨hnull, hresolve⟩
  | _ =>
    subst h
    rfl

theorem scripts (h : Makes d data s c) : c.scriptDir = s.context.scriptDir ∧ c.pid = s.context.pid := by
  cases d with
  | cd =>
    obtain ⟨cwd, -, -, rfl⟩ := h
    exact ⟨rfl, rfl⟩
  | _ =>
    subst h
    exact ⟨rfl, rfl⟩

end Makes

/-- What a directive makes of the context does not depend on what has been said before. -/
theorem makes_of_says {s₁ : Session} (h : Makes d data s₁ c) (hsaid : Says s.world s₁.world)
    (hcontext : s₁.context = s.context) : Makes d data s c := by
  have htarget : target data s₁ = target data s := by rw [target, target, hcontext, hsaid.files.homes]
  cases d with
  | cd => rwa [Makes, htarget, hsaid.files.resolve_eq, hcontext] at h
  | script => rwa [Makes, hsaid.children, hcontext] at h
  | _ =>
    unfold Makes at h ⊢
    rwa [hcontext] at h

theorem perform_eq_ok {status : Status} (h : perform index d data s = .ok status s') : Makes d data s s'.context := by
  cases d with
  | execNoExit => exact (Run.outside_eq_ok h).2
  | exec =>
    unfold perform at h
    simp only [Run.context_bind] at h
    obtain ⟨_, s₁, hexec, h⟩ := bind_eq_ok h
    cases h
    exact (Run.outside_eq_ok hexec).2
  | cd =>
    obtain ⟨_, s₁, hcd, h⟩ := bind_eq_ok h
    cases h
    exact cd_eq_ok hcd
  | exportVar =>
    obtain ⟨_, s₁, hset, h⟩ := bind_eq_ok h
    cases h
    exact exportVar_eq_ok hset
  | script =>
    obtain ⟨_, s₁, hscript, h⟩ := bind_eq_ok h
    cases h
    exact script_eq_ok hscript
  | info =>
    obtain ⟨_, s₁, hsay, h⟩ := bind_eq_ok h
    cases h
    exact (Run.outside_eq_ok hsay).2
  | mustExistDir | mustExistFile | mustNotExistDir | mustNotExistFile =>
    obtain ⟨_, s₁, hcheck, h⟩ := bind_eq_ok h
    cases h
    exact check_eq_ok hcheck

section
variable {R : World → World → Prop} [BearsTelling R] (hrun : ∀ argv cwd env, Leads R (Command.run argv cwd env false))
include hrun

theorem leads_spawn (c : Context) (index : Nat) (d : Directive) (argv : List Text) (display : Text) :
    Leads R (spawn c index d argv display) := by
  intro w
  rw [spawn_apply]
  exact Frame.trans (bears_commandAnnounced c argv w)
    (Leads.bind (hrun argv c.cwd.toText c.env) (leads_report index d display) _)

theorem leads_exec (c : Context) (index : Nat) (d : Directive) (data : Text) : Leads R (exec c index d data) := by
  refine Leads.bind ?_ fun argv => Leads.bind (leads_spawn hrun c index d argv data) fun _ => .pure _
  unfold argv
  split
  · exact .throw _
  · exact .throw _
  · exact .pure _

theorem leads_execNoExit (c : Context) (index : Nat) (data : Text) : Leads R (execNoExit c index data) := by
  intro w
  have hexec := leads_exec hrun c index .execNoExit data w
  unfold execNoExit
  cases h : exec c index .execNoExit data w with
  | ok _ w₁ =>
    rw [h] at hexec
    exact hexec
  | error e w₁ =>
    rw [h] at hexec
    cases e with
    | step f =>
      dsimp only
      cases f.cause with
      | child => exact Frame.trans hexec (BearsTelling.tell w₁ rfl)
      | _ => exact hexec
    | _ => exact hexec

/-- What bears all that a step does but to show what the user asked for, bears any step that is no `info`. -/
theorem leads_perform [BearsFiles R] (hd : d ≠ .info) (index : Nat) (data : Text) :
    Leads (Session.Outside R) (perform index d data) := by
  have hdone : ∀ {x : Run Unit}, Leads (Session.Outside R) x → Leads (Session.Outside R) (do x; return .ok : Run Status) :=
    fun hx => Leads.bind hx fun _ => .pure _
  cases d with
  | cd => exact hdone (leads_cd index data)
  | exportVar => exact hdone (leads_exportVar index data)
  | exec => exact fun s => hdone (Run.leads_outside (leads_exec hrun s.context index .exec data)) s
  | execNoExit => exact fun s => Run.leads_outside (leads_execNoExit hrun s.context index data) s
  | info => exact absurd rfl hd
  | mustExistDir => exact hdone leads_check
  | mustExistFile => exact hdone leads_check
  | mustNotExistDir => exact hdone leads_check
  | mustNotExistFile => exact hdone leads_check
  | script =>
    refine hdone fun s => ?_
    refine Leads.bind (Run.leads_outside (Script.leads_during (fun p => ?_) data s.context.scriptDir s.context.pid))
      (fun result => leads_takeExports index _) s
    exact leads_spawn hrun s.context index .script [p.toText] p.toText

end

/-! ### Steps -/

variable {step : Step} {result : StepResult}

/-- The text of a step in a session, its references replaced. -/
def text (step : Step) (s : Session) : Text := Variables.substitute step.data s.context.values

/-- What is said of a step that starts. -/
def startNotice (index : Nat) (step : Step) (s : Session) : Notice :=
  .stepStart index step.directive.keyword (summary (text step s)) s.context.cwd.toText

/-- The session in which a step does its work: its start has been said. -/
def started (index : Nat) (step : Step) (s : Session) : Session :=
  { s with world := s.world.say (startNotice index step s) }

theorem bears_started {R : World → World → Prop} [BearsTelling R] (index : Nat) (step : Step) (s : Session) :
    s.Outside R (started index step s) := BearsTelling.tell _ rfl

theorem says_started (index : Nat) (step : Step) (s : Session) : Says s.world (started index step s).world :=
  bears_started index step s

/-- Says the end of a step and gives its result; `start` is when the step began. -/
def finish (index : Nat) (step : Step) (data : Text) (start : Nat) (status : Status) : Run StepResult := do
  let millis := (← get).world.clock - start
  Action.say (.stepEnd index (Duration.ofMillis millis))
  return ⟨index, step.directive, data, status, millis⟩

theorem finish_apply (index : Nat) (step : Step) (data : Text) (start : Nat) (status : Status) (s : Session) :
    finish index step data start status s = .ok ⟨index, step.directive, data, status, s.world.clock - start⟩
      { s with world := s.world.say (.stepEnd index (Duration.ofMillis (s.world.clock - start))) } := rfl

theorem run_apply (index : Nat) (step : Step) (s : Session) : run index step s =
    (perform index step.directive (text step s) >>= finish index step (text step s) (started index step s).world.clock)
      (started index step s) := rfl

theorem leads_finish {R : World → World → Prop} [BearsTelling R] (index : Nat) (step : Step) (data : Text) (start : Nat)
    (status : Status) : Leads (Session.Outside R) (finish index step data start status) := by
  intro s
  rw [finish_apply]
  exact BearsTelling.tell _ rfl

theorem leads_run {R : World → World → Prop} [Bears R] [BearsFiles R]
    (hrun : ∀ argv cwd env, Leads R (Command.run argv cwd env false)) (index : Nat) (step : Step) :
    Leads (Session.Outside R) (run index step) := by
  intro s
  have hperform : Leads (Session.Outside R) (perform index step.directive (text step s)) := by
    by_cases hd : step.directive = .info
    · rw [hd]
      exact Leads.bind (Run.leads_outside (Action.leads_say _)) fun _ => .pure _
    · exact leads_perform hrun hd index _
  rw [run_apply]
  exact Frame.trans (R := Session.Outside R) (bears_started index step s)
    (Leads.bind hperform (leads_finish index step _ _) _)

/-- However a step ends, it has started what its text and its directive say, in the directory and with the environment
    of the context before it. -/
theorem run_starts (index : Nat) (step : Step) (s : Session) : ∃ new, s.Starts new (final (run index step s)) ∧
    Attempts s.context (words? step.directive (text step s) (started index step s)) new := by
  obtain ⟨new, hstarts, hnew⟩ := perform_starts index step.directive (text step s) (started index step s)
  refine ⟨new, ?_, hnew⟩
  rw [run_apply]
  have hsaid := (says_started index step s).starts_nil
  exact hsaid.trans (final_bind hstarts (leads_finish index step _ _) Starts.trans_nil)

/-- What a step that does not fail gives and makes of the context. -/
theorem run_eq_ok (h : run index step s = .ok result s') : result.index = index ∧ result.directive = step.directive ∧
    result.data = text step s ∧ Makes step.directive (text step s) s s'.context := by
  rw [run_apply] at h
  obtain ⟨status, s₁, hperform, h⟩ := bind_eq_ok h
  rw [finish_apply] at h
  cases h
  have hmakes := perform_eq_ok hperform
  exact ⟨rfl, rfl, rfl, makes_of_says hmakes (says_started index step s) rfl⟩

theorem run_clean (hs : s.Clean) (h : run index step s = .ok result s') : s'.Clean := by
  obtain ⟨new, hstarts, -⟩ := run_starts index step s
  obtain ⟨-, -, -, hmakes⟩ := run_eq_ok h
  rw [h] at hstarts
  refine ⟨?_, hstarts.lacks hs.files⟩
  have hcwd := hmakes.cwd
  split at hcwd
  · obtain ⟨hnull, hresolve⟩ := hcwd
    exact Files.resolve_lacks hs.files (by decide) (by decide) hnull hresolve
  · rw [hcwd]
    exact hs.cwd

end Runbook.Step
