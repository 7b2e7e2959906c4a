import Runbook.Proofs.History
import Runbook.Proofs.Script.Lifecycle

/-! # What steps leave behind

A step that runs a script leaves the files as they were, with directories on the way to the script directory and with what
the child has done to them (`run_script`); any other step leaves them as its child does (`run_undergoes`). So a run leaves
no script behind and writes over no file by itself. Main statement: `runAll_files`. -/

namespace Runbook

open Effect World

variable {s s' : Session} {index : Nat} {step : Step} {d : Directive} {data : Text} {c : Context} {argv : List Text}
  {p : Path} {place q : Place} {t : Tree} {changes : List Change}

namespace Session

/-- Between the sessions nothing has happened to the files but what is written to the log. -/
abbrev Notes (s s' : Session) : Prop := Outside World.Notes s s'

/-- A child that is started finds the files as they are, and what it does to them is done. -/
abbrev Undergoes (changes : List Change) (s s' : Session) : Prop := World.Undergoes changes s.world s'.world

/-- The process is in a directory with an absolute path, its paths can be told from their texts, and its log is there. -/
structure Sound (s : Session) : Prop where
  isAbsolute : s.world.files.cwd.isAbsolute = true
  proper : s.world.files.cwd.Proper
  scripts : s.context.scriptDir.Proper
  logs : s.world.Logs

/-- The child that is started next. -/
def next (s : Session) : Child := s.world.children.headD .silent

end Session

namespace Step

/-! ### Commands -/

theorem spawn_undergoes (c : Context) (index : Nat) (d : Directive) (argv : List Text) (display : Text) (w : World) :
    Undergoes (if (Command.objection? argv c.cwd.toText c.env).isSome then [] else (w.children.headD .silent).deeds) w
      (final (spawn c index d argv display w)) := by
  have hrun := Command.run_undergoes argv c.cwd.toText c.env false (commandAnnounced c argv w)
  rw [(says_commandAnnounced c argv w).children] at hrun
  rw [spawn_apply]
  exact (bears_commandAnnounced c argv w : Notes w _).trans_undergoes
    (final_bind hrun (leads_report index d display) Undergoes.trans_notes)

/-- A command that can be started starts with the content of its program. -/
theorem spawn_start (h : Command.objection? argv c.cwd.toText c.env = none) (index : Nat) (d : Directive)
    (display : Text) (w : World) : Starts
      [⟨argv, c.cwd.toText, c.env, Command.program? (commandAnnounced c argv w).files.tree argv⟩] w
      (final (spawn c index d argv display w)) := by
  rw [spawn_apply]
  exact (says_commandAnnounced c argv w).starts_nil.trans
    (final_bind (Command.run_starts h false _) (leads_report index d display) Starts.trans_nil)

/-- A step may do nothing to the files, or a child that is started for it does what it does. -/
def MayUndergo (s s' : Session) : Prop := s.Undergoes [] s' ∨ s.Undergoes s.next.deeds s'

theorem exec_undergoes (index : Nat) (d : Directive) (data : Text) (c : Context) (w : World) :
    Undergoes [] w (final (exec c index d data w)) ∨
      Undergoes (w.children.headD .silent).deeds w (final (exec c index d data w)) := by
  unfold exec Step.argv
  cases Words.split data with
  | error e => exact Or.inl (Frame.refl w : Notes w w).undergoes
  | ok words =>
    cases words with
    | nil => exact Or.inl (Frame.refl w : Notes w w).undergoes
    | cons word words =>
      have hspawn := spawn_undergoes c index d (word :: words) data w
      split at hspawn
      · exact Or.inl (by simpa using hspawn)
      · exact Or.inr (by simpa using hspawn)

theorem execNoExit_notes (c : Context) (index : Nat) (data : Text) (w : World) :
    Notes (final (exec c index .execNoExit data w)) (final (execNoExit c index data w)) := by
  unfold execNoExit
  cases exec c index .execNoExit data w with
  | ok _ w₁ => exact Frame.refl w₁
  | error e w₁ =>
    cases e with
    | step f =>
      dsimp only
      split
      · exact World.notes_say w₁ _
      · exact Frame.refl w₁
    | _ => exact Frame.refl w₁

theorem perform_undergoes (hd : d ≠ .script) (index : Nat) (data : Text) (s : Session) :
    MayUndergo s (final (perform index d data s)) := by
  have hquiet : ∀ {x : Run Unit}, Leads Session.Notes x →
      MayUndergo s (final ((do x; return .ok : Run Status) s)) := fun hx => by
    rw [final_bind_pure]
    exact Or.inl (hx s).undergoes
  cases d with
  | cd => exact hquiet (leads_cd index data)
  | exportVar => exact hquiet (leads_exportVar index data)
  | info => exact hquiet (Run.leads_outside (Action.leads_say _))
  | mustExistDir => exact hquiet leads_check
  | mustExistFile => exact hquiet leads_check
  | mustNotExistDir => exact hquiet leads_check
  | mustNotExistFile => exact hquiet leads_check
  | script => exact absurd rfl hd
  | exec =>
    unfold perform
    simp only [Run.context_bind, final_bind_pure]
    rw [Run.final_outside]
    exact exec_undergoes index .exec data s.context s.world
  | execNoExit =>
    unfold perform
    simp only [Run.context_bind]
    rw [Run.final_outside]
    exact (exec_undergoes index .execNoExit data s.context s.world).imp
      (·.trans_notes (execNoExit_notes ..)) (·.trans_notes (execNoExit_notes ..))

/-! ### Scripts -/

/-- What a step leaves that runs a text as a script. If nothing has been started, there are directories on the way to the
    script directory at most that there were not. Else one child has been started as a script; and if the script stays, and
    the child takes no right to it away, its file is gone, and all the rest is as the child has left it. -/
inductive Lives (body : Text) (s s' : Session) : Prop
  | unstarted (hstarts : s'.world.starts = s.world.starts)
      (hfiles : ∀ q, s.world.logPlace ≠ some q →
        s.world.files.Furnished s.context.scriptDir s'.world.files.tree q)
      (hlogs : s'.world.Logs)
  | started {p : Path} {place : Place} {t : Tree} (habsolute : p.isAbsolute = true)
      (hfree : Script.isTaken s.world p = false)
      (hfound : Script.Found s.world.files s.world.logPlace s.context.scriptDir body p place t)
      (hstarts : s'.world.starts = s.world.starts ++ [⟨[p.toText], s.context.cwd.toText, s.context.env,
        some (Utf8.encode (Script.content body), Script.mode)⟩])
      (hgone : Script.Stays p place (s.next.deeds.foldl Change.apply t) → s.world.files.Allows p s.next.deeds →
        Script.isTaken s'.world p = false ∧
        Script.Gone s.world.logPlace p place (s.next.deeds.foldl Change.apply t) s'.world.files.tree ∧ s'.world.Logs)

/-- The log is not another one. -/
def SameLog (s s' : Session) : Prop := ∀ q, s'.world.logPlace = some q → s.world.logPlace = some q

/-- The use of a script. -/
def useScript (index : Nat) (data : Text) (s : Session) : Action CommandResult :=
  Script.during data s.context.scriptDir s.context.pid fun p => spawn s.context index .script [p.toText] p.toText

/-- After the use of a script its exports are taken. -/
theorem script_after {R : World → World → Prop} [BearsTelling R] (index : Nat) (data : Text) (s : Session) :
    R (final (useScript index data s s.world)) (final (script index data s)).world := by
  have hfinal := Run.final_outside (useScript index data s) s
  unfold script
  rw [Run.context_bind]
  change R _ (final (((liftM (useScript index data s) : Run CommandResult) >>= fun result =>
    (Marker.exports result.output).forM (takeExport index)) s)).world
  cases huse : (liftM (useScript index data s) : Run CommandResult) s with
  | ok result s₁ =>
    rw [huse, final_ok] at hfinal
    rw [bind_of_ok huse]
    have hrest : s₁.Outside R _ := leads_takeExports index (Marker.exports result.output) s₁
    rwa [hfinal] at hrest ⊢
  | error e s₁ =>
    rw [huse, final_error] at hfinal
    rw [bind_of_error huse, final_error, hfinal]
    exact Frame.refl _

theorem Lives.after {body : Text} {s₁ s₂ : Session} (h : Lives body s s₁) (hlog : SameLog s s₁) (hnotes : s₁.Notes s₂)
    (hstarts : s₂.world.starts = s₁.world.starts) : Lives body s s₂ := by
  have hagrees := hnotes.tree.mono hlog
  cases h with
  | unstarted hstarts₁ hfiles hlogs =>
    exact .unstarted (hstarts.trans hstarts₁) (fun q hq => (hfiles q hq).agrees hagrees hq) (hnotes.logs hlogs)
  | started habsolute hfree hfound hstarts₁ hgone =>
    refine .started habsolute hfree hfound (hstarts.trans hstarts₁) fun hstays hallows => ?_
    obtain ⟨-, hgone, hlogs⟩ := hgone hstays hallows
    exact ⟨(hgone.trans_agrees hagrees).isTaken habsolute, hgone.trans_agrees hagrees, hnotes.logs hlogs⟩

theorem Lives.before {body : Text} {s₁ s₂ : Session} (h : Lives body s₁ s₂) (hnotes : s.Notes s₁)
    (hsaid : Says s.world s₁.world) (hcontext : s₁.context = s.context) : Lives body s s₂ := by
  have hfiles₁ : s₁.world.files = { s.world.files with tree := s₁.world.files.tree } := hsaid.files.eq_with_tree
  have hnext : s₁.next = s.next := by rw [Session.next, hsaid.children, Session.next]
  cases h with
  | unstarted hstarts hfiles hlogs =>
    refine .unstarted (hstarts.trans hsaid.starts) (fun q hq => ?_) hlogs
    have hq' := hfiles q (hnotes.logPlace ▸ hq)
    rw [hfiles₁, hcontext] at hq'
    exact hq'.of_agrees hnotes.tree hq
  | started habsolute hfree hfound hstarts hgone =>
    rw [hfiles₁, hcontext, hnotes.logPlace] at hfound
    rw [hcontext, hsaid.starts] at hstarts
    rw [hnext, hnotes.logPlace, hfiles₁] at hgone
    exact .started habsolute (Script.isTaken_eq hsaid.files _ ▸ hfree) (hfound.of_agrees hnotes.tree) hstarts hgone

theorem script_life (hs : s.Sound) (index : Nat) (data : Text) :
    Lives data s (final (script index data s)) ∧ SameLog s (final (script index data s)) := by
  have hnotes : Notes (final (useScript index data s s.world)) (final (script index data s)).world :=
    script_after index data s
  have hquiet : Starts [] (final (useScript index data s s.world)) (final (script index data s)).world :=
    script_after index data s
  -- It is enough to look at the session after the use of the script.
  let used : Session := { s with world := final (useScript index data s s.world) }
  suffices h : Lives data s used ∧ SameLog s used from
    ⟨h.1.after h.2 hnotes (by rw [hquiet.starts, List.append_nil]),
      fun q hq => h.2 q (hnotes.logPlace ▸ hq)⟩
  have hused : used.world = final (useScript index data s s.world) := rfl
  generalize used = used at hused
  cases hcreate : Script.create data s.context.scriptDir s.context.pid s.world with
  | error e w₁ =>
    have hstarts : Starts [] s.world used.world := hused ▸ Script.starts_during_of_error hcreate
    obtain ⟨w₂, n, hfurnishes, rfl⟩ := Script.create_failed hcreate
    have hworld : used.world = { w₂ with tried := n } := by
      rw [hused, useScript, Script.during, bind_of_error hcreate]
      rfl
    have hlogPlace : w₂.logPlace = s.world.logPlace := by
      rw [hfurnishes.rest]
      rfl
    rw [SameLog, hworld]
    refine ⟨.unstarted (by rw [hstarts.starts, List.append_nil]) (fun q _ => ?_) ?_, fun q hq => hlogPlace ▸ hq⟩
    · rw [hworld]
      exact hfurnishes.node q
    · rw [hworld]
      exact hs.logs.grows hlogPlace (Files.Furnished.grows hfurnishes.node)
  | ok p w₂ =>
    obtain ⟨habsolute, hfree, n, hp⟩ := Script.create_path hs.isAbsolute hcreate
    have hnull := Script.create_not_mem hcreate
    have hspawn := spawn_undergoes s.context index .script [p.toText] p.toText (Script.announced p w₂)
    obtain ⟨place, t, hfound, hagrees, hlog, hgone⟩ := Script.during_life
      (fun p => spawn s.context index .script [p.toText] p.toText) hs.isAbsolute hs.logs hcreate hspawn
    have hcreated : Starts [] s.world w₂ := (Script.leads_create _ _ _).ok hcreate
    have hchildren : (Script.announced p w₂).children = s.world.children :=
      (Script.says_announced p w₂).children.trans hcreated.children
    rw [hchildren] at hgone
    refine ⟨?_, fun q hq => hlog q (hused ▸ hq)⟩
    cases hobjection : Command.objection? [p.toText] s.context.cwd.toText s.context.env with
    | some e =>
      -- The script is not started, so it stays.
      have hstarts : Starts [] (Script.announced p w₂)
          (final (spawn s.context index .script [p.toText] p.toText (Script.announced p w₂))) := by
        rw [spawn_apply, bind_of_error (Command.run_of_objection hobjection false _)]
        exact (says_commandAnnounced _ _ _).starts_nil
      have hstarts' : Starts [] s.world used.world := hused ▸ Script.starts_during hcreate hstarts
      rw [hobjection] at hgone
      obtain ⟨hgone, hlogs⟩ := hgone (hfound.stays hs.logs) (Files.allows_nil _ _)
      refine .unstarted (by rw [hstarts'.starts, List.append_nil]) (fun q hq => ?_) (hused ▸ hlogs)
      rw [hused]
      exact hfound.furnished hgone hq
    | none =>
      have hstarts : Starts _ s.world used.world :=
        hused ▸ Script.starts_during hcreate (spawn_start hobjection index .script p.toText _)
      have hprogram : Command.program? (commandAnnounced s.context [p.toText] (Script.announced p w₂)).files.tree
          [p.toText] = some (Utf8.encode (Script.content data), Script.mode) := by
        have hsaid : Notes w₂ (commandAnnounced s.context [p.toText] (Script.announced p w₂)) :=
          Frame.trans (Script.notes_announced p w₂) (bears_commandAnnounced _ _ _)
        have hsame := hsaid.tree
        rw [Script.create_logPlace hs.isAbsolute hcreate] at hsame
        have hplace := hfound.apart hs.logs
        have hlocate := hsame.like.locate_eq p
        rw [← hagrees.like.locate_eq, hfound.locate] at hlocate
        have hnode := hsame.node place hplace
        rw [← hagrees.node place hplace, hfound.script hplace] at hnode
        exact Script.program?_script hs.proper hs.isAbsolute hs.scripts hp hlocate hnode
      rw [hprogram] at hstarts
      rw [hobjection] at hgone
      refine .started habsolute hfree hfound hstarts.starts fun hstays hallows => ?_
      obtain ⟨hgone, hlogs⟩ := hgone hstays hallows
      rw [hused]
      exact ⟨hgone.isTaken habsolute, hgone, hlogs⟩

/-! ### Steps -/

theorem notes_started (index : Nat) (step : Step) (s : Session) : s.Notes (started index step s) :=
  bears_started index step s

theorem Sound.started (hs : s.Sound) (index : Nat) (step : Step) : (started index step s).Sound where
  isAbsolute := (says_started index step s).files.cwd ▸ hs.isAbsolute
  proper := (says_started index step s).files.cwd ▸ hs.proper
  scripts := hs.scripts
  logs := (notes_started index step s).logs hs.logs

/-- After the work of a step its end is said. -/
theorem run_after {R : World → World → Prop} [BearsTelling R] (index : Nat) (step : Step) (s : Session) :
    R (final (perform index step.directive (text step s) (started index step s))).world
      (final (run index step s)).world := by
  rw [run_apply]
  cases hperform : perform index step.directive (text step s) (started index step s) with
  | ok status s₁ =>
    rw [bind_of_ok hperform]
    exact (leads_finish index step _ _ status : Leads (Session.Outside R) _) s₁
  | error e s₁ =>
    rw [bind_of_error hperform]
    exact Frame.refl _

theorem run_script (hs : s.Sound) (hd : step.directive = .script) (index : Nat) :
    Lives (text step s) s (final (run index step s)) ∧ SameLog s (final (run index step s)) := by
  obtain ⟨hlives, hlog⟩ := script_life (Sound.started hs index step) index (text step s)
  have hscript : final (perform index step.directive (text step s) (Step.started index step s)) =
      final (script index (text step s) (Step.started index step s)) := by
    rw [hd]
    unfold perform
    exact final_bind_pure _ _ _
  have hnotes : Session.Notes _ (final (run index step s)) := run_after index step s
  have hstarts : Starts [] _ (final (run index step s)).world := run_after index step s
  rw [hscript] at hnotes hstarts
  have hbefore := hlives.before (notes_started index step s) (says_started index step s) rfl
  have hlog' : SameLog s (final (script index (text step s) (Step.started index step s))) := fun q hq =>
    (notes_started index step s).logPlace ▸ hlog q hq
  exact ⟨hbefore.after hlog' hnotes (by rw [hstarts.starts, List.append_nil]),
    fun q hq => hlog' q (hnotes.logPlace ▸ hq)⟩

theorem run_undergoes (hd : step.directive ≠ .script) (index : Nat) (s : Session) :
    MayUndergo s (final (run index step s)) := by
  have hnotes : Session.Notes _ (final (run index step s)) := run_after index step s
  have hnext : (started index step s).next = s.next := by
    rw [Session.next, (says_started index step s).children, Session.next]
  have hperform := perform_undergoes hd index (text step s) (started index step s)
  rw [MayUndergo, hnext] at hperform
  exact hperform.imp (fun h => ((notes_started index step s).trans_undergoes h).trans_notes hnotes)
    fun h => ((notes_started index step s).trans_undergoes h).trans_notes hnotes

end Step

/-! ### Runs -/

namespace Visit

/-- The files as the child of a visit finds them, and the place of the script if it is one. -/
def Finds (v : Visit) (script? : Option Place) (t : Tree) : Prop :=
  if v.step.directive = .script then
    ∃ p place, script? = some place ∧ Script.Found v.before.world.files v.before.world.logPlace
      v.before.context.scriptDir v.text p place t
  else script? = none ∧ v.before.world.files.tree.Agrees v.before.world.logPlace t

/-- If the child of a visit is a script, it stays, and no right to it is taken away. -/
def Stays (v : Visit) : Prop := v.step.directive = .script → ∀ p place t,
  Script.Found v.before.world.files v.before.world.logPlace v.before.context.scriptDir v.text p place t →
    Script.Stays p place (v.before.next.deeds.foldl Change.apply t) ∧ v.before.world.files.Allows p v.before.next.deeds

/-- The child of a visit leaves what it finds at a place as it is, unless it finds itself there. -/
def Spares (v : Visit) (q : Place) : Prop := ∀ script? t, v.Finds script? t → script? ≠ some q →
  (v.before.next.deeds.foldl Change.apply t).node? q = t.node? q

end Visit

/-- At a place stands what stood there, or a directory where nothing stood. -/
def Tree.Keeps (t t' : Tree) (q : Place) : Prop :=
  t'.node? q = t.node? q ∨ (t.node? q = none ∧ t'.node? q = some .directory)

theorem Tree.Keeps.trans {t t' t'' : Tree} (h : t.Keeps t' q) (h' : t'.Keeps t'' q) : t.Keeps t'' q := by
  rcases h' with heq' | ⟨hnone', hdir'⟩
  · rcases h with heq | ⟨hnone, hdir⟩
    · exact Or.inl (heq'.trans heq)
    · exact Or.inr ⟨hnone, heq'.trans hdir⟩
  · rcases h with heq | ⟨hnone, hdir⟩
    · exact Or.inr ⟨heq.symm.trans hnone', hdir'⟩
    · rw [hdir] at hnone'
      cases hnone'

section Runs
variable {v : Visit} {steps : List Step}

/-- A visit keeps what its child spares. -/
theorem Visit.keeps (hs : v.before.Sound) (hstays : v.Stays) (hq : v.before.world.logPlace ≠ some q)
    (hspares : v.Spares q) : v.before.world.files.tree.Keeps (final v.outcome).world.files.tree q := by
  by_cases hd : v.step.directive = .script
  · cases (Step.run_script hs hd v.index).1 with
    | unstarted hstarts hfiles hlogs => exact (hfiles q hq).imp_right fun hnew => ⟨hnew.1, hnew.2.1⟩
    | @started p place t habsolute hfree hfound hstarts hgone =>
      obtain ⟨hstays, hallows⟩ := hstays hd p place t hfound
      obtain ⟨-, hgone, -⟩ := hgone hstays hallows
      by_cases hplace : q = place
      · subst hplace
        exact Or.inl ((hgone.node_place hfound.ne_nil hq).trans hfound.free.symm)
      · have hspared := hspares (some place) t (by rw [Visit.Finds, if_pos hd]; exact ⟨p, place, rfl, hfound⟩)
          fun heq => hplace (Option.some.inj heq).symm
        have hnode := (hgone.node hplace hq).trans hspared
        exact (hfound.other hplace hq).imp hnode.trans fun hnew => ⟨hnew.1, hnode.trans hnew.2⟩
  · have hfound : ∀ t, v.before.world.files.tree.Agrees v.before.world.logPlace t → v.Finds none t := fun t ht => by
      rw [Visit.Finds, if_neg hd]
      exact ⟨rfl, ht⟩
    rcases Step.run_undergoes hd v.index v.before with hnone | hdone
    · obtain ⟨t, hbefore, hafter⟩ := hnone.found
      exact Or.inl ((hafter.node q hq).trans (hbefore.node q hq))
    · obtain ⟨t, hbefore, hafter⟩ := hdone.found
      have hspared := hspares none t (hfound t hbefore) (by simp)
      exact Or.inl ((hafter.node q hq).trans (hspared.trans (hbefore.node q hq)))

theorem Step.run_sound {result : StepResult} (hs : s.Sound) (hstays : Visit.Stays ⟨index, step, s⟩)
    (h : Step.run index step s = .ok result s') : s'.Sound ∧ Step.SameLog s s' := by
  obtain ⟨new, hstarts, -⟩ := Step.run_starts index step s
  obtain ⟨-, -, -, hmakes⟩ := Step.run_eq_ok h
  rw [h, final_ok] at hstarts
  have hlogs : s'.world.Logs ∧ Step.SameLog s s' := by
    by_cases hd : step.directive = .script
    · obtain ⟨hlives, hlog⟩ := Step.run_script hs hd index
      rw [h, final_ok] at hlives hlog
      refine ⟨?_, hlog⟩
      cases hlives with
      | unstarted _ _ hlogs => exact hlogs
      | started _ _ hfound _ hgone =>
        obtain ⟨hstays, hallows⟩ := hstays hd _ _ _ hfound
        exact (hgone hstays hallows).2.2
    · have hundergoes := Step.run_undergoes hd index s
      rw [h, final_ok] at hundergoes
      rcases hundergoes with hnone | hdone
      · exact ⟨hnone.logs hs.logs, hnone.logPlace⟩
      · exact ⟨hdone.logs hs.logs, hdone.logPlace⟩
  refine ⟨⟨?_, ?_, ?_, hlogs.1⟩, hlogs.2⟩
  · rw [hstarts.cwd]
    exact hs.isAbsolute
  · rw [hstarts.cwd]
    exact hs.proper
  · rw [hmakes.scripts.1]
    exact hs.scripts

theorem runFrom_files (hs : s.Sound) (hstays : ∀ v ∈ visits index steps s, v.Stays) :
    (∀ v ∈ visits index steps s, v.before.Sound) ∧
      ∀ q, s.world.logPlace ≠ some q → (∀ v ∈ visits index steps s, v.Spares q) →
        s.world.files.tree.Keeps (final (Step.runFrom index steps s)).world.files.tree q := by
  induction steps generalizing index s with
  | nil => exact ⟨by simp [visits], fun q _ _ => Or.inl rfl⟩
  | cons step rest ih =>
    cases hrun : Step.run index step s with
    | error e s₁ =>
      rw [visits_of_error hrun, List.forall_mem_singleton] at hstays ⊢
      refine ⟨hs, fun q hq hspares => ?_⟩
      rw [List.forall_mem_singleton] at hspares
      have hkeeps := Visit.keeps (v := ⟨index, step, s⟩) hs hstays hq hspares
      rw [Visit.outcome, hrun] at hkeeps
      rwa [runFrom_of_error hrun]
    | ok result s₁ =>
      rw [visits_of_ok hrun, List.forall_mem_cons] at hstays ⊢
      obtain ⟨hs₁, hlog⟩ := Step.run_sound hs hstays.1 hrun
      obtain ⟨hsound, hkept⟩ := ih hs₁ hstays.2
      refine ⟨⟨hs, hsound⟩, fun q hq hspares => ?_⟩
      rw [List.forall_mem_cons] at hspares
      have hkeeps := Visit.keeps (v := ⟨index, step, s⟩) hs hstays.1 hq hspares.1
      rw [Visit.outcome, hrun] at hkeeps
      rw [runFrom_of_ok hrun, final_bind_pure]
      exact hkeeps.trans (hkept q (fun hsame => hq (hlog q hsame)) hspares.2)

/-- A session with a file, before a script that is interrupted. -/
def interrupted : Session where
  world := {
    files := { tree := ⟨[(["a"], .file [] 0o644)]⟩, denied := [], cwd := ⟨.root, []⟩, homes := ⟨[], []⟩ }
    env := []
    host := ⟨0, 0, 0, 0, [], [], [], none, [], [], [], []⟩
    children := [⟨none, [], 0, [], none⟩]
    clock := 0
    tried := 0
    starts := []
    verbosity := .normal
    log := []
    tee := none }
  context := ⟨⟨.root, []⟩, [], [], ⟨.root, ["s", "t"]⟩, 7⟩

/-- A session whose script directory is reached by a link that leads through a directory, before a script that removes
    this directory. -/
def linked : Session where
  world := {
    files := {
      tree := ⟨[(["w"], .directory), (["w", "b"], .directory), (["w", "real"], .directory),
        (["w", "l"], .link "b/../real")]⟩
      denied := []
      cwd := ⟨.root, ["w"]⟩
      homes := ⟨[], []⟩ }
    env := []
    host := ⟨0, 0, 0, 0, [], [], [], none, [], [], [], []⟩
    children := [⟨none, [], 0, [.remove "/w/b"], some 0⟩]
    clock := 0
    tried := 0
    starts := []
    verbosity := .normal
    log := []
    tee := none }
  context := ⟨⟨.root, ["w"]⟩, [], [], ⟨.root, ["w", "l", "s"]⟩, 4242⟩

end Runs

end Runbook
