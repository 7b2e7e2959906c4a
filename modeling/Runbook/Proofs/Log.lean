import Runbook.Proofs.Command
import Runbook.Proofs.Console
import Runbook.Proofs.Session
import Runbook.Proofs.Tree.Growth

/-! # What happens to the files

Whatever is said, no file changes but the log (`World.Notes`). When a command is run, a child finds the files as they are
and does to them what it does, and that is all (`Command.run_undergoes`). -/

namespace Runbook

open Effect

variable {w w' w'' : World} {changes : List Change} {α : Type}

/-- The files with another tree, and with the rights to them that changes leave. -/
def Files.restrict (files : Files) (changes : List Change) (tree : Tree) : Files :=
  { files with
    tree
    denied := files.denied ++ changes.flatMap Change.denied
    hidden := files.hidden ++ changes.flatMap Change.hidden }

namespace Files

variable {files : Files} {p q : Path} {tree : Tree}

theorem restrict_nil (files : Files) (tree : Tree) : files.restrict [] tree = { files with tree } := by
  simp [restrict]

/-- Changes leave the right to look up a path and to take away what it names. -/
def Allows (files : Files) (p : Path) (changes : List Change) : Prop :=
  (files.absolute p).toText ∉ changes.flatMap Change.denied ∧ (files.cwd.join p).toText ∉ changes.flatMap Change.hidden

theorem allows_nil (files : Files) (p : Path) : files.Allows p [] := ⟨List.not_mem_nil, List.not_mem_nil⟩

theorem Allows.reach (h : files.Allows p changes) (hreach : files.reach p = .ok q) (tree : Tree) :
    (files.restrict changes tree).reach p = .ok q := by
  unfold Files.reach at hreach ⊢
  split at hreach
  · cases hreach
  · rename_i hnull
    split at hreach
    · cases hreach
    · rename_i hlong
      split at hreach
      · cases hreach
      · rename_i hhidden
        have hkept : ¬ (files.restrict changes tree).hidden.contains (files.cwd.join p).toText = true := by
          rw [List.contains_iff_mem] at hhidden ⊢
          exact fun hmem => (List.mem_append.mp hmem).elim hhidden h.2
        rw [if_neg hnull, if_neg hlong]
        exact (if_neg hkept).trans hreach

theorem Allows.isDenied (h : files.Allows p changes) (hdenied : files.isDenied p = false) (tree : Tree) :
    (files.restrict changes tree).isDenied p = false := by
  rw [Files.isDenied, List.contains_eq_mem, decide_eq_false_iff_not] at hdenied ⊢
  exact fun hmem => (List.mem_append.mp hmem).elim hdenied h.1

end Files

namespace World

/-- The place of the log, if there is one. -/
def logPlace (w : World) : Option Place := w.tee.map Journal.place

/-- The log is a file that is there, if there is one. -/
def Logs (w : World) : Prop :=
  ∀ place, w.logPlace = some place → ∃ content mode, w.files.tree.node? place = some (.file content mode)

theorem Logs.grows (h : w.Logs) (hplace : w'.logPlace = w.logPlace) (hgrows : w.files.tree.Grows w'.files.tree) :
    w'.Logs := by
  intro place hlog
  obtain ⟨content, mode, hnode⟩ := h place (hplace ▸ hlog)
  exact ⟨content, mode, hgrows _ _ hnode⟩

/-- Between the worlds nothing has happened to the files but what is written to the log. -/
structure Notes (w w' : World) : Prop where
  tree : w.files.tree.Agrees w.logPlace w'.files.tree
  rest : w'.files = { w.files with tree := w'.files.tree }
  logPlace : w'.logPlace = w.logPlace

instance : Frame Notes where
  refl _ := ⟨.refl _ _, rfl, rfl⟩
  trans h h' := ⟨h.tree.trans (h.logPlace ▸ h'.tree), by rw [h'.rest, h.rest], h'.logPlace.trans h.logPlace⟩

theorem Notes.logs (h : Notes w w') (hw : w.Logs) : w'.Logs := by
  intro place hplace
  obtain ⟨content, mode, hnode⟩ := hw place (h.logPlace ▸ hplace)
  rcases h.tree.like.node?_cases place with heq | ⟨_, _, content', mode', -, hnode'⟩
  · exact ⟨content, mode, heq.trans hnode⟩
  · exact ⟨content', mode', hnode'⟩

theorem notes_write (w : World) (e : Event) : Notes w (w.write e) := by
  unfold write
  cases htee : w.tee with
  | none => exact ⟨.refl _ _, rfl, by simp [logPlace, htee]⟩
  | some journal =>
    exact ⟨by simpa [logPlace, htee] using .journal _ _ _, rfl, by simp [logPlace, htee, Journal.advance]⟩

theorem notes_say (w : World) (n : Notice) : Notes w (w.say n) := by
  unfold say
  generalize n.events w.verbosity = events
  induction events generalizing w with
  | nil => exact Frame.refl w
  | cons e events ih => exact Frame.trans (notes_write w e) (ih (w.write e))

instance : Bears Notes := ⟨notes_say⟩

/-- No log has been begun between the worlds; one that was there may have been lost. -/
def NoNewLog (w w' : World) : Prop := ∀ place, w'.logPlace = some place → w.logPlace = some place

instance : Bears NoNewLog where
  refl _ _ h := h
  trans h h' place hplace := h place (h' place hplace)
  say w n _ hplace := (notes_say w n).logPlace ▸ hplace

instance : BearsFiles NoNewLog where
  refl _ _ h := h
  trans h h' place hplace := h place (h' place hplace)
  tree _ _ _ _ hplace := hplace
  count _ _ _ hplace := hplace

theorem NoNewLog.eq_none (h : NoNewLog w w') (hw : w.logPlace = none) : w'.logPlace = none := by
  cases hplace : w'.logPlace with
  | none => rfl
  | some place => simp [h place hplace] at hw

/-- Between the worlds a child has found the files as they were, up to the log, and has done some changes to them, which is
    all that has happened but for what is written to the log. The log may have been lost. -/
structure Undergoes (changes : List Change) (w w' : World) : Prop where
  found : ∃ t, w.files.tree.Agrees w.logPlace t ∧ (changes.foldl Change.apply t).Agrees w.logPlace w'.files.tree
  rest : w'.files = w.files.restrict changes w'.files.tree
  logPlace : ∀ place, w'.logPlace = some place → w.logPlace = some place
  logs : w.Logs → w'.Logs

theorem Notes.undergoes (h : Notes w w') : Undergoes [] w w' :=
  ⟨⟨_, .refl _ _, h.tree⟩, by rw [Files.restrict_nil, ← h.rest], fun _ hplace => h.logPlace ▸ hplace, h.logs⟩

theorem Notes.trans_undergoes (h : Notes w w') (h' : Undergoes changes w' w'') : Undergoes changes w w'' := by
  obtain ⟨t, hfound, hdone⟩ := h'.found
  rw [h.logPlace] at hfound hdone
  refine ⟨⟨t, h.tree.trans hfound, hdone⟩, ?_, fun place hplace => h.logPlace ▸ h'.logPlace place hplace,
    fun hw => h'.logs (h.logs hw)⟩
  rw [h'.rest, h.rest]
  rfl

theorem Undergoes.trans_notes (h : Undergoes changes w w') (h' : Notes w' w'') : Undergoes changes w w'' := by
  obtain ⟨t, hfound, hdone⟩ := h.found
  refine ⟨⟨t, hfound, hdone.trans (h'.tree.mono h.logPlace)⟩, ?_,
    fun place hplace => h.logPlace place (h'.logPlace ▸ hplace), fun hw => h'.logs (h.logs hw)⟩
  rw [h'.rest, h.rest]
  rfl

end World

/-- What a child does to the files: nothing if it does not start. -/
def Child.deeds (c : Child) : List Change := if c.refusal.isSome then [] else c.changes

namespace Command

open World

theorem undergo_logPlace (w : World) (change : Change) (place : Place) (h : (undergo w change).logPlace = some place) :
    w.logPlace = some place := by
  obtain ⟨j, hj, rfl⟩ := Option.map_eq_some_iff.mp h
  exact Option.map_eq_some_iff.mpr ⟨j, (Option.filter_eq_some_iff.mp hj).1, rfl⟩

theorem undergo_logs (w : World) (change : Change) : (undergo w change).Logs := by
  intro place h
  obtain ⟨j, hj, rfl⟩ := Option.map_eq_some_iff.mp h
  have hkept : j.isKept (change.apply w.files.tree) = true := (Option.filter_eq_some_iff.mp hj).2
  unfold Journal.isKept at hkept
  split at hkept
  · exact ⟨_, _, ‹_›⟩
  · cases hkept

theorem foldl_undergo (changes : List Change) (w : World) :
    (changes.foldl undergo w).files = w.files.restrict changes (changes.foldl Change.apply w.files.tree) ∧
      (∀ place, (changes.foldl undergo w).logPlace = some place → w.logPlace = some place) ∧
      (w.Logs → (changes.foldl undergo w).Logs) := by
  induction changes generalizing w with
  | nil => exact ⟨(w.files.restrict_nil w.files.tree).symm, fun _ => id, id⟩
  | cons change changes ih =>
    obtain ⟨hfiles, hplace, hlogs⟩ := ih (undergo w change)
    refine ⟨?_, fun place h => undergo_logPlace w change place (hplace place h), fun _ => hlogs (undergo_logs w change)⟩
    rw [List.foldl_cons, hfiles]
    simp [Files.restrict, undergo, undergoFiles]

theorem settle_undergoes (child : Child) (w : World) : Undergoes child.changes w (final (settle child w)) := by
  obtain ⟨hfiles, hplace, hlogs⟩ := foldl_undergo child.changes w
  have htree : (child.changes.foldl undergo w).files.tree = child.changes.foldl Change.apply w.files.tree := by
    rw [hfiles]
    rfl
  refine ⟨⟨w.files.tree, .refl _ _, htree ▸ .refl _ _⟩, ?_, hplace, hlogs⟩
  show _ = w.files.restrict child.changes (child.changes.foldl undergo w).files.tree
  rw [htree, ← hfiles]
  rfl

theorem await_undergoes (argv : List Text) (silent : Bool) (child : Child) (w : World) :
    Undergoes child.deeds w (final (await argv silent child w)) := by
  have hend : ∀ w, Undergoes child.changes w (final ((do settle child; ending argv child : Action CommandResult) w)) :=
    fun w => final_bind (settle_undergoes child w) (fun _ => leads_ending argv child) Undergoes.trans_notes
  unfold Child.deeds
  cases hrefusal : child.refusal with
  | some e =>
    rw [await_of_some hrefusal]
    exact (Frame.refl w : Notes w w).undergoes
  | none =>
    rw [await_of_none hrefusal]
    cases silent with
    | true => exact hend w
    | false =>
      have hechoed : Leads Notes (child.lines.forM fun line => Action.say (.echo line)) :=
        .forM _ fun line => Action.leads_say _
      obtain ⟨w₁, hecho, -⟩ := Action.forM_echo child.lines w
      show Undergoes child.changes w (final ((child.lines.forM (fun line => Action.say (.echo line)) >>= _) w))
      rw [bind_of_ok hecho]
      exact (hechoed.ok hecho).trans_undergoes (hend w₁)

/-- A command leaves the files as its child does, if a child can be started. -/
theorem run_undergoes (argv : List Text) (cwd : Text) (env : Bindings) (silent : Bool) (w : World) :
    Undergoes (if (objection? argv cwd env).isSome then [] else (w.children.headD .silent).deeds) w
      (final (run argv cwd env silent w)) := by
  cases hobjection : objection? argv cwd env with
  | some e =>
    rw [run_of_objection hobjection]
    exact (Frame.refl w : Notes w w).undergoes
  | none =>
    obtain ⟨w₁, hnext, -⟩ := starts_nextChild argv cwd env w
    have hnotes : Notes w w₁ := by
      cases hnext
      exact ⟨.refl _ _, rfl, rfl⟩
    rw [run_eq hobjection, bind_of_ok hnext]
    exact hnotes.trans_undergoes (await_undergoes argv silent _ w₁)

theorem noNewLog_run (argv : List Text) (cwd : Text) (env : Bindings) (silent : Bool) :
    Leads NoNewLog (run argv cwd env silent) := fun w => (run_undergoes argv cwd env silent w).logPlace

end Command

end Runbook
