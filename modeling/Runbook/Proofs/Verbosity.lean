import Runbook.Proofs.Script
import Runbook.Proofs.Telling
import Runbook.Proofs.Tree.Blank

/-! # What verbosity changes

Of two worlds the second is louder than the first if it shows at least as much, if everything that has been written in the
first has been written in the second, and if they are the same otherwise: up to what is in the log, and up to the programs
of some commands (`World.Louder`). Whatever is done in both, it ends in the same way, and the second world stays the louder
one. This is shown here for what runs a command (`Command.steady_run`) and what makes and deletes the file of a script
(`Script.steady_during`). The programs that cannot be compared are those that are the log itself. -/

namespace Runbook

open Effect
open scoped List

variable {hidden : List Text → Bool} {w w' : World} {p : Path} {α : Type}

/-! ### Louder worlds -/

theorem Notice.events_sublist {v v' : Verbosity} (hv : v ≤ v') (n : Notice) : n.events v <+ n.events v' := by
  unfold Notice.events
  cases hshown : n.isShown v with
  | false => exact List.nil_sublist _
  | true =>
    have hlouder : n.isShown v' = true := by
      unfold Notice.isShown at hshown ⊢
      cases hthreshold : n.threshold with
      | none => rfl
      | some least =>
        rw [hthreshold] at hshown
        simp only [Option.all_some, decide_eq_true_eq] at hshown ⊢
        exact Int.le_trans hshown hv
    rw [if_pos rfl, if_pos hlouder]

/-- A start without its program, if the programs of its command are hidden. -/
def Start.cover (hidden : List Text → Bool) (s : Start) : Start :=
  if hidden s.argv then { s with program := none } else s

namespace Journal

theorem isKept_eq {t t' : Tree} (h : t.Like t') (j : Journal) : j.isKept t' = j.isKept t := by
  unfold isKept
  rcases h.node?_cases j.place with heq | ⟨content, mode, content', mode', hnode, hnode'⟩
  · rw [heq]
  · rw [hnode, hnode']

theorem not_file_of_isKept {t : Tree} {j : Journal} (h : j.isKept t = false) (content : List UInt8) (mode : Nat) :
    t.node? j.place ≠ some (.file content mode) := by
  intro hnode
  rw [isKept, hnode] at h
  cases h

end Journal

namespace World

/-- The world at a verbosity. -/
def showing (v : Verbosity) (w : World) : World := { w with verbosity := v }

/-- The world without what has been said: the log is empty, in the world as in its file, and nothing is shown; the programs
    of some commands are hidden. -/
def hushed (hidden : List Text → Bool) (w : World) : World :=
  { w with
    files := { w.files with tree := w.files.tree.blank w.logPlace }
    starts := w.starts.map (Start.cover hidden)
    verbosity := .quiet
    log := []
    tee := w.logPlace.map .start }

/-- The second world shows at least as much as the first, has shown all that the first has shown, and is the same
    otherwise. -/
structure Louder (hidden : List Text → Bool) (w w' : World) : Prop where
  same : w'.hushed hidden = w.hushed hidden
  verbosity : w.verbosity ≤ w'.verbosity
  log : w.log <+ w'.log

theorem logPlace_hushed (hidden : List Text → Bool) (w : World) : (w.hushed hidden).logPlace = w.logPlace := by
  unfold hushed logPlace
  cases w.tee <;> rfl

theorem hushed_write (w : World) (e : Event) : (w.write e).hushed hidden = w.hushed hidden := by
  unfold write
  cases htee : w.tee with
  | none => simp [hushed, logPlace, htee]
  | some journal =>
    generalize Utf8.encode (e.text ++ "\n") = octets
    have htree : (journal.write w.files.tree octets).blank (some journal.place) =
      w.files.tree.blank (some journal.place) := Tree.SameBut.journal ..
    simp [hushed, logPlace, htee, withTree, Journal.advance, htree]

theorem hushed_say (w : World) (n : Notice) : (w.say n).hushed hidden = w.hushed hidden := by
  unfold say
  generalize n.events w.verbosity = events
  induction events generalizing w with
  | nil => rfl
  | cons e events ih => rw [List.foldl_cons, ih, hushed_write]

theorem logPlace_undergo (w : World) (c : Change) : (Command.undergo w c).logPlace =
    w.logPlace.filter fun place => (Journal.start place).isKept (c.apply w.files.tree) := by
  show (w.tee.filter (·.isKept (c.apply w.files.tree))).map Journal.place = (w.tee.map Journal.place).filter _
  cases w.tee with
  | none => rfl
  | some journal =>
    rw [Option.filter_some, Option.map_some, Option.filter_some]
    exact apply_ite (Option.map Journal.place) _ _ _

/-- Whether the program of a command is the log. -/
def runsLog (w : World) : List Text → Bool
  | [] => false
  | word :: _ =>
    (Path.ofText word).isAbsolute &&
      match w.files.tree.stat (Path.ofText word) with
      | .ok (place, _) => w.logPlace == some place
      | .error _ => false

theorem runsLog_eq (hfiles : w.files.tree.Like w'.files.tree) (hplace : w'.logPlace = w.logPlace) (argv : List Text) :
    w'.runsLog argv = w.runsLog argv := by
  cases argv with
  | nil => rfl
  | cons word rest =>
    unfold runsLog Tree.stat
    dsimp only
    rw [hfiles.walk_eq, hplace]
    cases w.files.tree.walk (Path.ofText word) with
    | error e => rfl
    | ok place =>
      dsimp only
      rcases hfiles.node?_cases place with heq | ⟨content, mode, content', mode', hnode, hnode'⟩
      · rw [heq]
      · rw [hnode, hnode']

theorem runsLog_eq_false (h : w.logPlace = none) (argv : List Text) : w.runsLog argv = false := by
  cases argv with
  | nil => rfl
  | cons word rest =>
    unfold runsLog
    rw [h]
    dsimp only
    split
    · exact Bool.and_false _
    · exact Bool.and_false _

theorem runsLog_say (w : World) (n : Notice) (argv : List Text) : (w.say n).runsLog argv = w.runsLog argv :=
  runsLog_eq (says_say w n).files.tree (notes_say w n).logPlace argv

namespace Louder

theorem logPlace (h : Louder hidden w w') : w'.logPlace = w.logPlace := by
  rw [← logPlace_hushed hidden w', ← logPlace_hushed hidden w, h.same]

theorem tree (h : Louder hidden w w') : w.files.tree.SameBut w.logPlace w'.files.tree := by
  have hsame : w'.files.tree.blank w'.logPlace = w.files.tree.blank w.logPlace := congrArg (·.files.tree) h.same
  rwa [h.logPlace] at hsame

theorem files (h : Louder hidden w w') : w.files.Like w'.files where
  tree := h.tree.like
  cwd := congrArg (·.files.cwd) h.same
  homes := congrArg (·.files.homes) h.same
  denied := congrArg (·.files.denied) h.same
  hidden := congrArg (·.files.hidden) h.same

theorem host (h : Louder hidden w w') : w'.host = w.host := congrArg (·.host) h.same

theorem children (h : Louder hidden w w') : w'.children = w.children := congrArg (·.children) h.same

theorem clock (h : Louder hidden w w') : w'.clock = w.clock := congrArg (·.clock) h.same

theorem tried (h : Louder hidden w w') : w'.tried = w.tried := congrArg (·.tried) h.same

theorem starts (h : Louder hidden w w') : w'.starts.map (Start.cover hidden) = w.starts.map (Start.cover hidden) :=
  congrArg (·.starts) h.same

theorem showing {v v' : Verbosity} (hv : v ≤ v') (w : World) : Louder hidden (w.showing v) (w.showing v') :=
  ⟨rfl, hv, List.Sublist.refl _⟩

theorem say (h : Louder hidden w w') (n : Notice) : Louder hidden (w.say n) (w'.say n) where
  same := by rw [hushed_say, hushed_say, h.same]
  verbosity := by
    rw [(says_say w n).verbosity, (says_say w' n).verbosity]
    exact h.verbosity
  log := by
    rw [say_log, say_log]
    exact h.log.append (n.events_sublist h.verbosity)

theorem withTree {tree tree' : Tree} (h : Louder hidden w w') (htree : tree.SameBut w.logPlace tree') :
    Louder hidden (w.withTree tree) (w'.withTree tree') := by
  refine ⟨?_, h.verbosity, h.log⟩
  show (w'.hushed hidden).withTree (tree'.blank w'.logPlace) = (w.hushed hidden).withTree (tree.blank w.logPlace)
  rw [h.same, h.logPlace, htree]

theorem count {n n' : Nat} (h : Louder hidden w w') (hn : n' = n) :
    Louder hidden { w with tried := n } { w' with tried := n' } := by
  subst hn
  exact ⟨congrArg (fun v : World => { v with tried := n' }) h.same, h.verbosity, h.log⟩

theorem pass {clock clock' : Nat} (h : Louder hidden w w') (hclock : clock' = clock) :
    Louder hidden { w with clock := clock } { w' with clock := clock' } := by
  subst hclock
  exact ⟨congrArg (fun v : World => { v with clock := clock' }) h.same, h.verbosity, h.log⟩

/-- A child of the same command can be started in both worlds. -/
theorem start {a a' : Start} (h : Louder hidden w w') (ha : a'.cover hidden = a.cover hidden) :
    Louder hidden { w with children := w.children.tail, starts := w.starts ++ [a] }
      { w' with children := w'.children.tail, starts := w'.starts ++ [a'] } := by
  refine ⟨?_, h.verbosity, h.log⟩
  have hstarts : (w'.starts ++ [a']).map (Start.cover hidden) = (w.starts ++ [a]).map (Start.cover hidden) := by
    rw [List.map_append, List.map_append, h.starts, List.map_singleton, List.map_singleton, ha]
  have hsame := congrArg (fun v : World =>
    { v with children := v.children.tail, starts := (w.starts ++ [a]).map (Start.cover hidden) }) h.same
  unfold hushed at hsame ⊢
  rw [hstarts]
  exact hsame

/-- The journal is kept in both worlds or lost in both, and once it is lost, the files are the same. -/
theorem undergo (h : Louder hidden w w') (c : Change) : Louder hidden (Command.undergo w c) (Command.undergo w' c) := by
  have htree : (c.apply w.files.tree).SameBut w.logPlace (c.apply w'.files.tree) := h.tree.change c
  have hkept : ∀ place, (Journal.start place).isKept (c.apply w'.files.tree) =
      (Journal.start place).isKept (c.apply w.files.tree) := fun place => Journal.isKept_eq htree.like _
  have hplace : (Command.undergo w' c).logPlace = (Command.undergo w c).logPlace := by
    rw [logPlace_undergo, logPlace_undergo, h.logPlace, funext hkept]
  have hsame : (c.apply w.files.tree).SameBut (Command.undergo w c).logPlace (c.apply w'.files.tree) := by
    rw [logPlace_undergo]
    cases hlog : w.logPlace with
    | none => rwa [hlog] at htree
    | some place =>
      rw [hlog] at htree
      cases hfile : (Journal.start place).isKept (c.apply w.files.tree) with
      | true => rwa [Option.filter_some, if_pos hfile]
      | false =>
        -- The journal goes with its file, and all that differed was in the file.
        rw [Option.filter_some, if_neg (by simp [hfile])]
        exact htree.eq (Journal.not_file_of_isKept hfile)
  refine ⟨?_, h.verbosity, h.log⟩
  show { w'.hushed hidden with
      files := { Command.undergoFiles (w'.hushed hidden).files c with
        tree := (c.apply w'.files.tree).blank (Command.undergo w' c).logPlace }
      tee := (Command.undergo w' c).logPlace.map .start } =
    { w.hushed hidden with
      files := { Command.undergoFiles (w.hushed hidden).files c with
        tree := (c.apply w.files.tree).blank (Command.undergo w c).logPlace }
      tee := (Command.undergo w c).logPlace.map .start }
  rw [h.same, hplace, hsame]

/-- If no log is kept and no program is hidden, nothing but what has been shown differs. -/
theorem eq_of_unlogged (h : Louder hidden w w') (hw : w.logPlace = none) (hhidden : ∀ argv, hidden argv = false) :
    w'.starts = w.starts ∧ w'.files = w.files := by
  have hcover : Start.cover hidden = id := by
    funext s
    rw [Start.cover, hhidden, if_neg Bool.false_ne_true]
    rfl
  have hstarts := h.starts
  have htree := h.tree
  rw [hcover, List.map_id, List.map_id] at hstarts
  rw [hw] at htree
  refine ⟨hstarts, h.files.eq_with_tree.trans ?_⟩
  rw [show w'.files.tree = w.files.tree from htree]

/-- Unless it is the log, the program of a command is the same in both worlds. -/
theorem program?_eq {argv : List Text} (h : Louder hidden w w') (hlog : w.runsLog argv = false) :
    Command.program? w'.files.tree argv = Command.program? w.files.tree argv := by
  cases argv with
  | nil => rfl
  | cons word rest =>
    unfold Command.program?
    dsimp only
    by_cases habs : (Path.ofText word).isAbsolute = true
    · have hstat : w'.files.tree.stat (Path.ofText word) = w.files.tree.stat (Path.ofText word) := by
        refine h.tree.stat_eq fun place node hstat hplace => ?_
        rw [runsLog, habs, hstat, hplace] at hlog
        simp at hlog
      rw [hstat]
    · rw [if_neg habs, if_neg habs]

end Louder

end World

namespace Action

open World

/-- From a world on, the action does the same however much is shown. -/
abbrev Unmoved (hidden : List Text → Bool) (act : Action α) (w : World) : Prop :=
  Steady (.lockstep (Louder hidden)) act w

theorem unmoved_say (n : Notice) (w : World) : Unmoved hidden (say n) w := .of_matches fun _ h => .ok (h.say n)

theorem unmoved_inform (message : Text) (w : World) : Unmoved hidden (inform message) w := unmoved_say _ w

theorem unmoved_andFinally {act : Action α} {last : Action Unit} (hact : Unmoved hidden act w)
    (hlast : ∀ w, Unmoved hidden last w) : Unmoved hidden (andFinally act last) w := by
  refine .of_matches fun w' h => ?_
  have hmatches := hact.matches_of h
  unfold andFinally
  generalize act w = r at hmatches ⊢
  generalize act w' = r' at hmatches ⊢
  cases hmatches with
  | @ok a w₁ w₁' h₁ =>
    have hdone := (hlast w₁).matches_of h₁
    dsimp only
    generalize last w₁ = r at hdone ⊢
    generalize last w₁' = r' at hdone ⊢
    cases hdone with
    | ok h₂ => exact .ok h₂
    | error h₂ => exact .error h₂
  | @error e w₁ w₁' h₁ =>
    have hdone := (hlast w₁).matches_of h₁
    dsimp only
    generalize last w₁ = r at hdone ⊢
    generalize last w₁' = r' at hdone ⊢
    cases hdone with
    | ok h₂ => exact .error h₂
    | error h₂ => exact .error h₂

/-- A directory can be made in both worlds or in neither. -/
theorem makeDirectory_louder (h : Louder hidden w w') (p : Path) :
    (∃ e, w.files.makeDirectory p = .error e ∧ w'.files.makeDirectory p = .error e) ∨
      ∃ tree tree', w.files.makeDirectory p = .ok { w.files with tree } ∧
        w'.files.makeDirectory p = .ok { w'.files with tree := tree' } ∧ tree.SameBut w.logPlace tree' := by
  unfold Files.makeDirectory
  rw [h.files.reach_eq]
  cases w.files.reach p with
  | error e => exact Or.inl ⟨e, rfl, rfl⟩
  | ok q =>
    dsimp only
    split
    · rw [h.files.tree.directory_eq]
      split
      · exact Or.inl ⟨_, rfl, rfl⟩
      · exact Or.inl ⟨_, rfl, rfl⟩
    · rcases h.tree.makeDirectory q with ⟨e, hmake, hmake'⟩ | ⟨tree, tree', hmake, hmake', hsame⟩
      · rw [hmake, hmake']
        exact Or.inl ⟨e, rfl, rfl⟩
      · rw [hmake, hmake']
        exact Or.inr ⟨tree, tree', rfl, rfl, hsame⟩

theorem unmoved_makeDirectoryOr {missing : Action Unit} (hmissing : Unmoved hidden missing w) (p : Path) :
    Unmoved hidden (makeDirectoryOr missing p) w := by
  have hpresent : ∀ e w, Unmoved hidden (do
      if !(← orFault p ((← get).files.isDirectory p)) then throw (.file e p.toText) : Action Unit) w := by
    intro e w
    refine Follows.get_bind ?_ fun w' h => by rw [(Louder.files h).isDirectory_eq]
    refine (steady_orFault p _ w).bind fun there w => ?_
    split
    · exact .throw _ w
    · exact .pure _ w
  refine .of_matches fun w' h => ?_
  unfold makeDirectoryOr
  rw [get_bind_apply, get_bind_apply]
  rcases makeDirectory_louder h p with ⟨e, hmake, hmake'⟩ | ⟨tree, tree', hmake, hmake', hsame⟩
  · rw [hmake, hmake']
    cases e with
    | missing => exact hmissing.matches_of h
    | «exists» | notDirectory | isDirectory | denied | nameTooLong | linkLoop => exact (hpresent _ w).matches_of h
  · rw [hmake, hmake']
    exact .ok (h.withTree hsame)

theorem unmoved_makeDirectories (depth : Nat) (p : Path) (w : World) : Unmoved hidden (makeDirectories depth p) w := by
  induction depth generalizing p w with
  | zero => exact unmoved_makeDirectoryOr (.throw _ w) p
  | succ depth ih =>
    refine unmoved_makeDirectoryOr ?_ p
    split
    · exact .throw _ w
    · exact (ih p.parent w).bind fun _ w => unmoved_makeDirectoryOr (.throw _ w) p

end Action

/-! ### Scripts -/

namespace Script

open World Runbook.Action

theorem unmoved_next (directory : Path) (pid : Int) (w : World) :
    Unmoved hidden (freshPath.next directory pid) w := by
  refine .of_matches fun w' h => ?_
  have hcount := h.count (congrArg (· + 1) h.tried)
  have hdenied := h.files.isDenied_eq (directory.child (fileName pid (w.tried + 1)))
  simp only [freshPath.next, get_bind_apply]
  rw [h.tried, hdenied] at *
  split
  · exact .error hcount
  · exact .ok hcount

theorem unmoved_freshPath (directory : Path) (pid : Int) (tries : Nat) (w : World) :
    Unmoved hidden (freshPath directory pid tries) w := by
  induction tries generalizing w with
  | zero => exact unmoved_next directory pid w
  | succ tries ih =>
    refine (unmoved_next directory pid w).bind fun p w => ?_
    refine Follows.get_bind ?_ fun w' h => by rw [isTaken_eq (Louder.files h)]
    split
    · exact ih w
    · exact .pure p w

theorem unmoved_create (body : Text) (directory : Path) (pid : Int) (w : World) :
    Unmoved hidden (create body directory pid) w := by
  unfold create
  refine Follows.guard ((unmoved_makeDirectories _ directory w).bind fun _ w => ?_)
  refine Follows.get_bind ?_ fun w' h => by rw [(Louder.files h).absolute_eq, (Louder.tree h).length_eq]
  refine (unmoved_freshPath _ pid _ w).bind fun p w => .of_matches fun w' h => ?_
  rw [get_bind_apply, get_bind_apply, h.files.locate_eq]
  cases w.files.locate p with
  | error e => exact .error h
  | ok place => exact .ok (h.withTree (h.tree.set place _))

/-- A file can be taken away in both worlds or in neither. -/
theorem unlink_louder (h : Louder hidden w w') (p : Path) :
    (∃ e, w.files.unlink p = .error e ∧ w'.files.unlink p = .error e) ∨
      ∃ tree tree', w.files.unlink p = .ok tree ∧ w'.files.unlink p = .ok tree' ∧ tree.SameBut w.logPlace tree' := by
  unfold Files.unlink
  rw [h.files.reach_eq, h.files.isDenied_eq]
  cases w.files.reach p with
  | error e => exact Or.inl ⟨e, rfl, rfl⟩
  | ok q =>
    dsimp only
    rcases h.tree.unlink q with ⟨e, hunlink, hunlink'⟩ | ⟨tree, tree', hunlink, hunlink', hsame⟩
    · rw [hunlink, hunlink']
      refine Or.inl ?_
      cases w.files.isDenied p <;> cases e <;> exact ⟨_, rfl, rfl⟩
    · rw [hunlink, hunlink']
      dsimp only
      split
      · exact Or.inl ⟨_, rfl, rfl⟩
      · exact Or.inr ⟨tree, tree', rfl, rfl, hsame⟩

theorem unmoved_delete (p : Path) (w : World) : Unmoved hidden (delete p) w := by
  refine .of_matches fun w' h => ?_
  unfold delete
  rw [get_bind_apply, get_bind_apply]
  rcases unlink_louder h p with ⟨e, hunlink, hunlink'⟩ | ⟨tree, tree', hunlink, hunlink', hsame⟩
  · rw [hunlink, hunlink']
    cases e with
    | missing => exact .ok h
    | «exists» | notDirectory | isDirectory | denied | nameTooLong | linkLoop => exact .error h
  · rw [hunlink, hunlink']
    exact .ok (h.withTree hsame)

/-- What is done while a script file exists need be known only for a file that has been made. -/
theorem unmoved_during {body : Text} {directory : Path} {pid : Int} {use : Path → Action α}
    (huse : ∀ p w', create body directory pid w = .ok p w' →
      Unmoved hidden (use p) (w'.say (.info ("creating anonymous script file: " ++ p.toText)))) :
    Unmoved hidden (during body directory pid use) w := by
  refine (unmoved_create body directory pid w).bind_of_ok fun p w₁ hcreate => unmoved_andFinally ?_ fun w => ?_
  · exact (unmoved_inform _ w₁).bind_of_ok fun _ w₂ hsay => by
      cases hsay
      exact huse p w₁ hcreate
  · exact (unmoved_inform _ w).bind fun _ => unmoved_delete p

end Script

/-! ### Commands -/

namespace Command

open World Runbook.Action

theorem unmoved_nextChild {argv : List Text} (hlog : w.runsLog argv = true → hidden argv = true) (cwd : Text)
    (env : Bindings) : Unmoved hidden (nextChild argv cwd env) w := by
  refine .of_matches fun w' h => ?_
  have hcover : (Start.mk argv cwd env (program? w'.files.tree argv)).cover hidden =
      (Start.mk argv cwd env (program? w.files.tree argv)).cover hidden := by
    unfold Start.cover
    cases hhidden : hidden argv with
    | true => rfl
    | false =>
      have hruns : w.runsLog argv = false := Bool.eq_false_iff.mpr fun hruns => by simp [hlog hruns] at hhidden
      rw [h.program?_eq hruns]
  have hnext : nextChild argv cwd env w' = .ok (w.children.headD .silent)
      { w' with children := w'.children.tail, starts := w'.starts ++ [⟨argv, cwd, env, program? w'.files.tree argv⟩] } := by
    rw [← h.children]
    rfl
  rw [hnext]
  exact .ok (h.start hcover)

theorem unmoved_settle (child : Child) (w : World) : Unmoved hidden (settle child) w := by
  refine .of_matches fun w' h => .ok ?_
  have hchanges : ∀ (changes : List Change) {w w' : World}, Louder hidden w w' →
      Louder hidden (changes.foldl undergo w) (changes.foldl undergo w') := by
    intro changes
    induction changes with
    | nil => exact id
    | cons change changes ih => exact fun h => ih (h.undergo change)
  exact (hchanges child.changes h).pass (congrArg (· + child.millis) h.clock)

theorem unmoved_await (argv : List Text) (silent : Bool) (child : Child) (w : World) :
    Unmoved hidden (await argv silent child) w := by
  have hend : ∀ w, Unmoved hidden (do settle child; ending argv child) w := by
    intro w
    refine (unmoved_settle child w).bind fun _ w => ?_
    unfold ending
    cases child.exit with
    | none => exact .throw _ w
    | some code => exact .pure _ w
  cases hrefusal : child.refusal with
  | some e =>
    rw [await_of_some hrefusal]
    exact .pure _ w
  | none =>
    rw [await_of_none hrefusal]
    dsimp only
    split
    · exact (Follows.forM _ (fun line => unmoved_say _) w).bind fun _ => hend
    · exact hend w

theorem unmoved_run {argv : List Text}
    (hlog : argv.any (·.contains '\x00') = false → w.runsLog argv = true → hidden argv = true) (cwd : Text) (env : Bindings)
    (silent : Bool) : Unmoved hidden (run argv cwd env silent) w := by
  cases hobjection : objection? argv cwd env with
  | some e =>
    exact (Follows.throw e w).congr (run_of_objection hobjection silent w) fun w' _ =>
      run_of_objection hobjection silent w'
  | none =>
    rw [run_eq hobjection]
    have hnull := (objection?_words.mp hobjection).2
    exact (unmoved_nextChild (hlog hnull) cwd env).bind fun child => unmoved_await argv silent child

end Command

end Runbook
