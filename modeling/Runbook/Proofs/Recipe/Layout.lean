import Runbook.CommandLine
import Runbook.Proofs.Include.Relaid
import Runbook.Proofs.Recipe.Listing
import Runbook.Proofs.Tree.Blank

/-! # Layout carries no meaning

A recipe is loaded from files whose layout is edited as from the files as they were: it says the same, or fails for the same
cause (`Recipe.load_relaid`). -/

namespace Runbook

open Effect Include Text World

variable {t t' : Tree} {w w' v v' : World} {p : Path}

/-! ### Files -/

/-- Nodes that are the same up to the layout of a file. -/
inductive Node.Relaid : Node → Node → Prop
  | directory : Relaid .directory .directory
  | link {target : Text} : Relaid (.link target) (.link target)
  | file {content content' : List UInt8} {mode : Nat} (h : Edits content content') :
    Relaid (.file content mode) (.file content' mode)

theorem Node.Relaid.refl (node : Node) : node.Relaid node := by
  cases node with
  | directory => exact .directory
  | link target => exact .link
  | file content mode => exact .file (.refl content)

theorem Node.Relaid.kind_eq {node node' : Node} (h : node.Relaid node') : node.kind = node'.kind := by
  cases h <;> rfl

/-- Entries that are the same up to the layout of a file. -/
structure Tree.EntryRelaid (e e' : Place × Node) : Prop where
  place : e.1 = e'.1
  node : e.2.Relaid e'.2

/-- Trees that are the same up to the layout of files. -/
def Tree.Relaid (t t' : Tree) : Prop := List.Forall₂ EntryRelaid t.entries t'.entries

namespace Tree

theorem lookup_relaid {entries entries' : List (Place × Node)} (h : List.Forall₂ EntryRelaid entries entries')
    (place : Place) : Option.Rel Node.Relaid (List.lookup place entries) (List.lookup place entries') := by
  induction h with
  | nil => exact .none
  | @cons e e' entries entries' he _ ih =>
    obtain ⟨p, node⟩ := e
    obtain ⟨p', node'⟩ := e'
    obtain rfl : p = p' := he.place
    rw [lookup_cons_eq, lookup_cons_eq]
    split
    · exact .some he.node
    · exact ih

/-- At a place stands nothing in either tree, or the same up to its layout. -/
theorem Relaid.node? (h : t.Relaid t') (place : Place) : Option.Rel Node.Relaid (t.node? place) (t'.node? place) := by
  cases place with
  | nil => exact .some .directory
  | cons name rest => exact lookup_relaid h (name :: rest)

theorem Relaid.like (h : t.Relaid t') : t.Like t' := by
  intro place
  have hnode := h.node? place
  generalize t.node? place = x at hnode
  generalize t'.node? place = y at hnode
  cases hnode with
  | none => rfl
  | some hnode => exact congrArg some hnode.kind_eq.symm

theorem kinds_relaid {entries entries' : List (Place × Node)} (h : List.Forall₂ EntryRelaid entries entries') :
    entries'.map (fun e => e.2.kind) = entries.map fun e => e.2.kind := by
  induction h with
  | nil => rfl
  | cons he _ ih => rw [List.map_cons, List.map_cons, ih, he.node.kind_eq]

theorem setEntry_relaid {entries entries' : List (Place × Node)} (h : List.Forall₂ EntryRelaid entries entries')
    (place : Place) (node : Node) :
    List.Forall₂ EntryRelaid (setEntry place node entries) (setEntry place node entries') := by
  induction h with
  | nil => exact .cons ⟨rfl, .refl node⟩ .nil
  | @cons e e' entries entries' he hrest ih =>
    obtain ⟨p, n⟩ := e
    obtain ⟨p', n'⟩ := e'
    obtain rfl : p = p' := he.place
    rw [setEntry, setEntry]
    split
    · exact .cons ⟨rfl, .refl node⟩ hrest
    · exact .cons he ih

/-- A file that is written to holds the same in both trees. -/
theorem Relaid.writeAt (h : t.Relaid t') (place : Place) (content : List UInt8) :
    (t.writeAt place content).Relaid (t'.writeAt place content) ∧
      (t'.writeAt place content).node? place = (t.writeAt place content).node? place := by
  have hset : ∀ node, (t.set place node).Relaid (t'.set place node) ∧
      (t'.set place node).node? place = (t.set place node).node? place := by
    intro node
    refine ⟨setEntry_relaid h place node, ?_⟩
    cases place with
    | nil => rfl
    | cons name rest =>
      rw [node?_set t' _ _ _ (List.cons_ne_nil _ _), node?_set t _ _ _ (List.cons_ne_nil _ _), if_pos rfl, if_pos rfl]
  have hnode := h.node? place
  unfold Tree.writeAt
  generalize t.node? place = x at hnode
  generalize t'.node? place = y at hnode
  cases hnode with
  | none => exact hset _
  | some hnode => cases hnode <;> exact hset _

end Tree

/-- Worlds that are the same up to the layout of files. A log has nothing in it when it is begun, so that its layout is
    not edited. -/
structure World.Relaid (w w' : World) : Prop where
  tree : w.files.tree.Relaid w'.files.tree
  rest : w' = w.withTree w'.files.tree
  log : ∀ place, w.logPlace = some place → w'.files.tree.node? place = w.files.tree.node? place

namespace World

theorem Relaid.like (h : Relaid w w') : w.files.Like w'.files := by
  rw [h.rest]
  exact ⟨h.tree.like, rfl, rfl, rfl, rfl⟩

theorem Relaid.tee (h : Relaid w w') : w'.tee = w.tee := by
  rw [h.rest]
  rfl

theorem Relaid.verbosity (h : Relaid w w') : w'.verbosity = w.verbosity := by
  rw [h.rest]
  rfl

theorem Relaid.depth_eq (h : Relaid w w') : depth w'.files = depth w.files := depth_of_kinds (Tree.kinds_relaid h.tree)

/-- What a path leads to has the same outline. -/
theorem Relaid.outline_eq (h : Relaid w w') (p : Path) :
    outline (w.files.content p) = outline (w'.files.content p) := by
  rw [Files.content, Files.content]
  rcases h.like.stat_cases p with heq | ⟨place, content, mode, content', mode', hstat, hstat'⟩
  · rw [heq]
  · have hnode := h.tree.node? place
    rw [(Files.stat_eq_ok hstat).2, (Files.stat_eq_ok hstat').2] at hnode
    rw [hstat, hstat']
    cases hnode with
    | some hnode =>
      cases hnode with
      | file hedits => exact outline_eq_of_edits hedits

/-- A log is begun in both worlds or in neither. -/
theorem Relaid.openTee (h : Relaid w w') (name : Text) :
    (∃ e, CommandLine.openTee name w = .error e w ∧ CommandLine.openTee name w' = .error e w') ∨
      ∃ v v', CommandLine.openTee name w = .ok () v ∧ CommandLine.openTee name w' = .ok () v' ∧ Relaid v v' := by
  have hplace : w'.files.writePlace (Path.ofText name) = w.files.writePlace (Path.ofText name) := by
    unfold Files.writePlace
    simp only [h.like.reach_eq, h.like.tree.writePlace_eq]
  unfold CommandLine.openTee
  split
  · exact Or.inl ⟨_, rfl, rfl⟩
  · simp only [get_bind_apply, h.like.isDenied_eq, hplace]
    split
    · exact Or.inl ⟨_, rfl, rfl⟩
    · cases w.files.writePlace (Path.ofText name) with
      | error e => exact Or.inl ⟨_, rfl, rfl⟩
      | ok place =>
        obtain ⟨htree, hnode⟩ := h.tree.writeAt place []
        refine Or.inr ⟨_, _, rfl, rfl, htree, ?_, ?_⟩
        · rw [h.rest]
          rfl
        · rintro q hq
          obtain rfl : place = q := Option.some.inj hq
          exact hnode

/-! ### What is told meanwhile -/

/-- The worlds have the same log, or none. -/
structure SameLog (w w' : World) : Prop where
  tee : w'.tee = w.tee
  node : ∀ place, w.logPlace = some place → w'.files.tree.node? place = w.files.tree.node? place

theorem SameLog.write (h : SameLog w w') (e : Event) : SameLog (w.write e) (w'.write e) := by
  have htee := h.tee
  unfold World.write
  rw [htee]
  cases hw : w.tee with
  | none => exact ⟨htee, fun place hplace => by simp [logPlace, hw] at hplace⟩
  | some journal =>
    refine ⟨rfl, ?_⟩
    rintro place hplace
    obtain rfl : journal.place = place := Option.some.inj hplace
    exact Tree.Like.journal_node?_congr journal _ (h.node journal.place (by rw [logPlace, hw]; rfl))

theorem SameLog.say (h : SameLog w w') (hverbosity : w'.verbosity = w.verbosity) (n : Notice) :
    SameLog (w.say n) (w'.say n) := by
  unfold World.say
  rw [hverbosity]
  generalize n.events w.verbosity = events
  clear hverbosity
  induction events generalizing w w' with
  | nil => exact h
  | cons e events ih => exact ih (h.write e)

/-- What has been told since in two worlds is the same, and nothing else has happened in them. -/
structure ToldAlike (w w' v v' : World) : Prop where
  told : Tells w v
  told' : Tells w' v'
  log : SameLog v v'

theorem ToldAlike.say (hw : Relaid w w') (h : ToldAlike w w' v v') {n : Notice} (hn : n.echo? = none) :
    ToldAlike w w' (v.say n) (v'.say n) where
  told := Frame.trans h.told (tells_say v hn)
  told' := Frame.trans h.told' (tells_say v' hn)
  log := h.log.say (h.told'.said.verbosity.trans (hw.verbosity.trans h.told.said.verbosity.symm)) n

theorem ToldAlike.like (hw : Relaid w w') (h : ToldAlike w w' v v') : v.files.Like v'.files :=
  h.told.said.files.symm.trans (hw.like.trans h.told'.said.files)

theorem ToldAlike.depth_eq (hw : Relaid w w') (h : ToldAlike w w' v v') : depth v'.files = depth v.files := by
  rw [h.told'.depth_eq, hw.depth_eq, h.told.depth_eq]

theorem Relaid.offLog (hw : Relaid w w') (h : w.OffLog p) : w'.OffLog p := by
  intro place node' hstat'
  obtain ⟨node, hstat⟩ := hw.like.stat_place hstat'
  rw [logPlace, hw.tee]
  exact h place node hstat

/-- Recipes are read from worlds whose layout is edited. -/
theorem Relaid.view (hw : Relaid w w') : Recipe.view.Relaid Recipe.view (ToldAlike w w') where
  like h := h.like hw
  opened path h := h.say hw rfl
  content p := by
    by_cases hoff : w.OffLog p
    · exact Or.inr ⟨_, _, hw.outline_eq p, fun v v' h => ⟨h.told.content_eq hoff, h.told'.content_eq (hw.offLog hoff)⟩⟩
    · -- The path leads to the log, which is the same in both worlds.
      obtain ⟨place, node, hstat, hplace⟩ : ∃ place node, w.files.stat p = .ok (place, node) ∧
          w.logPlace = some place := by simpa [OffLog] using hoff
      refine Or.inl fun v v' h => (h.like hw).content_eq fun place' node' hstat' => ?_
      obtain ⟨_, hsame⟩ := h.told.said.files.stat_place hstat'
      rw [hstat] at hsame
      cases hsame
      exact h.log.node place (h.told.notes.logPlace.trans hplace)

end World

/-! ### Loading -/

namespace Recipe

/-- Recipes that are called the same and say the same. -/
structure Same (r r' : Recipe) : Prop where
  name : r.name = r'.name
  path : r.path = r'.path
  same : r.SaysSame r'

/-- The same recipe, or the same failure, up to where in the files it is met. -/
inductive LoadsAlike : Except Fault Recipe → Except Fault Recipe → Prop
  | recipe {r r' : Recipe} (h : r.Same r') : LoadsAlike (.ok r) (.ok r')
  | failure {e e' : Fault} (h : e.Akin e') : LoadsAlike (.error e) (.error e')

section
variable (hw : World.Relaid w w')
include hw

theorem inform_alike (message : Text) :
    RunsAlike Fault.Akin (ToldAlike w w') Eq (Action.inform message) (Action.inform message) :=
  fun _ _ h => .ok rfl (h.say hw rfl)

theorem expandHome_alike (p : Path) :
    RunsAlike Fault.Akin (ToldAlike w w') Eq (Action.expandHome p) (Action.expandHome p) :=
  .of_follows (fun _ => .same) (Action.steady_expandHome (fun _ _ => ToldAlike.like hw) p)

theorem locate_alike (reference recipeDir : Text) :
    RunsAlike Fault.Akin (ToldAlike w w') Eq (locate reference recipeDir) (locate reference recipeDir) := by
  refine .of_follows (fun _ => .same) (steady_locate (fun _ _ => ToldAlike.like hw) (fun message v => ?_) reference recipeDir)
  exact .of_matches fun v' h => .ok (h.say hw rfl)

theorem readLines_alike (source : Text) (p : Path) :
    ReadsAlike (ToldAlike w w') (readLines source p) (readLines source p) := by
  refine (expandHome_alike hw p).bind ?_
  rintro p _ rfl
  refine RunsAlike.get_bind fun v v' h => ?_
  show EndsAlike _ _ _ (expand view (depth v.files) [] none source p v) (expand view (depth v'.files) [] none source p v')
  rw [h.depth_eq hw]
  exact expand_alike hw.view _ _ _ _ source p v v' h

theorem loadFile_alike (p : Path) : RunsAlike Fault.Akin (ToldAlike w w') Same (loadFile p) (loadFile p) := by
  refine (readLines_alike hw p.toText p).bind fun lines lines' hlines => ?_
  refine RunsAlike.get_bind fun v v' h => ?_
  have hagree : Agree LoadError.Akin SaysSame (ofFile v.files.cwd p lines) (ofFile v'.files.cwd p lines') :=
    ofLines_agree .ofGist hlines
  rw [(h.like hw).cwd] at hagree ⊢
  generalize hr : ofFile v.files.cwd p lines = x at hagree ⊢
  generalize hr' : ofFile v.files.cwd p lines' = y at hagree ⊢
  cases hagree with
  | ok hsame =>
    have hd := (ofLines_eq_ok hr).2.1
    have hd' := (ofLines_eq_ok hr').2.1
    exact .ok ⟨hd.name.trans hd'.name.symm, hd.path.trans hd'.path.symm, hsame⟩ h
  | error he => exact .error (.load he) h

theorem load_alike (reference recipeDir : Text) :
    RunsAlike Fault.Akin (ToldAlike w w') Same (load reference recipeDir) (load reference recipeDir) := by
  refine (inform_alike hw _).bind fun _ _ _ => (locate_alike hw reference recipeDir).bind ?_
  rintro p _ rfl
  exact (inform_alike hw _).bind fun _ _ _ => loadFile_alike hw p

end

theorem LoadsAlike.of_endsAlike {r r' : EStateM.Result Fault World Recipe}
    (h : EndsAlike Fault.Akin (ToldAlike w w') Same r r') : LoadsAlike (outcome r) (outcome r') := by
  cases h with
  | ok hr => exact .recipe hr
  | error he => exact .failure he

/-- The layout of files makes no difference to what is loaded from them. In any of the files any number of edits may have
    been made and taken back: lines that say nothing are put in outside blocks, white space before and after lines outside
    blocks and after the closing line of a block, carriage returns before line feeds, and a last line feed. Then any
    reference loads the same recipe or fails for the same cause, also after a log has been begun in one of the files. -/
theorem load_relaid (h : World.Relaid w w') (reference recipeDir : Text) :
    LoadsAlike (outcome (load reference recipeDir w)) (outcome (load reference recipeDir w')) ∧
      ∀ name, LoadsAlike (outcome ((CommandLine.openTee name >>= fun _ => load reference recipeDir) w))
        (outcome ((CommandLine.openTee name >>= fun _ => load reference recipeDir) w')) := by
  have hload : ∀ {w w'}, World.Relaid w w' →
      LoadsAlike (outcome (load reference recipeDir w)) (outcome (load reference recipeDir w')) := fun {w w'} h =>
    .of_endsAlike (load_alike h reference recipeDir w w' ⟨Frame.refl w, Frame.refl w', h.tee, h.log⟩)
  refine ⟨hload h, fun name => ?_⟩
  rcases h.openTee name with ⟨e, hfails, hfails'⟩ | ⟨v, v', hopens, hopens', hrelaid⟩
  · rw [bind_of_error hfails, bind_of_error hfails']
    exact .failure .same
  · rw [bind_of_ok hopens, bind_of_ok hopens']
    exact hload hrelaid

/-- A world with the file of a recipe, and one that it includes. -/
def laidOut (recipe steps : List UInt8) : World :=
  Rehearsal.world "/w" [] [("/w/r.ini", recipe), ("/w/s", steps)]

/-- The lines of a recipe up to the closing line of a block. -/
def blockBody : List UInt8 := Utf8.encode "[description]\nbrief = b\nfull = \"\"\"one\n two\n"

/-- The closing line. -/
def blockEnd : List UInt8 := Utf8.encode "\"\"\""

/-- The lines after it. -/
def afterBlock : List UInt8 := Utf8.encode "\ninclude s\n"

/-- The recipe. -/
def tidy : List UInt8 := blockBody ++ (blockEnd ++ afterBlock)

/-- The recipe with a comment line before it, and with white space after the closing line of its block. -/
def untidy : List UInt8 := (Utf8.encode "# c" ++ 10 :: blockBody) ++ (blockEnd ++ Utf8.encode "\t " ++ afterBlock)

/-- What it includes. -/
def hello : List UInt8 := Utf8.encode "[step]\nstep = info hello"

/-- The same with a carriage return before its line feed. -/
def helloReturned : List UInt8 := Utf8.encode "[step]\r\nstep = info hello"

theorem relaid_laidOut {recipe recipe' steps steps' : List UInt8} (hrecipe : Edits recipe recipe')
    (hsteps : Edits steps steps') : World.Relaid (laidOut recipe steps) (laidOut recipe' steps') where
  tree := .cons ⟨rfl, .directory⟩ (.cons ⟨rfl, .file hrecipe⟩ (.cons ⟨rfl, .file hsteps⟩ .nil))
  rest := rfl
  log _ hplace := by cases hplace

theorem load_relaid_block : ∃ r r' v v', load "r.ini" [] (laidOut tidy hello) = .ok r v ∧
    load "r.ini" [] (laidOut untidy helloReturned) = .ok r' v' ∧ r.Same r' := by
  have hcomment : Edit ([] ++ tidy) ([] ++ (Utf8.encode "# c" ++ 10 :: tidy)) :=
    .silent (by decide) (by decide +kernel) (by decide +kernel) (by decide +kernel)
  have hblanks : Edit ((Utf8.encode "# c" ++ 10 :: blockBody) ++ (blockEnd ++ afterBlock)) untidy :=
    .pad (by decide +kernel) (by decide +kernel) (.inr (by decide +kernel)) (by decide +kernel)
      (by decide +kernel)
  have hedits : Edits tidy untidy := .trans _ _ _ (.rel _ _ hcomment) (.rel _ _ hblanks)
  have hreturns : Edits hello helloReturned := edits_returns hello
  obtain ⟨halike, -⟩ := load_relaid (relaid_laidOut hedits hreturns) "r.ini" []
  have htidy : passes (fun _ _ => true) (load "r.ini" [] (laidOut tidy hello)) = true := by decide +kernel
  obtain ⟨r, v, hload, -⟩ := eq_ok_of_passes htidy
  rw [hload] at halike
  cases hload' : load "r.ini" [] (laidOut untidy helloReturned) with
  | ok r' v' =>
    rw [hload'] at halike
    cases halike with
    | recipe hsame => exact ⟨r, r', v, v', hload, rfl, hsame⟩
  | error e v' =>
    rw [hload'] at halike
    cases halike

/-- The recipe after a comment line that is no text. -/
def garbled : List UInt8 := Utf8.encode "# " ++ 255 :: 10 :: tidy

/-- A comment line that is no text keeps the recipe after it from being loaded. -/
theorem load_undecodable_comment : (∃ r v, load "r.ini" [] (laidOut tidy hello) = .ok r v) ∧
    (∃ v, load "r.ini" [] (laidOut garbled hello) =
      .error (.load (.notUtf8 .invalidStart ⟨"r.ini", "/w/r.ini", 1, [], none⟩)) v) ∧
    ¬ LoadsAlike (outcome (load "r.ini" [] (laidOut tidy hello)))
      (outcome (load "r.ini" [] (laidOut garbled hello))) := by
  have htidy : passes (fun _ _ => true) (load "r.ini" [] (laidOut tidy hello)) = true := by decide +kernel
  have hgarbled : fails (fun e _ => decide (e = .load (.notUtf8 .invalidStart ⟨"r.ini", "/w/r.ini", 1, [], none⟩)))
      (load "r.ini" [] (laidOut garbled hello)) = true := by decide +kernel
  obtain ⟨r, v, hload, -⟩ := eq_ok_of_passes htidy
  obtain ⟨e, v', hload', he⟩ := eq_error_of_fails hgarbled
  obtain rfl := of_decide_eq_true he
  rw [hload, hload']
  exact ⟨⟨r, v, rfl⟩, ⟨v', rfl⟩, by rintro ⟨⟩⟩

end Recipe

end Runbook
