import Runbook.Proofs.Log
import Runbook.Proofs.Script.Freshness

/-! # The life of a script file

While a script is used, its file stands where nothing stood, in a tree that is otherwise as it was but for directories on
the way (`Found`). However the use ends, the file is gone after it, and all the rest is as the use has left it (`Gone`),
unless the path of the script has come to lead elsewhere, or the rights to it are gone. Main statement: `during_life`. -/

namespace Runbook.Script

open Effect World

variable {w w' w₂ : World} {files : Files} {log : Option Place} {directory p : Path} {body : Text} {pid : Int}
  {place q : Place} {t t' : Tree} {changes : List Change}

/-- What a script finds that is used: the files as they were and directories on the way to the script directory, and at a
    place where nothing stands, which the path names, the file of the script. What the log holds is left open. -/
def Found (files : Files) (log : Option Place) (directory : Path) (body : Text) (p : Path) (place : Place) (t : Tree) :
    Prop :=
  ∃ before made : Tree, files.tree.Agrees log before ∧
    (∀ q, { files with tree := before }.Furnished directory made q) ∧ made.locate p = .ok place ∧
    made.node? place = none ∧ (made.set place (.file (Utf8.encode (content body)) mode)).Agrees log t

/-- The path of a script names its place, at which no directory stands, or it names none and nothing stands there. -/
def Stays (p : Path) (place : Place) (t : Tree) : Prop :=
  match t.locate p with
  | .ok q => q = place ∧ t.node? place ≠ some .directory
  | .error _ => t.node? place = none

/-- The second tree is the first one without the file of a script, up to the log, and the path of the script names nothing
    that is there. -/
structure Gone (log : Option Place) (p : Path) (place : Place) (t t' : Tree) : Prop where
  path : ∀ q, t'.locate p = .ok q → t'.node? q = none
  rest : (t.erase place).Agrees log t'

namespace Found

theorem free (h : Found files log directory body p place t) : files.tree.node? place = none := by
  obtain ⟨before, made, hbefore, hmade, -, hnone, -⟩ := h
  have hkind := hbefore.like place
  rwa [(Files.Furnished.grows hmade).none_of_none hnone, Option.map_none, eq_comm, Option.map_eq_none_iff] at hkind

theorem ne_nil (h : Found files log directory body p place t) : place ≠ [] := by
  rintro rfl
  cases h.free

theorem apart (hw : w.Logs) (h : Found w.files w.logPlace directory body p place t) : w.logPlace ≠ some place := by
  intro hplace
  obtain ⟨content, mode, hnode⟩ := hw place hplace
  rw [h.free] at hnode
  cases hnode

/-- The files may be looked at before something is written to the log. -/
theorem of_agrees {before : Tree} (h : Found { files with tree := before } log directory body p place t)
    (hbefore : files.tree.Agrees log before) : Found files log directory body p place t := by
  obtain ⟨before', made, hbefore', hrest⟩ := h
  exact ⟨before', made, hbefore.trans hbefore', hrest⟩

theorem script (h : Found files log directory body p place t) (hlog : log ≠ some place) :
    t.node? place = some (.file (Utf8.encode (content body)) mode) := by
  have hne := h.ne_nil
  obtain ⟨before, made, -, -, -, -, hagrees⟩ := h
  rw [hagrees.node place hlog, Tree.node?_set _ _ _ _ hne, if_pos rfl]

theorem locate (h : Found files log directory body p place t) : t.locate p = .ok place := by
  obtain ⟨before, made, -, -, hlocate, hnone, hagrees⟩ := h
  rw [hagrees.like.locate_eq]
  exact (Tree.Grows.set hnone _).locate hlocate

/-- A script that nothing has been done to stays. -/
theorem stays (hw : w.Logs) (h : Found w.files w.logPlace directory body p place t) : Stays p place t := by
  rw [Stays, h.locate]
  exact ⟨rfl, by simp [h.script (h.apart hw)]⟩

/-- A directory that the path goes through is there at most where nothing stood, away from the script and the log. -/
theorem other (h : Found files log directory body p place t) (hplace : q ≠ place) (hlog : log ≠ some q) :
    t.node? q = files.tree.node? q ∨ (files.tree.node? q = none ∧ t.node? q = some .directory) := by
  obtain ⟨before, made, hbefore, hmade, -, -, hagrees⟩ := h
  have hset : t.node? q = made.node? q := by
    cases q with
    | nil => rfl
    | cons name rest => rw [hagrees.node _ hlog, Tree.node?_set _ _ _ _ (List.cons_ne_nil _ _), if_neg hplace]
  have hq := hmade q
  rw [hset, ← hbefore.node q hlog]
  exact hq.imp_right fun hnew => ⟨hnew.1, hnew.2.1⟩

/-- If nothing else has been done to the files, directories on the way are all that is left of a script. -/
theorem furnished (h : Found files log directory body p place t) (hgone : Gone log p place t t') (hlog : log ≠ some q) :
    files.Furnished directory t' q := by
  obtain ⟨before, made, hbefore, hmade, -, hnone, hagrees⟩ := h
  have hsame : made.Agrees log t' :=
    ((Tree.Agrees.of_node fun q => Tree.node?_set_erase hnone _ q).trans (hagrees.erase place)).trans hgone.rest
  exact (Files.Furnished.agrees (hmade q) hsame hlog).of_agrees hbefore hlog

end Found

theorem Stays.like (h : Stays p place t) (hlike : t.Like t') : Stays p place t' := by
  unfold Stays at h ⊢
  rw [hlike.locate_eq]
  rcases hlike.node?_cases place with heq | ⟨content, mode, content', mode', hn, hn'⟩
  · rw [heq]
    exact h
  · rw [hn']
    cases hlocate : t.locate p with
    | ok q =>
      simp only [hlocate] at h
      exact ⟨h.1, by simp⟩
    | error e =>
      simp only [hlocate] at h
      rw [hn] at h
      cases h

theorem Gone.trans_agrees {t'' : Tree} (h : Gone log p place t t') (h' : t'.Agrees log t'') : Gone log p place t t'' := by
  refine ⟨fun q hq => ?_, h.rest.trans h'⟩
  rw [h'.like.locate_eq] at hq
  have hkind := h'.like q
  rwa [h.path q hq, Option.map_none, Option.map_eq_none_iff] at hkind

theorem Gone.node (h : Gone log p place t t') (hplace : q ≠ place) (hlog : log ≠ some q) : t'.node? q = t.node? q := by
  rw [h.rest.node q hlog]
  cases q with
  | nil => rfl
  | cons name rest => rw [Tree.node?_erase _ _ _ (List.cons_ne_nil _ _), if_neg hplace]

theorem Gone.node_place (h : Gone log p place t t') (hne : place ≠ []) (hlog : log ≠ some place) :
    t'.node? place = none := by
  rw [h.rest.node place hlog, Tree.node?_erase _ _ _ hne, if_pos rfl]

theorem Gone.isTaken (h : Gone log p place t w.files.tree) (habsolute : p.isAbsolute = true) : isTaken w p = false := by
  unfold Script.isTaken
  split
  · rename_i q hq
    have hq' := Files.locate_eq_ok hq
    rw [Path.join, if_pos habsolute] at hq'
    rw [h.path q hq']
    rfl
  · rfl

/-! ### Taking a script away -/

/-- Where a path may be looked up that is not denied, taking away is what it is without rights. -/
theorem unlink_eq (hreach : files.reach p = .ok p) (hdenied : files.isDenied p = false) :
    files.unlink p = files.tree.unlink p := by
  rw [Files.unlink, hreach]
  dsimp only
  split
  · exact (‹_ = _›).symm
  · exact if_neg (ne_true_of_eq_false hdenied)

section
variable (hreach : w.files.reach p = .ok p) (hdenied : w.files.isDenied p = false)
include hreach hdenied

/-- Taking away a script that stays takes away what stands at its place. -/
theorem delete_cases (h : Stays p place w.files.tree) :
    (final (delete p w) = w ∧ w.files.tree.node? place = none ∧
      ∀ q, w.files.tree.locate p = .ok q → w.files.tree.node? q = none) ∨
    (final (delete p w) = w.withTree (w.files.tree.erase place) ∧ w.files.tree.locate p = .ok place) := by
  have hfinal : final (delete p w) = match w.files.tree.unlink p with
      | .ok tree => w.withTree tree
      | .error _ => w := by
    rw [delete, get_bind_apply, unlink_eq hreach hdenied]
    cases w.files.tree.unlink p with
    | ok tree => rfl
    | error e => cases e <;> rfl
  rw [hfinal, Tree.unlink]
  unfold Stays at h
  cases hlocate : w.files.tree.locate p with
  | error e =>
    simp only [hlocate] at h
    exact Or.inl ⟨rfl, h, fun q hq => by cases hq⟩
  | ok q =>
    simp only [hlocate] at h
    obtain ⟨rfl, hfile⟩ := h
    dsimp only
    cases hnode : w.files.tree.node? q with
    | none =>
      refine Or.inl ⟨rfl, rfl, fun q' hq' => ?_⟩
      cases hq'
      exact hnode
    | some node =>
      cases node with
      | directory => exact absurd hnode hfile
      | file content mode => exact Or.inr ⟨rfl, rfl⟩
      | link target => exact Or.inr ⟨rfl, rfl⟩

theorem delete_gone (h : Stays p place t) (hne : place ≠ []) (hagrees : t.Agrees log w.files.tree) :
    Gone log p place t (final (delete p w)).files.tree := by
  have hrest := hagrees.erase place
  rcases delete_cases hreach hdenied (h.like hagrees.like) with ⟨hfinal, hnone, hpath⟩ | ⟨hfinal, hlocate⟩
  · rw [hfinal]
    exact ⟨hpath, hrest.trans (.of_node fun q => (Tree.node?_erase_of_none hnone q).symm)⟩
  · rw [hfinal]
    refine ⟨fun q hq => ?_, hrest⟩
    have hq' := (Tree.Grows.erase w.files.tree place).locate hq
    rw [hlocate] at hq'
    cases hq'
    show (w.files.tree.erase place).node? place = none
    rw [Tree.node?_erase _ _ _ hne, if_pos rfl]

theorem delete_logs (h : Stays p place w.files.tree) (hlog : w.logPlace ≠ some place) (hw : w.Logs) :
    (final (delete p w)).Logs := by
  rcases delete_cases hreach hdenied h with ⟨hfinal, -, -⟩ | ⟨hfinal, -⟩
  · rwa [hfinal]
  · rw [hfinal]
    intro q hq
    obtain ⟨content, mode, hnode⟩ := hw q hq
    refine ⟨content, mode, ?_⟩
    show (w.files.tree.erase place).node? q = _
    have hne : q ≠ [] := by
      rintro rfl
      cases hnode
    rw [Tree.node?_erase _ _ _ hne, if_neg ?_, hnode]
    rintro rfl
    exact hlog hq

end

theorem delete_logPlace (p : Path) (w : World) : (final (delete p w)).logPlace = w.logPlace := by
  rw [delete, get_bind_apply]
  cases w.files.unlink p with
  | ok tree => rfl
  | error e => cases e <;> rfl

/-! ### Using a script -/

theorem andFinally_final {α : Type} (act : Action α) (last : Action Unit) (w : World) :
    final (Action.andFinally act last w) = final (last (final (act w))) := by
  unfold Action.andFinally
  cases act w with
  | ok a w₁ =>
    dsimp only [final_ok]
    cases last w₁ <;> rfl
  | error e w₁ =>
    dsimp only [final_error]
    cases last w₁ <;> rfl

/-- The world in which the file of a script that has been used is taken away. -/
def concluded (p : Path) (w : World) : World := w.say (.info ("deleting anonymous script file: " ++ p.toText))

theorem notes_announced (p : Path) (w : World) : Notes w (announced p w) := World.notes_say w _

theorem notes_concluded (p : Path) (w : World) : Notes w (concluded p w) := World.notes_say w _

theorem during_final {α : Type} {use : Path → Action α} (h : create body directory pid w = .ok p w₂) :
    final (during body directory pid use w) = final (delete p (concluded p (final (use p (announced p w₂))))) := by
  rw [during, bind_of_ok h, andFinally_final]
  rfl

/-- The path of a script is an absolute path in the script directory, at which nothing was. -/
theorem create_path (habs : w.files.cwd.isAbsolute = true) (h : create body directory pid w = .ok p w₂) :
    p.isAbsolute = true ∧ isTaken w p = false ∧ ∃ n, p = (w.files.absolute directory).child (fileName pid n) := by
  obtain ⟨w₁, n, place, hfurnishes, rfl, hlocate, hnone, -, -⟩ := create_made habs h
  refine ⟨Files.absolute_isAbsolute habs directory, ?_, n, rfl⟩
  have hgrows : w.files.tree.Grows w₁.files.tree := Files.Furnished.grows hfurnishes.node
  unfold isTaken
  split
  · rename_i q hq
    have hq' := Files.locate_grows hgrows hq
    have hfiles : { w.files with tree := w₁.files.tree } = w₁.files := by
      rw [hfurnishes.rest]
      rfl
    rw [hfiles, hlocate] at hq'
    cases hq'
    rw [hgrows.none_of_none hnone]
    rfl
  · rfl

theorem create_logPlace (habs : w.files.cwd.isAbsolute = true) (h : create body directory pid w = .ok p w₂) :
    w₂.logPlace = w.logPlace := by
  obtain ⟨w₁, n, place, hfurnishes, -, -, -, -, rfl⟩ := create_made habs h
  rw [hfurnishes.rest]
  rfl

/-- The program that is started as a script is its file. -/
theorem program?_script (hcwd : w.files.cwd.Proper) (habs : w.files.cwd.isAbsolute = true) (hdir : directory.Proper)
    {n : Nat} (hp : p = (w.files.absolute directory).child (fileName pid n)) (hlocate : t.locate p = .ok place)
    {content : List UInt8} {mode : Nat} (hnode : t.node? place = some (.file content mode)) :
    Command.program? t [p.toText] = some (content, mode) := by
  subst hp
  have hname := isOwnName_fileName pid n
  have habsolute := Files.absolute_isAbsolute habs directory
  have hproper : ((w.files.absolute directory).child (fileName pid n)).Proper := by
    intro name hmem
    rcases List.mem_append.mp hmem with hmem | hmem
    · exact (hcwd.join hdir).collapse name hmem
    · rw [List.mem_singleton.mp hmem]
      exact ⟨hname.ne_nil, hname.ne_dot, slash_not_mem_fileName pid n⟩
  simp only [Command.program?, Path.ofText_toText hproper habsolute, Tree.stat_child hname hlocate hnode (by simp)]
  exact if_pos habsolute

/-- However the use of a script ends, its file is taken away and all the rest is left as it is. -/
theorem during_life {α : Type} (use : Path → Action α) (habs : w.files.cwd.isAbsolute = true) (hw : w.Logs)
    (hcreate : create body directory pid w = .ok p w₂)
    (huse : Undergoes changes (announced p w₂) (final (use p (announced p w₂)))) :
    ∃ place t, Found w.files w.logPlace directory body p place t ∧ w₂.files.tree.Agrees w.logPlace t ∧
      (∀ q, (final (during body directory pid use w)).logPlace = some q → w.logPlace = some q) ∧
      (Stays p place (changes.foldl Change.apply t) → w.files.Allows p changes →
        Gone w.logPlace p place (changes.foldl Change.apply t) (final (during body directory pid use w)).files.tree ∧
        (final (during body directory pid use w)).Logs) := by
  obtain ⟨w₁, n, place, hfurnishes, hp, hlocate, hnone, hallowed, hw₂⟩ := create_made habs hcreate
  have hrest := hfurnishes.rest
  have htree : w₂.files.tree = w₁.files.tree.set place (.file (Utf8.encode (content body)) mode) := by
    rw [hw₂]
    rfl
  have hlogPlace : w₂.logPlace = w.logPlace := by
    rw [hw₂, hrest]
    rfl
  have hjoin : w₁.files.cwd.join p = p := by
    rw [Path.join, if_pos]
    rw [hp]
    exact Files.absolute_isAbsolute habs directory
  have hplace := Files.locate_eq_ok hlocate
  rw [hjoin] at hplace
  -- What the use finds and leaves, up to the notices before and after it.
  have hused := ((notes_announced p w₂).trans_undergoes huse).trans_notes (notes_concluded p _)
  obtain ⟨t, hfound, hdone⟩ := hused.found
  have hlost := hused.logPlace
  have hfiles := hused.rest
  rw [hlogPlace] at hfound hdone hlost
  have hthere : Found w.files w.logPlace directory body p place t :=
    ⟨w.files.tree, w₁.files.tree, .refl _ _, hfurnishes.node, hplace, hnone, htree ▸ hfound⟩
  refine ⟨place, t, hthere, hfound, fun q hq => ?_, fun hstays hallows => ?_⟩
  · rw [during_final hcreate, delete_logPlace] at hq
    exact hlost q hq
  · rw [during_final hcreate]
    have hlogs : w₂.Logs := by
      refine hw.grows hlogPlace ?_
      rw [htree]
      exact (Files.Furnished.grows hfurnishes.node).trans (Tree.Grows.set hnone _)
    -- The rights with which the file was made are those with which it is taken away.
    have hmade : w₂.files = { w.files with tree := w₂.files.tree } := by
      rw [hw₂, hrest]
      rfl
    have hallows' : w₂.files.Allows p changes := by
      rw [hmade]
      exact hallows
    have hreach : w₂.files.reach p = .ok p := by
      obtain ⟨q, hq⟩ := Files.exists_reach_of_locate hlocate
      have hqp := Files.reach_eq_ok hq
      rw [hjoin] at hqp
      rw [hw₂]
      exact hqp ▸ hq
    have hdenied : w₂.files.isDenied p = false := by
      rw [hw₂]
      exact hallowed
    have hreach' := hallows'.reach hreach (concluded p (final (use p (announced p w₂)))).files.tree
    have hdenied' := hallows'.isDenied hdenied (concluded p (final (use p (announced p w₂)))).files.tree
    rw [← hfiles] at hreach' hdenied'
    exact ⟨delete_gone hreach' hdenied' hstays hthere.ne_nil hdone,
      delete_logs hreach' hdenied' (hstays.like hdone.like) (fun hsame => hthere.apart hw (hlost place hsame))
        (hused.logs hlogs)⟩

end Runbook.Script
