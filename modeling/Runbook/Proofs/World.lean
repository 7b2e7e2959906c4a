import Runbook.Proofs.Effect
import Runbook.Proofs.Path.Resolution
import Runbook.Session

/-! # What actions change in the world

Saying something changes nothing but what has been written (`World.Says`). Whatever an action does, it makes no link and
does not move the process; `World.Starts` says this together with which children it starts. -/

namespace Runbook

open Effect

variable {w w' w'' : World} {new new' : List Start}

/-- What the user asked to see with a notice, if it is such a notice. -/
def Notice.echo? : Notice → Option Text
  | .echo message => some message
  | _ => none

/-- Nothing has changed between the worlds but what has been written. -/
structure World.Says (w w' : World) : Prop where
  files : w.files.Like w'.files
  env : w'.env = w.env
  host : w'.host = w.host
  children : w'.children = w.children
  clock : w'.clock = w.clock
  tried : w'.tried = w.tried
  starts : w'.starts = w.starts
  verbosity : w'.verbosity = w.verbosity

/-- Between the worlds some children have been started; no link has been made, and the process is where it was. -/
structure World.Starts (new : List Start) (w w' : World) : Prop where
  starts : w'.starts = w.starts ++ new
  children : w'.children = w.children.drop new.length
  links : w.files.tree.NoNewLinks w'.files.tree
  cwd : w'.files.cwd = w.files.cwd
  homes : w'.files.homes = w.files.homes

namespace World

theorem Says.trans (h : Says w w') (h' : Says w' w'') : Says w w'' where
  files := h.files.trans h'.files
  env := h'.env.trans h.env
  host := h'.host.trans h.host
  children := h'.children.trans h.children
  clock := h'.clock.trans h.clock
  tried := h'.tried.trans h.tried
  starts := h'.starts.trans h.starts
  verbosity := h'.verbosity.trans h.verbosity

instance : Frame Says where
  refl _ := ⟨.refl _, rfl, rfl, rfl, rfl, rfl, rfl, rfl⟩
  trans := Says.trans

theorem Starts.trans (h : Starts new w w') (h' : Starts new' w' w'') : Starts (new ++ new') w w'' where
  starts := by rw [h'.starts, h.starts, List.append_assoc]
  children := by rw [h'.children, h.children, List.drop_drop, List.length_append]
  links := h.links.trans h'.links
  cwd := h'.cwd.trans h.cwd
  homes := h'.homes.trans h.homes

instance : Frame (Starts []) where
  refl _ := ⟨(List.append_nil _).symm, rfl, .refl _, rfl, rfl⟩
  trans h h' := h.trans h'

theorem Starts.trans_nil (h : Starts new w w') (h' : Starts [] w' w'') : Starts new w w'' := by
  simpa using h.trans h'

theorem Says.starts_nil (h : Says w w') : Starts [] w w' where
  starts := by rw [h.starts, List.append_nil]
  children := h.children
  links := h.files.tree.noNewLinks
  cwd := h.files.cwd
  homes := h.files.homes

theorem Starts.lacks {c : Char} (h : Starts new w w') (hw : w.files.Lacks c) : w'.files.Lacks c where
  links place target hlink := hw.links place target (h.links place target hlink)
  cwd := h.cwd ▸ hw.cwd

/-! ### Saying -/

theorem says_write (w : World) (e : Event) : Says w (w.write e) := by
  unfold write
  cases w.tee with
  | none => exact ⟨.refl _, rfl, rfl, rfl, rfl, rfl, rfl, rfl⟩
  | some journal => exact ⟨⟨.journal _ _ _, rfl, rfl, rfl, rfl⟩, rfl, rfl, rfl, rfl, rfl, rfl, rfl⟩

theorem says_say (w : World) (n : Notice) : Says w (w.say n) := by
  unfold say
  generalize n.events w.verbosity = events
  induction events generalizing w with
  | nil => exact Frame.refl w
  | cons e events ih => exact (says_write w e).trans (ih (w.write e))

/-- A frame that bears that something is said. -/
class Bears (R : World → World → Prop) : Prop extends Frame R where
  say (w : World) (n : Notice) : R w (w.say n)

/-- A frame that bears that something is said which the user did not ask to see. -/
class BearsTelling (R : World → World → Prop) : Prop extends Frame R where
  tell (w : World) {n : Notice} (h : n.echo? = none) : R w (w.say n)

/-- A frame that bears that something that is no link is put into the tree or taken away from it, and that a name is
    counted. -/
class BearsFiles (R : World → World → Prop) : Prop extends Frame R where
  tree (w : World) {tree : Tree} (h : w.files.tree.NoNewLinks tree) : R w (w.withTree tree)
  count (w : World) (n : Nat) : R w { w with tried := n }

instance {R : World → World → Prop} [Bears R] : BearsTelling R := ⟨fun w n _ => Bears.say w n⟩

instance : Bears Says := ⟨says_say⟩

instance : Bears (Starts []) := ⟨fun w n => (says_say w n).starts_nil⟩

instance : BearsFiles (Starts []) where
  tree _ _ h := ⟨(List.append_nil _).symm, rfl, h, rfl, rfl⟩
  count _ _ := ⟨(List.append_nil _).symm, rfl, .refl _, rfl, rfl⟩

end World

namespace Action

open World

variable {R : World → World → Prop}

theorem leads_say [Bears R] (n : Notice) : Leads R (say n) := .modify fun w => Bears.say w n

theorem leads_inform [BearsTelling R] (message : Text) : Leads R (inform message) :=
  .modify fun w => BearsTelling.tell w rfl

theorem inform_bind {α : Type} (message : Text) (f : Unit → Action α) (w : World) :
    (inform message >>= f) w = f () (w.say (.info message)) := rfl

/-- What does nothing but look does not change the world. -/
theorem orFault_final {α : Type} (p : Path) (x : Except FileError α) (w : World) : final (orFault p x w) = w := by
  cases x <;> rfl

theorem leads_orFault [Frame R] {α : Type} (p : Path) (x : Except FileError α) : Leads R (orFault p x) := by
  intro w
  rw [orFault_final]
  exact Frame.refl w

theorem leads_expandHome [Frame R] (p : Path) : Leads R (expandHome p) := by
  refine Leads.get_bind fun w => ?_
  cases w.files.homes.expand? p <;> exact Frame.refl w

theorem expandHome_apply (p : Path) (w : World) : expandHome p w =
    match w.files.homes.expand? p with
    | some q => .ok q w
    | none => .error (homeFault w.files.homes p) w := by
  rw [expandHome, get_bind_apply]
  cases w.files.homes.expand? p <;> rfl

theorem expandHome_eq_ok {p q : Path} (h : expandHome p w = .ok q w') :
    w.files.homes.expand? p = some q ∧ w' = w := by
  rw [expandHome_apply] at h
  cases hexpand : w.files.homes.expand? p with
  | none =>
    rw [hexpand] at h
    cases h
  | some q =>
    rw [hexpand] at h
    cases h
    exact ⟨rfl, rfl⟩

/-- What is between the worlds of an action and those of what is done at last is between the first world and the last. -/
theorem final_andFinally {α : Type} {R R' : World → World → Prop} {act : Action α} {last : Action Unit}
    (hact : R w (final (act w))) (hlast : ∀ w, R' w (final (last w))) (h : ∀ {w' w''}, R w w' → R' w' w'' → R w w'') :
    R w (final (andFinally act last w)) := by
  unfold andFinally
  cases hrun : act w with
  | ok a w₁ =>
    rw [hrun] at hact
    have hrest := h hact (hlast w₁)
    cases hl : last w₁ <;> rw [hl] at hrest <;> simpa [hl] using hrest
  | error e w₁ =>
    rw [hrun] at hact
    have hrest := h hact (hlast w₁)
    cases hl : last w₁ <;> rw [hl] at hrest <;> simpa [hl] using hrest

theorem andFinally_eq_ok {α : Type} {act : Action α} {last : Action Unit} {a : α}
    (h : andFinally act last w = .ok a w') : ∃ w₁, act w = .ok a w₁ := by
  unfold andFinally at h
  cases hact : act w with
  | ok b w₁ =>
    simp only [hact] at h
    cases hl : last w₁ <;> rw [hl] at h <;> cases h
    exact ⟨w₁, rfl⟩
  | error e w₁ =>
    simp only [hact] at h
    cases hl : last w₁ <;> rw [hl] at h <;> cases h

theorem makeDirectory_eq_ok {files files' : Files} {p : Path} (h : files.makeDirectory p = .ok files') :
    ∃ tree, files.tree.NoNewLinks tree ∧ files' = { files with tree } := by
  unfold Files.makeDirectory at h
  split at h
  · cases h
  · split at h
    · split at h
      · cases h
      · cases h
    · rename_i q _ _
      cases hmake : files.tree.makeDirectory q with
      | error e =>
        rw [hmake] at h
        cases h
      | ok tree =>
        rw [hmake] at h
        cases h
        exact ⟨tree, .makeDirectory hmake, rfl⟩

section
variable [BearsFiles R]

theorem leads_makeDirectoryOr {missing : Action Unit} (hmissing : Leads R missing) (p : Path) :
    Leads R (makeDirectoryOr missing p) := by
  refine Leads.get_bind fun w => ?_
  cases hmake : w.files.makeDirectory p with
  | ok files =>
    obtain ⟨tree, htree, rfl⟩ := makeDirectory_eq_ok hmake
    exact BearsFiles.tree w htree
  | error e =>
    -- Whatever keeps the directory from being made, the only question left is whether there is one.
    have hpresent : Leads R (do
        if !(← orFault p ((← get).files.isDirectory p)) then throw (.file e p.toText) : Action Unit) := by
      refine Leads.get_bind fun w => ?_
      refine Leads.bind (leads_orFault p _) (fun there => ?_) w
      split
      · exact .throw _
      · exact .pure _
    cases e with
    | missing => exact hmissing w
    | «exists» | notDirectory | isDirectory | denied | nameTooLong | linkLoop => exact hpresent w

theorem leads_makeDirectories (depth : Nat) (p : Path) : Leads R (makeDirectories depth p) := by
  induction depth generalizing p with
  | zero => exact leads_makeDirectoryOr (.throw _) p
  | succ depth ih =>
    refine leads_makeDirectoryOr ?_ p
    split
    · exact .throw _
    · exact Leads.bind (ih p.parent) fun _ => leads_makeDirectoryOr (.throw _) p

end

theorem resolve_final (p : Path) (w : World) : final (resolve p w) = w := by
  unfold resolve
  split
  · rfl
  · simp only [get_bind_apply]
    cases w.files.resolve p with
    | ok q => rfl
    | error e => cases e <;> rfl

theorem leads_resolve [Frame R] (p : Path) : Leads R (resolve p) := by
  intro w
  rw [resolve_final]
  exact Frame.refl w

/-- A path that is resolved holds no U+0000. -/
theorem resolve_eq_ok {p q : Path} (h : resolve p w = .ok q w') : '\x00' ∉ p.toText ∧ w.files.resolve p = .ok q := by
  unfold resolve at h
  split at h
  · cases h
  · rename_i hnull
    simp only [get_bind_apply] at h
    cases hresolve : w.files.resolve p with
    | ok resolved =>
      rw [hresolve] at h
      cases h
      exact ⟨by simpa using hnull, rfl⟩
    | error e =>
      rw [hresolve] at h
      cases e <;> cases h

/-! ### Looking

What only looks at the files ends in the same way in worlds whose files are alike. -/

theorem steady_orFault {c : Comparison Fault World World} {α : Type} (p : Path) (x : Except FileError α) (w : World) :
    Steady c (orFault p x) w := by
  cases x with
  | error e => exact .throw _ w
  | ok a => exact .pure a w

section
variable {c : Comparison Fault World World} (hfiles : ∀ w w', c.states w w' → w.files.Like w'.files)
include hfiles

theorem steady_expandHome (p : Path) (w : World) : Steady c (expandHome p) w := by
  refine Follows.get_bind ?_ fun w' h => by rw [(hfiles w w' h).homes]
  dsimp only
  cases w.files.homes.expand? p with
  | none => exact .throw _ w
  | some q => exact .pure q w

theorem steady_resolve (p : Path) (w : World) : Steady c (resolve p) w := by
  unfold resolve
  refine Follows.guard (Follows.get_bind ?_ fun w' h => by rw [(hfiles w w' h).resolve_eq])
  cases w.files.resolve p with
  | ok q => exact .pure q w
  | error e =>
    cases e with
    | circle q => exact .throw _ w
    | tooDeep => exact .throw _ w

end

end Action

end Runbook
