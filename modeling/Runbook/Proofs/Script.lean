import Runbook.Proofs.World
import Runbook.Script

/-! # What running a script changes

Making the file of a script and taking it away starts nothing, so what is started while the file exists is what its use
starts (`starts_during`); a file that is made is at a path without U+0000. -/

namespace Runbook

namespace Script

open Effect World

section
variable {R : World → World → Prop} [BearsFiles R]

theorem leads_next (directory : Path) (pid : Int) : Leads R (freshPath.next directory pid) := by
  refine Leads.get_bind fun w => ?_
  dsimp only
  split
  · exact BearsFiles.count w _
  · exact BearsFiles.count w _

theorem leads_freshPath (directory : Path) (pid : Int) (tries : Nat) : Leads R (freshPath directory pid tries) := by
  induction tries with
  | zero => exact leads_next directory pid
  | succ tries ih =>
    refine Leads.bind (leads_next directory pid) fun p => Leads.get.bind fun w => ?_
    split
    · exact ih
    · exact .pure p

theorem leads_create (body : Text) (directory : Path) (pid : Int) : Leads R (create body directory pid) := by
  have hrest : Leads R (do
      Action.makeDirectories (directory.names.length + 1) directory
      let w ← get
      let p ← freshPath (w.files.absolute directory) pid w.files.tree.entries.length
      let w ← get
      let place ← Action.orFault p (w.files.locate p)
      set (w.withTree (w.files.tree.set place (.file (Utf8.encode (content body)) mode)))
      return p : Action Path) := by
    refine Leads.bind (Action.leads_makeDirectories _ _) fun _ => Leads.get.bind fun w =>
      Leads.bind (leads_freshPath _ _ _) fun p => Leads.get_bind fun w => ?_
    cases hlocate : w.files.locate p with
    | error e => exact Frame.refl w
    | ok place => exact BearsFiles.tree w (.set _ _ (by simp))
  unfold create
  split
  · exact Leads.bind (.throw _) fun _ => hrest
  · exact hrest

theorem leads_delete (p : Path) : Leads R (delete p) := by
  refine Leads.get_bind fun w => ?_
  cases hunlink : w.files.unlink p with
  | ok tree =>
    obtain ⟨q, -, hq, -⟩ := Files.unlink_eq_ok hunlink
    exact BearsFiles.tree w (.unlink hq)
  | error e => cases e <;> exact Frame.refl w

end

theorem isTaken_eq {w w' : World} (h : w.files.Like w'.files) (p : Path) : isTaken w' p = isTaken w p := by
  unfold isTaken
  rw [h.locate_eq]
  split
  · rename_i q _
    have hkind := congrArg Option.isSome (h.tree q)
    rwa [Option.isSome_map, Option.isSome_map] at hkind
  · rfl

theorem create_eq_ok {body : Text} {directory p : Path} {pid : Int} {w w' : World}
    (h : create body directory pid w = .ok p w') : ∃ (w₁ : World) (place : Place), w₁.files.locate p = .ok place ∧
      w' = w₁.withTree (w₁.files.tree.set place (.file (Utf8.encode (content body)) mode)) := by
  unfold create at h
  split at h
  · cases h
  · obtain ⟨_, w₁, -, h⟩ := bind_eq_ok h
    rw [get_bind_apply] at h
    obtain ⟨q, w₂, -, h⟩ := bind_eq_ok h
    rw [get_bind_apply] at h
    cases hlocate : w₂.files.locate q with
    | error e =>
      rw [hlocate] at h
      cases h
    | ok place =>
      rw [hlocate] at h
      cases h
      exact ⟨w₂, place, hlocate, rfl⟩

theorem create_not_mem {body : Text} {directory p : Path} {pid : Int} {w w' : World}
    (h : create body directory pid w = .ok p w') : '\x00' ∉ p.toText := by
  obtain ⟨w₁, place, hlocate, -⟩ := create_eq_ok h
  intro hnull
  rw [Files.locate, Files.reach, if_pos (by simpa using hnull)] at hlocate
  cases hlocate

section During
variable {α : Type} {body : Text} {directory p : Path} {pid : Int} {use : Path → Action α} {w w' w₁ : World}
  {new : List Start}

/-- The world in which a script file that has been made is used. -/
def announced (p : Path) (w : World) : World := w.say (.info ("creating anonymous script file: " ++ p.toText))

theorem says_announced (p : Path) (w : World) : Says w (announced p w) := says_say w _

/-- Without its file a script starts nothing. -/
theorem starts_during_of_error {e : Fault} (h : create body directory pid w = .error e w₁) :
    Starts [] w (final (during body directory pid use w)) := by
  rw [during, bind_of_error h]
  exact (leads_create body directory pid).error h

theorem starts_during (h : create body directory pid w = .ok p w₁)
    (huse : Starts new (announced p w₁) (final (use p (announced p w₁)))) :
    Starts new w (final (during body directory pid use w)) := by
  have hcreate : Starts [] w w₁ := (leads_create body directory pid).ok h
  have hcreated : Starts new w₁ (final ((do
      Action.inform ("creating anonymous script file: " ++ p.toText); use p : Action α) w₁)) := by
    rw [Action.inform_bind]
    exact (says_announced p w₁).starts_nil.trans huse
  rw [during, bind_of_ok h]
  have hdelete : Leads (Starts []) (do
      Action.inform ("deleting anonymous script file: " ++ p.toText); delete p : Action Unit) :=
    Leads.bind (Action.leads_inform _) fun _ => leads_delete p
  simpa using hcreate.trans (Action.final_andFinally hcreated hdelete Starts.trans_nil)

theorem during_eq_ok {a : α} (h : during body directory pid use w = .ok a w') :
    ∃ p w₁ w₂, create body directory pid w = .ok p w₁ ∧ use p (announced p w₁) = .ok a w₂ := by
  obtain ⟨p, w₁, hcreate, h⟩ := bind_eq_ok h
  obtain ⟨w₂, huse⟩ := Action.andFinally_eq_ok h
  exact ⟨p, w₁, w₂, hcreate, huse⟩

theorem leads_during {R : World → World → Prop} [BearsTelling R] [BearsFiles R]
    (huse : ∀ p, Leads R (use p)) (body : Text) (directory : Path) (pid : Int) :
    Leads R (during body directory pid use) := by
  refine Leads.bind (leads_create body directory pid) fun p w => ?_
  have huses := Leads.bind (R := R) (Action.leads_inform ("creating anonymous script file: " ++ p.toText)) fun _ => huse p
  have hdeletes := Leads.bind (R := R) (Action.leads_inform ("deleting anonymous script file: " ++ p.toText)) fun _ =>
    leads_delete p
  exact Action.final_andFinally (huses w) hdeletes Frame.trans

end During

end Script

end Runbook
