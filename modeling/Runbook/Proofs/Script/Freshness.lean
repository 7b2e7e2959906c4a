import Runbook.Proofs.Path.Written
import Runbook.Proofs.Script
import Runbook.Proofs.Tree.Growth

/-! # Fresh script files

Making the file of a script makes the directories that are missing on the way to the script directory, and nothing else
(`furnishes_makeDirectories`), and then a file in it under a name that was free (`create_made`): more names are tried than
there are things in the tree. -/

namespace Runbook

open Effect

variable {w w' w'' : World} {files : Files} {directory p : Path} {place : Place} {pid : Int} {body : Text} {tries n m : Nat}

/-- The path that goes through the first names of a path only. -/
def Path.take (p : Path) (n : Nat) : Path := { p with names := p.names.take n }

theorem Path.take_length (p : Path) : p.take p.names.length = p := by
  rw [take, List.take_length]

theorem Path.parent_take (p : Path) (n : Nat) : ∃ m, (p.take n).parent = p.take m := by
  refine ⟨min ((p.take n).names.length - 1) n, ?_⟩
  show Path.mk p.anchor (p.names.take n).dropLast = _
  rw [List.dropLast_eq_take, List.take_take]
  rfl

namespace Files

theorem absolute_isAbsolute (h : files.cwd.isAbsolute = true) (p : Path) : (files.absolute p).isAbsolute = true :=
  Path.join_isAbsolute h p

theorem locate_eq_ok (h : files.locate p = .ok place) : files.tree.locate (files.cwd.join p) = .ok place := by
  unfold locate at h
  cases hreach : files.reach p with
  | error e =>
    rw [hreach] at h
    cases h
  | ok q =>
    rw [hreach] at h
    rwa [reach_eq_ok hreach] at h

theorem locate_grows {tree : Tree} (h : files.tree.Grows tree) (hlocate : files.locate p = .ok place) :
    { files with tree }.locate p = .ok place := by
  unfold locate at hlocate ⊢
  have hreach : { files with tree }.reach p = files.reach p := rfl
  rw [hreach]
  cases hq : files.reach p with
  | error e =>
    rw [hq] at hlocate
    cases hlocate
  | ok q =>
    rw [hq] at hlocate
    exact h.locate hlocate

/-- A path goes through a place: one that goes through the first of its names only names it. -/
def GoesThrough (files : Files) (p : Path) (place : Place) : Prop := ∃ n, files.locate (p.take n) = .ok place

theorem GoesThrough.grows {tree : Tree} (h : files.tree.Grows tree) (hp : files.GoesThrough p place) :
    { files with tree }.GoesThrough p place := by
  obtain ⟨n, hn⟩ := hp
  exact ⟨n, locate_grows h hn⟩

/-- In another tree stands the same thing at a place, or a directory that a path goes through if nothing stood there. -/
def Furnished (files : Files) (p : Path) (tree : Tree) (place : Place) : Prop :=
  tree.node? place = files.tree.node? place ∨ (files.tree.node? place = none ∧ tree.node? place = some .directory ∧
    { files with tree }.GoesThrough p place)

theorem Furnished.grows {tree : Tree} (h : ∀ place, files.Furnished p tree place) : files.tree.Grows tree := by
  intro place node hnode
  rcases h place with heq | ⟨hnone, -⟩
  · rw [heq, hnode]
  · rw [hnode] at hnone
    cases hnone

theorem Furnished.trans {tree tree' : Tree} (h : ∀ place, files.Furnished p tree place)
    (h' : ∀ place, { files with tree }.Furnished p tree' place) (place : Place) : files.Furnished p tree' place := by
  have hgrows : tree.Grows tree' := Furnished.grows h'
  rcases h' place with heq' | ⟨hnone', hdir', hway'⟩
  · rcases h place with heq | ⟨hnone, hdir, hway⟩
    · exact Or.inl (heq'.trans heq)
    · have hway' := hway.grows hgrows
      exact Or.inr ⟨hnone, heq'.trans hdir, hway'⟩
  · exact Or.inr ⟨(Furnished.grows h).none_of_none hnone', hdir', hway'⟩

/-- What the log holds makes no difference anywhere else. -/
theorem Furnished.agrees {tree tree' : Tree} {log : Option Place} (h : files.Furnished p tree place)
    (hagrees : tree.Agrees log tree') (hlog : log ≠ some place) : files.Furnished p tree' place := by
  rcases h with heq | ⟨hnone, hdir, n, hlocate⟩
  · exact Or.inl ((hagrees.node place hlog).trans heq)
  · refine Or.inr ⟨hnone, (hagrees.node place hlog).trans hdir, n, ?_⟩
    have hlike : Like { files with tree } { files with tree := tree' } := ⟨hagrees.like, rfl, rfl, rfl, rfl⟩
    rw [hlike.locate_eq]
    exact hlocate

theorem Furnished.of_agrees {before tree : Tree} {log : Option Place}
    (h : { files with tree := before }.Furnished p tree place) (hagrees : files.tree.Agrees log before)
    (hlog : log ≠ some place) : files.Furnished p tree place := by
  have hnode := hagrees.node place hlog
  exact h.imp (fun heq => heq.trans hnode) fun hnew => ⟨hnode ▸ hnew.1, hnew.2⟩

/-- What a directory is made at, and what it makes of the files. -/
theorem makeDirectory_place {files' : Files} (h : files.makeDirectory p = .ok files') :
    ∃ place, files.locate p = .ok place ∧ files.tree.node? place = none ∧
      files' = { files with tree := files.tree.set place .directory } := by
  unfold makeDirectory at h
  cases hreach : files.reach p with
  | error e =>
    rw [hreach] at h
    cases h
  | ok q =>
    simp only [hreach] at h
    split at h
    · split at h <;> cases h
    · unfold Tree.makeDirectory at h
      cases hlocate : files.tree.locate q with
      | error e =>
        rw [hlocate] at h
        cases h
      | ok place =>
        simp only [hlocate] at h
        split at h
        · cases h
        · rename_i hnone
          cases h
          exact ⟨place, by rw [locate, hreach]; exact hlocate, by simpa using hnone, rfl⟩

end Files

namespace World

/-- Between the worlds, directories that a path goes through have been made where nothing stood, and nothing else has
    happened. -/
structure Furnishes (p : Path) (w w' : World) : Prop where
  rest : w' = w.withTree w'.files.tree
  node : ∀ place, w.files.Furnished p w'.files.tree place

instance : Frame (Furnishes p) where
  refl _ := ⟨rfl, fun _ => Or.inl rfl⟩
  trans {w w' w''} h h' := by
    have hnode := h'.node
    rw [h.rest] at hnode
    refine ⟨?_, Files.Furnished.trans h.node hnode⟩
    rw [h'.rest, h.rest]
    rfl

end World

namespace Action

open World

theorem furnishes_makeDirectoryOr {missing : Action Unit} (hmissing : Leads (Furnishes p) missing) (n : Nat) :
    Leads (Furnishes p) (makeDirectoryOr missing (p.take n)) := by
  refine Leads.get_bind fun w => ?_
  cases hmake : w.files.makeDirectory (p.take n) with
  | ok files =>
    obtain ⟨place, hlocate, hnone, rfl⟩ := Files.makeDirectory_place hmake
    have hne : place ≠ [] := by
      rintro rfl
      cases hnone
    refine ⟨rfl, fun q => ?_⟩
    show (w.files.tree.set place .directory).node? q = _ ∨ _ ∧ (w.files.tree.set place .directory).node? q = _ ∧ _
    by_cases hq : q = place
    · subst hq
      refine Or.inr ⟨hnone, ?_, n, Files.locate_grows (.set hnone _) hlocate⟩
      rw [Tree.node?_set _ _ _ _ hne, if_pos rfl]
    · refine Or.inl ?_
      cases q with
      | nil => rfl
      | cons name rest => rw [Tree.node?_set _ _ _ _ (List.cons_ne_nil _ _), if_neg hq]
  | error e =>
    have hpresent : Leads (Furnishes p) (do
        if !(← orFault (p.take n) ((← get).files.isDirectory (p.take n))) then
          throw (.file e (p.take n).toText) : Action Unit) := by
      refine Leads.get_bind fun w => ?_
      refine Leads.bind (fun w => ?_) (fun there => ?_) w
      · rw [orFault_final]
        exact Frame.refl w
      · split
        · exact .throw _
        · exact .pure _
    cases e with
    | missing => exact hmissing w
    | «exists» => exact hpresent w
    | notDirectory => exact hpresent w
    | isDirectory => exact hpresent w
    | denied => exact hpresent w
    | nameTooLong => exact hpresent w
    | linkLoop => exact hpresent w

theorem furnishes_makeDirectories (p : Path) (depth n : Nat) : Leads (Furnishes p) (makeDirectories depth (p.take n)) := by
  induction depth generalizing n with
  | zero => exact furnishes_makeDirectoryOr (.throw _) n
  | succ depth ih =>
    refine furnishes_makeDirectoryOr ?_ n
    split
    · exact .throw _
    · obtain ⟨m, hparent⟩ := p.parent_take n
      rw [hparent]
      exact Leads.bind (ih m) fun _ => furnishes_makeDirectoryOr (.throw _) n

end Action

namespace Script

open World

/-! ### Names -/

theorem ofNat_injective (h : Text.ofNat m = Text.ofNat n) : m = n := by
  have hread := congrArg (fun digits => Nat.ofDigitChars 10 digits 0) h
  simpa [Text.ofNat] using hread

theorem fileName_injective (h : fileName pid m = fileName pid n) : m = n :=
  ofNat_injective (List.append_cancel_left (List.append_cancel_right h))

theorem dash_mem_fileName (pid : Int) (n : Nat) : '-' ∈ fileName pid n := by
  simp [fileName]

theorem slash_not_mem_fileName (pid : Int) (n : Nat) : '/' ∉ fileName pid n := by
  have hdigits : ∀ n, '/' ∉ Text.ofNat n := fun n hmem => by
    have hdigit := Nat.isDigit_of_mem_toDigits (by decide) (by decide) hmem
    revert hdigit
    decide
  have hpid : '/' ∉ Text.ofInt pid := by
    cases pid with
    | ofNat n => exact hdigits n
    | negSucc n => simpa [Text.ofInt] using hdigits (n + 1)
  simp [fileName, hdigits, hpid]

theorem isOwnName_fileName (pid : Int) (n : Nat) : Tree.IsOwnName (fileName pid n) := by
  have hne : ∀ name : Text, '-' ∉ name → fileName pid n ≠ name := fun name hname heq =>
    hname (heq ▸ dash_mem_fileName pid n)
  exact ⟨hne _ (by decide), hne _ (by decide), hne _ (by decide)⟩

/-! ### Free names -/

theorem next_final (directory : Path) (pid : Int) (w : World) :
    final (freshPath.next directory pid w) = { w with tried := w.tried + 1 } := by
  simp only [freshPath.next, get_bind_apply]
  split <;> rfl

theorem next_eq_ok (h : freshPath.next directory pid w = .ok p w') :
    p = directory.child (fileName pid (w.tried + 1)) ∧ w' = { w with tried := w.tried + 1 } ∧
      w.files.isDenied p = false := by
  simp only [freshPath.next, get_bind_apply] at h
  split at h
  · cases h
  · rename_i hallowed
    cases h
    exact ⟨rfl, rfl, by simpa using hallowed⟩

theorem freshPath_final (directory : Path) (pid : Int) (tries : Nat) (w : World) :
    ∃ n, final (freshPath directory pid tries w) = { w with tried := n } := by
  induction tries generalizing w with
  | zero => exact ⟨_, next_final directory pid w⟩
  | succ tries ih =>
    rw [freshPath]
    cases hnext : freshPath.next directory pid w with
    | error e w₁ =>
      rw [bind_of_error hnext]
      exact ⟨_, hnext ▸ next_final directory pid w⟩
    | ok p w₁ =>
      obtain ⟨rfl, rfl, -⟩ := next_eq_ok hnext
      rw [bind_of_ok hnext, get_bind_apply]
      split
      · obtain ⟨n, hn⟩ := ih { w with tried := w.tried + 1 }
        exact ⟨n, hn⟩
      · exact ⟨_, rfl⟩

/-- The name that is found is the first that is not taken, or the last that is tried, and it is not denied. -/
theorem freshPath_eq_ok (h : freshPath directory pid tries w = .ok p w') : ∃ n,
    p = directory.child (fileName pid n) ∧ w' = { w with tried := n } ∧ w.files.isDenied p = false ∧
      (∀ m, w.tried < m → m < n → isTaken w (directory.child (fileName pid m)) = true) ∧
      (isTaken w p = true → n = w.tried + tries + 1) := by
  induction tries generalizing w with
  | zero =>
    obtain ⟨rfl, rfl, hallowed⟩ := next_eq_ok h
    exact ⟨_, rfl, rfl, hallowed, fun m _ _ => by omega, fun _ => rfl⟩
  | succ tries ih =>
    obtain ⟨q, w₁, hnext, h⟩ := bind_eq_ok h
    obtain ⟨rfl, rfl, hallowed⟩ := next_eq_ok hnext
    rw [get_bind_apply] at h
    split at h
    · rename_i htaken
      obtain ⟨n, rfl, rfl, hallowed, hbefore, hlast⟩ := ih h
      refine ⟨n, rfl, rfl, hallowed, fun m hm hmn => ?_, fun hp => ?_⟩
      · by_cases hnew : m = w.tried + 1
        · exact hnew ▸ htaken
        · exact hbefore m (Nat.lt_of_le_of_ne hm (Ne.symm hnew)) hmn
      · rw [hlast hp]
        show w.tried + 1 + tries + 1 = _
        omega
    · rename_i hfree
      cases h
      exact ⟨_, rfl, rfl, hallowed, fun m _ _ => by omega, fun hp => absurd hp hfree⟩

theorem isTaken_child (habs : directory.isAbsolute = true) (h : isTaken w (directory.child (fileName pid n)) = true) :
    ∃ above, w.files.tree.directory [] directory.names = .ok above ∧
      above ++ [fileName pid n] ∈ w.files.tree.entries.map Prod.fst := by
  unfold isTaken at h
  split at h
  · rename_i place hlocate
    have hjoin : w.files.cwd.join (directory.child (fileName pid n)) = directory.child (fileName pid n) := by
      rw [Path.join, if_pos (show (directory.child (fileName pid n)).isAbsolute = true from habs)]
    have hplace := Files.locate_eq_ok hlocate
    rw [hjoin, Tree.locate_child_eq_ok_iff (isOwnName_fileName pid n).ne_dots] at hplace
    obtain ⟨-, above, hdir, rfl⟩ := hplace
    refine ⟨above, hdir, ?_⟩
    obtain ⟨node, hnode⟩ := Option.isSome_iff_exists.mp h
    rw [Tree.node?_of_ne_nil (by simp)] at hnode
    exact List.mem_map.mpr ⟨_, mem_of_lookup hnode, rfl⟩
  · cases h

/-- If as many names are tried as there are things in the tree, the name that is found is free. -/
theorem freshPath_free (habs : directory.isAbsolute = true)
    (h : freshPath directory pid w.files.tree.entries.length w = .ok p w') : isTaken w p = false := by
  obtain ⟨n, rfl, -, -, hbefore, hlast⟩ := freshPath_eq_ok h
  by_contra htaken
  rw [Bool.not_eq_false] at htaken
  have hn := hlast htaken
  -- Else all names that have been tried are those of different things in the script directory.
  obtain ⟨above, hdir, -⟩ := isTaken_child habs htaken
  let tried := (List.range (w.files.tree.entries.length + 1)).map fun i => above ++ [fileName pid (w.tried + 1 + i)]
  have hnodup : tried.Nodup := by
    refine List.Nodup.map (fun i j hij => ?_) List.nodup_range
    have := fileName_injective (List.singleton_inj.mp (List.append_cancel_left hij))
    omega
  have hsubset : tried ⊆ w.files.tree.entries.map Prod.fst := by
    intro place hplace
    obtain ⟨i, hi, rfl⟩ := List.mem_map.mp hplace
    rw [List.mem_range] at hi
    have htaken' : isTaken w (directory.child (fileName pid (w.tried + 1 + i))) = true := by
      by_cases hend : w.tried + 1 + i = n
      · rwa [hend]
      · exact hbefore _ (by omega) (by omega)
    obtain ⟨above', hdir', hmem⟩ := isTaken_child habs htaken'
    rw [hdir] at hdir'
    cases hdir'
    exact hmem
  have hle := hnodup.length_le_of_subset hsubset
  simp only [tried, List.length_map, List.length_range] at hle
  omega

/-! ### Files -/

/-- A file that is made is at a path in the script directory that named a free place, once the directory was there, and
    is not denied. -/
theorem create_made (habs : w.files.cwd.isAbsolute = true) (h : create body directory pid w = .ok p w') :
    ∃ w₁ n place, Furnishes directory w w₁ ∧ p = (w.files.absolute directory).child (fileName pid n) ∧
      w₁.files.locate p = .ok place ∧ w₁.files.tree.node? place = none ∧ w₁.files.isDenied p = false ∧
      w' = { w₁ with tried := n }.withTree (w₁.files.tree.set place (.file (Utf8.encode (content body)) mode)) := by
  unfold create at h
  split at h
  · cases h
  · obtain ⟨_, w₁, hmake, h⟩ := bind_eq_ok h
    rw [get_bind_apply] at h
    obtain ⟨q, w₂, hfresh, h⟩ := bind_eq_ok h
    rw [get_bind_apply] at h
    have hfurnishes : Furnishes directory w w₁ := by
      have hleads := Action.furnishes_makeDirectories directory (directory.names.length + 1) directory.names.length
      rw [Path.take_length] at hleads
      exact hleads.ok hmake
    have hcwd : w₁.files.cwd = w.files.cwd := by rw [hfurnishes.rest]; rfl
    have habsolute : w₁.files.absolute directory = w.files.absolute directory := by
      rw [Files.absolute, Files.absolute, hcwd]
    have hfree : isTaken w₁ q = false := by
      exact freshPath_free (Files.absolute_isAbsolute (hcwd ▸ habs) directory) hfresh
    obtain ⟨n, rfl, rfl, hallowed, -⟩ := freshPath_eq_ok hfresh
    cases hlocate : w₁.files.locate ((w₁.files.absolute directory).child (fileName pid n)) with
    | error e =>
      simp only [hlocate] at h
      cases h
    | ok place =>
      simp only [hlocate] at h
      cases h
      rw [isTaken, hlocate] at hfree
      exact ⟨w₁, n, place, hfurnishes, by rw [habsolute], hlocate, by simpa using hfree, hallowed, rfl⟩

/-- If no file is made, directories may have been. -/
theorem create_failed {e : Fault} (h : create body directory pid w = .error e w') :
    ∃ w₁ n, Furnishes directory w w₁ ∧ w' = { w₁ with tried := n } := by
  unfold create at h
  split at h
  · cases h
    exact ⟨w, w.tried, Frame.refl w, rfl⟩
  · have hleads := Action.furnishes_makeDirectories directory (directory.names.length + 1) directory.names.length
    rw [Path.take_length] at hleads
    rcases bind_eq_error h with hmake | ⟨_, w₁, hmake, h⟩
    · exact ⟨w', w'.tried, hleads.error hmake, rfl⟩
    · have hfurnishes := hleads.ok hmake
      rw [get_bind_apply] at h
      obtain ⟨n, hn⟩ := freshPath_final (w₁.files.absolute directory) pid w₁.files.tree.entries.length w₁
      rcases bind_eq_error h with hfresh | ⟨q, w₂, hfresh, h⟩
      · rw [hfresh] at hn
        exact ⟨w₁, n, hfurnishes, hn⟩
      · rw [hfresh] at hn
        rw [get_bind_apply] at h
        cases hlocate : w₂.files.locate q with
        | error e =>
          rw [hlocate] at h
          cases h
          exact ⟨w₁, n, hfurnishes, hn⟩
        | ok place =>
          rw [hlocate] at h
          cases h

end Script

end Runbook
