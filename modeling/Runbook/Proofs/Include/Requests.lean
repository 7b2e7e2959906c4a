import Runbook.Proofs.Include.Still
import Runbook.Proofs.Tree.Linkless
import Mathlib.Logic.Relation

/-! # Requests for files

Reading a file asks for the files its include lines name, one after the other (`Request.Asks`). Without links the files
that are being read are different regular files, up to a second slash, so that the bound of the nesting is never met
(`Request.expand_eq`); what a file reads to is then made of what the files it asks for read to (`Request.read_eq`), and
a reading fails as one of the files it asks for does, or by itself (`Request.read_eq_error`, `Request.read_of_asks`). -/

namespace Runbook

open Effect Relation

/-- The fault does not come from how includes nest. -/
def Fault.IsPlain : Fault → Prop
  | .load (.cycle ..) | .includesTooDeep _ | .endless _ => False
  | _ => True

namespace Include

/-- A file that is to be read: the files that are being read, the line that includes it, its name and its path. -/
structure Request where
  stack : List Text
  includedAt : Option Line
  source : Text
  path : Path

namespace Request

variable {files : Files} {r r' : Request} {e : Fault} {line : Line} {target : Text}

/-- The absolute path of the file. -/
def here (files : Files) (r : Request) : Text := (files.absolute r.path).toText

/-- The request for the file that an include line of the file names. -/
def nested (files : Files) (r : Request) (line : Line) (target : Text) : Request :=
  ⟨r.stack ++ [r.here files], some line, target, Path.ofText target⟩

/-- What the file reads to. -/
def read (files : Files) (r : Request) : Reading Unit (List Line) :=
  expand (View.still files) (depth files) r.stack r.includedAt r.source r.path

/-- Where the reading of the file begins. -/
def start (files : Files) (r : Request) : Cursor := ⟨.ofFile r.source (r.here files), 1⟩

/-- The directory from which the include lines of the file are seen. -/
def base (files : Files) (r : Request) : Text := (files.absolute r.path).directory.toText

/-- How lines of the file are read. -/
def take (files : Files) (r : Request) : Cursor → List Text → Reading Unit (Cursor × List Line) :=
  readLines files.homes (r.base files) fun line target => (r.nested files line target).read files

/-- There is a file, which is not being read yet and may be opened. -/
structure Entered (files : Files) (r : Request) : Prop where
  isFile : files.isFile r.path = .ok true
  fresh : r.here files ∉ r.stack
  allowed : files.isDenied r.path = false

/-- Reading the file comes to an include line, all being well before it, and asks for the file that the line names. -/
inductive Asks (files : Files) : Request → Request → Prop
  | intro {r : Request} {before after : List Text} {raw target : Text} {lines : List Line} (hentered : r.Entered files)
      (hraws : (rawLines (files.content r.path)).1 = before ++ raw :: after)
      (hbefore : r.take files (r.start files) before () = .ok ((r.start files).passAll before, lines) ())
      (hincludes : ((r.start files).passAll before).Includes raw)
      (htarget : Include.target files.homes (r.base files) (((r.start files).passAll before).here raw) = .ok target) :
      Asks files r (r.nested files (((r.start files).passAll before).here raw) target)

/-- Different regular files are being read. -/
structure Fits (files : Files) (r : Request) : Prop where
  nodup : r.stack.Nodup
  opens : ∀ path ∈ r.stack, files.Opens path
  proper : r.path.Proper

theorem Fits.length_le (hr : r.Fits files) (h : files.Linkless) : r.stack.length ≤ 2 * files.tree.regular.length :=
  h.length_le_of_opens hr.nodup hr.opens

theorem Fits.nested (hr : r.Fits files) (hentered : r.Entered files) (line : Line) (target : Text) :
    (r.nested files line target).Fits files where
  nodup := by
    refine List.nodup_append.mpr ⟨hr.nodup, List.nodup_singleton _, ?_⟩
    rintro path hpath _ hhere rfl
    exact hentered.fresh (List.mem_singleton.mp hhere ▸ hpath)
  opens path hpath := by
    rcases List.mem_append.mp hpath with hpath | hpath
    · exact hr.opens path hpath
    · exact ⟨r.path, hr.proper, hentered.isFile, List.mem_singleton.mp hpath⟩
  proper := Path.proper_ofText target

theorem Fits.asks (hr : r.Fits files) (h : Asks files r r') : r'.Fits files := by
  cases h with
  | intro hentered => exact hr.nested hentered _ _

/-! ### The bound of the nesting -/

/-- Bounds that leave room for the files that are not being read yet make no difference. -/
theorem expand_eq (h : files.Linkless) (fuel fuel' : Nat) (hr : r.Fits files)
    (hfuel : 2 * files.tree.regular.length < fuel + r.stack.length)
    (hfuel' : 2 * files.tree.regular.length < fuel' + r.stack.length) :
    expand (View.still files) fuel r.stack r.includedAt r.source r.path =
      expand (View.still files) fuel' r.stack r.includedAt r.source r.path := by
  have hlength := hr.length_le h
  funext s
  induction fuel generalizing fuel' r s with
  | zero => omega
  | succ fuel ih =>
    obtain ⟨fuel', rfl⟩ : ∃ n, fuel' = n + 1 := ⟨fuel' - 1, by omega⟩
    rw [expand_still_succ, expand_still_succ]
    cases hfile : files.isFile r.path with
    | error e => rfl
    | ok there =>
      cases there with
      | false => rfl
      | true =>
        dsimp only
        by_cases hstack : r.here files ∈ r.stack
        · exact (if_pos hstack).trans (if_pos hstack).symm
        by_cases hdenied : files.isDenied r.path = true
        · rw [if_pos hdenied, if_pos hdenied]
        -- One more file is being read when a file is included, so the bounds still leave room for the others.
        have htake : takeWith (View.still files) fuel r.stack files r.path =
            takeWith (View.still files) fuel' r.stack files r.path := by
          unfold takeWith
          congr 1
          funext line target s
          have hr' := hr.nested ⟨hfile, hstack, by simpa using hdenied⟩ line target
          have hlength' : (r.nested files line target).stack.length = r.stack.length + 1 := List.length_append
          exact ih fuel' hr' (by omega) (by omega) (hr'.length_le h) s
        rw [htake]

theorem read_eq (hr : r.Fits files) (h : files.Linkless) : r.read files () =
    match files.isFile r.path with
    | .error e => .error (.file e r.path.toText) ()
    | .ok false => .error (.load (.missingFile r.source r.includedAt)) ()
    | .ok true =>
      if r.here files ∈ r.stack then .error (.load (.cycle (r.stack ++ [r.here files]) r.includedAt)) ()
      else if files.isDenied r.path then .error (.load (.unreadableFile r.source r.includedAt)) ()
      else readWhole (files.content r.path) (r.take files) (r.start files) () := by
  have hdepth := lt_depth files
  rw [read, expand_eq h (depth files) (depth files + 1) hr (by omega) (by omega)]
  exact expand_still_succ files (depth files) r.stack r.includedAt r.source r.path ()

/-! ### Faults -/

theorem isPlain_of_target {homes : Homes} {base : Text} (h : Include.target homes base line = .error e) :
    e.IsPlain := by
  unfold Include.target at h
  split at h
  · cases h
    trivial
  · split at h
    · cases h
      trivial
    · split at h <;> cases h
      trivial
  · cases h
    trivial

/-- A file whose lines do not read well has something wrong in it, or asks for a file that does not read well. -/
theorem readWhole_eq_error (hentered : r.Entered files)
    (he : readWhole (files.content r.path) (r.take files) (r.start files) () = .error e ()) :
    e.IsPlain ∨ ∃ r', Asks files r r' ∧ r'.read files () = .error e () := by
  rcases bind_eq_error he with htake | ⟨⟨c, lines⟩, _, -, hend⟩
  · obtain ⟨before, raw, after, lines, s, hraws, hbefore, hraw⟩ := readLines_eq_error htake
    obtain ⟨hincludes, htarget | ⟨target, htarget, hread⟩⟩ := readLine_eq_error hraw
    · exact Or.inl (isPlain_of_target htarget)
    · exact Or.inr ⟨_, .intro hentered hraws hbefore hincludes htarget, hread⟩
  · left
    cases hflaw : (rawLines (files.content r.path)).2 with
    | some flaw =>
      simp only [hflaw] at hend
      cases hend
      trivial
    | none =>
      simp only [hflaw] at hend
      rcases bind_eq_error hend with hfinish | ⟨more, _, -, hend⟩
      · unfold Cursor.finish at hfinish
        cases hblock : c.assembler.finish.2 <;> simp only [hblock] at hfinish <;> cases hfinish
        trivial
      · cases hend

theorem read_eq_error (hr : r.Fits files) (h : files.Linkless) (he : r.read files () = .error e ()) :
    (files.isFile r.path = .ok true ∧ r.here files ∈ r.stack ∧
      e = .load (.cycle (r.stack ++ [r.here files]) r.includedAt)) ∨
    e.IsPlain ∨ ∃ r', Asks files r r' ∧ r'.read files () = .error e () := by
  rw [read_eq hr h] at he
  cases hfile : files.isFile r.path with
  | error e' =>
    simp only [hfile] at he
    cases he
    exact Or.inr (Or.inl trivial)
  | ok there =>
    cases there with
    | false =>
      simp only [hfile] at he
      cases he
      exact Or.inr (Or.inl trivial)
    | true =>
      simp only [hfile] at he
      split at he
      · rename_i hstack
        cases he
        exact Or.inl ⟨rfl, hstack, rfl⟩
      · rename_i hstack
        split at he
        · cases he
          exact Or.inr (Or.inl trivial)
        · rename_i hdenied
          exact Or.inr (readWhole_eq_error ⟨hfile, hstack, by simpa using hdenied⟩ he)

theorem read_of_asks (hr : r.Fits files) (h : files.Linkless) (hasks : Asks files r r')
    (he : r'.read files () = .error e ()) : r.read files () = .error e () := by
  cases hasks with
  | intro hentered hraws hbefore hincludes htarget =>
    rename_i before after raw target lines
    -- The lines before the include line read well, so reading ends at this line.
    have hraw : readLine files.homes (r.base files) (fun line target => (r.nested files line target).read files)
        ((r.start files).passAll before) raw () = .error e () := by
      rw [readLine_eq, if_pos hincludes, htarget]
      exact bind_of_error he
    have htake : r.take files (r.start files) (rawLines (files.content r.path)).1 () = .error e () := by
      rw [hraws, take, readLines_append hbefore, readLines]
      exact bind_of_error (bind_of_error hraw)
    rw [read_eq hr h, hentered.isFile]
    dsimp only
    rw [if_neg hentered.fresh, if_neg (by simp [hentered.allowed]), readWhole, bind_of_error htake]

end Request

end Include

end Runbook
