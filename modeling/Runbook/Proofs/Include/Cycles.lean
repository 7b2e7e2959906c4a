import Runbook.Proofs.Include.Logged
import Runbook.Proofs.Include.Requests
import Runbook.Rehearsal
import Mathlib.Data.List.Chain

/-! # Includes in a circle

Without links the files that are being read at any moment are different ones, so that reading ends (`exists_origin`). A
file that includes one that is being read is a fault (`read_of_reachable`), which carries the way that leads around the
circle, each step of it an include line outside of blocks (`Traced.isCircle`). Main statement: `Recipe.read_circle`. The
log is not to be read meanwhile, as it may come to include itself (`Recipe.read_circle_logged`). -/

namespace Runbook

open Effect Relation Include

/-- The line stands in the file with the absolute path, outside of blocks, and includes the target. -/
inductive Files.IncludesAt (files : Files) (path : Text) : Line → Text → Prop
  | intro {content : List UInt8} {mode : Nat} {before after : List Text} {raw source target : Text}
      (hfile : files.tree.node? (Path.ofText path).names = some (.file content mode))
      (hraws : (rawLines content).1 = before ++ raw :: after)
      (hincludes : ((Cursor.mk (.ofFile source path) 1).passAll before).Includes raw)
      (htarget : Include.target files.homes (Path.ofText path).directory.toText
        ⟨source, path, 1 + before.length, Text.trim raw, none⟩ = .ok target) :
      IncludesAt files path ⟨source, path, 1 + before.length, Text.trim raw, none⟩ target

/-- A file includes another one, both given by their absolute paths. -/
def Files.Includes (files : Files) (path path' : Text) : Prop :=
  ∃ line target, files.IncludesAt path line target ∧ path' = (files.absolute (Path.ofText target)).toText

namespace Include

/-- A way from a file along include lines that ends where it has been before, by way of `line` at the end. -/
structure IsCircle (files : Files) (root : Text) (chain : List Text) (line : Line) : Prop where
  head : chain.head? = some root
  links : chain.IsChain files.Includes
  distinct : chain.dropLast.Nodup
  closes : ∃ last, chain.getLast? = some last ∧ last ∈ chain.dropLast
  line : ∃ path target, chain.dropLast.getLast? = some path ∧ files.IncludesAt path line target ∧
    chain.getLast? = some (files.absolute (Path.ofText target)).toText

namespace Request

variable {files : Files} {r r' root : Request} {e : Fault} {line : Line} {target : Text}

/-- The request for a file while no other one is being read. -/
def first (source : Text) (p : Path) : Request := ⟨[], none, source, p⟩

theorem fits_first {p : Path} (hp : p.Proper) (source : Text) : (first source p).Fits files where
  nodup := List.nodup_nil
  opens _ hpath := by cases hpath
  proper := hp

/-! ### Where faults come from -/

theorem Asks.length (h : Asks files r r') : r'.stack.length = r.stack.length + 1 := by
  cases h
  exact List.length_append

theorem fits_of_reachable (hr : r.Fits files) (hreach : ReflTransGen (Asks files) r r') : r'.Fits files := by
  induction hreach with
  | refl => exact hr
  | tail _ hasks ih => exact ih.asks hasks

/-- A reading that fails has come to a file with something wrong in it, or to one that is being read. -/
theorem exists_origin (h : files.Linkless) (hr : r.Fits files) (he : r.read files () = .error e ()) :
    ∃ r', ReflTransGen (Asks files) r r' ∧ (e.IsPlain ∨ files.isFile r'.path = .ok true ∧ r'.here files ∈ r'.stack ∧
      e = .load (.cycle (r'.stack ++ [r'.here files]) r'.includedAt)) := by
  -- Each file that is asked for leaves fewer that are not being read.
  induction hroom : 2 * files.tree.regular.length - r.stack.length using Nat.strong_induction_on generalizing r with
  | _ room ih =>
    rcases read_eq_error hr h he with hcycle | hplain | ⟨r₁, hasks, he₁⟩
    · exact ⟨r, .refl, Or.inr hcycle⟩
    · exact ⟨r, .refl, Or.inl hplain⟩
    · have hlength := hasks.length
      have hle := (hr.asks hasks).length_le h
      obtain ⟨r', hreach, horigin⟩ := ih _ (by omega) (hr.asks hasks) he₁ rfl
      exact ⟨r', .head hasks hreach, horigin⟩

theorem read_isBounded (h : files.Linkless) (hr : r.Fits files) (path : Text) :
    outcome (r.read files ()) ≠ .error (.includesTooDeep path) ∧
      outcome (r.read files ()) ≠ .error (.endless path) := by
  refine ⟨fun he => ?_, fun he => ?_⟩
  all_goals
    obtain ⟨r', -, hplain | ⟨-, -, heq⟩⟩ := exists_origin h hr (outcome_eq_error_iff.mp he)
    · exact hplain
    · cases heq

theorem read_of_reachable (h : files.Linkless) (hr : r.Fits files) (hreach : ReflTransGen (Asks files) r r')
    (he : r'.read files () = .error e ()) : r.read files () = .error e () := by
  induction hreach using ReflTransGen.head_induction_on with
  | refl => exact he
  | head hasks _ ih => exact read_of_asks hr h hasks (ih (hr.asks hasks))

/-! ### The way to a file -/

theorem Asks.includesAt (hasks : Asks files r r') (h : files.Linkless) (hr : r.Fits files) :
    ∃ line target, r' = r.nested files line target ∧ files.IncludesAt (r.here files) line target := by
  cases hasks with
  | intro hentered hraws hbefore hincludes htarget =>
    rename_i before after raw target lines
    obtain ⟨place, content, mode, hstat⟩ := Files.isFile_eq_ok_true hentered.isFile
    have hpath : Path.ofText (r.here files) = files.absolute r.path := h.ofText_absolute hr.proper
    have hcontent : files.content r.path = content := by rw [Files.content, hstat]
    refine ⟨_, target, rfl, ?_⟩
    have hhere := Cursor.here_passAll r.source (r.here files) raw before
    rw [start, hhere] at htarget
    rw [start, hhere]
    have hfile : files.tree.node? (Path.ofText (r.here files)).names = some (.file content mode) := by
      rw [hpath]
      exact (h.stat_place hr.proper hstat).2
    refine .intro hfile (hcontent ▸ hraws) hincludes ?_
    · rw [hpath]
      exact htarget

/-- How reading has come to a file: along include lines from the first file on. -/
structure Traced (files : Files) (root r : Request) : Prop where
  fits : r.Fits files
  head : (r.stack ++ [r.here files]).head? = some (root.here files)
  links : (r.stack ++ [r.here files]).IsChain files.Includes
  line : ∀ path, r.stack.getLast? = some path → ∃ line target, r.includedAt = some line ∧
    files.IncludesAt path line target ∧ r.here files = (files.absolute (Path.ofText target)).toText

theorem traced_root (hr : root.Fits files) (hstack : root.stack = []) : Traced files root root where
  fits := hr
  head := by simp [hstack]
  links := by simp [hstack]
  line := by simp [hstack]

theorem Traced.asks (htraced : Traced files root r) (h : files.Linkless) (hasks : Asks files r r') :
    Traced files root r' := by
  have hfits := htraced.fits.asks hasks
  obtain ⟨line, target, rfl, hincludes⟩ := hasks.includesAt h htraced.fits
  refine ⟨hfits, ?_, ?_, ?_⟩
  · show (r.stack ++ [r.here files] ++ [_]).head? = _
    rw [List.head?_append, htraced.head]
    rfl
  · show (r.stack ++ [r.here files] ++ [_]).IsChain _
    refine List.isChain_append.mpr ⟨htraced.links, by simp, ?_⟩
    simp only [List.getLast?_concat, List.head?_cons, Option.mem_some_iff]
    rintro _ rfl _ rfl
    exact ⟨line, target, hincludes, rfl⟩
  · intro path hpath
    rw [show (r.nested files line target).stack = r.stack ++ [r.here files] from rfl, List.getLast?_concat] at hpath
    cases hpath
    exact ⟨line, target, rfl, hincludes, rfl⟩

theorem traced_of_reachable (h : files.Linkless) (hr : root.Fits files) (hstack : root.stack = [])
    (hreach : ReflTransGen (Asks files) root r) : Traced files root r := by
  induction hreach with
  | refl => exact traced_root hr hstack
  | tail _ hasks ih => exact ih.asks h hasks

theorem Traced.isCircle (htraced : Traced files root r) (hstack : r.here files ∈ r.stack) :
    ∃ line, r.includedAt = some line ∧ IsCircle files (root.here files) (r.stack ++ [r.here files]) line := by
  -- The last file on the stack is the one that asks.
  obtain ⟨path, hpath⟩ : ∃ path, r.stack.getLast? = some path :=
    Option.isSome_iff_exists.mp (List.getLast?_isSome.mpr (List.ne_nil_of_mem hstack))
  obtain ⟨line, target, hincluded, hincludes, htarget⟩ := htraced.line path hpath
  refine ⟨line, hincluded, htraced.head, htraced.links, ?_, ⟨_, List.getLast?_concat, ?_⟩, path, target, ?_, hincludes,
    ?_⟩
  · rw [List.dropLast_concat]
    exact htraced.fits.nodup
  · rwa [List.dropLast_concat]
  · rwa [List.dropLast_concat]
  · rw [List.getLast?_concat, htarget]

end Request

theorem IsCircle.exists_transGen {files : Files} {root : Text} {chain : List Text} {line : Line}
    (h : IsCircle files root chain line) :
    ∃ path, ReflTransGen files.Includes root path ∧ TransGen files.Includes path path := by
  obtain ⟨last, hlast, hmem⟩ := h.closes
  have hchain : chain.dropLast ++ [last] = chain := List.dropLast_append_getLast? last hlast
  have hleads : ∀ path ∈ chain.dropLast, TransGen files.Includes path last := by
    have hpairs : (chain.dropLast ++ [last]).Pairwise (TransGen files.Includes) :=
      (hchain.symm ▸ h.links.imp fun _ _ => TransGen.single).pairwise
    exact fun path hpath => (List.pairwise_append.mp hpairs).2.2 path hpath last (List.mem_singleton_self last)
  have hroot : root ∈ chain.dropLast := by
    have hhead := h.head
    rw [← hchain, List.head?_append_of_ne_nil _ (List.ne_nil_of_mem hmem)] at hhead
    exact List.mem_of_head? hhead
  exact ⟨last, (hleads root hroot).to_reflTransGen, hleads last hmem⟩

end Include

namespace Recipe

variable {w : World} {source : Text} {p : Path}

theorem outcome_expand (hw : w.Still source p) (h : w.files.Linkless) (hp : p.Proper) {fuel : Nat}
    (hfuel : 2 * w.files.tree.regular.length < fuel) :
    outcome (Include.expand view fuel [] none source p w) = outcome ((Request.first source p).read w.files ()) := by
  have hfits : (Request.first source p).Fits w.files := Request.fits_first hp source
  have hdepth := lt_depth w.files
  have hread : Include.expand (View.still w.files) (2 * w.files.tree.regular.length + 1) [] none source p =
      (Request.first source p).read w.files :=
    Request.expand_eq h _ (depth w.files) hfits (Nat.lt_succ_self _) hdepth
  rw [expand_still hw hfuel hdepth ?_, hread]
  rw [hread]
  exact fun path => (Request.read_isBounded h hfits path).1

/-- Includes nest safely in files without links, unless the log is read that is written to meanwhile, which may grow as
    fast as it is read. The files that are being read at any moment are different ones, so they are at most twice as
    many as there are regular files, and reading ends whatever bound leaves room for so many. A file that reading comes
    to while it is being read is a fault that tells the way to it; and whenever there is such a fault, the way leads
    along include lines to a file it has been at before, so there is none without a circle of includes. -/
theorem read_circle (hw : w.Still source p) (h : w.files.Linkless) (hp : p.Proper) :
    (∀ r, ReflTransGen (Request.Asks w.files) (.first source p) r → r.Entered w.files →
      (r.stack ++ [r.here w.files]).Nodup ∧
        (r.stack ++ [r.here w.files]).length ≤ 2 * w.files.tree.regular.length) ∧
    (∀ fuel, 2 * w.files.tree.regular.length < fuel →
      outcome (Include.expand view fuel [] none source p w) = outcome (Include.read view [] source p w)) ∧
    (∀ path, outcome (Include.read view [] source p w) ≠ .error (.includesTooDeep path) ∧
      outcome (Include.read view [] source p w) ≠ .error (.endless path)) ∧
    (∀ r, ReflTransGen (Request.Asks w.files) (.first source p) r → w.files.isFile r.path = .ok true →
      r.here w.files ∈ r.stack → outcome (Include.read view [] source p w) =
        .error (.load (.cycle (r.stack ++ [r.here w.files]) r.includedAt))) ∧
    (∀ chain included, outcome (Include.read view [] source p w) = .error (.load (.cycle chain included)) →
      ∃ line, included = some line ∧ IsCircle w.files (w.files.absolute p).toText chain line) ∧
    ((∀ path, ReflTransGen w.files.Includes (w.files.absolute p).toText path →
        ¬ TransGen w.files.Includes path path) →
      ∀ chain included, outcome (Include.read view [] source p w) ≠ .error (.load (.cycle chain included))) := by
  have hfits : (Request.first source p).Fits w.files := Request.fits_first hp source
  have hread : outcome (Include.read view [] source p w) = outcome ((Request.first source p).read w.files ()) :=
    outcome_expand hw h hp (lt_depth w.files)
  have hcircle : ∀ chain included, outcome (Include.read view [] source p w) = .error (.load (.cycle chain included)) →
      ∃ line, included = some line ∧ IsCircle w.files (w.files.absolute p).toText chain line := by
    intro chain included he
    rw [hread, outcome_eq_error_iff] at he
    obtain ⟨r, hreach, hplain | ⟨-, hstack, heq⟩⟩ := Request.exists_origin h hfits he
    · exact hplain.elim
    · cases heq
      exact (Request.traced_of_reachable h hfits rfl hreach).isCircle hstack
  refine ⟨fun r hreach hentered => ?_, fun fuel hfuel => ?_, fun path => ⟨fun he => ?_, fun he => ?_⟩,
    fun r hreach hfile hstack => ?_, hcircle, fun hacyclic chain included he => ?_⟩
  · have hnested := (Request.fits_of_reachable hfits hreach).nested hentered ⟨[], [], 0, [], none⟩ []
    exact ⟨hnested.nodup, hnested.length_le h⟩
  · rw [outcome_expand hw h hp hfuel, hread]
  · exact (Request.read_isBounded h hfits path).1 (hread ▸ he)
  · exact (Request.read_isBounded h hfits path).2 (hread ▸ he)
  · rw [hread, outcome_eq_error_iff]
    refine Request.read_of_reachable h hfits hreach ?_
    rw [Request.read_eq (Request.fits_of_reachable hfits hreach) h, hfile]
    exact if_pos hstack
  · obtain ⟨line, -, hline⟩ := hcircle chain included he
    obtain ⟨path, hreach, hround⟩ := hline.exists_transGen
    exact hacyclic path hreach hround

/-- A world with two files that include each other, one of them after a block that looks as if it did. -/
def circular : World :=
  Rehearsal.world "/" [] [("/a", Utf8.encode "x = 1\ninclude d/b\n"),
    ("/d/b", Utf8.encode "y = \"\"\"\ninclude c\n\"\"\"\ninclude ../a\n")]

theorem read_circle_circular : circular.Still "a" ⟨.relative, ["a"]⟩ ∧ circular.files.Linkless ∧
    circular.files.tree.regular.length = 2 ∧
    outcome (Include.read view [] "a" ⟨.relative, ["a"]⟩ circular) =
      .error (.load (.cycle ["/a", "/d/b", "/a"] (some ⟨"/d/b", "/d/b", 4, "include ../a", none⟩))) ∧
    IsCircle circular.files "/a" ["/a", "/d/b", "/a"] ⟨"/d/b", "/d/b", 4, "include ../a", none⟩ ∧
    outcome (Include.expand view 5 [] none "a" ⟨.relative, ["a"]⟩ circular) =
      outcome (Include.read view [] "a" ⟨.relative, ["a"]⟩ circular) := by
  have hstill : circular.Still "a" ⟨.relative, ["a"]⟩ := World.still_of_writesTo rfl _ _
  have hlinkless : circular.files.Linkless := by
    refine ⟨Tree.linkless_of_entries ?_, by decide +kernel, by decide +kernel⟩
    decide +kernel
  have hproper : Path.Proper ⟨.relative, ["a"]⟩ := by decide +kernel
  have hcount : circular.files.tree.regular.length = 2 := by decide +kernel
  have hcheck : (match outcome (Include.read view [] "a" ⟨.relative, ["a"]⟩ circular) with
      | .error e => decide (e =
          .load (.cycle ["/a", "/d/b", "/a"] (some ⟨"/d/b", "/d/b", 4, "include ../a", none⟩)))
      | .ok _ => false) = true := by decide +kernel
  have hread : outcome (Include.read view [] "a" ⟨.relative, ["a"]⟩ circular) =
      .error (.load (.cycle ["/a", "/d/b", "/a"] (some ⟨"/d/b", "/d/b", 4, "include ../a", none⟩))) := by
    split at hcheck
    · rename_i e he
      rw [he, of_decide_eq_true hcheck]
    · cases hcheck
  obtain ⟨-, hbound, -, -, hcircle, -⟩ := read_circle hstill hlinkless hproper
  obtain ⟨line, hline, hround⟩ := hcircle _ _ hread
  cases hline
  have hroot : (circular.files.absolute ⟨.relative, ["a"]⟩).toText = "/a".toList := by decide +kernel
  exact ⟨hstill, hlinkless, hcount, hread, hroot ▸ hround, hbound 5 (by rw [hcount]; decide)⟩

/-- A world with a log, and with a file that includes the log and whose name holds a line that does so, too. -/
def logged : World :=
  { Rehearsal.world "/" [] [("/a\ninclude l", Utf8.encode "include l\n"), ("/l", [])] with
    verbosity := .debug
    tee := some (.start ["l"]) }

/-- The file includes the log. -/
theorem eq_log_of_includes {path : Text} (h : logged.files.Includes "/a\ninclude l" path) : path = "/l".toList := by
  obtain ⟨line, target, hincludes, rfl⟩ := h
  cases hincludes with
  | @intro content mode before after raw source target hfile hraws hincludes htarget =>
    have hnode : logged.files.tree.node? (Path.ofText "/a\ninclude l").names =
        some (.file (Utf8.encode "include l\n") 420) := by
      decide +kernel
    obtain ⟨rfl, -⟩ := Node.file.inj (Option.some.inj (hnode.symm.trans hfile))
    have hlines : (rawLines (Utf8.encode "include l\n")).1 = ["include l".toList] := by decide +kernel
    obtain ⟨rfl, rfl, -⟩ : before = [] ∧ "include l".toList = raw ∧ [] = after := by
      rw [hlines] at hraws
      cases before with
      | nil => exact ⟨rfl, List.cons.inj hraws⟩
      | cons first before => exact absurd (List.cons.inj hraws).2 (by simp)
    have hwords : Words.split (Text.trim ((Text.trim "include l").drop keyword.length)) = .ok ["l"] := by decide +kernel
    have hhome : logged.files.homes.refuses "l" = false := by decide +kernel
    have hjoin : Path.joinText (Path.ofText "/a\ninclude l").directory.toText (logged.files.homes.expandText "l") =
        "/l".toList := by
      decide +kernel
    have hlog : (logged.files.absolute (Path.ofText "/l")).toText = "/l".toList := by decide +kernel
    rw [Include.target] at htarget
    dsimp only at htarget
    rw [hwords] at htarget
    dsimp only at htarget
    rw [hhome, hjoin] at htarget
    obtain rfl : "/l".toList = target := Except.ok.inj htarget
    exact hlog

/-- The log includes nothing. -/
theorem not_includes_log (path : Text) : ¬ logged.files.Includes "/l" path := by
  rintro ⟨line, target, hincludes, -⟩
  cases hincludes with
  | @intro content mode before after raw source target hfile hraws hincludes htarget =>
    have hnode : logged.files.tree.node? (Path.ofText "/l").names = some (.file [] 420) := by decide +kernel
    obtain ⟨rfl, -⟩ := Node.file.inj (Option.some.inj (hnode.symm.trans hfile))
    exact List.cons_ne_nil _ _ (List.append_eq_nil_iff.mp hraws.symm).2

/-- The line that is told about a file that is opened may include the log to which it is written: then reading comes to a
    circle, though there is none in the files as they were. -/
theorem read_circle_logged : logged.files.Linkless ∧ Path.Proper ⟨.relative, ["a\ninclude l"]⟩ ∧
    (logged.files.absolute ⟨.relative, ["a\ninclude l"]⟩).toText = "/a\ninclude l".toList ∧
    (∀ path, ReflTransGen logged.files.Includes "/a\ninclude l" path → ¬ TransGen logged.files.Includes path path) ∧
    outcome (Include.read view [] "a" ⟨.relative, ["a\ninclude l"]⟩ logged) =
      .error (.load (.cycle ["/a\ninclude l", "/l", "/l"] (some ⟨"/l", "/l", 2, "include l", none⟩))) := by
  have hlinkless : logged.files.Linkless := by
    refine ⟨Tree.linkless_of_entries ?_, by decide +kernel, by decide +kernel⟩
    decide +kernel
  have hreached : ∀ path, ReflTransGen logged.files.Includes "/a\ninclude l" path →
      path = "/a\ninclude l".toList ∨ path = "/l".toList := by
    intro path hpath
    induction hpath with
    | refl => exact Or.inl rfl
    | tail _ hincludes ih =>
      rcases ih with rfl | rfl
      · exact Or.inr (eq_log_of_includes hincludes)
      · exact absurd hincludes (not_includes_log _)
  have hcheck : fails (fun e _ => decide (e =
      .load (.cycle ["/a\ninclude l", "/l", "/l"] (some ⟨"/l", "/l", 2, "include l", none⟩))))
      (Include.read view [] "a" ⟨.relative, ["a\ninclude l"]⟩ logged) = true := by decide +kernel
  obtain ⟨e, w', hread, he⟩ := eq_error_of_fails hcheck
  refine ⟨hlinkless, by decide +kernel, by decide +kernel, fun path hpath hround => ?_, ?_⟩
  · obtain ⟨path', hpath', hback⟩ := TransGen.head'_iff.mp hround
    rcases hreached path hpath with rfl | rfl
    · obtain rfl := eq_log_of_includes hpath'
      rcases ReflTransGen.cases_head hback with hsame | ⟨_, hincludes, -⟩
      · cases hsame
      · exact not_includes_log _ hincludes
    · exact not_includes_log _ hpath'
  · rw [hread, of_decide_eq_true he]
    rfl

end Recipe

end Runbook
