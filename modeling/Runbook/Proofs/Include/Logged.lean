import Runbook.Proofs.Console
import Runbook.Proofs.Include.Stack
import Runbook.Proofs.World

/-! # Reading while a log is written

What is said about a file that is opened goes to the log, if there is one and details are shown, so that no other file
changes (`World.writesOnly_debug`). A reading that does not open the log ends as reading files that never change does
(`Recipe.expand_still`). -/

namespace Runbook

open Effect Include

variable {w w' w'' : World} {source : Text} {p : Path} {fuel n : Nat}

namespace World

/-- Where it is written which files are opened: in the log, if details are shown. -/
def writesTo (w : World) : Option Place := if .debug ≤ w.verbosity then w.tee.map Journal.place else none

/-- Between the worlds no file has changed but the one that is written to. -/
structure WritesOnly (w w' : World) : Prop where
  files : w.files.Like w'.files
  writesTo : w'.writesTo = w.writesTo
  node : ∀ place, w.writesTo ≠ some place → w'.files.tree.node? place = w.files.tree.node? place

theorem WritesOnly.refl (w : World) : WritesOnly w w := ⟨.refl _, rfl, fun _ _ => rfl⟩

theorem WritesOnly.trans (h : WritesOnly w w') (h' : WritesOnly w' w'') : WritesOnly w w'' where
  files := h.files.trans h'.files
  writesTo := h'.writesTo.trans h.writesTo
  node place hplace := (h'.node place (h.writesTo ▸ hplace)).trans (h.node place hplace)

theorem writesOnly_write (h : .debug ≤ w.verbosity) (e : Event) : WritesOnly w (w.write e) := by
  refine ⟨(says_write w e).files, ?_, fun place hplace => ?_⟩
  · rw [writesTo, writesTo, (says_write w e).verbosity, if_pos h, if_pos h, write]
    cases htee : w.tee with
    | none => exact congrArg (Option.map Journal.place) htee
    | some journal => rfl
  · rw [writesTo, if_pos h] at hplace
    rw [write]
    cases htee : w.tee with
    | none => rfl
    | some journal => exact Tree.Like.journal_node? journal _ _ fun heq => hplace (by rw [htee, heq]; rfl)

theorem writesOnly_debug (w : World) (message : Text) : WritesOnly w (w.say (.debug message)) := by
  by_cases hv : w.verbosity < .debug
  · rw [say_debug hv]
    exact .refl w
  · have hv : .debug ≤ w.verbosity := Int.not_lt.mp hv
    have hsay : w.say (.debug message) = w.write (.err ("[DEBUG] " ++ message)) := by
      simp [say, Notice.events, Notice.isShown, Notice.threshold, Notice.writes, hv]
    rw [hsay]
    exact writesOnly_write hv _

/-- A path does not lead to the file that is written to. -/
def Apart (w : World) (p : Path) : Prop := ∀ place node, w.files.stat p = .ok (place, node) → w.writesTo ≠ some place

theorem WritesOnly.content_eq (h : WritesOnly w w') (hp : w.Apart p) : w'.files.content p = w.files.content p :=
  h.files.content_eq fun place node hstat => h.node place (hp place node hstat)

/-- The file that is written to is not one of those that are opened when the file a path leads to is read. -/
def Still (w : World) (source : Text) (p : Path) : Prop :=
  ∀ q : Path, (w.files.absolute q).toText ∈ opened (View.still w.files) source p () → w.Apart q

theorem still_of_writesTo (h : w.writesTo = none) (source : Text) (p : Path) : w.Still source p := by
  intro q _ place node _
  simp [h]

end World

namespace Include

/-- The fault is not that of a bound. -/
def WithinBound (e : Fault) : Prop := ∀ path, e ≠ .includesTooDeep path

/-- A reading that does not come to its bound ends in the same way under a larger one. -/
theorem expand_larger {σ : Type} {view : View σ} {s : σ} (hn : n ≤ fuel)
    (hdeep : ∀ path, outcome (expand view n [] none source p s) ≠ .error (.includesTooDeep path)) :
    expand view fuel [] none source p s = expand view n [] none source p s := by
  have hfollows : Follows (.same WithinBound) (expand view n [] none source p) (expand view fuel [] none source p) s :=
    expand_follows (.same view WithinBound) (fun _ hmem => by cases hmem) (Or.inl ⟨rfl, rfl⟩) hn
      (Or.inr fun path hbound => hbound path rfl) source p s
  have hcounts : (Comparison.same WithinBound).Counts (expand view n [] none source p s) :=
    Comparison.counts_iff.mpr ⟨trivial, fun e he path hbound => hdeep path (hbound ▸ he)⟩
  exact ((hfollows hcounts).2 s rfl).eq fun _ _ => Eq.symm

end Include

namespace Recipe

theorem expand_still (hw : w.Still source p) (hfuel : n ≤ fuel) (hdepth : n ≤ depth w.files)
    (hdeep : ∀ path, outcome (expand (View.still w.files) n [] none source p ()) ≠ .error (.includesTooDeep path)) :
    outcome (expand view fuel [] none source p w) = outcome (expand (View.still w.files) n [] none source p ()) := by
  obtain ⟨record, hrecord⟩ := expand_recording (View.still w.files) n [] none source p () []
  have hdeep' : ∀ path, outcome (expand (View.still w.files).recording n [] none source p ((), [])) ≠
      .error (.includesTooDeep path) := by
    rw [hrecord, outcome_beside]
    exact hdeep
  -- The record of the reading with the smaller bound is that of the reading.
  have hopened : opened (View.still w.files) source p () = record := by
    show (final (expand _ (depth w.files) [] none source p ((), []))).2 = record
    rw [expand_larger hdepth hdeep', hrecord, final_beside]
  -- The record tells that the log is not opened, and nothing else may differ.
  let c : Comparison Fault (Unit × List Text) World :=
    ⟨fun s => ∀ q : Path, (w.files.absolute q).toText ∈ s.2 → w.Apart q, WithinBound, fun _ v => w.WritesOnly v⟩
  have hcomparable : (View.still w.files).recording.Comparable view c w.Apart [] := {
    like := fun h => h.files
    content := fun h hp => h.content_eq hp
    opened := fun path h => h.trans (World.writesOnly_debug _ _)
    ends := fun h => ⟨fun q hmem => h q (List.mem_append_left _ hmem), h _ List.mem_concat_self, List.not_mem_nil⟩ }
  have hfollows : Follows c (expand (View.still w.files).recording n [] none source p)
      (expand view fuel [] none source p) ((), []) :=
    expand_follows hcomparable (fun _ hmem => by cases hmem) (Or.inl ⟨rfl, rfl⟩) hfuel
      (Or.inr fun path hbound => hbound path rfl) source p ((), [])
  have hcounts : c.Counts (expand (View.still w.files).recording n [] none source p ((), [])) := by
    refine Comparison.counts_iff.mpr ⟨?_, fun e he path hbound => hdeep' path (hbound ▸ he)⟩
    rw [hrecord, final_beside, ← hopened]
    exact hw
  have hmatches := (hfollows hcounts).2 w (.refl w)
  rw [hmatches.outcome_eq, hrecord, outcome_beside]

end Recipe

end Runbook
