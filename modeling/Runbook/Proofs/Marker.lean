import Runbook.Proofs.Recipe.Guarantee
import Runbook.Proofs.Recipe.QuotedValue

/-! # What markers export

A marker line begins with the head of markers, a gap of blanks, the name of a variable and an equals sign; the rest of
the line is the value. What some lines export is what their marker lines say, without the blanks at the ends of the
values, and nothing else; lines printed one after the other export as if the later ones updated what the earlier ones
export. Main statement: `Marker.exports_of_lines`. -/

namespace Runbook

open Text Bindings

namespace Marker

variable {line text name value : Text} {lines : List Text} {markers : List (Text × Text)}

/-! ### Marker lines -/

/-- `IsMarker text name value`: after blanks that do not count, the text is the head of markers, a gap, the name of a
    variable, an equals sign and the value. -/
structure IsMarker (text name value : Text) : Prop where
  isValid : VariableName.isValid name = true
  shape : ∃ before gap, text = before ++ (head ++ gap ++ name ++ '=' :: value) ∧ (∀ c ∈ before, isBlank c = true) ∧
    (∀ c ∈ gap, isBlank c = true) ∧ gap ≠ []

/-- `Mixes lines markers`: among the lines are marker lines, with these names and values in this order; no other line
    becomes a marker line when it is trimmed. -/
inductive Mixes : List Text → List (Text × Text) → Prop
  | nil : Mixes [] []
  | marker {line name value : Text} {lines : List Text} {markers : List (Text × Text)} : IsMarker line name value →
      Mixes lines markers → Mixes (line :: lines) ((name, value) :: markers)
  | other {line : Text} {lines : List Text} {markers : List (Text × Text)} :
      (∀ name value, ¬ IsMarker (trim line) name value) → Mixes lines markers → Mixes (line :: lines) markers

theorem isBlank_name (h : VariableName.isValid name = true) : ∀ c ∈ name, isBlank c = false :=
  fun c hc => VariableName.isBlank_of_isTail (VariableName.isTail_of_isValid h c hc)

/-- The text of a marker without blanks before it gives its name and its value, unless a line feed is in the value. -/
theorem assignment?_marker {gap : Text} (hgap : ∀ c ∈ gap, isBlank c = true) (hne : gap ≠ [])
    (hname : VariableName.isValid name = true) (hfeed : '\n' ∉ value) :
    assignment? (head ++ gap ++ name ++ '=' :: value) = some (name, value) := by
  obtain ⟨c, gap, rfl⟩ := List.exists_cons_of_ne_nil hne
  obtain ⟨hc, hgap⟩ := List.forall_mem_cons.mp hgap
  have hleft : trimLeft (gap ++ (name ++ '=' :: value)) = name ++ '=' :: value := by
    rw [trimLeft, List.dropWhile_append_of_pos hgap]
    refine trimLeft_of_head fun hs => ?_
    obtain ⟨d, rest, rfl⟩ := List.exists_cons_of_ne_nil (show name ≠ [] by rintro rfl; cases hname)
    exact isBlank_name hname d List.mem_cons_self
  have hcut : cut '=' (name ++ '=' :: value) = (name, some value) :=
    cut_append (VariableName.not_mem_of_isValid hname (by decide)) value
  have hwhole : head ++ c :: gap ++ name ++ '=' :: value = head ++ c :: (gap ++ (name ++ '=' :: value)) := by
    simp only [List.append_assoc, List.cons_append]
  have hstarts : startsWith head (head ++ c :: (gap ++ (name ++ '=' :: value))) = true :=
    List.isPrefixOf_iff_prefix.mpr (List.prefix_append _ _)
  rw [hwhole, assignment?, if_pos hstarts, List.drop_left]
  simp [hleft, hcut, hc, hname, hfeed]

theorem assignment?_eq_some (h : assignment? text = some (name, value)) : IsMarker text name value := by
  unfold assignment? at h
  split at h
  · rename_i hstarts
    obtain ⟨rest, rfl⟩ := List.isPrefixOf_iff_prefix.mp hstarts
    rw [List.drop_left] at h
    split at h
    · cases h
    · rename_i c rest
      split at h
      · rename_i name' value' hcut
        split at h
        · rename_i hall
          obtain ⟨rfl, rfl⟩ := h
          simp only [Bool.and_eq_true] at hall
          refine ⟨hall.1.2, [], c :: rest.takeWhile isBlank, ?_, by simp, ?_, List.cons_ne_nil _ _⟩
          · have hrest : rest.takeWhile isBlank ++ trimLeft rest = rest := List.takeWhile_append_dropWhile
            rw [(cut_eq_some_iff.mp hcut).1] at hrest
            refine (congrArg (head ++ c :: ·) hrest.symm).trans ?_
            simp only [List.nil_append, List.append_assoc, List.cons_append]
          · exact List.forall_mem_cons.mpr ⟨hall.1.1, fun d hd => List.mem_takeWhile_imp hd⟩
        · cases h
      · cases h
  · cases h

theorem trim_marker {before gap : Text} (hbefore : ∀ c ∈ before, isBlank c = true) :
    trim (before ++ (head ++ gap ++ name ++ '=' :: value)) = head ++ gap ++ name ++ '=' :: trimRight value := by
  have hend : trimRight (head ++ gap ++ name ++ ['=']) = head ++ gap ++ name ++ ['='] :=
    trimRight_append_self rfl (List.cons_ne_nil _ _) _
  rw [trim_blanks_append hbefore, List.append_cons _ '=' value, List.append_cons _ '=' (trimRight value),
    ← trimRight_append hend]
  -- A marker begins with a character that is no blank.
  rfl

theorem ofLine?_marker (h : IsMarker line name value) (hfeed : '\n' ∉ line) :
    ofLine? line = some (name, trimRight value) := by
  obtain ⟨before, gap, rfl, hbefore, hgap, hne⟩ := h.shape
  rw [ofLine?, trim_marker hbefore]
  refine assignment?_marker hgap hne h.isValid fun hmem => hfeed ?_
  have hvalue : '\n' ∈ value := (dropEndWhile_isPrefix isBlank value).subset hmem
  simp [hvalue]

theorem ofLine?_other (h : ∀ name value, ¬ IsMarker (trim line) name value) : ofLine? line = none := by
  cases hline : ofLine? line with
  | none => rfl
  | some p => exact absurd (assignment?_eq_some hline) (h p.1 p.2)

/-! ### What lines export -/

/-- A line whose trimmed text is a marker is a marker line. -/
theorem IsMarker.of_trim (h : IsMarker (trim line) name value) : ∃ rest, IsMarker line name (value ++ rest) := by
  obtain ⟨lead, blanks, hline, hlead, -⟩ := exists_trim line
  obtain ⟨before, gap, htrim, hbefore, hgap, hne⟩ := h.shape
  refine ⟨blanks, h.isValid, lead ++ before, gap, ?_, fun c hc => ?_, hgap, hne⟩
  · rw [hline, htrim]
    simp only [List.append_assoc, List.cons_append]
  · exact (List.mem_append.mp hc).elim (hlead c) (hbefore c)

theorem not_isMarker_of_ofLine? (h : ofLine? line = none) (hfeed : '\n' ∉ line) :
    ∀ name value, ¬ IsMarker (trim line) name value := by
  intro name value hmarker
  obtain ⟨rest, hline⟩ := hmarker.of_trim
  rw [ofLine?_marker hline hfeed] at h
  cases h

theorem exists_mixes (lines : List Text) : ∃ markers, Mixes lines markers := by
  induction lines with
  | nil => exact ⟨[], .nil⟩
  | cons line lines ih =>
    obtain ⟨markers, hmix⟩ := ih
    by_cases h : ∃ name value, IsMarker (trim line) name value
    · obtain ⟨name, value, h⟩ := h
      obtain ⟨rest, hline⟩ := h.of_trim
      exact ⟨_, .marker hline hmix⟩
    · exact ⟨markers, .other (fun name value hmarker => h ⟨name, value, hmarker⟩) hmix⟩

theorem Mixes.filterMap_eq (h : Mixes lines markers) (hfeed : ∀ line ∈ lines, '\n' ∉ line) :
    lines.filterMap ofLine? = markers.map fun p => (p.1, trimRight p.2) := by
  induction h with
  | nil => rfl
  | marker hline _ ih =>
    obtain ⟨hhead, htail⟩ := List.forall_mem_cons.mp hfeed
    rw [List.filterMap_cons_some (ofLine?_marker hline hhead), ih htail]
    rfl
  | other hline _ ih =>
    rw [List.filterMap_cons_none (ofLine?_other hline), ih (List.forall_mem_cons.mp hfeed).2]

theorem lastOf_map_trimRight (n : Text) (markers : List (Text × Text)) :
    lastOf n (markers.map fun p => (p.1, trimRight p.2)) = trimRight (lastOf n markers) := by
  induction markers using List.reverseRecOn with
  | nil => rfl
  | append_singleton markers p ih =>
    rw [List.map_append, List.map_singleton, lastOf_concat, lastOf_concat, ih]
    exact (apply_ite trimRight _ _ _).symm

/-- Lines are marker lines among others. They export what the marker lines name, once each and in the order of the first
    of its markers, with what the last of its markers says without the blanks at its end. A name they export is one that
    a recipe may declare. Lines after others export as if they updated what the lines before them export. -/
theorem exports_of_lines (lines : List Text) :
    (∃ markers, Mixes lines markers) ∧
    (∀ markers, Mixes lines markers → (∀ line ∈ lines, '\n' ∉ line) →
      exports lines = (markers.map Prod.fst).eraseDups.map fun n => (n, trimRight (lastOf n markers))) ∧
    (∀ name ∈ (exports lines).names, ∀ (r : Recipe) (line : Line) (value : Text), line.assignment = .ok (name, value) →
      r.assign (some .declarations) line = .ok { r with defaults := set name value r.defaults }) ∧
    ∀ more, exports (lines ++ more) = (exports lines).update (exports more) := by
  refine ⟨exists_mixes lines, fun markers hmix hfeed => ?_, fun name hname r line value hline => ?_, fun more => ?_⟩
  · rw [exports, hmix.filterMap_eq hfeed, ofList_eq, List.map_map]
    exact List.map_congr_left fun n _ => by rw [lastOf_map_trimRight]
  · obtain ⟨rfl, rfl⟩ := assignment_ok hline
    rw [assign_declarations hline, if_pos (allValid_exports lines _ hname)]
  · rw [exports, exports, exports, update_ofList, List.filterMap_append]
    exact update_append [] _ _

/-- The output of a script that exports a variable twice and another one between, and prints three other lines. -/
def built : List Text :=
  ["building", "\t###export v=1", "###export\x1c  w-x=a=###export v=0 \t", "###export 9=1", "###exportv=1", " ###export v= 2"]

theorem mixes_built : Mixes built [("v", "1"), ("w-x", "a=###export v=0 \t"), ("v", " 2")] :=
  .other (not_isMarker_of_ofLine? (by decide) (by decide)) <|
  .marker ⟨by decide, "\t", " ", rfl, List.all_eq_true.mp rfl, List.all_eq_true.mp rfl, by decide⟩ <|
  .marker ⟨by decide, [], "\x1c  ", rfl, List.all_eq_true.mp rfl, List.all_eq_true.mp rfl, by decide⟩ <|
  .other (not_isMarker_of_ofLine? (by decide) (by decide)) <|
  .other (not_isMarker_of_ofLine? (by decide) (by decide)) <|
  .marker ⟨by decide, " ", " ", rfl, List.all_eq_true.mp rfl, List.all_eq_true.mp rfl, by decide⟩ .nil

theorem exports_of_lines_built :
    exports built = ([("v", " 2"), ("w-x", "a=###export v=0")] : Bindings) ∧
    (Recipe.blank "r" "/w/r").assign (some .declarations) (.single "w-x = 7") =
      .ok { Recipe.blank "r" "/w/r" with defaults := [("w-x", "7")] } ∧
    exports (built ++ [("###export w-x=" : Text)]) = ([("v", " 2"), ("w-x", "")] : Bindings) := by
  obtain ⟨-, hexports, haccepts, hmore⟩ := exports_of_lines built
  have hbuilt : exports built = ([("v", " 2"), ("w-x", "a=###export v=0")] : Bindings) := by
    rw [hexports _ mixes_built (by decide)]
    decide
  refine ⟨hbuilt, haccepts "w-x" (by rw [hbuilt]; decide) _ _ "7" rfl, ?_⟩
  rw [hmore, hbuilt]
  rfl

end Marker

end Runbook
