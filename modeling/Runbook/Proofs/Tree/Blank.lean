import Runbook.Proofs.Path.Resolution

/-! # Trees that are the same but for one file

A tree with the file at a place emptied (`Tree.blank`) shows what is the same in two trees that differ in this file only
(`Tree.SameBut`). Such trees stay the same but for the file through the same changes (`SameBut.change`), and through
whatever is written to a journal at the place (`SameBut.journal`); once the file is gone, they are the same
(`SameBut.eq`). -/

namespace Runbook

variable {t t' t'' : Tree} {place q : Place} {log : Option Place} {node other : Node} {p : Path}
  {content : List UInt8} {mode : Nat} {entries : List (Place × Node)}

namespace Tree

theorem setEntry_setEntry (place : Place) (node other : Node) (entries : List (Place × Node)) :
    setEntry place node (setEntry place other entries) = setEntry place node entries := by
  induction entries with
  | nil => simp [setEntry]
  | cons e entries ih =>
    obtain ⟨p, n⟩ := e
    rw [setEntry, setEntry]
    split
    · rw [setEntry, if_pos ‹_›]
    · rw [setEntry, if_neg ‹_›, ih]

/-- An entry that is there can be changed before or after another one is set. -/
theorem setEntry_comm (hne : q ≠ place) (h : List.lookup place entries = some node) (n n' : Node) :
    setEntry place n (setEntry q n' entries) = setEntry q n' (setEntry place n entries) := by
  induction entries with
  | nil => cases h
  | cons e entries ih =>
    obtain ⟨p, m⟩ := e
    rw [lookup_cons_eq] at h
    by_cases hp : p = place
    · subst hp
      simp [setEntry, Ne.symm hne]
    · rw [if_neg (Ne.symm hp)] at h
      by_cases hq : p = q
      · simp [setEntry, hq, hne]
      · simp [setEntry, hq, hp, ih h]

theorem map_fst_setEntry (h : List.lookup place entries = some other) (node : Node) :
    (setEntry place node entries).map Prod.fst = entries.map Prod.fst := by
  induction entries with
  | nil => cases h
  | cons e entries ih =>
    obtain ⟨p, n⟩ := e
    rw [lookup_cons_eq] at h
    rw [setEntry]
    split at h
    · rename_i hp
      rw [if_pos hp.symm, List.map_cons, List.map_cons]
    · rename_i hp
      rw [if_neg (Ne.symm hp), List.map_cons, List.map_cons, ih h]

theorem filter_setEntry_self (place : Place) (node : Node) (entries : List (Place × Node)) :
    (setEntry place node entries).filter (·.1 != place) = entries.filter (·.1 != place) := by
  induction entries with
  | nil => simp [setEntry]
  | cons e entries ih =>
    obtain ⟨p, n⟩ := e
    rw [setEntry]
    split
    · rename_i hp
      simp [hp]
    · rename_i hp
      simp [hp, ih]

theorem filter_setEntry (hne : q ≠ place) (node : Node) (entries : List (Place × Node)) :
    (setEntry place node entries).filter (·.1 != q) = setEntry place node (entries.filter (·.1 != q)) := by
  induction entries with
  | nil => simp [setEntry, Ne.symm hne]
  | cons e entries ih =>
    obtain ⟨p, n⟩ := e
    rw [setEntry]
    by_cases hp : p = place
    · subst hp
      simp [setEntry, Ne.symm hne]
    · by_cases hq : p = q
      · simp [hq, hne, ih]
      · simp [setEntry, hp, hq, ih]

/-! ### Emptying a file -/

/-- The tree with the file at a place emptied, if a file is there. -/
def blank : Option Place → Tree → Tree
  | none, t => t
  | some place, t =>
    match t.node? place with
    | some (.file _ mode) => t.set place (.file [] mode)
    | _ => t

theorem blank_of_file (h : t.node? place = some (.file content mode)) :
    t.blank (some place) = t.set place (.file [] mode) := by
  rw [blank, h]

theorem blank_set_file (hne : place ≠ []) (t : Tree) (content : List UInt8) (mode : Nat) :
    (t.set place (.file content mode)).blank (some place) = t.set place (.file [] mode) := by
  have hset : (t.set place (.file content mode)).node? place = some (.file content mode) := by
    rw [node?_set _ _ _ _ hne, if_pos rfl]
  rw [blank_of_file hset]
  exact congrArg Tree.mk (setEntry_setEntry place _ _ t.entries)

theorem blank_of_not_file (h : ∀ content mode, t.node? place ≠ some (.file content mode)) :
    t.blank (some place) = t := by
  rw [blank]
  split
  · exact absurd ‹_› (h _ _)
  · rfl

/-- Emptying a file changes nothing, or it is the setting of an entry that is there. -/
theorem blank_cases (log : Option Place) (t : Tree) : t.blank log = t ∨ ∃ place content mode, log = some place ∧
    t.node? place = some (.file content mode) ∧ List.lookup place t.entries = some (.file content mode) ∧
    t.blank log = t.set place (.file [] mode) := by
  cases log with
  | none => exact Or.inl rfl
  | some place =>
    by_cases hfile : ∃ content mode, t.node? place = some (.file content mode)
    · obtain ⟨content, mode, hnode⟩ := hfile
      exact Or.inr ⟨place, content, mode, rfl, hnode, node?_of_ne_nil (ne_nil_of_file hnode) ▸ hnode, blank_of_file hnode⟩
    · exact Or.inl (blank_of_not_file fun content mode h => hfile ⟨content, mode, h⟩)

theorem node?_blank (h : log ≠ some q) (t : Tree) : (t.blank log).node? q = t.node? q := by
  rcases blank_cases log t with heq | ⟨place, content, mode, hlog, -, -, heq⟩
  · rw [heq]
  · have hne : q ≠ place := fun hq => h (hq ▸ hlog)
    cases q with
    | nil => rfl
    | cons name rest => rw [heq, node?_set _ _ _ _ (List.cons_ne_nil _ _), if_neg hne]

theorem node?_blank_self (place : Place) (t : Tree) :
    (t.blank (some place)).node? place = t.node? place ∨ ∃ content mode, t.node? place = some (.file content mode) ∧
      (t.blank (some place)).node? place = some (.file [] mode) := by
  rcases blank_cases (some place) t with heq | ⟨_, content, mode, ⟨⟩, hnode, -, heq⟩
  · rw [heq]
    exact Or.inl rfl
  · refine Or.inr ⟨content, mode, hnode, ?_⟩
    rw [heq, node?_set _ _ _ _ (ne_nil_of_file hnode), if_pos rfl]

theorem like_blank (log : Option Place) (t : Tree) : Like t (t.blank log) := by
  intro q
  by_cases hq : log = some q
  · subst hq
    rcases node?_blank_self q t with heq | ⟨content, mode, hnode, hblank⟩
    · rw [heq]
    · rw [hnode, hblank]
      rfl
  · rw [node?_blank hq]

theorem map_fst_blank (log : Option Place) (t : Tree) : (t.blank log).entries.map Prod.fst = t.entries.map Prod.fst := by
  rcases blank_cases log t with heq | ⟨place, content, mode, -, -, hlookup, heq⟩
  · rw [heq]
  · rw [heq]
    exact map_fst_setEntry hlookup _

/-- What is set at a place does not depend on what was in the file. -/
theorem blank_set (log : Option Place) (t : Tree) (q : Place) (node : Node) :
    ((t.blank log).set q node).blank log = (t.set q node).blank log := by
  rcases blank_cases log t with heq | ⟨place, content, mode, rfl, hnode, hlookup, heq⟩
  · rw [heq]
  · rw [heq]
    by_cases hq : q = place
    · subst hq
      exact congrArg (blank (some q)) (congrArg Tree.mk (setEntry_setEntry q node _ t.entries))
    · have hcomm : (t.set place (.file [] mode)).set q node = (t.set q node).set place (.file [] mode) :=
        congrArg Tree.mk (setEntry_comm hq hlookup _ node).symm
      have hne := ne_nil_of_file hnode
      have hkept : (t.set q node).node? place = some (.file content mode) := by
        rw [node?_set _ _ _ _ hne, if_neg (Ne.symm hq), hnode]
      rw [hcomm, blank_set_file hne, blank_of_file hkept]

theorem blank_erase (log : Option Place) (t : Tree) (q : Place) :
    ((t.blank log).erase q).blank log = (t.erase q).blank log := by
  rcases blank_cases log t with heq | ⟨place, content, mode, rfl, hnode, -, heq⟩
  · rw [heq]
  · rw [heq]
    have hne := ne_nil_of_file hnode
    by_cases hq : q = place
    · subst hq
      exact congrArg (blank (some q)) (congrArg Tree.mk (filter_setEntry_self q _ t.entries))
    · have hcomm : (t.set place (.file [] mode)).erase q = (t.erase q).set place (.file [] mode) :=
        congrArg Tree.mk (filter_setEntry hq _ t.entries)
      have hkept : (t.erase q).node? place = some (.file content mode) := by
        rw [node?_erase _ _ _ hne, if_neg (Ne.symm hq), hnode]
      rw [hcomm, blank_set_file hne, blank_of_file hkept]

/-! ### The same but for a file -/

/-- The trees are the same but for what is in the file at a place, if there is such a place. -/
def SameBut (log : Option Place) (t t' : Tree) : Prop := t'.blank log = t.blank log

namespace SameBut

theorem like (h : SameBut log t t') : Like t t' := by
  intro q
  rw [← like_blank log t' q, ← like_blank log t q, h]

theorem node? (h : SameBut log t t') (hq : log ≠ some q) : t'.node? q = t.node? q := by
  rw [← node?_blank hq t', ← node?_blank hq t, h]

theorem places_eq (h : SameBut log t t') : t'.entries.map Prod.fst = t.entries.map Prod.fst := by
  rw [← map_fst_blank log t', ← map_fst_blank log t, h]

theorem length_eq (h : SameBut log t t') : t'.entries.length = t.entries.length := by
  have hlength := congrArg List.length h.places_eq
  rwa [List.length_map, List.length_map] at hlength

theorem children_eq (h : SameBut log t t') (place : Place) : t'.children place = t.children place := by
  have hnames : ∀ t : Tree, t.children place = ((t.entries.map Prod.fst).filterMap
      fun p => if p.dropLast = place then p.getLast? else none).eraseDups := fun t => by
    rw [children, List.filterMap_map]
    rfl
  rw [hnames, hnames, h.places_eq]

theorem stat_eq (h : SameBut log t t') (hp : ∀ place node, t.stat p = .ok (place, node) → log ≠ some place) :
    t'.stat p = t.stat p := by
  unfold stat at hp ⊢
  rw [h.like.walk_eq]
  cases hwalk : t.walk p with
  | error e => rfl
  | ok place =>
    rw [hwalk] at hp
    dsimp only at hp ⊢
    cases hnode : t.node? place with
    | none =>
      have hsome := h.like.isSome_eq place
      rw [hnode, Option.isSome_none, Option.isSome_eq_false_iff, Option.isNone_iff_eq_none] at hsome
      rw [hsome]
    | some node =>
      rw [hnode] at hp
      rw [h.node? (hp place node rfl), hnode]

/-- Where no file stands, the trees are the same. -/
theorem eq (h : SameBut (some place) t t') (hfile : ∀ content mode, t.node? place ≠ some (.file content mode)) :
    t' = t := by
  have hfile' : ∀ content mode, t'.node? place ≠ some (.file content mode) := by
    intro content mode hnode
    rcases h.like.node?_cases place with heq | ⟨content', mode', _, _, hnode', -⟩
    · exact hfile content mode (heq.symm.trans hnode)
    · exact hfile content' mode' hnode'
  rwa [SameBut, blank_of_not_file hfile, blank_of_not_file hfile'] at h

theorem set (h : SameBut log t t') (place : Place) (node : Node) : SameBut log (t.set place node) (t'.set place node) := by
  rw [SameBut, ← blank_set log t', ← blank_set log t, h]

theorem erase (h : SameBut log t t') (place : Place) : SameBut log (t.erase place) (t'.erase place) := by
  rw [SameBut, ← blank_erase log t', ← blank_erase log t, h]

theorem journal (j : Journal) (t : Tree) (new : List UInt8) : SameBut (some j.place) t (j.write t new) := by
  unfold Journal.write
  split
  · rename_i content mode hnode
    rw [SameBut, blank_set_file (ne_nil_of_file hnode), blank_of_file hnode]
  · exact rfl

/-! ### Changes -/

/-- A directory can be made in both trees or in neither. -/
theorem makeDirectory (h : SameBut log t t') (p : Path) :
    (∃ e, t.makeDirectory p = .error e ∧ t'.makeDirectory p = .error e) ∨
      ∃ tree tree', t.makeDirectory p = .ok tree ∧ t'.makeDirectory p = .ok tree' ∧ SameBut log tree tree' := by
  unfold Tree.makeDirectory
  rw [h.like.locate_eq]
  cases t.locate p with
  | error e => exact Or.inl ⟨e, rfl, rfl⟩
  | ok place =>
    simp only [h.like.isSome_eq]
    split
    · exact Or.inl ⟨_, rfl, rfl⟩
    · exact Or.inr ⟨_, _, rfl, rfl, h.set place .directory⟩

theorem makePath (h : SameBut log t t') (p : Path) : SameBut log (t.makePath p) (t'.makePath p) := by
  unfold Tree.makePath
  generalize List.range (p.names.length + 1) = counts
  induction counts generalizing t t' with
  | nil => exact h
  | cons count counts ih =>
    rw [List.foldl_cons, List.foldl_cons]
    refine ih ?_
    rcases h.makeDirectory { p with names := p.names.take count } with ⟨e, hmake, hmake'⟩ | ⟨tree, tree', hmake, hmake', hsame⟩
    · rw [hmake, hmake']
      exact h
    · rw [hmake, hmake']
      exact hsame

/-- A file has the same permissions in both trees. -/
theorem file_iff (h : SameBut log t t') (q : Place) (mode : Nat) :
    (∃ content, t'.node? q = some (.file content mode)) ↔ ∃ content, t.node? q = some (.file content mode) := by
  have hblank : ∀ t : Tree, (∃ content, t.node? q = some (.file content mode)) ↔
      ∃ content, (t.blank log).node? q = some (.file content mode) := by
    intro t
    by_cases hq : log = some q
    · subst hq
      rcases node?_blank_self q t with heq | ⟨content, mode', hnode, hblank⟩
      · rw [heq]
      · rw [hnode, hblank]
        simp
    · rw [node?_blank hq]
  rw [hblank t', hblank t, h]

theorem writeAt (h : SameBut log t t') (place : Place) (content : List UInt8) :
    SameBut log (t.writeAt place content) (t'.writeAt place content) := by
  have hmode : ∀ {t t' : Tree}, SameBut log t t' → ∀ {old mode}, t.node? place = some (.file old mode) →
      t'.writeAt place content = t'.set place (.file content mode) := by
    intro t t' h old mode hnode
    obtain ⟨new, hnode'⟩ := (h.file_iff place mode).mpr ⟨old, hnode⟩
    rw [Tree.writeAt, hnode']
  by_cases hfile : ∃ old mode, t.node? place = some (.file old mode)
  · obtain ⟨old, mode, hnode⟩ := hfile
    rw [hmode h hnode, hmode rfl hnode]
    exact h.set place _
  · have hnew : ∀ t : Tree, (∀ old mode, t.node? place ≠ some (.file old mode)) →
        t.writeAt place content = t.set place (.file content newFileMode) := by
      intro t hnot
      unfold Tree.writeAt
      split
      · exact absurd ‹_› (hnot _ _)
      · rfl
    rw [hnew t fun old mode hnode => hfile ⟨old, mode, hnode⟩, hnew t' fun old mode hnode => ?_]
    · exact h.set place _
    · obtain ⟨old', hnode'⟩ := (h.file_iff place mode).mp ⟨old, hnode⟩
      exact hfile ⟨old', mode, hnode'⟩

/-- A file can be taken away from both trees or from neither. -/
theorem unlink (h : SameBut log t t') (p : Path) :
    (∃ e, t.unlink p = .error e ∧ t'.unlink p = .error e) ∨
      ∃ tree tree', t.unlink p = .ok tree ∧ t'.unlink p = .ok tree' ∧ SameBut log tree tree' := by
  unfold Tree.unlink
  rw [h.like.locate_eq]
  cases t.locate p with
  | error e => exact Or.inl ⟨e, rfl, rfl⟩
  | ok place =>
    dsimp only
    rcases h.like.node?_cases place with heq | ⟨content, mode, content', mode', hn, hn'⟩
    · rw [heq]
      split
      · exact Or.inl ⟨_, rfl, rfl⟩
      · exact Or.inl ⟨_, rfl, rfl⟩
      · exact Or.inr ⟨_, _, rfl, rfl, h.erase place⟩
    · rw [hn, hn']
      exact Or.inr ⟨_, _, rfl, rfl, h.erase place⟩

end SameBut

theorem Like.writePlace_eq (h : Like t t') (links : Nat) (here : Place) (text : Text) :
    t'.writePlace links here text = t.writePlace links here text := by
  induction links generalizing here text with
  | zero | succ links ih =>
    unfold writePlace
    simp only [h.directory_eq, *]
    split
    · rfl
    · rename_i name hlast
      split
      · rfl
      · rename_i above hdirectory
        rcases h.node?_cases (above ++ [name]) with heq | ⟨content, mode, content', mode', hn, hn'⟩
        · rw [heq]
        · simp only [hn, hn']

theorem SameBut.change (h : SameBut log t t') (c : Change) : SameBut log (c.apply t) (c.apply t') := by
  cases c with
  | makeDirectory path => exact h.makePath _
  | write path content =>
    have hpath := h.makePath (Path.ofText path).parent
    unfold Change.apply
    dsimp only
    rw [hpath.like.writePlace_eq]
    split
    · exact hpath.writeAt _ _
    · exact hpath
  | remove path =>
    unfold Change.apply
    dsimp only
    rw [h.like.locate_eq]
    split
    · exact h
    · rw [h.children_eq]
      split
      · exact h.erase _
      · exact h
  | deny path | hide path => exact h

end Tree

end Runbook
