import Runbook.Command
import Runbook.Proofs.Bindings

/-! # What stands in a tree

The nodes of a tree after each of its changes (`node?_set`, `node?_erase`). No change makes a link (`NoNewLinks`), and
writing to a journal changes nothing but the content of one file (`Like`). -/

namespace Runbook

variable {t t' t'' : Tree} {place q : Place} {node n : Node} {p : Path} {target : Text}

namespace Tree

theorem node?_of_ne_nil (h : place ≠ []) : t.node? place = List.lookup place t.entries := by
  cases place with
  | nil => exact absurd rfl h
  | cons name rest => rfl

theorem ne_nil_of_file {content : List UInt8} {mode : Nat} (h : t.node? place = some (.file content mode)) :
    place ≠ [] := by
  rintro rfl
  cases h

theorem lookup_setEntry (entries : List (Place × Node)) :
    List.lookup q (setEntry place node entries) = if q = place then some node else List.lookup q entries := by
  induction entries with
  | nil => simp [setEntry, lookup_cons_eq]
  | cons e entries ih =>
    obtain ⟨p, n⟩ := e
    rw [setEntry]
    by_cases hp : p = place
    · subst hp
      rw [if_pos rfl, lookup_cons_eq, lookup_cons_eq]
      by_cases hq : q = p
      · simp [hq]
      · simp [hq]
    · rw [if_neg hp, lookup_cons_eq, lookup_cons_eq, ih]
      by_cases hq : q = p
      · subst hq
        simp [hp]
      · simp [hq]

theorem node?_set (t : Tree) (place q : Place) (node : Node) (h : q ≠ []) :
    (t.set place node).node? q = if q = place then some node else t.node? q := by
  rw [node?_of_ne_nil h, node?_of_ne_nil h, set, lookup_setEntry]

theorem node?_erase (t : Tree) (place q : Place) (h : q ≠ []) :
    (t.erase place).node? q = if q = place then none else t.node? q := by
  rw [node?_of_ne_nil h, node?_of_ne_nil h, erase]
  induction t.entries with
  | nil => simp
  | cons e entries ih =>
    by_cases he : e.1 = place
    · rw [List.filter_cons_of_neg (by simpa using he), ih, lookup_cons_eq, he]
      by_cases hq : q = place
      · simp [hq]
      · simp [hq]
    · rw [List.filter_cons_of_pos (by simpa using he), lookup_cons_eq, lookup_cons_eq, ih]
      by_cases hq : q = e.1
      · subst hq
        simp [he]
      · simp [hq]

/-! ### Links -/

/-- Every link of the second tree stands in the first one already. -/
def NoNewLinks (t t' : Tree) : Prop :=
  ∀ place target, t'.node? place = some (.link target) → t.node? place = some (.link target)

namespace NoNewLinks

theorem refl (t : Tree) : NoNewLinks t t := fun _ _ h => h

theorem trans (h : NoNewLinks t t') (h' : NoNewLinks t' t'') : NoNewLinks t t'' :=
  fun place target hlink => h place target (h' place target hlink)

theorem set (t : Tree) (place : Place) (h : ∀ target, node ≠ .link target) : NoNewLinks t (t.set place node) := by
  intro q target hlink
  cases q with
  | nil => cases hlink
  | cons name rest =>
    rw [node?_set t place _ node (List.cons_ne_nil _ _)] at hlink
    split at hlink
    · exact absurd (Option.some.inj hlink) (h target)
    · exact hlink

theorem erase (t : Tree) (place : Place) : NoNewLinks t (t.erase place) := by
  intro q target hlink
  cases q with
  | nil => cases hlink
  | cons name rest =>
    rw [node?_erase t place _ (List.cons_ne_nil _ _)] at hlink
    split at hlink
    · cases hlink
    · exact hlink

theorem makeDirectory (h : t.makeDirectory p = .ok t') : NoNewLinks t t' := by
  unfold Tree.makeDirectory at h
  split at h
  · cases h
  · split at h
    · cases h
    · cases h
      exact set t _ (by simp)

theorem makePath (t : Tree) (p : Path) : NoNewLinks t (t.makePath p) := by
  unfold Tree.makePath
  generalize List.range (p.names.length + 1) = counts
  induction counts generalizing t with
  | nil => exact refl t
  | cons count counts ih =>
    rw [List.foldl_cons]
    refine trans ?_ (ih _)
    cases hmake : t.makeDirectory { p with names := p.names.take count } with
    | error e => exact refl t
    | ok t' => exact makeDirectory hmake

theorem writeAt (t : Tree) (place : Place) (content : List UInt8) : NoNewLinks t (t.writeAt place content) := by
  unfold Tree.writeAt
  split
  · exact set t _ (by simp)
  · exact set t _ (by simp)

theorem unlink (h : t.unlink p = .ok t') : NoNewLinks t t' := by
  unfold Tree.unlink at h
  split at h
  · cases h
  · split at h
    · cases h
    · cases h
    · cases h
      exact erase t _

theorem change (t : Tree) (c : Change) : NoNewLinks t (c.apply t) := by
  cases c with
  | makeDirectory path => exact makePath t _
  | write path content =>
    rw [Change.apply]
    split
    · exact trans (makePath t _) (writeAt _ _ _)
    · exact makePath t _
  | remove path =>
    rw [Change.apply]
    split
    · exact refl t
    · split
      · exact erase t _
      · exact refl t
  | deny path => exact refl t
  | hide path => exact refl t

end NoNewLinks

/-! ### Trees that differ in the content of files only -/

end Tree

/-- What kind of thing a node is: a file counts without its content. -/
def Node.kind : Node → Node
  | .file _ _ => .file [] 0
  | node => node

/-- Whether a node is a link. -/
def Node.isLink : Node → Bool
  | .link _ => true
  | _ => false

namespace Tree

theorem setEntry_kinds {entries : List (Place × Node)} {content content' : List UInt8} {mode mode' : Nat}
    (h : List.lookup place entries = some (.file content mode)) :
    (setEntry place (.file content' mode') entries).map (fun e => e.2.kind) = entries.map fun e => e.2.kind := by
  induction entries with
  | nil => cases h
  | cons e entries ih =>
    obtain ⟨p, n⟩ := e
    rw [lookup_cons_eq] at h
    rw [setEntry]
    split at h
    · rename_i hp
      subst hp
      cases h
      rw [if_pos rfl]
      rfl
    · rename_i hp
      rw [if_neg (Ne.symm hp), List.map_cons, ih h, List.map_cons]

/-- At each place stands the same kind of thing. -/
def Like (t t' : Tree) : Prop := ∀ place, (t'.node? place).map Node.kind = (t.node? place).map Node.kind

namespace Like

theorem refl (t : Tree) : Like t t := fun _ => rfl

theorem symm (h : Like t t') : Like t' t := fun place => (h place).symm

theorem trans (h : Like t t') (h' : Like t' t'') : Like t t'' := fun place => (h' place).trans (h place)

theorem journal (j : Journal) (t : Tree) (new : List UInt8) : Like t (j.write t new) := by
  intro place
  unfold Journal.write
  split
  · rename_i content mode hnode
    cases place with
    | nil => rfl
    | cons name rest =>
      rw [node?_set t _ _ _ (List.cons_ne_nil _ _)]
      split
      · rename_i heq
        rw [heq, hnode]
        rfl
      · rfl
  · rfl

theorem journal_node? (j : Journal) (t : Tree) (new : List UInt8) (h : place ≠ j.place) :
    (j.write t new).node? place = t.node? place := by
  unfold Journal.write
  split
  · cases place with
    | nil => rfl
    | cons name rest => rw [node?_set t _ _ _ (List.cons_ne_nil _ _), if_neg h]
  · rfl

/-- What a write leaves where the journal stands depends on nothing else in the tree. -/
theorem journal_node?_congr (j : Journal) (new : List UInt8) (h : t'.node? j.place = t.node? j.place) :
    (j.write t' new).node? j.place = (j.write t new).node? j.place := by
  unfold Journal.write
  rw [h]
  split
  · rename_i content mode hnode
    have hne := ne_nil_of_file hnode
    rw [node?_set t' _ _ _ hne, node?_set t _ _ _ hne]
    simp
  · exact h

theorem journal_kinds (j : Journal) (t : Tree) (new : List UInt8) :
    (j.write t new).entries.map (fun e => e.2.kind) = t.entries.map fun e => e.2.kind := by
  unfold Journal.write
  split
  · rename_i content mode hnode
    exact setEntry_kinds (node?_of_ne_nil (ne_nil_of_file hnode) ▸ hnode)
  · rfl

/-- At a place stands the same thing, or a file either way. -/
theorem node?_cases (h : Like t t') (place : Place) : t'.node? place = t.node? place ∨
    ∃ content mode content' mode', t.node? place = some (.file content mode) ∧
      t'.node? place = some (.file content' mode') := by
  have hplace := h place
  cases hn : t.node? place with
  | none =>
    rw [hn, Option.map_none, Option.map_eq_none_iff] at hplace
    exact Or.inl hplace
  | some n =>
    cases hn' : t'.node? place with
    | none => simp [hn, hn'] at hplace
    | some n' =>
      rw [hn, hn', Option.map_some, Option.map_some, Option.some.injEq] at hplace
      cases n <;> cases n' <;> simp_all [Node.kind]

theorem link_iff (h : Like t t') : t'.node? place = some (.link target) ↔ t.node? place = some (.link target) := by
  rcases h.node?_cases place with heq | ⟨content, mode, content', mode', hn, hn'⟩
  · rw [heq]
  · simp [hn, hn']

theorem isSome_eq (h : Like t t') (place : Place) : (t'.node? place).isSome = (t.node? place).isSome := by
  have hsome := congrArg Option.isSome (h place)
  rwa [Option.isSome_map, Option.isSome_map] at hsome

theorem noNewLinks (h : Like t t') : NoNewLinks t t' := fun _ _ hlink => h.link_iff.mp hlink

end Like

end Tree

end Runbook
