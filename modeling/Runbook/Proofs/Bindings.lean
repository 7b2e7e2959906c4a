import Runbook.Bindings
import Mathlib.Data.List.Nodup
import Mathlib.Data.List.Perm.Basic

/-! # Laws of bindings

A list of bindings is read through two views, its names in order and the value of each name. Setting a name keeps
the names that are there and adds it at the end otherwise, and changes the value of no other name; bindings whose
names are distinct are determined by the two views (`ext_of_get?`). -/

namespace Runbook

section Lookup
variable {α β : Type} [BEq α] [LawfulBEq α] [DecidableEq α]

theorem lookup_cons_eq (a : α) (p : α × β) (l : List (α × β)) :
    List.lookup a (p :: l) = if a = p.1 then some p.2 else List.lookup a l := by
  obtain ⟨k, v⟩ := p
  by_cases h : a = k
  · subst h
    simp
  · have hb : (a == k) = false := by simpa using h
    simp only [List.lookup_cons, hb, if_neg h]

omit [DecidableEq α] in
theorem mem_of_lookup {a : α} {b : β} {l : List (α × β)} (h : l.lookup a = some b) :
    (a, b) ∈ l := by
  obtain ⟨l₁, l₂, rfl, -⟩ := List.lookup_eq_some_iff.mp h
  simp

omit [DecidableEq α] in
theorem lookup_of_mem {a : α} {b : β} {l : List (α × β)} (hl : (l.map Prod.fst).Nodup) (h : (a, b) ∈ l) :
    l.lookup a = some b := by
  induction l with
  | nil => simp at h
  | cons p l ih =>
    rw [List.map_cons, List.nodup_cons] at hl
    rcases List.mem_cons.mp h with rfl | h
    · simp
    · have hne : (a == p.1) = false := by
        simpa using fun e : a = p.1 => hl.1 (e ▸ List.mem_map_of_mem (f := Prod.fst) h)
      rw [List.lookup_cons, hne]
      exact ih hl.2 h

end Lookup

namespace Bindings

variable {b b' : Bindings} {m n value : Text}

/-! ### The two views -/

@[simp] theorem names_nil : names [] = [] := rfl

@[simp] theorem names_cons (p : Text × Text) : names (p :: b) = p.1 :: names b := rfl

@[simp] theorem get?_nil : get? [] n = none := rfl

theorem get?_cons (p : Text × Text) : get? (p :: b) n = if n = p.1 then some p.2 else get? b n :=
  lookup_cons_eq n p b

theorem get?_eq_none_iff : b.get? n = none ↔ n ∉ b.names := by
  induction b with
  | nil => simp
  | cons p b ih => by_cases h : n = p.1 <;> simp [get?_cons, h, ih]

theorem get?_eq_some_iff (hb : b.names.Nodup) : b.get? n = some value ↔ (n, value) ∈ b :=
  ⟨mem_of_lookup, lookup_of_mem hb⟩

/-- Bindings of distinct names are determined by their names and the value of each. -/
theorem ext_of_get? (hnames : b.names = b'.names) (hb : b.names.Nodup) (hget : ∀ n ∈ b.names, b.get? n = b'.get? n) :
    b = b' := by
  induction b generalizing b' with
  | nil =>
    cases b' with
    | nil => rfl
    | cons p b' => simp at hnames
  | cons p b ih =>
    cases b' with
    | nil => simp at hnames
    | cons q b' =>
      simp only [names_cons, List.cons.injEq] at hnames
      rw [names_cons, List.nodup_cons] at hb
      have hhead : p.2 = q.2 := by
        have h := hget p.1 (by simp)
        rw [get?_cons, get?_cons, if_pos rfl, if_pos hnames.1] at h
        exact Option.some.inj h
      have htail : b = b' := by
        refine ih hnames.2 hb.2 fun n hn => ?_
        have hne : n ≠ p.1 := fun e => hb.1 (e ▸ hn)
        have h := hget n (by simp [hn])
        rwa [get?_cons, get?_cons, if_neg hne, if_neg (hnames.1 ▸ hne)] at h
      rw [htail, Prod.ext hnames.1 hhead]

theorem get?_perm (h : b'.Perm b) (hb : b.names.Nodup) : b'.get? n = b.get? n := by
  have hb' : b'.names.Nodup := (h.map Prod.fst).nodup_iff.mpr hb
  cases hv : b.get? n with
  | none =>
    rw [get?_eq_none_iff] at hv ⊢
    exact fun hm => hv ((h.map Prod.fst).mem_iff.mp hm)
  | some value => exact (get?_eq_some_iff hb').mpr (h.mem_iff.mpr (mem_of_lookup hv))

/-! ### Setting -/

theorem get?_set : (set n value b).get? m = if m = n then some value else b.get? m := by
  induction b with
  | nil => simp [set, get?_cons]
  | cons p b ih =>
    obtain ⟨k, v⟩ := p
    by_cases hk : k = n
    · subst hk
      by_cases hm : m = k <;> simp [set, get?_cons, hm]
    · by_cases hm : m = k
      · subst hm
        simp [set, get?_cons, hk]
      · simp [set, get?_cons, hk, hm, ih]

theorem names_set : (set n value b).names = if n ∈ b.names then b.names else b.names ++ [n] := by
  induction b with
  | nil => simp [set]
  | cons p b ih =>
    obtain ⟨k, v⟩ := p
    by_cases hk : k = n
    · subst hk
      simp [set]
    · have hk' : n ≠ k := Ne.symm hk
      by_cases hn : n ∈ names b <;> simp [set, hk, hk', ih, hn]

theorem nodup_names_set (hb : b.names.Nodup) : (set n value b).names.Nodup := by
  rw [names_set]
  split
  · exact hb
  · rename_i hn
    rw [List.nodup_append]
    exact ⟨hb, List.nodup_singleton n, by simpa using fun a ha (e : a = n) => hn (e ▸ ha)⟩

theorem set_of_not_mem (hn : n ∉ b.names) : set n value b = b ++ [(n, value)] := by
  induction b with
  | nil => rfl
  | cons p b ih =>
    rw [names_cons, List.mem_cons, not_or] at hn
    obtain ⟨hp, hb⟩ := hn
    rw [set, if_neg (Ne.symm hp), ih hb]
    rfl

theorem mem_set {p : Text × Text} (h : p ∈ set n value b) : p = (n, value) ∨ p ∈ b := by
  induction b with
  | nil => exact Or.inl (List.mem_singleton.mp h)
  | cons q b ih =>
    rw [set] at h
    split at h
    · rename_i hq
      rcases List.mem_cons.mp h with rfl | h
      · exact Or.inl (by rw [hq])
      · exact Or.inr (.tail _ h)
    · rcases List.mem_cons.mp h with rfl | h
      · exact Or.inr List.mem_cons_self
      · exact (ih h).imp_right (.tail _)

theorem set_eq_map (hb : b.names.Nodup) (hn : n ∈ b.names) :
    set n value b = b.map fun p => (p.1, if p.1 = n then value else p.2) := by
  induction b with
  | nil => cases hn
  | cons p b ih =>
    obtain ⟨hp, hb⟩ := List.nodup_cons.mp hb
    by_cases hpn : p.1 = n
    · have hrest : ∀ q ∈ b, q.1 ≠ n := fun q hq h => hp (hpn.trans h.symm ▸ List.mem_map_of_mem (f := Prod.fst) hq)
      rw [set, if_pos hpn, List.map_cons, if_pos hpn]
      refine congrArg _ ((List.map_congr_left fun q hq => ?_).trans (List.map_id b)).symm
      rw [if_neg (hrest q hq), id]
    · rw [set, if_neg hpn, List.map_cons, if_neg hpn, ih hb ((List.mem_cons.mp hn).resolve_left (Ne.symm hpn))]

theorem set_set (n value value' : Text) (b : Bindings) : set n value (set n value' b) = set n value b := by
  induction b with
  | nil => simp [set]
  | cons p b ih =>
    by_cases hp : p.1 = n
    · simp [set, hp]
    · simp [set, hp, ih]

/-- Setting a name that is there and setting another name can be done in either order. -/
theorem set_comm {value' : Text} (hmn : m ≠ n) (hn : n ∈ b.names) :
    set m value (set n value' b) = set n value' (set m value b) := by
  induction b with
  | nil => cases hn
  | cons p b ih =>
    by_cases hpn : p.1 = n
    · have hpm : p.1 ≠ m := fun hpm => hmn (hpm.symm.trans hpn)
      simp [set, hpn, hmn.symm]
    · have ih := ih ((List.mem_cons.mp hn).resolve_left (Ne.symm hpn))
      by_cases hpm : p.1 = m
      · simp [set, hpm, hmn]
      · simp [set, hpn, hpm, ih]

/-! ### One binding among others -/

theorem get?_insert (h : n ∉ b.names) (value : Text) (e : Bindings) : get? (b ++ (n, value) :: e) n = some value := by
  induction b with
  | nil => rw [List.nil_append, get?_cons, if_pos rfl]
  | cons q b ih =>
    obtain ⟨hne, hrest⟩ : n ≠ q.1 ∧ n ∉ names b := by simpa using h
    rw [List.cons_append, get?_cons, if_neg hne, ih hrest]

/-- Setting another name does the same before and after a binding. -/
theorem set_insert (hmn : m ≠ n) (x value : Text) (b e : Bindings) : ∃ b' e',
    set m x (b ++ e) = b' ++ e' ∧ set m x (b ++ (n, value) :: e) = b' ++ (n, value) :: e' := by
  induction b with
  | nil => exact ⟨[], set m x e, rfl, by simp [set, Ne.symm hmn]⟩
  | cons q b ih =>
    by_cases hq : q.1 = m
    · exact ⟨(q.1, x) :: b, e, by simp [set, hq], by simp [set, hq]⟩
    · obtain ⟨b', e', hb, he⟩ := ih
      exact ⟨q :: b', e', by simp [set, hq, hb], by simp [set, hq, he]⟩

end Bindings

end Runbook
