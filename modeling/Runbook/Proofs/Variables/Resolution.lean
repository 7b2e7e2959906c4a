import Runbook.Proofs.Variables.Expansion

/-! # Resolving variables

Overriding keeps the names and reads the values of the others by name alone, so the values do not depend on the order of
the declarations (`override_congr`); the pass over the texts of well formed templates is the pass over the templates
(`substituteBetween_rendered`). Together they give the resolved value of every name from which no cycle of references
can be reached: the full expansion of its value, in every order of the declarations (`resolve_expansion`). -/

namespace Runbook.Variables
open Declarations Relation

variable {b b' v declared : Bindings} {overrides : List Text} {opt name m n : Text} {d : Declarations}

/-! ### Overriding -/

theorem flag_injective (h : flag m = flag n) : m = n := List.append_cancel_left h

theorem ofFlag?_eq_some_iff : ofFlag? b opt = some n ↔ n ∈ b.names ∧ opt = flag n := by
  rw [ofFlag?]
  constructor
  · intro h
    exact ⟨List.mem_of_find?_eq_some h, (by simpa using List.find?_some h : flag n = opt).symm⟩
  · rintro ⟨hmem, rfl⟩
    cases hf : b.names.find? fun m => flag m == flag n with
    | none =>
      rw [List.find?_eq_none] at hf
      exact absurd (beq_self_eq_true (flag n)) (hf n hmem)
    | some m => rw [flag_injective (by simpa using List.find?_some hf : flag m = flag n)]

theorem override_cons {value : Text} {rest : List Text} (h : ofFlag? b opt = some name) :
    override b (opt :: value :: rest) = override (Bindings.set name value b) rest := by
  rw [override.eq_def]
  simp only [h]

theorem override_names (h : override b overrides = .ok v) : v.names = b.names := by
  fun_induction override b overrides with
  | case1 b =>
    obtain rfl := Except.ok.inj h
    rfl
  | case2 => cases h
  | case3 => cases h
  | case4 b opt name value rest hname ih =>
    rw [ih h, Bindings.names_set, if_pos (ofFlag?_eq_some_iff.mp hname).1]

theorem ofFlag?_congr (h : ∀ n, b'.get? n = b.get? n) : ofFlag? b' opt = ofFlag? b opt := by
  have hmem : ∀ n, n ∈ b'.names ↔ n ∈ b.names := fun n => by
    rw [← not_iff_not, ← Bindings.get?_eq_none_iff, ← Bindings.get?_eq_none_iff, h]
  apply Option.ext
  intro n
  rw [ofFlag?_eq_some_iff, ofFlag?_eq_some_iff, hmem]

/-- Overriding depends on the values of the names only, not on their order. -/
theorem override_congr (hb : ∀ n, b'.get? n = b.get? n) (h : override b overrides = .ok v) :
    ∃ v', override b' overrides = .ok v' ∧ ∀ n, v'.get? n = v.get? n := by
  fun_induction override b overrides generalizing b' with
  | case1 b =>
    obtain rfl := Except.ok.inj h
    exact ⟨b', rfl, hb⟩
  | case2 => cases h
  | case3 => cases h
  | case4 b opt name value rest hname ih =>
    have hname' : ofFlag? b' opt = some name := (ofFlag?_congr hb).trans hname
    have hset : ∀ n, (Bindings.set name value b').get? n = (Bindings.set name value b).get? n := fun n => by
      simp [Bindings.get?_set, hb]
    obtain ⟨v', hv', hget⟩ := ih hset h
    refine ⟨v', ?_, hget⟩
    rw [override_cons hname', hv']

theorem unset_eq_nil_iff : unset b = [] ↔ ∀ p ∈ b, p.2 ≠ [] := by
  rw [unset, Text.sort, ← List.length_eq_zero_iff, List.length_mergeSort, List.length_eq_zero_iff]
  simp [List.filter_eq_nil_iff]

theorem resolve_eq_ok (h : override declared overrides = .ok v) (hset : unset v = []) :
    resolve declared overrides = .ok (substituteBetween v) := by
  simp only [resolve, h, hset]

/-! ### The names -/

theorem names_pushInto (values : Bindings) (n : Text) : (pushInto values n).names = values.names := by
  simp [pushInto, Bindings.names, Function.comp_def]

theorem names_substituteBetween (values : Bindings) : (substituteBetween values).names = values.names := by
  have hpass : ∀ (order : List Text) (b : Bindings), (order.foldl pushInto b).names = b.names := by
    intro order
    induction order with
    | nil => exact fun b => rfl
    | cons n order ih => exact fun b => (ih _).trans (names_pushInto b n)
  exact hpass _ _

/-- Resolving keeps the names. -/
theorem names_resolve (h : resolve b overrides = .ok b') : b'.names = b.names := by
  unfold resolve at h
  split at h
  · cases h
  · rename_i values hvalues
    split at h
    · cases h
      rw [names_substituteBetween, override_names hvalues]
    · cases h

/-! ### The pass over texts -/

theorem pushInto_rendered (hd : d.WellFormed) (hn : Plain n) : pushInto d.rendered n = (d.push n).rendered := by
  have hvalue : (d.rendered.get? n).getD [] = Template.render ((d.lookup n).getD []) := by
    rw [get?_rendered]
    cases d.lookup n <;> rfl
  rw [pushInto, hvalue, rendered, rendered, push, List.map_map, List.map_map]
  apply List.map_congr_left
  intro p hp
  by_cases h : p.1 = n
  · simp [h]
  · simp [h, replace_render hn (hd p hp)]

theorem foldl_pushInto_rendered {order : List Text} (hd : d.WellFormed) (hn : ∀ n ∈ order, Plain n) :
    order.foldl pushInto d.rendered = (order.foldl push d).rendered := by
  induction order generalizing d with
  | nil => rfl
  | cons n order ih =>
    rw [List.foldl_cons, pushInto_rendered hd (hn n (by simp)), ih hd.push fun m hm => hn m (by simp [hm])]
    rfl

theorem substituteBetween_rendered (hd : d.WellFormed) (hn : ∀ n ∈ d.names, Plain n) :
    substituteBetween d.rendered = d.pass.rendered := by
  rw [substituteBetween, names_rendered, foldl_pushInto_rendered hd hn, Declarations.pass]

/-- Pushing the value of a name to which no value refers changes nothing. -/
theorem push_eq_self (h : ∀ p ∈ d, .reference n ∉ p.2) : d.push n = d := by
  refine (List.map_congr_left fun p hp => ?_).trans (List.map_id d)
  rw [fill_of_not_mem (h p hp), ite_self, id]

theorem pass_eq_self (h : ∀ p ∈ d, ∀ n ∈ d.names, .reference n ∉ p.2) : d.pass = d := by
  have hfold : ∀ order : List Text, (∀ n ∈ order, n ∈ d.names) → order.foldl push d = d := by
    intro order horder
    induction order with
    | nil => rfl
    | cons n order ih =>
      rw [List.foldl_cons, push_eq_self fun p hp => h p hp n (horder n (by simp)),
        ih fun m hm => horder m (by simp [hm])]
  exact hfold d.names fun n hn => hn

/-! ### The order of the declarations -/

/-- The declarations in the given order of their names. -/
def Declarations.reorder (d : Declarations) (order : List Text) : Declarations :=
  order.map fun n => (n, (d.lookup n).getD [])

variable {order : List Text}

theorem names_reorder : (d.reorder order).names = order := by
  simp [reorder, Declarations.names, Function.comp_def]

theorem lookup_reorder (h : ∀ n, n ∈ order ↔ n ∈ d.names) (n : Text) : (d.reorder order).lookup n = d.lookup n := by
  have hlookup : (d.reorder order).lookup n = if n ∈ order then some ((d.lookup n).getD []) else none := by
    clear h
    induction order with
    | nil => rfl
    | cons m order ih =>
      rw [reorder, List.map_cons, lookup_cons_eq, ← reorder, ih]
      by_cases hm : n = m
      · subst hm
        simp
      · simp [hm]
  rw [hlookup]
  by_cases hn : n ∈ order
  · obtain ⟨ps, hps⟩ := lookup_isSome_of_mem_names ((h n).mp hn)
    rw [if_pos hn, hps, Option.getD_some]
  · rw [if_neg hn]
    cases hps : d.lookup n with
    | none => rfl
    | some ps => exact absurd ((h n).mpr (mem_names_of_lookup hps)) hn

theorem refers_congr {d' : Declarations} (h : ∀ n, d'.lookup n = d.lookup n) : d'.Refers = d.Refers := by
  have hmem : ∀ n, n ∈ d'.names ↔ n ∈ d.names := fun n => by
    constructor
    · intro hn
      obtain ⟨ps, hps⟩ := lookup_isSome_of_mem_names hn
      exact mem_names_of_lookup ((h n).symm.trans hps)
    · intro hn
      obtain ⟨ps, hps⟩ := lookup_isSome_of_mem_names hn
      exact mem_names_of_lookup ((h n).trans hps)
  funext a n
  rw [Refers, Refers, h, hmem]

theorem Declarations.wellFormed_reorder (hd : d.WellFormed) : (d.reorder order).WellFormed := by
  intro p hp
  obtain ⟨n, -, rfl⟩ := List.mem_map.mp hp
  cases hn : d.lookup n with
  | none => exact fun _ h => absurd h (by simp)
  | some ps => exact hd _ (mem_of_lookup hn)

/-- Whatever the order of the declarations, their values after the overrides are the same templates. -/
theorem override_perm (hnodup : declared.names.Nodup) (h : override declared overrides = .ok d.rendered)
    {declared' : Bindings} (hperm : declared'.Perm declared) :
    override declared' overrides = .ok (d.reorder declared'.names).rendered := by
  obtain ⟨v', hv', hget⟩ := override_congr (fun n => Bindings.get?_perm hperm hnodup) h
  have hmem : ∀ n, n ∈ declared'.names ↔ n ∈ d.names := fun n => by
    rw [← names_rendered, override_names h]
    exact (hperm.map Prod.fst).mem_iff
  have hnodup' : v'.names.Nodup := by
    rw [override_names hv']
    exact (hperm.map Prod.fst).nodup_iff.mpr hnodup
  rw [hv']
  refine congrArg _ (Bindings.ext_of_get? ?_ hnodup' fun n _ => ?_)
  · rw [names_rendered, names_reorder, override_names hv']
  · rw [hget, get?_rendered, get?_rendered, lookup_reorder hmem]

theorem unset_reorder (hset : unset d.rendered = []) (hmem : ∀ n, n ∈ order ↔ n ∈ d.names) :
    unset (d.reorder order).rendered = [] := by
  rw [unset_eq_nil_iff] at hset ⊢
  intro p hp
  obtain ⟨q, hq, rfl⟩ := List.mem_map.mp hp
  obtain ⟨n, hn, rfl⟩ := List.mem_map.mp hq
  obtain ⟨ps, hps⟩ := lookup_isSome_of_mem_names ((hmem n).mp hn)
  have hne := hset (n, ps.render) (List.mem_map.mpr ⟨_, mem_of_lookup hps, rfl⟩)
  simpa [hps] using hne

/-! ### The resolved values -/

/-- The pass over declarations with the values of `d` gives the expansions by `d`. -/
theorem pass_expands_of_lookup {d' : Declarations} (hd' : d'.WellFormed) (hlookup : ∀ n, d'.lookup n = d.lookup n)
    {a : Text} {ps : Template} (ha : d.Settles a) (hps : d.lookup a = some ps) :
    ∃ qs, d'.pass.lookup a = some qs ∧ d.Expands ps qs.render := by
  have ha' : d'.Settles a := by
    rw [Settles, refers_congr hlookup]
    exact ha
  obtain ⟨qs, hqs, hexp, -⟩ := pass_expands hd' ha' ((hlookup a).trans hps)
  exact ⟨qs, hqs, hexp.congr fun n => (hlookup n).symm⟩

theorem pass_free (hd : d.WellFormed) (hnodup : d.names.Nodup) (hacyclic : ∀ n, ¬ TransGen d.Refers n n) :
    ∀ p ∈ d.pass, ∀ n ∈ d.names, .reference n ∉ p.2 := by
  have hnames : d.pass.names = d.names := (Reduced.pass hd).names
  intro p hp
  have hmem : p.1 ∈ d.names := hnames ▸ List.mem_map_of_mem (f := Prod.fst) hp
  obtain ⟨ps, hps⟩ := lookup_isSome_of_mem_names hmem
  obtain ⟨qs, hqs, -, hfree⟩ := pass_expands hd (settles_of_acyclic hacyclic) hps
  have hnodup' : d.pass.names.Nodup := hnames.symm ▸ hnodup
  have hlookup : d.pass.lookup p.1 = some p.2 := lookup_of_mem hnodup' hp
  rw [hlookup] at hqs
  obtain rfl := Option.some.inj hqs
  exact hfree

/-- Without a cycle no reference to a declared name is left in the values, and a second pass changes nothing. -/
theorem rendered_pass_final (hd : d.WellFormed) (hnodup : d.names.Nodup) (hplain : ∀ n ∈ d.names, Plain n)
    (hacyclic : ∀ n, ¬ TransGen d.Refers n n) :
    (∀ p ∈ d.pass.rendered, ∀ n ∈ d.names, ¬ reference n <:+: p.2) ∧
      substituteBetween d.pass.rendered = d.pass.rendered := by
  have hpass := Reduced.pass hd
  have hfree := pass_free hd hnodup hacyclic
  constructor
  · intro p hp n hn
    obtain ⟨q, hq, rfl⟩ := List.mem_map.mp hp
    rw [reference_infix_render (hplain n hn) (hpass.wellFormed q hq)]
    exact hfree q hq n hn
  · rw [substituteBetween_rendered hpass.wellFormed (hpass.names.symm ▸ hplain),
      pass_eq_self (hpass.names.symm ▸ hfree)]

/-- Resolving gives every name from which no cycle of references can be reached the full expansion of its value, in
    every order of the declarations. Without any cycle no reference to a declared name is left, and a second pass
    changes nothing. -/
theorem resolve_expansion (hnodup : declared.names.Nodup)
    (hvalid : ∀ n ∈ declared.names, VariableName.isValid n = true)
    (hover : override declared overrides = .ok d.rendered) (hset : unset d.rendered = []) (hd : d.WellFormed) :
    ∃ expansion : Text → Text,
      (∀ a ps, d.lookup a = some ps → d.Settles a → ∀ t, d.Expands ps t ↔ t = expansion a) ∧
      ∀ declared' : Bindings, declared'.Perm declared → ∃ result, resolve declared' overrides = .ok result ∧
        result.names = declared'.names ∧
        (∀ a ∈ declared.names, d.Settles a → result.get? a = some (expansion a)) ∧
        ((∀ n, ¬ TransGen d.Refers n n) →
          (∀ p ∈ result, ∀ n ∈ declared.names, ¬ reference n <:+: p.2) ∧ substituteBetween result = result) := by
  have hnames : d.names = declared.names := names_rendered.symm.trans (override_names hover)
  refine ⟨fun a => ((d.pass.lookup a).map Template.render).getD [], ?_, ?_⟩
  · intro a ps hps ha t
    obtain ⟨qs, hqs, hexp⟩ := pass_expands_of_lookup hd (fun _ => rfl) ha hps
    simp only [hqs, Option.map_some, Option.getD_some]
    exact ⟨fun ht => ht.unique hexp, fun ht => ht ▸ hexp⟩
  · intro declared' hperm
    have hmem : ∀ n, n ∈ declared'.names ↔ n ∈ d.names := fun n => by
      rw [hnames]
      exact (hperm.map Prod.fst).mem_iff
    -- The declarations in the new order, whose values are those of `d`.
    have hd' : (d.reorder declared'.names).WellFormed := wellFormed_reorder hd
    have hnames' : (d.reorder declared'.names).names = declared'.names := names_reorder
    have hlookup := lookup_reorder hmem
    generalize hd'_eq : d.reorder declared'.names = d' at hd' hnames' hlookup
    have hnodup' : d'.names.Nodup := hnames' ▸ (hperm.map Prod.fst).nodup_iff.mpr hnodup
    have hplain : ∀ n ∈ d'.names, Plain n := fun n hn =>
      plain_of_isValid (hvalid n (hnames ▸ (hmem n).mp (hnames' ▸ hn)))
    refine ⟨d'.pass.rendered, ?_, names_rendered.trans ((Reduced.pass hd').names.trans hnames'), ?_, ?_⟩
    · rw [resolve_eq_ok (override_perm hnodup hover hperm) (unset_reorder hset hmem), hd'_eq,
        substituteBetween_rendered hd' hplain]
    · intro a ha hsettles
      obtain ⟨ps, hps⟩ := lookup_isSome_of_mem_names (hnames.symm ▸ ha)
      obtain ⟨qs, hqs, hexp⟩ := pass_expands_of_lookup hd' hlookup hsettles hps
      obtain ⟨rs, hrs, hexp'⟩ := pass_expands_of_lookup hd (fun _ => rfl) hsettles hps
      simp only [get?_rendered, hqs, hrs, Option.map_some, Option.getD_some, hexp.unique hexp']
    · intro hacyclic
      obtain ⟨hfree, hsecond⟩ := rendered_pass_final hd' hnodup' hplain (refers_congr hlookup ▸ hacyclic)
      exact ⟨fun p hp n hn => hfree p hp n (hnames' ▸ (hmem n).mpr (hnames ▸ hn)), hsecond⟩

/-! A chain whose links are declared in the order in which one pass cannot follow them one by one. -/

theorem Declarations.not_cyclic_of_rank (rank : Text → Nat) (h : ∀ a n, d.Refers a n → rank n < rank a) :
    ¬ TransGen d.Refers n n := by
  intro hn
  have hlt : ∀ a n, TransGen d.Refers a n → rank n < rank a := fun a n han => by
    induction han with
    | single han => exact h _ _ han
    | tail _ hmn ih => exact Nat.lt_trans (h _ _ hmn) ih
  exact Nat.lt_irrefl _ (hlt n n hn)

/-- Three variables: the first refers to the second and the second to the third. -/
def chain : Declarations :=
  [(['a'], [.reference ['b'], .literal ['!']]), (['b'], [.literal ['<'], .reference ['c'], .literal ['>']]),
    (['c'], [.literal ['y']])]

theorem chain_acyclic (n : Text) : ¬ TransGen chain.Refers n n := by
  refine not_cyclic_of_rank (fun n => if n = ['a'] then 2 else if n = ['b'] then 1 else 0) ?_
  rintro a m ⟨ps, hps, hm, -⟩
  have hmem := mem_of_lookup hps
  simp only [chain, List.mem_cons, Prod.mk.injEq, List.not_mem_nil, or_false] at hmem
  rcases hmem with ⟨rfl, rfl⟩ | ⟨rfl, rfl⟩ | ⟨rfl, rfl⟩ <;> simp at hm <;> subst hm <;> decide

theorem resolve_expansion_chain :
    ∃ result, resolve [(['c'], ['x']), (['b'], "<$\x7bc\x7d>"), (['a'], "$\x7bb\x7d!")] ["--c", "y"] = .ok result ∧
      result.get? ['a'] = some "<y>!".toList ∧ substituteBetween result = result := by
  have hover : override [(['a'], "$\x7bb\x7d!"), (['b'], "<$\x7bc\x7d>"), (['c'], ['x'])] ["--c", "y"] =
      .ok chain.rendered := by decide
  obtain ⟨expansion, hexp, horder⟩ :=
    resolve_expansion (by decide) (by decide) hover (unset_eq_nil_iff.mpr (by decide)) (by decide)
  obtain ⟨result, hresult, -, hvalue, hfinal⟩ :=
    horder [(['c'], ['x']), (['b'], "<$\x7bc\x7d>"), (['a'], "$\x7bb\x7d!")] (by decide)
  have hset : chain.Settles ['a'] := settles_of_acyclic chain_acyclic
  have hchain : chain.Expands [.reference ['b'], .literal ['!']] "<y>!".toList :=
    .known rfl (.literal ['<'] (.known rfl (.literal ['y'] .nil) (.literal ['>'] .nil))) (.literal ['!'] .nil)
  have ha : "<y>!".toList = expansion ['a'] := (hexp _ _ rfl hset _).mp hchain
  exact ⟨result, hresult, ha ▸ hvalue ['a'] (by decide) hset, (hfinal chain_acyclic).2⟩

end Runbook.Variables
