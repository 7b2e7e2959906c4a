import Runbook.Proofs.Variables.Resolution

/-! # References that stay in a cycle

One pass over the values leaves a reference to a declared name only if the name is on a cycle of the references as they
were declared, and it brings no value a reference to a name that was not involved before. This is what can be left of
the declarations after any number of pushed names (`Declarations.Remains`), read in the texts of the values.

Main statement: `substituteBetween_cycles`. -/

namespace Runbook.Variables
open Declarations Relation

variable {d : Declarations}

/-- After the pass, a declared name to which some value still refers is on a cycle of the declared references, and a
    value refers only to names that it referred to before, directly or through other variables. -/
theorem substituteBetween_cycles (hnodup : d.names.Nodup) (hvalid : ∀ n ∈ d.names, VariableName.isValid n = true)
    (hd : d.WellFormed) : ∀ p ∈ substituteBetween d.rendered,
      (∀ n ∈ d.names, reference n <:+: p.2 → TransGen d.Refers n n) ∧
        ∀ n, Plain n → reference n <:+: p.2 → d.Involves p.1 n := by
  have hplain : ∀ n ∈ d.names, Plain n := fun n hn => plain_of_isValid (hvalid n hn)
  have hpass := Remains.pass hd
  intro p hp
  rw [substituteBetween_rendered hd hplain] at hp
  obtain ⟨q, hq, rfl⟩ := List.mem_map.mp hp
  have hlookup : d.pass.lookup q.1 = some q.2 := lookup_of_mem (hpass.names ▸ hnodup : d.pass.names.Nodup) hq
  refine ⟨fun n hn hmem => ?_, fun n hn hmem => ?_⟩
  · rw [reference_infix_render (hplain n hn) (hpass.wellFormed q hq)] at hmem
    exact hpass.cyclic hlookup hmem (by simpa using hn)
  · rw [reference_infix_render hn (hpass.wellFormed q hq)] at hmem
    exact hpass.involves hlookup hmem

/-- Two variables that refer to each other, and before them one that refers to one of them and to no variable. -/
def loop : Declarations :=
  [(['c'], [.literal ['<'], .reference ['a'], .reference ['u'], .literal ['>']]), (['a'], [.reference ['b']]),
    (['b'], [.reference ['a'], .literal ['!']])]

/-- The value outside of the cycle comes to refer to the other name of the cycle. -/
theorem substituteBetween_cycles_loop :
    loop.names.Nodup ∧ (∀ n ∈ loop.names, VariableName.isValid n = true) ∧ loop.WellFormed ∧
      (['c'], "<$\x7bb\x7d!$\x7bu\x7d>".toList) ∈ substituteBetween loop.rendered ∧
      TransGen loop.Refers ['b'] ['b'] ∧ loop.Involves ['c'] ['b'] ∧ loop.Involves ['c'] ['u'] := by
  have hnodup : loop.names.Nodup := by decide
  have hvalid : ∀ n ∈ loop.names, VariableName.isValid n = true := by decide
  have hwell : loop.WellFormed := by decide
  have hvalue : (['c'], "<$\x7bb\x7d!$\x7bu\x7d>".toList) ∈ substituteBetween loop.rendered := by decide +kernel
  obtain ⟨hcyclic, hinvolves⟩ := substituteBetween_cycles hnodup hvalid hwell _ hvalue
  exact ⟨hnodup, hvalid, hwell, hvalue, hcyclic ['b'] (by decide) (by decide +kernel),
    hinvolves ['b'] (by decide) (by decide +kernel), hinvolves ['u'] (by decide) (by decide +kernel)⟩

end Runbook.Variables
