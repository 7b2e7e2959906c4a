import Runbook.CommandLine.Command
import Runbook.Proofs.Variables.Resolution

/-! # What overrides come to

Overrides are read as pairs of a flag and a value from the left. Either some first flag is that of no declared name, or
the last word is a flag without a value, or every pair gives a declared name a value (`exists_written`), of which the
last one counts (`override_written_append`). The outcome of resolving is told by that reading alone (`Outcome`), so
pairs may be put in any order in which the ones with the same flag stay as they were. No value becomes empty, whatever
the references in it.

Main statement: `resolve_overrides`. -/

namespace Runbook.Variables

variable {b declared : Bindings} {pairs pairs' : List (Text × Text)} {overrides rest : List Text}
  {opt n m value s old new : Text} {r : Except VariableError Bindings}

/-- Pairs of a flag and a value, written one after the other. -/
def written (pairs : List (Text × Text)) : List Text := pairs.flatMap fun p => [p.1, p.2]

/-- The flags of the declared names. -/
def flags (declared : Bindings) : List Text := declared.names.map flag

/-- The value that pairs give to a name: that of the last pair with its flag. -/
def given (pairs : List (Text × Text)) (n : Text) : Option Text :=
  (pairs.filter fun p => p.1 = flag n).getLast?.map Prod.snd

/-- The declared names, each with the value that the pairs give it, or else its default. -/
def overridden (declared : Bindings) (pairs : List (Text × Text)) : Bindings :=
  declared.map fun p => (p.1, (given pairs p.1).getD p.2)

/-- What resolving comes to, by the first reading of the overrides that applies. -/
inductive Outcome (declared : Bindings) (overrides : List Text) : Except VariableError Bindings → Prop
  /-- The first flag that is that of no declared name. -/
  | unknownFlag {pairs : List (Text × Text)} {opt : Text} {rest : List Text}
      (hread : overrides = written pairs ++ opt :: rest) (hpairs : ∀ p ∈ pairs, p.1 ∈ flags declared)
      (hopt : opt ∉ flags declared) :
      Outcome declared overrides (.error (.unknownFlag opt (Text.sort (flags declared))))
  /-- A flag in last place. -/
  | missingValue {pairs : List (Text × Text)} {opt : Text}
      (hread : overrides = written pairs ++ [opt]) (hpairs : ∀ p ∈ pairs, p.1 ∈ flags declared)
      (hopt : opt ∈ flags declared) : Outcome declared overrides (.error (.missingValue opt))
  /-- The names whose value is empty, if there are any. -/
  | unset {pairs : List (Text × Text)} {names : List Text}
      (hread : overrides = written pairs) (hpairs : ∀ p ∈ pairs, p.1 ∈ flags declared)
      (hnames : names = Text.sort (((overridden declared pairs).filter fun p => p.2 = []).map Prod.fst))
      (hne : names ≠ []) : Outcome declared overrides (.error (.unset names))
  /-- The values, with the references between them replaced. -/
  | set {pairs : List (Text × Text)} (hread : overrides = written pairs) (hpairs : ∀ p ∈ pairs, p.1 ∈ flags declared)
      (hvalues : ∀ p ∈ overridden declared pairs, p.2 ≠ []) :
      Outcome declared overrides (.ok (substituteBetween (overridden declared pairs)))

/-! ### The values that pairs give -/

theorem given_cons (p : Text × Text) :
    given (p :: pairs) m = (given pairs m).or (if p.1 = flag m then some p.2 else none) := by
  by_cases hp : p.1 = flag m
  · rw [given, given, List.filter_cons_of_pos (by simpa using hp), List.getLast?_cons, if_pos hp]
    cases (pairs.filter fun p => p.1 = flag m).getLast? <;> rfl
  · rw [given, given, List.filter_cons_of_neg (by simpa using hp), if_neg hp, Option.or_none]

theorem names_overridden : (overridden declared pairs).names = declared.names := by
  simp [overridden, Bindings.names, Function.comp_def]

theorem overridden_nil : overridden declared [] = declared := by
  simp [overridden, given]

theorem overridden_set (hb : b.names.Nodup) (hn : n ∈ b.names) :
    overridden (Bindings.set n value b) pairs = overridden b ((flag n, value) :: pairs) := by
  rw [overridden, Bindings.set_eq_map hb hn, List.map_map]
  refine List.map_congr_left fun p _ => ?_
  rw [Function.comp_apply, given_cons]
  by_cases hp : p.1 = n
  · cases given pairs p.1 <;> simp [hp]
  · have hflag : flag n ≠ flag p.1 := fun h => hp (flag_injective h).symm
    simp [hp, hflag]

/-- Pairs that give values to declared names leave these names with the values last given. -/
theorem override_written_append (hb : b.names.Nodup) (hpairs : ∀ p ∈ pairs, p.1 ∈ flags b) (rest : List Text) :
    override b (written pairs ++ rest) = override (overridden b pairs) rest := by
  induction pairs generalizing b with
  | nil => rw [overridden_nil]; rfl
  | cons p pairs ih =>
    obtain ⟨opt, value⟩ := p
    obtain ⟨hopt, hpairs⟩ := List.forall_mem_cons.mp hpairs
    obtain ⟨n, hn, rfl⟩ := List.mem_map.mp hopt
    have hnames : (Bindings.set n value b).names = b.names := by rw [Bindings.names_set, if_pos hn]
    have hread : override b (written ((flag n, value) :: pairs) ++ rest) =
        override (Bindings.set n value b) (written pairs ++ rest) := override_cons (ofFlag?_eq_some_iff.mpr ⟨hn, rfl⟩)
    rw [hread, ih (hnames.symm ▸ hb) (by rwa [flags, hnames]), overridden_set hb hn]

theorem flags_overridden (declared : Bindings) (pairs : List (Text × Text)) :
    flags (overridden declared pairs) = flags declared := by
  rw [flags, names_overridden, flags]

theorem override_of_not_mem_flags (hopt : opt ∉ flags b) :
    override b (opt :: rest) = .error (.unknownFlag opt (Text.sort (flags b))) := by
  have hnone : ofFlag? b opt = none := by
    refine Option.eq_none_iff_forall_ne_some.mpr fun n hn => hopt ?_
    obtain ⟨hmem, rfl⟩ := ofFlag?_eq_some_iff.mp hn
    exact List.mem_map_of_mem hmem
  rw [override.eq_def]
  simp only [hnone, flags]

theorem override_of_mem_flags (hopt : opt ∈ flags b) : override b [opt] = .error (.missingValue opt) := by
  obtain ⟨n, hn, rfl⟩ := List.mem_map.mp hopt
  rw [override.eq_def]
  simp only [ofFlag?_eq_some_iff.mpr ⟨hn, rfl⟩]

theorem override_written (hb : b.names.Nodup) (hpairs : ∀ p ∈ pairs, p.1 ∈ flags b) :
    override b (written pairs) = .ok (overridden b pairs) := by
  simpa [override] using override_written_append hb hpairs []

/-- Overrides are pairs that give values to declared names, and then nothing, a flag alone, or what is no flag. -/
theorem exists_written (declared : Bindings) : ∀ overrides : List Text, ∃ pairs rest,
    overrides = written pairs ++ rest ∧ (∀ p ∈ pairs, p.1 ∈ flags declared) ∧
      (rest = [] ∨ (∃ opt ∈ flags declared, rest = [opt]) ∨ ∃ opt tail, opt ∉ flags declared ∧ rest = opt :: tail)
  | [] => ⟨[], [], rfl, by simp, .inl rfl⟩
  | opt :: rest => by
    by_cases hopt : opt ∈ flags declared
    · cases rest with
      | nil => exact ⟨[], [opt], rfl, by simp, .inr (.inl ⟨opt, hopt, rfl⟩)⟩
      | cons value rest =>
        obtain ⟨pairs, tail, rfl, hpairs, htail⟩ := exists_written declared rest
        exact ⟨(opt, value) :: pairs, tail, rfl, List.forall_mem_cons.mpr ⟨hopt, hpairs⟩, htail⟩
    · exact ⟨[], opt :: rest, rfl, by simp, .inr (.inr ⟨opt, rest, hopt, rfl⟩)⟩

/-! ### The outcome -/

theorem unset_eq (b : Bindings) : unset b = Text.sort ((b.filter fun p => p.2 = []).map Prod.fst) := by
  have hempty : (fun p : Text × Text => p.2.isEmpty) = fun p => decide (p.2 = []) := by
    funext p
    cases p.2 <;> rfl
  rw [unset, hempty]

theorem resolve_of_override_error {e : VariableError} (h : override declared overrides = .error e) :
    resolve declared overrides = .error e := by
  simp only [resolve, h]

theorem resolve_of_unset {v : Bindings} (h : override declared overrides = .ok v) (hne : unset v ≠ []) :
    resolve declared overrides = .error (.unset (unset v)) := by
  simp only [resolve, h]

theorem resolve_of_outcome (hnodup : declared.names.Nodup) (h : Outcome declared overrides r) :
    resolve declared overrides = r := by
  cases h with
  | @unknownFlag pairs opt rest hread hpairs hopt =>
    rw [← flags_overridden declared pairs] at hopt ⊢
    refine resolve_of_override_error ?_
    rw [hread, override_written_append hnodup hpairs, override_of_not_mem_flags hopt]
  | @missingValue pairs opt hread hpairs hopt =>
    rw [← flags_overridden declared pairs] at hopt
    refine resolve_of_override_error ?_
    rw [hread, override_written_append hnodup hpairs, override_of_mem_flags hopt]
  | @unset pairs names hread hpairs hnames hne =>
    rw [← unset_eq] at hnames
    subst hread hnames
    exact resolve_of_unset (override_written hnodup hpairs) hne
  | @set pairs hread hpairs hvalues =>
    subst hread
    exact resolve_eq_ok (override_written hnodup hpairs) (unset_eq_nil_iff.mpr hvalues)

theorem exists_outcome (declared : Bindings) (overrides : List Text) : ∃ r, Outcome declared overrides r := by
  obtain ⟨pairs, rest, hread, hpairs, rfl | ⟨opt, hopt, rfl⟩ | ⟨opt, tail, hopt, rfl⟩⟩ :=
    exists_written declared overrides
  · rw [List.append_nil] at hread
    by_cases hvalues : ∀ p ∈ overridden declared pairs, p.2 ≠ []
    · exact ⟨_, .set hread hpairs hvalues⟩
    · refine ⟨_, .unset hread hpairs rfl ?_⟩
      rwa [← unset_eq, ne_eq, unset_eq_nil_iff]
  · exact ⟨_, .missingValue hread hpairs hopt⟩
  · exact ⟨_, .unknownFlag hread hpairs hopt⟩

theorem resolve_eq_iff (hnodup : declared.names.Nodup) :
    resolve declared overrides = r ↔ Outcome declared overrides r := by
  refine ⟨?_, resolve_of_outcome hnodup⟩
  rintro rfl
  obtain ⟨r, hr⟩ := exists_outcome declared overrides
  exact resolve_of_outcome hnodup hr ▸ hr

/-! ### Values that are not empty -/

theorem replace_ne_nil (hnew : new ≠ []) (hs : s ≠ []) : Text.replace old new s ≠ [] := by
  obtain ⟨c, s, rfl⟩ := List.exists_cons_of_ne_nil hs
  rw [Text.replace, Text.replaceFrom]
  split
  · exact hs
  · split
    · exact List.append_ne_nil_of_left_ne_nil hnew _
    · exact List.cons_ne_nil c _

theorem pushInto_ne_nil (hn : n ∈ b.names) (hb : ∀ p ∈ b, p.2 ≠ []) : ∀ p ∈ pushInto b n, p.2 ≠ [] := by
  obtain ⟨value, hvalue⟩ := Option.ne_none_iff_exists'.mp (mt Bindings.get?_eq_none_iff.mp (not_not.mpr hn))
  intro p hp
  obtain ⟨q, hq, rfl⟩ := List.mem_map.mp hp
  by_cases hqn : q.1 = n
  · simpa [hqn] using hb q hq
  · have hne : value ≠ [] := hb (n, value) (mem_of_lookup hvalue)
    simpa [hqn, hvalue] using replace_ne_nil hne (hb q hq)

theorem substituteBetween_ne_nil (hb : ∀ p ∈ b, p.2 ≠ []) : ∀ p ∈ substituteBetween b, p.2 ≠ [] := by
  have hpass : ∀ (order : List Text) (v : Bindings), (∀ n ∈ order, n ∈ v.names) → (∀ p ∈ v, p.2 ≠ []) →
      ∀ p ∈ order.foldl pushInto v, p.2 ≠ [] := by
    intro order
    induction order with
    | nil => exact fun v _ hv => hv
    | cons n order ih =>
      intro v horder hv
      obtain ⟨hn, horder⟩ := List.forall_mem_cons.mp horder
      exact ih (pushInto v n) (by rwa [names_pushInto]) (pushInto_ne_nil hn hv)
  exact hpass b.names b (fun n hn => hn) hb

/-! ### The order of the pairs -/

theorem written_cons (p : Text × Text) : written (p :: pairs) = p.1 :: p.2 :: written pairs := rfl

theorem written_injective : ∀ {pairs pairs' : List (Text × Text)}, written pairs = written pairs' → pairs = pairs'
  | [], [], _ => rfl
  | [], _ :: _, h => by cases h
  | _ :: _, [], h => by cases h
  | p :: pairs, q :: pairs', h => by
    simp only [written_cons, List.cons.injEq] at h
    rw [written_injective h.2.2, Prod.ext h.1 h.2.1]

theorem length_filter_flag_le_one (hnodup : (pairs.map Prod.fst).Nodup) (opt : Text) :
    (pairs.filter fun p => p.1 = opt).length ≤ 1 := by
  have hflags : (pairs.filter fun p => p.1 = opt).map Prod.fst =
      List.replicate (pairs.filter fun p => p.1 = opt).length opt := by
    simp [List.eq_replicate_iff]
  have hsub := hnodup.sublist (List.filter_sublist (p := fun p => p.1 = opt) |>.map Prod.fst)
  rwa [hflags, List.nodup_replicate] at hsub

theorem filter_eq_of_perm (hperm : pairs'.Perm pairs) (hnodup : (pairs.map Prod.fst).Nodup) (opt : Text) :
    pairs'.filter (fun p => p.1 = opt) = pairs.filter fun p => p.1 = opt := by
  have hfilter := hperm.filter fun p => p.1 = opt
  have hle := length_filter_flag_le_one hnodup opt
  generalize pairs.filter (fun p => p.1 = opt) = l at hfilter hle
  rcases l with _ | ⟨p, _ | ⟨q, l⟩⟩
  · exact hfilter.eq_nil
  · exact hfilter.eq_singleton
  · simp at hle

/-- Pairs in another order, those with the same flag as they were, come to the same values. -/
theorem resolve_reorder (hnodup : declared.names.Nodup)
    (h : ∀ opt, pairs'.filter (fun p => p.1 = opt) = pairs.filter fun p => p.1 = opt) {v : Bindings}
    (hv : resolve declared (written pairs) = .ok v) : resolve declared (written pairs') = .ok v := by
  cases (resolve_eq_iff hnodup).mp hv with
  | @set read hread hpairs hvalues =>
    obtain rfl := written_injective hread
    have hvalue : overridden declared pairs' = overridden declared pairs := by simp only [overridden, given, h]
    have hpairs' : ∀ p ∈ pairs', p.1 ∈ flags declared := by
      intro p hp
      have hmem : p ∈ pairs'.filter fun q => q.1 = p.1 := by simp [hp]
      rw [h] at hmem
      exact hpairs p (List.mem_of_mem_filter hmem)
    rw [← hvalue] at hvalues ⊢
    exact resolve_of_outcome hnodup (.set rfl hpairs' hvalues)

/-! ### The names that are required -/

theorem mem_required_iff {r : Recipe} (hnodup : r.defaults.names.Nodup) {p : Text × Text} (hp : p ∈ r.defaults) :
    p.1 ∈ r.required ↔ p.2 = [] := by
  have hmem : p.1 ∈ r.required ↔ (p.1, []) ∈ r.defaults := by
    simp [Recipe.required, Text.sort, List.mem_mergeSort]
  rw [hmem, ← Bindings.get?_eq_some_iff hnodup, (Bindings.get?_eq_some_iff hnodup).mpr hp]
  simp

/-- Without overrides the names without a value are the required ones. -/
theorem resolve_nil_eq_unset_iff {r : Recipe} {names : List Text} :
    resolve r.defaults [] = .error (.unset names) ↔ names = r.required ∧ names ≠ [] := by
  constructor
  · intro h
    by_cases hunset : unset r.defaults = []
    · cases (resolve_eq_ok rfl hunset).symm.trans h
    · cases (resolve_of_unset rfl hunset).symm.trans h
      exact ⟨rfl, hunset⟩
  · rintro ⟨rfl, hne⟩
    exact resolve_of_unset rfl hne

theorem variableLine_eq_required_iff {width : Nat} {p : Text × Text} :
    CommandLine.variableLine width p = "  --" ++ Text.padRight width p.1 ++ " (required)" ↔ p.2 = [] := by
  have hlead : ("  --" ++ Text.padRight width p.1 ++ " (required)" : Text) =
      "  --" ++ Text.padRight width p.1 ++ " " ++ "(required)" := by simp
  rw [hlead, CommandLine.variableLine, List.append_cancel_left_eq]
  cases p.2 <;> simp

/-- Resolving comes to what the overrides say when they are read as pairs from the left. When it comes to values, they
    are those of the declared names in their order, and none is empty. Without overrides what is missing are the
    required names, which are also shown as such. Pairs with distinct flags may be put in any order. -/
theorem resolve_overrides (hnodup : declared.names.Nodup) :
    (∀ overrides r, resolve declared overrides = r ↔ Outcome declared overrides r) ∧
      (∀ overrides v, resolve declared overrides = .ok v → v.names = declared.names ∧ ∀ p ∈ v, p.2 ≠ []) ∧
      (∀ r : Recipe, r.defaults = declared →
        (∀ names, resolve declared [] = .error (.unset names) ↔ names = r.required ∧ names ≠ []) ∧
          ∀ width, ∀ p ∈ declared, p.1 ∈ r.required ↔
            CommandLine.variableLine width p = "  --" ++ Text.padRight width p.1 ++ " (required)") ∧
      (∀ pairs pairs' v, (∀ opt, pairs'.filter (fun p => p.1 = opt) = pairs.filter fun p => p.1 = opt) →
        resolve declared (written pairs) = .ok v → resolve declared (written pairs') = .ok v) ∧
      ∀ pairs pairs' v, (pairs.map Prod.fst).Nodup → pairs'.Perm pairs →
        resolve declared (written pairs) = .ok v → resolve declared (written pairs') = .ok v := by
  refine ⟨fun _ _ => resolve_eq_iff hnodup, fun overrides v hv => ⟨names_resolve hv, ?_⟩, ?_,
    fun _ _ _ h => resolve_reorder hnodup h, fun _ _ _ hflags hperm => ?_⟩
  · cases (resolve_eq_iff hnodup).mp hv with
    | set _ _ hvalues => exact substituteBetween_ne_nil hvalues
  · rintro r rfl
    refine ⟨fun names => resolve_nil_eq_unset_iff, fun width p hp => ?_⟩
    rw [variableLine_eq_required_iff, mem_required_iff hnodup hp]
  · exact resolve_reorder hnodup (filter_eq_of_perm hperm hflags)

/-- A variable whose value refers to the other one, which is required. -/
def greeting : Bindings := [(['b'], "$\x7ba\x7d!"), (['a'], [])]

/-- A flag that is given twice, the first time with a value that looks like a flag, and two flags that change places. -/
theorem resolve_overrides_flag_twice :
    greeting.names.Nodup ∧
      Outcome greeting ["--a", "--b", "--a", "x"] (.ok [(['b'], "x!"), (['a'], ['x'])]) ∧
      resolve greeting (written [("--b", ['y']), ("--a", "--b")]) = .ok [(['b'], ['y']), (['a'], "--b")] := by
  have hnodup : greeting.names.Nodup := by decide
  obtain ⟨houtcome, -, -, -, hperm⟩ := resolve_overrides hnodup
  refine ⟨hnodup, (houtcome _ _).mp (by decide +kernel), ?_⟩
  exact hperm [("--a", "--b"), ("--b", ['y'])] _ _ (by decide) (.swap _ _ _) (by decide +kernel)

end Runbook.Variables
