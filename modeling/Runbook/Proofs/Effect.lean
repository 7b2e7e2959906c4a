import Mathlib.Tactic.Common

/-! # Runs of effects

An effect goes from a state to a value or a fault, with a state either way. Here are the runs of the effects the others
are made of, and what a run of two effects in a row that ends well is made of. What an effect changes is said by a
relation between the states before and after it, which carries over to effects in a row (`Leads.bind`); so does that one
effect ends as another one does, on states of its own (`Follows.bind`), or ends alike, with values and faults that only
belong together (`RunsAlike.bind`). -/

namespace Runbook

namespace Effect

variable {ε σ α β : Type} {x : EStateM ε σ α} {f : α → EStateM ε σ β} {g : σ → σ} {s s' s'' : σ} {a : α} {b : β} {e : ε}

@[simp] theorem pure_apply (a : α) (s : σ) : (pure a : EStateM ε σ α) s = .ok a s := rfl

@[simp] theorem throw_apply (e : ε) (s : σ) : (throw e : EStateM ε σ α) s = .error e s := rfl

@[simp] theorem get_apply (s : σ) : (get : EStateM ε σ σ) s = .ok s s := rfl

@[simp] theorem modify_apply (g : σ → σ) (s : σ) : (modify g : EStateM ε σ Unit) s = .ok () (g s) := rfl

theorem bind_of_ok (h : x s = .ok a s') : (x >>= f) s = f a s' := by
  show EStateM.bind x f s = f a s'
  rw [EStateM.bind, h]

theorem bind_of_error (h : x s = .error e s') : (x >>= f) s = .error e s' := by
  show EStateM.bind x f s = .error e s'
  rw [EStateM.bind, h]

theorem bind_congr_apply {y : EStateM ε σ α} (h : x s = y s) : (x >>= f) s = (y >>= f) s := by
  show EStateM.bind x f s = EStateM.bind y f s
  rw [EStateM.bind, EStateM.bind, h]

@[simp] theorem pure_bind_apply (a : α) (f : α → EStateM ε σ β) (s : σ) : (pure a >>= f) s = f a s := rfl

@[simp] theorem get_bind_apply (f : σ → EStateM ε σ β) (s : σ) : (get >>= f) s = f s s := rfl

@[simp] theorem modify_bind_apply (g : σ → σ) (f : Unit → EStateM ε σ β) (s : σ) : (modify g >>= f) s = f () (g s) :=
  rfl

@[simp] theorem throw_bind_apply (e : ε) (f : α → EStateM ε σ β) (s : σ) : (throw e >>= f) s = .error e s := rfl

theorem bind_eq_ok (h : (x >>= f) s = .ok b s'') : ∃ a s', x s = .ok a s' ∧ f a s' = .ok b s'' := by
  cases hx : x s with
  | ok a s' =>
    rw [bind_of_ok hx] at h
    exact ⟨a, s', rfl, h⟩
  | error e s' =>
    rw [bind_of_error hx] at h
    cases h

theorem bind_eq_error (h : (x >>= f) s = .error e s'') :
    x s = .error e s'' ∨ ∃ a s', x s = .ok a s' ∧ f a s' = .error e s'' := by
  cases hx : x s with
  | ok a s' =>
    rw [bind_of_ok hx] at h
    exact Or.inr ⟨a, s', rfl, h⟩
  | error e' s' =>
    rw [bind_of_error hx] at h
    cases h
    exact Or.inl rfl

/-! ### Effects that change nothing -/

/-- If the effect ends well from the state, it has not changed it. -/
def Keeps (x : EStateM ε σ α) (s : σ) : Prop := ∀ a s', x s = .ok a s' → s' = s

namespace Keeps

theorem pure (a : α) : Keeps (pure a : EStateM ε σ α) s := by
  rintro _ _ ⟨⟩
  rfl

theorem throw (e : ε) : Keeps (throw e : EStateM ε σ α) s := by
  rintro _ _ ⟨⟩

theorem throw_bind (e : ε) (f : α → EStateM ε σ β) : Keeps (MonadExcept.throw e >>= f) s := by
  rintro _ _ ⟨⟩

theorem get : Keeps (get : EStateM ε σ σ) s := by
  rintro _ _ ⟨⟩
  rfl

theorem modify (h : g s = s) : Keeps (modify g : EStateM ε σ Unit) s := by
  rintro _ _ ⟨⟩
  exact h

theorem bind (hx : Keeps x s) (hf : ∀ a, Keeps (f a) s) : Keeps (x >>= f) s := by
  intro b s'' h
  obtain ⟨a, s', hxs, hfs⟩ := bind_eq_ok h
  obtain rfl := hx a s' hxs
  exact hf a b s'' hfs

end Keeps

/-! ### What effects change -/

/-- The state in which a run ends. -/
def final : EStateM.Result ε σ α → σ
  | .ok _ s => s
  | .error _ s => s

/-- The value or the fault a run ends with. -/
def outcome : EStateM.Result ε σ α → Except ε α
  | .ok a _ => .ok a
  | .error e _ => .error e

theorem outcome_eq_error_iff {r : EStateM.Result ε Unit α} {e : ε} : outcome r = .error e ↔ r = .error e () := by
  cases r <;> simp [outcome]

@[simp] theorem final_ok (a : α) (s : σ) : final (.ok a s : EStateM.Result ε σ α) = s := rfl

@[simp] theorem final_error (e : ε) (s : σ) : final (.error e s : EStateM.Result ε σ α) = s := rfl

theorem mem_toOption {x : Except ε α} {a : α} : a ∈ x.toOption ↔ x = .ok a := by
  cases x <;> simp [Except.toOption]

/-- Whether a run ends well, with a value and a state that pass a test. -/
def passes (test : α → σ → Bool) : EStateM.Result ε σ α → Bool
  | .ok a s => test a s
  | .error .. => false

theorem eq_ok_of_passes {test : α → σ → Bool} {r : EStateM.Result ε σ α} (h : passes test r = true) :
    ∃ a s, r = .ok a s ∧ test a s = true := by
  cases r with
  | ok a s => exact ⟨a, s, rfl, h⟩
  | error e s => cases h

/-- Whether a run fails, with a fault and a state that pass a test. -/
def fails (test : ε → σ → Bool) : EStateM.Result ε σ α → Bool
  | .ok .. => false
  | .error e s => test e s

theorem eq_error_of_fails {test : ε → σ → Bool} {r : EStateM.Result ε σ α} (h : fails test r = true) :
    ∃ e s, r = .error e s ∧ test e s = true := by
  cases r with
  | ok a s => cases h
  | error e s => exact ⟨e, s, rfl, h⟩

/-- What is between the states of a first effect and those of a second one is between the first state and the last. -/
theorem final_bind {R R' : σ → σ → Prop} (hx : R s (final (x s))) (hf : ∀ a s', R' s' (final (f a s')))
    (h : ∀ {s' s''}, R s s' → R' s' s'' → R s s'') : R s (final ((x >>= f) s)) := by
  cases hxs : x s with
  | ok a s' =>
    rw [bind_of_ok hxs]
    rw [hxs] at hx
    exact h hx (hf a s')
  | error e s' =>
    rw [bind_of_error hxs]
    rwa [hxs] at hx

@[simp] theorem final_map (g : α → β) (x : EStateM ε σ α) (s : σ) : final ((g <$> x) s) = final (x s) := by
  show final (EStateM.map g x s) = final (x s)
  rw [EStateM.map]
  cases x s <;> rfl

@[simp] theorem final_bind_pure (x : EStateM ε σ α) (f : α → β) (s : σ) :
    final ((x >>= fun a => pure (f a)) s) = final (x s) := by
  cases hx : x s with
  | ok a s' => rw [bind_of_ok hx, pure_apply, final_ok, final_ok]
  | error e s' => rw [bind_of_error hx, final_error, final_error]

/-- A relation that holds after nothing, and after two effects if it holds after each. -/
class Frame (R : σ → σ → Prop) : Prop where
  refl (s : σ) : R s s
  trans {s s' s'' : σ} (h : R s s') (h' : R s' s'') : R s s''

/-- However the effect ends, the relation holds between the states before and after it. -/
def Leads (R : σ → σ → Prop) (x : EStateM ε σ α) : Prop := ∀ s, R s (final (x s))

namespace Leads

variable {R : σ → σ → Prop}

theorem modify (h : ∀ s, R s (g s)) : Leads R (modify g : EStateM ε σ Unit) := h

theorem ok (h : Leads R x) (hx : x s = .ok a s') : R s s' := by
  have := h s
  rwa [hx] at this

theorem error (h : Leads R x) (hx : x s = .error e s') : R s s' := by
  have := h s
  rwa [hx] at this

theorem get_bind {f : σ → EStateM ε σ β} (h : ∀ s, R s (final (f s s))) : Leads R (get >>= f) := h

variable [Frame R]

theorem pure (a : α) : Leads R (pure a : EStateM ε σ α) := Frame.refl

theorem throw (e : ε) : Leads R (throw e : EStateM ε σ α) := Frame.refl

theorem get : Leads R (get : EStateM ε σ σ) := Frame.refl

theorem bind (hx : Leads R x) (hf : ∀ a, Leads R (f a)) : Leads R (x >>= f) := by
  intro s
  exact final_bind (hx s) hf Frame.trans

theorem forM {f : β → EStateM ε σ PUnit} (l : List β) (hf : ∀ b, Leads R (f b)) : Leads R (l.forM f) := by
  induction l with
  | nil => exact pure _
  | cons b l ih => exact bind (hf b) fun _ => ih

theorem mapM {f : β → EStateM ε σ α} (l : List β) (hf : ∀ b, Leads R (f b)) : Leads R (l.mapM f) := by
  induction l with
  | nil => exact pure _
  | cons b l ih =>
    rw [List.mapM_cons]
    exact bind (hf b) fun _ => bind ih fun _ => pure _

end Leads

/-! ### What effects fail with -/

/-- Whatever the effect fails with satisfies a predicate. -/
def Raises (P : ε → Prop) (x : EStateM ε σ α) : Prop := ∀ s e s', x s = .error e s' → P e

namespace Raises

variable {P : ε → Prop}

theorem mono {Q : ε → Prop} (hx : Raises P x) (h : ∀ e, P e → Q e) : Raises Q x := fun s e s' hxs => h e (hx s e s' hxs)

theorem pure (a : α) : Raises P (pure a : EStateM ε σ α) := by
  rintro _ _ _ ⟨⟩

theorem throw (h : P e) : Raises P (throw e : EStateM ε σ α) := by
  rintro _ _ _ ⟨⟩
  exact h

theorem get_bind {f : σ → EStateM ε σ β} (h : ∀ s, Raises P (f s)) : Raises P (get >>= f) := fun s => h s s

theorem bind (hx : Raises P x) (hf : ∀ a, Raises P (f a)) : Raises P (x >>= f) := by
  intro s e s'' h
  rcases bind_eq_error h with hxs | ⟨a, s', -, hfs⟩
  · exact hx s e s'' hxs
  · exact hf a s' e s'' hfs

theorem modify (f : σ → σ) : Raises P (modify f : EStateM ε σ PUnit) := by
  rintro _ _ _ ⟨⟩

theorem forM {f : β → EStateM ε σ PUnit} (l : List β) (hf : ∀ b, Raises P (f b)) : Raises P (l.forM f) := by
  induction l with
  | nil => exact pure _
  | cons b l ih => exact bind (hf b) fun _ => ih

end Raises

theorem outcome_eq_error {r : EStateM.Result ε σ α} (h : outcome r = .error e) : r = .error e (final r) := by
  cases r with
  | ok a s => cases h
  | error e' s =>
    cases h
    rfl

theorem outcome_eq_ok {r : EStateM.Result ε σ α} (h : outcome r = .ok a) : r = .ok a (final r) := by
  cases r with
  | ok b s =>
    cases h
    rfl
  | error e s => cases h

theorem Raises.outcome {P : ε → Prop} (hx : Raises P x) (h : outcome (x s) = .error e) : P e :=
  hx s e _ (outcome_eq_error h)

/-- What is done after an effect and does not fail makes no difference to whether and how it fails. -/
theorem outcome_bind_eq_error_iff (hf : ∀ a s, ∃ b s', f a s = .ok b s') :
    outcome ((x >>= f) s) = .error e ↔ outcome (x s) = .error e := by
  cases hx : x s with
  | ok a s' =>
    obtain ⟨b, s'', hfs⟩ := hf a s'
    rw [bind_of_ok hx, hfs]
    simp [outcome]
  | error e' s' =>
    rw [bind_of_error hx]
    simp [outcome]

/-- Each of the values of effects in a row is that of one of them, begun after some of the others. -/
theorem mapM_eq_ok {R : σ → σ → Prop} [Frame R] {f : β → EStateM ε σ α} {l : List β} {as : List α}
    (hf : ∀ b, Leads R (f b)) (h : l.mapM f s = .ok as s') :
    ∀ a ∈ as, ∃ b ∈ l, ∃ s₁ s₂, R s s₁ ∧ f b s₁ = .ok a s₂ := by
  induction l generalizing as s with
  | nil =>
    rw [List.mapM_nil] at h
    cases h
    simp
  | cons b l ih =>
    rw [List.mapM_cons] at h
    obtain ⟨first, s₁, hfirst, h⟩ := bind_eq_ok h
    obtain ⟨rest, s₂, hrest, h⟩ := bind_eq_ok h
    cases h
    rintro a (_ | ⟨_, ha⟩)
    · exact ⟨b, List.mem_cons_self, s, s₁, Frame.refl s, hfirst⟩
    · obtain ⟨b', hb', s₃, s₄, hbegun, hrun⟩ := ih hrest a ha
      exact ⟨b', List.mem_cons_of_mem b hb', s₃, s₄, Frame.trans ((hf b).ok hfirst) hbegun, hrun⟩

end Effect

/-! ### Effects that follow one another -/

/-- How effects on two kinds of states are compared: from which ends of the first one on, up to which faults, and which
    states belong together. -/
structure Comparison (ε σ τ : Type) where
  ends : σ → Prop
  faults : ε → Prop
  states : σ → τ → Prop

namespace Comparison

variable {ε σ τ α : Type}

/-- Whether the end of a run counts. -/
def Counts (c : Comparison ε σ τ) : EStateM.Result ε σ α → Prop
  | .ok _ s => c.ends s
  | .error e s => c.faults e ∧ c.ends s

/-- Runs that end with the same value or fault, in states that belong together. -/
inductive Matches (c : Comparison ε σ τ) : EStateM.Result ε σ α → EStateM.Result ε τ α → Prop
  | ok {a : α} {s : σ} {t : τ} (h : c.states s t) : Matches c (.ok a s) (.ok a t)
  | error {e : ε} {s : σ} {t : τ} (h : c.states s t) : Matches c (.error e s) (.error e t)

theorem Matches.outcome_eq {c : Comparison ε σ τ} {r : EStateM.Result ε σ α} {r' : EStateM.Result ε τ α}
    (h : c.Matches r r') : Effect.outcome r' = Effect.outcome r := by
  cases h <;> rfl

theorem Matches.final_states {c : Comparison ε σ τ} {r : EStateM.Result ε σ α} {r' : EStateM.Result ε τ α}
    (h : c.Matches r r') : c.states (Effect.final r) (Effect.final r') := by
  cases h <;> assumption

theorem Matches.of_outcome {c : Comparison ε σ τ} {r : EStateM.Result ε σ α} {r' : EStateM.Result ε τ α}
    (h : Effect.outcome r' = Effect.outcome r) (hc : c.states (Effect.final r) (Effect.final r')) : c.Matches r r' := by
  cases r with
  | ok a s =>
    cases r' with
    | ok b t =>
      cases h
      exact .ok hc
    | error e t => cases h
  | error e s =>
    cases r' with
    | ok b t => cases h
    | error e' t =>
      cases h
      exact .error hc

theorem Matches.eq {c : Comparison ε σ σ} {r r' : EStateM.Result ε σ α} (h : c.Matches r r')
    (hc : ∀ s t, c.states s t → t = s) : r' = r := by
  cases h with
  | ok h => rw [hc _ _ h]
  | error h => rw [hc _ _ h]

theorem counts_iff {c : Comparison ε σ τ} {r : EStateM.Result ε σ α} :
    c.Counts r ↔ c.ends (Effect.final r) ∧ ∀ e, Effect.outcome r = .error e → c.faults e := by
  cases r with
  | ok a s => simp [Counts, Effect.outcome]
  | error e s => simp [Counts, Effect.outcome, and_comm]

/-- Ends from the same state are compared, up to some faults. -/
def same (faults : ε → Prop) : Comparison ε σ σ := ⟨fun _ => True, faults, Eq⟩

/-- All ends are compared, from states that are related. -/
def lockstep (R : σ → τ → Prop) : Comparison ε σ τ := ⟨fun _ => True, fun _ => True, R⟩

/-- The comparison in which no states belong together, so that only the ends of the first effect are looked at. -/
def blind (c : Comparison ε σ τ) : Comparison ε σ τ := { c with states := fun _ _ => False }

end Comparison

namespace Effect

variable {ε σ τ α β : Type} {c : Comparison ε σ τ} {x : EStateM ε σ α} {y : EStateM ε τ α} {s s' : σ} {t : τ} {a : α}
  {e : ε}

/-- From a state on, the second effect follows the first one: if the end of the first one counts, so does the state, and
    the second one ends as the first one does from every state that belongs to it. -/
def Follows (c : Comparison ε σ τ) (x : EStateM ε σ α) (y : EStateM ε τ α) (s : σ) : Prop :=
  c.Counts (x s) → c.ends s ∧ ∀ t, c.states s t → c.Matches (x s) (y t)

namespace Follows

theorem ok (h : Follows c x y s) (hx : x s = .ok a s') (hs' : c.ends s') (ht : c.states s t) :
    ∃ t', y t = .ok a t' ∧ c.states s' t' := by
  unfold Follows at h
  rw [hx] at h
  have hmatches := (h hs').2 t ht
  generalize y t = r at hmatches
  cases hmatches with
  | ok hst => exact ⟨_, rfl, hst⟩

theorem error (h : Follows c x y s) (hx : x s = .error e s') (he : c.faults e) (hs' : c.ends s') (ht : c.states s t) :
    ∃ t', y t = .error e t' ∧ c.states s' t' := by
  unfold Follows at h
  rw [hx] at h
  have hmatches := (h ⟨he, hs'⟩).2 t ht
  generalize y t = r at hmatches
  cases hmatches with
  | error hst => exact ⟨_, rfl, hst⟩

theorem of_matches {R : σ → τ → Prop} (h : ∀ t, R s t → (Comparison.lockstep R).Matches (x s) (y t)) :
    Follows (.lockstep R) x y s := fun _ => ⟨trivial, h⟩

theorem matches_of {R : σ → τ → Prop} (h : Follows (.lockstep R) x y s) (ht : R s t) :
    (Comparison.lockstep R).Matches (x s) (y t) := by
  have hcounts : Comparison.Counts (.lockstep R) (x s) := by
    cases x s with
    | ok a s' => trivial
    | error e s' => exact ⟨trivial, trivial⟩
  exact (h hcounts).2 t ht

/-- What follows from states that are related more closely follows from the others too. -/
theorem matches_bind {R R' : σ → τ → Prop} {f : α → EStateM ε σ β} {g : α → EStateM ε τ β}
    (hx : (Comparison.lockstep R).Matches (x s) (y t)) (hR : ∀ s t, R s t → R' s t)
    (hf : ∀ a s', Follows (.lockstep R') (f a) (g a) s') :
    (Comparison.lockstep R').Matches ((x >>= f) s) ((y >>= g) t) := by
  cases hxs : x s with
  | ok a s₁ =>
    rw [hxs] at hx
    generalize hyt : y t = r at hx
    cases hx with
    | ok h =>
      rw [bind_of_ok hxs, bind_of_ok hyt]
      exact (hf a s₁).matches_of (hR _ _ h)
  | error e s₁ =>
    rw [hxs] at hx
    generalize hyt : y t = r at hx
    cases hx with
    | error h =>
      rw [bind_of_error hxs, bind_of_error hyt]
      exact .error (hR _ _ h)

theorem congr {x' : EStateM ε σ α} {y' : EStateM ε τ α} (h : Follows c x' y' s) (hx : x s = x' s)
    (hy : ∀ t, c.states s t → y t = y' t) : Follows c x y s := by
  unfold Follows at h ⊢
  rw [hx]
  intro hcounts
  obtain ⟨hs, hmatches⟩ := h hcounts
  refine ⟨hs, fun t ht => ?_⟩
  rw [hy t ht]
  exact hmatches t ht

theorem blind (h : Follows c x y s) : Follows c.blind x y s := fun hcounts => ⟨(h hcounts).1, fun _ ht => ht.elim⟩

/-- Effects follow one another if they do after a change of the state that counts from where it began. -/
theorem after {x' : EStateM ε σ α} {y' : EStateM ε τ α} {g : σ → σ} {h : τ → τ} (hfollows : Follows c x' y' (g s))
    (hends : c.ends (g s) → c.ends s) (hstates : ∀ t, c.states s t → c.states (g s) (h t)) (hx : x s = x' (g s))
    (hy : ∀ t, c.states s t → y t = y' (h t)) : Follows c x y s := by
  unfold Follows
  rw [hx]
  intro hcounts
  obtain ⟨hs, hmatches⟩ := hfollows hcounts
  refine ⟨hends hs, fun t ht => ?_⟩
  rw [hy t ht]
  exact hmatches _ (hstates t ht)

theorem pure (a : α) (s : σ) : Follows c (pure a) (Pure.pure a) s := fun hs => ⟨hs, fun _ ht => .ok ht⟩

theorem throw (e : ε) (s : σ) : Follows c (throw e : EStateM ε σ α) (MonadExcept.throw e) s :=
  fun hs => ⟨hs.2, fun _ ht => .error ht⟩

/-- Effects follow one another behind the same guard. -/
theorem guard {γ : Type} {b : Prop} [Decidable b] (h : Follows c x y s) :
    Follows c (if b then (MonadExcept.throw e : EStateM ε σ γ) >>= fun _ => x else x)
      (if b then (MonadExcept.throw e : EStateM ε τ γ) >>= fun _ => y else y) s := by
  split
  · exact (throw e s).congr rfl fun _ _ => rfl
  · exact h

/-- Faults may differ if none counts. -/
theorem throw_of {e' : ε} (h : e' = e ∨ ∀ e, ¬ c.faults e) :
    Follows c (MonadExcept.throw e : EStateM ε σ α) (MonadExcept.throw e') s := by
  rcases h with rfl | h
  · exact throw e' s
  · exact fun hcounts => absurd hcounts.1 (h e)

/-- Nothing need follow a fault that does not count. -/
theorem of_error (hx : x s = .error e s') (he : ¬ c.faults e) : Follows c x y s := by
  unfold Follows
  rw [hx]
  exact fun hcounts => absurd hcounts.1 he

/-- What is done with a state follows what is done with another one if it is the same. -/
theorem get_bind {f : σ → EStateM ε σ α} {g : τ → EStateM ε τ α} {y : EStateM ε τ α} (hf : Follows c (f s) y s)
    (h : ∀ t, c.states s t → g t = y) : Follows c (get >>= f) (get >>= g) s :=
  hf.congr (get_bind_apply f s) fun t ht => by rw [get_bind_apply, h t ht]

/-- What follows the second of two effects need be known only for the ends of the first one. -/
theorem bind_of_ok {f : α → EStateM ε σ β} {g : α → EStateM ε τ β} (hx : Follows c x y s)
    (hf : ∀ a s', x s = .ok a s' → Follows c (f a) (g a) s') : Follows c (x >>= f) (y >>= g) s := by
  intro hcounts
  cases hxs : x s with
  | error e s₁ =>
    rw [bind_of_error hxs] at hcounts ⊢
    obtain ⟨hs, -⟩ := hx (hxs ▸ hcounts)
    refine ⟨hs, fun t ht => ?_⟩
    obtain ⟨t₁, hyt, ht₁⟩ := hx.error hxs hcounts.1 hcounts.2 ht
    rw [bind_of_error hyt]
    exact .error ht₁
  | ok a s₁ =>
    rw [Effect.bind_of_ok hxs] at hcounts ⊢
    obtain ⟨hs₁, hg⟩ := hf a s₁ hxs hcounts
    obtain ⟨hs, -⟩ := hx (hxs ▸ hs₁)
    refine ⟨hs, fun t ht => ?_⟩
    obtain ⟨t₁, hyt, ht₁⟩ := hx.ok hxs hs₁ ht
    rw [Effect.bind_of_ok hyt]
    exact hg t₁ ht₁

theorem bind {f : α → EStateM ε σ β} {g : α → EStateM ε τ β} (hx : Follows c x y s)
    (hf : ∀ a s', Follows c (f a) (g a) s') : Follows c (x >>= f) (y >>= g) s := hx.bind_of_ok fun a s' _ => hf a s'

theorem forM {f : β → EStateM ε σ PUnit} {g : β → EStateM ε τ PUnit} (l : List β) (h : ∀ b s, Follows c (f b) (g b) s)
    (s : σ) : Follows c (l.forM f) (l.forM g) s := by
  induction l generalizing s with
  | nil => exact pure _ s
  | cons b l ih => exact (h b s).bind fun _ => ih

end Follows

/-- From a state on, the effect follows itself: it ends in the same way from every state that belongs to this one. -/
abbrev Steady (c : Comparison ε σ σ) (x : EStateM ε σ α) (s : σ) : Prop := Follows c x x s

/-! ### Effects that end alike -/

section
variable {ε' α' β' : Type} {E : ε → ε' → Prop} {R : σ → τ → Prop} {A : α → α' → Prop} {B : β → β' → Prop}

/-- Runs that end in states that belong together, with values or faults that do. -/
inductive EndsAlike (E : ε → ε' → Prop) (R : σ → τ → Prop) (A : α → α' → Prop) :
    EStateM.Result ε σ α → EStateM.Result ε' τ α' → Prop
  | ok {a : α} {a' : α'} {s : σ} {t : τ} (h : A a a') (hst : R s t) : EndsAlike E R A (.ok a s) (.ok a' t)
  | error {e : ε} {e' : ε'} {s : σ} {t : τ} (h : E e e') (hst : R s t) : EndsAlike E R A (.error e s) (.error e' t)

theorem EndsAlike.final {r : EStateM.Result ε σ α} {r' : EStateM.Result ε' τ α'} (h : EndsAlike E R A r r') :
    R (final r) (Effect.final r') := by
  cases h <;> assumption

/-- From states that belong together on, the effects end alike. -/
def RunsAlike (E : ε → ε' → Prop) (R : σ → τ → Prop) (A : α → α' → Prop) (x : EStateM ε σ α) (y : EStateM ε' τ α') :
    Prop :=
  ∀ s t, R s t → EndsAlike E R A (x s) (y t)

namespace RunsAlike

variable {y : EStateM ε' τ α'} {a' : α'} {e' : ε'}

theorem pure (h : A a a') : RunsAlike E R A (pure a) (Pure.pure a') := fun _ _ hst => .ok h hst

theorem throw (h : E e e') : RunsAlike E R A (throw e) (MonadExcept.throw e') := fun _ _ hst => .error h hst

theorem get_bind {f : σ → EStateM ε σ α} {g : τ → EStateM ε' τ α'}
    (h : ∀ s t, R s t → EndsAlike E R A (f s s) (g t t)) : RunsAlike E R A (get >>= f) (get >>= g) := h

theorem bind {f : α → EStateM ε σ β} {g : α' → EStateM ε' τ β'} (hx : RunsAlike E R A x y)
    (hf : ∀ a a', A a a' → RunsAlike E R B (f a) (g a')) : RunsAlike E R B (x >>= f) (y >>= g) := by
  intro s t hst
  have hends := hx s t hst
  generalize hxs : x s = r at hends
  generalize hyt : y t = r' at hends
  cases hends with
  | ok h hst' =>
    rw [bind_of_ok hxs, bind_of_ok hyt]
    exact hf _ _ h _ _ hst'
  | error h hst' =>
    rw [bind_of_error hxs, bind_of_error hyt]
    exact .error h hst'

/-- Effects that follow one another in lockstep end alike. -/
theorem of_follows {y : EStateM ε τ α} {E : ε → ε → Prop} (hE : ∀ e, E e e)
    (h : ∀ s, Follows (.lockstep R) x y s) : RunsAlike E R Eq x y := by
  intro s t hst
  have hmatches := (h s).matches_of hst
  generalize x s = r at hmatches
  generalize y t = r' at hmatches
  cases hmatches with
  | ok hst' => exact .ok rfl hst'
  | error hst' => exact .error (hE _) hst'

end RunsAlike

end

end Effect

end Runbook
