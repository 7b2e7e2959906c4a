import Runbook.Proofs.Bindings.Update
import Runbook.Proofs.Console
import Runbook.Proofs.Step

/-! # What steps leave alone

A step that fails leaves the context as it was: whatever changes the context comes after all that can fail, but for what
is said to a console that may refuse it (`spares_perform`). A step that does not fail changes its own part only, and
bindings only at the names it sets (`Bindings.update_sets`). Main statement: `Step.run_frame`. -/

namespace Runbook

open Effect

/-- The second bindings are the first ones with the new pairs set: each new name has its value, at the end if it was not
    there before, and no other name has changed. -/
structure Bindings.Sets (new b b' : Bindings) : Prop where
  names : b'.names = b.names ++ new.names.filter (· ∉ b.names)
  changed : ∀ n ∈ new.names, b'.get? n = new.get? n
  kept : ∀ n, n ∉ new.names → b'.get? n = b.get? n

namespace Bindings

variable {new b : Bindings}

/-- Setting pairs with different names changes these names only. -/
theorem update_sets (hnew : new.names.Nodup) (b : Bindings) : Sets new b (b.update new) := by
  induction new generalizing b with
  | nil => exact ⟨by simp [update], by simp, fun n _ => rfl⟩
  | cons p new ih =>
    rw [names_cons, List.nodup_cons] at hnew
    have hrest := ih hnew.2 (set p.1 p.2 b)
    refine ⟨?_, fun n hn => ?_, fun n hn => ?_⟩
    · show ((set p.1 p.2 b).update new).names = _
      rw [hrest.names, names_set, names_cons]
      by_cases hp : p.1 ∈ b.names
      · rw [if_pos hp, List.filter_cons_of_neg (by simpa using hp)]
      · -- The names that are set later are others, so it makes no difference to them that this one is there now.
        have hothers : (names new).filter (· ∉ b.names ++ [p.1]) = (names new).filter (· ∉ b.names) := by
          refine List.filter_congr fun n hn => ?_
          have hne : n ≠ p.1 := fun heq => hnew.1 (heq ▸ hn)
          simp [hne]
        rw [if_neg hp, List.filter_cons_of_pos (by simpa using hp), hothers, List.append_assoc]
        rfl
    · show ((set p.1 p.2 b).update new).get? n = _
      rw [get?_cons]
      by_cases hp : n = p.1
      · rw [if_pos hp, hrest.kept n (hp ▸ hnew.1), get?_set, if_pos hp]
      · rw [if_neg hp, hrest.changed n ((List.mem_cons.mp hn).resolve_left hp)]
    · rw [names_cons, List.mem_cons, not_or] at hn
      show ((set p.1 p.2 b).update new).get? n = _
      rw [hrest.kept n hn.2, get?_set, if_neg hn.1]

end Bindings

/-! ### Effects that fail -/

/-- The context is the same in both sessions. -/
abbrev Session.SameContext (s s' : Session) : Prop := s'.context = s.context

instance : Frame Session.SameContext where
  refl _ := rfl
  trans h h' := h'.trans h

namespace Run

open Session

variable {α β : Type} {x : Run α} {f : α → Run β}

/-- If the effect fails, the context is as before, unless it fails with a fault that satisfies a predicate. -/
def Spares (P : Fault → Prop) (x : Run α) : Prop := ∀ s e s', x s = .error e s' → SameContext s s' ∨ P e

theorem keeps_outside (act : Action α) : Leads SameContext (liftM act : Run α) := fun s => by
  rw [final_outside]

theorem keeps_context : Leads SameContext context := fun _ => rfl

theorem raises_change {P : Fault → Prop} (f : Context → Context) : Raises P (change f) := .modify _

namespace Spares

variable {P : Fault → Prop}

theorem of_keeps (h : Leads SameContext x) : Spares P x := fun _ _ _ he => Or.inl (h.error he)

theorem of_raises (h : Raises P x) : Spares P x := fun s e s' he => Or.inr (h s e s' he)

/-- What comes before the change of a context must keep it. -/
theorem bind (hx : Leads SameContext x) (hf : ∀ a, Spares P (f a)) : Spares P (x >>= f) := by
  intro s e s' he
  rcases bind_eq_error he with he | ⟨a, s₁, hok, he⟩
  · exact Or.inl (hx.error he)
  · exact (hf a s₁ e s' he).imp_left fun h => h.trans (hx.ok hok)

/-- What comes after the change of a context must not fail otherwise. -/
theorem bind_raises (hx : Spares P x) (hf : ∀ a, Raises P (f a)) : Spares P (x >>= f) := by
  intro s e s' he
  rcases bind_eq_error he with he | ⟨a, s₁, -, he⟩
  · exact hx s e s' he
  · exact Or.inr (hf a s₁ e s' he)

end Spares

end Run

/-! ### The part of a directive -/

/-- Between two sessions only the part of the context that a directive is for has changed. -/
structure Session.OwnPart (d : Directive) (s s' : Session) : Prop where
  cwd : d ≠ .cd → s'.context.cwd = s.context.cwd
  env : d ≠ .exportVar → s'.context.env = s.context.env
  values : d ≠ .script → s'.context.values = s.context.values
  scripts : s'.context.scriptDir = s.context.scriptDir ∧ s'.context.pid = s.context.pid

namespace Session

variable {d : Directive}

instance : Frame (OwnPart d) where
  refl _ := ⟨fun _ => rfl, fun _ => rfl, fun _ => rfl, rfl, rfl⟩
  trans h h' := ⟨fun hd => (h'.cwd hd).trans (h.cwd hd), fun hd => (h'.env hd).trans (h.env hd),
    fun hd => (h'.values hd).trans (h.values hd), h'.scripts.1.trans h.scripts.1, h'.scripts.2.trans h.scripts.2⟩

theorem SameContext.ownPart {s s' : Session} (h : SameContext s s') : OwnPart d s s' := by
  rw [SameContext] at h
  refine ⟨fun _ => ?_, fun _ => ?_, fun _ => ?_, ?_, ?_⟩ <;> rw [h]

end Session

theorem Run.ownPart_of_keeps {α : Type} {x : Run α} {d : Directive} (h : Leads Session.SameContext x) :
    Leads (Session.OwnPart d) x := fun s => (h s).ownPart

namespace Step

open Run Session

variable {index : Nat} {d : Directive} {data : Text}

/-! ### Directives -/

theorem keeps_path (data : Text) : Leads SameContext (path data) := fun s => by
  rw [path_apply]
  split <;> rfl

theorem keeps_check {test : Files → Path → Except FileError Bool} {bad : Bool} {cause : Text → StepCause} :
    Leads SameContext (check index d data test bad cause) := by
  refine .bind (keeps_path data) fun p => .bind .get fun s => .bind (keeps_outside _) fun there => ?_
  split
  · exact .throw _
  · exact .pure _

section
variable [Console]

theorem spares_cd (index : Nat) (data : Text) : Spares Console.Refuses (cd index data) := by
  have hmove : ∀ p : Path, Spares Console.Refuses (do
      let cwd ← Action.resolve p
      Run.change fun c => { c with cwd }
      Action.inform ("pwd = " ++ cwd.toText) : Run Unit) := fun p =>
    .bind (keeps_outside _) fun cwd => .of_raises ((raises_change _).bind fun _ => raises_outside (Action.raises_say _))
  refine .bind (keeps_path data) fun p => .bind (keeps_outside _) fun _ => .bind .get fun s =>
    .bind (keeps_outside _) fun there => ?_
  dsimp only
  split
  · exact .bind (.throw _) fun _ => hmove p
  · exact hmove p

theorem spares_exportVar (index : Nat) (data : Text) : Spares Console.Refuses (exportVar index data) := by
  have hset : ∀ name value : Text, Spares Console.Refuses (do
      Action.inform ("export " ++ name ++ "=" ++ value)
      Run.change fun c => { c with env := Bindings.set name value c.env } : Run Unit) := fun name value =>
    .bind (keeps_outside _) fun _ => .of_raises (raises_change _)
  unfold exportVar
  dsimp only
  split
  · exact .bind (.throw _) fun _ => hset _ _
  · exact hset _ _

/-- A script exports its variables once it has ended well, and what is said of them is all that can fail then. -/
theorem spares_script (index : Nat) (data : Text) : Spares Console.Refuses (script index data) :=
  .bind keeps_context fun _ => .bind (keeps_outside _) fun _ => .of_raises (.forM _ fun _ =>
    (raises_outside (Action.raises_say _)).bind fun _ => raises_change _)

theorem spares_perform (index : Nat) (d : Directive) (data : Text) : Spares Console.Refuses (perform index d data) := by
  have hdone : ∀ {x : Run Unit}, Spares Console.Refuses x → Spares Console.Refuses (do x; return .ok : Run Status) :=
    fun hx => hx.bind_raises fun _ => .pure _
  cases d with
  | cd => exact hdone (spares_cd index data)
  | exportVar => exact hdone (spares_exportVar index data)
  | exec => exact .bind keeps_context fun c => hdone (.of_keeps (keeps_outside _))
  | execNoExit => exact .bind keeps_context fun c => .of_keeps (keeps_outside _)
  | info => exact hdone (.of_keeps (keeps_outside _))
  | mustExistDir => exact hdone (.of_keeps keeps_check)
  | mustExistFile => exact hdone (.of_keeps keeps_check)
  | mustNotExistDir => exact hdone (.of_keeps keeps_check)
  | mustNotExistFile => exact hdone (.of_keeps keeps_check)
  | script => exact hdone (spares_script index data)

/-! However a directive ends, it has changed no more than its own part. -/

theorem ownPart_cd (index : Nat) (data : Text) : Leads (OwnPart .cd) (cd index data) := by
  have hmove : ∀ p : Path, Leads (OwnPart .cd) (do
      let cwd ← Action.resolve p
      Run.change fun c => { c with cwd }
      Action.inform ("pwd = " ++ cwd.toText) : Run Unit) := by
    intro p
    refine .bind (ownPart_of_keeps (keeps_outside _)) fun cwd => .bind (.modify fun s => ?_) fun _ =>
      ownPart_of_keeps (keeps_outside _)
    exact ⟨fun hd => absurd rfl hd, fun _ => rfl, fun _ => rfl, rfl, rfl⟩
  refine .bind (ownPart_of_keeps (keeps_path data)) fun p => .bind (ownPart_of_keeps (keeps_outside _)) fun _ =>
    .bind .get fun s => .bind (ownPart_of_keeps (keeps_outside _)) fun there => ?_
  dsimp only
  split
  · exact .bind (.throw _) fun _ => hmove p
  · exact hmove p

theorem ownPart_exportVar (index : Nat) (data : Text) : Leads (OwnPart .exportVar) (exportVar index data) := by
  have hset : ∀ name value : Text, Leads (OwnPart .exportVar) (do
      Action.inform ("export " ++ name ++ "=" ++ value)
      Run.change fun c => { c with env := Bindings.set name value c.env } : Run Unit) := by
    intro name value
    refine .bind (ownPart_of_keeps (keeps_outside _)) fun _ => .modify fun s => ?_
    exact ⟨fun _ => rfl, fun hd => absurd rfl hd, fun _ => rfl, rfl, rfl⟩
  unfold exportVar
  dsimp only
  split
  · exact .bind (.throw _) fun _ => hset _ _
  · exact hset _ _

theorem ownPart_script (index : Nat) (data : Text) : Leads (OwnPart .script) (script index data) := by
  refine .bind (ownPart_of_keeps keeps_context) fun c => .bind (ownPart_of_keeps (keeps_outside _)) fun result =>
    .forM _ fun p => .bind (ownPart_of_keeps (keeps_outside _)) fun _ => .modify fun s => ?_
  exact ⟨fun _ => rfl, fun _ => rfl, fun hd => absurd rfl hd, rfl, rfl⟩

theorem ownPart_perform (index : Nat) (d : Directive) (data : Text) : Leads (OwnPart d) (perform index d data) := by
  have hdone : ∀ {x : Run Unit}, Leads (OwnPart d) x → Leads (OwnPart d) (do x; return .ok : Run Status) :=
    fun hx => hx.bind fun _ => .pure _
  cases d with
  | cd => exact hdone (ownPart_cd index data)
  | exportVar => exact hdone (ownPart_exportVar index data)
  | exec => exact .bind (ownPart_of_keeps keeps_context) fun c => hdone (ownPart_of_keeps (keeps_outside _))
  | execNoExit => exact .bind (ownPart_of_keeps keeps_context) fun c => ownPart_of_keeps (keeps_outside _)
  | info => exact hdone (ownPart_of_keeps (keeps_outside _))
  | mustExistDir => exact hdone (ownPart_of_keeps keeps_check)
  | mustExistFile => exact hdone (ownPart_of_keeps keeps_check)
  | mustNotExistDir => exact hdone (ownPart_of_keeps keeps_check)
  | mustNotExistFile => exact hdone (ownPart_of_keeps keeps_check)
  | script => exact hdone (ownPart_script index data)

/-! ### Steps -/

/-- Whatever the console takes, a step that fails leaves the context as it was, unless it fails because of the console. -/
theorem spares_run (index : Nat) (step : Step) : Spares Console.Refuses (run index step) :=
  .bind keeps_context fun _ => .bind (keeps_outside _) fun _ => .bind .get fun _ =>
    (spares_perform index step.directive _).bind_raises fun _ => .get_bind fun _ =>
      (raises_outside (Action.raises_say _)).bind fun _ => .pure _

theorem ownPart_run (index : Nat) (step : Step) : Leads (OwnPart step.directive) (run index step) :=
  .bind (ownPart_of_keeps keeps_context) fun _ => .bind (ownPart_of_keeps (keeps_outside _)) fun _ => .bind .get fun _ =>
    .bind (ownPart_perform index step.directive _) fun _ => .bind .get fun _ =>
      .bind (ownPart_of_keeps (keeps_outside _)) fun _ => .pure _

end

theorem run_spares (index : Nat) (step : Step) (s : Session) (e : Fault) (s' : Session)
    (he : run index step s = .error e s') : SameContext s s' :=
  (spares_run index step s e s' he).resolve_right (Console.not_refuses e)

/-- What holds of the context before a step and after it if it does not fail, holds however it ends. -/
theorem context_final {P : Context → Prop} {step : Step} {s : Session} (hs : P s.context)
    (hok : ∀ {result s'}, run index step s = .ok result s' → P s'.context) : P (final (run index step s)).context := by
  cases hrun : run index step s with
  | ok result s' => exact hok hrun
  | error e s' =>
    rw [final_error, run_spares index step s e s' hrun]
    exact hs

/-- A session with two children to come: one that prints a marker and ends badly, and one that prints it and ends well. -/
def printing : Session where
  world := {
    files := { tree := ⟨[]⟩, denied := [], cwd := ⟨.root, []⟩, homes := ⟨[], []⟩ }
    env := []
    host := ⟨0, 0, 0, 0, [], [], [], none, [], [], [], []⟩
    children := [⟨none, Utf8.encode "###export v=1\n", 0, [], some 1⟩, ⟨none, Utf8.encode "###export v=1\n", 0, [], some 0⟩]
    clock := 0
    tried := 0
    starts := []
    verbosity := .quiet
    log := []
    tee := none }
  context := ⟨⟨.root, []⟩, [], [("u", "0")], ⟨.root, ["s"]⟩, 7⟩

end Step

end Runbook
