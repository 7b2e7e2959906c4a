import Runbook.Proofs.Bindings.Update
import Runbook.Proofs.Step

/-! # The history of a run

A run visits its steps in order, each in the session in which the step before it ended, up to the first that fails
(`visits_isRun`). What a step finds is accounted for by the visits before it: the variables by the scripts, the
environment by the exports, the directory by the last change of directory (`Visit.Follows`). -/

namespace Runbook

open Effect

/-- A step that is run: its number, and the session it is run in. -/
structure Visit where
  index : Nat
  step : Step
  before : Session

namespace Visit

/-- How the step ends. -/
def outcome (v : Visit) : EStateM.Result Fault Session StepResult := Step.run v.index v.step v.before

/-- The text of the step, its references replaced. -/
def text (v : Visit) : Text := Step.text v.step v.before

/-- What the next child prints: of a script that does not fail, its output. -/
def output (v : Visit) : List Text := (v.before.world.children.headD .silent).lines

/-- Whether the step has the given directive. -/
def does (d : Directive) (v : Visit) : Bool := v.step.directive == d

end Visit

/-- The steps that are run of those numbered from `index` on. -/
def visits (index : Nat) : List Step → Session → List Visit
  | [], _ => []
  | step :: rest, s => ⟨index, step, s⟩ ::
    match Step.run index step s with
    | .ok _ s' => visits (index + 1) rest s'
    | .error _ _ => []

/-- How a run over visits ends: well if it visits every step, and then the visits give its results; else with its last
    visit. -/
def Ends (steps : List Step) (s : Session) (vs : List Visit) : EStateM.Result Fault Session (List StepResult) → Prop
  | .ok results s' => vs.map (·.step) = steps ∧
      List.Forall₂ (fun v result => ∃ s', v.outcome = .ok result s') vs results ∧
      s' = (vs.getLast?.map fun v => final v.outcome).getD s
  | .error e s' => ∃ v, vs.getLast? = some v ∧ v.outcome = .error e s'

/-- The visits make up a run of the steps: each begins where the one before it ended, and none follows one that
    fails. -/
structure IsRun (steps : List Step) (s : Session) (vs : List Visit)
    (outcome : EStateM.Result Fault Session (List StepResult)) : Prop where
  first : ∀ v, vs.head? = some v → v.before = s
  next : vs.IsChain fun v v' => ∃ result, v.outcome = .ok result v'.before
  order : vs.map (·.step) <+: steps
  ends : Ends steps s vs outcome

/-! ### Accounts -/

/-- Variables after visits: each script has set what it printed. -/
def valuesAfter (values : Bindings) (vs : List Visit) : Bindings :=
  values.update ((vs.filter (·.does .script)).flatMap fun v => Marker.exports v.output)

/-- An environment after visits: each export has set its variable. -/
def envAfter (env : Bindings) (vs : List Visit) : Bindings :=
  env.update ((vs.filter (·.does .exportVar)).map fun v => Step.assignment v.text)

/-- A directory is the one after visits: where the target of the last change of directory leads. -/
def IsCwdAfter (start : Path) (vs : List Visit) (cwd : Path) : Prop :=
  match (vs.filter (·.does .cd)).getLast? with
  | none => cwd = start
  | some v => v.before.world.files.resolve (Step.target v.text v.before) = .ok cwd

/-- The context `c` is what visits have made of the context `start`. -/
structure Accounts (start : Context) (vs : List Visit) (c : Context) : Prop where
  values : c.values = valuesAfter start.values vs
  env : c.env = envAfter start.env vs
  cwd : IsCwdAfter start.cwd vs c.cwd
  scriptDir : c.scriptDir = start.scriptDir
  pid : c.pid = start.pid

/-- A step that is run after others: what it finds, what it gives and what it starts. -/
structure Visit.Follows (start : Context) (vs : List Visit) (v : Visit) : Prop where
  index : v.index = vs.length + 1
  context : Accounts start vs v.before.context
  result : ∀ result s', v.outcome = .ok result s' → result.index = v.index ∧ result.directive = v.step.directive ∧
    result.data = Variables.substitute v.step.data (valuesAfter start.values vs)
  starts : ∃ new, v.before.Starts new (final v.outcome) ∧
    Step.Attempts v.before.context (Step.words? v.step.directive v.text (Step.started v.index v.step v.before)) new

section Runs
variable {index : Nat} {step : Step} {rest steps : List Step} {s s' : Session} {result : StepResult} {e : Fault}

theorem visits_of_ok (h : Step.run index step s = .ok result s') :
    visits index (step :: rest) s = ⟨index, step, s⟩ :: visits (index + 1) rest s' := by
  rw [visits, h]

theorem visits_of_error (h : Step.run index step s = .error e s') :
    visits index (step :: rest) s = [⟨index, step, s⟩] := by
  rw [visits, h]

theorem runFrom_of_ok (h : Step.run index step s = .ok result s') : Step.runFrom index (step :: rest) s =
    (Step.runFrom (index + 1) rest >>= fun results => pure (result :: results)) s' := bind_of_ok h

theorem runFrom_of_error (h : Step.run index step s = .error e s') :
    Step.runFrom index (step :: rest) s = .error e s' :=
  bind_of_error h

/-- What a run does is what its visits do. -/
theorem visits_isRun (index : Nat) (steps : List Step) (s : Session) :
    IsRun steps s (visits index steps s) (Step.runFrom index steps s) := by
  induction steps generalizing index s with
  | nil => exact ⟨by simp [visits], .nil, List.prefix_refl _, rfl, .nil, rfl⟩
  | cons step rest ih =>
    cases hrun : Step.run index step s with
    | error e s' =>
      rw [visits_of_error hrun, runFrom_of_error hrun]
      exact ⟨by simp, .singleton _, ⟨rest, rfl⟩, _, rfl, hrun⟩
    | ok result s' =>
      have ih := ih (index + 1) s'
      rw [visits_of_ok hrun, runFrom_of_ok hrun]
      refine ⟨by simp, ?_, List.cons_prefix_cons.mpr ⟨rfl, ih.order⟩, ?_⟩
      · cases hvs : visits (index + 1) rest s' with
        | nil => exact .singleton _
        | cons v vs =>
          have hbefore : v.before = s' := ih.first v (by rw [hvs]; rfl)
          exact .cons_cons ⟨result, hbefore ▸ hrun⟩ (hvs ▸ ih.next)
      · have hends := ih.ends
        cases hrest : Step.runFrom (index + 1) rest s' with
        | error e s'' =>
          rw [hrest] at hends
          obtain ⟨v, hlast, hv⟩ := hends
          rw [bind_of_error hrest]
          exact ⟨v, by simp [List.getLast?_cons, hlast], hv⟩
        | ok results s'' =>
          rw [hrest] at hends
          obtain ⟨hsteps, hresults, hlast⟩ := hends
          rw [bind_of_ok hrest]
          refine ⟨by rw [List.map_cons, hsteps], .cons ⟨s', hrun⟩ hresults, ?_⟩
          rw [hlast, List.getLast?_cons]
          cases (visits (index + 1) rest s').getLast? with
          | none => simp [Visit.outcome, hrun]
          | some v => rfl

section
variable {R : World → World → Prop} [Frame R] (hrun : ∀ index step, Leads (Session.Outside R) (Step.run index step))
include hrun

theorem leads_runFrom (index : Nat) (steps : List Step) : Leads (Session.Outside R) (Step.runFrom index steps) := by
  induction steps generalizing index with
  | nil => exact .pure _
  | cons step rest ih => exact Leads.bind (hrun index step) fun _ => Leads.bind (ih _) fun _ => .pure _

/-- What each step bears is between the first session and those before the visits. -/
theorem visits_outside {v : Visit} (hv : v ∈ visits index steps s) : s.Outside R v.before := by
  induction steps generalizing index s with
  | nil => simp [visits] at hv
  | cons step rest ih =>
    cases hstep : Step.run index step s with
    | error e s' =>
      rw [visits_of_error hstep, List.mem_singleton] at hv
      rw [hv]
      exact Frame.refl s.world
    | ok result s' =>
      rw [visits_of_ok hstep] at hv
      rcases List.mem_cons.mp hv with rfl | hv
      · exact Frame.refl s.world
      · exact Frame.trans (R := R) ((hrun index step).ok hstep) (ih hv)

end

end Runs

/-! ### What a step adds to the account -/

section Accounts
variable {start c : Context} {vs : List Visit} {v : Visit} {result : StepResult} {s s' : Session} {b : Bindings}
  {cwd : Path} {d : Directive}

theorem filter_append_of_does (h : v.does d = true) : (vs ++ [v]).filter (·.does d) = vs.filter (·.does d) ++ [v] := by
  rw [List.filter_append, List.filter_cons_of_pos h, List.filter_nil]

theorem filter_append_of_not_does (h : v.does d = false) : (vs ++ [v]).filter (·.does d) = vs.filter (·.does d) := by
  rw [List.filter_append, List.filter_cons_of_neg (by simp [h]), List.filter_nil, List.append_nil]

theorem valuesAfter_append (b : Bindings) (vs : List Visit) (v : Visit) : valuesAfter b (vs ++ [v]) =
    if v.does .script then (valuesAfter b vs).update (Marker.exports v.output) else valuesAfter b vs := by
  cases h : v.does .script with
  | true => simp [valuesAfter, filter_append_of_does h, Bindings.update_append]
  | false => simp [valuesAfter, filter_append_of_not_does h]

theorem envAfter_append (b : Bindings) (vs : List Visit) (v : Visit) : envAfter b (vs ++ [v]) =
    if v.does .exportVar then Bindings.set (Step.assignment v.text).1 (Step.assignment v.text).2 (envAfter b vs)
    else envAfter b vs := by
  cases h : v.does .exportVar with
  | true => simp [envAfter, filter_append_of_does h, Bindings.update]
  | false => simp [envAfter, filter_append_of_not_does h]

theorem isCwdAfter_append_iff (p : Path) (vs : List Visit) (v : Visit) : IsCwdAfter p (vs ++ [v]) cwd ↔
    if v.does .cd then v.before.world.files.resolve (Step.target v.text v.before) = .ok cwd
    else IsCwdAfter p vs cwd := by
  cases h : v.does .cd with
  | true => simp [IsCwdAfter, filter_append_of_does h]
  | false => simp [IsCwdAfter, filter_append_of_not_does h]

/-- A step that does not fail carries the account on. -/
theorem Accounts.next (h : Accounts start vs v.before.context) (hv : v.outcome = .ok result s') :
    Accounts start (vs ++ [v]) s'.context := by
  obtain ⟨-, -, -, hmakes⟩ := Step.run_eq_ok hv
  refine ⟨?_, ?_, ?_, hmakes.scripts.1.trans h.scriptDir, hmakes.scripts.2.trans h.pid⟩
  · rw [hmakes.values, valuesAfter_append, h.values]
    simp only [Visit.does, Visit.output, beq_iff_eq]
  · rw [hmakes.env, envAfter_append, h.env]
    simp only [Visit.does, Visit.text, beq_iff_eq]
  · have hcwd := hmakes.cwd
    rw [isCwdAfter_append_iff]
    simp only [Visit.does, Visit.text, beq_iff_eq]
    split
    · rw [if_pos ‹_›] at hcwd
      exact hcwd.2
    · rw [if_neg ‹_›] at hcwd
      rw [hcwd]
      exact h.cwd

theorem follows_of_accounts (h : Accounts start vs v.before.context) (hindex : v.index = vs.length + 1) :
    v.Follows start vs where
  index := hindex
  context := h
  result result s' hv := by
    obtain ⟨hindex, hdirective, hdata, -⟩ := Step.run_eq_ok hv
    exact ⟨hindex, hdirective, by rw [hdata, Step.text, h.values]⟩
  starts := Step.run_starts v.index v.step v.before

theorem visits_follow (steps : List Step) (s : Session) (h : Accounts start vs s.context) {i : Nat}
    (hi : (visits (vs.length + 1) steps s)[i]? = some v) :
    v.Follows start (vs ++ (visits (vs.length + 1) steps s).take i) := by
  -- The history grows with every visit, so it is part of the statement.
  induction steps generalizing vs s i with
  | nil => simp [visits] at hi
  | cons step rest ih =>
    cases i with
    | zero =>
      obtain rfl : ⟨vs.length + 1, step, s⟩ = v := by simpa [visits] using hi
      simpa using follows_of_accounts h rfl
    | succ i =>
      cases hrun : Step.run (vs.length + 1) step s with
      | error e s' =>
        rw [visits_of_error hrun] at hi
        simp at hi
      | ok result s' =>
        have hnext := Accounts.next (v := ⟨vs.length + 1, step, s⟩) h hrun
        rw [visits_of_ok hrun] at hi ⊢
        have hfollows := ih s' hnext (i := i) (by simpa using hi)
        simpa using hfollows

end Accounts

/-! ### Runs -/

/-- What every step that does not fail preserves holds before each visit. -/
theorem visits_forall {P : Session → Prop} (hstep : ∀ {index : Nat} {step : Step} {s s' : Session} {result : StepResult},
    P s → Step.run index step s = .ok result s' → P s') (index : Nat) (steps : List Step) {s : Session} (hs : P s) :
    ∀ v ∈ visits index steps s, P v.before := by
  induction steps generalizing index s with
  | nil => simp [visits]
  | cons step rest ih =>
    cases hrun : Step.run index step s with
    | error e s' => simpa [visits_of_error hrun] using hs
    | ok result s' =>
      rw [visits_of_ok hrun, List.forall_mem_cons]
      exact ⟨hs, ih (index + 1) (hstep hs hrun)⟩

theorem visits_clean (index : Nat) (steps : List Step) {s : Session} (hs : s.Clean) :
    ∀ v ∈ visits index steps s, v.before.Clean := visits_forall Step.run_clean index steps hs

theorem runFrom_indices {index : Nat} {steps : List Step} {s s' : Session} {results : List StepResult}
    (h : Step.runFrom index steps s = .ok results s') : results.map (·.index) = List.range' index steps.length := by
  induction steps generalizing index s results with
  | nil =>
    cases h
    rfl
  | cons step rest ih =>
    obtain ⟨result, s₁, hrun, h⟩ := bind_eq_ok h
    obtain ⟨results', s₂, hrest, h⟩ := bind_eq_ok h
    cases h
    rw [List.map_cons, (Step.run_eq_ok hrun).1, ih hrest, List.length_cons, List.range'_succ]

/-- A run is the run of its visits; each of them finds what the visits before it account for, and does what that account
    says. In a clean session every directory is one that children can be in. -/
theorem runAll_history (steps : List Step) (s : Session) :
    IsRun steps s (visits 1 steps s) (Step.runAll steps s) ∧
      (∀ results s', Step.runAll steps s = .ok results s' → results.map (·.index) = List.range' 1 steps.length) ∧
      (∀ (i : Nat) (v : Visit), (visits 1 steps s)[i]? = some v → v.Follows s.context ((visits 1 steps s).take i)) ∧
      (s.Clean → ∀ v ∈ visits 1 steps s, '\x00' ∉ v.before.context.cwd.toText) := by
  have hstart : Accounts s.context [] s.context := ⟨rfl, rfl, rfl, rfl, rfl⟩
  refine ⟨visits_isRun 1 steps s, fun results s' => runFrom_indices, fun i v hi => ?_, fun hs v hv => ?_⟩
  · simpa using visits_follow steps s hstart hi
  · exact (visits_clean 1 steps hs v hv).cwd.toText (by decide) (by decide)

/-- A session before a change of directory through a link, a script that exports a variable twice, a command that prints
    a marker too, the setting of an environment variable, and one more command. -/
def marked : Session where
  world := {
    files := {
      tree := ⟨[(["a"], .directory), (["l"], .link "a")]⟩
      denied := []
      cwd := ⟨.root, []⟩
      homes := ⟨[], []⟩ }
    env := []
    host := ⟨0, 0, 0, 0, [], [], [], none, [], [], [], []⟩
    children := [⟨none, Utf8.encode "###export v=1\n###export v=2\n", 0, [], some 0⟩,
      ⟨none, Utf8.encode "###export v=3\n", 0, [], some 0⟩]
    clock := 0
    tried := 0
    starts := []
    verbosity := .normal
    log := []
    tee := none }
  context := ⟨⟨.root, []⟩, [], [("v", "0")], ⟨.root, ["s"]⟩, 7⟩

/-- The steps of that session. -/
def markedSteps : List Step :=
  [⟨.cd, "l", none⟩, ⟨.script, "print", none⟩, ⟨.exec, "echo $\x7bv\x7d", none⟩, ⟨.exportVar, "X=$\x7bv\x7d", none⟩,
    ⟨.execNoExit, "ls", none⟩]

theorem marked_clean : marked.Clean where
  cwd name hname := by cases hname
  files := by
    refine ⟨fun place target hlink => ?_, fun name hname => by cases hname⟩
    have hplace : place ≠ [] := by
      rintro rfl
      cases hlink
    rw [Tree.node?_of_ne_nil hplace] at hlink
    have hmem := mem_of_lookup hlink
    simp only [marked, List.mem_cons, Prod.mk.injEq, reduceCtorEq, and_false, false_or, List.not_mem_nil, or_false,
      Node.link.injEq] at hmem
    rw [hmem.2]
    decide

theorem runAll_history_marked : ∃ v, (visits 1 markedSteps marked)[4]? = some v ∧
    v.Follows marked.context ((visits 1 markedSteps marked).take 4) ∧ marked.Clean ∧
    '\x00' ∉ v.before.context.cwd.toText ∧ v.before.context.values = [(['v'], ['2'])] ∧
    ∃ program, v.before.Starts [⟨["ls"], "/a", [(['X'], ['2'])], program⟩] (final v.outcome) := by
  have hcheck : (match (visits 1 markedSteps marked)[4]? with
      | some v => decide (v.before.context.cwd.toText = ['/', 'a'] ∧ v.before.context.env = [(['X'], ['2'])] ∧
          v.before.context.values = [(['v'], ['2'])] ∧ v.step.directive = .execNoExit ∧
          Step.command? v.text = some [['l', 's']])
      | none => false) = true := by decide +kernel
  cases hv : (visits 1 markedSteps marked)[4]? with
  | none =>
    rw [hv] at hcheck
    cases hcheck
  | some v =>
    rw [hv] at hcheck
    obtain ⟨hcwd, henv, hvalues, hdirective, hcommand⟩ := of_decide_eq_true hcheck
    obtain ⟨-, -, hfollows, hclean⟩ := runAll_history markedSteps marked
    have hnull := hclean marked_clean v (List.mem_of_getElem? hv)
    have hhabitable : Step.Habitable v.before.context := by
      rw [Step.Habitable, hcwd, henv]
      decide
    obtain ⟨new, hstarts, hnew⟩ := (hfollows 4 v hv).starts
    rw [hdirective, Step.words?, hcommand, Step.Attempts, if_pos hhabitable, hcwd, henv] at hnew
    obtain ⟨program, rfl⟩ := hnew
    exact ⟨v, rfl, hfollows 4 v hv, marked_clean, hnull, hvalues, program, hstarts⟩

end Runbook
