import Runbook.CommandLine
import Runbook.Proofs.CommandLine.Reader

/-! # Passing words on

Where options may not be mixed with arguments, the first argument and all that follows it are passed on unchanged
(`Grammar.read_append`). So the reader of the program passes on what a command is called with
(`Reader.standard_passesOn`). -/

namespace Runbook.CommandLine

variable {g : Grammar} {given : Given} {options : List Text} {word : Text} {command : Command} {h : Host} {env : Bindings}

namespace Grammar

theorem read_argument (hmixes : g.mixes = false) (hword : looksLikeOption word = false) (rest : List Text) :
    g.read (word :: rest) = .ok ⟨[], word :: rest⟩ := by
  have hne : word ≠ "--".toList := by
    rintro rfl
    cases hword
  rw [read, if_neg hne, if_neg (by simp [hword]), if_neg (by simp [hmixes])]

/-- An option before others that are given is one more of them; no word has been passed on if there are no arguments. -/
theorem map_withOptions {x y : Except UsageError Given} {topics : List (Topic × Text)} {passed arguments : List Text}
    (hxy : ∀ more, x = .ok more → more.arguments = [] → y = .ok { more with arguments })
    (h : x.map (fun more => (more.withOptions topics).withArguments passed) = .ok given) (hgiven : given.arguments = []) :
    y.map (fun more => (more.withOptions topics).withArguments passed) = .ok { given with arguments } := by
  cases x with
  | error e => cases h
  | ok more =>
    cases h
    obtain ⟨rfl, harguments⟩ := List.append_eq_nil_iff.mp hgiven
    rw [hxy more rfl harguments]
    rfl

/-- The first argument after some options and all the words that follow it are arguments. -/
theorem read_append (hmixes : g.mixes = false) (h : g.read options = .ok given) (hgiven : given.arguments = [])
    (hword : looksLikeOption word = false) (rest : List Text) :
    g.read (options ++ word :: rest) = .ok { given with arguments := word :: rest } := by
  fun_induction read g options generalizing given with
  | case1 =>
    cases h
    exact read_argument hmixes hword rest
  | case2 rest' =>
    cases h
    obtain rfl : rest' = [] := hgiven
    rw [List.cons_append, read, if_pos rfl]
    rfl
  | case3 => cases h
  | case4 word' rest' hdashes hlooks r hword' hpending ih =>
    rw [List.cons_append, read, if_neg hdashes, if_pos hlooks, hword']
    dsimp only
    rw [hpending]
    exact map_withOptions (fun more => ih) h hgiven
  | case5 => cases h
  | case6 word' hdashes hlooks r hword' topic written hpending value rest' ih =>
    rw [List.cons_append, List.cons_append, read, if_neg hdashes, if_pos hlooks, hword']
    dsimp only
    rw [hpending]
    exact map_withOptions (fun more => ih) h hgiven
  | case7 word' rest' hdashes hlooks hmixed => exact absurd (hmixes.symm.trans hmixed) (by decide)
  | case8 =>
    cases h
    cases hgiven

end Grammar

theorem Command.ofName?_name (command : Command) : Command.ofName? command.name = some command := by
  cases command <;> rfl

/-- The commands that take any words take them as they are, if the first is no option. -/
theorem Command.read_words (hmixes : command.grammar.mixes = false) (harity : command.arity = (1, none))
    (hword : Grammar.looksLikeOption word = false) (rest : List Text) :
    command.read (word :: rest) = .ok ⟨[], word :: rest⟩ := by
  rw [read, Grammar.read_argument hmixes hword, harity]
  rfl

theorem looksLikeOption_eq_false (hword : Text.startsWith "-" word = false) : Grammar.looksLikeOption word = false := by
  rw [Grammar.looksLikeOption, hword, Bool.false_and]

namespace Reader

/-- Options of the program that are read, and do not ask how to use it, are followed by any words. -/
theorem readOptions_append (hread : mainGrammar.read options = .ok given) (hgiven : given.arguments = [])
    (hhelp : given.has .help = false) (hversion : given.has .version = false) (command : Command) (rest : List Text) :
    readOptions h env (options ++ command.name :: rest) = .ok (given.settings h env, command.name :: rest) := by
  have hlooks : Grammar.looksLikeOption command.name = false := by cases command <;> rfl
  have hquestions : given.options.find? (fun p => p.1 == .version || p.1 == .help) = none := by
    have hhelp := List.any_eq_false.mp hhelp
    have hversion := List.any_eq_false.mp hversion
    exact List.find?_eq_none.mpr fun p hp => by simp [hhelp p hp, hversion p hp]
  rw [readOptions, Grammar.read_append rfl hread hgiven hlooks]
  dsimp only
  rw [hquestions]
  dsimp only
  rw [Command.ofName?_name]
  rfl

theorem readCommand_words (command : Command) (hmixes : command.grammar.mixes = false) (harity : command.arity = (1, none))
    (hword : Text.startsWith "-" word = false) (rest : List Text) {call : Call}
    (hcall : command.call? ⟨[], word :: rest⟩ = some call) :
    readCommand h env (command.name :: word :: rest) = .ok call := by
  rw [readCommand, Command.ofName?_name]
  dsimp only
  rw [Command.read_words hmixes harity (looksLikeOption_eq_false hword)]
  dsimp only
  rw [hcall]
  rfl

/-- The reader of the program passes words on after its options. -/
theorem standard_passesOn (hread : mainGrammar.read options = .ok given) (hgiven : given.arguments = [])
    (hhelp : given.has .help = false) (hversion : given.has .version = false) :
    standard.PassesOn h env options (given.settings h env) where
  options name hname rest := by
    rcases List.mem_pair.mp hname with rfl | rfl
    · exact readOptions_append hread hgiven hhelp hversion .run rest
    · exact readOptions_append hread hgiven hhelp hversion .exec rest
  run word rest hword := readCommand_words .run rfl rfl hword rest rfl
  exec word rest hword := readCommand_words .exec rfl rfl hword rest rfl
  aborted := by decide

end Reader

end Runbook.CommandLine
