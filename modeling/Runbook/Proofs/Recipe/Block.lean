import Runbook.Proofs.Recipe.Content
import Runbook.Proofs.Recipe.Exchange
import Runbook.Proofs.Recipe.Surroundings
import Runbook.Rehearsal

/-! # Blocks in recipe files

A block may stand anywhere among lines that read well (`Block.Setting`). Its lines are found again in the file and read
to one logical line between those before and after it (`Setting.readLines_eq`), which gives the recipe the body of the
block in the place of what any other assignment to the same key would give. Main statement: `Recipe.loadFile_block`. -/

namespace Runbook

open Block Effect Include Text

variable {w : World} {p : Path} {layout : Layout} {slot : Slot} {bs : List Text}

/-- A recipe file in which some lines stand as a block, among lines that read well: the path of the file, what is
    before the lines of the block and after them in the file, what the lines before and after the block read to, and
    the worlds in between and at the end. The file is read to its end, where nothing has been added. -/
structure Block.Setting (w : World) (p : Path) (layout : Layout) (slot : Slot) (bs : List Text) where
  file : Path
  head : List UInt8
  tail : List UInt8
  before : List Line
  after : List Line
  between : World
  last : World
  expands : w.files.homes.expand? p = some file
  isFile : w.files.isFile file = .ok true
  allowed : w.files.isDenied file = false
  content : ((Recipe.view.opened (w.files.absolute file).toText w).files.content file) =
    head ++ (Utf8.encode (layout.text slot bs) ++ tail)
  headEnds : ∀ b ∈ head.getLast?, b = 10
  tailBegins : ∀ b ∈ tail.head?, b = 10
  headText : (rawLines head).2 = none
  tailText : (rawLines tail.tail).2 = none
  readHead : takeWith Recipe.view (depth w.files - 1) [] w.files file
      ⟨.ofFile p.toText (w.files.absolute file).toText, 1⟩ (rawLines head).1
      (Recipe.view.opened (w.files.absolute file).toText w) =
    .ok (⟨.ofFile p.toText (w.files.absolute file).toText, 1 + (rawLines head).1.length⟩, before) between
  readTail : takeWith Recipe.view (depth w.files - 1) [] w.files file
      ⟨.ofFile p.toText (w.files.absolute file).toText,
        1 + (rawLines head).1.length + (layout.lines slot bs).length⟩ (rawLines tail.tail).1 between =
    .ok (⟨.ofFile p.toText (w.files.absolute file).toText,
      1 + (rawLines head).1.length + (layout.lines slot bs).length + (rawLines tail.tail).1.length⟩, after) last
  unchanged : last.files.content file = head ++ (Utf8.encode (layout.text slot bs) ++ tail)

namespace Block.Setting

variable (i : Setting w p layout slot bs)

/-- The logical line of the block. -/
def line : Line := layout.line slot bs p.toText (w.files.absolute i.file).toText (1 + (rawLines i.head).1.length)

/-- The lines of the block, among others in the file. -/
def surroundings : Recipe.Surroundings w p (layout.text slot bs) (layout.lines slot bs).length :=
  { i with starts := i.headEnds, ends := i.tailBegins }

theorem has_lines (hslot : slot.Valid) (hbs : layout.Carries bs) : i.surroundings.Has (layout.lines slot bs) := by
  have hhead : rawLines i.head = ((rawLines i.head).1, none) := Prod.ext rfl i.headText
  have hraws := hbs.rawLines hslot i.headEnds hhead i.tailBegins
  rwa [i.tailText] at hraws

/-- The file reads to the lines before the block, the line of the block, and the lines after it. -/
theorem readLines_eq (hslot : slot.Valid) (hbs : layout.Carries bs) :
    Recipe.readLines p.toText p w = .ok (i.before ++ i.line :: i.after) i.last :=
  i.surroundings.readLines_eq (i.has_lines hslot hbs) (Layout.read hslot hbs _ _ _ i.between)

theorem givenBy_line (hslot : slot.Valid) : slot.GivenBy (trim (joinWith "\n" bs)) i.line where
  key := key_line hslot
  equals := mem_text_line
  value := rfl
  trimmed := trim_trim _

end Block.Setting

/-- A block carries any lines into a recipe: its body is the lines, but for the blanks at both ends, in every layout
    that can carry them. The recipe is the one that some other assignment to the same key makes in the place of the
    block, with the body in the place of what this one gives. A body of blanks is a default, but it is neither a
    description nor a text of a step. -/
theorem Recipe.loadFile_block {other : Line} {r : Recipe} (hslot : slot.Valid) (hbs : layout.Carries bs)
    (i : Setting w p layout slot bs) (hhome : lastSection i.before = some slot.home)
    (hother : other.isHeader = false) (hkey : other.key = slot.key) (hkept : slot.Kept (i.before ++ [other]) i.after)
    (h : ofFile i.last.files.cwd p (i.before ++ other :: i.after) = .ok r) :
    let body := trim (joinWith "\n" bs)
    let n := (inSection .steps i.before).length
    (slot = .full → loadFile p w =
      if body = [] then .error (.load (.incomplete .full p.stem)) i.last else .ok { r with full := body } i.last) ∧
    (∀ name, slot = .declaration name →
      loadFile p w = .ok { r with defaults := Bindings.set name body r.defaults } i.last ∧
        (Bindings.set name body r.defaults).get? name = some body) ∧
    (∀ d, slot = .step d →
      if body = [] then loadFile p w = .error (.load (.malformed (.missingData d.keyword) i.line)) i.last
      else loadFile p w = .ok { r with steps := r.steps.set n ⟨d, body, some i.line⟩ } i.last ∧
        n < r.steps.length) := by
  obtain ⟨-, hcomplete, hname, -⟩ := exists_fill hother h
  have hline := i.givenBy_line hslot
  have hmade := ofLines_exchange hslot hline hother hkey hhome h hkept
  rw [complete_edit hcomplete, hname] at hmade
  intro body n
  rw [loadFile_of_readLines (i.readLines_eq hslot hbs), ofFile]
  refine ⟨fun hfull => ?_, fun name hname => ?_, fun d hstep => ?_⟩
  · subst hfull
    obtain ⟨hmade, -⟩ := hmade (Or.inl rfl)
    rw [hmade]
    by_cases hbody : body = []
    · rw [if_pos ⟨rfl, hbody⟩, if_pos hbody]
    · rw [if_neg (fun hempty => hbody hempty.2), if_neg hbody]
      rfl
  · subst hname
    obtain ⟨hmade, -⟩ := hmade (Or.inl rfl)
    rw [hmade, if_neg (fun hempty => by cases hempty.1)]
    exact ⟨rfl, by rw [Bindings.get?_set, if_pos rfl]⟩
  · subst hstep
    split
    · rw [ofLines_exchange_nil hslot hline hother hkey hhome h rfl ‹_›]
    · obtain ⟨hmade, hfilled⟩ := hmade (Or.inr ‹_›)
      rw [hmade, if_neg (fun hempty => by cases hempty.1)]
      exact ⟨rfl, hfilled⟩

/-- Lines that look like a comment, an include line, a header and a string. -/
def Recipe.disguised : List Text := ["# a", " include b", "[step]", "\"c\""]

/-- What is before a script in a file, and after it. -/
def Recipe.aroundScript : List UInt8 × List UInt8 :=
  (Utf8.encode "[description]\nbrief = x\nfull = y\n[step]\n", Utf8.encode "\nstep = cd /")

/-- A world with a file in which these lines are the text of a script. -/
def Recipe.scripted : World :=
  Rehearsal.world "/" [] [("/r", aroundScript.1 ++
    (Utf8.encode (Layout.text ⟨true, false⟩ (.step .script) disguised) ++ aroundScript.2))]

theorem Recipe.opened_scripted (path : Text) : view.opened path scripted = scripted := World.say_debug (by decide) _

/-- How that file is read. -/
def Recipe.scriptSetting : Setting scripted ⟨.relative, ["r"]⟩ ⟨true, false⟩ (.step .script) disguised where
  file := ⟨.relative, ["r"]⟩
  head := aroundScript.1
  tail := aroundScript.2
  before := [⟨"r", "/r", 1, "[description]", none⟩, ⟨"r", "/r", 2, "brief = x", none⟩,
    ⟨"r", "/r", 3, "full = y", none⟩, ⟨"r", "/r", 4, "[step]", none⟩]
  after := [⟨"r", "/r", 10, "step = cd /", none⟩]
  between := scripted
  last := scripted
  expands := by decide +kernel
  isFile := by decide +kernel
  allowed := by decide +kernel
  content := by
    rw [opened_scripted]
    decide +kernel
  headEnds := by decide +kernel
  tailBegins := by decide +kernel
  headText := by decide +kernel
  tailText := by decide +kernel
  readHead := by
    rw [opened_scripted]
    rfl
  readTail := rfl
  unchanged := by decide +kernel

theorem Recipe.loadFile_block_disguised : ∃ r, loadFile ⟨.relative, ["r"]⟩ scripted = .ok r scripted ∧
    r.steps.map Step.action =
      [(Directive.script, "# a\n include b\n[step]\n\"c\"".toList), (Directive.cd, "/".toList)] := by
  have hslot : (Slot.step .script).Valid := Or.inl rfl
  have hcarries : Layout.Carries ⟨true, false⟩ disguised := by decide +kernel
  have hmakes : ofFile scripted.files.cwd ⟨.relative, ["r"]⟩ (scriptSetting.before ++
      ⟨"r", "/r", 5, "step = info x", none⟩ :: scriptSetting.after) =
    .ok ⟨"r", "/r", "x", "y", [], [⟨.info, "x", some ⟨"r", "/r", 5, "step = info x", none⟩⟩,
      ⟨.cd, "/", some ⟨"r", "/r", 10, "step = cd /", none⟩⟩]⟩ := by decide +kernel
  obtain ⟨-, -, hstep⟩ := loadFile_block hslot hcarries scriptSetting (by decide +kernel) rfl (by decide +kernel)
    (fun _ _ _ _ hword => by cases hword) hmakes
  obtain ⟨hload, -⟩ := hstep .script rfl
  exact ⟨_, hload, by decide +kernel⟩

end Runbook
