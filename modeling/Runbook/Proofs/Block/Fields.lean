import Runbook.Block
import Runbook.Recipe.Error
import Mathlib.Tactic.Common

/-! # Assemblers with fields

What an assembler remembers of an open block can be kept in fields of its own instead: the logical line that opened it, its
keyword, its lines and the parts of its body, and beside them whether a block is open (`Assembler.Fields`). Then there are
states that mean nothing, such as an open block without its opening line, in which a block that ends cannot become a
logical line. None of them is ever reached: whatever an assembler is used for, the fields are those of what it remembers
(`Assembler.useAll_fields`). -/

namespace Runbook.Assembler

/-- A line that is fed to an assembler, and its number. -/
structure Fed where
  number : Int
  raw : Text
deriving DecidableEq, Repr

/-- A use of an assembler: a line is fed to it, or the file ends. -/
inductive Use
  | feed (line : Fed)
  | finish
deriving DecidableEq, Repr

/-- An assembler after a use, and what comes of it: a logical line, nothing, or an error. -/
def use (a : Assembler) : Use → Assembler × Except LoadError (Option Line)
  | .feed line => ((a.feed line.number line.raw).1, .ok (a.feed line.number line.raw).2)
  | .finish =>
    (a.finish.1,
      match a.finish.2 with
      | some start => .error (.openBlock start)
      | none => .ok none)

section
variable {σ τ α β : Type} (step : σ → Use → σ × α)

/-- What is used after some uses, and what comes of each of them. After an error it is used on. -/
def useAll : σ → List Use → σ × List α
  | s, [] => (s, [])
  | s, u :: us => ((useAll (step s u).1 us).1, (step s u).2 :: (useAll (step s u).1 us).2)

theorem useAll_concat (s : σ) (us : List Use) (u : Use) : useAll step s (us ++ [u]) =
    ((step (useAll step s us).1 u).1, (useAll step s us).2 ++ [(step (useAll step s us).1 u).2]) := by
  induction us generalizing s with
  | nil => rfl
  | cons v us ih => rw [List.cons_append, useAll, ih, useAll, List.cons_append]

/-- If each use does to an image what it does to what is used, so do all of them. -/
theorem useAll_map {step : σ → Use → σ × α} {step' : τ → Use → τ × β} {f : σ → τ} {g : α → β}
    (h : ∀ s u, step' (f s) u = (f (step s u).1, g (step s u).2)) (s : σ) (us : List Use) :
    useAll step' (f s) us = (f (useAll step s us).1, (useAll step s us).2.map g) := by
  induction us generalizing s with
  | nil => rfl
  | cons u us ih => rw [useAll, h, ih, useAll, List.map_cons]

end

/-! ### Fields -/

/-- Whether a block is open. -/
inductive State
  | normal
  | inBlock
deriving DecidableEq, Repr

/-- An assembler that keeps what belongs to an open block in fields of their own. -/
structure Fields where
  source : Text
  path : Text
  state : State
  start : Option Line
  word : Option Directive
  raw : List Text
  body : List Text
deriving DecidableEq, Repr

namespace Fields

/-- What fields may fail with. -/
inductive Failure
  /-- The file cannot be read on. -/
  | load (e : LoadError)
  /-- The file ends in a block of which no opening line is stored. -/
  | unknownStart
  /-- A block ends of which no opening line is stored. -/
  | noOpening
deriving DecidableEq, Repr

/-- The fields for a file, with no block open. -/
def ofFile (source path : Text) : Fields := ⟨source, path, .normal, none, none, [], []⟩

/-- The fields with nothing left of a block. -/
def reset (f : Fields) : Fields := ofFile f.source f.path

/-- Takes a line while a block is open. The line is stored before it is known whether the block can become a logical
    line. -/
def feedBlock (f : Fields) (raw : Text) : Fields × Except Failure (Option Line) :=
  let f := { f with raw := f.raw ++ [raw] }
  if Block.closes (Text.trim raw) then
    let f := { f with body := f.body ++ [Block.dropFence (Text.trimRight raw)] }
    match f.start with
    | none => (f, .error .noOpening)
    | some start =>
      (f.reset, .ok (some { start with
        text := Text.joinWith "\n" f.raw
        value := some (Block.value f.word (Text.trim (Text.joinWith "\n" f.body))) }))
  else ({ f with body := f.body ++ [raw] }, .ok none)

/-- Takes a line while no block is open. -/
def feedNormal (f : Fields) (line : Fed) : Fields × Except Failure (Option Line) :=
  let text := Text.trim line.raw
  let start : Line := ⟨f.source, f.path, line.number, text, none⟩
  match Block.opening? text with
  | none => (f, .ok (some start))
  | some o =>
    if Block.closes o.rest then
      (f, .ok (some { start with value := some (Block.value o.word (Text.trim (Block.dropFence o.rest))) }))
    else ({ f with state := .inBlock, start := some start, word := o.word, raw := [line.raw], body := [o.rest] }, .ok none)

/-- The fields after a use, and what comes of it. -/
def use (f : Fields) : Use → Fields × Except Failure (Option Line)
  | .feed line =>
    match f.state with
    | .inBlock => f.feedBlock line.raw
    | .normal => f.feedNormal line
  | .finish =>
    match f.state with
    | .normal => (f, .ok none)
    | .inBlock =>
      (f.reset,
        match f.start with
        | some start => .error (.load (.openBlock start))
        | none => .error .unknownStart)

/-- A block is open exactly when its opening line is stored, and while none is open nothing is left of one. -/
structure Coherent (f : Fields) : Prop where
  start : f.state = .inBlock ↔ f.start.isSome = true
  word : f.state = .normal → f.word = none
  raw : f.state = .normal → f.raw = []
  body : f.state = .normal → f.body = []

end Fields

/-! ### The fields of an assembler -/

/-- What an assembler remembers, in fields. -/
def fields (a : Assembler) : Fields :=
  match a.block with
  | none => .ofFile a.source a.path
  | some b => ⟨a.source, a.path, .inBlock, some b.start, b.word, b.raw, b.body⟩

variable {a : Assembler} {b : Block.Open}

theorem fields_of_none (h : a.block = none) : a.fields = .ofFile a.source a.path := by
  rw [fields, h]

theorem fields_of_some (h : a.block = some b) :
    a.fields = ⟨a.source, a.path, .inBlock, some b.start, b.word, b.raw, b.body⟩ := by
  rw [fields, h]

theorem coherent_fields (a : Assembler) : a.fields.Coherent := by
  cases h : a.block with
  | none =>
    rw [fields_of_none h]
    exact ⟨by simp [Fields.ofFile], fun _ => rfl, fun _ => rfl, fun _ => rfl⟩
  | some b =>
    rw [fields_of_some h]
    exact ⟨by simp, nofun, nofun, nofun⟩

/-- The fields of coherent states are those of assemblers. -/
theorem Fields.Coherent.exists_fields {f : Fields} (h : f.Coherent) : ∃ a : Assembler, f = a.fields := by
  obtain ⟨source, path, state, start, word, raw, body⟩ := f
  cases state with
  | normal =>
    obtain rfl : start = none := by simpa using h.start
    obtain rfl : word = none := h.word rfl
    obtain rfl : raw = [] := h.raw rfl
    obtain rfl : body = [] := h.body rfl
    exact ⟨.ofFile source path, rfl⟩
  | inBlock =>
    obtain ⟨line, rfl⟩ := Option.isSome_iff_exists.mp (h.start.mp rfl)
    exact ⟨⟨source, path, some ⟨line, word, raw, body⟩⟩, rfl⟩

theorem feedBlock_fields (h : a.block = some b) (line : Fed) : a.fields.feedBlock line.raw =
    ((a.use (.feed line)).1.fields, (a.use (.feed line)).2.mapError .load) := by
  rw [fields_of_some h, Fields.feedBlock, use, feed, h]
  dsimp only
  split <;> rfl

theorem feedNormal_fields (h : a.block = none) (line : Fed) : a.fields.feedNormal line =
    ((a.use (.feed line)).1.fields, (a.use (.feed line)).2.mapError .load) := by
  rw [fields_of_none h, Fields.feedNormal, use, feed, h]
  dsimp only [Fields.ofFile]
  cases Block.opening? (Text.trim line.raw) with
  | none =>
    dsimp only
    rw [fields_of_none h]
    rfl
  | some o =>
    dsimp only
    split
    · rw [fields_of_none h]
      rfl
    · rfl

/-- A use does to the fields of an assembler what it does to the assembler. -/
theorem use_fields (a : Assembler) (u : Use) :
    a.fields.use u = ((a.use u).1.fields, (a.use u).2.mapError .load) := by
  cases u with
  | feed line =>
    cases h : a.block with
    | none =>
      rw [← feedNormal_fields h, fields_of_none h]
      rfl
    | some b =>
      rw [← feedBlock_fields h, fields_of_some h]
      rfl
  | finish =>
    cases h : a.block with
    | none =>
      rw [fields_of_none h, use, finish, h]
      rfl
    | some b =>
      rw [fields_of_some h, use, finish, h]
      rfl

theorem useAll_fields (a : Assembler) (us : List Use) : useAll Fields.use a.fields us =
    ((useAll use a us).1.fields, (useAll use a us).2.map (·.mapError .load)) :=
  useAll_map use_fields a us

/-- Coherent states lead to coherent states only, and in none of them a block ends whose opening line is not stored. -/
theorem Fields.Coherent.useAll {f : Fields} (h : f.Coherent) (us : List Use) :
    (useAll Fields.use f us).1.Coherent ∧ .error .noOpening ∉ (useAll Fields.use f us).2 ∧
      .error .unknownStart ∉ (useAll Fields.use f us).2 := by
  obtain ⟨a, rfl⟩ := h.exists_fields
  rw [useAll_fields]
  have hload : ∀ e ∈ (Assembler.useAll Assembler.use a us).2.map (·.mapError Failure.load),
      ∀ failure, e = .error failure → ∃ cause, failure = .load cause := by
    rintro e he failure rfl
    obtain ⟨r, -, hr⟩ := List.mem_map.mp he
    cases r with
    | ok line => cases hr
    | error cause => exact ⟨cause, (Except.error.inj hr).symm⟩
  refine ⟨coherent_fields _, fun hmem => ?_, fun hmem => ?_⟩
  · obtain ⟨cause, hcause⟩ := hload _ hmem _ rfl
    cases hcause
  · obtain ⟨cause, hcause⟩ := hload _ hmem _ rfl
    cases hcause

end Runbook.Assembler
