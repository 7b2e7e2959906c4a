import Runbook.Tree

/-! # Journals

A journal is a file that is held open and written to again and again. The writer keeps its own count of the octets
before its next write, whatever others do to the file meanwhile: if the file has been shortened, the gap is filled with
zeros, and if it has been lengthened, the write goes over what is there. The file is held by where it stands, not by the
path it was opened with; once nothing stands there any more, what is written is lost. -/

namespace Runbook

/-- A file that is held open: where it stands, and how many octets lie before the next write. -/
structure Journal where
  place : Place
  offset : Nat
deriving DecidableEq, Repr

namespace Journal

/-- A journal at the start of the file at a place. -/
def start (place : Place) : Journal := ⟨place, 0⟩

/-- The octets after a write at an offset. The write that adds at the end is the usual one, and has a way of its own. -/
def overwrite (content : List UInt8) (offset : Nat) (new : List UInt8) : List UInt8 :=
  let size := content.length
  if offset = size then content ++ new
  else content.take offset ++ List.replicate (offset - size) 0 ++ new ++ content.drop (offset + new.length)

/-- Whether the file of a journal is still there. -/
def isKept (j : Journal) (t : Tree) : Bool :=
  match t.node? j.place with
  | some (.file _ _) => true
  | _ => false

/-- The journal after a write. -/
def advance (j : Journal) (new : List UInt8) : Journal := { j with offset := j.offset + new.length }

/-- The tree after a write to a journal. -/
def write (j : Journal) (t : Tree) (new : List UInt8) : Tree :=
  match t.node? j.place with
  | some (.file content mode) => t.set j.place (.file (overwrite content j.offset new) mode)
  | _ => t

end Journal

end Runbook
