import Runbook.Text

/-! # Bindings

Names with values, in the order in which the names came first: the variables of a recipe and the environment of a
process. Setting a name that is there keeps its place and gives it the new value. -/

namespace Runbook

/-- Names with values, in order of first appearance. -/
abbrev Bindings := List (Text × Text)

namespace Bindings

/-- The value of a name. -/
def get? (b : Bindings) (name : Text) : Option Text := List.lookup name b

/-- The names, in order. -/
def names (b : Bindings) : List Text := b.map Prod.fst

/-- Gives a name a value: in its place if it is there, else at the end. -/
def set (name value : Text) : Bindings → Bindings
  | [] => [(name, value)]
  | (n, v) :: rest => if n = name then (n, value) :: rest else (n, v) :: set name value rest

/-- Sets each pair in turn. -/
def update (b : Bindings) (pairs : List (Text × Text)) : Bindings :=
  pairs.foldl (fun acc p => set p.1 p.2 acc) b

/-- The bindings the pairs make when each is set in turn. -/
def ofList (pairs : List (Text × Text)) : Bindings := update [] pairs

/-- The pairs in ascending order of their names. -/
def sorted (b : Bindings) : List (Text × Text) := b.mergeSort (fun p q => Text.le p.1 q.1)

end Bindings

end Runbook
