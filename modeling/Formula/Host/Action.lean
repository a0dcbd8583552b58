import Formula.Fault
import Formula.Memory

/-!
What the bodies of members and methods do: they read and change memory, and return a value or a fault.
Whatever they changed before a fault stays changed.
-/

namespace Formula

abbrev Action (H : Host) := EStateM Fault (Memory H)

/-- A kind of contents that objects can have, among all the others. -/
structure Facet (H : Host) (T : Type) where
  view? : Content H → Option T
  embed : T → Content H

/-- The contents of a list. -/
def Facet.items {H : Host} : Facet H (List Value) where
  view?
    | .list items => some items
    | .host _ => none
  embed := .list

namespace Action

variable {H : Host} {α T : Type}

def ofExcept (x : Except Fault α) : Action H α :=
  match x with
  | .ok a => pure a
  | .error f => throw f

/-- The contents of an object, if they are of the expected kind. -/
def read (facet : Facet H T) (o : ObjectRef) : Action H T := do
  match ((← get).get? o).bind facet.view? with
  | some t => return t
  | none => throw (.hostFailure
      ("object of type `" ++ o.typeName ++ "` does not hold the expected host type"))

def modify (facet : Facet H T) (o : ObjectRef) (f : T → T) : Action H Unit := do
  let t ← read facet o
  set ((← get).set o (facet.embed (f t)))

def create (facet : Facet H T) (typeName : String) (t : T) : Action H ObjectRef := do
  let (o, m) := (← get).alloc typeName (facet.embed t)
  set m
  return o

def copy (facet : Facet H T) (o : ObjectRef) : Action H ObjectRef := do
  create facet o.typeName (← read facet o)

def newList (items : List Value) : Action H Value :=
  return .object (← create .items "List" items)

end Action

end Formula
