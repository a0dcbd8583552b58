import Formula.Literal
import Formula.Operator
import Formula.Span
import Formula.TypeTag

/-!
Postfix programs. A program leaves one value on a stack of its own; what runs conditionally or apart
from the rest (branches, arguments, assigned values) is a program nested in an instruction.
-/

namespace Formula

mutual

inductive Instr where
  | push (span : Span) (value : Literal)
  | load (span : Span) (name : String)
  /-- Push a type, whose members are the static ones. -/
  | loadType (span : Span) (tag : TypeTag)
  | binary (span : Span) (op : Operator)
  | get (span : Span) (member : String)
  | call (span : Span) (method : String) (typeArgs : List TypeTag) (args : List (List Instr))
  | ternary (span : Span) (cond yes no : List Instr)
  | assign (span : Span) (place : Place) (value : List Instr)

/-- What can be written to, and the owners of what can be written to. -/
inductive Place where
  | var (name : String)
  /-- A member of an owner, with the span of the member access. -/
  | member (owner : Place) (name : String) (span : Span)
  | static (tag : TypeTag)
  | computed (program : List Instr)

end

abbrev Program := List Instr

instance : Inhabited Instr := ⟨.push default .null⟩

instance : Inhabited Place := ⟨.var ""⟩

namespace Instr

def span : Instr → Span
  | push s _ => s
  | load s _ => s
  | loadType s _ => s
  | binary s _ => s
  | get s _ => s
  | call s _ _ _ => s
  | ternary s _ _ _ => s
  | assign s _ _ => s

end Instr

/-- The variable that a chain of members begins at, if it begins at one. -/
def Place.root? : Place → Option String
  | var name => some name
  | member owner _ _ => owner.root?
  | static _ => none
  | computed _ => none

end Formula
