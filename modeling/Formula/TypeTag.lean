/-!
The types of values: the primitive ones, and the enumerations and object types that a host registers
by name.
-/

namespace Formula

inductive TypeTag where
  | null
  | bool
  | int
  | float
  | string
  | enum (name : String)
  | object (name : String)
deriving DecidableEq, Repr, Inhabited

namespace TypeTag

/-- The spelling used in formulas and messages. -/
def name : TypeTag → String
  | null => "null"
  | bool => "bool"
  | int => "int"
  | float => "float"
  | string => "string"
  | enum n => n
  | object n => n

def primitive? : String → Option TypeTag
  | "int" => some int
  | "float" => some float
  | "bool" => some bool
  | "string" => some string
  | _ => none

end TypeTag

end Formula
