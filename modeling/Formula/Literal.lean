import Formula.Number.Layout

/-!
Constants written in a formula.
-/

namespace Formula

inductive Literal where
  | null
  | bool (b : Bool)
  | int (n : Int64)
  | float (x : Number.Double)
  | string (s : String)
deriving Inhabited

namespace Literal

def typeName : Literal → String
  | null => "null"
  | bool _ => "bool"
  | int _ => "int"
  | float _ => "float"
  | string _ => "string"

/-- A literal as written: a float always has a point or an exponent, a string has no escapes. -/
def text : Literal → String
  | null => "null"
  | bool b => if b then "true" else "false"
  | int n => toString n.toInt
  | float x => Number.Format.literal.text x
  | string s => "\"" ++ s ++ "\""

end Literal

end Formula
