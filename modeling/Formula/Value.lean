import Formula.Literal
import Formula.Text.Quoted
import Formula.TypeTag

/-!
Values. An object is held by a handle, which carries the name of the object's type; what the object
contains is in memory.
-/

namespace Formula

/-- A variant of an enumeration, with its position there. -/
structure EnumValue where
  typeName : String
  variant : String
  ordinal : Int64
deriving DecidableEq, Inhabited

/-- A handle. Handles with one number hold the same object. -/
structure ObjectRef where
  id : Nat
  typeName : String
deriving DecidableEq, Repr, Inhabited

inductive Value where
  | null
  | bool (b : Bool)
  | int (n : Int64)
  | float (x : Number.Double)
  | string (s : String)
  | enum (e : EnumValue)
  | object (o : ObjectRef)
  /-- A type as the owner of static members. -/
  | typeRoot (tag : TypeTag)
deriving Inhabited

namespace Value

def ofLiteral : Literal → Value
  | .null => null
  | .bool b => bool b
  | .int n => int n
  | .float x => float x
  | .string s => string s

def typeTag : Value → TypeTag
  | null => .null
  | bool _ => .bool
  | int _ => .int
  | float _ => .float
  | string _ => .string
  | enum e => .enum e.typeName
  | object o => .object o.typeName
  | typeRoot tag => tag

def typeName : Value → String
  | typeRoot tag => "type " ++ tag.name
  | v => v.typeTag.name

def isNull : Value → Bool
  | null => true
  | _ => false

def isTypeRoot : Value → Bool
  | typeRoot _ => true
  | _ => false

def bool? : Value → Option Bool
  | bool b => some b
  | _ => none

def int? : Value → Option Int64
  | int n => some n
  | _ => none

def float? : Value → Option Number.Double
  | int n => some (.ofInt64 n)
  | float x => some x
  | _ => none

def string? : Value → Option String
  | string s => some s
  | _ => none

def object? : Value → Option ObjectRef
  | object o => some o
  | _ => none

/-- The text of a value that is no object, and the type name of one that is. -/
def plainText : Value → String
  | null => "null"
  | bool b => if b then "true" else "false"
  | int n => toString n.toInt
  | float x => Number.Format.display.text x
  | string s => s
  | enum e => e.variant
  | object o => o.typeName
  | typeRoot tag => tag.name

/-- Equality within formulas: numbers compare across int and float, an enum value equals the name of
its variant, and objects are equal when they are the same. -/
def equal : Value → Value → Bool
  | null, null => true
  | bool a, bool b => a == b
  | int a, int b => a == b
  | int a, float y => (Number.Double.ofInt64 a).equal y
  | float x, int b => x.equal (.ofInt64 b)
  | float x, float y => x.equal y
  | string s, string t => s == t
  | enum a, enum b => a == b
  | enum e, string s => e.variant == s
  | string s, enum e => e.variant == s
  | object a, object b => a.id == b.id
  | typeRoot a, typeRoot b => a == b
  | _, _ => false

/-- A type tag with its kind, as a listing of variables shows it. -/
def listedTag : TypeTag → String
  | .null => "Null"
  | .bool => "Bool"
  | .int => "Int"
  | .float => "Float"
  | .string => "Str"
  | .enum name => "Enum(Name(" ++ Text.quoted name ++ "))"
  | .object name => "Object(Name(" ++ Text.quoted name ++ "))"

def listed : Value → String
  | null => "Null"
  | bool b => "Bool(" ++ (if b then "true" else "false") ++ ")"
  | int n => "Int(" ++ toString n.toInt ++ ")"
  | float x => "Float(" ++ Number.Format.literal.text x ++ ")"
  | string s => "Str(" ++ Text.quoted s ++ ")"
  | enum e =>
    "Enum(EnumValue \x7b ty: Name(" ++ Text.quoted e.typeName ++ "), variant: Name(" ++
      Text.quoted e.variant ++ "), ordinal: " ++ toString e.ordinal.toInt ++ " \x7d)"
  | object o => "Object(Object(" ++ o.typeName ++ "))"
  | typeRoot tag => "Type(" ++ listedTag tag ++ ")"

end Value

end Formula
