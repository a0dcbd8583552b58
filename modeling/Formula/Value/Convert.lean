import Formula.Directory
import Formula.Memory
import Formula.Number.Read
import Formula.Text.Blank

/-!
Conversion to a type: what a variable or a member does to the values it is given.
-/

namespace Formula.Value

variable {H : Host}

/-- `true` or `false` in any case, perhaps between blanks. -/
def readBool? (s : String) : Option Bool :=
  let word := String.ofList ((Text.trim s.toList).map Char.toLower)
  if word == "true" then some true else if word == "false" then some false else none

/-- An int from a float by rounding, from a bool as `0` or `1`, from a numeric text, and from an
enumeration value as its position. -/
def toInt? : Value → Option Int64
  | float x => x.toInt64?
  | bool b => some (if b then 1 else 0)
  | string s => Number.readInt64? (Text.trim s.toList)
  | enum e => some e.ordinal
  | _ => none

def toFloat? : Value → Option Number.Double
  | int n => some (.ofInt64 n)
  | bool b => some (if b then .one else .zero)
  | string s => Number.readDouble? (Text.trim s.toList)
  | _ => none

/-- A number is `true` unless it is zero. -/
def toBool? : Value → Option Bool
  | int n => some (n != 0)
  | float x => some !x.equal .zero
  | string s => readBool? s
  | _ => none

/-- Conversion to a type that the value does not have. -/
def convertOther (types : Directory) (m : Memory H) (v : Value) (target : TypeTag) :
    Except Fault Value :=
  let converted (v' : Option Value) : Except Fault Value :=
    match v' with
    | some w => .ok w
    | none => .error (.notConvertible (m.describe v) target.name)
  match target with
  | .int => converted (v.toInt?.map int)
  | .float => converted (v.toFloat?.map float)
  | .bool => converted (v.toBool?.map bool)
  | .string => .ok (string (m.text v))
  | .enum name =>
    match v with
    | string s => (types.variant name (Text.trimmed s)).map enum
    | int n => do
      let info ← types.typeOf target
      match info.variantAt? n with
      | some e => .ok (enum e)
      | none => .error (.unknownVariant name (toString n.toInt))
    | _ => converted none
  | .object _ => converted none
  | .null => converted none

/-- A value as one of the given type. A null stays null, and the null type takes any value. -/
def convert (types : Directory) (m : Memory H) (v : Value) (target : TypeTag) : Except Fault Value :=
  if v.isNull || target == .null || v.typeTag == target then .ok v
  else v.convertOther types m target

end Formula.Value
