import Formula.Fault
import Formula.Value

/-!
What is known of the types that a host has registered, apart from their members.
-/

namespace Formula

structure TypeInfo where
  tag : TypeTag
  /-- Whether loading a variable copies its object. -/
  isValueType : Bool
  variant? : String → Option EnumValue
  variantAt? : Int64 → Option EnumValue

structure Directory where
  find? : String → Option TypeInfo

namespace Directory

def isRegistered (types : Directory) (name : String) : Bool := (types.find? name).isSome

def typeOf (types : Directory) (tag : TypeTag) : Except Fault TypeInfo :=
  match types.find? tag.name with
  | some info => .ok info
  | none => .error (.unregisteredType tag.name)

/-- The type that a name in a formula stands for. -/
def resolve? (types : Directory) (name : String) : Option TypeTag :=
  (TypeTag.primitive? name).or ((types.find? name).map (·.tag))

def variant (types : Directory) (enumName name : String) : Except Fault EnumValue :=
  match types.find? enumName with
  | none => .error (.unregisteredType enumName)
  | some info =>
    match info.variant? name with
    | some e => .ok e
    | none => .error (.unknownVariant enumName name)

/-- Objects and enumeration values must be of a registered type. -/
def checkAllowed (types : Directory) : Value → Except Fault Unit
  | .object o => if types.isRegistered o.typeName then .ok () else .error (.unregisteredType o.typeName)
  | .enum e => if types.isRegistered e.typeName then .ok () else .error (.unregisteredType e.typeName)
  | _ => .ok ()

def holdsValueType (types : Directory) : Value → Bool
  | .object o => ((types.find? o.typeName).map (·.isValueType)).getD false
  | _ => false

end Directory

end Formula
