import Formula.Directory
import Formula.Host.Action

/-!
Types as a host registers them: their members, methods and static members, by name.
-/

namespace Formula

inductive MemberKind where
  | field | property
deriving DecidableEq, Repr

def MemberKind.name : MemberKind → String
  | field => "Field"
  | property => "Property"

structure Member (H : Host) where
  name : String
  kind : MemberKind
  getter? : Option (Value → Action H Value)
  setter? : Option (Value → Value → Action H Unit)

namespace Member

variable {H : Host}

def isReadable (d : Member H) : Bool := d.getter?.isSome

def isWritable (d : Member H) : Bool := d.setter?.isSome

/-- Reads the member of `receiver`, which is of the type `owner`. -/
def get (d : Member H) (receiver : Value) (owner : String) : Action H Value :=
  match d.getter? with
  | some getter => getter receiver
  | none => throw (.notReadable d.name owner)

/-- Writes the member of `receiver`, which is of the type `owner`. -/
def set (d : Member H) (receiver v : Value) (owner : String) : Action H Unit :=
  match d.setter? with
  | some setter => setter receiver v
  | none => throw (.notWritable d.name owner)

def listed (d : Member H) : String :=
  let flag (b : Bool) := if b then "true" else "false"
  "MemberDescriptor \x7b name: Name(" ++ Text.quoted d.name ++ "), kind: " ++ d.kind.name ++
    ", readable: " ++ flag d.isReadable ++ ", writable: " ++ flag d.isWritable ++ " \x7d"

end Member

inductive ParamType where
  /-- A value of this very type. The name of a variant will do for an enumeration. -/
  | exact (tag : TypeTag)
  | any
deriving DecidableEq, Repr

def ParamType.text : ParamType → String
  | exact tag => tag.name
  | any => "any"

structure Call where
  receiver : Value
  args : List Value
  typeArgs : List TypeTag
  types : Directory

structure Method (H : Host) where
  name : String
  params : List ParamType
  generics : Nat
  /-- A call of a void method yields the receiver. -/
  isVoid : Bool
  body : Call → Action H Value

namespace Method

variable {H : Host}

def signature (f : Method H) : String :=
  f.name ++ "(" ++ ", ".intercalate (f.params.map (·.text)) ++ ")"

def listed (f : Method H) : String :=
  "MethodDescriptor \x7b signature: " ++ Text.quoted f.signature ++ ", generic_arity: " ++
    toString f.generics ++ ", returns_void: " ++ (if f.isVoid then "true" else "false") ++ " \x7d"

end Method

structure HostType (H : Host) extends TypeInfo where
  member? : String → Option (Member H)
  methods? : String → Option (List (Method H))
  staticMember? : String → Option (Member H)
  staticMethods? : String → Option (List (Method H))
  copy? : ObjectRef → Option (Action H ObjectRef)

/-- The registered types, one to a name. -/
structure Registry (H : Host) where
  types : List (HostType H)

namespace Registry

variable {H : Host}

def empty : Registry H := ⟨[]⟩

def find? (r : Registry H) (name : String) : Option (HostType H) :=
  r.types.find? (·.tag.name == name)

/-- A type takes the place of any other with its name. -/
def register (r : Registry H) (t : HostType H) : Registry H :=
  ⟨t :: r.types.filter (·.tag.name != t.tag.name)⟩

def directory (r : Registry H) : Directory := ⟨fun name => (r.find? name).map (·.toTypeInfo)⟩

def names (r : Registry H) : List String :=
  (r.types.map (·.tag.name)).mergeSort fun a b => decide (a ≤ b)

def listed (r : Registry H) : String :=
  "TypeRegistry \x7b types: [" ++ ", ".intercalate (r.names.map Text.quoted) ++ "] \x7d"

def typeOf (r : Registry H) (v : Value) : Except Fault (HostType H) :=
  match r.find? v.typeTag.name with
  | some t => .ok t
  | none => .error (.unregisteredType v.typeTag.name)

/-- Objects of value types are copied when a variable is loaded. -/
def copyOnLoad (r : Registry H) (v : Value) : Action H Value :=
  match v with
  | .object o =>
    match (r.find? o.typeName).bind (·.copy? o) with
    | some copy => return .object (← copy)
    | none => return v
  | _ => return v

theorem find?_register_self (r : Registry H) (t : HostType H) :
    (r.register t).find? t.tag.name = some t := by
  simp [register, find?]

theorem find?_register_of_ne (r : Registry H) {t : HostType H} {name : String}
    (h : t.tag.name ≠ name) : (r.register t).find? name = r.find? name := by
  have hne : (t.tag.name == name) = false := by simpa using h
  simp only [register, find?, List.find?_cons, hne, List.find?_filter]
  congr 1
  funext u
  by_cases hu : u.tag.name = name
  · simp [hu, Ne.symm h]
  · simp [hu]

end Registry

end Formula
