import Formula.Host.Type

/-!
Types put together member by member. Of several members with one name a field comes before a property
and the last addition counts; methods with one name are overloads, in the order of their addition.
-/

namespace Formula

structure TypeDef (H : Host) where
  tag : TypeTag
  copy? : Option (ObjectRef → Action H ObjectRef)
  /-- The last addition first, as in `staticMembers`. -/
  members : List (Member H)
  methods : List (Method H)
  staticMembers : List (Member H)
  staticMethods : List (Method H)

/-- How values of the host stand for values of formulas. -/
structure Coding (H : Host) (F : Type) where
  decode : Value → Action H F
  encode : F → Action H Value

namespace Coding

variable {H : Host}

/-- Accepts what `view?` knows and refuses all else as not convertible. -/
def checked {F : Type} (typeName : String) (view? : Value → Option F) (encode : F → Value) :
    Coding H F where
  decode v := do
    match view? v with
    | some x => return x
    | none => throw (.notConvertible ((← get).describe v) typeName)
  encode x := return encode x

def bool : Coding H Bool := checked "bool" Value.bool? .bool

def int : Coding H Int64 := checked "int" Value.int? .int

/-- An int will do for a float. -/
def float : Coding H Number.Double := checked "float" Value.float? .float

def string : Coding H String := checked "string" Value.string? .string

def any : Coding H Value := ⟨pure, pure⟩

end Coding

namespace Member

variable {H : Host} {T F : Type}

def getterOf (facet : Facet H T) (code : Coding H F) (get : T → F) (receiver : Value) :
    Action H Value := do
  match receiver.object? with
  | some o => code.encode (get (← Action.read facet o))
  | none => throw (.internal "member read on a non-object")

def setterOf (facet : Facet H T) (code : Coding H F) (set : T → F → T) (receiver v : Value) :
    Action H Unit := do
  match receiver.object? with
  | some o =>
    let x ← code.decode v
    Action.modify facet o (set · x)
  | none => throw (.internal "member write on a non-object")

end Member

namespace TypeDef

variable {H : Host} {T F : Type}

def ofTag (tag : TypeTag) : TypeDef H := ⟨tag, none, [], [], [], []⟩

/-- A type whose objects are shared by all who hold them. -/
def reference (name : String) : TypeDef H := ofTag (.object name)

/-- A type whose objects are copied when a variable is loaded. -/
def valueType (facet : Facet H T) (name : String) : TypeDef H :=
  { ofTag (.object name) with copy? := some (Action.copy facet) }

def add (d : TypeDef H) (m : Member H) : TypeDef H := { d with members := m :: d.members }

def addMethod (d : TypeDef H) (f : Method H) : TypeDef H := { d with methods := d.methods ++ [f] }

def addStatic (d : TypeDef H) (m : Member H) : TypeDef H :=
  { d with staticMembers := m :: d.staticMembers }

def addStaticMethod (d : TypeDef H) (f : Method H) : TypeDef H :=
  { d with staticMethods := d.staticMethods ++ [f] }

def field (d : TypeDef H) (facet : Facet H T) (code : Coding H F) (name : String) (get : T → F)
    (set : T → F → T) : TypeDef H :=
  d.add ⟨name, .field, some (Member.getterOf facet code get), some (Member.setterOf facet code set)⟩

def property (d : TypeDef H) (facet : Facet H T) (code : Coding H F) (name : String) (get : T → F) :
    TypeDef H :=
  d.add ⟨name, .property, some (Member.getterOf facet code get), none⟩

def readWrite (d : TypeDef H) (facet : Facet H T) (code : Coding H F) (name : String) (get : T → F)
    (set : T → F → T) : TypeDef H :=
  d.add ⟨name, .property, some (Member.getterOf facet code get), some (Member.setterOf facet code set)⟩

def writeOnly (d : TypeDef H) (facet : Facet H T) (code : Coding H F) (name : String)
    (set : T → F → T) : TypeDef H :=
  d.add ⟨name, .property, none, some (Member.setterOf facet code set)⟩

/-- A property of receivers of any kind. -/
def computed (d : TypeDef H) (name : String) (get : Value → Action H Value) : TypeDef H :=
  d.add ⟨name, .property, some get, none⟩

def method (d : TypeDef H) (name : String) (params : List ParamType) (body : Call → Action H Value) :
    TypeDef H :=
  d.addMethod ⟨name, params, 0, false, body⟩

def voidMethod (d : TypeDef H) (name : String) (params : List ParamType)
    (body : Call → Action H Unit) : TypeDef H :=
  d.addMethod ⟨name, params, 0, true, fun c => do body c; return .null⟩

def genericMethod (d : TypeDef H) (name : String) (generics : Nat) (params : List ParamType)
    (body : Call → Action H Value) : TypeDef H :=
  d.addMethod ⟨name, params, generics, false, body⟩

def staticProperty (d : TypeDef H) (name : String) (get : Action H Value) : TypeDef H :=
  d.addStatic ⟨name, .property, some fun _ => get, none⟩

def staticReadWrite (d : TypeDef H) (name : String) (get : Action H Value)
    (set : Value → Action H Unit) : TypeDef H :=
  d.addStatic ⟨name, .property, some fun _ => get, some fun _ => set⟩

def staticMethod (d : TypeDef H) (name : String) (params : List ParamType)
    (body : Call → Action H Value) : TypeDef H :=
  d.addStaticMethod ⟨name, params, 0, false, body⟩

def staticGenericMethod (d : TypeDef H) (name : String) (generics : Nat) (params : List ParamType)
    (body : Call → Action H Value) : TypeDef H :=
  d.addStaticMethod ⟨name, params, generics, false, body⟩

def member? (d : TypeDef H) (name : String) : Option (Member H) :=
  let named := d.members.filter (·.name == name)
  (named.find? (·.kind == .field)).or named.head?

def overloads? (methods : List (Method H)) (name : String) : Option (List (Method H)) :=
  match methods.filter (·.name == name) with
  | [] => none
  | fs => some fs

def toHostType (d : TypeDef H) : HostType H where
  tag := d.tag
  isValueType := d.copy?.isSome
  variant? _ := none
  variantAt? _ := none
  member? := d.member?
  methods? := overloads? d.methods
  staticMember? name := d.staticMembers.find? (·.name == name)
  staticMethods? := overloads? d.staticMethods
  copy? o := d.copy?.map (· o)

theorem member?_add_field (d : TypeDef H) {m : Member H} (h : m.kind = .field) :
    (d.add m).member? m.name = some m := by
  simp [member?, add, h]

theorem member?_add_of_ne (d : TypeDef H) {m : Member H} {name : String} (h : m.name ≠ name) :
    (d.add m).member? name = d.member? name := by
  simp [member?, add, h]

end TypeDef

end Formula
