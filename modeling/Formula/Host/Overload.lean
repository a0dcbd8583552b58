import Formula.Host.Type

/-!
Choice among the overloads of a method: the first that takes the arguments as they are, except that
the name of a variant stands for an enumeration value.
-/

namespace Formula

namespace ParamType

/-- The argument as the method gets it, if the parameter takes it. A text that names no variant is a
fault. -/
def accept (types : Directory) (p : ParamType) (v : Value) : Except Fault (Option Value) :=
  match p with
  | any => .ok (some v)
  | exact tag =>
    if tag = v.typeTag then .ok (some v)
    else
      match tag, v with
      | .enum name, .string s => (types.variant name s).map fun e => some (.enum e)
      | _, _ => .ok none

/-- The arguments as the method gets them, if it takes them all. -/
def acceptAll (types : Directory) : List ParamType → List Value → Except Fault (Option (List Value))
  | [], [] => .ok (some [])
  | p :: ps, v :: vs => do
    match ← p.accept types v with
    | none => .ok none
    | some w => .ok ((← acceptAll types ps vs).map (w :: ·))
  | _, _ => .ok none

end ParamType

namespace Method

variable {H : Host}

def fits (f : Method H) (args : List Value) (typeArgs : List TypeTag) : Bool :=
  f.params.length == args.length && f.generics == typeArgs.length

/-- The first overload that takes the arguments, with what it gets; or else the first fault on the
way, if there was one. -/
def firstAccepting (types : Directory) (args : List Value) (typeArgs : List TypeTag) :
    Option Fault → List (Method H) → Except (Option Fault) (Method H × List Value)
  | fault?, [] => .error fault?
  | fault?, f :: fs =>
    if f.fits args typeArgs then
      match ParamType.acceptAll types f.params args with
      | .ok (some accepted) => .ok (f, accepted)
      | .ok none => firstAccepting types args typeArgs fault? fs
      | .error fault => firstAccepting types args typeArgs (fault?.or (some fault)) fs
    else firstAccepting types args typeArgs fault? fs

/-- The overload of `owner.name` for the given arguments, and the arguments as it gets them. -/
def select (types : Directory) (owner name : String) (overloads? : Option (List (Method H)))
    (args : List Value) (typeArgs : List TypeTag) : Except Fault (Method H × List Value) :=
  match overloads? with
  | none => .error (.unknownMethod name owner)
  | some overloads =>
    match firstAccepting types args typeArgs none overloads with
    | .ok chosen => .ok chosen
    | .error (some fault) => .error fault
    | .error none => .error (.noOverload name owner (", ".intercalate (args.map (·.typeName))))

end Method

end Formula
