import Formula.Sample.Object

/-!
Types with static members only: settings that outlast a formula, and a probe for what the body of a
method can ask of its call.
-/

namespace Formula.Sample

namespace Settings

def initialLevel : Int64 := 1

def setLevel (v : Value) : Action host Unit := do
  let n ← Coding.int.decode v
  modify fun m => { m with state := n }

/-- What a value of a type is unless it is something else. -/
def defaultValue : TypeTag → Value
  | .int => .int 0
  | .float => .float .zero
  | .bool => .bool false
  | .string => .string ""
  | _ => .null

def typeDef : TypeDef host :=
  (TypeDef.reference "Settings").staticProperty "Version" (return .string "1.0")
    |>.staticReadWrite "Level" (return .int (← get).state) setLevel
    |>.staticReadWrite "Locked" (return .bool true)
      (fun _ => throw (.hostFailure "settings are locked"))
    |>.staticGenericMethod "Default" 1 [] (fun c => return defaultValue (← c.typeArg 0))

end Settings

namespace Probe

def typeDef : TypeDef host :=
  (TypeDef.reference "Probe").staticMethod "Int" [.any] (fun c => do return .int (← c.int 0))
    |>.staticMethod "Float" [.any] (fun c => do return .float (← c.float 0))
    |>.staticMethod "Str" [.any] (fun c => do return .string (← c.string 0))
    |>.staticMethod "Arg" [] (fun c => do c.arg 2)
    |>.staticMethod "TypeArg" [] (fun c => do return .string (← c.typeArg 0).name)
    |>.staticMethod "Text" [] (fun c => do return .string (← c.receiverString))
    |>.staticMethod "Object" [] (fun c => do return .object (← c.receiverObject))
    |>.staticMethod "ObjectMut" [] (fun c => do return .object (← c.receiverObject))

end Probe

def echo : HostType host := (TypeDef.reference "Echo").toHostType

end Formula.Sample
