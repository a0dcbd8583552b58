import Formula.Host.Call
import Formula.Host.TypeDef
import Formula.Value.Convert

/-!
`Convert`: the conversions of assignments, by themselves.
-/

namespace Formula.Builtin.Convert

variable {H : Host}

def first (tag : TypeTag) (c : Call) : Action H Value := do (← c.arg 0).convert c.types (← get) tag

def typeDef : TypeDef H :=
  (TypeDef.reference "Convert").staticGenericMethod "To" 1 [.any] (fun c => do
      let v ← c.arg 0
      v.convert c.types (← get) (← c.typeArg 0))
    |>.staticMethod "ToInt" [.any] (first .int)
    |>.staticMethod "ToFloat" [.any] (first .float)
    |>.staticMethod "ToBool" [.any] (first .bool)
    |>.staticMethod "ToString" [.any] (first .string)

end Formula.Builtin.Convert
