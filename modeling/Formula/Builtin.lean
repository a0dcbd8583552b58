import Formula.Builtin.Convert
import Formula.Builtin.Math
import Formula.Builtin.Primitive
import Formula.Builtin.Sequence
import Formula.Builtin.Strings
import Formula.Host.Enumeration

/-!
The types that every host may count on.
-/

namespace Formula.Registry

variable {H : Host}

def builtins : Registry H :=
  registerAll empty
    ([Builtin.Strings.typeDef, Builtin.Primitive.int, Builtin.Primitive.float, Builtin.Primitive.bool,
      Builtin.Sequence.typeDef, Builtin.Math.typeDef, Builtin.Convert.typeDef].map (·.toHostType))

end Formula.Registry
