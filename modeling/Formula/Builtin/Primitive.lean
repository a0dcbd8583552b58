import Formula.Host.Call
import Formula.Host.TypeDef

/-!
The members of `int`, `float` and `bool`.
-/

namespace Formula.Builtin.Primitive

variable {H : Host}

def comparison : Ordering → Value
  | .lt => .int (-1)
  | .eq => .int 0
  | .gt => .int 1

def int : TypeDef H :=
  (TypeDef.ofTag .int).method "ToString" [] Call.receiverText
    |>.method "CompareTo" [.exact .int] (fun c => do
      return comparison (compare (← c.receiverInt).toInt (← c.int 0).toInt))

/-- Floats have a place for `-0` and for each NaN in their order. -/
def float : TypeDef H :=
  (TypeDef.ofTag .float).method "ToString" [] Call.receiverText
    |>.method "CompareTo" [.exact .float] (fun c => do
      return comparison (compare (← c.receiverFloat).rank (← c.float 0).rank))

def bool : TypeDef H := (TypeDef.ofTag .bool).method "ToString" [] Call.receiverText

end Formula.Builtin.Primitive
