import Formula.Host.Call
import Formula.Host.TypeDef

/-!
`Math`: constants, and functions on ints and floats.
-/

namespace Formula.Builtin.Math

open Number

variable {H : Host}

def pi : Double := .ofFloat 3.141592653589793

def e : Double := .ofFloat 2.718281828459045

def absInt (n : Int64) : Except Fault Int64 :=
  if n = Int64.minValue then .error (.integerOverflow "Math.Abs")
  else .ok (if n < 0 then -n else n)

def clampInt (n low high : Int64) : Except Fault Int64 :=
  if high < low then
    .error (.hostFailure ("Math.Clamp bounds " ++ toString low.toInt ++ " > " ++ toString high.toInt))
  else .ok (if n < low then low else if high < n then high else n)

/-- The lesser of two floats; a NaN gives way, and of two equal ones the right one is taken. -/
def minFloat (x y : Double) : Double := if y.isNaN then x else if x.less y then x else y

/-- The greater of two floats; a NaN gives way, and of two equal ones the right one is taken. -/
def maxFloat (x y : Double) : Double := if y.isNaN then x else if y.less x then x else y

/-- A NaN stays one, but is no bound. -/
def clampFloat (x low high : Double) : Except Fault Double :=
  if high.less low || low.isNaN || high.isNaN then
    let text := Format.display.text
    .error (.hostFailure ("Math.Clamp bounds " ++ text low ++ " > " ++ text high))
  else
    let x := if x.less low then low else x
    .ok (if high.less x then high else x)

def unary (d : TypeDef H) (name : String) (f : Double → Double) : TypeDef H :=
  d.staticMethod name [.exact .float] fun c => do return .float (f (← c.float 0))

def binary (d : TypeDef H) (name : String) (f : Double → Double → Double) : TypeDef H :=
  d.staticMethod name [.exact .float, .exact .float] fun c => do
    return .float (f (← c.float 0) (← c.float 1))

def binaryInt (d : TypeDef H) (name : String) (f : Int64 → Int64 → Int64) : TypeDef H :=
  d.staticMethod name [.exact .int, .exact .int] fun c => do return .int (f (← c.int 0) (← c.int 1))

def typeDef : TypeDef H :=
  let int := ParamType.exact .int
  let float := ParamType.exact .float
  let d := (TypeDef.reference "Math").staticProperty "PI" (return .float pi)
    |>.staticProperty "E" (return .float e)
    |>.staticMethod "Abs" [int] (fun c => do return .int (← absInt (← c.int 0)))
  let d := unary d "Abs" Double.abs
  let d := binaryInt d "Min" fun a b => if b < a then b else a
  let d := binary d "Min" minFloat
  let d := binaryInt d "Max" fun a b => if a < b then b else a
  let d := binary d "Max" maxFloat
  let d := d.staticMethod "Clamp" [int, int, int] (fun c => do
      return .int (← clampInt (← c.int 0) (← c.int 1) (← c.int 2)))
    |>.staticMethod "Clamp" [float, float, float] (fun c => do
      return .float (← clampFloat (← c.float 0) (← c.float 1) (← c.float 2)))
  let d := binary d "Pow" (Double.map₂ Float.pow)
  let d := unary d "Sqrt" (Double.map Float.sqrt)
  let d := unary d "Floor" (Double.map Float.floor)
  let d := unary d "Ceiling" (Double.map Float.ceil)
  unary d "Round" Double.roundEven

end Formula.Builtin.Math
