import Formula.Fault
import Formula.Memory
import Formula.Number.Read

/-!
Binary operators. Arithmetic on ints is exact or refused, arithmetic on floats is that of doubles, and
only `+ - * / %` take booleans for numbers.
-/

namespace Formula.Value

variable {H : Host}

def coerced : Value → Value
  | bool b => int (if b then 1 else 0)
  | v => v

/-- An exact result, if it is a 64-bit integer. -/
def exactInt (operation : String) (n : Int) : Except Fault Value :=
  if Number.inInt64 n then .ok (int (Int64.ofInt n)) else .error (.integerOverflow operation)

/-- Division truncates. -/
def divInt (a b : Int64) : Except Fault Value :=
  if b = 0 then .error (.zeroDivision "division") else exactInt "division" (a.toInt.tdiv b.toInt)

/-- The remainder has the sign of the dividend, and is refused where the quotient overflows. -/
def modInt (a b : Int64) : Except Fault Value :=
  if b = 0 then .error (.zeroDivision "modulo")
  else if Number.inInt64 (a.toInt.tdiv b.toInt) then exactInt "remainder" (a.toInt.tmod b.toInt)
  else .error (.integerOverflow "remainder")

def shiftAmount (b : Int64) : Except Fault Int64 :=
  if 0 ≤ b ∧ b < 64 then .ok b else .error (.shiftOutOfRange b.toInt)

def intBinary (op : Operator) (a b : Int64) : Except Fault Value :=
  match op with
  | .add => exactInt "addition" (a.toInt + b.toInt)
  | .sub => exactInt "subtraction" (a.toInt - b.toInt)
  | .mul => exactInt "multiplication" (a.toInt * b.toInt)
  | .div => divInt a b
  | .mod => modInt a b
  | .greater => .ok (bool (b < a))
  | .greaterEqual => .ok (bool (b ≤ a))
  | .less => .ok (bool (a < b))
  | .lessEqual => .ok (bool (a ≤ b))
  | .bitAnd => .ok (int (a &&& b))
  | .bitOr => .ok (int (a ||| b))
  | .xor => .ok (int (a ^^^ b))
  | .shiftLeft => (shiftAmount b).map fun n => int (a <<< n)
  | .shiftRight => (shiftAmount b).map fun n => int (a >>> n)
  | _ => .error (.invalidOperands op "int" "int")

def floatBinary (op : Operator) (x y : Number.Double) : Except Fault Value :=
  match op with
  | .add => .ok (float (x.map₂ (· + ·) y))
  | .sub => .ok (float (x.map₂ (· - ·) y))
  | .mul => .ok (float (x.map₂ (· * ·) y))
  | .div => .ok (float (x.map₂ (· / ·) y))
  | .mod => .ok (float (x.remainder y))
  | .greater => .ok (bool (y.less x))
  | .greaterEqual => .ok (bool (y.lessEqual x))
  | .less => .ok (bool (x.less y))
  | .lessEqual => .ok (bool (x.lessEqual y))
  | _ => .error (.invalidOperands op "float" "float")

def boolBinary (op : Operator) (a b : Bool) : Except Fault Value :=
  match op with
  | .and | .bitAnd => .ok (bool (a && b))
  | .or | .bitOr => .ok (bool (a || b))
  | .xor => .ok (bool (a ^^ b))
  | _ => .error (.invalidOperands op "bool" "bool")

/-- Operators other than the equalities, on operands that are no strings. -/
def plainBinary (op : Operator) (left right : Value) : Except Fault Value :=
  match left, right with
  | int a, int b => intBinary op a b
  | float x, float y => floatBinary op x y
  | int a, float y => floatBinary op (.ofInt64 a) y
  | float x, int b => floatBinary op x (.ofInt64 b)
  | bool a, bool b => boolBinary op a b
  | _, _ => .error (.invalidOperands op left.typeName right.typeName)

def isString : Value → Bool
  | string _ => true
  | _ => false

/-- `left op right` for operands that are coerced already. -/
def coercedBinary (m : Memory H) (op : Operator) (left right : Value) : Except Fault Value :=
  match op with
  | .equal => .ok (bool (left.equal right))
  | .notEqual => .ok (bool (!left.equal right))
  | _ =>
    if op = .add ∧ (left.isString || right.isString) then .ok (string (m.text left ++ m.text right))
    else if op.isBinary then plainBinary op left right
    else .error (.internal ("`" ++ op.symbol ++ "` is not a binary operator"))

def binary (m : Memory H) (op : Operator) (left right : Value) : Except Fault Value :=
  if op.coercesBooleans then coercedBinary m op left.coerced right.coerced
  else coercedBinary m op left right

end Formula.Value
