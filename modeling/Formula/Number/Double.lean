import Formula.Number.Binary

/-!
Doubles by their bits, so that NaNs differ in their sign. Arithmetic is that of the machine; rounding
to an integer, the remainder of a division and the order of all doubles are exact on the bits.
-/

namespace Formula.Number

structure Double where
  bits : UInt64
deriving DecidableEq, Repr, Inhabited

namespace Double

def classify (x : Double) : Class := .ofBits x.bits

def toFloat (x : Double) : Float := Float.ofBits x.bits

def isNaN (x : Double) : Bool := x.classify == .nan

def zero : Double := ⟨0⟩

def one : Double := ⟨0x3FF0000000000000⟩

def infinity : Double := ⟨0x7FF0000000000000⟩

/-- The NaN that is written without a sign. -/
def nan : Double := ⟨0x7FF8000000000000⟩

/-- The NaN of an operation without a result. -/
def invalid : Double := ⟨0xFFF8000000000000⟩

def ofFloat (x : Float) : Double := if x.isNaN then invalid else ⟨x.toBits⟩

def ofInt64 (n : Int64) : Double := ofFloat n.toFloat

def signBit : UInt64 := 0x8000000000000000

def neg (x : Double) : Double := ⟨x.bits ^^^ signBit⟩

def abs (x : Double) : Double := ⟨x.bits &&& ~~~signBit⟩

/-- An operation of the machine. A NaN that is an operand is passed on. -/
def map (f : Float → Float) (x : Double) : Double :=
  let r := ofFloat (f x.toFloat)
  if r == invalid && x.isNaN then x else r

/-- An operation of the machine. A NaN among the operands is passed on, the left one first. -/
def map₂ (f : Float → Float → Float) (x y : Double) : Double :=
  let r := ofFloat (f x.toFloat y.toFloat)
  if r == invalid then if x.isNaN then x else if y.isNaN then y else r
  else r

/-- Equality as in arithmetic: the zeros are equal, and a NaN equals nothing. -/
def equal (x y : Double) : Bool := x.toFloat == y.toFloat

def less (x y : Double) : Bool := x.toFloat < y.toFloat

def lessEqual (x y : Double) : Bool := x.toFloat ≤ y.toFloat

/-- The nearest integral double, a half going to the even one; the sign of a zero is kept. -/
def roundEven (x : Double) : Double :=
  match x.classify with
  | .finite negative b =>
    if 0 ≤ b.exponent then x
    else
      let r := ofFloat (Float.ofNat b.nearest)
      if negative then r.neg else r
  | _ => x

/-- The nearest 64-bit integer, a half going to the even one. -/
def toInt64? (x : Double) : Option Int64 :=
  match x.classify with
  | .finite negative b =>
    let n := signed negative b.nearest
    if inInt64 n then some (Int64.ofInt n) else none
  | _ => none

/-- The remainder of a division that truncates, with the sign of `x`. -/
def remainder (x y : Double) : Double :=
  match x.classify, y.classify with
  | .finite negative a, .finite _ b =>
    if b.significand = 0 then invalid
    else
      let e := min a.exponent b.exponent
      let r := a.significand * power 2 (a.exponent - e) % (b.significand * power 2 (b.exponent - e))
      let z := ofFloat ((Float.ofNat r).scaleB e)
      if negative then z.neg else z
  | .finite _ _, .infinite _ => x
  | .nan, _ => x
  | _, .nan => y
  | .infinite _, _ => invalid

/-- Place in the order of all doubles: `-0` before `0`, and each NaN beyond the infinity of its sign. -/
def rank (x : Double) : Int :=
  let n := x.bits.toNat
  if n < signBit.toNat then n else maxInt64 - n

end Double

end Formula.Number
