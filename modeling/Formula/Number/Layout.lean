import Formula.Number.Shortest

/-!
How doubles are written: the digits are the shortest ones that read back, a format decides where the
point goes and when an exponent is used.
-/

namespace Formula.Number

structure Format where
  /-- Numbers that are at least one and have more digits than this before the point take an exponent. -/
  wholeDigits : Option Nat
  /-- Numbers below one with at least this many zeros after the point take an exponent. -/
  leadingZeros : Option Nat
  pointZero : Bool

/-- The text of a value: never an exponent, and a point only before a fraction. -/
def Format.display : Format := ⟨none, none, false⟩

/-- The text of a literal: a point or an exponent always, the latter from `1e16` on and below `1e-4`. -/
def Format.literal : Format := ⟨some 16, some 4, true⟩

def zeros (n : Nat) : List Char := List.replicate n '0'

def positional (pointZero : Bool) (d : Decimal) : List Char :=
  let ds := Nat.toDigits 10 d.digits
  let point := ds.length + d.exponent
  if 0 ≤ d.exponent then ds ++ zeros d.exponent.toNat ++ if pointZero then ['.', '0'] else []
  else if 0 < point then ds.take point.toNat ++ '.' :: ds.drop point.toNat
  else '0' :: '.' :: zeros (-point).toNat ++ ds

def scientific (d : Decimal) : List Char :=
  let ds := Nat.toDigits 10 d.digits
  let fraction := if ds.length = 1 then [] else '.' :: ds.drop 1
  ds.take 1 ++ fraction ++ 'e' :: (toString (d.exponent + ds.length - 1)).toList

/-- Whether a number with its point after that many digits, counted from the first one that is not
zero, takes an exponent. -/
def Format.takesExponent (f : Format) (point : Int) : Bool :=
  f.wholeDigits.any (fun n => (n : Int) < point) || f.leadingZeros.any fun n => point < 1 - (n : Int)

def Format.magnitude (f : Format) (b : Binary) : List Char :=
  let d := b.shortest
  if d.digits ≠ 0 && f.takesExponent (digitCount d.digits + d.exponent) then scientific d
  else positional f.pointZero d

def Format.chars (f : Format) (x : Double) : List Char :=
  match x.classify with
  | .nan => "NaN".toList
  | .infinite negative => (if negative then "-inf" else "inf").toList
  | .finite negative b => (if negative then ['-'] else []) ++ f.magnitude b

def Format.text (f : Format) (x : Double) : String := String.ofList (f.chars x)

end Formula.Number
