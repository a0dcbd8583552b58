import Formula.Number.Shortest

/-!
Numbers read from text.
-/

namespace Formula.Number

def digitValue (c : Char) : Nat := c.toNat - '0'.toNat

/-- The value of a run of digits that continues the number `n`. -/
def digitsValue (n : Nat) (cs : List Char) : Nat := cs.foldl (fun n c => 10 * n + digitValue c) n

/-- A sign, if there is one, and what follows it. -/
def splitSign : List Char → Bool × List Char
  | '-' :: cs => (true, cs)
  | '+' :: cs => (false, cs)
  | cs => (false, cs)

def readNat? (cs : List Char) : Option Nat :=
  if !cs.isEmpty && cs.all Char.isDigit then some (digitsValue 0 cs) else none

/-- A 64-bit integer: digits after at most one sign. -/
def readInt64? (cs : List Char) : Option Int64 :=
  let (negative, digits) := splitSign cs
  (readNat? digits).bind fun n =>
    let i := signed negative n
    if inInt64 i then some (Int64.ofInt i) else none

/-- An exponent part, or nothing at all. -/
def readExponent? : List Char → Option Int
  | [] => some 0
  | c :: cs =>
    if c == 'e' || c == 'E' then
      let (negative, digits) := splitSign cs
      (readNat? digits).map (signed negative)
    else none

/-- Digits with a point before, among or after them, and perhaps an exponent. -/
def readDecimal? (cs : List Char) : Option Decimal :=
  let whole := cs.takeWhile Char.isDigit
  let afterWhole := cs.dropWhile Char.isDigit
  let (fraction, rest) :=
    match afterWhole with
    | '.' :: more => (more.takeWhile Char.isDigit, more.dropWhile Char.isDigit)
    | more => ([], more)
  if whole.isEmpty && fraction.isEmpty then none
  else (readExponent? rest).map fun e =>
    ⟨digitsValue (digitsValue 0 whole) fraction, e - fraction.length⟩

/-- The nearest double. Beyond 400 places on either side of the point it is infinite or zero. -/
def Decimal.toDouble (d : Decimal) : Double :=
  let point := digitCount d.digits + d.exponent
  if d.digits = 0 || point < -400 then .zero
  else if 400 < point then .infinity
  else .ofFloat (Float.ofScientific d.digits (d.exponent < 0) d.exponent.natAbs)

/-- A double: a decimal, an infinity or NaN after at most one sign, the latter two in any case. -/
def readDouble? (cs : List Char) : Option Double :=
  let (negative, body) := splitSign cs
  let word := String.ofList (body.map Char.toLower)
  let magnitude :=
    if word == "inf" || word == "infinity" then some Double.infinity
    else if word == "nan" then some .nan
    else (readDecimal? body).map Decimal.toDouble
  magnitude.map fun x => if negative then x.neg else x

end Formula.Number
