import Formula.Number.Double

/-!
The shortest decimal that reads back as a given double, found on the grids of one, two, up to
seventeen leading digits by exact arithmetic.
-/

namespace Formula.Number

structure Decimal where
  digits : Nat
  exponent : Int
deriving DecidableEq, Repr

/-- Multiples of `10 ^ g` against quarters of the last binary place: `d * 10 ^ g` compares with
`n * 2 ^ (exponent - 2)` as `d * tens` with `n * quarters`. -/
structure Scale where
  tens : Nat
  quarters : Nat

def Binary.scale (b : Binary) (g : Int) : Scale where
  tens := power 10 g * power 2 (2 - b.exponent)
  quarters := power 2 (b.exponent - 2) * power 10 (-g)

/-- Whether `d * 10 ^ g` is among the numbers that round to `b`. An end of the interval rounds to
`b` when the significand is even. -/
def Binary.readsBack (b : Binary) (g : Int) (d : Nat) : Bool :=
  let s := b.scale g
  let point := d * s.tens
  let low := (if b.narrowBelow then 4 * b.significand - 1 else 4 * b.significand - 2) * s.quarters
  let high := (4 * b.significand + 2) * s.quarters
  if b.significand % 2 = 0 then low ≤ point && point ≤ high else low < point && point < high

/-- The point of the grid `10 ^ g` nearest to `b` that reads back as `b`, the upper one of two equally
near; the two neighbours of `b` are the only candidates. -/
def Binary.onGrid? (b : Binary) (g : Int) : Option Decimal :=
  let s := b.scale g
  let value := 4 * b.significand * s.quarters
  let below := value / s.tens
  match b.readsBack g below, b.readsBack g (below + 1) with
  | false, false => none
  | true, false => some ⟨below, g⟩
  | false, true => some ⟨below + 1, g⟩
  | true, true =>
    if 2 * value < (2 * below + 1) * s.tens then some ⟨below, g⟩ else some ⟨below + 1, g⟩

def digitCount (n : Nat) : Nat := (Nat.toDigits 10 n).length

/-- The least `k` with `b < 10 ^ k`, for a positive `b`. -/
def Binary.magnitude (b : Binary) : Int :=
  let num := b.significand * power 2 b.exponent
  let den := power 2 (-b.exponent)
  let k := (digitCount num : Int) - digitCount den
  if num * power 10 (-k) < power 10 k * den then k else k + 1

def Decimal.strip (d : Decimal) : Decimal :=
  if d.digits ≠ 0 ∧ d.digits % 10 = 0 then strip ⟨d.digits / 10, d.exponent + 1⟩ else d
termination_by d.digits
decreasing_by omega

def Binary.exact (b : Binary) : Decimal :=
  if 0 ≤ b.exponent then ⟨b.significand * power 2 b.exponent, 0⟩
  else ⟨b.significand * power 5 (-b.exponent), b.exponent⟩

/-- The fewest digits that read back, and of those with as many the nearest. -/
def Binary.shortest (b : Binary) : Decimal :=
  if b.significand = 0 then ⟨0, 0⟩
  else
    let k := b.magnitude
    match (List.range 17).findSome? fun (n : Nat) => b.onGrid? (k - 1 - n) with
    | some d => d.strip
    | none => b.exact

end Formula.Number
