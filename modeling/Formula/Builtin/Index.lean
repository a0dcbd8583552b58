import Formula.Fault
import Formula.Number.Binary

/-!
Positions and counts as ints.
-/

namespace Formula.Builtin

/-- A count as an int. No text or list is long enough for the bound to matter. -/
def count (n : Nat) : Int64 := Int64.ofNat (min n Number.maxInt64.toNat)

def upTo? (i : Int64) (bound : Nat) : Option Nat :=
  if 0 ≤ i.toInt ∧ i.toInt.toNat ≤ bound then some i.toInt.toNat else none

def below? (i : Int64) (bound : Nat) : Option Nat :=
  if 0 ≤ i.toInt ∧ i.toInt.toNat < bound then some i.toInt.toNat else none

/-- A position in front of one of `length` elements, or after them all. -/
def cut (i : Int64) (length : Nat) : Except Fault Nat :=
  match upTo? i length with
  | some n => .ok n
  | none => .error (.indexOutOfRange i.toInt length)

/-- The position of one of `length` elements. -/
def slot (i : Int64) (length : Nat) : Except Fault Nat :=
  match below? i length with
  | some n => .ok n
  | none => .error (.indexOutOfRange i.toInt length)

end Formula.Builtin
