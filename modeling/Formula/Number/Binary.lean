/-!
The bits of a double taken apart into sign, significand and exponent.
-/

namespace Formula.Number

/-- A finite magnitude `significand * 2 ^ exponent`. -/
structure Binary where
  significand : Nat
  exponent : Int
  /-- The next double below is half as far away as the next one above. -/
  narrowBelow : Bool
deriving DecidableEq, Repr

inductive Class where
  | nan
  | infinite (negative : Bool)
  | finite (negative : Bool) (magnitude : Binary)
deriving DecidableEq, Repr

/-- Powers of a base, those with a negative exponent counting as one. -/
def power (base : Nat) (n : Int) : Nat := Nat.pow base n.toNat

def minInt64 : Int := -9223372036854775808

def maxInt64 : Int := 9223372036854775807

def inInt64 (n : Int) : Bool := minInt64 ≤ n && n ≤ maxInt64

theorem inInt64_iff {n : Int} : inInt64 n = true ↔ minInt64 ≤ n ∧ n ≤ maxInt64 := by
  rw [inInt64, Bool.and_eq_true, decide_eq_true_iff, decide_eq_true_iff]

theorem inInt64_toInt (n : Int64) : inInt64 n.toInt = true := by
  have hlow := Int64.le_toInt n
  have hhigh := Int64.toInt_lt n
  rw [inInt64_iff, minInt64, maxInt64]
  omega

theorem toInt_ofInt {n : Int} (h : inInt64 n) : (Int64.ofInt n).toInt = n := by
  rw [inInt64_iff, minInt64, maxInt64] at h
  exact Int64.toInt_ofInt_of_le (by omega) (by omega)

theorem toInt_ofNat {n : Nat} (h : inInt64 n) : (Int64.ofNat n).toInt = n := by
  rw [inInt64_iff, maxInt64] at h
  exact Int64.toInt_ofNat_of_lt (by omega)

/-- The magnitude with exponent field `e` and fraction field `f`. -/
def Binary.ofFields (e f : Nat) : Binary :=
  if e = 0 then ⟨f, -1074, false⟩ else ⟨0x10000000000000 + f, (e : Int) - 1075, f == 0 && 1 < e⟩

def Class.ofBits (bits : UInt64) : Class :=
  let negative := 0x8000000000000000 ≤ bits
  let e := (bits >>> 52 &&& 0x7FF).toNat
  let f := (bits &&& 0xFFFFFFFFFFFFF).toNat
  if e < 2047 then .finite negative (.ofFields e f)
  else if f = 0 then .infinite negative
  else .nan

/-- The nearest natural number, a half going to the even one. -/
def Binary.nearest (b : Binary) : Nat :=
  if 0 ≤ b.exponent then b.significand * power 2 b.exponent
  else
    let unit := power 2 (-b.exponent)
    let below := b.significand / unit
    let twice := 2 * (b.significand % unit)
    if twice < unit || (twice == unit && below % 2 == 0) then below else below + 1

def signed (negative : Bool) (n : Nat) : Int := if negative then -(n : Int) else n

end Formula.Number
