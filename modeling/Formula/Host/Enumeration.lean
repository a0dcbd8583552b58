import Formula.Host.Call
import Formula.Host.TypeDef

/-!
Enumerations. Their variants are static members, and their values have `Name`, `Ordinal` and
`ToString()`.
-/

namespace Formula

structure Enumeration where
  name : String
  variants : List String
deriving Repr

namespace Enumeration

variable {H : Host}

def value (e : Enumeration) (variant : String) (ordinal : Nat) : EnumValue :=
  ⟨e.name, variant, Int64.ofNat ordinal⟩

/-- The value of the variant at a position. A position is a 64-bit integer. -/
def valueAt? (e : Enumeration) (ordinal : Nat) : Option EnumValue :=
  if Number.inInt64 ordinal then e.variants[ordinal]?.map (e.value · ordinal) else none

def variant? (e : Enumeration) (name : String) : Option EnumValue :=
  (e.variants.idxOf? name).bind e.valueAt?

def variantAt? (e : Enumeration) (ordinal : Int64) : Option EnumValue :=
  if 0 ≤ ordinal then e.valueAt? ordinal.toInt.toNat else none

theorem valueAt?_eq_some {e : Enumeration} {ordinal : Nat} {x : EnumValue} :
    e.valueAt? ordinal = some x ↔
      Number.inInt64 ordinal ∧ ∃ variant, e.variants[ordinal]? = some variant ∧
        e.value variant ordinal = x := by
  simp [valueAt?]

/-- A property of the values of an enumeration. -/
def property (get : EnumValue → Value) : Value → Action H Value
  | .enum v => return get v
  | _ => throw (.internal "enum member read on a non-enum")

def typeDef (e : Enumeration) : TypeDef H :=
  let members := (TypeDef.ofTag (.enum e.name)).computed "Name" (property fun v => .string v.variant)
    |>.computed "Ordinal" (property fun v => .int v.ordinal)
    |>.method "ToString" [] Call.receiverText
  e.variants.zipIdx.foldl
    (fun d (variant, ordinal) => d.staticProperty variant (pure (.enum (e.value variant ordinal))))
    members

def toHostType (e : Enumeration) : HostType H :=
  { e.typeDef.toHostType with variant? := e.variant?, variantAt? := e.variantAt? }

end Enumeration

namespace Registry

variable {H : Host}

def registerAll (r : Registry H) (ts : List (HostType H)) : Registry H := ts.foldl register r

def registerEnum (r : Registry H) (name : String) (variants : List String) : Registry H :=
  r.register (Enumeration.toHostType ⟨name, variants⟩)

end Registry

end Formula
