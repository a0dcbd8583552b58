import Formula.Bindings
import Formula.Compiled

/-!
A cache of compiled formulas. What a formula compiles to depends on the names and types of the
variables as well, so these are part of the key.
-/

namespace Formula

structure CacheKey where
  /-- Names the place that the formula is called from. -/
  uid : String
  formula : String
  signature : Signature
deriving DecidableEq, Repr

/-- A compiled formula as it was handed out. Equal numbers mean that it was compiled only once. -/
structure SharedFormula where
  number : Nat
  compiled : CompiledFormula
deriving Inhabited

structure Cache where
  entries : List (CacheKey × SharedFormula)
  hits : Nat
  misses : Nat
  issued : Nat

namespace Cache

def empty : Cache := ⟨[], 0, 0, 0⟩

def get? (c : Cache) (key : CacheKey) : Option SharedFormula :=
  (c.entries.find? (·.1 == key)).map (·.2)

/-- A formula that is handed out and not kept. -/
def issue (c : Cache) (compiled : CompiledFormula) : SharedFormula × Cache :=
  (⟨c.issued, compiled⟩, { c with issued := c.issued + 1 })

/-- The formula of a key, compiled only if there is none. -/
def getOrCompile (c : Cache) (key : CacheKey) (compile : Unit → CompiledFormula) :
    SharedFormula × Cache :=
  match c.get? key with
  | some f => (f, { c with hits := c.hits + 1 })
  | none =>
    let (f, c) := c.issue (compile ())
    (f, { c with misses := c.misses + 1, entries := (key, f) :: c.entries })

/-- Forgets the formulas and keeps the counts. -/
def clear (c : Cache) : Cache := { c with entries := [] }

def size (c : Cache) : Nat := c.entries.length

theorem get?_clear (c : Cache) (key : CacheKey) : c.clear.get? key = none := rfl

theorem get?_getOrCompile_self (c : Cache) (key : CacheKey) (compile : Unit → CompiledFormula) :
    (c.getOrCompile key compile).2.get? key = some (c.getOrCompile key compile).1 := by
  unfold getOrCompile
  split
  · next h => simpa [get?] using h
  · simp [get?, issue]

theorem get?_getOrCompile_of_ne (c : Cache) {key other : CacheKey} (compile : Unit → CompiledFormula)
    (h : key ≠ other) : (c.getOrCompile key compile).2.get? other = c.get? other := by
  unfold getOrCompile
  split
  · rfl
  · simp [get?, issue, h]

theorem hits_add_misses_getOrCompile (c : Cache) (key : CacheKey)
    (compile : Unit → CompiledFormula) :
    (c.getOrCompile key compile).2.hits + (c.getOrCompile key compile).2.misses =
      c.hits + c.misses + 1 := by
  unfold getOrCompile
  split
  · simp only; omega
  · simp only [issue]; omega

end Cache

end Formula
