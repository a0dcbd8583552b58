import Formula.Bindings
import Std.Data.HashMap

/-!
Variables with an index beside them: the index has the position at which the variable of a name stands,
so that no search is needed to find it.
-/

namespace Formula

structure IndexedBindings where
  vars : Array Variable
  index : Std.HashMap String Nat
  inside : ∀ {name : String} {i : Nat}, index[name]? = some i → i < vars.size

namespace IndexedBindings

def empty : IndexedBindings where
  vars := #[]
  index := ∅
  inside h := by simp at h

/-- A variable takes the place that its name has, or else goes to the end and into the index. -/
def insert (b : IndexedBindings) (x : Variable) : IndexedBindings :=
  match h : b.index[x.name]? with
  | some i =>
    { b with
      vars := b.vars.set i x (b.inside h)
      inside := fun h => by simpa using b.inside h }
  | none =>
    { vars := b.vars.push x
      index := b.index.insert x.name b.vars.size
      inside := fun {name i} h => by
        rw [Std.HashMap.getElem?_insert] at h
        split at h
        · cases h
          simp
        · simpa using Nat.lt_succ_of_lt (b.inside h) }

def find? (b : IndexedBindings) (name : String) : Option Variable :=
  match h : b.index[name]? with
  | some i =>
    have := b.inside h
    some b.vars[i]
  | none => none

def contains (b : IndexedBindings) (name : String) : Bool := b.index.contains name

def ofList (xs : List Variable) : IndexedBindings := xs.foldl insert empty

/-- The variables without the index. -/
def toBindings (b : IndexedBindings) : Bindings := ⟨b.vars.toList⟩

end IndexedBindings

end Formula
