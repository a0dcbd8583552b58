import Formula.Builtin.Index
import Formula.Host.Call
import Formula.Host.TypeDef

/-!
`List`, a sequence of values that its holders share. What changes a list yields the list.
-/

namespace Formula.Builtin.Sequence

variable {H : Host}

/-- Changes the items of the receiver, or leaves them all as they are. -/
def change {α : Type} (c : Call) (f : List Value → Except Fault (α × List Value)) : Action H α := do
  let o ← c.receiverObject
  let (a, items) ← f (← Action.read .items o)
  Action.modify .items o fun _ => items
  return a

def items (c : Call) : Action H (List Value) := do Action.read .items (← c.receiverObject)

def insertAt (i : Int64) (v : Value) (vs : List Value) : Except Fault (List Value) := do
  return vs.insertIdx (← cut i vs.length) v

def removeAt (i : Int64) (vs : List Value) : Except Fault (List Value) := do
  return vs.eraseIdx (← slot i vs.length)

def setAt (i : Int64) (v : Value) (vs : List Value) : Except Fault (List Value) := do
  return vs.set (← slot i vs.length) v

def getAt (i : Int64) (vs : List Value) : Except Fault Value := do
  let n ← slot i vs.length
  return vs.getD n .null

def position? (v : Value) (vs : List Value) : Option Nat := vs.findIdx? (·.equal v)

def indexOf (v : Value) (vs : List Value) : Int64 :=
  match position? v vs with
  | some n => count n
  | none => -1

/-- Removes the first item that equals `v`, and says whether there was one. -/
def remove (v : Value) (vs : List Value) : Bool × List Value :=
  match position? v vs with
  | some n => (true, vs.eraseIdx n)
  | none => (false, vs)

/-- A method that changes the receiver and has no result. -/
def mutator (d : TypeDef H) (name : String) (params : List ParamType)
    (f : Call → Except Fault (List Value → Except Fault (List Value))) : TypeDef H :=
  d.voidMethod name params fun c => do
    let g ← f c
    change c fun vs => do return ((), ← g vs)

def typeDef : TypeDef H :=
  let int := ParamType.exact .int
  let d := (TypeDef.reference "List").property .items .int "Count" (fun vs => count vs.length)
    |>.staticMethod "Create" [] (fun _ => Action.newList [])
  let d := mutator d "Add" [.any] fun c => do
    let v ← c.arg 0
    return fun vs => .ok (vs ++ [v])
  let d := mutator d "Insert" [int, .any] fun c => do return insertAt (← c.int 0) (← c.arg 1)
  let d := mutator d "RemoveAt" [int] fun c => do return removeAt (← c.int 0)
  let d := mutator d "Clear" [] fun _ => return fun _ => .ok []
  let d := mutator d "Set" [int, .any] fun c => do return setAt (← c.int 0) (← c.arg 1)
  d.method "Remove" [.any] (fun c => do
      let v ← c.arg 0
      return .bool (← change c fun vs => .ok (remove v vs)))
    |>.method "Contains" [.any] (fun c => do
      let v ← c.arg 0
      return .bool ((← items c).any (·.equal v)))
    |>.method "IndexOf" [.any] (fun c => do
      let v ← c.arg 0
      return .int (indexOf v (← items c)))
    |>.method "Get" [int] (fun c => do
      let n ← c.int 0
      getAt n (← items c))

end Formula.Builtin.Sequence
