import Formula.Value

/-!
Variables: an ordered list with one variable to a name. A variable owns its value, or the host keeps
it and decides what becomes of a value that is stored.
-/

namespace Formula

inductive Slot where
  | owned (value : Value)
  /-- The host holds a value; `keep old new` is what it holds after `new` is stored. -/
  | backed (held : Value) (keep : Value → Value → Value)
deriving Inhabited

namespace Slot

def get : Slot → Value
  | owned v => v
  | backed v _ => v

def set (new : Value) : Slot → Slot
  | owned _ => owned new
  | backed old keep => backed (keep old new) keep

/-- Backed by a store that keeps what it is given. -/
def plain (v : Value) : Slot := backed v fun _ new => new

/-- Backed by a store that ignores what it is given. -/
def frozen (v : Value) : Slot := backed v fun old _ => old

end Slot

structure Variable where
  name : String
  /-- The declared type, to which stored values are converted. -/
  type : TypeTag
  slot : Slot
deriving Inhabited

namespace Variable

def infer (name : String) (v : Value) : Variable := ⟨name, v.typeTag, .owned v⟩

def get (x : Variable) : Value := x.slot.get

/-- Stores a value that has the declared type already. -/
def set (v : Value) (x : Variable) : Variable := { x with slot := x.slot.set v }

def listed (x : Variable) : String := x.name ++ ": " ++ x.type.name ++ " = " ++ x.get.listed

end Variable

structure Bindings where
  vars : List Variable
deriving Inhabited

namespace Bindings

def empty : Bindings := ⟨[]⟩

def find? (b : Bindings) (name : String) : Option Variable := b.vars.find? (·.name == name)

def contains (b : Bindings) (name : String) : Bool := (b.find? name).isSome

def insertInto (x : Variable) : List Variable → List Variable
  | [] => [x]
  | y :: ys => if y.name = x.name then x :: ys else y :: insertInto x ys

/-- A variable takes the place of the one with its name, or else goes to the end. -/
def insert (b : Bindings) (x : Variable) : Bindings := ⟨insertInto x b.vars⟩

def ofList (xs : List Variable) : Bindings := xs.foldl insert empty

def store (b : Bindings) (name : String) (v : Value) : Bindings :=
  ⟨b.vars.map fun x => if x.name = name then x.set v else x⟩

def size (b : Bindings) : Nat := b.vars.length

def isEmpty (b : Bindings) : Bool := b.vars.isEmpty

def listed (b : Bindings) : String := "[" ++ ", ".intercalate (b.vars.map (·.listed)) ++ "]"

end Bindings

/-- The names and declared types of variables, in the order of the names. -/
structure Signature where
  entries : List (String × TypeTag)
deriving DecidableEq, Repr, Inhabited

def Bindings.signature (b : Bindings) : Signature :=
  ⟨(b.vars.map fun x => (x.name, x.type)).mergeSort fun x y => decide (x.1 ≤ y.1)⟩

def Signature.text (s : Signature) : String :=
  "(" ++ ", ".intercalate (s.entries.map fun (name, type) => name ++ ": " ++ type.name) ++ ")"

namespace Bindings

theorem mem_insertInto {x y : Variable} {xs : List Variable} (h : y ∈ insertInto x xs) :
    y = x ∨ y ∈ xs := by
  induction xs with
  | nil => simpa [insertInto] using h
  | cons z zs ih =>
    simp only [insertInto] at h
    split at h
    · rcases List.mem_cons.mp h with rfl | h
      · exact .inl rfl
      · exact .inr (List.mem_cons_of_mem _ h)
    · rcases List.mem_cons.mp h with rfl | h
      · exact .inr (List.mem_cons_self ..)
      · exact (ih h).imp_right (List.mem_cons_of_mem _)

theorem find?_insert_self (b : Bindings) (x : Variable) : (b.insert x).find? x.name = some x := by
  cases b with
  | mk vars =>
    simp only [insert, find?]
    induction vars with
    | nil => simp [insertInto]
    | cons y ys ih =>
      simp only [insertInto]
      split
      · simp
      · next h => simpa [h] using ih

theorem find?_insert_of_ne (b : Bindings) {x : Variable} {name : String} (h : x.name ≠ name) :
    (b.insert x).find? name = b.find? name := by
  cases b with
  | mk vars =>
    simp only [insert, find?]
    induction vars with
    | nil => simp [insertInto, h]
    | cons y ys ih =>
      simp only [insertInto]
      split
      · next hy => simp [h, hy]
      · simp only [List.find?_cons, ih]

theorem names_store (b : Bindings) (name : String) (v : Value) :
    (b.store name v).vars.map (·.name) = b.vars.map (·.name) := by
  simp only [store, List.map_map, List.map_inj_left, Function.comp_apply]
  intro x _
  split <;> rfl

theorem types_store (b : Bindings) (name : String) (v : Value) :
    (b.store name v).vars.map (·.type) = b.vars.map (·.type) := by
  simp only [store, List.map_map, List.map_inj_left, Function.comp_apply]
  intro x _
  split <;> rfl

theorem find?_store_self (b : Bindings) (name : String) (v : Value) :
    (b.store name v).find? name = (b.find? name).map (·.set v) := by
  cases b with
  | mk vars =>
    simp only [store, find?]
    induction vars with
    | nil => rfl
    | cons x xs ih =>
      by_cases h : x.name = name
      · simp [h, Variable.set]
      · simp [h, ih]

theorem find?_store_of_ne (b : Bindings) {name other : String} (v : Value) (h : name ≠ other) :
    (b.store name v).find? other = b.find? other := by
  cases b with
  | mk vars =>
    simp only [store, find?]
    induction vars with
    | nil => rfl
    | cons x xs ih =>
      rw [List.map_cons, List.find?_cons, List.find?_cons, ih]
      by_cases hx : x.name = name
      · have hne : (name == other) = false := by simpa using h
        simp [hx, Variable.set, hne]
      · simp [hx]

end Bindings

end Formula
