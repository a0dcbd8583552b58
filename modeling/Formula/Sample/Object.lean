import Formula.Host.Call
import Formula.Host.TypeDef

/-!
The objects of a sample host: points and rectangles in a scene, and counters.
-/

namespace Formula.Sample

structure Point where
  x : Int64
  y : Number.Double
deriving Inhabited

structure Rect where
  origin : Point
  label : String
deriving Inhabited

structure Scene where
  main : Rect
  slot : Value
deriving Inhabited

structure Counter where
  hits : Int64
  secret : Int64
  flag : Bool
  ratio : Number.Double
  name : String
deriving Inhabited

inductive Object where
  | point (p : Point)
  | rect (r : Rect)
  | scene (s : Scene)
  | counter (c : Counter)
  /-- Something that no type of the host expects. -/
  | foreign (n : Int64)
deriving Inhabited

/-- The sample host keeps the level of its settings. -/
def host : Host := ⟨Object, Int64⟩

/-- A facet of the contents that belong to the sample host. -/
def facetOf {T : Type} (view? : Object → Option T) (embed : T → Object) : Facet host T where
  view?
    | .list _ => none
    | .host object => view? object
  embed t := .host (embed t)

def Point.facet : Facet host Point := facetOf (fun | .point p => some p | _ => none) .point

def Rect.facet : Facet host Rect := facetOf (fun | .rect r => some r | _ => none) .rect

def Scene.facet : Facet host Scene := facetOf (fun | .scene s => some s | _ => none) .scene

def Counter.facet : Facet host Counter := facetOf (fun | .counter c => some c | _ => none) .counter

def foreignFacet : Facet host Int64 := facetOf (fun | .foreign n => some n | _ => none) .foreign

/-- Objects stand for copies of what they contain. -/
def codingOf {T : Type} (facet : Facet host T) (typeName : String) : Coding host T where
  decode v := do Action.read facet (← Call.expect v.object? ("not a " ++ typeName))
  encode t := return .object (← Action.create facet typeName t)

def Point.coding : Coding host Point := codingOf Point.facet "Point"

def Rect.coding : Coding host Rect := codingOf Rect.facet "Rect"

/-- An object that is not what its type name says. -/
def newForeign (typeName : String) : Action host Value :=
  return .object (← Action.create foreignFacet typeName 7)

def receiver {T : Type} (facet : Facet host T) (c : Call) : Action host T := do
  Action.read facet (← c.receiverObject)

def change {T : Type} (facet : Facet host T) (c : Call) (f : T → T) : Action host Unit := do
  Action.modify facet (← c.receiverObject) f

end Formula.Sample
