import Formula.Sample.Object

/-!
The types of a scene. Points and rectangles are values, the scene itself is shared.
-/

namespace Formula.Sample

namespace Point

/-- Stretches a point along the first axis alone. -/
def scaled (k : Int64) (p : Point) : Point := { p with x := p.x * k }

def component (axis : Value) (p : Point) : Except Fault Value :=
  match axis.plainText with
  | "X" => .ok (.int p.x)
  | "Y" => .ok (.float p.y)
  | other => .error (.hostFailure ("no component " ++ other))

def typeDef : TypeDef host :=
  (TypeDef.valueType facet "Point").field facet .int "X" Point.x (fun p x => { p with x := x })
    |>.field facet .float "Y" Point.y (fun p y => { p with y := y })
    |>.method "Scaled" [.exact .int] (fun c => do
      let k ← c.int 0
      coding.encode ((← receiver facet c).scaled k))
    |>.voidMethod "Reset" [] (fun c => change facet c fun _ => ⟨0, .zero⟩)
    |>.method "SumX" [.exact (.object "Point")] (fun c => do
      let other ← coding.decode (← c.arg 0)
      return .int ((← receiver facet c).x + other.x))
    |>.method "Component" [.exact (.enum "Axis")] (fun c => do
      let axis ← c.arg 0
      (← receiver facet c).component axis)
    |>.staticMethod "Zero" [] (fun _ => coding.encode ⟨0, .zero⟩)
    |>.staticProperty "One" (coding.encode ⟨1, .one⟩)

end Point

namespace Rect

def typeDef : TypeDef host :=
  (TypeDef.valueType facet "Rect").field facet Point.coding "Origin" Rect.origin
      (fun r p => { r with origin := p })
    |>.readWrite facet .string "Label" Rect.label (fun r s => { r with label := s })
    |>.property facet Point.coding "Corner" Rect.origin

end Rect

namespace Scene

def typeDef : TypeDef host :=
  (TypeDef.reference "Scene").field facet Rect.coding "Main" Scene.main
      (fun s r => { s with main := r })
    |>.readWrite facet .any "Slot" Scene.slot (fun s v => { s with slot := v })

end Scene

end Formula.Sample
