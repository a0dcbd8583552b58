import Formula.Sample.Object

/-!
Counters, a shared type with members and overloads of every kind.
-/

namespace Formula.Sample.Counter

def initial : Counter := ⟨0, 0, false, .ofFloat 0.5, "c"⟩

/-- Fails once the receiver turns out to be a counter. -/
def refuse (message : String) (c : Call) : Action host Value := do
  let _ ← receiver facet c
  throw (.hostFailure message)

/-- An overload that says which one it is. -/
def pick (d : TypeDef host) (params : List ParamType) (name : String) : TypeDef host :=
  d.method "Pick" params fun _ => return .string name

def overloads (d : TypeDef host) : TypeDef host :=
  let d := pick d [.exact .int] "int"
  let d := pick d [.exact (.enum "Mode")] "mode"
  let d := pick d [.exact (.enum "Axis")] "axis"
  let d := pick d [.exact .bool, .any] "bool,any"
  let d := pick d [.any, .exact .bool] "any,bool"
  d.genericMethod "Pick" 1 [.any] (fun c => do return .string (← c.typeArg 0).name)
    |>.genericMethod "Types" 2 [] (fun c => do
      return .string ((← c.typeArg 0).name ++ "," ++ (← c.typeArg 1).name))

def members (d : TypeDef host) : TypeDef host :=
  d.property facet .int "Hits" (fun _ => -1)
    |>.field facet .int "Hits" Counter.hits (fun c n => { c with hits := n })
    |>.field facet .bool "Flag" Counter.flag (fun c b => { c with flag := b })
    |>.field facet .float "Ratio" Counter.ratio (fun c x => { c with ratio := x })
    |>.field facet .string "Name" Counter.name (fun c s => { c with name := s })
    |>.property facet .int "Id" (fun _ => 7)
    |>.writeOnly facet .int "Secret" (fun c n => { c with secret := n })
    |>.computed "Broken" (fun _ => throw (.hostFailure "broken getter"))
    |>.computed "Leak" (fun _ => newForeign "Ghost")

def typeDef : TypeDef host :=
  overloads (members (.reference "Counter")
    |>.voidMethod "Bump" [] (fun c => change facet c fun k => { k with hits := k.hits + 1 })
    |>.voidMethod "Fail" [.exact .string] (fun c => do throw (.hostFailure (← c.string 0)))
    |>.method "SetMode" [.exact (.enum "Mode")] (fun c => do c.arg 0)
    |>.method "Ghost" [] (fun _ => newForeign "Ghost")
    |>.method "Reenter" [] (refuse "`Counter` is already being modified")
    |>.method "ReenterMut" [] (refuse "`Counter` is already borrowed"))

end Formula.Sample.Counter
