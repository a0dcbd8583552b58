import Formula.Builtin.Index
import Formula.Host.Call
import Formula.Host.TypeDef
import Formula.Text.Blank
import Formula.Text.Case
import Formula.Text.Search

/-!
The members of `string`. Positions and lengths count characters.
-/

namespace Formula.Builtin.Strings

variable {H : Host}

def length (s : String) : Int64 := count s.toList.length

/-- The characters from `start` on, all of them or as many as `length?` says. -/
def substring (s : String) (start : Int64) (length? : Option Int64) : Except Fault String := do
  let cs := s.toList
  let start ← cut start cs.length
  let rest := cs.drop start
  match length? with
  | none => .ok (String.ofList rest)
  | some n =>
    match upTo? n rest.length with
    | some n => .ok (String.ofList (rest.take n))
    | none => .error (.hostFailure ("length " ++ toString n.toInt ++ " out of range"))

def indexOf (s t : String) : Int64 :=
  match Text.indexOf? t.toList s.toList with
  | some n => count n
  | none => -1

def contains (s t : String) : Bool := Text.contains s.toList t.toList

def startsWith (s t : String) : Bool := t.toList.isPrefixOf s.toList

def endsWith (s t : String) : Bool := t.toList.isSuffixOf s.toList

def replace (s old new : String) : Except Fault String :=
  if old.isEmpty then .error (.hostFailure "`Replace` needs a non-empty search string")
  else .ok (String.ofList (Text.replace old.toList new.toList s.toList))

def readLength : Value → Action H Value
  | .string s => return .int (length s)
  | _ => throw (.internal "receiver is not a string")

def typeDef : TypeDef H :=
  let text := ParamType.exact .string
  let int := ParamType.exact .int
  (TypeDef.ofTag .string).computed "Length" readLength
    |>.method "ToUpper" [] (fun c => do return .string (Text.toUpper (← c.receiverString)))
    |>.method "ToLower" [] (fun c => do return .string (Text.toLower (← c.receiverString)))
    |>.method "Trim" [] (fun c => do return .string (Text.trimmed (← c.receiverString)))
    |>.method "Contains" [text] (fun c => do
      return .bool (contains (← c.receiverString) (← c.string 0)))
    |>.method "StartsWith" [text] (fun c => do
      return .bool (startsWith (← c.receiverString) (← c.string 0)))
    |>.method "EndsWith" [text] (fun c => do
      return .bool (endsWith (← c.receiverString) (← c.string 0)))
    |>.method "IndexOf" [text] (fun c => do
      return .int (indexOf (← c.receiverString) (← c.string 0)))
    |>.method "Substring" [int] (fun c => do
      return .string (← substring (← c.receiverString) (← c.int 0) none))
    |>.method "Substring" [int, int] (fun c => do
      return .string (← substring (← c.receiverString) (← c.int 0) (some (← c.int 1))))
    |>.method "Replace" [text, text] (fun c => do
      return .string (← replace (← c.receiverString) (← c.string 0) (← c.string 1)))
    |>.method "ToString" [] (fun c => return c.receiver)

end Formula.Builtin.Strings
