import Formula.Host.Action
import Formula.Number.Read
import Formula.Text.Blank
import Formula.Text.Fields

/-!
Values as they are written on a command line.
-/

namespace Formula.Cli

inductive Datum where
  | null
  | bool (b : Bool)
  | int (n : Int64)
  | float (x : Number.Double)
  | string (s : String)
  | list (items : List Datum)
deriving Inhabited

namespace Datum

/-- Words such as `inf` are no numbers here: a digit or a point has to follow the signs, and there has
to be a digit. -/
def looksNumeric (cs : List Char) : Bool :=
  let body := cs.dropWhile fun c => c == '-' || c == '+'
  (body.head?.any fun c => c.isDigit || c == '.') && body.any Char.isDigit

def number? (cs : List Char) : Option Datum :=
  if looksNumeric cs then
    ((Number.readInt64? cs).map int).or ((Number.readDouble? cs).map float)
  else none

def unquoted? (cs : List Char) : Option (List Char) :=
  (Text.enclosed? '"' '"' cs).or (Text.enclosed? '\'' '\'' cs)

/-- A word, a text in quotes or a number, or else the text as it is. -/
def scalar (cs : List Char) : Datum :=
  match String.ofList cs with
  | "null" => null
  | "true" => bool true
  | "false" => bool false
  | s =>
    match unquoted? cs with
    | some inner => string (String.ofList inner)
    | none => (number? cs).getD (string s)

/-- The value of a text. Blanks around it do not count, and brackets enclose a list. -/
def read (text : List Char) : Datum :=
  match _h : Text.enclosed? '[' ']' (Text.trim text) with
  | none => scalar (Text.trim text)
  | some inner =>
    if (Text.trim inner).isEmpty then list []
    else list ((Text.fields ',' inner).attach.map fun ⟨field, _⟩ => read field)
termination_by text.length
decreasing_by
  have hf := Text.length_le_of_mem_fields ‹_ ∈ Text.fields ',' inner›
  have hi := Text.length_lt_of_enclosed? _h
  have ht := Text.length_trim_le text
  omega

mutual

/-- The value itself. Lists are new objects. -/
def build {H : Host} : Datum → Action H Value
  | null => return .null
  | bool b => return .bool b
  | int n => return .int n
  | float x => return .float x
  | string s => return .string s
  | list items => do Action.newList (← buildAll items)

def buildAll {H : Host} : List Datum → Action H (List Value)
  | [] => return []
  | d :: ds => do return (← d.build) :: (← buildAll ds)

end

end Datum

end Formula.Cli
