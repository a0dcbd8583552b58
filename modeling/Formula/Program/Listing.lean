import Formula.Program

/-!
Listings of programs: the instructions one to a line with nested programs indented below them, and
the spans and assignment roots in the same order.
-/

namespace Formula

def indented (depth : Nat) (line : String) : String :=
  String.ofList (List.replicate (2 * depth) ' ') ++ line ++ "\n"

def Place.text : Place → String
  | var name => name
  | member owner name _ => owner.text ++ "." ++ name
  | static tag => tag.name
  | computed _ => "<temp>"

def typeTagsText (tags : List TypeTag) : String :=
  if tags.isEmpty then "" else "<" ++ ", ".intercalate (tags.map (·.name)) ++ ">"

mutual

def Instr.listing (depth : Nat) : Instr → String
  | .push _ value => indented depth ("push " ++ value.text)
  | .load _ name => indented depth ("load " ++ name)
  | .loadType _ tag => indented depth ("type " ++ tag.name)
  | .binary _ op => indented depth ("op " ++ op.symbol)
  | .get _ member => indented depth ("get ." ++ member)
  | .call _ method typeArgs args =>
    indented depth ("call ." ++ method ++ typeTagsText typeArgs ++ "/" ++ toString args.length) ++
      Program.argumentsListing depth 0 args
  | .ternary _ cond yes no =>
    indented depth "ternary" ++
      indented (depth + 1) "cond:" ++ Program.listingAt (depth + 2) cond ++
      indented (depth + 1) "then:" ++ Program.listingAt (depth + 2) yes ++
      indented (depth + 1) "else:" ++ Program.listingAt (depth + 2) no
  | .assign _ place value =>
    indented depth ("assign " ++ place.text) ++ Program.listingAt (depth + 1) value

def Program.listingAt (depth : Nat) : List Instr → String
  | [] => ""
  | i :: is => i.listing depth ++ Program.listingAt depth is

def Program.argumentsListing (depth n : Nat) : List (List Instr) → String
  | [] => ""
  | arg :: args =>
    indented (depth + 1) ("arg " ++ toString n ++ ":") ++ Program.listingAt (depth + 2) arg ++
      Program.argumentsListing depth (n + 1) args

end

def Program.listing (p : Program) : String := Program.listingAt 0 p

mutual

/-- The span of an instruction and then those of all that is nested in it. -/
def Instr.spans : Instr → List Span
  | .push s _ => [s]
  | .load s _ => [s]
  | .loadType s _ => [s]
  | .binary s _ => [s]
  | .get s _ => [s]
  | .call s _ _ args => s :: Program.allSpans args
  | .ternary s cond yes no => s :: (Program.spans cond ++ Program.spans yes ++ Program.spans no)
  | .assign s place value => s :: (place.spans ++ Program.spans value)

/-- The spans of the members of a place, the outermost first. -/
def Place.spans : Place → List Span
  | .var _ => []
  | .member owner _ s => s :: owner.spans
  | .static _ => []
  | .computed program => Program.spans program

def Program.spans : List Instr → List Span
  | [] => []
  | i :: is => i.spans ++ Program.spans is

def Program.allSpans : List (List Instr) → List Span
  | [] => []
  | p :: ps => Program.spans p ++ Program.allSpans ps

end

mutual

/-- The root variable of each assignment in an instruction, the outer ones first. -/
def Instr.roots : Instr → List (Option String)
  | .push _ _ => []
  | .load _ _ => []
  | .loadType _ _ => []
  | .binary _ _ => []
  | .get _ _ => []
  | .call _ _ _ args => Program.allRoots args
  | .ternary _ cond yes no => Program.roots cond ++ Program.roots yes ++ Program.roots no
  | .assign _ place value => place.root? :: (place.roots ++ Program.roots value)

def Place.roots : Place → List (Option String)
  | .var _ => []
  | .member owner _ _ => owner.roots
  | .static _ => []
  | .computed program => Program.roots program

def Program.roots : List Instr → List (Option String)
  | [] => []
  | i :: is => i.roots ++ Program.roots is

def Program.allRoots : List (List Instr) → List (Option String)
  | [] => []
  | p :: ps => Program.roots p ++ Program.allRoots ps

end

end Formula
