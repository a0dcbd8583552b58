/-!
Looking for one text inside another. Positions count characters.
-/

namespace Formula.Text

def indexOf? (needle : List Char) : List Char → Option Nat
  | [] => if needle.isEmpty then some 0 else none
  | c :: cs => if needle.isPrefixOf (c :: cs) then some 0 else (indexOf? needle cs).map (· + 1)

def contains (hay needle : List Char) : Bool := (indexOf? needle hay).isSome

/-- Every occurrence of `old` replaced by `new`, from left to right and without overlaps; the next
`skip` characters belong to an occurrence that is replaced already. -/
def replaceFrom (old new : List Char) : Nat → List Char → List Char
  | _, [] => []
  | skip + 1, _ :: cs => replaceFrom old new skip cs
  | 0, c :: cs =>
    if old.isPrefixOf (c :: cs) then new ++ replaceFrom old new (old.length - 1) cs
    else c :: replaceFrom old new 0 cs

/-- Every occurrence of the non-empty text `old` replaced by `new`. -/
def replace (old new hay : List Char) : List Char := replaceFrom old new 0 hay

end Formula.Text
