/-!
Sets of numbers given by their bounds: an ascending list in which the set begins at the first entry,
ends before the second, begins again at the third, and so on.
-/

namespace Formula.Text.Intervals

/-- How many bounds are at most `n`, given that all before `lo` are and none from `hi` on is. -/
def countUpTo (bounds : Array Nat) (n lo hi : Nat) : Nat :=
  if lo < hi then
    let mid := (lo + hi) / 2
    if bounds.getD mid 0 ≤ n then countUpTo bounds n (mid + 1) hi else countUpTo bounds n lo mid
  else lo
termination_by hi - lo

/-- A number is inside when it has passed one bound more that begins the set than that ends it. -/
def contains (bounds : Array Nat) (n : Nat) : Bool :=
  countUpTo bounds n 0 bounds.size % 2 == 1

end Formula.Text.Intervals
