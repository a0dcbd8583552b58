import Formula.Span
import Formula.Text.Blank

/-!
A formula is a sequence of statements with `;` between them. A separator in quotes does not count; a
quote that is never closed reaches to the end of the formula.
-/

namespace Formula.Statement

/-- The text cut at each separator outside quotes, given the quote that is open. -/
def pieces : Option Char → List Char → List (List Char)
  | _, [] => [[]]
  | some q, c :: cs => (pieces (if c = q then none else some q) cs).modifyHead (c :: ·)
  | none, c :: cs =>
    if c = ';' then [] :: pieces none cs
    else (pieces (if c = '"' ∨ c = '\'' then some c else none) cs).modifyHead (c :: ·)

/-- The span of a piece that begins at offset `pos`, without the blanks around it. -/
def trimmedSpan? (pos : Nat) (piece : List Char) : Option Span :=
  let lead := Text.bytes (piece.takeWhile Text.isBlank)
  let body := Text.trim piece
  if body.isEmpty then none else some ⟨pos + lead, pos + lead + Text.bytes body⟩

/-- The spans of the pieces that are not blank, the first of which begins at offset `pos`. -/
def spansFrom : Nat → List (List Char) → List Span
  | _, [] => []
  | pos, piece :: rest =>
    let later := spansFrom (pos + Text.bytes piece + 1) rest
    match trimmedSpan? pos piece with
    | some span => span :: later
    | none => later

def split (source : String) : List Span := spansFrom 0 (pieces none source.toList)

theorem pieces_ne_nil (q : Option Char) (cs : List Char) : pieces q cs ≠ [] := by
  induction cs generalizing q with
  | nil => simp [pieces]
  | cons c cs ih =>
    cases q with
    | some q => simpa [pieces, List.modifyHead_eq_nil_iff] using ih _
    | none =>
      simp only [pieces]
      split
      · simp
      · simpa [List.modifyHead_eq_nil_iff] using ih _

end Formula.Statement
