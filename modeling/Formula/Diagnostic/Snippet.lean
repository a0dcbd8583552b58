import Formula.Span

/-!
The line that a span begins on, and where on it the span stands. Only a line feed ends a line, and the
carriage returns in front of it are not shown.
-/

namespace Formula

structure Snippet where
  /-- The number of the line, counted from one. -/
  line : Nat
  /-- How many characters of the line stand before the span. -/
  column : Nat
  /-- How many characters of the span stand on the line. -/
  width : Nat
  text : List Char
deriving DecidableEq, Repr

namespace Snippet

def shown (line : List Char) : List Char := (line.reverse.dropWhile (· == '\r')).reverse

def lastLine (cs : List Char) : List Char := (cs.reverse.takeWhile (· != '\n')).reverse

/-- The snippet of a span that begins between `before` and `rest` and has `length` bytes. -/
def between (before rest : List Char) (length : Nat) : Snippet :=
  let left := lastLine before
  let text := shown (left ++ rest.takeWhile (· != '\n'))
  let length := min length (Text.bytes text - Text.bytes left)
  ⟨before.count '\n' + 1, left.length, ((Text.takeBytes? length rest).getD []).length, text⟩

/-- The snippet of a span, unless that begins beyond the text or inside a character. -/
def find? (source : String) (span : Span) : Option Snippet := do
  let cs := source.toList
  let before ← Text.takeBytes? span.start cs
  let rest ← Text.dropBytes? span.start cs
  return between before rest span.length

def gutter (s : Snippet) : String :=
  String.ofList (List.replicate (toString s.line).length ' ')

/-- The marks below a span. An empty span gets one. -/
def underline (s : Snippet) (mark : Char) : String := String.ofList (List.replicate (max s.width 1) mark)

end Snippet

end Formula
