import Formula.Text.Printable

/-!
Texts in double quotes, with escapes for whatever would not show.
-/

namespace Formula.Text

/-- A character by its number, in lower-case hexadecimal. -/
def codePointEscape (c : Char) : List Char :=
  ['\\', 'u', '{'] ++ Nat.toDigits 16 c.toNat ++ ['}']

/-- A character as shown between quotes of the kinds `quotes`, which themselves take a backslash. -/
def escape (quotes : List Char) (c : Char) : List Char :=
  if c == '\x00' then ['\\', '0']
  else if c == '\t' then ['\\', 't']
  else if c == '\r' then ['\\', 'r']
  else if c == '\n' then ['\\', 'n']
  else if c == '\\' || quotes.contains c then ['\\', c]
  else if isExtender c then codePointEscape c
  else if isPrintable c then [c]
  else codePointEscape c

def quoted (s : String) : String :=
  String.ofList ('"' :: s.toList.flatMap (escape ['"']) ++ ['"'])

/-- A single character, with either kind of quote escaped. -/
def shownChar (c : Char) : String := String.ofList (escape ['"', '\''] c)

end Formula.Text
