/-!
The operators, their spellings and their precedence classes. The bitwise classes bind tighter than
arithmetic; assignments and `!` have no class.
-/

namespace Formula

inductive Operator where
  | add | sub | mul | div | mod
  | equal | notEqual | greater | greaterEqual | less | lessEqual
  | and | or | not
  | shiftLeft | shiftRight | bitAnd | bitOr | bitNot | xor
  | assign | addAssign | subAssign | mulAssign | divAssign | modAssign
  | andAssign | orAssign | xorAssign | shiftLeftAssign | shiftRightAssign
deriving DecidableEq, Repr

namespace Operator

def all : List Operator :=
  [add, sub, mul, div, mod, equal, notEqual, greater, greaterEqual, less, lessEqual, and, or, not,
    shiftLeft, shiftRight, bitAnd, bitOr, bitNot, xor, assign, addAssign, subAssign, mulAssign,
    divAssign, modAssign, andAssign, orAssign, xorAssign, shiftLeftAssign, shiftRightAssign]

def symbol : Operator → String
  | add => "+" | sub => "-" | mul => "*" | div => "/" | mod => "%"
  | equal => "==" | notEqual => "!="
  | greater => ">" | greaterEqual => ">=" | less => "<" | lessEqual => "<="
  | and => "&&" | or => "||" | not => "!"
  | shiftLeft => "<<" | shiftRight => ">>"
  | bitAnd => "&" | bitOr => "|" | bitNot => "~" | xor => "^"
  | assign => "=" | addAssign => "+=" | subAssign => "-=" | mulAssign => "*=" | divAssign => "/="
  | modAssign => "%=" | andAssign => "&=" | orAssign => "|=" | xorAssign => "^="
  | shiftLeftAssign => "<<=" | shiftRightAssign => ">>="

def name : Operator → String
  | add => "Add" | sub => "Sub" | mul => "Mul" | div => "Div" | mod => "Mod"
  | equal => "Equal" | notEqual => "NotEqual"
  | greater => "Greater" | greaterEqual => "GreaterEqual" | less => "Less" | lessEqual => "LessEqual"
  | and => "And" | or => "Or" | not => "Not"
  | shiftLeft => "ShiftLeft" | shiftRight => "ShiftRight"
  | bitAnd => "BitwiseAnd" | bitOr => "BitwiseOr" | bitNot => "BitwiseNot" | xor => "Xor"
  | assign => "Assignment" | addAssign => "AddAssign" | subAssign => "SubAssign"
  | mulAssign => "MulAssign" | divAssign => "DivAssign" | modAssign => "ModAssign"
  | andAssign => "AndAssign" | orAssign => "OrAssign" | xorAssign => "XorAssign"
  | shiftLeftAssign => "ShiftLeftAssign" | shiftRightAssign => "ShiftRightAssign"

/-- Precedence class; a higher one binds tighter. -/
def precedence? : Operator → Option Nat
  | or => some 1
  | and => some 2
  | equal | notEqual => some 3
  | greater | greaterEqual | less | lessEqual => some 4
  | add | sub => some 5
  | mul | div | mod => some 6
  | shiftLeft | shiftRight => some 7
  | bitOr => some 8
  | bitAnd => some 9
  | bitNot | xor => some 10
  | _ => none

/-- Whether the operator can stand between two operands. -/
def isBinary (op : Operator) : Bool := op != bitNot && op.precedence?.isSome

def binaryPrecedence? (op : Operator) : Option Nat := if op = bitNot then none else op.precedence?

/-- The binary operator that a compound assignment applies. -/
def compoundBase? : Operator → Option Operator
  | addAssign => some add
  | subAssign => some sub
  | mulAssign => some mul
  | divAssign => some div
  | modAssign => some mod
  | andAssign => some bitAnd
  | orAssign => some bitOr
  | xorAssign => some xor
  | shiftLeftAssign => some shiftLeft
  | shiftRightAssign => some shiftRight
  | _ => none

def isAssignment (op : Operator) : Bool := op == assign || op.compoundBase?.isSome

/-- Whether booleans count as `0` and `1` for this operator. -/
def coercesBooleans : Operator → Bool
  | add | sub | mul | div | mod => true
  | _ => false

def ofSymbol? (text : String) : Option Operator := all.find? (·.symbol == text)

def longestAt? (cs : List Char) : Option Operator :=
  [3, 2, 1].findSome? fun n => ofSymbol? (String.ofList (cs.take n))

theorem mem_all (op : Operator) : op ∈ all := by cases op <;> decide

theorem ofSymbol?_symbol (op : Operator) : ofSymbol? op.symbol = some op := by cases op <;> decide

theorem symbol_eq_of_ofSymbol? {s : String} {op : Operator} (h : ofSymbol? s = some op) :
    op.symbol = s := by
  simpa using List.find?_some h

theorem isBinary_iff (op : Operator) : op.isBinary ↔ ∃ p, op.binaryPrecedence? = some p := by
  cases op <;> simp [isBinary, binaryPrecedence?, precedence?]

theorem isBinary_of_compoundBase? {op base : Operator} (h : op.compoundBase? = some base) :
    base.isBinary := by
  cases op <;> simp [compoundBase?] at h <;> subst h <;> decide

end Operator

end Formula
