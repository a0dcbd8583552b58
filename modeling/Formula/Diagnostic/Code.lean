import Formula.Text.Blank
import Formula.Text.Case

/-!
Codes of everything that can go wrong with a formula. The first digit tells the phase, and with it
whether the failure is soft.
-/

namespace Formula

inductive Code where
  | unterminatedString | invalidCharacter | invalidNumber
  | unexpectedToken | expectedExpression | unclosedDelimiter | chainTooLong | invalidTarget
  | unmatchedClose
  | unknownVariable | unknownType | unknownMember | unknownMethod | unknownVariant
  | unregisteredType
  | conditionNotBool | notReadable | notWritable | notConvertible
  | zeroDivision | integerOverflow | invalidOperands | noOverload | hostFailure | shiftOutOfRange
  | loopLimit | assertionFailed
  | malformedProgram
deriving DecidableEq, Repr

/-- How a failure bears on the formula it occurs in. -/
inductive Category where
  | parsing | lookup | typing | runtime | internal
deriving DecidableEq, Repr

namespace Category

def name : Category → String
  | parsing => "parse"
  | lookup => "lookup"
  | typing => "type"
  | runtime => "runtime"
  | internal => "internal"

/-- A soft failure yields `null` for its statement; any other one ends the evaluation. -/
def isSoft : Category → Bool
  | parsing | lookup | typing => true
  | runtime | internal => false

end Category

namespace Code

def all : List Code :=
  [unterminatedString, invalidCharacter, invalidNumber, unexpectedToken, expectedExpression,
    unclosedDelimiter, chainTooLong, invalidTarget, unmatchedClose, unknownVariable,
    unknownType, unknownMember, unknownMethod, unknownVariant, unregisteredType,
    conditionNotBool, notReadable, notWritable, notConvertible, zeroDivision, integerOverflow,
    invalidOperands, noOverload, hostFailure, shiftOutOfRange, loopLimit, assertionFailed,
    malformedProgram]

def text : Code → String
  | unterminatedString => "E0001"
  | invalidCharacter => "E0002"
  | invalidNumber => "E0003"
  | unexpectedToken => "E1001"
  | expectedExpression => "E1002"
  | unclosedDelimiter => "E1003"
  | chainTooLong => "E1004"
  | invalidTarget => "E1005"
  | unmatchedClose => "E1006"
  | unknownVariable => "E2001"
  | unknownType => "E2002"
  | unknownMember => "E2003"
  | unknownMethod => "E2004"
  | unknownVariant => "E2005"
  | unregisteredType => "E2006"
  | conditionNotBool => "E3001"
  | notReadable => "E3002"
  | notWritable => "E3003"
  | notConvertible => "E3004"
  | zeroDivision => "E6001"
  | integerOverflow => "E6002"
  | invalidOperands => "E6003"
  | noOverload => "E6004"
  | hostFailure => "E6005"
  | shiftOutOfRange => "E6006"
  | loopLimit => "E6007"
  | assertionFailed => "E6008"
  | malformedProgram => "E9001"

def summary : Code → String
  | unterminatedString => "Unterminated string literal"
  | invalidCharacter => "Invalid character in formula"
  | invalidNumber => "Invalid number literal"
  | unexpectedToken => "Unexpected token"
  | expectedExpression => "Expected expression"
  | unclosedDelimiter => "Unclosed delimiter"
  | chainTooLong => "Member chain too long"
  | invalidTarget => "Invalid assignment target"
  | unmatchedClose => "Unmatched closing parenthesis"
  | unknownVariable => "Unknown variable"
  | unknownType => "Unknown type name"
  | unknownMember => "Unknown field or property"
  | unknownMethod => "Unknown method"
  | unknownVariant => "Unknown enum variant"
  | unregisteredType => "Type is not registered with the host"
  | conditionNotBool => "Ternary condition is not a boolean"
  | notReadable => "Member is not readable"
  | notWritable => "Member is not writable"
  | notConvertible => "Value cannot be converted to the target type"
  | zeroDivision => "Division or modulo by zero"
  | integerOverflow => "Integer overflow"
  | invalidOperands => "Invalid operands for operator"
  | noOverload => "No overload matches the argument types"
  | hostFailure => "Host member failed"
  | shiftOutOfRange => "Shift amount out of range"
  | loopLimit => "Loop iteration limit exceeded"
  | assertionFailed => "Assertion failed"
  | malformedProgram => "Malformed compiled program"

/-- The digit that tells the phase. -/
def phase : Code → Nat
  | unterminatedString | invalidCharacter | invalidNumber => 0
  | unexpectedToken | expectedExpression | unclosedDelimiter | chainTooLong | invalidTarget
  | unmatchedClose => 1
  | unknownVariable | unknownType | unknownMember | unknownMethod | unknownVariant
  | unregisteredType => 2
  | conditionNotBool | notReadable | notWritable | notConvertible => 3
  | zeroDivision | integerOverflow | invalidOperands | noOverload | hostFailure | shiftOutOfRange
  | loopLimit | assertionFailed => 6
  | malformedProgram => 9

def category (c : Code) : Category :=
  match c.phase with
  | 0 | 1 => .parsing
  | 2 => .lookup
  | 3 => .typing
  | 6 => .runtime
  | _ => .internal

def isSoft (c : Code) : Bool := c.category.isSoft

/-- The code that a text names, in either case and perhaps between blanks. -/
def ofText? (s : String) : Option Code :=
  let wanted := Text.toUpper (Text.trimmed s)
  all.find? (·.text == wanted)

theorem mem_all (c : Code) : c ∈ all := by cases c <;> decide

end Code

end Formula
