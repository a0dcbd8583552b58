import Formula.Diagnostic
import Formula.Token

/-!
Why a statement that has been scanned does not compile.
-/

namespace Formula

/-- What a parser looks for where it finds something else. -/
inductive Expectation where
  | operand
  | memberName
  | operatorOrEnd
deriving DecidableEq, Repr

inductive ParseFault where
  | unexpected (wanted : Expectation) (found : String)
  | missingColon (found : String)
  | missingOperand (found : String)
  | unclosedParen (opened : Span) (found : String)
  | unmatchedParen
  | chainTooLong (limit : Nat)
  | notAssignable
  | unknownVariable (name : String)
  | unknownType (name : String)
deriving DecidableEq, Repr

structure ParseError where
  span : Span
  fault : ParseFault
deriving DecidableEq, Repr

namespace ParseFault

def code : ParseFault → Code
  | unexpected _ _ | missingColon _ => .unexpectedToken
  | missingOperand _ => .expectedExpression
  | unclosedParen _ _ => .unclosedDelimiter
  | unmatchedParen => .unmatchedClose
  | chainTooLong _ => .chainTooLong
  | notAssignable => .invalidTarget
  | unknownVariable _ => .unknownVariable
  | unknownType _ => .unknownType

def message : ParseFault → String
  | unexpected _ found => "unexpected " ++ found
  | missingColon found => "expected " ++ (Token.Kind.mark .colon).describe ++ ", found " ++ found
  | missingOperand found => "expected expression, found " ++ found
  | unclosedParen _ found => "unclosed `(`: expected `)`, found " ++ found
  | unmatchedParen => "unmatched `)`"
  | chainTooLong limit => "member chain exceeds " ++ toString limit ++ " hops"
  | notAssignable => "invalid assignment target"
  | unknownVariable name => "unknown variable `" ++ name ++ "`"
  | unknownType name => "unknown type `" ++ name ++ "`"

def labelText : ParseFault → String
  | unexpected .memberName _ => "expected a member name after `.`"
  | unexpected .operatorOrEnd _ => "expected an operator or end of statement"
  | missingOperand _ => "expected an operand here"
  | unmatchedParen => "no `(` to close"
  | notAssignable => "only a variable or a field/property can be assigned"
  | unknownVariable _ => "not a binding"
  | unknownType _ => "not a primitive or registered type"
  | _ => "here"

end ParseFault

def ParseError.diagnostic (e : ParseError) : Diagnostic :=
  let d := (Diagnostic.error e.fault.code e.fault.message).withLabel e.span e.fault.labelText
  match e.fault with
  | .unclosedParen opened _ => d.withRelated opened "`(` opened here"
  | .chainTooLong _ => d.withNote "the chain is treated as malformed or cyclic"
  | _ => d

end Formula
