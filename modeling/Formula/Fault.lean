import Formula.Diagnostic
import Formula.Operator

/-!
What can go wrong while a statement runs. A fault says what happened; an error says where as well.
-/

namespace Formula

inductive Fault where
  | unknownVariable (name : String)
  | unknownType (name : String)
  | unknownMember (member typeName : String)
  | unknownMethod (method typeName : String)
  | unknownVariant (enumName variant : String)
  | unregisteredType (typeName : String)
  | conditionNotBool (found : String)
  | notReadable (member typeName : String)
  | notWritable (member typeName : String)
  | notConvertible (value target : String)
  | zeroDivision (operation : String)
  | integerOverflow (operation : String)
  | invalidOperands (op : Operator) (left right : String)
  | noOverload (method typeName args : String)
  | hostFailure (message : String)
  | shiftOutOfRange (amount : Int)
  | loopLimit (limit : Nat)
  | assertionFailed (statement found : String)
  /-- A program that no formula compiles to, or a host that breaks its own contract. -/
  | internal (message : String)
deriving DecidableEq, Repr, Inhabited

namespace Fault

def code : Fault → Code
  | unknownVariable _ => .unknownVariable
  | unknownType _ => .unknownType
  | unknownMember _ _ => .unknownMember
  | unknownMethod _ _ => .unknownMethod
  | unknownVariant _ _ => .unknownVariant
  | unregisteredType _ => .unregisteredType
  | conditionNotBool _ => .conditionNotBool
  | notReadable _ _ => .notReadable
  | notWritable _ _ => .notWritable
  | notConvertible _ _ => .notConvertible
  | zeroDivision _ => .zeroDivision
  | integerOverflow _ => .integerOverflow
  | invalidOperands _ _ _ => .invalidOperands
  | noOverload _ _ _ => .noOverload
  | hostFailure _ => .hostFailure
  | shiftOutOfRange _ => .shiftOutOfRange
  | loopLimit _ => .loopLimit
  | assertionFailed _ _ => .assertionFailed
  | internal _ => .malformedProgram

def isSoft (f : Fault) : Bool := f.code.isSoft

def message : Fault → String
  | unknownVariable name => "unknown variable `" ++ name ++ "`"
  | unknownType name => "unknown type `" ++ name ++ "`"
  | unknownMember member typeName =>
    "`" ++ typeName ++ "` has no field or property `" ++ member ++ "`"
  | unknownMethod method typeName => "`" ++ typeName ++ "` has no method `" ++ method ++ "`"
  | unknownVariant enumName variant => "`" ++ enumName ++ "` has no variant `" ++ variant ++ "`"
  | unregisteredType typeName => "type `" ++ typeName ++ "` is not registered with the host"
  | conditionNotBool found => "ternary condition must be a bool, found `" ++ found ++ "`"
  | notReadable member typeName => "`" ++ typeName ++ "." ++ member ++ "` is not readable"
  | notWritable member typeName => "`" ++ typeName ++ "." ++ member ++ "` is not writable"
  | notConvertible value target => "cannot convert " ++ value ++ " to `" ++ target ++ "`"
  | zeroDivision operation => operation ++ " by zero"
  | integerOverflow operation => "integer overflow in " ++ operation
  | invalidOperands op left right =>
    "operator `" ++ op.symbol ++ "` cannot be applied to `" ++ left ++ "` and `" ++ right ++ "`"
  | noOverload method typeName args =>
    "no overload of `" ++ typeName ++ "." ++ method ++ "` accepts (" ++ args ++ ")"
  | hostFailure message => message
  | shiftOutOfRange amount => "shift amount " ++ toString amount ++ " out of range (0-63)"
  | loopLimit limit => "loop exceeded " ++ toString limit ++ " iterations"
  | assertionFailed statement found =>
    "assertion failed: `" ++ statement ++ "` produced " ++ found
  | internal message => "internal error: " ++ message

def indexOutOfRange (index : Int) (length : Nat) : Fault :=
  hostFailure ("index " ++ toString index ++ " out of range for length " ++ toString length)

end Fault

/-- A fault, with its place and the text of its statement once they are known. -/
structure EvalError where
  fault : Fault
  span? : Option Span
  statement? : Option String
deriving DecidableEq, Repr, Inhabited

namespace EvalError

def of (f : Fault) : EvalError := ⟨f, none, none⟩

/-- The place of an error that has none yet: the innermost one counts. -/
def orSpan (e : EvalError) (span : Span) : EvalError := { e with span? := e.span?.or (some span) }

def inStatement (e : EvalError) (text : String) : EvalError :=
  { e with statement? := e.statement?.or (some text) }

/-- The code's summary in lower case marks the place. -/
def diagnostic (e : EvalError) : Diagnostic :=
  let d := Diagnostic.error e.fault.code e.fault.message
  let d := match e.span? with
    | some span => d.withLabel span (Text.toLower e.fault.code.summary)
    | none => d
  match e.statement? with
  | some text => d.inStatement text
  | none => d

theorem orSpan_orSpan (e : EvalError) (s t : Span) : (e.orSpan s).orSpan t = e.orSpan s := by
  cases e with
  | mk fault span? statement? => cases span? <;> rfl

end EvalError

end Formula
