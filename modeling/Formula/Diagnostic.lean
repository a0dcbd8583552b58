import Formula.Span
import Formula.Diagnostic.Code

/-!
What is reported about a statement: a code, a message, labelled places in the source, and remarks.
-/

namespace Formula

inductive Severity where
  | error | warning | note
deriving DecidableEq, Repr

def Severity.name : Severity → String
  | error => "error"
  | warning => "warning"
  | note => "note"

/-- A remark on a place in the source. -/
structure Label where
  span : Span
  message : String
  isPrimary : Bool
deriving DecidableEq, Repr

structure Diagnostic where
  code : Code
  severity : Severity
  message : String
  labels : List Label
  notes : List String
  suggestions : List String
deriving DecidableEq, Repr

namespace Diagnostic

def error (code : Code) (message : String) : Diagnostic := ⟨code, .error, message, [], [], []⟩

def withLabel (d : Diagnostic) (span : Span) (message : String) : Diagnostic :=
  { d with labels := d.labels ++ [⟨span, message, true⟩] }

def withRelated (d : Diagnostic) (span : Span) (message : String) : Diagnostic :=
  { d with labels := d.labels ++ [⟨span, message, false⟩] }

def withNote (d : Diagnostic) (note : String) : Diagnostic := { d with notes := d.notes ++ [note] }

def withSuggestion (d : Diagnostic) (text : String) : Diagnostic :=
  { d with suggestions := d.suggestions ++ [text] }

/-- Names the statement that the diagnostic is about. -/
def inStatement (d : Diagnostic) (text : String) : Diagnostic :=
  d.withNote ("in statement `" ++ text ++ "`")

def primarySpan? (d : Diagnostic) : Option Span := (d.labels.find? (·.isPrimary)).map (·.span)

def isError (d : Diagnostic) : Bool := d.severity == .error

def headline (d : Diagnostic) : String := d.severity.name ++ "[" ++ d.code.text ++ "]: " ++ d.message

end Diagnostic

end Formula
