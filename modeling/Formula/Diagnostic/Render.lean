import Formula.Diagnostic
import Formula.Diagnostic.Snippet

/-!
Diagnostics as text for a terminal. If the source is at hand, each label is shown below its line.
-/

namespace Formula

inductive ColorMode where
  | auto | always | never
deriving DecidableEq, Repr

def ColorMode.isColored (isTerminal : Bool) : ColorMode → Bool
  | auto => isTerminal
  | always => true
  | never => false

inductive Style where
  | error | warning | note | help | bold | secondary
deriving DecidableEq, Repr

def Style.code : Style → String
  | error => "\x1b[1;31m"
  | warning => "\x1b[1;33m"
  | note => "\x1b[1;36m"
  | help => "\x1b[1;32m"
  | bold => "\x1b[1m"
  | secondary => "\x1b[1;34m"

def Severity.style : Severity → Style
  | error => .error
  | warning => .warning
  | note => .note

structure Renderer where
  isColored : Bool
  source? : Option String

namespace Renderer

def paint (r : Renderer) (style : Style) (text : String) : String :=
  if r.isColored then style.code ++ text ++ "\x1b[0m" else text

def labelStyle (l : Label) : Style := if l.isPrimary then .error else .secondary

/-- A label below the line it begins on. A label that begins nowhere in the source is left out. -/
def snippet (r : Renderer) (source : String) (l : Label) : String :=
  match Snippet.find? source l.span with
  | none => ""
  | some s =>
    let marks := s.underline (if l.isPrimary then '^' else '-')
    s.gutter ++ " |\n" ++
      toString s.line ++ " | " ++ String.ofList s.text ++ "\n" ++
      s.gutter ++ " | " ++ String.ofList (List.replicate s.column ' ') ++
        r.paint (labelStyle l) (marks ++ " " ++ l.message) ++ "\n"

def offsets (r : Renderer) (l : Label) : String :=
  "  " ++ (if l.isPrimary then "-->" else "   ") ++ " " ++ l.span.text ++ ": " ++
    r.paint (labelStyle l) l.message ++ "\n"

def label (r : Renderer) (l : Label) : String :=
  match r.source? with
  | some source => r.snippet source l
  | none => r.offsets l

def remark (r : Renderer) (style : Style) (kind text : String) : String :=
  "  = " ++ r.paint style kind ++ ": " ++ text ++ "\n"

def diagnostic (r : Renderer) (d : Diagnostic) : String :=
  r.paint d.severity.style d.severity.name ++ r.paint .bold ("[" ++ d.code.text ++ "]") ++ ": " ++
    d.message ++ "\n" ++
    String.join (d.labels.map r.label) ++
    String.join (d.notes.map (r.remark .bold "note")) ++
    String.join (d.suggestions.map (r.remark .help "help")) ++ "\n"

def diagnostics (r : Renderer) (ds : List Diagnostic) : String := String.join (ds.map r.diagnostic)

/-- A noun in the number that goes with a count. -/
def counted (n : Nat) (noun : String) : String :=
  toString n ++ " " ++ noun ++ if n = 1 then "" else "s"

/-- A line for failures and one for warnings, if there were any. -/
def summary (r : Renderer) (errors warnings : Nat) : String :=
  (if errors = 0 then "" else r.paint .error "error" ++ ": " ++ counted errors "statement" ++ " failed\n")
    ++ if warnings = 0 then ""
      else r.paint .warning "warning" ++ ": " ++ counted warnings "warning" ++ " emitted\n"

end Renderer

end Formula
