import Formula.Expr.Parse
import Formula.Program.OfExpr
import Formula.Statement
import Formula.Token.Scan

/-!
Compiled formulas. Each statement is compiled by itself; one that fails keeps its diagnostic and does
not concern the others.
-/

namespace Formula

def Expr.ofSource (maxHops : Nat) (source : String) (span : Span) : Except Diagnostic Expr :=
  match TokenList.scan source span with
  | .error e => .error e.diagnostic
  | .ok ts =>
    match Expr.ofTokens maxHops ts with
    | .error e => .error e.diagnostic
    | .ok e => .ok e

def Program.ofSource (maxHops : Nat) (scope : Scope) (source : String) (span : Span) :
    Except Diagnostic Program :=
  match Expr.ofSource maxHops source span with
  | .error d => .error d
  | .ok e =>
    match Program.ofExpr scope e with
    | .error e => .error e.diagnostic
    | .ok p => .ok p

structure CompiledStatement where
  span : Span
  text : String
  outcome : Except Diagnostic Program
deriving Inhabited

structure CompiledFormula where
  source : String
  statements : List CompiledStatement
deriving Inhabited

namespace CompiledStatement

def diagnostic? (s : CompiledStatement) : Option Diagnostic :=
  match s.outcome with
  | .ok _ => none
  | .error d => some d

def compile (maxHops : Nat) (scope : Scope) (source : String) (span : Span) : CompiledStatement :=
  let text := span.slice source
  ⟨span, text, (Program.ofSource maxHops scope source span).mapError (·.inStatement text)⟩

end CompiledStatement

namespace CompiledFormula

def compile (maxHops : Nat) (scope : Scope) (source : String) : CompiledFormula :=
  ⟨source, (Statement.split source).map (CompiledStatement.compile maxHops scope source)⟩

def diagnostics (f : CompiledFormula) : List Diagnostic := f.statements.filterMap (·.diagnostic?)

end CompiledFormula

end Formula
