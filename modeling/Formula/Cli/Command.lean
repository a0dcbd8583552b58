import Formula.Builtin
import Formula.Cli.Args
import Formula.Diagnostic.Guide
import Formula.Diagnostic.Render
import Formula.Program.Listing

/-!
The commands of the program, as functions from arguments to what is written and the exit code.
-/

namespace Formula.Cli

/-- What a command writes to either stream, and whether it succeeds. -/
structure Outcome where
  succeeds : Bool
  output : String
  errors : String
deriving DecidableEq, Repr

def Outcome.exitCode (o : Outcome) : UInt8 := if o.succeeds then 0 else 1

/-- The command line has no objects of its own but lists. -/
def host : Host := ⟨Empty, Unit⟩

def lines (ls : List String) : String := String.join (ls.map (· ++ "\n"))

def usage : String :=
  lines
    ["Usage: fml <command> [arguments]",
      "",
      "Commands:",
      "  eval <formula> [name=value ...]     Evaluate and print one result per statement",
      "  compile <formula> [name=value ...]  Print the compiled program of each statement",
      "  tokens <formula>                    Print the token stream of each statement",
      "  explain <code>                      Describe an error code (e.g. E2001)",
      "",
      "Options (eval, compile):",
      "  --uid <id>        Call-site identity used as part of the cache key",
      "  --no-cache        Compile on every call",
      "  --max-hops <n>    Longest accepted member chain (default 100)",
      "",
      "Bindings:",
      "  x=3  r=2.5  ok=true  s=text  s='42'  v=null  xs=[1, 2, 3]",
      "  name:type=value declares the type, e.g. n:float=3 or m:Mode=Run",
      "",
      "Logging: RUST_LOG=fml_eval=debug, add FML_LOG_TREE=1 for a span tree."]

/-- Diagnostics below the lines of a formula. -/
def report (formula : String) (ds : List Diagnostic) : String :=
  Renderer.diagnostics ⟨false, some formula⟩ ds

/-- A bad command line that needs no reminder of the usage. -/
def refuse (e : UsageError) : Outcome := ⟨false, "", lines ["error: " ++ e.message]⟩

/-- Runs a command in the world of its bindings. -/
def withWorld (i : Invocation) (command : Engine host → Session host → Outcome) : Outcome :=
  let engine : Engine host := ⟨.builtins, i.config⟩
  match BindingArg.toBindings engine.registry.directory (.empty ()) .empty i.bindings with
  | .error e => refuse e
  | .ok world => command engine ⟨world, .empty⟩

def eval (i : Invocation) : Outcome :=
  withWorld i fun engine session =>
    match engine.evaluate i.uid i.formula session with
    | .ok e session =>
      ⟨true, lines (e.results.map session.world.memory.text), report i.formula e.diagnostics⟩
    | .error e _ => ⟨false, "", report i.formula [e.diagnostic]⟩

def statementHeading (n : Nat) (text : String) : String :=
  "statement " ++ toString n ++ ": `" ++ text ++ "`"

def compiledLines (s : CompiledStatement) (n : Nat) : List String :=
  [statementHeading n s.text,
    match s.outcome with
    | .ok p => "  " ++ Program.listing p
    | .error d => "  error[" ++ d.code.text ++ "]: " ++ d.message]

def compile (i : Invocation) : Outcome :=
  withWorld i fun engine session =>
    let f := engine.compileFor session.world.bindings i.formula
    ⟨true, lines (f.statements.zipIdx.flatMap fun (s, n) => compiledLines s n),
      report i.formula f.diagnostics⟩

def tokenLines (formula : String) (span : Span) (n : Nat) : List String × List Diagnostic :=
  let heading := statementHeading n (span.slice formula)
  match TokenList.scan formula span with
  | .ok ts => (heading :: ts.listing.map fun (listed, _, _) => "  " ++ listed, [])
  | .error e => ([heading, "  error[" ++ e.fault.code.text ++ "]"], [e.diagnostic])

def tokens (formula : String) : Outcome :=
  let shown := (Statement.split formula).zipIdx.map fun (span, n) => tokenLines formula span n
  ⟨true, lines (shown.flatMap (·.1)), report formula (shown.flatMap (·.2))⟩

def explain (text : String) : Outcome :=
  match Code.ofText? text with
  | none =>
    ⟨false, "",
      lines
        ["Unknown error code: " ++ text,
          "",
          "Codes have the format EXXXX where X is a digit.",
          "Examples: E0001, E1001, E2001, E6001"]⟩
  | some c => ⟨true, lines [c.explanation, "Category: " ++ c.category.name], ""⟩

def dispatch (command : String) (args : List String) : Except UsageError Outcome :=
  match command, args with
  | "eval", args => (Invocation.parse args).map eval
  | "compile", args => (Invocation.parse args).map compile
  | "tokens", [formula] => .ok (tokens formula)
  | "tokens", _ => .error (.arity "tokens <formula>")
  | "explain", [code] => .ok (explain code)
  | "explain", _ => .error (.arity "explain <code>")
  | "help", _ | "--help", _ | "-h", _ => .ok ⟨true, "", usage⟩
  | other, _ => .error (.unknownCommand other)

def run : List String → Outcome
  | [] => ⟨true, "", usage⟩
  | command :: args =>
    match dispatch command args with
    | .ok outcome => outcome
    | .error e => ⟨false, "", lines ["error: " ++ e.message, ""] ++ usage⟩

end Formula.Cli
