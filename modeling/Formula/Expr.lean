import Formula.Literal
import Formula.Operator
import Formula.Span

/-!
Expression trees. Prefix operators and compound assignments have no node of their own: they stand for
binary operations and plain assignments.
-/

namespace Formula

structure TypeArg where
  name : String
  span : Span
deriving DecidableEq, Repr, Inhabited

inductive Expr where
  | literal (span : Span) (value : Literal)
  | ident (span : Span) (name : String)
  | binary (span : Span) (op : Operator) (left right : Expr)
  | assign (span : Span) (target value : Expr)
  | ternary (span : Span) (cond yes no : Expr)
  | member (span : Span) (receiver : Expr) (name : String)
  | call (span : Span) (receiver : Expr) (method : String) (typeArgs : List TypeArg)
      (args : List Expr)
deriving Inhabited

namespace Expr

def span : Expr → Span
  | literal s _ => s
  | ident s _ => s
  | binary s _ _ _ => s
  | assign s _ _ => s
  | ternary s _ _ _ => s
  | member s _ _ => s
  | call s _ _ _ _ => s

def isPlace : Expr → Bool
  | ident _ _ => true
  | member _ _ _ => true
  | _ => false

def typeArgsText (args : List TypeArg) : String :=
  if args.isEmpty then "" else "<" ++ ", ".intercalate (args.map (·.name)) ++ ">"

mutual

/-- The expression with every grouping in parentheses. -/
def text : Expr → String
  | literal _ value => value.text
  | ident _ name => name
  | binary _ op left right => "(" ++ left.text ++ " " ++ op.symbol ++ " " ++ right.text ++ ")"
  | assign _ target value => "(" ++ target.text ++ " = " ++ value.text ++ ")"
  | ternary _ cond yes no => "(" ++ cond.text ++ " ? " ++ yes.text ++ " : " ++ no.text ++ ")"
  | member _ receiver name => receiver.text ++ "." ++ name
  | call _ receiver method typeArgs args =>
    receiver.text ++ "." ++ method ++ typeArgsText typeArgs ++ "(" ++ ", ".intercalate (texts args) ++
      ")"

def texts : List Expr → List String
  | [] => []
  | e :: es => e.text :: texts es

end

def headText : Expr → String
  | literal _ value => "literal " ++ value.typeName ++ " " ++ value.text
  | ident _ name => "ident " ++ name
  | binary _ op _ _ => "binary " ++ op.symbol
  | assign _ _ _ => "assign"
  | ternary _ _ _ _ => "ternary"
  | member _ _ name => "member " ++ name
  | call _ _ method typeArgs args =>
    let shown := typeArgs.map fun a => a.name ++ "@" ++ a.span.text
    "call " ++ method ++ "<" ++ ",".intercalate shown ++ ">/" ++ toString args.length

mutual

/-- The nodes in preorder, a line for each with its place. -/
def lines : Expr → List String
  | e@(literal _ _) => [nodeLine e]
  | e@(ident _ _) => [nodeLine e]
  | e@(binary _ _ left right) => nodeLine e :: (left.lines ++ right.lines)
  | e@(assign _ target value) => nodeLine e :: (target.lines ++ value.lines)
  | e@(ternary _ cond yes no) => nodeLine e :: (cond.lines ++ yes.lines ++ no.lines)
  | e@(member _ receiver _) => nodeLine e :: receiver.lines
  | e@(call _ receiver _ _ args) => nodeLine e :: (receiver.lines ++ allLines args)
where
  nodeLine (e : Expr) : String := e.headText ++ " @ " ++ e.span.text

def allLines : List Expr → List String
  | [] => []
  | e :: es => e.lines ++ allLines es

end

end Expr

end Formula
