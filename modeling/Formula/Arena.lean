import Formula.Program.OfExpr

/-!
Expressions as nodes in an arena that refer to one another by their ids. More than one node may refer to
a node: what a compound assignment writes to is an operand of it as well.
-/

namespace Formula

namespace Arena

/-- An expression with the ids of its parts in place of them. -/
inductive Form where
  | literal (value : Literal)
  | ident (name : String)
  | binary (op : Operator) (left right : Nat)
  | assign (target value : Nat)
  | ternary (cond yes no : Nat)
  | member (receiver : Nat) (name : String)
  | call (receiver : Nat) (method : String) (typeArgs : List TypeArg) (args : List Nat)

def Form.isPlace : Form → Bool
  | ident _ => true
  | member _ _ => true
  | _ => false

structure Node where
  form : Form
  span : Span

/-- Before a `.`, a name that is no variable stands for a type. -/
def Node.static? (scope : Scope) (node : Node) : Option (Except ParseError TypeTag) :=
  match node.form with
  | .ident name =>
    if scope.isVariable name then none
    else some (scope.typeNamed node.span name .unknownVariable)
  | _ => none

end Arena

structure Arena where
  nodes : Array Arena.Node

namespace Arena

def empty : Arena := ⟨#[]⟩

def size (a : Arena) : Nat := a.nodes.size

def get? (a : Arena) (id : Nat) : Option Node := a.nodes[id]?

def push (a : Arena) (node : Node) : Arena := ⟨a.nodes.push node⟩

/-- Ids are numbers of 32 bits. -/
def lastId : Nat := 0xFFFFFFFF

/-- The id of the node that is pushed next. When there are no ids left, nodes share the last one. -/
def nextId (a : Arena) : Nat := min a.size lastId

/-- The expression with every grouping in parentheses. There is none if an id stands for no node, or if
nodes are nested deeper than `depth`. -/
def text (a : Arena) : Nat → Nat → Option String
  | 0, _ => none
  | depth + 1, id => do
    match (← a.get? id).form with
    | .literal value => return value.text
    | .ident name => return name
    | .binary op left right =>
      return "(" ++ (← a.text depth left) ++ " " ++ op.symbol ++ " " ++ (← a.text depth right) ++ ")"
    | .assign target value =>
      return "(" ++ (← a.text depth target) ++ " = " ++ (← a.text depth value) ++ ")"
    | .ternary cond yes no =>
      return "(" ++ (← a.text depth cond) ++ " ? " ++ (← a.text depth yes) ++ " : " ++
        (← a.text depth no) ++ ")"
    | .member receiver name => return (← a.text depth receiver) ++ "." ++ name
    | .call receiver method typeArgs args =>
      return (← a.text depth receiver) ++ "." ++ method ++ Expr.typeArgsText typeArgs ++ "(" ++
        ", ".intercalate (← args.mapM (a.text depth)) ++ ")"

/-- There is no outcome if an id stands for no node, or if calls are nested too deep. -/
abbrev Lowering (α : Type) := ExceptT ParseError Option α

def Lowering.none {α : Type} : Lowering α := liftM (Option.none : Option α)

section

variable (a : Arena) (scope : Scope)

-- The first number is how deep calls may be nested.
mutual

def program : Nat → Nat → Lowering Program
  | 0, _ => .none
  | depth + 1, id => do
    let node ← a.get? id
    match node.form with
    | .literal value => return [.push node.span value]
    | .ident name => scope.variableOr node.span name [.load node.span name]
    | .binary op left right =>
      return (← program depth left) ++ (← program depth right) ++ [.binary node.span op]
    | .assign target value =>
      return [.assign node.span (← place depth target) (← program depth value)]
    | .ternary cond yes no =>
      return [.ternary node.span (← program depth cond) (← program depth yes) (← program depth no)]
    | .member receiver name => return (← receiverProgram depth receiver) ++ [.get node.span name]
    | .call receiver method typeArgs args =>
      let p ← receiverProgram depth receiver
      let tags ← scope.typeArgs typeArgs
      let ps ← args.mapM (program depth)
      return p ++ [.call node.span method tags ps]
termination_by structural depth => depth

/-- The code for what stands before a `.`. -/
def receiverProgram : Nat → Nat → Lowering Program
  | 0, _ => .none
  | depth + 1, id => do
    let node ← a.get? id
    match node.static? scope with
    | some tag => return [.loadType node.span (← tag)]
    | none => program depth id
termination_by structural depth => depth

/-- The place that an assignment writes to. -/
def place : Nat → Nat → Lowering Place
  | 0, _ => .none
  | depth + 1, id => do
    let node ← a.get? id
    match node.form with
    | .ident name => scope.variableOr node.span name (.var name)
    | .member receiver name => return .member (← owner depth receiver) name node.span
    | _ => throw ⟨node.span, .notAssignable⟩
termination_by structural depth => depth

/-- The owner of a member that is written to: a type, a place, or else a computed object. -/
def owner : Nat → Nat → Lowering Place
  | 0, _ => .none
  | depth + 1, id => do
    let node ← a.get? id
    match node.static? scope with
    | some tag => return .static (← tag)
    | none => if node.form.isPlace then place depth id else return .computed (← program depth id)
termination_by structural depth => depth

end

end

end Arena

end Formula
