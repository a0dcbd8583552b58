import Formula.Expr
import Formula.Expr.Fault
import Formula.Program

/-!
Programs from expressions. Names are resolved on the way: a variable is loaded, and a name that is no
variable but a type is a type where a `.` follows it.
-/

namespace Formula

/-- What the names in a formula stand for. -/
structure Scope where
  isVariable : String → Bool
  type? : String → Option TypeTag

namespace Scope

/-- `a`, provided that `name` is a variable. -/
def variableOr {α : Type} (scope : Scope) (span : Span) (name : String) (a : α) : Except ParseError α :=
  if scope.isVariable name then .ok a else .error ⟨span, .unknownVariable name⟩

def typeNamed (scope : Scope) (span : Span) (name : String) (fault : String → ParseFault) :
    Except ParseError TypeTag :=
  match scope.type? name with
  | some tag => .ok tag
  | none => .error ⟨span, fault name⟩

/-- Before a `.`, a name that is no variable stands for a type. -/
def static? (scope : Scope) : Expr → Option (Span × Except ParseError TypeTag)
  | .ident span name =>
    if scope.isVariable name then none
    else some (span, scope.typeNamed span name .unknownVariable)
  | _ => none

def typeArgs (scope : Scope) : List TypeArg → Except ParseError (List TypeTag)
  | [] => .ok []
  | a :: as => do
    let tag ← scope.typeNamed a.span a.name .unknownType
    let tags ← typeArgs scope as
    .ok (tag :: tags)

end Scope

mutual

def Program.ofExpr (scope : Scope) (e : Expr) : Except ParseError Program :=
  match e with
  | .literal span value => .ok [.push span value]
  | .ident span name => scope.variableOr span name [.load span name]
  | .binary span op left right => do
    let l ← Program.ofExpr scope left
    let r ← Program.ofExpr scope right
    .ok (l ++ r ++ [.binary span op])
  | .assign span target value => do
    let place ← Place.ofTarget scope target
    let v ← Program.ofExpr scope value
    .ok [.assign span place v]
  | .ternary span cond yes no => do
    let c ← Program.ofExpr scope cond
    let y ← Program.ofExpr scope yes
    let n ← Program.ofExpr scope no
    .ok [.ternary span c y n]
  | .member span receiver name => do
    let r ← Program.ofReceiver scope receiver
    .ok (r ++ [.get span name])
  | .call span receiver method typeArgs args => do
    let r ← Program.ofReceiver scope receiver
    let tags ← scope.typeArgs typeArgs
    let as ← Program.ofArguments scope args
    .ok (r ++ [.call span method tags as])
termination_by (sizeOf e, 0)

/-- The code for what stands before a `.`. -/
def Program.ofReceiver (scope : Scope) (e : Expr) : Except ParseError Program :=
  match scope.static? e with
  | some (span, tag) => do .ok [.loadType span (← tag)]
  | none => Program.ofExpr scope e
termination_by (sizeOf e, 1)

def Program.ofArguments (scope : Scope) (es : List Expr) : Except ParseError (List Program) :=
  match es with
  | [] => .ok []
  | e :: es => do
    let p ← Program.ofExpr scope e
    let ps ← Program.ofArguments scope es
    .ok (p :: ps)
termination_by (sizeOf es, 0)

/-- The place that an assignment writes to. -/
def Place.ofTarget (scope : Scope) (e : Expr) : Except ParseError Place :=
  match e with
  | .ident span name => scope.variableOr span name (.var name)
  | .member span receiver name => do .ok (.member (← Place.ofOwner scope receiver) name span)
  | e => .error ⟨e.span, .notAssignable⟩
termination_by (sizeOf e, 0)

/-- The owner of a member that is written to: a type, a place, or else a computed object. -/
def Place.ofOwner (scope : Scope) (e : Expr) : Except ParseError Place :=
  match scope.static? e with
  | some (_, tag) => do .ok (.static (← tag))
  | none =>
    if e.isPlace then Place.ofTarget scope e
    else do .ok (.computed (← Program.ofExpr scope e))
termination_by (sizeOf e, 1)

end

end Formula
