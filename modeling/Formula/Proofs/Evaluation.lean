import Formula.Program.OfExpr
import Formula.Program.Run

/-!
Evaluation of expression trees without programs. Operands come from left to right, arguments after
their receiver, and an assigned value before its target is read; of two branches only one is evaluated.
-/

namespace Formula

namespace Scope

/-- The type that an expression stands for before a `.`. -/
def typeRoot? (scope : Scope) : Expr → Option TypeTag
  | .ident _ name => if scope.isVariable name then none else scope.type? name
  | _ => none

def tags (scope : Scope) (typeArgs : List TypeArg) : List TypeTag :=
  typeArgs.filterMap fun a => scope.type? a.name

end Scope

namespace Expr

variable {H : Host}

mutual

def eval (r : Registry H) (scope : Scope) (e : Expr) : Eval H Value :=
  match e with
  | .literal _ value => return .ofLiteral value
  | .ident span name => (Eval.load r name).located span
  | .binary span op left right => do
    let a ← left.eval r scope
    let b ← right.eval r scope
    Eval.located span do a.binary (← Eval.memory) op b
  | .assign span target value =>
    Eval.located span do
      let v ← value.eval r scope
      target.assignTo r scope v
  | .ternary span cond yes no =>
    Eval.located span do
      let c ← cond.eval r scope
      Eval.choose c (yes.eval r scope) (no.eval r scope)
  | .member span receiver name => do
    let o ← receiver.evalReceiver r scope
    (Eval.access r o name).located span
  | .call span receiver method typeArgs args => do
    let o ← receiver.evalReceiver r scope
    Eval.located span do
      Eval.checkReceiver o method
      let _ ← r.typeOf o
      let vs ← evalArgs r scope args
      Eval.invoke r o method (scope.tags typeArgs) vs
termination_by (sizeOf e, 0)

def evalReceiver (r : Registry H) (scope : Scope) (e : Expr) : Eval H Value :=
  match scope.typeRoot? e with
  | some tag => return .typeRoot tag
  | none => e.eval r scope
termination_by (sizeOf e, 1)

def evalArgs (r : Registry H) (scope : Scope) (es : List Expr) : Eval H (List Value) :=
  match es with
  | [] => return []
  | e :: es => do
    let v ← e.eval r scope
    r.directory.checkAllowed v
    return v :: (← evalArgs r scope es)
termination_by (sizeOf es, 0)

/-- The current value of the owner of a member that is written to. -/
def evalOwner (r : Registry H) (scope : Scope) (e : Expr) : Eval H Value :=
  match scope.typeRoot? e with
  | some tag => return .typeRoot tag
  | none =>
    match _he : e with
    | .ident _ name => Eval.load r name
    | .member _ owner name => do
      let o ← owner.evalOwner r scope
      Eval.readMember r o name
    | e' => e'.eval r scope
termination_by (sizeOf e, 1)
decreasing_by
  · exact Prod.Lex.left _ _ (by simp +arith)
  · exact _he ▸ Prod.Lex.right _ (by decide)

/-- Stores a changed object of a value type in what it was read from, and so on up the chain. -/
def giveBack (r : Registry H) (scope : Scope) (e : Expr) (v : Value) : Eval H Unit :=
  if (scope.typeRoot? e).isNone && r.directory.holdsValueType v then
    match e with
    | .ident _ name => do
      let _ ← Eval.lookup name
      Eval.store name v
    | .member _ owner name => do
      let o ← owner.evalOwner r scope
      Eval.writeMember r o name v
      owner.giveBack r scope o
    | _ => return ()
  else return ()
termination_by (sizeOf e, 0)

/-- Stores a value in a variable or a member and yields what is stored. Nothing else can be assigned
to. -/
def assignTo (r : Registry H) (scope : Scope) (e : Expr) (v : Value) : Eval H Value :=
  match e with
  | .ident _ name => Eval.updateVariable r name v
  | .member span owner name =>
    Eval.located span do
      let o ← owner.evalOwner r scope
      let new ← Eval.updateMember r o name v
      owner.giveBack r scope o
      return new
  | _ => return v
termination_by (sizeOf e, 0)

end

section

variable (r : Registry H) {scope : Scope}

theorem evalOwner_of_typeRoot {e : Expr} {tag : TypeTag} (h : scope.typeRoot? e = some tag) :
    e.evalOwner r scope = pure (.typeRoot tag) := by
  cases e with
  | ident => rw [evalOwner, h]
  | literal | binary | assign | ternary | member | call => simp [Scope.typeRoot?] at h

theorem evalOwner_of_not_place {e : Expr} (h : e.isPlace = false) :
    e.evalOwner r scope = e.eval r scope := by
  cases e with
  | ident | member => simp [isPlace] at h
  | literal | binary | assign | ternary | call => simp [evalOwner, Scope.typeRoot?]

theorem giveBack_of_typeRoot {e : Expr} {tag : TypeTag} (h : scope.typeRoot? e = some tag)
    (v : Value) : e.giveBack r scope v = pure () := by
  cases e with
  | ident => simp [giveBack, h]
  | literal | binary | assign | ternary | member | call => simp [Scope.typeRoot?] at h

theorem giveBack_of_not_place {e : Expr} (h : e.isPlace = false) (v : Value) :
    e.giveBack r scope v = pure () := by
  cases e with
  | ident | member => simp [isPlace] at h
  | literal | binary | assign | ternary | call => simp [giveBack]

end

end Expr

end Formula
