import Formula.Bindings
import Formula.Host.Call
import Formula.Host.Overload
import Formula.Program
import Formula.Value.Binary
import Formula.Value.Convert

/-!
What programs do. They run against registered types, and change variables and memory; whatever they
changed before an error stays changed.
-/

namespace Formula

structure World (H : Host) where
  memory : Memory H
  bindings : Bindings

abbrev Eval (H : Host) := EStateM EvalError (World H)

namespace Eval

variable {H : Host} {α : Type}

def fail (f : Fault) : Eval H α := throw (.of f)

def ofExcept (x : Except Fault α) : Eval H α :=
  match x with
  | .ok a => pure a
  | .error f => fail f

/-- What a host does leaves the variables alone. -/
def ofAction (x : Action H α) : Eval H α := fun w =>
  match x w.memory with
  | .ok a m => .ok a { w with memory := m }
  | .error f m => .error (.of f) { w with memory := m }

instance : MonadLift (Except Fault) (Eval H) := ⟨ofExcept⟩

instance : MonadLift (Action H) (Eval H) := ⟨ofAction⟩

/-- Gives errors without a place the place `span`. -/
def located (span : Span) (x : Eval H α) : Eval H α := fun w =>
  match x w with
  | .ok a w' => .ok a w'
  | .error e w' => .error (e.orSpan span) w'

/-- Names the statement of an error. -/
def inStatement (text : String) (x : Eval H α) : Eval H α := fun w =>
  match x w with
  | .ok a w' => .ok a w'
  | .error e w' => .error (e.inStatement text) w'

def memory : Eval H (Memory H) := return (← get).memory

def lookup (name : String) : Eval H Variable := do
  match (← get).bindings.find? name with
  | some x => return x
  | none => fail (.unknownVariable name)

def store (name : String) (v : Value) : Eval H Unit :=
  modify fun w => { w with bindings := w.bindings.store name v }

/-- The value of a variable; an object of a value type is copied. -/
def load (r : Registry H) (name : String) : Eval H Value := do
  let x ← lookup name
  r.directory.checkAllowed x.get
  r.copyOnLoad x.get

/-- The type of an owner and the member of a name: a static one if the owner is a type. -/
def findMember (r : Registry H) (owner : Value) (name : String) :
    Except Fault (HostType H × Member H) := do
  let t ← r.typeOf owner
  match if owner.isTypeRoot then t.staticMember? name else t.member? name with
  | some m => .ok (t, m)
  | none => .error (.unknownMember name t.tag.name)

def readMember (r : Registry H) (owner : Value) (name : String) : Eval H Value := do
  let (t, m) ← findMember r owner name
  m.get owner t.tag.name

def writeMember (r : Registry H) (owner : Value) (name : String) (v : Value) : Eval H Unit := do
  let (t, m) ← findMember r owner name
  m.set owner v t.tag.name

/-- Stores a value in a member, converted to the type of what is there now. A member that cannot be
read takes any value. -/
def updateMember (r : Registry H) (owner : Value) (name : String) (v : Value) : Eval H Value := do
  let (t, m) ← findMember r owner name
  if !m.isWritable then fail (.notWritable name t.tag.name)
  let new ←
    if m.isReadable then do
      let current ← m.get owner t.tag.name
      v.convert r.directory (← memory) current.typeTag
    else pure v
  r.directory.checkAllowed new
  m.set owner new t.tag.name
  return new

/-- Refuses what no member or method of null can be. -/
def checkReceiver (receiver : Value) (name : String) : Eval H Unit := do
  if receiver.isNull then fail (.hostFailure ("cannot access `" ++ name ++ "` on null"))

def access (r : Registry H) (receiver : Value) (name : String) : Eval H Value := do
  checkReceiver receiver name
  let v ← readMember r receiver name
  r.directory.checkAllowed v
  return v

/-- The result of a method. A void method yields its receiver. -/
def invoke (r : Registry H) (receiver : Value) (name : String) (typeArgs : List TypeTag)
    (args : List Value) : Eval H Value := do
  let t ← r.typeOf receiver
  let overloads? := if receiver.isTypeRoot then t.staticMethods? name else t.methods? name
  let (f, args) ← Method.select r.directory t.tag.name name overloads? args typeArgs
  let result ← f.body ⟨receiver, args, typeArgs, r.directory⟩
  let v := if f.isVoid then receiver else result
  r.directory.checkAllowed v
  return v

/-- Stores a value in a variable, converted to the declared type. -/
def updateVariable (r : Registry H) (name : String) (v : Value) : Eval H Value := do
  let x ← lookup name
  let new ← v.convert r.directory (← memory) x.type
  store name new
  return new

def choose (cond : Value) (yes no : Eval H Value) : Eval H Value :=
  match cond with
  | .bool true => yes
  | .bool false => no
  | v => fail (.conditionNotBool v.typeName)

end Eval

/-- The single value that a program has to leave. -/
def Program.result : List Value → Except Fault Value
  | [v] => .ok v
  | [] => .error (.internal "empty program")
  | _ :: vs => .error (.internal (toString vs.length ++ " values left on the stack"))

variable {H : Host}

mutual

def Instr.step (r : Registry H) : Instr → List Value → Eval H (List Value)
  | .push _ c, stack => return .ofLiteral c :: stack
  | .load _ name, stack => return (← Eval.load r name) :: stack
  | .loadType _ tag, stack => return .typeRoot tag :: stack
  | .binary _ op, right :: left :: stack => do
    return (← left.binary (← Eval.memory) op right) :: stack
  | .get _ name, receiver :: stack => return (← Eval.access r receiver name) :: stack
  | .call _ name typeArgs args, receiver :: stack => do
    Eval.checkReceiver receiver name
    let _ ← r.typeOf receiver
    let args ← Program.runAll r args
    return (← Eval.invoke r receiver name typeArgs args) :: stack
  | .ternary _ cond yes no, stack => do
    let c ← Program.result (← Program.runFrom r [] cond)
    let v ← Eval.choose c (do Program.result (← Program.runFrom r [] yes))
      (do Program.result (← Program.runFrom r [] no))
    return v :: stack
  | .assign _ place value, stack => do
    let v ← Program.result (← Program.runFrom r [] value)
    return (← place.assign r v) :: stack
  | .binary _ _, _ => Eval.fail (.internal "value stack underflow")
  | .get _ _, [] => Eval.fail (.internal "value stack underflow")
  | .call _ _ _ _, [] => Eval.fail (.internal "value stack underflow")

def Program.runFrom (r : Registry H) (stack : List Value) : List Instr → Eval H (List Value)
  | [] => return stack
  | i :: is => do
    let stack ← (i.step r stack).located i.span
    Program.runFrom r stack is

def Program.runAll (r : Registry H) : List (List Instr) → Eval H (List Value)
  | [] => return []
  | p :: ps => do
    let v ← Program.result (← Program.runFrom r [] p)
    r.directory.checkAllowed v
    return v :: (← Program.runAll r ps)

def Place.read (r : Registry H) : Place → Eval H Value
  | .var name => Eval.load r name
  | .member owner name _ => do
    let o ← owner.read r
    Eval.readMember r o name
  | .static tag => return .typeRoot tag
  | .computed program => do Program.result (← Program.runFrom r [] program)

/-- Stores a changed object of a value type where it was read from. All other values were changed in
place. -/
def Place.writeBack (r : Registry H) : Place → Value → Eval H Unit
  | .var name, v =>
    if r.directory.holdsValueType v then do
      let _ ← Eval.lookup name
      Eval.store name v
    else pure ()
  | .member owner name _, v =>
    if r.directory.holdsValueType v then do
      let o ← owner.read r
      Eval.writeMember r o name v
      owner.writeBack r o
    else pure ()
  | .static _, _ => pure ()
  | .computed _, _ => pure ()

/-- Stores a value in a place and yields what is stored. -/
def Place.assign (r : Registry H) : Place → Value → Eval H Value
  | .var name, v => Eval.updateVariable r name v
  | .member owner name span, v =>
    Eval.located span do
      let o ← owner.read r
      let new ← Eval.updateMember r o name v
      owner.writeBack r o
      return new
  | .static _, _ => Eval.fail (.internal "assignment to a non-place")
  | .computed _, _ => Eval.fail (.internal "assignment to a non-place")

end

def Program.run (r : Registry H) (p : Program) : Eval H Value := do
  Program.result (← Program.runFrom r [] p)

/-- A program in two parts goes on with the stack that the first part leaves. -/
theorem Program.runFrom_append (r : Registry H) (stack : List Value) (p q : Program) :
    Program.runFrom r stack (p ++ q) =
      Program.runFrom r stack p >>= fun stack => Program.runFrom r stack q := by
  induction p generalizing stack with
  | nil => simp [Program.runFrom]
  | cons i is ih => simp [Program.runFrom, ih]

end Formula
