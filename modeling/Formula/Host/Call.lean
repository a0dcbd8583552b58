import Formula.Host.Type

/-!
What the body of a method asks of its call. The choice of an overload already rules out most of the
refusals here.
-/

namespace Formula

variable {H : Host}

instance : MonadLift (Except Fault) (Action H) := ⟨Action.ofExcept⟩

namespace Call

/-- `x`, or else a fault for a host that does not get what it counts on. -/
def expect {α : Type} (x : Option α) (otherwise : String) : Except Fault α :=
  match x with
  | some a => .ok a
  | none => .error (.internal otherwise)

def arg (c : Call) (i : Nat) : Except Fault Value :=
  expect c.args[i]? ("missing argument " ++ toString i)

def int (c : Call) (i : Nat) : Except Fault Int64 := do
  expect (← c.arg i).int? ("argument " ++ toString i ++ " is not an int")

/-- An int will do for a float. -/
def float (c : Call) (i : Nat) : Except Fault Number.Double := do
  expect (← c.arg i).float? ("argument " ++ toString i ++ " is not numeric")

def string (c : Call) (i : Nat) : Except Fault String := do
  expect (← c.arg i).string? ("argument " ++ toString i ++ " is not a string")

def typeArg (c : Call) (i : Nat) : Except Fault TypeTag :=
  expect c.typeArgs[i]? ("missing type argument " ++ toString i)

def receiverInt (c : Call) : Except Fault Int64 := expect c.receiver.int? "receiver is not an int"

def receiverFloat (c : Call) : Except Fault Number.Double := expect c.receiver.float? "receiver is not a float"

def receiverString (c : Call) : Except Fault String :=
  expect c.receiver.string? "receiver is not a string"

def receiverObject (c : Call) : Except Fault ObjectRef :=
  expect c.receiver.object? "receiver is not an object"

def receiverText (c : Call) : Action H Value := return .string ((← get).text c.receiver)

end Call

end Formula
