import Formula.Cli.Datum
import Formula.Engine
import Formula.Text.Alphabetic

/-!
Command lines: a formula, then bindings of the form `name=value` or `name:type=value`, and options
anywhere among them.
-/

namespace Formula.Cli

inductive UsageError where
  | unknownCommand (name : String)
  /-- A command with other arguments than these. -/
  | arity (expected : String)
  | missingFormula
  | unknownOption (option : String)
  | missingValue (option : String)
  | invalidNumber (option value : String)
  | malformedBinding (text : String)
  | invalidName (name : String)
  | unknownType (name typeName : String)
  | conversion (name message : String)
deriving DecidableEq, Repr

def UsageError.message : UsageError → String
  | unknownCommand name => "unknown command `" ++ name ++ "`"
  | arity expected => "expected `fml " ++ expected ++ "`"
  | missingFormula => "missing formula"
  | unknownOption option => "unknown option `" ++ option ++ "`"
  | missingValue option => "option `" ++ option ++ "` needs a value"
  | invalidNumber option value =>
    "option `" ++ option ++ "` expects a number, found `" ++ value ++ "`"
  | malformedBinding text =>
    "binding `" ++ text ++ "` is not of the form name=value or name:type=value"
  | invalidName name => "`" ++ name ++ "` is not a valid binding name"
  | unknownType name typeName => "unknown type `" ++ typeName ++ "` for binding `" ++ name ++ "`"
  | conversion name message => "binding `" ++ name ++ "`: " ++ message

/-- A binding as written, before its type is looked up. -/
structure BindingArg where
  name : String
  typeName? : Option String
  datum : Datum
deriving Inhabited

namespace BindingArg

def isName : List Char → Bool
  | [] => false
  | c :: cs => Text.isNameStart c && cs.all Text.isNameChar

def parse (text : String) : Except UsageError BindingArg :=
  match Text.splitFirst? '=' text.toList with
  | none => .error (.malformedBinding text)
  | some (left, right) =>
    let (name, typeName?) :=
      match Text.splitFirst? ':' left with
      | some (name, type) => (Text.trim name, some (String.ofList (Text.trim type)))
      | none => (Text.trim left, none)
    if isName name then .ok ⟨String.ofList name, typeName?, .read right⟩
    else .error (.invalidName (String.ofList name))

/-- The variable of a binding, and memory with the lists in it. A declared type converts the value. -/
def toVariable {H : Host} (types : Directory) (m : Memory H) (a : BindingArg) :
    Except UsageError (Variable × Memory H) :=
  match a.datum.build m with
  | .error f _ => .error (.conversion a.name f.message)
  | .ok v m =>
    match a.typeName? with
    | none => .ok (.infer a.name v, m)
    | some typeName =>
      match types.resolve? typeName with
      | none => .error (.unknownType a.name typeName)
      | some tag =>
        match v.convert types m tag with
        | .error f => .error (.conversion a.name f.message)
        | .ok v => .ok (⟨a.name, tag, .owned v⟩, m)

/-- The variables of bindings, up to the first that fails. -/
def toBindings {H : Host} (types : Directory) :
    Memory H → Bindings → List BindingArg → Except UsageError (World H)
  | m, b, [] => .ok ⟨m, b⟩
  | m, b, a :: as => do
    let (x, m) ← a.toVariable types m
    toBindings types m (b.insert x) as

end BindingArg

structure Invocation where
  formula : String
  uid : String
  bindings : List BindingArg
  config : Config

namespace Invocation

def maxNumber : Nat := 18446744073709551615

/-- The number of an option: digits, perhaps after a plus sign. -/
def readNumber? (value : String) : Option Nat :=
  let digits := match value.toList with
    | '+' :: cs => cs
    | cs => cs
  (Number.readNat? digits).filter (· ≤ maxNumber)

/-- The parts of an invocation read so far. The first argument that is no option is the formula. -/
structure Draft where
  formula? : Option String
  uid : String
  bindings : List BindingArg
  config : Config

def Draft.initial : Draft := ⟨none, "cli", [], .default⟩

def Draft.positional (p : Draft) (arg : String) : Except UsageError Draft :=
  match p.formula? with
  | none => .ok { p with formula? := some arg }
  | some _ => do return { p with bindings := p.bindings ++ [← BindingArg.parse arg] }

def Draft.withHops (p : Draft) (value : String) : Except UsageError Draft :=
  match readNumber? value with
  | some n => .ok { p with config := { p.config with maxHops := n } }
  | none => .error (.invalidNumber "--max-hops" value)

/-- Reads arguments from left to right. An option takes the argument after it for its value, whatever
that looks like. -/
def parseFrom (p : Draft) : List String → Except UsageError Draft
  | [] => .ok p
  | "--no-cache" :: args => parseFrom { p with config := { p.config with isCached := false } } args
  | ["--uid"] => .error (.missingValue "--uid")
  | "--uid" :: value :: args => parseFrom { p with uid := value } args
  | ["--max-hops"] => .error (.missingValue "--max-hops")
  | "--max-hops" :: value :: args => do parseFrom (← p.withHops value) args
  | arg :: args =>
    if ['-', '-'].isPrefixOf arg.toList then .error (.unknownOption arg)
    else do parseFrom (← p.positional arg) args

def parse (args : List String) : Except UsageError Invocation := do
  let p ← parseFrom .initial args
  match p.formula? with
  | none => .error .missingFormula
  | some formula => .ok ⟨formula, p.uid, p.bindings, p.config⟩

end Invocation

end Formula.Cli
