import Formula.Cache
import Formula.Guard
import Formula.Program.Run

/-!
Evaluation of formulas. A statement that fails because of how it is written yields null and a
diagnostic, and the others still run; any other failure ends the evaluation.
-/

namespace Formula

structure Config where
  /-- How many members one chain may have. -/
  maxHops : Nat
  /-- How often a loop may run its body. -/
  maxIterations : Nat
  isCached : Bool
deriving DecidableEq, Repr

def Config.default : Config := ⟨100, 1000, true⟩

/-- One value to a statement, and the diagnostics of those that failed. -/
structure Evaluation where
  results : List Value
  diagnostics : List Diagnostic
deriving Inhabited

namespace Evaluation

def empty : Evaluation := ⟨[], []⟩

def isClean (e : Evaluation) : Bool := e.diagnostics.isEmpty

def cons (v : Value) (d? : Option Diagnostic) (e : Evaluation) : Evaluation :=
  ⟨v :: e.results, d?.toList ++ e.diagnostics⟩

end Evaluation

/-- What the names of a formula stand for. A variable hides a type of the same name. -/
def Scope.of (types : Directory) (b : Bindings) : Scope := ⟨b.contains, types.resolve?⟩

/-- The value of a statement, with its diagnostic if it failed. -/
def CompiledStatement.run {H : Host} (r : Registry H) (s : CompiledStatement) :
    Eval H (Value × Option Diagnostic) :=
  match s.outcome with
  | .error d => return (.null, some d)
  | .ok program => fun w =>
    match program.run r w with
    | .ok v w' => .ok (v, none) w'
    | .error e w' =>
      let e := e.inStatement s.text
      if e.fault.isSoft then .ok (.null, some e.diagnostic) w' else .error e w'

def CompiledStatement.runAll {H : Host} (r : Registry H) : List CompiledStatement → Eval H Evaluation
  | [] => return .empty
  | s :: ss => do
    let (v, d?) ← s.run r
    return (← runAll r ss).cons v d?

def CompiledFormula.run {H : Host} (r : Registry H) (f : CompiledFormula) : Eval H Evaluation :=
  CompiledStatement.runAll r f.statements

structure Engine (H : Host) where
  registry : Registry H
  config : Config

/-- What lasts from one evaluation to the next. -/
structure Session (H : Host) where
  world : World H
  cache : Cache

abbrev SessionM (H : Host) := EStateM EvalError (Session H)

namespace SessionM

variable {H : Host} {α : Type}

/-- A run does not touch the cache. -/
def ofEval (x : Eval H α) : SessionM H α := fun s =>
  match x s.world with
  | .ok a w => .ok a { s with world := w }
  | .error e w => .error e { s with world := w }

instance : MonadLift (Eval H) (SessionM H) := ⟨ofEval⟩

def insert (x : Variable) : SessionM H Unit :=
  modify fun s => { s with world := { s.world with bindings := s.world.bindings.insert x } }

def clearCache : SessionM H Unit := modify fun s => { s with cache := s.cache.clear }

end SessionM

namespace Engine

variable {H : Host}

def compileFor (e : Engine H) (b : Bindings) (formula : String) : CompiledFormula :=
  .compile e.config.maxHops (.of e.registry.directory b) formula

def compile (e : Engine H) (uid formula : String) : SessionM H SharedFormula := do
  let s ← get
  let b := s.world.bindings
  let (f, cache) :=
    if e.config.isCached then
      s.cache.getOrCompile ⟨uid, formula, b.signature⟩ fun _ => e.compileFor b formula
    else s.cache.issue (e.compileFor b formula)
  set { s with cache := cache }
  return f

def evaluate (e : Engine H) (uid formula : String) : SessionM H Evaluation := do
  let f ← e.compile uid formula
  f.compiled.run e.registry

/-- The first statement that did not yield `true`, with what it yielded. -/
def firstUntrue? : List CompiledStatement → List Value → Option (CompiledStatement × Value)
  | s :: ss, v :: vs =>
    match v with
    | .bool true => firstUntrue? ss vs
    | _ => some (s, v)
  | _, _ => none

/-- Fails unless every statement yields `true`. -/
def check (e : Engine H) (uid formula : String) : SessionM H Unit := do
  let f ← e.compile uid formula
  let results := (← f.compiled.run e.registry).results
  match firstUntrue? f.compiled.statements results with
  | none => return ()
  | some (s, v) =>
    let found := (← get).world.memory.describe v
    throw ((EvalError.of (.assertionFailed s.text found)).inStatement s.text)

/-- The last result of a condition, which has to be a bool. -/
def test (e : Engine H) (uid condition : String) : SessionM H Bool := do
  let results := (← e.evaluate uid condition).results
  match results.getLast? with
  | some (.bool b) => return b
  | other =>
    let found := (other.map (·.typeName)).getD "nothing"
    throw ((EvalError.of (.conditionNotBool found)).inStatement condition)

/-- Runs `body` as long as `condition` holds, counting on from `g`. -/
def runWhileFrom (e : Engine H) (uid condition body : String) (g : Guard) : SessionM H Nat := do
  if ← e.test uid condition then
    match _h : g.tick? with
    | none => throw (.of (.loopLimit g.limit))
    | some g' =>
      let _ ← e.evaluate uid body
      runWhileFrom e uid condition body g'
  else return g.count
termination_by g.limit - g.count
decreasing_by exact Guard.remaining_lt _h

/-- Runs `body` as long as `condition` holds, and yields how often it ran. -/
def runWhile (e : Engine H) (uid condition body : String) : SessionM H Nat :=
  e.runWhileFrom uid condition body (.new e.config.maxIterations)

end Engine

end Formula
