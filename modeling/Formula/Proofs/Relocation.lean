import Formula.Compiled
import Formula.Fault

/-!
The same phrases at other places. A relocation changes spans and keeps how they are merged, so that
nothing but places depends on it.
-/

namespace Formula

structure Relocation where
  apply : Span → Span
  offset : Nat → Nat
  apply_merge : ∀ s t : Span, apply (s.merge t) = (apply s).merge (apply t)
  apply_point : ∀ n, apply (.point n) = .point (offset n)

namespace Relocation

/-- Behind a text of `n` bytes. -/
def shift (n : Nat) : Relocation where
  apply := .shift n
  offset := (· + n)
  apply_merge := Span.shift_merge n
  apply_point _ := rfl

/-- All places become one. -/
def forget : Relocation where
  apply _ := default
  offset _ := 0
  apply_merge _ _ := rfl
  apply_point _ := rfl

end Relocation

variable (m : Relocation)

def Token.relocate (t : Token) : Token := { t with span := m.apply t.span }

def TokenList.relocate (ts : TokenList) : TokenList := ⟨ts.tokens.map (·.relocate m), m.offset ts.stop⟩

def TypeArg.relocate (a : TypeArg) : TypeArg := { a with span := m.apply a.span }

namespace Expr

mutual

def relocate : Expr → Expr
  | literal s value => literal (m.apply s) value
  | ident s name => ident (m.apply s) name
  | binary s op left right => binary (m.apply s) op left.relocate right.relocate
  | assign s target value => assign (m.apply s) target.relocate value.relocate
  | ternary s cond yes no => ternary (m.apply s) cond.relocate yes.relocate no.relocate
  | member s receiver name => member (m.apply s) receiver.relocate name
  | call s receiver method typeArgs args =>
    call (m.apply s) receiver.relocate method (typeArgs.map (·.relocate m)) (relocateAll args)

def relocateAll : List Expr → List Expr
  | [] => []
  | e :: es => e.relocate :: relocateAll es

end

theorem relocateAll_eq_map (es : List Expr) : relocateAll m es = es.map (·.relocate m) := by
  induction es with
  | nil => rfl
  | cons e es ih => rw [relocateAll, ih, List.map_cons]

@[simp]
theorem span_relocate (e : Expr) : (e.relocate m).span = m.apply e.span := by
  cases e <;> rfl

@[simp]
theorem isPlace_relocate (e : Expr) : (e.relocate m).isPlace = e.isPlace := by
  cases e <;> rfl

theorem relocate_ofUnary (op : Operator) (span : Span) (operand : Expr) :
    (ofUnary op span operand).relocate m = ofUnary op (m.apply span) (operand.relocate m) := by
  cases op <;> simp [ofUnary, relocate, m.apply_merge]

theorem relocate_ofAssignment (op : Operator) (target value : Expr) :
    (ofAssignment op target value).relocate m =
      ofAssignment op (target.relocate m) (value.relocate m) := by
  rw [ofAssignment, ofAssignment]
  cases op.compoundBase? <;> simp [relocate, m.apply_merge]

end Expr

mutual

def Instr.relocate : Instr → Instr
  | .push s value => .push (m.apply s) value
  | .load s name => .load (m.apply s) name
  | .loadType s tag => .loadType (m.apply s) tag
  | .binary s op => .binary (m.apply s) op
  | .get s member => .get (m.apply s) member
  | .call s method typeArgs args => .call (m.apply s) method typeArgs (Program.relocateAll args)
  | .ternary s cond yes no =>
    .ternary (m.apply s) (Program.relocate cond) (Program.relocate yes) (Program.relocate no)
  | .assign s place value => .assign (m.apply s) place.relocate (Program.relocate value)

def Program.relocate : List Instr → List Instr
  | [] => []
  | i :: is => i.relocate :: Program.relocate is

def Program.relocateAll : List (List Instr) → List (List Instr)
  | [] => []
  | p :: ps => Program.relocate p :: Program.relocateAll ps

def Place.relocate : Place → Place
  | .var name => .var name
  | .member owner name s => .member owner.relocate name (m.apply s)
  | .static tag => .static tag
  | .computed program => .computed (Program.relocate program)

end

@[simp]
theorem Instr.span_relocate (i : Instr) : (i.relocate m).span = m.apply i.span := by
  cases i <;> simp [Instr.relocate, Instr.span]

@[simp]
theorem Program.relocate_append (p q : Program) :
    Program.relocate m (p ++ q) = Program.relocate m p ++ Program.relocate m q := by
  induction p with
  | nil => rfl
  | cons i is ih => simp [Program.relocate, ih]

def ScanError.relocate (e : ScanError) : ScanError := { e with span := m.apply e.span }

def ParseFault.relocate : ParseFault → ParseFault
  | .unclosedParen opened found => .unclosedParen (m.apply opened) found
  | fault => fault

def ParseError.relocate (e : ParseError) : ParseError := ⟨m.apply e.span, e.fault.relocate m⟩

def Label.relocate (l : Label) : Label := { l with span := m.apply l.span }

def Diagnostic.relocate (d : Diagnostic) : Diagnostic := { d with labels := d.labels.map (·.relocate m) }

def EvalError.relocate (e : EvalError) : EvalError := { e with span? := e.span?.map m.apply }

namespace Diagnostic

@[simp]
theorem relocate_error (code : Code) (message : String) :
    (error code message).relocate m = error code message := rfl

@[simp]
theorem relocate_withLabel (d : Diagnostic) (s : Span) (message : String) :
    (d.withLabel s message).relocate m = (d.relocate m).withLabel (m.apply s) message := by
  simp [withLabel, relocate, Label.relocate]

@[simp]
theorem relocate_withRelated (d : Diagnostic) (s : Span) (message : String) :
    (d.withRelated s message).relocate m = (d.relocate m).withRelated (m.apply s) message := by
  simp [withRelated, relocate, Label.relocate]

@[simp]
theorem relocate_withNote (d : Diagnostic) (note : String) :
    (d.withNote note).relocate m = (d.relocate m).withNote note := rfl

@[simp]
theorem relocate_withSuggestion (d : Diagnostic) (text : String) :
    (d.withSuggestion text).relocate m = (d.relocate m).withSuggestion text := rfl

@[simp]
theorem relocate_inStatement (d : Diagnostic) (text : String) :
    (d.inStatement text).relocate m = (d.relocate m).inStatement text := rfl

end Diagnostic

theorem ScanError.diagnostic_relocate (e : ScanError) :
    (e.relocate m).diagnostic = e.diagnostic.relocate m := by
  cases e with
  | mk span fault => cases fault <;> simp [ScanError.relocate, ScanError.diagnostic]

namespace ParseFault

@[simp]
theorem code_relocate (f : ParseFault) : (f.relocate m).code = f.code := by
  cases f <;> rfl

@[simp]
theorem message_relocate (f : ParseFault) : (f.relocate m).message = f.message := by
  cases f <;> rfl

@[simp]
theorem labelText_relocate (f : ParseFault) : (f.relocate m).labelText = f.labelText := by
  cases f <;> rfl

end ParseFault

theorem ParseError.diagnostic_relocate (e : ParseError) :
    (e.relocate m).diagnostic = e.diagnostic.relocate m := by
  simp only [ParseError.diagnostic, ParseError.relocate, ParseFault.code_relocate,
    ParseFault.message_relocate, ParseFault.labelText_relocate]
  cases e.fault <;> simp [ParseFault.relocate]

theorem EvalError.diagnostic_relocate (e : EvalError) :
    (e.relocate m).diagnostic = e.diagnostic.relocate m := by
  cases e with
  | mk fault span? statement? =>
      cases span? <;> cases statement? <;> simp [EvalError.relocate, EvalError.diagnostic]

def CompiledStatement.relocate (s : CompiledStatement) : CompiledStatement where
  span := m.apply s.span
  text := s.text
  outcome := (s.outcome.map (Program.relocate m)).mapError (·.relocate m)

/-- Outcomes of parsing at other places. -/
def Relocation.outcome {α β : Type} (f : α → β) : Except ParseError α → Except ParseError β
  | .ok a => .ok (f a)
  | .error e => .error (e.relocate m)

namespace Relocation

variable {α α' β β' : Type} {m} {f : α → α'} {g : β → β'}

@[simp]
theorem outcome_ok (a : α) : m.outcome f (.ok a) = .ok (f a) := rfl

@[simp]
theorem outcome_error (e : ParseError) : m.outcome f (.error e) = .error (e.relocate m) := rfl

theorem outcome_bind {x : Except ParseError α} {x' : Except ParseError α'}
    {k : α → Except ParseError β} {k' : α' → Except ParseError β'} (hx : x' = m.outcome f x)
    (hk : ∀ a, x = .ok a → k' (f a) = m.outcome g (k a)) : x' >>= k' = m.outcome g (x >>= k) := by
  subst hx
  cases x with
  | error e => rfl
  | ok a => exact hk a rfl

end Relocation

end Formula
