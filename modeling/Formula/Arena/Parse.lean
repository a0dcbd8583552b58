import Formula.Arena
import Formula.Expr.Parse

/-!
Expressions from tokens into an arena, by recursive descent with a cursor. The grammar is that of
`Expr.Parse`; here a production leaves its nodes in the arena and moves the cursor.
-/

namespace Formula.Arena.Parse

structure State where
  pos : Nat
  /-- Where the cursor has been before, the latest position first. No production reads them. -/
  past : List Nat
  arena : Arena

namespace State

def start : State := ⟨0, [], .empty⟩

def moveTo (s : State) (pos : Nat) : State := { s with pos := pos, past := s.pos :: s.past }

def push (s : State) (node : Node) : State := { s with arena := s.arena.push node }

end State

/-- If it fails, what it has done to the state remains. There is no outcome if calls are nested too deep, if
the cursor is sent beyond the end or if an id stands for no node. -/
abbrev Parser (α : Type) := ExceptT ParseError (StateT State Option) α

/-- What must not happen. -/
def stuck {α : Type} : Parser α := liftM (none : Option α)

def node (id : Nat) : Parser Node := do
  match (← get).arena.get? id with
  | some node => return node
  | none => stuck

def spanOf (id : Nat) : Parser Span := return (← node id).span

def alloc (form : Form) (span : Span) : Parser Nat := do
  let id := (← get).arena.nextId
  modify (·.push ⟨form, span⟩)
  return id

/-- `-x` stands for `-1 * x`, `!x` for `x == false` and `~x` for `x ^ -1`. -/
def allocUnary (op : Operator) (opSpan : Span) (operand : Nat) : Parser Nat := do
  let span := opSpan.merge (← spanOf operand)
  match op with
  | .sub =>
    let minusOne ← alloc (.literal (.int (-1))) opSpan
    alloc (.binary .mul minusOne operand) span
  | .not =>
    let no ← alloc (.literal (.bool false)) opSpan
    alloc (.binary .equal operand no) span
  | _ =>
    let allOnes ← alloc (.literal (.int (-1))) opSpan
    alloc (.binary .xor operand allOnes) span

/-- `x op= y` stands for `x = x op y`, in which `y` is a single operand. Both refer to the one `x`. -/
def allocAssignment (op : Operator) (target value : Nat) : Parser Nat := do
  let span := (← spanOf target).merge (← spanOf value)
  match op.compoundBase? with
  | some base =>
    let operation ← alloc (.binary base target value) span
    alloc (.assign target operation) span
  | none => alloc (.assign target value) span

section

variable (ts : TokenList)

/-- The token that stands `ahead` of the cursor, if it is of the kind that `f` picks. -/
def look? {α : Type} (ahead : Nat) (f : Token.Kind → Option α) : Parser (Option (α × Span)) := do
  let t? := ts.tokens[(← get).pos + ahead]?
  return t?.bind fun t => (f t.kind).map (·, t.span)

/-- At the end, the cursor stays. -/
def advance : Parser Unit :=
  modify fun s => if s.pos < ts.tokens.length then s.moveTo (s.pos + 1) else s

def setPosition (pos : Nat) : Parser Unit :=
  if pos ≤ ts.tokens.length then modify (·.moveTo pos) else stuck

/-- The token at the cursor, which is passed if it is of the kind that `f` picks. -/
def next? {α : Type} (f : Token.Kind → Option α) : Parser (Option (α × Span)) := do
  match ← look? ts 0 f with
  | none => return none
  | some x => do
    advance ts
    return some x

/-- The span of the token before the cursor. -/
def previousSpan : Parser Span := do
  let pos := (← get).pos
  if pos = 0 then return .point 0
  match ts.tokens[pos - 1]? with
  | some t => return t.span
  | none => return .point ts.stop

/-- The fault of the tokens that are left, by where the statement ends. -/
def failWith {α : Type} (error : Nat → List Token → ParseError) : Parser α := do
  throw (error ts.stop (ts.tokens.drop (← get).pos))

/-- Names with commas between them. -/
def typeNames? : Nat → Parser (Option (List TypeArg))
  | 0 => stuck
  | depth + 1 => do
    match ← next? ts Token.Kind.ident? with
    | none => return none
    | some (name, span) =>
      match ← next? ts (Token.Kind.mark? .comma) with
      | none => return some [⟨name, span⟩]
      | some _ => return (← typeNames? depth).map (⟨name, span⟩ :: ·)

/-- Names that stand between a `<` and a `>` right before the parenthesis of a call. If they do not, the
cursor goes back to the `<`. -/
def closed? (mark : Nat) : Option (List TypeArg) → Parser (Option (List TypeArg))
  | none => do
    setPosition ts mark
    return none
  | some args => do
    let closes ← look? ts 0 (Token.Kind.op? .greater)
    let opens ← look? ts 1 (Token.Kind.mark? .leftParen)
    if closes.isSome && opens.isSome then
      advance ts
      return some args
    else
      setPosition ts mark
      return none

/-- Type arguments right before the parenthesis of a call. If there are none, a `<` is left for the binary
level. -/
def typeArguments? (depth : Nat) : Parser (Option (List TypeArg)) := do
  match ← look? ts 0 (Token.Kind.op? .less) with
  | none => return none
  | some _ => do
    let mark := (← get).pos
    advance ts
    closed? ts mark (← typeNames? ts depth)

/-- The parenthesis of a call, which stands there. -/
def opening : Parser Span := do
  match ← next? ts (Token.Kind.mark? .leftParen) with
  | some (_, opened) => return opened
  | none => stuck

section

variable (maxHops : Nat)

-- The first number after the limit of the hops is how deep calls may be nested.
mutual

def assignment : Nat → Parser Nat
  | 0 => stuck
  | depth + 1 => do
    let target ← ternary depth
    match ← look? ts 0 Token.Kind.assignment? with
    | none => return target
    | some (op, _) => do
      if (← node target).form.isPlace then
        advance ts
        let value ← assignment depth
        allocAssignment op target value
      else throw ⟨← spanOf target, .notAssignable⟩
termination_by structural depth => depth

def ternary : Nat → Parser Nat
  | 0 => stuck
  | depth + 1 => do
    let cond ← binary depth 1
    match ← next? ts (Token.Kind.mark? .question) with
    | none => return cond
    | some _ => do
      let yes ← assignment depth
      match ← next? ts (Token.Kind.mark? .colon) with
      | none => failWith ts (Expr.Parse.failAt · · .missingColon)
      | some _ => do
        let no ← assignment depth
        alloc (.ternary cond yes no) ((← spanOf cond).merge (← spanOf no))
termination_by structural depth => depth

/-- Operands and operators of class `least` and above. -/
def binary : Nat → (least : Nat) → Parser Nat
  | 0, _ => stuck
  | depth + 1, least => do
    let left ← unary depth
    binaryTail depth least left
termination_by structural depth => depth

/-- The operators and operands that follow `left`, which is the left side of the first of them. -/
def binaryTail : Nat → (least left : Nat) → Parser Nat
  | 0, _, _ => stuck
  | depth + 1, least, left => do
    match ← look? ts 0 Token.Kind.binary? with
    | none => return left
    | some ((op, precedence), _) =>
      if precedence < least then return left
      else do
        advance ts
        let right ← binary depth (precedence + 1)
        let span := (← spanOf left).merge (← spanOf right)
        let operation ← alloc (.binary op left right) span
        binaryTail depth least operation
termination_by structural depth => depth

def unary : Nat → Parser Nat
  | 0 => stuck
  | depth + 1 => do
    match ← next? ts Token.Kind.unary? with
    | none => postfixed depth
    | some (op, opSpan) => do
      let operand ← unary depth
      allocUnary op opSpan operand
termination_by structural depth => depth

def postfixed : Nat → Parser Nat
  | 0 => stuck
  | depth + 1 => do
    let receiver ← primary depth
    chain depth (.new maxHops) receiver
termination_by structural depth => depth

/-- The members and methods that follow `receiver`. -/
def chain : Nat → (hops : Guard) → (receiver : Nat) → Parser Nat
  | 0, _, _ => stuck
  | depth + 1, hops, receiver => do
    match ← next? ts (Token.Kind.mark? .dot) with
    | none => return receiver
    | some (_, dot) =>
      match hops.tick? with
      | none => throw ⟨(← spanOf receiver).merge dot, .chainTooLong hops.limit⟩
      | some hops =>
        match ← next? ts Token.Kind.ident? with
        | none => failWith ts (Expr.Parse.failAt · · (.unexpected .memberName))
        | some (name, nameSpan) => do
          let typeArgs ← typeArguments? ts depth
          let opens ← look? ts 0 (Token.Kind.mark? .leftParen)
          if typeArgs.isSome || opens.isSome then
            let args ← arguments depth
            let span := (← spanOf receiver).merge (← previousSpan ts)
            let call ← alloc (.call receiver name (typeArgs.getD []) args) span
            chain depth hops call
          else
            let member ← alloc (.member receiver name) ((← spanOf receiver).merge nameSpan)
            chain depth hops member
termination_by structural depth => depth

/-- Arguments with the parentheses around them. -/
def arguments : Nat → Parser (List Nat)
  | 0 => stuck
  | depth + 1 => do
    let opened ← opening ts
    match ← next? ts (Token.Kind.mark? .rightParen) with
    | some _ => return []
    | none => someArguments depth opened
termination_by structural depth => depth

def someArguments : Nat → (opened : Span) → Parser (List Nat)
  | 0, _ => stuck
  | depth + 1, opened => do
    let arg ← assignment depth
    match ← next? ts (Token.Kind.mark? .comma) with
    | some _ => return arg :: (← someArguments depth opened)
    | none =>
      match ← next? ts (Token.Kind.mark? .rightParen) with
      | some _ => return [arg]
      | none => failWith ts (Expr.Parse.failAt · · (.unclosedParen opened))
termination_by structural depth => depth

def primary : Nat → Parser Nat
  | 0 => stuck
  | depth + 1 => do
    match ← next? ts Token.Kind.literal? with
    | some (value, span) => alloc (.literal value) span
    | none =>
      match ← next? ts Token.Kind.ident? with
      | some (name, span) => alloc (.ident name) span
      | none =>
        match ← next? ts (Token.Kind.mark? .leftParen) with
        | none => failWith ts Expr.Parse.notAnOperand
        | some (_, opened) => do
          let inner ← assignment depth
          match ← next? ts (Token.Kind.mark? .rightParen) with
          | none => failWith ts (Expr.Parse.failAt · · (.unclosedParen opened))
          | some _ => return inner
termination_by structural depth => depth

end

/-- All the tokens of a statement. -/
def statement (depth : Nat) : Parser Nat := do
  let root ← assignment ts maxHops depth
  if ts.tokens.length ≤ (← get).pos then return root
  else failWith ts Expr.Parse.notAtEnd

end

end

end Formula.Arena.Parse
