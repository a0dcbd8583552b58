import Formula.Expr
import Formula.Expr.Fault
import Formula.Guard

/-!
Expressions from tokens, by recursive descent.

    statement  := assignment end
    assignment := ternary (("=" | compound) assignment)?
    ternary    := binary ("?" assignment ":" assignment)?
    binary     := unary (operator unary)*
    unary      := ("-" | "!" | "~") unary | postfix
    postfix    := primary ("." name (typeArgs? "(" arguments? ")")?)*
    primary    := literal | name | "(" assignment ")"

Each production returns the tokens it leaves, fewer than it was given.
-/

namespace Formula

namespace Token.Kind

def literal? : Kind → Option Literal
  | int n => some (.int n)
  | float x => some (.float x)
  | string s => some (.string s)
  | bool b => some (.bool b)
  | null => some .null
  | _ => none

def assignment? : Kind → Option Operator
  | op o => if o.isAssignment then some o else none
  | _ => none

/-- The operator between two operands that a token is, with its class. -/
def binary? : Kind → Option (Operator × Nat)
  | op o => o.binaryPrecedence?.map (o, ·)
  | _ => none

def unary? : Kind → Option Operator
  | op o => if o = .sub ∨ o = .not ∨ o = .bitNot then some o else none
  | _ => none

def ident? : Kind → Option String
  | ident name => some name
  | _ => none

def mark? (m : Mark) : Kind → Option Unit
  | mark m' => if m' = m then some () else none
  | _ => none

def op? (o : Operator) : Kind → Option Unit
  | op o' => if o' = o then some () else none
  | _ => none

end Token.Kind

namespace Expr

/-- `-x` stands for `-1 * x`, `!x` for `x == false` and `~x` for `x ^ -1`. -/
def ofUnary (op : Operator) (opSpan : Span) (operand : Expr) : Expr :=
  let span := opSpan.merge operand.span
  match op with
  | .sub => binary span .mul (literal opSpan (.int (-1))) operand
  | .not => binary span .equal operand (literal opSpan (.bool false))
  | _ => binary span .xor operand (literal opSpan (.int (-1)))

/-- `x op= y` stands for `x = x op y`, in which `y` is a single operand. -/
def ofAssignment (op : Operator) (target value : Expr) : Expr :=
  let span := target.span.merge value.span
  match op.compoundBase? with
  | some base => assign span target (binary span base target value)
  | none => assign span target value

namespace Parse

/-- The first token, if it is of the kind that `f` picks, and what follows it. -/
def front? {α : Type} (f : Token.Kind → Option α) : List Token → Option (α × Span × List Token)
  | [] => none
  | t :: rest => (f t.kind).map (·, t.span, rest)

theorem length_front {α : Type} {f : Token.Kind → Option α} {ts rest : List Token} {a : α} {s : Span}
    (h : front? f ts = some (a, s, rest)) : rest.length < ts.length := by
  cases ts with
  | nil => simp [front?] at h
  | cons t ts =>
    obtain ⟨_, -, heq⟩ := Option.map_eq_some_iff.mp h
    simp only [Prod.mk.injEq] at heq
    simp [heq.2.2]

/-- What stands first, as messages call it, and where. -/
def found (stop : Nat) : List Token → String × Span
  | [] => (TokenList.endDescription, .point stop)
  | t :: _ => (t.kind.describe, t.span)

/-- A fault of the first token, or of the end. -/
def failAt (stop : Nat) (ts : List Token) (fault : String → ParseFault) : ParseError :=
  ⟨(found stop ts).2, fault (found stop ts).1⟩

/-- The fault of tokens that begin no operand. -/
def notAnOperand (stop : Nat) (ts : List Token) : ParseError :=
  match ts with
  | [] => failAt stop ts .missingOperand
  | t :: _ =>
    match t.kind with
    | .mark .rightParen => ⟨t.span, .unmatchedParen⟩
    | .op _ => failAt stop ts .missingOperand
    | _ => failAt stop ts (.unexpected .operand)

/-- The fault of tokens that are left after a whole expression. -/
def notAtEnd (stop : Nat) (ts : List Token) : ParseError :=
  match front? (Token.Kind.mark? .rightParen) ts with
  | some (_, span, _) => ⟨span, .unmatchedParen⟩
  | none => failAt stop ts (.unexpected .operatorOrEnd)

def typeNames (ts : List Token) : Option (List TypeArg × List Token) :=
  match _hn : front? Token.Kind.ident? ts with
  | none => none
  | some (name, span, rest) =>
    match _hc : front? (Token.Kind.mark? .comma) rest with
    | none => some ([⟨name, span⟩], rest)
    | some (_, _, more) => (typeNames more).map fun (args, left) => (⟨name, span⟩ :: args, left)
termination_by ts.length
decreasing_by
  have := length_front _hn
  have := length_front _hc
  omega

/-- What follows the name of a method: a parenthesis, perhaps after type arguments. A `<` that opens
no type arguments is left for the binary level. -/
def callOpening? (ts : List Token) : Option (List TypeArg × Span × List Token) :=
  match front? (Token.Kind.mark? .leftParen) ts with
  | some (_, opened, rest) => some ([], opened, rest)
  | none =>
    (front? (Token.Kind.op? .less) ts).bind fun (_, _, afterLess) =>
      (typeNames afterLess).bind fun (args, afterNames) =>
        (front? (Token.Kind.op? .greater) afterNames).bind fun (_, _, afterGreater) =>
          (front? (Token.Kind.mark? .leftParen) afterGreater).map fun (_, opened, rest) =>
            (args, opened, rest)

theorem length_typeNames {ts rest : List Token} {args : List TypeArg}
    (h : typeNames ts = some (args, rest)) : rest.length < ts.length := by
  fun_induction typeNames ts generalizing args with
  | case1 => simp at h
  | case2 ts name span rest' hf =>
    simp only [Option.some.injEq, Prod.mk.injEq] at h
    exact h.2 ▸ length_front hf
  | case3 ts name span rest' hf _ _ more hc ih =>
    obtain ⟨⟨as, r⟩, hr, heq⟩ := Option.map_eq_some_iff.mp h
    simp only [Prod.mk.injEq] at heq
    obtain ⟨-, rfl⟩ := heq
    have := ih hr
    have := length_front hf
    have := length_front hc
    omega

theorem length_callOpening {ts rest : List Token} {args : List TypeArg} {opened : Span}
    (h : callOpening? ts = some (args, opened, rest)) : rest.length < ts.length := by
  unfold callOpening? at h
  split at h
  · next hf =>
    simp only [Option.some.injEq, Prod.mk.injEq] at h
    exact h.2.2 ▸ length_front hf
  · obtain ⟨⟨_, _, afterLess⟩, h1, h⟩ := Option.bind_eq_some_iff.mp h
    obtain ⟨⟨_, afterNames⟩, h2, h⟩ := Option.bind_eq_some_iff.mp h
    obtain ⟨⟨_, _, afterGreater⟩, h3, h⟩ := Option.bind_eq_some_iff.mp h
    obtain ⟨⟨_, _, r⟩, h4, h⟩ := Option.map_eq_some_iff.mp h
    simp only [Prod.mk.injEq] at h
    obtain ⟨-, -, rfl⟩ := h
    have := length_front h1
    have := length_typeNames h2
    have := length_front h3
    have := length_front h4
    omega

/-- The outcome of a production that leaves fewer tokens than it was given. -/
abbrev Outcome (α : Type) (ts : List Token) :=
  Except ParseError (α × { rest : List Token // rest.length < ts.length })

/-- The outcome of a repetition, which may leave all the tokens. -/
abbrev TailOutcome (α : Type) (ts : List Token) :=
  Except ParseError (α × { rest : List Token // rest.length ≤ ts.length })

section

variable (stop maxHops : Nat)

mutual

def assignment (ts : List Token) : Outcome Expr ts :=
  match ternary ts with
  | .error e => .error e
  | .ok (target, r) =>
    match ho : front? Token.Kind.assignment? r.1 with
    | none => .ok (target, r)
    | some (op, _, afterOp) =>
      if target.isPlace then
        match assignment afterOp with
        | .error e => .error e
        | .ok (value, rest) =>
          .ok (ofAssignment op target value, ⟨rest.1, by have := length_front ho; omega⟩)
      else .error ⟨target.span, .notAssignable⟩
termination_by (ts.length, 5)
decreasing_by
  · exact Prod.Lex.right _ (by decide)
  · exact Prod.Lex.left _ _ (by have := length_front ho; omega)

def ternary (ts : List Token) : Outcome Expr ts :=
  match binary 1 ts with
  | .error e => .error e
  | .ok (cond, r) =>
    match hq : front? (Token.Kind.mark? .question) r.1 with
    | none => .ok (cond, r)
    | some (_, _, afterQuestion) =>
      match assignment afterQuestion with
      | .error e => .error e
      | .ok (yes, r') =>
        match hc : front? (Token.Kind.mark? .colon) r'.1 with
        | none => .error (failAt stop r'.1 .missingColon)
        | some (_, _, afterColon) =>
          match assignment afterColon with
          | .error e => .error e
          | .ok (no, rest) =>
            .ok (.ternary (cond.span.merge no.span) cond yes no,
              ⟨rest.1, by have := length_front hq; have := length_front hc; omega⟩)
termination_by (ts.length, 4)
decreasing_by
  · exact Prod.Lex.right _ (by decide)
  · exact Prod.Lex.left _ _ (by have := length_front hq; omega)
  · exact Prod.Lex.left _ _ (by have := length_front hq; have := length_front hc; omega)

/-- Operands and operators of class `least` and above. -/
def binary (least : Nat) (ts : List Token) : Outcome Expr ts :=
  match unary ts with
  | .error e => .error e
  | .ok (left, r) =>
    match binaryTail least left r.1 with
    | .error e => .error e
    | .ok (e, rest) => .ok (e, ⟨rest.1, by omega⟩)
termination_by (ts.length, 3)
decreasing_by
  · exact Prod.Lex.right _ (by decide)
  · exact Prod.Lex.left _ _ (by omega)

/-- The operators and operands that follow `left`, which is the left side of the first of them. -/
def binaryTail (least : Nat) (left : Expr) (ts : List Token) : TailOutcome Expr ts :=
  match ho : front? Token.Kind.binary? ts with
  | none => .ok (left, ⟨ts, Nat.le_refl _⟩)
  | some ((op, precedence), _, afterOp) =>
    if precedence < least then .ok (left, ⟨ts, Nat.le_refl _⟩)
    else
      match binary (precedence + 1) afterOp with
      | .error e => .error e
      | .ok (right, r) =>
        match binaryTail least (.binary (left.span.merge right.span) op left right) r.1 with
        | .error e => .error e
        | .ok (e, rest) => .ok (e, ⟨rest.1, by have := length_front ho; omega⟩)
termination_by (ts.length, 0)
decreasing_by
  · exact Prod.Lex.left _ _ (by have := length_front ho; omega)
  · exact Prod.Lex.left _ _ (by have := length_front ho; omega)

def unary (ts : List Token) : Outcome Expr ts :=
  match ho : front? Token.Kind.unary? ts with
  | none => postfixed ts
  | some (op, opSpan, afterOp) =>
    match unary afterOp with
    | .error e => .error e
    | .ok (operand, rest) =>
      .ok (ofUnary op opSpan operand, ⟨rest.1, by have := length_front ho; omega⟩)
termination_by (ts.length, 2)
decreasing_by
  · exact Prod.Lex.right _ (by decide)
  · exact Prod.Lex.left _ _ (by have := length_front ho; omega)

def postfixed (ts : List Token) : Outcome Expr ts :=
  match primary ts with
  | .error e => .error e
  | .ok (receiver, r) =>
    match chain (.new maxHops) receiver r.1 with
    | .error e => .error e
    | .ok (e, rest) => .ok (e, ⟨rest.1, by omega⟩)
termination_by (ts.length, 1)
decreasing_by
  · exact Prod.Lex.right _ (by decide)
  · exact Prod.Lex.left _ _ (by omega)

/-- The members and methods that follow `receiver`. -/
def chain (hops : Guard) (receiver : Expr) (ts : List Token) : TailOutcome Expr ts :=
  match hd : front? (Token.Kind.mark? .dot) ts with
  | none => .ok (receiver, ⟨ts, Nat.le_refl _⟩)
  | some (_, dot, afterDot) =>
    match hops.tick? with
    | none => .error ⟨receiver.span.merge dot, .chainTooLong hops.limit⟩
    | some hops =>
      match hn : front? Token.Kind.ident? afterDot with
      | none => .error (failAt stop afterDot (.unexpected .memberName))
      | some (name, nameSpan, afterName) =>
        match hc : callOpening? afterName with
        | none =>
          match chain hops (.member (receiver.span.merge nameSpan) receiver name) afterName with
          | .error e => .error e
          | .ok (e, rest) =>
            .ok (e, ⟨rest.1, by have := length_front hd; have := length_front hn; omega⟩)
        | some (typeArgs, opened, afterParen) =>
          match arguments opened afterParen with
          | .error e => .error e
          | .ok ((args, closed), r) =>
            match chain hops (.call (receiver.span.merge closed) receiver name typeArgs args) r.1 with
            | .error e => .error e
            | .ok (e, rest) =>
              .ok (e, ⟨rest.1, by
                have := length_front hd
                have := length_front hn
                have := length_callOpening hc
                omega⟩)
termination_by (ts.length, 0)
decreasing_by
  · exact Prod.Lex.left _ _ (by have := length_front hd; have := length_front hn; omega)
  · exact Prod.Lex.left _ _ (by
      have := length_front hd; have := length_front hn; have := length_callOpening hc; omega)
  · exact Prod.Lex.left _ _ (by
      have := length_front hd; have := length_front hn; have := length_callOpening hc; omega)

/-- The arguments after the parenthesis at `opened`, with the span of the one that closes it. -/
def arguments (opened : Span) (ts : List Token) : Outcome (List Expr × Span) ts :=
  match hp : front? (Token.Kind.mark? .rightParen) ts with
  | some (_, closed, rest) => .ok (([], closed), ⟨rest, length_front hp⟩)
  | none => someArguments opened ts
termination_by (ts.length, 7)
decreasing_by exact Prod.Lex.right _ (by decide)

def someArguments (opened : Span) (ts : List Token) : Outcome (List Expr × Span) ts :=
  match assignment ts with
  | .error e => .error e
  | .ok (arg, r) =>
    match hc : front? (Token.Kind.mark? .comma) r.1 with
    | some (_, _, afterComma) =>
      match someArguments opened afterComma with
      | .error e => .error e
      | .ok ((args, closed), rest) =>
        .ok ((arg :: args, closed), ⟨rest.1, by have := length_front hc; omega⟩)
    | none =>
      match hp : front? (Token.Kind.mark? .rightParen) r.1 with
      | some (_, closed, rest) =>
        .ok (([arg], closed), ⟨rest, by have := length_front hp; omega⟩)
      | none => .error (failAt stop r.1 (.unclosedParen opened))
termination_by (ts.length, 6)
decreasing_by
  · exact Prod.Lex.right _ (by decide)
  · exact Prod.Lex.left _ _ (by have := length_front hc; omega)

def primary (ts : List Token) : Outcome Expr ts :=
  match hl : front? Token.Kind.literal? ts with
  | some (value, span, rest) => .ok (.literal span value, ⟨rest, length_front hl⟩)
  | none =>
    match hi : front? Token.Kind.ident? ts with
    | some (name, span, rest) => .ok (.ident span name, ⟨rest, length_front hi⟩)
    | none =>
      match ho : front? (Token.Kind.mark? .leftParen) ts with
      | none => .error (notAnOperand stop ts)
      | some (_, opened, afterParen) =>
        match assignment afterParen with
        | .error e => .error e
        | .ok (inner, r) =>
          match hp : front? (Token.Kind.mark? .rightParen) r.1 with
          | none => .error (failAt stop r.1 (.unclosedParen opened))
          | some (_, _, rest) =>
            .ok (inner, ⟨rest, by have := length_front ho; have := length_front hp; omega⟩)
termination_by (ts.length, 0)
decreasing_by exact Prod.Lex.left _ _ (by have := length_front ho; omega)

end

end

end Parse

/-- The expression that all the tokens of a statement make up. -/
def ofTokens (maxHops : Nat) (ts : TokenList) : Except ParseError Expr :=
  match Parse.assignment ts.stop maxHops ts.tokens with
  | .error e => .error e
  | .ok (e, rest) => if rest.1.isEmpty then .ok e else .error (Parse.notAtEnd ts.stop rest.1)

end Expr

end Formula
