import Formula.Expr.Parse
import Formula.Proofs.Outcomes

/-!
What each production does in terms of those below it, without the bounds on what they leave.
-/

namespace Formula

theorem Operator.one_le_of_binaryPrecedence? {op : Operator} {n : Nat}
    (h : op.binaryPrecedence? = some n) : 1 ≤ n := by
  cases op <;> simp [binaryPrecedence?, precedence?] at h <;> omega

namespace Token.Kind

variable {k : Token.Kind}

theorem assignment?_eq_some {op : Operator} :
    k.assignment? = some op ↔ k = .op op ∧ op.isAssignment = true := by
  cases k with
  | op o => grind [assignment?]
  | int | float | string | bool | null | ident | mark => simp [assignment?]

theorem binary?_eq_some {op : Operator} {n : Nat} :
    k.binary? = some (op, n) ↔ k = .op op ∧ op.binaryPrecedence? = some n := by
  cases k with
  | op o =>
      simp only [binary?, Option.map_eq_some_iff, Prod.mk.injEq, Kind.op.injEq]
      constructor
      · rintro ⟨m, hm, rfl, rfl⟩
        exact ⟨rfl, hm⟩
      · rintro ⟨rfl, hm⟩
        exact ⟨n, hm, rfl, rfl⟩
  | int | float | string | bool | null | ident | mark => simp [binary?]

theorem unary?_eq_some {op : Operator} :
    k.unary? = some op ↔ k = .op op ∧ (op = .sub ∨ op = .not ∨ op = .bitNot) := by
  cases k with
  | op o => grind [unary?]
  | int | float | string | bool | null | ident | mark => simp [unary?]

theorem ident?_eq_some {name : String} : k.ident? = some name ↔ k = .ident name := by
  cases k <;> simp [ident?]

theorem mark?_eq_some {m : Mark} {u : Unit} : k.mark? m = some u ↔ k = .mark m := by
  cases k <;> simp [mark?]

theorem op?_eq_some {o : Operator} {u : Unit} : k.op? o = some u ↔ k = .op o := by
  cases k <;> simp [op?]

end Token.Kind

namespace Expr

namespace Parse

@[simp]
theorem front?_nil {α : Type} (f : Token.Kind → Option α) : front? f [] = none := rfl

@[simp]
theorem front?_cons {α : Type} (f : Token.Kind → Option α) (t : Token) (ts : List Token) :
    front? f (t :: ts) = (f t.kind).map (·, t.span, ts) := rfl

theorem front?_eq_some {α : Type} {f : Token.Kind → Option α} {ts rest : List Token} {a : α} {s : Span} :
    front? f ts = some (a, s, rest) ↔ ∃ t : Token, ts = t :: rest ∧ f t.kind = some a ∧ t.span = s := by
  cases ts with
  | nil => simp
  | cons t ts =>
      simp only [front?_cons, Option.map_eq_some_iff, Prod.mk.injEq, List.cons.injEq]
      constructor
      · rintro ⟨b, hb, rfl, rfl, rfl⟩
        exact ⟨t, ⟨rfl, rfl⟩, hb, rfl⟩
      · rintro ⟨t', ⟨rfl, rfl⟩, hb, rfl⟩
        exact ⟨a, hb, rfl, rfl, rfl⟩

theorem front?_mark_eq_some {m : Token.Mark} {ts rest : List Token} {u : Unit} {s : Span} :
    front? (Token.Kind.mark? m) ts = some (u, s, rest) ↔
      ∃ t : Token, ts = t :: rest ∧ t.kind = .mark m ∧ t.span = s := by
  simp only [front?_eq_some, Token.Kind.mark?_eq_some]

theorem front?_op_eq_some {op : Operator} {ts rest : List Token} {u : Unit} {s : Span} :
    front? (Token.Kind.op? op) ts = some (u, s, rest) ↔
      ∃ t : Token, ts = t :: rest ∧ t.kind = .op op ∧ t.span = s := by
  simp only [front?_eq_some, Token.Kind.op?_eq_some]

theorem front?_ident_eq_some {name : String} {ts rest : List Token} {s : Span} :
    front? Token.Kind.ident? ts = some (name, s, rest) ↔
      ∃ t : Token, ts = t :: rest ∧ t.kind = .ident name ∧ t.span = s := by
  simp only [front?_eq_some, Token.Kind.ident?_eq_some]

theorem typeNames_eq (ts : List Token) :
    typeNames ts =
      match front? Token.Kind.ident? ts with
      | none => none
      | some (name, span, rest) =>
        match front? (Token.Kind.mark? .comma) rest with
        | none => some ([⟨name, span⟩], rest)
        | some (_, _, more) => (typeNames more).map fun (args, left) => (⟨name, span⟩ :: args, left) := by
  rw [typeNames]
  split
  · next h => simp only [h]
  · next h =>
    simp only [h]
    split
    · next hc => simp only [hc]
    · next hc => simp only [hc]

section

variable {α : Type} {p : List Token → Prop}

/-- An outcome without the bound on what is left. -/
def plain (x : Except ParseError (α × { rest : List Token // p rest })) :
    Except ParseError (α × List Token) :=
  x.map fun (a, rest) => (a, rest.1)

@[simp]
theorem plain_ok (x : α × { rest : List Token // p rest }) : plain (.ok x) = .ok (x.1, x.2.1) := rfl

@[simp]
theorem plain_error (e : ParseError) :
    plain (.error e : Except ParseError (α × { rest // p rest })) = .error e := rfl

/-- What is left is as it has to be. -/
theorem left_of_plain {x : Except ParseError (α × { rest : List Token // p rest })} {a : α}
    {rest : List Token} (h : plain x = .ok (a, rest)) : p rest := by
  cases x with
  | error e => cases h
  | ok y =>
      obtain ⟨-, rfl⟩ := Prod.mk.inj (Except.ok.inj h)
      exact y.2.2

end

variable (stop maxHops : Nat)

theorem plain_assignment (ts : List Token) :
    plain (assignment stop maxHops ts) = (do
      let (target, r) ← plain (ternary stop maxHops ts)
      match front? Token.Kind.assignment? r with
      | none => .ok (target, r)
      | some (op, _, afterOp) =>
        if target.isPlace then do
          let (value, rest) ← plain (assignment stop maxHops afterOp)
          .ok (ofAssignment op target value, rest)
        else .error ⟨target.span, .notAssignable⟩) := by
  rw [assignment]
  cases ternary stop maxHops ts with
  | error e => rfl
  | ok x =>
      simp only [plain_ok, bind, Except.bind]
      split
      · next h => simp only [h, plain_ok]
      · next h =>
        simp only [h]
        split
        · cases assignment stop maxHops _ <;> rfl
        · rfl

theorem plain_ternary (ts : List Token) :
    plain (ternary stop maxHops ts) = (do
      let (cond, r) ← plain (binary stop maxHops 1 ts)
      match front? (Token.Kind.mark? .question) r with
      | none => .ok (cond, r)
      | some (_, _, afterQuestion) => do
        let (yes, r') ← plain (assignment stop maxHops afterQuestion)
        match front? (Token.Kind.mark? .colon) r' with
        | none => .error (failAt stop r' .missingColon)
        | some (_, _, afterColon) => do
          let (no, rest) ← plain (assignment stop maxHops afterColon)
          .ok (.ternary (cond.span.merge no.span) cond yes no, rest)) := by
  rw [ternary]
  cases binary stop maxHops 1 ts with
  | error e => rfl
  | ok x =>
      simp only [plain_ok, bind, Except.bind]
      split
      · next h => simp only [h, plain_ok]
      · next afterQuestion h =>
        simp only [h]
        cases assignment stop maxHops afterQuestion with
        | error e => rfl
        | ok y =>
            simp only [plain_ok]
            split
            · next hc => simp only [hc, plain_error]
            · next afterColon hc =>
              simp only [hc]
              cases assignment stop maxHops afterColon <;> rfl

theorem plain_binary (least : Nat) (ts : List Token) :
    plain (binary stop maxHops least ts) = (do
      let (left, r) ← plain (unary stop maxHops ts)
      plain (binaryTail stop maxHops least left r)) := by
  rw [binary]
  cases unary stop maxHops ts with
  | error e => rfl
  | ok x =>
      simp only [plain_ok, bind, Except.bind]
      cases binaryTail stop maxHops least x.1 x.2.1 <;> rfl

theorem plain_binaryTail (least : Nat) (left : Expr) (ts : List Token) :
    plain (binaryTail stop maxHops least left ts) =
      (match front? Token.Kind.binary? ts with
      | none => .ok (left, ts)
      | some ((op, precedence), _, afterOp) =>
        if precedence < least then .ok (left, ts)
        else do
          let (right, r) ← plain (binary stop maxHops (precedence + 1) afterOp)
          plain (binaryTail stop maxHops least
            (.binary (left.span.merge right.span) op left right) r)) := by
  rw [binaryTail]
  split
  · next h => simp only [h, plain_ok]
  · next op precedence span afterOp h =>
    simp only [h, bind, Except.bind]
    split
    · rfl
    · cases binary stop maxHops (precedence + 1) afterOp with
      | error e => rfl
      | ok x =>
          simp only [plain_ok]
          cases binaryTail stop maxHops least _ x.2.1 <;> rfl

theorem plain_unary (ts : List Token) :
    plain (unary stop maxHops ts) =
      (match front? Token.Kind.unary? ts with
      | none => plain (postfixed stop maxHops ts)
      | some (op, opSpan, afterOp) => do
        let (operand, rest) ← plain (unary stop maxHops afterOp)
        .ok (ofUnary op opSpan operand, rest)) := by
  rw [unary]
  split
  · next h => simp only [h]
  · next op opSpan afterOp h =>
    simp only [h]
    cases unary stop maxHops afterOp <;> rfl

theorem plain_postfixed (ts : List Token) :
    plain (postfixed stop maxHops ts) = (do
      let (receiver, r) ← plain (primary stop maxHops ts)
      plain (chain stop maxHops (.new maxHops) receiver r)) := by
  rw [postfixed]
  cases primary stop maxHops ts with
  | error e => rfl
  | ok x =>
      simp only [plain_ok, bind, Except.bind]
      cases chain stop maxHops (.new maxHops) x.1 x.2.1 <;> rfl

theorem plain_chain (hops : Guard) (receiver : Expr) (ts : List Token) :
    plain (chain stop maxHops hops receiver ts) =
      (match front? (Token.Kind.mark? .dot) ts with
      | none => .ok (receiver, ts)
      | some (_, dot, afterDot) =>
        match hops.tick? with
        | none => .error ⟨receiver.span.merge dot, .chainTooLong hops.limit⟩
        | some hops =>
          match front? Token.Kind.ident? afterDot with
          | none => .error (failAt stop afterDot (.unexpected .memberName))
          | some (name, nameSpan, afterName) =>
            match callOpening? afterName with
            | none =>
              plain (chain stop maxHops hops
                (.member (receiver.span.merge nameSpan) receiver name) afterName)
            | some (typeArgs, opened, afterParen) => do
              let ((args, closed), r) ← plain (arguments stop maxHops opened afterParen)
              plain (chain stop maxHops hops
                (.call (receiver.span.merge closed) receiver name typeArgs args) r)) := by
  rw [chain]
  split
  · next h => simp only [h, plain_ok]
  · next dot afterDot h =>
    simp only [h]
    cases hops.tick? with
    | none => rfl
    | some hops' =>
        simp only
        split
        · next hn => simp only [hn, plain_error]
        · next name nameSpan afterName hn =>
          simp only [hn]
          split
          · next hc =>
            simp only [hc]
            cases chain stop maxHops hops' _ afterName <;> rfl
          · next typeArgs opened afterParen hc =>
            simp only [hc, bind, Except.bind]
            cases arguments stop maxHops opened afterParen with
            | error e => rfl
            | ok x =>
                simp only [plain_ok]
                cases chain stop maxHops hops' _ x.2.1 <;> rfl

theorem plain_arguments (opened : Span) (ts : List Token) :
    plain (arguments stop maxHops opened ts) =
      (match front? (Token.Kind.mark? .rightParen) ts with
      | some (_, closed, rest) => .ok (([], closed), rest)
      | none => plain (someArguments stop maxHops opened ts)) := by
  rw [arguments]
  split
  · next h => simp only [h, plain_ok]
  · next h => simp only [h]

theorem plain_someArguments (opened : Span) (ts : List Token) :
    plain (someArguments stop maxHops opened ts) = (do
      let (arg, r) ← plain (assignment stop maxHops ts)
      match front? (Token.Kind.mark? .comma) r with
      | some (_, _, afterComma) => do
        let ((args, closed), rest) ← plain (someArguments stop maxHops opened afterComma)
        .ok ((arg :: args, closed), rest)
      | none =>
        match front? (Token.Kind.mark? .rightParen) r with
        | some (_, closed, rest) => .ok (([arg], closed), rest)
        | none => .error (failAt stop r (.unclosedParen opened))) := by
  rw [someArguments]
  cases assignment stop maxHops ts with
  | error e => rfl
  | ok x =>
      simp only [plain_ok, bind, Except.bind]
      split
      · next afterComma h =>
        simp only [h]
        cases someArguments stop maxHops opened afterComma <;> rfl
      · next h =>
        simp only [h]
        split
        · next hp => simp only [hp, plain_ok]
        · next hp => simp only [hp, plain_error]

theorem plain_primary (ts : List Token) :
    plain (primary stop maxHops ts) =
      (match front? Token.Kind.literal? ts with
      | some (value, span, rest) => .ok (.literal span value, rest)
      | none =>
        match front? Token.Kind.ident? ts with
        | some (name, span, rest) => .ok (.ident span name, rest)
        | none =>
          match front? (Token.Kind.mark? .leftParen) ts with
          | none => .error (notAnOperand stop ts)
          | some (_, opened, afterParen) => do
            let (inner, r) ← plain (assignment stop maxHops afterParen)
            match front? (Token.Kind.mark? .rightParen) r with
            | none => .error (failAt stop r (.unclosedParen opened))
            | some (_, _, rest) => .ok (inner, rest)) := by
  rw [primary]
  split
  · next h => simp only [h, plain_ok]
  · next h =>
    simp only [h]
    split
    · next hi => simp only [hi, plain_ok]
    · next hi =>
      simp only [hi]
      split
      · next ho => simp only [ho, plain_error]
      · next opened afterParen ho =>
        simp only [ho]
        cases assignment stop maxHops afterParen with
        | error e => rfl
        | ok x =>
            simp only [plain_ok, bind, Except.bind]
            split
            · next hp => simp only [hp, plain_error]
            · next hp => simp only [hp, plain_ok]

variable {stop maxHops}

/-- Nothing that a unary phrase goes on with. -/
structure EndsUnary (ts : List Token) : Prop where
  dot : front? (Token.Kind.mark? .dot) ts = none
  paren : front? (Token.Kind.mark? .leftParen) ts = none

structure EndsBinary (ts : List Token) : Prop extends EndsUnary ts where
  binary : front? Token.Kind.binary? ts = none

structure EndsTernary (ts : List Token) : Prop extends EndsBinary ts where
  question : front? (Token.Kind.mark? .question) ts = none

structure EndsAssignment (ts : List Token) : Prop extends EndsTernary ts where
  assignment : front? Token.Kind.assignment? ts = none

theorem endsAssignment_nil : EndsAssignment [] := ⟨⟨⟨⟨rfl, rfl⟩, rfl⟩, rfl⟩, rfl⟩

theorem endsAssignment_mark {t : Token} {m : Token.Mark} (ht : t.kind = .mark m)
    (hm : m = .rightParen ∨ m = .comma ∨ m = .colon) (ts : List Token) : EndsAssignment (t :: ts) := by
  rcases hm with rfl | rfl | rfl <;>
    exact ⟨⟨⟨⟨by simp [ht, Token.Kind.mark?], by simp [ht, Token.Kind.mark?]⟩,
      by simp [ht, Token.Kind.binary?]⟩, by simp [ht, Token.Kind.mark?]⟩,
      by simp [ht, Token.Kind.assignment?]⟩

theorem endsTernary_assignment {t : Token} {op : Operator} (ht : t.kind = .op op)
    (hop : op.isAssignment = true) (ts : List Token) : EndsTernary (t :: ts) := by
  have hbinary : op.binaryPrecedence? = none := by cases op <;> first | rfl | cases hop
  exact ⟨⟨⟨by simp [ht, Token.Kind.mark?], by simp [ht, Token.Kind.mark?]⟩,
    by simp [ht, Token.Kind.binary?, hbinary]⟩, by simp [ht, Token.Kind.mark?]⟩

theorem endsBinary_question {t : Token} (ht : t.kind = .mark .question) (ts : List Token) :
    EndsBinary (t :: ts) :=
  ⟨⟨by simp [ht, Token.Kind.mark?], by simp [ht, Token.Kind.mark?]⟩,
    by simp [ht, Token.Kind.binary?]⟩

theorem endsUnary_op {t : Token} {op : Operator} (ht : t.kind = .op op) (ts : List Token) :
    EndsUnary (t :: ts) :=
  ⟨by simp [ht, Token.Kind.mark?], by simp [ht, Token.Kind.mark?]⟩

variable {ts rest : List Token} {e : Expr}

theorem primary_of_literal {t : Token} {value : Literal} (ht : t.kind.literal? = some value)
    (rest : List Token) :
    plain (primary stop maxHops (t :: rest)) = .ok (.literal t.span value, rest) := by
  rw [plain_primary]
  simp only [front?_cons, ht, Option.map_some]

theorem primary_of_ident {t : Token} {name : String} (ht : t.kind = .ident name) (rest : List Token) :
    plain (primary stop maxHops (t :: rest)) = .ok (.ident t.span name, rest) := by
  rw [plain_primary]
  simp [ht, Token.Kind.literal?, Token.Kind.ident?]

theorem primary_of_group {opening closing : Token} (hopening : opening.kind = .mark .leftParen)
    (hclosing : closing.kind = .mark .rightParen)
    (h : plain (assignment stop maxHops ts) = .ok (e, closing :: rest)) :
    plain (primary stop maxHops (opening :: ts)) = .ok (e, rest) := by
  rw [plain_primary]
  simp [hopening, hclosing, Token.Kind.literal?, Token.Kind.ident?, Token.Kind.mark?, h, bind,
    Except.bind]

section

variable {n : Nat} {dot t : Token} {name : String} (hdot : dot.kind = .mark .dot)
  (ht : t.kind = .ident name) (hn : n < maxHops) (receiver : Expr)

include hdot ht hn

theorem plain_chain_member (hts : callOpening? ts = none) :
    plain (chain stop maxHops ⟨maxHops, n⟩ receiver (dot :: t :: ts)) =
      plain (chain stop maxHops ⟨maxHops, n + 1⟩
        (.member (receiver.span.merge t.span) receiver name) ts) := by
  have htick : (⟨maxHops, n⟩ : Guard).tick? = some ⟨maxHops, n + 1⟩ :=
    Guard.tick?_eq_some_iff.mpr ⟨hn, rfl⟩
  rw [plain_chain]
  simp [hdot, ht, Token.Kind.mark?, Token.Kind.ident?, htick, hts]

theorem plain_chain_call {typeArgs : List TypeArg} {args : List Expr} {opened closed : Span}
    {us : List Token} (hts : callOpening? ts = some (typeArgs, opened, us))
    (hargs : plain (arguments stop maxHops opened us) = .ok ((args, closed), rest)) :
    plain (chain stop maxHops ⟨maxHops, n⟩ receiver (dot :: t :: ts)) =
      plain (chain stop maxHops ⟨maxHops, n + 1⟩
        (.call (receiver.span.merge closed) receiver name typeArgs args) rest) := by
  have htick : (⟨maxHops, n⟩ : Guard).tick? = some ⟨maxHops, n + 1⟩ :=
    Guard.tick?_eq_some_iff.mpr ⟨hn, rfl⟩
  rw [plain_chain]
  simp [hdot, ht, Token.Kind.mark?, Token.Kind.ident?, htick, hts, hargs, bind, Except.bind]

end

theorem someArguments_of_last {opened : Span} {closing : Token} (hclosing : closing.kind = .mark .rightParen)
    (h : plain (assignment stop maxHops ts) = .ok (e, closing :: rest)) :
    plain (someArguments stop maxHops opened ts) = .ok (([e], closing.span), rest) := by
  rw [plain_someArguments, h]
  simp [bind, Except.bind, hclosing, Token.Kind.mark?]

theorem someArguments_of_comma {opened closed : Span} {comma : Token} {us : List Token} {es : List Expr}
    (hcomma : comma.kind = .mark .comma)
    (h : plain (assignment stop maxHops ts) = .ok (e, comma :: us))
    (hmore : plain (someArguments stop maxHops opened us) = .ok ((es, closed), rest)) :
    plain (someArguments stop maxHops opened ts) = .ok ((e :: es, closed), rest) := by
  rw [plain_someArguments, h]
  simp [bind, Except.bind, hcomma, Token.Kind.mark?, hmore]

theorem unary_of_sign {t : Token} {op : Operator} (ht : t.kind = .op op)
    (hsign : op = .sub ∨ op = .not ∨ op = .bitNot)
    (h : plain (unary stop maxHops ts) = .ok (e, rest)) :
    plain (unary stop maxHops (t :: ts)) = .ok (ofUnary op t.span e, rest) := by
  rw [plain_unary]
  simp [Token.Kind.unary?_eq_some.mpr ⟨ht, hsign⟩, h, bind, Except.bind]

theorem ternary_of_choice {cond yes no : Expr} {question colon : Token} {us vs : List Token}
    (hcond : plain (binary stop maxHops 1 ts) = .ok (cond, question :: us))
    (hquestion : question.kind = .mark .question)
    (hyes : plain (assignment stop maxHops us) = .ok (yes, colon :: vs))
    (hcolon : colon.kind = .mark .colon)
    (hno : plain (assignment stop maxHops vs) = .ok (no, rest)) :
    plain (ternary stop maxHops ts) =
      .ok (.ternary (cond.span.merge no.span) cond yes no, rest) := by
  rw [plain_ternary, hcond]
  simp [bind, Except.bind, hquestion, hcolon, Token.Kind.mark?, hyes, hno]

theorem assignment_of_target {target value : Expr} {t : Token} {op : Operator} {us : List Token}
    (htarget : plain (ternary stop maxHops ts) = .ok (target, t :: us)) (ht : t.kind = .op op)
    (hop : op.isAssignment = true) (hplace : target.isPlace = true)
    (hvalue : plain (assignment stop maxHops us) = .ok (value, rest)) :
    plain (assignment stop maxHops ts) = .ok (ofAssignment op target value, rest) := by
  rw [plain_assignment, htarget]
  simp only [bind, Except.bind, front?_cons, Token.Kind.assignment?_eq_some.mpr ⟨ht, hop⟩,
    Option.map_some, hplace, if_true, hvalue]

theorem plain_chain_of_not_dot (hops : Guard) (receiver : Expr)
    (hts : front? (Token.Kind.mark? .dot) ts = none) :
    plain (chain stop maxHops hops receiver ts) = .ok (receiver, ts) := by
  rw [plain_chain]
  simp only [hts]

theorem plain_unary_of_not_sign (hts : front? Token.Kind.unary? ts = none) :
    plain (unary stop maxHops ts) = plain (postfixed stop maxHops ts) := by
  rw [plain_unary]
  simp only [hts]

theorem binary_of_unary (least : Nat) (h : plain (unary stop maxHops ts) = .ok (e, rest))
    (hrest : front? Token.Kind.binary? rest = none) :
    plain (binary stop maxHops least ts) = .ok (e, rest) := by
  rw [plain_binary, h]
  change plain (binaryTail stop maxHops least e rest) = _
  rw [plain_binaryTail]
  simp only [hrest]

theorem binary_of_operation {us : List Token} {left right : Expr} {t : Token} {op : Operator}
    (hleft : plain (unary stop maxHops ts) = .ok (left, t :: us)) (ht : t.kind = .op op)
    (hop : op.isBinary = true) (hright : plain (unary stop maxHops us) = .ok (right, rest))
    (hrest : front? Token.Kind.binary? rest = none) :
    plain (binary stop maxHops 1 ts) = .ok (.binary (left.span.merge right.span) op left right, rest) := by
  obtain ⟨n, hn⟩ := op.isBinary_iff.mp hop
  have hpos := Operator.one_le_of_binaryPrecedence? hn
  have hfront := Token.Kind.binary?_eq_some.mpr ⟨ht, hn⟩
  rw [plain_binary, hleft]
  simp only [bind, Except.bind]
  rw [plain_binaryTail]
  simp only [front?_cons, hfront, Option.map_some, if_neg (Nat.not_lt.mpr hpos), bind, Except.bind,
    binary_of_unary (n + 1) hright hrest]
  rw [plain_binaryTail]
  simp only [hrest]

theorem ternary_of_binary (h : plain (binary stop maxHops 1 ts) = .ok (e, rest))
    (hrest : front? (Token.Kind.mark? .question) rest = none) :
    plain (ternary stop maxHops ts) = .ok (e, rest) := by
  rw [plain_ternary, h]
  simp only [bind, Except.bind, hrest]

theorem assignment_of_ternary (h : plain (ternary stop maxHops ts) = .ok (e, rest))
    (hrest : front? Token.Kind.assignment? rest = none) :
    plain (assignment stop maxHops ts) = .ok (e, rest) := by
  rw [plain_assignment, h]
  simp only [bind, Except.bind, hrest]

theorem assignment_of_unary (h : plain (unary stop maxHops ts) = .ok (e, rest))
    (hrest : EndsAssignment rest) : plain (assignment stop maxHops ts) = .ok (e, rest) :=
  assignment_of_ternary (ternary_of_binary (binary_of_unary 1 h hrest.binary) hrest.question)
    hrest.assignment

end Parse

theorem ofTokens_eq (maxHops : Nat) (ts : TokenList) :
    ofTokens maxHops ts = (do
      let (e, rest) ← Parse.plain (Parse.assignment ts.stop maxHops ts.tokens)
      if rest.isEmpty then .ok e else .error (Parse.notAtEnd ts.stop rest)) := by
  rw [ofTokens]
  cases Parse.assignment ts.stop maxHops ts.tokens <;> rfl

theorem ofTokens_eq_ok_iff {maxHops : Nat} {ts : TokenList} {e : Expr} :
    ofTokens maxHops ts = .ok e ↔
      Parse.plain (Parse.assignment ts.stop maxHops ts.tokens) = .ok (e, []) := by
  rw [ofTokens_eq, bind_eq_ok]
  constructor
  · rintro ⟨⟨e', rest⟩, he, h⟩
    dsimp only at h
    split at h
    · next hrest => rw [he, List.isEmpty_iff.mp hrest, Except.ok.inj h]
    · cases h
  · intro h
    exact ⟨(e, []), h, rfl⟩

end Expr

end Formula
