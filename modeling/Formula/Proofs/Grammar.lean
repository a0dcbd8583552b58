import Formula.Proofs.Productions

/-!
The grammar of statements, apart from the parser. A phrase stands in front of the tokens that follow it,
on which its shape may depend: a `<` after a member name opens type arguments if it can.

    assignment := ternary | target assignmentOperator assignment
    target     := name | postfix that ends in a member | "(" target ")"
    ternary    := binary | binary "?" assignment ":" assignment
    binary     := unary (operator unary)*
    unary      := ("-" | "!" | "~") unary | postfix
    postfix    := primary ("." name (typeArgs? "(" arguments ")")?)*
    primary    := literal | name | "(" assignment ")"
    arguments  := (assignment ("," assignment)*)?
-/

namespace Formula.Expr

inductive Category where
  | assignment
  | target
  | ternary
  | binary
  | unary
  /-- With the number of its hops, and whether the last of them is a member. -/
  | postfixed (hops : Nat) (endsInMember : Bool)
  | primary
  /-- With the parenthesis that closes them. -/
  | arguments
  | someArguments

namespace Grammar

/-- Names with commas between them. -/
inductive Names : List Token → List Token → Prop
  | one {t : Token} {name : String} {rest : List Token} :
      t.kind = .ident name → Names (t :: rest) rest
  | more {t comma : Token} {name : String} {ts rest : List Token} :
      t.kind = .ident name → comma.kind = .mark .comma → Names ts rest →
      Names (t :: comma :: ts) rest

/-- Names between `<` and `>` right before the parenthesis of a call. -/
inductive TypeArguments : List Token → List Token → Prop
  | mk {less greater paren : Token} {ts rest : List Token} :
      less.kind = .op .less → Names ts (greater :: paren :: rest) → greater.kind = .op .greater →
      paren.kind = .mark .leftParen → TypeArguments (less :: ts) (paren :: rest)

/-- `Derives maxHops c ts rest` says that `ts` begins with a phrase of the category `c`, behind which
`rest` is left. No postfix phrase has more than `maxHops` hops. -/
inductive Derives (maxHops : Nat) : Category → List Token → List Token → Prop
  | value {ts rest} : Derives maxHops .ternary ts rest → Derives maxHops .assignment ts rest
  | assign {t : Token} {op ts us rest} :
      Derives maxHops .target ts (t :: us) → t.kind = .op op → op.isAssignment = true →
      Derives maxHops .assignment us rest → Derives maxHops .assignment ts rest
  | name {t : Token} {name rest} : t.kind = .ident name → Derives maxHops .target (t :: rest) rest
  | member {n ts rest} :
      Derives maxHops (.postfixed n true) ts rest → n ≤ maxHops → Derives maxHops .target ts rest
  | groupedTarget {opening closing : Token} {ts rest} :
      opening.kind = .mark .leftParen → Derives maxHops .target ts (closing :: rest) →
      closing.kind = .mark .rightParen → Derives maxHops .target (opening :: ts) rest
  | operation {ts rest} : Derives maxHops .binary ts rest → Derives maxHops .ternary ts rest
  | choice {question colon : Token} {ts us vs rest} :
      Derives maxHops .binary ts (question :: us) → question.kind = .mark .question →
      Derives maxHops .assignment us (colon :: vs) → colon.kind = .mark .colon →
      Derives maxHops .assignment vs rest → Derives maxHops .ternary ts rest
  | operand {ts rest} : Derives maxHops .unary ts rest → Derives maxHops .binary ts rest
  | operator {t : Token} {op ts us rest} :
      Derives maxHops .unary ts (t :: us) → t.kind = .op op → op.isBinary = true →
      Derives maxHops .binary us rest → Derives maxHops .binary ts rest
  | signed {t : Token} {op ts rest} :
      t.kind = .op op → op = .sub ∨ op = .not ∨ op = .bitNot → Derives maxHops .unary ts rest →
      Derives maxHops .unary (t :: ts) rest
  | unsigned {n endsInMember ts rest} :
      Derives maxHops (.postfixed n endsInMember) ts rest → n ≤ maxHops →
      Derives maxHops .unary ts rest
  | start {ts rest} : Derives maxHops .primary ts rest → Derives maxHops (.postfixed 0 false) ts rest
  | hop {dot t : Token} {name n endsInMember ts rest} :
      Derives maxHops (.postfixed n endsInMember) ts (dot :: t :: rest) → dot.kind = .mark .dot →
      t.kind = .ident name → (¬∃ us, TypeArguments rest us) →
      Derives maxHops (.postfixed (n + 1) true) ts rest
  | call {dot t paren : Token} {name n endsInMember ts us rest} :
      Derives maxHops (.postfixed n endsInMember) ts (dot :: t :: paren :: us) →
      dot.kind = .mark .dot → t.kind = .ident name → paren.kind = .mark .leftParen →
      Derives maxHops .arguments us rest → Derives maxHops (.postfixed (n + 1) false) ts rest
  | genericCall {dot t paren : Token} {name n endsInMember ts us vs rest} :
      Derives maxHops (.postfixed n endsInMember) ts (dot :: t :: us) → dot.kind = .mark .dot →
      t.kind = .ident name → TypeArguments us (paren :: vs) → Derives maxHops .arguments vs rest →
      Derives maxHops (.postfixed (n + 1) false) ts rest
  | literal {t : Token} {value rest} :
      t.kind.literal? = some value → Derives maxHops .primary (t :: rest) rest
  | ident {t : Token} {name rest} : t.kind = .ident name → Derives maxHops .primary (t :: rest) rest
  | group {opening closing : Token} {ts rest} :
      opening.kind = .mark .leftParen → Derives maxHops .assignment ts (closing :: rest) →
      closing.kind = .mark .rightParen → Derives maxHops .primary (opening :: ts) rest
  | noArguments {closing : Token} {rest} :
      closing.kind = .mark .rightParen → Derives maxHops .arguments (closing :: rest) rest
  | hasArguments {ts rest} :
      Derives maxHops .someArguments ts rest → Derives maxHops .arguments ts rest
  | lastArgument {closing : Token} {ts rest} :
      Derives maxHops .assignment ts (closing :: rest) → closing.kind = .mark .rightParen →
      Derives maxHops .someArguments ts rest
  | argument {comma : Token} {ts us rest} :
      Derives maxHops .assignment ts (comma :: us) → comma.kind = .mark .comma →
      Derives maxHops .someArguments us rest → Derives maxHops .someArguments ts rest

section

variable {maxHops : Nat} {ts rest : List Token}

theorem names_of_typeNames {args : List TypeArg} (h : Parse.typeNames ts = some (args, rest)) :
    Names ts rest := by
  fun_induction Parse.typeNames ts generalizing args with
  | case1 => cases h
  | case2 ts name span rest' hn hc =>
      obtain ⟨-, rfl⟩ := Prod.mk.inj (Option.some.inj h)
      obtain ⟨t, rfl, ht, rfl⟩ := Parse.front?_ident_eq_some.mp hn
      exact .one ht
  | case3 ts name span rest' hn _ _ more hc ih =>
      obtain ⟨⟨as, r⟩, hr, heq⟩ := Option.map_eq_some_iff.mp h
      obtain ⟨-, rfl⟩ := Prod.mk.inj heq
      obtain ⟨t, rfl, ht, rfl⟩ := Parse.front?_ident_eq_some.mp hn
      obtain ⟨comma, rfl, hcomma, rfl⟩ := Parse.front?_mark_eq_some.mp hc
      exact .more ht hcomma (ih hr)

theorem typeNames_of_names (h : Names ts rest)
    (hrest : Parse.front? (Token.Kind.mark? .comma) rest = none) :
    ∃ args, Parse.typeNames ts = some (args, rest) := by
  induction h with
  | one ht =>
      rw [Parse.typeNames_eq]
      simp [ht, Token.Kind.ident?, hrest]
  | more ht hcomma _ ih =>
      obtain ⟨args, hargs⟩ := ih hrest
      rw [Parse.typeNames_eq]
      simp [ht, hcomma, Token.Kind.ident?, Token.Kind.mark?, hargs]

/-- A call opens with a parenthesis, or with type arguments that a parenthesis follows. -/
theorem callOpening_cases {args : List TypeArg} {opened : Span}
    (h : Parse.callOpening? ts = some (args, opened, rest)) :
    ∃ paren : Token, paren.kind = .mark .leftParen ∧ paren.span = opened ∧
      (ts = paren :: rest ∧ args = [] ∨ TypeArguments ts (paren :: rest)) := by
  rw [Parse.callOpening?] at h
  split at h
  · next hp =>
    obtain ⟨rfl, rfl, rfl⟩ : [] = args ∧ _ = opened ∧ _ = rest := by simpa using h
    obtain ⟨paren, rfl, hparen, rfl⟩ := Parse.front?_mark_eq_some.mp hp
    exact ⟨paren, hparen, rfl, .inl ⟨rfl, rfl⟩⟩
  · obtain ⟨⟨_, _, afterLess⟩, hl, h⟩ := Option.bind_eq_some_iff.mp h
    obtain ⟨⟨as, afterNames⟩, hn, h⟩ := Option.bind_eq_some_iff.mp h
    obtain ⟨⟨_, _, afterGreater⟩, hg, h⟩ := Option.bind_eq_some_iff.mp h
    obtain ⟨⟨_, _, r⟩, hp, h⟩ := Option.map_eq_some_iff.mp h
    obtain ⟨rfl, rfl, rfl⟩ : as = args ∧ _ = opened ∧ r = rest := by simpa using h
    obtain ⟨less, rfl, hless, rfl⟩ := Parse.front?_op_eq_some.mp hl
    obtain ⟨greater, rfl, hgreater, rfl⟩ := Parse.front?_op_eq_some.mp hg
    obtain ⟨paren, rfl, hparen, rfl⟩ := Parse.front?_mark_eq_some.mp hp
    exact ⟨paren, hparen, rfl, .inr (.mk hless (names_of_typeNames hn) hgreater hparen)⟩

theorem callOpening_of_typeArguments {paren : Token} (h : TypeArguments ts (paren :: rest)) :
    ∃ args, Parse.callOpening? ts = some (args, paren.span, rest) := by
  cases h with
  | mk hless hnames hgreater hparen =>
      obtain ⟨args, hargs⟩ := typeNames_of_names hnames
        (by simp [hgreater, Token.Kind.mark?])
      refine ⟨args, ?_⟩
      simp [Parse.callOpening?, Token.Kind.mark?, Token.Kind.op?, hless, hgreater, hparen,
        hargs]

theorem callOpening_eq_none_iff :
    Parse.callOpening? ts = none ↔
      Parse.front? (Token.Kind.mark? .leftParen) ts = none ∧ ¬∃ us, TypeArguments ts us := by
  constructor
  · intro h
    refine ⟨?_, ?_⟩
    · cases hp : Parse.front? (Token.Kind.mark? .leftParen) ts with
      | none => rfl
      | some found => simp [Parse.callOpening?, hp] at h
    · rintro ⟨us, ht⟩
      obtain ⟨paren, us, rfl⟩ : ∃ paren vs, us = paren :: vs := by cases ht; exact ⟨_, _, rfl⟩
      obtain ⟨args, ho⟩ := callOpening_of_typeArguments ht
      simp [h] at ho
  · rintro ⟨hp, ht⟩
    cases ho : Parse.callOpening? ts with
    | none => rfl
    | some found =>
        obtain ⟨paren, hparen, -, ⟨rfl, -⟩ | htypes⟩ := callOpening_cases ho
        · simp [hparen, Token.Kind.mark?] at hp
        · exact absurd ⟨_, htypes⟩ ht

end

section

variable {stop maxHops : Nat}

theorem isPlace_ofAssignment (op : Operator) (target value : Expr) :
    (ofAssignment op target value).isPlace = false := by
  rw [ofAssignment]
  cases op.compoundBase? <;> rfl

theorem isPlace_ofUnary (op : Operator) (span : Span) (operand : Expr) :
    (ofUnary op span operand).isPlace = false := by
  cases op <;> rfl

/-- Operators and operands in front of `rest`, or nothing at all. -/
def Operations (maxHops : Nat) (ts rest : List Token) : Prop :=
  ts = rest ∨ ∃ t op us, ts = t :: us ∧ t.kind = .op op ∧ op.isBinary = true ∧
    Derives maxHops .binary us rest

/-- Operations go on with more operations. -/
theorem Derives.append {ts r rest : List Token} (h : Derives maxHops .binary ts r)
    (hr : Operations maxHops r rest) : Derives maxHops .binary ts rest := by
  generalize hc : Category.binary = c at h
  induction h with
  | operand hu =>
      rcases hr with rfl | ⟨t, op, us, rfl, ht, hop, hb⟩
      · exact .operand hu
      · exact .operator hu ht hop hb
  | operator hu ht hop _ _ ih => exact .operator hu ht hop (ih hr rfl)
  | value | assign | name | member | groupedTarget | operation | choice | signed | unsigned | start
  | hop | call | genericCall | literal | ident | group | noArguments | hasArguments | lastArgument
  | argument => cases hc

/-! What the parser accepts are phrases. A place comes from a target. -/

mutual

theorem derives_of_assignment {ts rest : List Token} {e : Expr}
    (h : Parse.plain (Parse.assignment stop maxHops ts) = .ok (e, rest)) :
    Derives maxHops .assignment ts rest ∧ (e.isPlace = true → Derives maxHops .target ts rest) := by
  rw [Parse.plain_assignment] at h
  obtain ⟨⟨target, r⟩, ht, h⟩ := bind_eq_ok.mp h
  have hd := derives_of_ternary ht
  cases ho : Parse.front? Token.Kind.assignment? r with
  | none =>
      simp only [ho] at h
      obtain ⟨rfl, rfl⟩ := Prod.mk.inj (Except.ok.inj h)
      exact ⟨.value hd.1, hd.2⟩
  | some found =>
      obtain ⟨op, span, afterOp⟩ := found
      simp only [ho] at h
      split at h
      · next hplace =>
        obtain ⟨⟨value, r'⟩, hv, h⟩ := bind_eq_ok.mp h
        obtain ⟨rfl, rfl⟩ := Prod.mk.inj (Except.ok.inj h)
        have := Parse.left_of_plain ht
        have := Parse.length_front ho
        obtain ⟨t, rfl, hop, rfl⟩ := Parse.front?_eq_some.mp ho
        obtain ⟨hop, hassign⟩ := Token.Kind.assignment?_eq_some.mp hop
        refine ⟨.assign (hd.2 hplace) hop hassign (derives_of_assignment hv).1, ?_⟩
        simp [isPlace_ofAssignment]
      · cases h
termination_by (ts.length, 5)

theorem derives_of_ternary {ts rest : List Token} {e : Expr}
    (h : Parse.plain (Parse.ternary stop maxHops ts) = .ok (e, rest)) :
    Derives maxHops .ternary ts rest ∧ (e.isPlace = true → Derives maxHops .target ts rest) := by
  rw [Parse.plain_ternary] at h
  obtain ⟨⟨cond, r⟩, hc, h⟩ := bind_eq_ok.mp h
  have hd := derives_of_binary hc
  cases hq : Parse.front? (Token.Kind.mark? .question) r with
  | none =>
      simp only [hq] at h
      obtain ⟨rfl, rfl⟩ := Prod.mk.inj (Except.ok.inj h)
      exact ⟨.operation hd.1, hd.2⟩
  | some found =>
      obtain ⟨_, _, afterQuestion⟩ := found
      simp only [hq] at h
      obtain ⟨⟨yes, r'⟩, hy, h⟩ := bind_eq_ok.mp h
      cases hm : Parse.front? (Token.Kind.mark? .colon) r' with
      | none => simp [hm] at h
      | some found =>
          obtain ⟨_, _, afterColon⟩ := found
          simp only [hm] at h
          obtain ⟨⟨no, r''⟩, hn, h⟩ := bind_eq_ok.mp h
          obtain ⟨rfl, rfl⟩ := Prod.mk.inj (Except.ok.inj h)
          have := Parse.left_of_plain hc
          have := Parse.left_of_plain hy
          have := Parse.length_front hq
          have := Parse.length_front hm
          obtain ⟨question, rfl, hquestion, rfl⟩ := Parse.front?_mark_eq_some.mp hq
          obtain ⟨colon, rfl, hcolon, rfl⟩ := Parse.front?_mark_eq_some.mp hm
          refine ⟨.choice hd.1 hquestion (derives_of_assignment hy).1 hcolon
            (derives_of_assignment hn).1, ?_⟩
          simp [isPlace]
termination_by (ts.length, 4)

theorem derives_of_binary {least : Nat} {ts rest : List Token} {e : Expr}
    (h : Parse.plain (Parse.binary stop maxHops least ts) = .ok (e, rest)) :
    Derives maxHops .binary ts rest ∧ (e.isPlace = true → Derives maxHops .target ts rest) := by
  rw [Parse.plain_binary] at h
  obtain ⟨⟨left, r⟩, hl, h⟩ := bind_eq_ok.mp h
  have hd := derives_of_unary hl
  have := Parse.left_of_plain hl
  have ht := derives_of_binaryTail h
  refine ⟨(Derives.operand hd.1).append ht.1, fun hplace => ?_⟩
  obtain ⟨rfl, rfl⟩ := ht.2 hplace
  exact hd.2 hplace
termination_by (ts.length, 3)

theorem derives_of_binaryTail {least : Nat} {left : Expr} {ts rest : List Token} {e : Expr}
    (h : Parse.plain (Parse.binaryTail stop maxHops least left ts) = .ok (e, rest)) :
    Operations maxHops ts rest ∧ (e.isPlace = true → e = left ∧ ts = rest) := by
  rw [Parse.plain_binaryTail] at h
  cases ho : Parse.front? Token.Kind.binary? ts with
  | none =>
      simp only [ho] at h
      obtain ⟨rfl, rfl⟩ := Prod.mk.inj (Except.ok.inj h)
      exact ⟨.inl rfl, fun _ => ⟨rfl, rfl⟩⟩
  | some found =>
      obtain ⟨⟨op, precedence⟩, span, afterOp⟩ := found
      simp only [ho] at h
      split at h
      · obtain ⟨rfl, rfl⟩ := Prod.mk.inj (Except.ok.inj h)
        exact ⟨.inl rfl, fun _ => ⟨rfl, rfl⟩⟩
      · obtain ⟨⟨right, r⟩, hr, h⟩ := bind_eq_ok.mp h
        have := Parse.length_front ho
        have := Parse.left_of_plain hr
        have hd := (derives_of_binary hr).1
        have ht := derives_of_binaryTail h
        obtain ⟨t, rfl, hop, rfl⟩ := Parse.front?_eq_some.mp ho
        obtain ⟨hop, hp⟩ := Token.Kind.binary?_eq_some.mp hop
        refine ⟨.inr ⟨t, op, afterOp, rfl, hop, (Operator.isBinary_iff op).mpr ⟨_, hp⟩,
          hd.append ht.1⟩, fun hplace => ?_⟩
        obtain ⟨rfl, -⟩ := ht.2 hplace
        simp [isPlace] at hplace
termination_by (ts.length, 0)

theorem derives_of_unary {ts rest : List Token} {e : Expr}
    (h : Parse.plain (Parse.unary stop maxHops ts) = .ok (e, rest)) :
    Derives maxHops .unary ts rest ∧ (e.isPlace = true → Derives maxHops .target ts rest) := by
  rw [Parse.plain_unary] at h
  cases ho : Parse.front? Token.Kind.unary? ts with
  | none =>
      simp only [ho] at h
      obtain ⟨n, endsInMember, hn, hd, ht⟩ := derives_of_postfixed h
      exact ⟨.unsigned hd hn, ht⟩
  | some found =>
      obtain ⟨op, span, afterOp⟩ := found
      simp only [ho] at h
      obtain ⟨⟨operand, r⟩, hu, h⟩ := bind_eq_ok.mp h
      obtain ⟨rfl, rfl⟩ := Prod.mk.inj (Except.ok.inj h)
      have := Parse.length_front ho
      obtain ⟨t, rfl, hop, rfl⟩ := Parse.front?_eq_some.mp ho
      obtain ⟨hop, hsign⟩ := Token.Kind.unary?_eq_some.mp hop
      refine ⟨.signed hop hsign (derives_of_unary hu).1, ?_⟩
      simp [isPlace_ofUnary]
termination_by (ts.length, 2)

theorem derives_of_postfixed {ts rest : List Token} {e : Expr}
    (h : Parse.plain (Parse.postfixed stop maxHops ts) = .ok (e, rest)) :
    ∃ n endsInMember, n ≤ maxHops ∧ Derives maxHops (.postfixed n endsInMember) ts rest ∧
      (e.isPlace = true → Derives maxHops .target ts rest) := by
  rw [Parse.plain_postfixed] at h
  obtain ⟨⟨receiver, r⟩, hr, h⟩ := bind_eq_ok.mp h
  have hd := derives_of_primary hr
  have := Parse.left_of_plain hr
  exact derives_of_chain (.new maxHops) rfl (Nat.zero_le _) (.start hd.1) hd.2 h
termination_by (ts.length, 1)

/-- The chain goes on from a receiver that began at `start`. -/
theorem derives_of_chain (hops : Guard) {receiver e : Expr} {start ts rest : List Token}
    {endsInMember : Bool} (hlimit : hops.limit = maxHops) (hcount : hops.count ≤ maxHops)
    (hstart : Derives maxHops (.postfixed hops.count endsInMember) start ts)
    (htarget : receiver.isPlace = true → Derives maxHops .target start ts)
    (h : Parse.plain (Parse.chain stop maxHops hops receiver ts) = .ok (e, rest)) :
    ∃ n endsInMember, n ≤ maxHops ∧ Derives maxHops (.postfixed n endsInMember) start rest ∧
      (e.isPlace = true → Derives maxHops .target start rest) := by
  rw [Parse.plain_chain] at h
  cases hd : Parse.front? (Token.Kind.mark? .dot) ts with
  | none =>
      simp only [hd] at h
      obtain ⟨rfl, rfl⟩ := Prod.mk.inj (Except.ok.inj h)
      exact ⟨_, _, hcount, hstart, htarget⟩
  | some found =>
      obtain ⟨_, _, afterDot⟩ := found
      simp only [hd] at h
      cases ht : hops.tick? with
      | none => simp [ht] at h
      | some hops' =>
          simp only [ht] at h
          cases hn : Parse.front? Token.Kind.ident? afterDot with
          | none => simp [hn] at h
          | some found =>
              obtain ⟨name, nameSpan, afterName⟩ := found
              simp only [hn] at h
              obtain ⟨hlt, rfl⟩ := Guard.tick?_eq_some_iff.mp ht
              have hle : hops.count + 1 ≤ maxHops := hlimit ▸ hlt
              have := Parse.length_front hd
              have := Parse.length_front hn
              obtain ⟨dot, rfl, hdot, -⟩ := Parse.front?_mark_eq_some.mp hd
              obtain ⟨t, rfl, hname, rfl⟩ := Parse.front?_ident_eq_some.mp hn
              cases hc : Parse.callOpening? afterName with
              | none =>
                  simp only [hc] at h
                  have hstart' := hstart.hop hdot hname (callOpening_eq_none_iff.mp hc).2
                  exact derives_of_chain ⟨hops.limit, hops.count + 1⟩ hlimit hle hstart'
                    (fun _ => .member hstart' hle) h
              | some found =>
                  obtain ⟨typeArgs, opened, afterParen⟩ := found
                  simp only [hc] at h
                  obtain ⟨⟨⟨args, closed⟩, r⟩, ha, h⟩ := bind_eq_ok.mp h
                  have := Parse.length_callOpening hc
                  have := Parse.left_of_plain ha
                  have hargs := derives_of_arguments ha
                  have hstart' : Derives maxHops (.postfixed (hops.count + 1) false) start r := by
                    obtain ⟨paren, hparen, -, ⟨rfl, -⟩ | htypes⟩ := callOpening_cases hc
                    · exact hstart.call hdot hname hparen hargs
                    · exact hstart.genericCall hdot hname htypes hargs
                  exact derives_of_chain ⟨hops.limit, hops.count + 1⟩ hlimit hle hstart'
                    (by simp [isPlace]) h
termination_by (ts.length, 0)

theorem derives_of_arguments {opened closed : Span} {ts rest : List Token} {es : List Expr}
    (h : Parse.plain (Parse.arguments stop maxHops opened ts) = .ok ((es, closed), rest)) :
    Derives maxHops .arguments ts rest := by
  rw [Parse.plain_arguments] at h
  cases hp : Parse.front? (Token.Kind.mark? .rightParen) ts with
  | none =>
      simp only [hp] at h
      exact .hasArguments (derives_of_someArguments h)
  | some found =>
      simp only [hp] at h
      obtain ⟨-, rfl⟩ := Prod.mk.inj (Except.ok.inj h)
      obtain ⟨closing, rfl, hclosing, -⟩ := Parse.front?_mark_eq_some.mp hp
      exact .noArguments hclosing
termination_by (ts.length, 7)

theorem derives_of_someArguments {opened closed : Span} {ts rest : List Token} {es : List Expr}
    (h : Parse.plain (Parse.someArguments stop maxHops opened ts) = .ok ((es, closed), rest)) :
    Derives maxHops .someArguments ts rest := by
  rw [Parse.plain_someArguments] at h
  obtain ⟨⟨arg, r⟩, ha, h⟩ := bind_eq_ok.mp h
  have hd := (derives_of_assignment ha).1
  have := Parse.left_of_plain ha
  cases hc : Parse.front? (Token.Kind.mark? .comma) r with
  | some found =>
      obtain ⟨_, _, afterComma⟩ := found
      simp only [hc] at h
      obtain ⟨⟨⟨args, closed'⟩, r'⟩, hs, h⟩ := bind_eq_ok.mp h
      obtain ⟨-, rfl⟩ := Prod.mk.inj (Except.ok.inj h)
      have := Parse.length_front hc
      obtain ⟨comma, rfl, hcomma, -⟩ := Parse.front?_mark_eq_some.mp hc
      exact .argument hd hcomma (derives_of_someArguments hs)
  | none =>
      simp only [hc] at h
      cases hp : Parse.front? (Token.Kind.mark? .rightParen) r with
      | none => simp [hp] at h
      | some found =>
          simp only [hp] at h
          obtain ⟨-, rfl⟩ := Prod.mk.inj (Except.ok.inj h)
          obtain ⟨closing, rfl, hclosing, -⟩ := Parse.front?_mark_eq_some.mp hp
          exact .lastArgument hd hclosing
termination_by (ts.length, 6)

theorem derives_of_primary {ts rest : List Token} {e : Expr}
    (h : Parse.plain (Parse.primary stop maxHops ts) = .ok (e, rest)) :
    Derives maxHops .primary ts rest ∧ (e.isPlace = true → Derives maxHops .target ts rest) := by
  rw [Parse.plain_primary] at h
  cases hl : Parse.front? Token.Kind.literal? ts with
  | some found =>
      simp only [hl] at h
      obtain ⟨rfl, rfl⟩ := Prod.mk.inj (Except.ok.inj h)
      obtain ⟨t, rfl, ht, -⟩ := Parse.front?_eq_some.mp hl
      exact ⟨.literal ht, by simp [isPlace]⟩
  | none =>
      simp only [hl] at h
      cases hi : Parse.front? Token.Kind.ident? ts with
      | some found =>
          simp only [hi] at h
          obtain ⟨rfl, rfl⟩ := Prod.mk.inj (Except.ok.inj h)
          obtain ⟨t, rfl, ht, -⟩ := Parse.front?_ident_eq_some.mp hi
          exact ⟨.ident ht, fun _ => .name ht⟩
      | none =>
          simp only [hi] at h
          cases ho : Parse.front? (Token.Kind.mark? .leftParen) ts with
          | none => simp [ho] at h
          | some found =>
              obtain ⟨_, opened, afterParen⟩ := found
              simp only [ho] at h
              obtain ⟨⟨inner, r⟩, hg, h⟩ := bind_eq_ok.mp h
              have := Parse.length_front ho
              have hd := derives_of_assignment hg
              cases hp : Parse.front? (Token.Kind.mark? .rightParen) r with
              | none => simp [hp] at h
              | some found =>
                  simp only [hp] at h
                  obtain ⟨rfl, rfl⟩ := Prod.mk.inj (Except.ok.inj h)
                  obtain ⟨opening, rfl, hopening, -⟩ := Parse.front?_mark_eq_some.mp ho
                  obtain ⟨closing, rfl, hclosing, -⟩ := Parse.front?_mark_eq_some.mp hp
                  exact ⟨.group hopening hd.1 hclosing,
                    fun hplace => .groupedTarget hopening (hd.2 hplace) hclosing⟩
termination_by (ts.length, 0)

end

end

end Grammar

end Formula.Expr
