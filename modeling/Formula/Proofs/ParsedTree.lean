import Formula.Expr.Parse

/-!
The trees that the parser makes.
-/

namespace Formula.Expr

mutual

/-- Operators stand between two operands wherever they are used, and only places are assigned to. -/
def Proper : Expr → Prop
  | literal _ _ | ident _ _ => True
  | binary _ op left right => op.isBinary = true ∧ left.Proper ∧ right.Proper
  | assign _ target value => target.isPlace = true ∧ target.Proper ∧ value.Proper
  | ternary _ cond yes no => cond.Proper ∧ yes.Proper ∧ no.Proper
  | member _ receiver _ => receiver.Proper
  | call _ receiver _ _ args => receiver.Proper ∧ AllProper args

def AllProper : List Expr → Prop
  | [] => True
  | e :: es => e.Proper ∧ AllProper es

end

mutual

/-- The operators between two operands. -/
def operators : Expr → List Operator
  | literal _ _ | ident _ _ => []
  | binary _ op left right => op :: (left.operators ++ right.operators)
  | assign _ target value => target.operators ++ value.operators
  | ternary _ cond yes no => cond.operators ++ (yes.operators ++ no.operators)
  | member _ receiver _ => receiver.operators
  | call _ receiver _ _ args => receiver.operators ++ allOperators args

def allOperators : List Expr → List Operator
  | [] => []
  | e :: es => e.operators ++ allOperators es

end

mutual

theorem Proper.isBinary {e : Expr} (h : e.Proper) : ∀ op ∈ e.operators, op.isBinary = true := by
  intro o ho
  cases e with
  | literal | ident => simp [operators] at ho
  | binary span op left right =>
      simp only [operators, List.mem_cons, List.mem_append] at ho
      rcases ho with rfl | ho | ho
      · exact h.1
      · exact h.2.1.isBinary o ho
      · exact h.2.2.isBinary o ho
  | assign span target value =>
      rcases List.mem_append.mp ho with ho | ho
      · exact h.2.1.isBinary o ho
      · exact h.2.2.isBinary o ho
  | ternary span cond yes no =>
      simp only [operators, List.mem_append] at ho
      rcases ho with ho | ho | ho
      · exact h.1.isBinary o ho
      · exact h.2.1.isBinary o ho
      · exact h.2.2.isBinary o ho
  | member span receiver name => exact Proper.isBinary (e := receiver) h o ho
  | call span receiver method typeArgs args =>
      rcases List.mem_append.mp ho with ho | ho
      · exact h.1.isBinary o ho
      · exact isBinary_of_allProper h.2 o ho

theorem isBinary_of_allProper {es : List Expr} (h : AllProper es) :
    ∀ op ∈ allOperators es, op.isBinary = true := by
  intro o ho
  cases es with
  | nil => simp [allOperators] at ho
  | cons e es =>
      rcases List.mem_append.mp ho with ho | ho
      · exact h.1.isBinary o ho
      · exact isBinary_of_allProper h.2 o ho

end

theorem Proper.ofUnary {operand : Expr} (h : operand.Proper) (op : Operator) (span : Span) :
    (ofUnary op span operand).Proper := by
  rw [Expr.ofUnary.eq_def]
  split
  · exact ⟨rfl, trivial, h⟩
  · exact ⟨rfl, h, trivial⟩
  · exact ⟨rfl, h, trivial⟩

theorem Proper.ofAssignment {target value : Expr} (ht : target.Proper) (hv : value.Proper)
    (hp : target.isPlace = true) (op : Operator) : (ofAssignment op target value).Proper := by
  rw [Expr.ofAssignment]
  split
  · next hb => exact ⟨hp, ht, Operator.isBinary_of_compoundBase? hb, ht, hv⟩
  · exact ⟨hp, ht, hv⟩

namespace Parse

theorem isBinary_of_front {ts rest : List Token} {op : Operator} {n : Nat} {span : Span}
    (h : front? Token.Kind.binary? ts = some ((op, n), span, rest)) : op.isBinary = true := by
  cases ts with
  | nil => simp [front?] at h
  | cons t ts =>
      obtain ⟨⟨o, m⟩, ho, heq⟩ := Option.map_eq_some_iff.mp h
      simp only [Prod.mk.injEq] at heq
      obtain ⟨⟨rfl, rfl⟩, -, -⟩ := heq
      rw [Token.Kind.binary?.eq_def] at ho
      split at ho
      · obtain ⟨m', hm, heq⟩ := Option.map_eq_some_iff.mp ho
        obtain ⟨rfl, rfl⟩ := Prod.mk.inj heq
        exact (Operator.isBinary_iff _).mpr ⟨_, hm⟩
      · simp at ho

section

variable {stop maxHops : Nat}

mutual

theorem proper_of_assignment {ts : List Token} {e : Expr} {rest}
    (h : assignment stop maxHops ts = .ok (e, rest)) : e.Proper := by
  rw [assignment] at h
  split at h
  · simp at h
  · next target r ht =>
    have hp := proper_of_ternary ht
    split at h
    · obtain ⟨rfl, rfl⟩ := Prod.mk.inj (Except.ok.inj h)
      exact hp
    · next op span afterOp ho =>
      split at h
      · next hplace =>
        split at h
        · simp at h
        · next value r' hv =>
          have : afterOp.length < ts.length := by have := length_front ho; omega
          obtain ⟨rfl, rfl⟩ := Prod.mk.inj (Except.ok.inj h)
          exact hp.ofAssignment (proper_of_assignment hv) hplace op
      · simp at h
termination_by (ts.length, 5)

theorem proper_of_ternary {ts : List Token} {e : Expr} {rest}
    (h : ternary stop maxHops ts = .ok (e, rest)) : e.Proper := by
  rw [ternary] at h
  split at h
  · simp at h
  · next cond r hc =>
    have hp := proper_of_binary hc
    split at h
    · obtain ⟨rfl, rfl⟩ := Prod.mk.inj (Except.ok.inj h)
      exact hp
    · next afterQuestion hq =>
      split at h
      · simp at h
      · next yes r' hy =>
        split at h
        · simp at h
        · next afterColon hcolon =>
          split at h
          · simp at h
          · next no r'' hn =>
            have := length_front hq
            have := length_front hcolon
            obtain ⟨rfl, rfl⟩ := Prod.mk.inj (Except.ok.inj h)
            exact ⟨hp, proper_of_assignment hy, proper_of_assignment hn⟩
termination_by (ts.length, 4)

theorem proper_of_binary {least : Nat} {ts : List Token} {e : Expr} {rest}
    (h : binary stop maxHops least ts = .ok (e, rest)) : e.Proper := by
  rw [binary] at h
  split at h
  · simp at h
  · next left r hl =>
    split at h
    · simp at h
    · next e' r' ht =>
      obtain ⟨rfl, rfl⟩ := Prod.mk.inj (Except.ok.inj h)
      exact proper_of_binaryTail (proper_of_unary hl) ht
termination_by (ts.length, 3)

theorem proper_of_binaryTail {least : Nat} {left : Expr} {ts : List Token} {e : Expr} {rest}
    (hleft : left.Proper) (h : binaryTail stop maxHops least left ts = .ok (e, rest)) : e.Proper := by
  rw [binaryTail] at h
  split at h
  · obtain ⟨rfl, rfl⟩ := Prod.mk.inj (Except.ok.inj h)
    exact hleft
  · next op precedence span afterOp ho =>
    split at h
    · obtain ⟨rfl, rfl⟩ := Prod.mk.inj (Except.ok.inj h)
      exact hleft
    · split at h
      · simp at h
      · next right r hr =>
        split at h
        · simp at h
        · next e' r' ht =>
          have := length_front ho
          obtain ⟨rfl, rfl⟩ := Prod.mk.inj (Except.ok.inj h)
          refine proper_of_binaryTail ?_ ht
          exact ⟨isBinary_of_front ho, hleft, proper_of_binary hr⟩
termination_by (ts.length, 0)

theorem proper_of_unary {ts : List Token} {e : Expr} {rest}
    (h : unary stop maxHops ts = .ok (e, rest)) : e.Proper := by
  rw [unary] at h
  split at h
  · exact proper_of_postfixed h
  · next op opSpan afterOp ho =>
    split at h
    · simp at h
    · next operand r hu =>
      have := length_front ho
      obtain ⟨rfl, rfl⟩ := Prod.mk.inj (Except.ok.inj h)
      exact (proper_of_unary hu).ofUnary op opSpan
termination_by (ts.length, 2)

theorem proper_of_postfixed {ts : List Token} {e : Expr} {rest}
    (h : postfixed stop maxHops ts = .ok (e, rest)) : e.Proper := by
  rw [postfixed] at h
  split at h
  · simp at h
  · next receiver r hr =>
    split at h
    · simp at h
    · next e' r' hc =>
      obtain ⟨rfl, rfl⟩ := Prod.mk.inj (Except.ok.inj h)
      exact proper_of_chain (proper_of_primary hr) hc
termination_by (ts.length, 1)

theorem proper_of_chain {hops : Guard} {receiver : Expr} {ts : List Token} {e : Expr} {rest}
    (hreceiver : receiver.Proper) (h : chain stop maxHops hops receiver ts = .ok (e, rest)) :
    e.Proper := by
  rw [chain] at h
  split at h
  · obtain ⟨rfl, rfl⟩ := Prod.mk.inj (Except.ok.inj h)
    exact hreceiver
  · next dot afterDot hd =>
    split at h
    · simp at h
    · next hops' ht =>
      split at h
      · simp at h
      · next name nameSpan afterName hn =>
        have := length_front hd
        have := length_front hn
        split at h
        · split at h
          · simp at h
          · next e' r' hc =>
            obtain ⟨rfl, rfl⟩ := Prod.mk.inj (Except.ok.inj h)
            refine proper_of_chain ?_ hc
            exact hreceiver
        · next typeArgs opened afterParen hopen =>
          have := length_callOpening hopen
          split at h
          · simp at h
          · next args closed r ha =>
            split at h
            · simp at h
            · next e' r' hc =>
              obtain ⟨rfl, rfl⟩ := Prod.mk.inj (Except.ok.inj h)
              refine proper_of_chain ?_ hc
              exact ⟨hreceiver, proper_of_arguments ha⟩
termination_by (ts.length, 0)

theorem proper_of_arguments {opened closed : Span} {ts : List Token} {es : List Expr} {rest}
    (h : arguments stop maxHops opened ts = .ok ((es, closed), rest)) : AllProper es := by
  rw [arguments] at h
  split at h
  · obtain ⟨hes, -⟩ := Prod.mk.inj (Except.ok.inj h)
    obtain ⟨rfl, -⟩ := Prod.mk.inj hes
    trivial
  · exact proper_of_someArguments h
termination_by (ts.length, 7)

theorem proper_of_someArguments {opened closed : Span} {ts : List Token} {es : List Expr} {rest}
    (h : someArguments stop maxHops opened ts = .ok ((es, closed), rest)) : AllProper es := by
  rw [someArguments] at h
  split at h
  · simp at h
  · next arg r harg =>
    split at h
    · next afterComma hc =>
      split at h
      · simp at h
      · next args closed' r' hargs =>
        have := length_front hc
        obtain ⟨hes, -⟩ := Prod.mk.inj (Except.ok.inj h)
        obtain ⟨rfl, -⟩ := Prod.mk.inj hes
        exact ⟨proper_of_assignment harg, proper_of_someArguments hargs⟩
    · split at h
      · obtain ⟨hes, -⟩ := Prod.mk.inj (Except.ok.inj h)
        obtain ⟨rfl, -⟩ := Prod.mk.inj hes
        exact ⟨proper_of_assignment harg, trivial⟩
      · simp at h
termination_by (ts.length, 6)

theorem proper_of_primary {ts : List Token} {e : Expr} {rest}
    (h : primary stop maxHops ts = .ok (e, rest)) : e.Proper := by
  rw [primary] at h
  split at h
  · obtain ⟨rfl, rfl⟩ := Prod.mk.inj (Except.ok.inj h)
    trivial
  · split at h
    · obtain ⟨rfl, rfl⟩ := Prod.mk.inj (Except.ok.inj h)
      trivial
    · split at h
      · simp at h
      · next opened afterParen ho =>
        split at h
        · simp at h
        · next inner r hi =>
          split at h
          · simp at h
          · have := length_front ho
            obtain ⟨rfl, rfl⟩ := Prod.mk.inj (Except.ok.inj h)
            exact proper_of_assignment hi
termination_by (ts.length, 0)

end

end

end Parse

/-- Whatever the parser accepts is a proper tree. -/
theorem proper_of_ofTokens {maxHops : Nat} {ts : TokenList} {e : Expr}
    (h : ofTokens maxHops ts = .ok e) : e.Proper := by
  rw [ofTokens] at h
  split at h
  · simp at h
  · next e' r he =>
    split at h
    · obtain rfl := Except.ok.inj h
      exact Parse.proper_of_assignment he
    · simp at h

end Formula.Expr
