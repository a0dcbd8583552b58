import Formula.Proofs.Acceptance
import Formula.Proofs.Lookahead

/-!
Which operands an operator gets. The parser climbs through the classes as it reads; the tree is the one
that is split, again and again, at the last operator of the lowest class.
-/

namespace Formula

/-- The precedence class; a higher one binds tighter. -/
def Operator.rank (op : Operator) : Nat := op.precedence?.getD 0

theorem Operator.binaryPrecedence?_of_isBinary {op : Operator} (h : op.isBinary = true) :
    op.binaryPrecedence? = some op.rank := by
  cases op <;> first | rfl | cases h

namespace Expr

/-- `Grouped first operations tree` says that `tree` is made of the operand `first` and of the
operations behind it, each an operator with its right operand. At the root is the last of the operators
of the lowest class, and its sides are made in the same way. -/
inductive Grouped : Expr → List (Operator × Expr) → Expr → Prop
  | operand (e : Expr) : Grouped e [] e
  | operation (op : Operator) {first second left right : Expr}
      (before after : List (Operator × Expr)) :
      (∀ p ∈ before, op.rank ≤ p.1.rank) → (∀ p ∈ after, op.rank < p.1.rank) →
      Grouped first before left → Grouped second after right →
      Grouped first (before ++ (op, second) :: after)
        (.binary (left.span.merge right.span) op left right)

namespace Grouped

/-- Only one operator is the last one of the lowest class. -/
theorem root_unique {op op' : Operator} {e e' : Expr} {before before' after after' : List (Operator × Expr)}
    (h : before ++ (op, e) :: after = before' ++ (op', e') :: after')
    (hafter : ∀ p ∈ after, op.rank < p.1.rank) (hbefore' : ∀ p ∈ before', op'.rank ≤ p.1.rank)
    (hbefore : ∀ p ∈ before, op.rank ≤ p.1.rank) (hafter' : ∀ p ∈ after', op'.rank < p.1.rank) :
    before = before' ∧ op = op' ∧ e = e' ∧ after = after' := by
  obtain ⟨between, rfl, hsplit⟩ | ⟨between, rfl, hsplit⟩ := List.append_eq_append_iff.mp h
  · cases between with
    | nil =>
        obtain ⟨hroot, rfl⟩ := List.cons.inj hsplit
        obtain ⟨rfl, rfl⟩ := Prod.mk.inj hroot
        exact ⟨by simp, rfl, rfl, rfl⟩
    | cons root between =>
        obtain ⟨rfl, rfl⟩ := List.cons.inj hsplit
        have hle := hbefore' (op, e) (by simp)
        have hlt := hafter (op', e') (by simp)
        exact absurd hlt (Nat.not_lt.mpr hle)
  · cases between with
    | nil =>
        obtain ⟨hroot, rfl⟩ := List.cons.inj hsplit
        obtain ⟨rfl, rfl⟩ := Prod.mk.inj hroot
        exact ⟨by simp, rfl, rfl, rfl⟩
    | cons root between =>
        obtain ⟨rfl, rfl⟩ := List.cons.inj hsplit
        have hle := hbefore (op', e') (by simp)
        have hlt := hafter' (op, e) (by simp)
        exact absurd hlt (Nat.not_lt.mpr hle)

theorem unique {first tree tree' : Expr} {operations : List (Operator × Expr)}
    (h : Grouped first operations tree) (h' : Grouped first operations tree') : tree = tree' := by
  induction h generalizing tree' with
  | operand e =>
      generalize hnil : ([] : List (Operator × Expr)) = operations at h'
      cases h' with
      | operand => rfl
      | operation => simp at hnil
  | @operation op first second left right before after hbefore hafter _ _ ihl ihr =>
      generalize hsplit : before ++ (op, second) :: after = operations at h'
      cases h' with
      | operand => simp at hsplit
      | operation _ _ _ hbefore' hafter' hl hr =>
          obtain ⟨rfl, rfl, rfl, rfl⟩ := root_unique hsplit hafter hbefore' hbefore hafter'
          rw [ihl hl, ihr hr]

/-- An operation whose left operand is `first` can be taken for the first operand of those that follow,
unless the next of these binds tighter. -/
theorem cons {first second right tree : Expr} {op : Operator} {own others : List (Operator × Expr)}
    (hright : Grouped second own right) (hown : ∀ p ∈ own, op.rank < p.1.rank)
    (h : Grouped (.binary (first.span.merge right.span) op first right) others tree)
    (hothers : ∀ p ∈ others.head?, p.1.rank ≤ op.rank) :
    Grouped first ((op, second) :: (own ++ others)) tree := by
  generalize hfirst : Expr.binary (first.span.merge right.span) op first right = left at h
  induction h with
  | operand e =>
      subst hfirst
      rw [List.append_nil]
      exact operation op [] own (by simp) hown (operand first) hright
  | @operation root _ e _ _ before after hbefore hafter _ hr ihl _ =>
      have hroot : root.rank ≤ op.rank := by
        cases before with
        | nil => exact hothers (root, e) rfl
        | cons p before =>
            exact Nat.le_trans (hbefore p (List.mem_cons_self ..)) (hothers p rfl)
      have hl := ihl (fun p hp => hothers p (by cases before <;> simp_all)) hfirst
      rw [← List.append_assoc, ← List.cons_append]
      refine operation root _ after ?_ hafter hl hr
      intro p hp
      obtain rfl | hp | hp : p = (op, second) ∨ p ∈ own ∨ p ∈ before := by simpa using hp
      · exact hroot
      · exact Nat.le_trans hroot (Nat.le_of_lt (hown p hp))
      · exact hbefore p hp

end Grouped

namespace Parse

/-- The tokens of an operand, with its tree: prefix operators in front of a postfix phrase. -/
inductive Operand (maxHops : Nat) : List Token → Expr → Prop
  | phrase {stop : Nat} {us : List Token} {e : Expr} :
      plain (postfixed stop maxHops us) = .ok (e, []) → Operand maxHops us e
  | signed {t : Token} {op : Operator} {us : List Token} {e : Expr} :
      t.kind = .op op → op = .sub ∨ op = .not ∨ op = .bitNot → Operand maxHops us e →
      Operand maxHops (t :: us) (ofUnary op t.span e)

/-- Operands with binary operators between them, in front of `rest`. What follows an operand that ends
in the name of a member must not read as the type arguments of a call. -/
inductive Sequence (maxHops : Nat) (rest : List Token) :
    List Token → Expr → List (Operator × Expr) → Prop
  | last (us : List Token) {e : Expr} : Operand maxHops us e → Sequence maxHops rest (us ++ rest) e []
  | more (us : List Token) {ts : List Token} {e second : Expr} {t : Token} {op : Operator}
      {operations : List (Operator × Expr)} :
      Operand maxHops us e → t.kind = .op op → op.isBinary = true →
      (EndsInMember us → ¬∃ vs, Grammar.TypeArguments (t :: ts) vs) →
      Sequence maxHops rest ts second operations →
      Sequence maxHops rest (us ++ t :: ts) e ((op, second) :: operations)

section

variable {stop maxHops : Nat} {ts rest : List Token} {e : Expr}

theorem Operand.exists_unary (h : Operand maxHops ts e) :
    ∃ stop, plain (unary stop maxHops ts) = .ok (e, []) := by
  induction h with
  | @phrase stop us e h =>
      refine ⟨stop, ?_⟩
      rw [plain_unary_of_not_sign, h]
      rw [plain_postfixed] at h
      obtain ⟨_, hprimary, -⟩ := bind_eq_ok.mp h
      obtain ⟨t, us, rfl, ht⟩ := (Grammar.derives_of_primary hprimary).1.begins
      exact Grammar.front?_unary_of_beginsPrimary ht
  | signed ht hsign _ ih =>
      obtain ⟨stop, hstop⟩ := ih
      exact ⟨stop, unary_of_sign ht hsign hstop⟩

theorem operand_of_unary {ts : List Token} {e : Expr}
    (h : plain (unary stop maxHops ts) = .ok (e, [])) : Operand maxHops ts e := by
  rw [plain_unary] at h
  cases ho : front? Token.Kind.unary? ts with
  | none =>
      simp only [ho] at h
      exact .phrase h
  | some found =>
      obtain ⟨op, span, afterOp⟩ := found
      simp only [ho] at h
      obtain ⟨⟨operand, r⟩, hu, h⟩ := bind_eq_ok.mp h
      obtain ⟨rfl, rfl⟩ := Prod.mk.inj (Except.ok.inj h)
      have := length_front ho
      obtain ⟨t, rfl, hop, rfl⟩ := front?_eq_some.mp ho
      obtain ⟨hop, hsign⟩ := Token.Kind.unary?_eq_some.mp hop
      exact .signed hop hsign (operand_of_unary hu)
termination_by ts.length

/-- The operands are what the unary level accepts on its own. -/
theorem operand_iff_unary :
    Operand maxHops ts e ↔ ∃ stop, plain (unary stop maxHops ts) = .ok (e, []) :=
  ⟨Operand.exists_unary, fun ⟨_, h⟩ => operand_of_unary h⟩

/-- Operations in front of `rest`, each with the operand that the parser finds. -/
inductive Operations (stop maxHops : Nat) (rest : List Token) :
    List Token → List (Operator × Expr) → Prop
  | done : front? Token.Kind.binary? rest = none → Operations stop maxHops rest rest []
  | more {t : Token} {op : Operator} {ts r : List Token} {e : Expr}
      {operations : List (Operator × Expr)} :
      t.kind = .op op → op.isBinary = true → plain (unary stop maxHops ts) = .ok (e, r) →
      Operations stop maxHops rest r operations →
      Operations stop maxHops rest (t :: ts) ((op, e) :: operations)

/-- The parser finds the operands that the sequence is made of. -/
theorem Sequence.operations {operations : List (Operator × Expr)}
    (h : Sequence maxHops rest ts e operations) (hrest : EndsBinary rest) (stop : Nat) :
    ∃ r, plain (unary stop maxHops ts) = .ok (e, r) ∧ Operations stop maxHops rest r operations := by
  induction h with
  | last us hoperand =>
      obtain ⟨stop', hu⟩ := operand_iff_unary.mp hoperand
      refine ⟨rest, unary_append hrest.toEndsUnary hu fun _ => ?_, .done hrest.binary⟩
      refine Grammar.callOpening_eq_none_iff.mpr ⟨hrest.paren, ?_⟩
      rintro ⟨vs, ⟨hless, -, -, -⟩⟩
      simpa [Token.Kind.binary?, hless, Operator.binaryPrecedence?, Operator.precedence?] using
        hrest.binary
  | @more us ts e second t op operations hoperand ht hop hcall _ ih =>
      obtain ⟨r, hu, hr⟩ := ih
      obtain ⟨stop', hu'⟩ := operand_iff_unary.mp hoperand
      refine ⟨t :: ts, unary_append (endsUnary_op ht ts) hu' fun hend => ?_, .more ht hop hu hr⟩
      exact Grammar.callOpening_eq_none_iff.mpr ⟨(endsUnary_op ht ts).paren, hcall hend⟩

/-- The parser takes the operations up to the first of a lower class than `least`, and groups them. -/
theorem Operations.tail {operations : List (Operator × Expr)}
    (h : Operations stop maxHops rest ts operations) (least : Nat) (left : Expr) :
    ∃ tree r taken others, operations = taken ++ others ∧
      plain (binaryTail stop maxHops least left ts) = .ok (tree, r) ∧ Grouped left taken tree ∧
      (∀ p ∈ taken, least ≤ p.1.rank) ∧ Operations stop maxHops rest r others ∧
      ∀ p ∈ others.head?, p.1.rank < least := by
  obtain ⟨n, hn⟩ : ∃ n, operations.length = n := ⟨_, rfl⟩
  induction n using Nat.strongRecOn generalizing ts operations least left with
  | ind n ih =>
      subst hn
      cases h with
      | done hrest =>
          refine ⟨left, rest, [], [], rfl, ?_, .operand left, by simp, .done hrest, by simp⟩
          rw [plain_binaryTail]
          simp only [hrest]
      | @more t op ts r e operations ht hop hu hr =>
          have hfront : front? Token.Kind.binary? (t :: ts) = some ((op, op.rank), t.span, ts) :=
            front?_eq_some.mpr ⟨t, rfl, Token.Kind.binary?_eq_some.mpr
              ⟨ht, Operator.binaryPrecedence?_of_isBinary hop⟩, rfl⟩
          by_cases hlow : op.rank < least
          · refine ⟨left, t :: ts, [], (op, e) :: operations, rfl, ?_, .operand left, by simp,
              .more ht hop hu hr, by simpa using hlow⟩
            rw [plain_binaryTail]
            simp only [hfront, if_pos hlow]
          · -- The right side takes what binds tighter than `op`; the loop goes on behind it.
            obtain ⟨right, r₁, own, others, rfl, hright, hown, hranks, hr₁, hhead⟩ :=
              ih operations.length (by simp) hr (op.rank + 1) e rfl
            obtain ⟨tree, r₂, taken, others, rfl, htree, htaken, hleast, hr₂, hhead'⟩ :=
              ih others.length (by simp only [List.length_cons, List.length_append]; omega) hr₁ least
                (.binary (left.span.merge right.span) op left right) rfl
            refine ⟨tree, r₂, (op, e) :: (own ++ taken), others, by simp, ?_, ?_, ?_, hr₂, hhead'⟩
            · rw [plain_binaryTail]
              simp only [hfront, if_neg hlow]
              rw [plain_binary, hu]
              simp only [bind, Except.bind]
              rw [hright]
              exact htree
            · refine hown.cons hranks htaken fun p hp => ?_
              exact Nat.le_of_lt_succ (hhead p (by cases taken <;> simp_all))
            · intro p hp
              obtain rfl | hp | hp : p = (op, e) ∨ p ∈ own ∨ p ∈ taken := by simpa using hp
              · exact Nat.not_lt.mp hlow
              · exact Nat.le_trans (Nat.not_lt.mp hlow) (Nat.le_of_lt (hranks p hp))
              · exact hleast p hp

/-- A sequence of operands is accepted, with the one tree that is split at the last operator of the
lowest class, and so are its sides. An operand has its prefix operators, whatever stands beside it. -/
theorem binary_grouped {operations : List (Operator × Expr)}
    (h : Sequence maxHops rest ts e operations) (hrest : EndsBinary rest) (stop : Nat) :
    ∃ tree, plain (binary stop maxHops 1 ts) = .ok (tree, rest) ∧ Grouped e operations tree ∧
      ∀ tree', Grouped e operations tree' → tree' = tree := by
  obtain ⟨r, hu, hr⟩ := h.operations hrest stop
  obtain ⟨tree, r', taken, others, rfl, htree, htaken, -, hr', hhead⟩ := hr.tail 1 e
  have hdone : others = [] ∧ r' = rest := by
    cases hr' with
    | done => exact ⟨rfl, rfl⟩
    | @more _ op _ _ _ _ _ hop =>
        have hlow : op.rank < 1 := hhead _ rfl
        have hle := Operator.one_le_of_binaryPrecedence? (Operator.binaryPrecedence?_of_isBinary hop)
        exact absurd hlow (Nat.not_lt.mpr hle)
  obtain ⟨rfl, rfl⟩ := hdone
  rw [List.append_nil]
  refine ⟨tree, ?_, htaken, fun tree' h => h.unique htaken⟩
  rw [plain_binary, hu]
  exact htree

theorem Operand.name {t : Token} {name : String} (ht : t.kind = .ident name) :
    Operand maxHops [t] (.ident t.span name) := by
  have h : plain (postfixed 0 maxHops [t]) = .ok (.ident t.span name, []) := by
    rw [plain_postfixed, primary_of_ident ht]
    exact plain_chain_of_not_dot _ _ rfl
  exact .phrase h

theorem Operand.member {t dot u : Token} {name member : String} (ht : t.kind = .ident name)
    (hdot : dot.kind = .mark .dot) (hu : u.kind = .ident member) :
    Operand (maxHops + 1) [t, dot, u] (.member (t.span.merge u.span) (.ident t.span name) member) := by
  have h : plain (postfixed 0 (maxHops + 1) [t, dot, u]) =
      .ok (.member (t.span.merge u.span) (.ident t.span name) member, []) := by
    rw [plain_postfixed, primary_of_ident ht]
    change plain (chain 0 (maxHops + 1) ⟨maxHops + 1, 0⟩ (.ident t.span name) [dot, u]) = _
    rw [plain_chain_member hdot hu (Nat.succ_pos maxHops) _ rfl]
    exact plain_chain_of_not_dot _ _ rfl
  exact .phrase h

end

/-- `x.n < y - -z & w - u`. -/
def mixedTokens : List Token :=
  [⟨.ident "x", ⟨0, 1⟩⟩, ⟨.mark .dot, ⟨1, 2⟩⟩, ⟨.ident "n", ⟨2, 3⟩⟩, ⟨.op .less, ⟨4, 5⟩⟩,
    ⟨.ident "y", ⟨6, 7⟩⟩, ⟨.op .sub, ⟨8, 9⟩⟩, ⟨.op .sub, ⟨10, 11⟩⟩, ⟨.ident "z", ⟨11, 12⟩⟩,
    ⟨.op .bitAnd, ⟨13, 14⟩⟩, ⟨.ident "w", ⟨15, 16⟩⟩, ⟨.op .sub, ⟨17, 18⟩⟩, ⟨.ident "u", ⟨19, 20⟩⟩]

def mixedFirst : Expr := .member ⟨0, 3⟩ (.ident ⟨0, 1⟩ "x") "n"

def mixedOperations : List (Operator × Expr) :=
  [(.less, .ident ⟨6, 7⟩ "y"), (.sub, ofUnary .sub ⟨10, 11⟩ (.ident ⟨11, 12⟩ "z")),
    (.bitAnd, .ident ⟨15, 16⟩ "w"), (.sub, .ident ⟨19, 20⟩ "u")]

/-- `x.n < ((y - ((-z) & w)) - u)`. -/
def mixedTree : Expr :=
  .binary ⟨0, 20⟩ .less mixedFirst
    (.binary ⟨6, 20⟩ .sub
      (.binary ⟨6, 16⟩ .sub (.ident ⟨6, 7⟩ "y")
        (.binary ⟨10, 16⟩ .bitAnd (ofUnary .sub ⟨10, 11⟩ (.ident ⟨11, 12⟩ "z"))
          (.ident ⟨15, 16⟩ "w")))
      (.ident ⟨19, 20⟩ "u"))

theorem sequence_mixed : Sequence 1 [] mixedTokens mixedFirst mixedOperations := by
  have hnot {t : Token} {op : Operator} (ht : t.kind = .op op) (hop : op ≠ .less) (ts : List Token) :
      ¬∃ vs, Grammar.TypeArguments (t :: ts) vs :=
    (Grammar.callOpening_eq_none_iff.mp (callOpening?_op ht hop ts)).2
  refine .more [_, _, _] (.member rfl rfl rfl) rfl rfl ?_ ?_
  · rintro - ⟨vs, ⟨-, hnames, hgreater, -⟩⟩
    cases hnames with
    | one => cases hgreater
    | more _ hcomma _ => cases hcomma
  refine .more [_] (.name rfl) rfl rfl (fun _ => hnot rfl (by decide) _) ?_
  refine .more [_, _] (.signed rfl (.inl rfl) (.name rfl)) rfl rfl
    (fun _ => hnot rfl (by decide) _) ?_
  refine .more [_] (.name rfl) rfl rfl (fun _ => hnot rfl (by decide) _) ?_
  exact .last [_] (.name rfl)

theorem grouped_mixed : Grouped mixedFirst mixedOperations mixedTree := by
  have hand := Grouped.operation .bitAnd [] [] (by simp) (by simp)
    (.operand (ofUnary .sub ⟨10, 11⟩ (.ident ⟨11, 12⟩ "z"))) (.operand (.ident ⟨15, 16⟩ "w"))
  have hsub := Grouped.operation .sub [] [_] (by simp) (by decide)
    (.operand (.ident ⟨6, 7⟩ "y")) hand
  have hsub' := Grouped.operation .sub [_, _] [] (by decide) (by simp)
    hsub (.operand (.ident ⟨19, 20⟩ "u"))
  exact .operation .less [] _ (by simp) (by decide) (.operand mixedFirst) hsub'

theorem binary_grouped_mixed :
    Sequence 1 [] mixedTokens mixedFirst mixedOperations ∧ EndsBinary [] ∧
      plain (binary 20 1 1 mixedTokens) = .ok (mixedTree, []) ∧
      Grouped mixedFirst mixedOperations mixedTree := by
  refine ⟨sequence_mixed, endsAssignment_nil.toEndsBinary, ?_, grouped_mixed⟩
  obtain ⟨tree, htree, -, hunique⟩ :=
    binary_grouped sequence_mixed endsAssignment_nil.toEndsBinary 20
  rw [htree, hunique mixedTree grouped_mixed]

end Parse

end Expr

end Formula
