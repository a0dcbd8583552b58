import Formula.Proofs.Grammar

/-!
The parser accepts exactly the statements of the grammar.
-/

namespace Formula

namespace Expr

namespace Grammar

open Parse

/-- The tokens that a literal, a name or a group begins with. -/
def BeginsPrimary (k : Token.Kind) : Prop :=
  k.literal?.isSome = true ∨ (∃ name, k = .ident name) ∨ k = .mark .leftParen

def BeginsUnary (k : Token.Kind) : Prop := BeginsPrimary k ∨ k.unary?.isSome = true

/-- The tokens that a phrase can begin with. -/
def Category.Begins : Category → Token.Kind → Prop
  | .primary, k | .postfixed _ _, k => BeginsPrimary k
  | .arguments, k => BeginsUnary k ∨ k = .mark .rightParen
  | _, k => BeginsUnary k

/-- Unary phrases in front of `rest` that the parser accepts, each with an operator before it. -/
inductive Operands (stop maxHops : Nat) : List Token → List Token → Prop
  | done {rest} : front? Token.Kind.binary? rest = none → Operands stop maxHops rest rest
  | more {ts op n span us e r rest} :
      front? Token.Kind.binary? ts = some ((op, n), span, us) →
      plain (unary stop maxHops us) = .ok (e, r) → Operands stop maxHops r rest →
      Operands stop maxHops ts rest

section

variable {stop maxHops : Nat} {c : Category} {ts rest : List Token}

theorem Derives.begins (h : Derives maxHops c ts rest) :
    ∃ t us, ts = t :: us ∧ Category.Begins c t.kind := by
  induction h with
  | value _ ih | operation _ ih | operand _ ih | start _ ih => exact ih
  | assign _ _ _ _ ih _ | operator _ _ _ _ ih _ => exact ih
  | choice _ _ _ _ _ ih _ _ => exact ih
  | hop _ _ _ _ ih => exact ih
  | call _ _ _ _ _ ih _ | genericCall _ _ _ _ _ ih _ => exact ih
  | lastArgument _ _ ih => exact ih
  | argument _ _ _ ih _ => exact ih
  | member _ _ ih | unsigned _ _ ih =>
      obtain ⟨t, us, rfl, ht⟩ := ih
      exact ⟨t, us, rfl, .inl ht⟩
  | hasArguments _ ih =>
      obtain ⟨t, us, rfl, ht⟩ := ih
      exact ⟨t, us, rfl, .inl ht⟩
  | signed ht hsign _ _ =>
      exact ⟨_, _, rfl, .inr (by rw [Token.Kind.unary?_eq_some.mpr ⟨ht, hsign⟩]; rfl)⟩
  | name ht => exact ⟨_, _, rfl, .inl (.inr (.inl ⟨_, ht⟩))⟩
  | groupedTarget ht _ _ _ => exact ⟨_, _, rfl, .inl (.inr (.inr ht))⟩
  | literal ht => exact ⟨_, _, rfl, .inl (by rw [ht]; rfl)⟩
  | ident ht => exact ⟨_, _, rfl, .inr (.inl ⟨_, ht⟩)⟩
  | group ht _ _ _ => exact ⟨_, _, rfl, .inr (.inr ht)⟩
  | noArguments ht => exact ⟨_, _, rfl, .inr ht⟩

theorem front?_unary_of_beginsPrimary {t : Token} (ht : BeginsPrimary t.kind) :
    front? Token.Kind.unary? (t :: ts) = none := by
  rcases ht with ht | ⟨name, ht⟩ | ht
  · cases hk : t.kind <;> simp [hk, Token.Kind.literal?, Token.Kind.unary?] at ht ⊢
  · simp [ht, Token.Kind.unary?]
  · simp [ht, Token.Kind.unary?]

theorem front?_rightParen_of_beginsUnary {t : Token} (ht : BeginsUnary t.kind) :
    front? (Token.Kind.mark? .rightParen) (t :: ts) = none := by
  rcases ht with (ht | ⟨name, ht⟩ | ht) | ht
  · cases hk : t.kind <;> simp [hk, Token.Kind.literal?, Token.Kind.mark?] at ht ⊢
  · simp [ht, Token.Kind.mark?]
  · simp [ht, Token.Kind.mark?]
  · cases hk : t.kind <;> simp [hk, Token.Kind.unary?, Token.Kind.mark?] at ht ⊢

/-- The parser takes operators as long as they bind tightly enough, and leaves the others with their
operands. -/
theorem Operands.tail (h : Operands stop maxHops ts rest) (least : Nat) (left : Expr) :
    ∃ e r, plain (binaryTail stop maxHops least left ts) = .ok (e, r) ∧
      Operands stop maxHops r rest ∧ r.length ≤ ts.length ∧
      ∀ op n span us, front? Token.Kind.binary? r = some ((op, n), span, us) → n < least := by
  obtain ⟨n, hn⟩ : ∃ n, ts.length = n := ⟨_, rfl⟩
  induction n using Nat.strongRecOn generalizing ts least left with
  | ind n ih =>
      subst hn
      cases h with
      | done hrest =>
          refine ⟨left, rest, ?_, .done hrest, Nat.le_refl _, by simp [hrest]⟩
          rw [plain_binaryTail]
          simp only [hrest]
      | @more _ op p span us e r _ hts hu hr =>
          by_cases hp : p < least
          · refine ⟨left, ts, ?_, .more hts hu hr, Nat.le_refl _, ?_⟩
            · rw [plain_binaryTail]
              simp only [hts, if_pos hp]
            · intro op' p' span' us' h
              obtain ⟨⟨rfl, rfl⟩, -⟩ : (op = op' ∧ p = p') ∧ _ := by simpa [hts] using h
              exact hp
          · have hlt := length_front hts
            have hlt' := left_of_plain hu
            obtain ⟨right, r₁, htail₁, hr₁, hle₁, -⟩ := ih r.length (by omega) hr (p + 1) e rfl
            obtain ⟨e', r₂, htail₂, hr₂, hle₂, hleast⟩ := ih r₁.length (by omega) hr₁ least
              (.binary (left.span.merge right.span) op left right) rfl
            refine ⟨e', r₂, ?_, hr₂, by omega, hleast⟩
            rw [plain_binaryTail]
            simp only [hts, if_neg hp]
            rw [plain_binary, hu]
            simp only [bind, Except.bind]
            rw [htail₁]
            exact htail₂

theorem Operands.binary {e : Expr} {r : List Token} (hu : plain (unary stop maxHops ts) = .ok (e, r))
    (h : Operands stop maxHops r rest) : ∃ e, plain (Parse.binary stop maxHops 1 ts) = .ok (e, rest) := by
  obtain ⟨e', r', htail, hr', -, hleast⟩ := h.tail 1 e
  refine ⟨e', ?_⟩
  rw [plain_binary, hu]
  simp only [bind, Except.bind]
  rw [htail]
  cases hr' with
  | done => rfl
  | more hts =>
      obtain ⟨t, rfl, ht, -⟩ := front?_eq_some.mp hts
      have := Operator.one_le_of_binaryPrecedence? (Token.Kind.binary?_eq_some.mp ht).2
      have := hleast _ _ _ _ hts
      omega

/-- What the parser makes of a phrase of each category, if nothing in `rest` carries the phrase on. -/
def Accepted (stop maxHops : Nat) (rest : List Token) : Category → List Token → Prop
  | .assignment, ts =>
    EndsAssignment rest → ∃ e, plain (assignment stop maxHops ts) = .ok (e, rest)
  | .target, ts =>
    EndsTernary rest → ∃ e, e.isPlace = true ∧ plain (Parse.ternary stop maxHops ts) = .ok (e, rest)
  | .ternary, ts =>
    EndsAssignment rest → ∃ e, plain (Parse.ternary stop maxHops ts) = .ok (e, rest)
  | .binary, ts =>
    EndsBinary rest → ∃ e r, plain (unary stop maxHops ts) = .ok (e, r) ∧ Operands stop maxHops r rest
  | .unary, ts => EndsUnary rest → ∃ e, plain (unary stop maxHops ts) = .ok (e, rest)
  | .postfixed n endsInMember, ts =>
    front? (Token.Kind.mark? .leftParen) rest = none → n ≤ maxHops →
      ∃ receiver, (endsInMember = true → receiver.isPlace = true) ∧
        plain (postfixed stop maxHops ts) = plain (chain stop maxHops ⟨maxHops, n⟩ receiver rest)
  | .primary, ts => ∃ e, plain (primary stop maxHops ts) = .ok (e, rest)
  | .arguments, ts =>
    ∀ opened, ∃ es, plain (arguments stop maxHops opened ts) = .ok (es, rest)
  | .someArguments, ts =>
    ∀ opened, ∃ es, plain (someArguments stop maxHops opened ts) = .ok (es, rest)

theorem Accepted.unary_of_postfixed {n : Nat} {endsInMember : Bool}
    (hd : Derives maxHops (.postfixed n endsInMember) ts rest) (hn : n ≤ maxHops)
    (h : Accepted stop maxHops rest (.postfixed n endsInMember) ts) (hrest : EndsUnary rest) :
    ∃ e, (endsInMember = true → e.isPlace = true) ∧ plain (unary stop maxHops ts) = .ok (e, rest) := by
  obtain ⟨receiver, hplace, hp⟩ := h hrest.paren hn
  obtain ⟨t, us, rfl, ht⟩ := hd.begins
  refine ⟨receiver, hplace, ?_⟩
  rw [plain_unary_of_not_sign (front?_unary_of_beginsPrimary ht), hp]
  exact plain_chain_of_not_dot _ _ hrest.dot

theorem Accepted.target_of_unary {e : Expr} (hplace : e.isPlace = true)
    (h : plain (unary stop maxHops ts) = .ok (e, rest)) (hrest : EndsTernary rest) :
    ∃ e, e.isPlace = true ∧ plain (Parse.ternary stop maxHops ts) = .ok (e, rest) :=
  ⟨e, hplace, ternary_of_binary (binary_of_unary 1 h hrest.binary) hrest.question⟩

/-- A primary phrase with nothing behind it is a unary one. -/
theorem unary_of_primary {e : Expr} {t : Token} (ht : BeginsPrimary t.kind)
    (h : plain (primary stop maxHops (t :: ts)) = .ok (e, rest)) (hrest : EndsUnary rest) :
    plain (unary stop maxHops (t :: ts)) = .ok (e, rest) := by
  rw [plain_unary_of_not_sign (front?_unary_of_beginsPrimary ht), plain_postfixed, h]
  exact plain_chain_of_not_dot _ _ hrest.dot

theorem Derives.accepted (stop : Nat) (h : Derives maxHops c ts rest) : Accepted stop maxHops rest c ts := by
  induction h with
  | value _ ih =>
      intro hrest
      obtain ⟨e, he⟩ := ih hrest
      exact ⟨e, assignment_of_ternary he hrest.assignment⟩
  | @assign t op ts us rest _ ht hop _ ih ihv =>
      intro hrest
      obtain ⟨target, hplace, he⟩ := ih (endsTernary_assignment ht hop _)
      obtain ⟨value, hv⟩ := ihv hrest
      exact ⟨_, assignment_of_target he ht hop hplace hv⟩
  | @name t name rest ht =>
      intro hrest
      exact Accepted.target_of_unary rfl (unary_of_primary (.inr (.inl ⟨name, ht⟩))
        (primary_of_ident ht rest) hrest.toEndsUnary) hrest
  | member hd hn ih =>
      intro hrest
      obtain ⟨e, hplace, he⟩ := Accepted.unary_of_postfixed hd hn ih hrest.toEndsUnary
      exact Accepted.target_of_unary (hplace rfl) he hrest
  | groupedTarget hopening _ hclosing ih =>
      intro hrest
      have hends := endsAssignment_mark hclosing (.inl rfl)
      obtain ⟨e, hplace, he⟩ := ih (hends _).toEndsTernary
      have hp := primary_of_group hopening hclosing (assignment_of_ternary he (hends _).assignment)
      exact Accepted.target_of_unary hplace (unary_of_primary (.inr (.inr hopening)) hp
        hrest.toEndsUnary) hrest
  | operation _ ih =>
      intro hrest
      obtain ⟨e, r, hu, hr⟩ := ih hrest.toEndsBinary
      obtain ⟨e', he'⟩ := hr.binary hu
      exact ⟨e', ternary_of_binary he' hrest.question⟩
  | @choice question colon ts us vs rest _ hquestion _ hcolon _ ihc ihy ihn =>
      intro hrest
      obtain ⟨e, r, hu, hr⟩ := ihc (endsBinary_question hquestion us)
      obtain ⟨cond, hc⟩ := hr.binary hu
      obtain ⟨yes, hy⟩ := ihy (endsAssignment_mark hcolon (.inr (.inr rfl)) vs)
      obtain ⟨no, hn⟩ := ihn hrest
      exact ⟨_, ternary_of_choice hc hquestion hy hcolon hn⟩
  | operand _ ih =>
      intro hrest
      obtain ⟨e, he⟩ := ih hrest.toEndsUnary
      exact ⟨e, _, he, .done hrest.binary⟩
  | @operator t op ts us rest _ ht hop _ ihl ihr =>
      intro hrest
      obtain ⟨n, hn⟩ := (Operator.isBinary_iff op).mp hop
      obtain ⟨e, he⟩ := ihl (endsUnary_op ht us)
      obtain ⟨e', r, hu, hr⟩ := ihr hrest
      have hfront : front? Token.Kind.binary? (t :: us) = some ((op, n), t.span, us) := by
        simp [Token.Kind.binary?_eq_some.mpr ⟨ht, hn⟩]
      exact ⟨e, _, he, .more hfront hu hr⟩
  | @signed t op ts rest ht hsign _ ih =>
      intro hrest
      obtain ⟨e, he⟩ := ih hrest
      exact ⟨_, unary_of_sign ht hsign he⟩
  | unsigned hd hn ih =>
      intro hrest
      obtain ⟨e, -, he⟩ := Accepted.unary_of_postfixed hd hn ih hrest
      exact ⟨e, he⟩
  | start _ ih =>
      intro _ _
      obtain ⟨e, he⟩ := ih
      refine ⟨e, by simp, ?_⟩
      rw [plain_postfixed, he]
      rfl
  | @hop dot t name n endsInMember ts rest _ hdot ht hnone ih =>
      intro hrest hn
      obtain ⟨receiver, -, hp⟩ := ih (by simp [hdot, Token.Kind.mark?]) (Nat.le_of_succ_le hn)
      refine ⟨.member (receiver.span.merge t.span) receiver name, fun _ => rfl, ?_⟩
      rw [hp, plain_chain_member hdot ht hn receiver (callOpening_eq_none_iff.mpr ⟨hrest, hnone⟩)]
  | @call dot t paren name n endsInMember ts us rest _ hdot ht hparen _ ih iha =>
      intro hrest hn
      obtain ⟨receiver, -, hp⟩ := ih (by simp [hdot, Token.Kind.mark?]) (Nat.le_of_succ_le hn)
      obtain ⟨⟨args, closed⟩, ha⟩ := iha paren.span
      have ho : callOpening? (paren :: us) = some ([], paren.span, us) := by
        simp [callOpening?, hparen, Token.Kind.mark?]
      refine ⟨.call (receiver.span.merge closed) receiver name [] args, by simp, ?_⟩
      rw [hp, plain_chain_call hdot ht hn receiver ho ha]
  | @genericCall dot t paren name n endsInMember ts us vs rest _ hdot ht htypes _ ih iha =>
      intro hrest hn
      obtain ⟨receiver, -, hp⟩ := ih (by simp [hdot, Token.Kind.mark?]) (Nat.le_of_succ_le hn)
      obtain ⟨typeArgs, ho⟩ := callOpening_of_typeArguments htypes
      obtain ⟨⟨args, closed⟩, ha⟩ := iha paren.span
      refine ⟨.call (receiver.span.merge closed) receiver name typeArgs args, by simp, ?_⟩
      rw [hp, plain_chain_call hdot ht hn receiver ho ha]
  | literal ht => exact ⟨_, primary_of_literal ht _⟩
  | ident ht => exact ⟨_, primary_of_ident ht _⟩
  | group hopening _ hclosing ih =>
      obtain ⟨e, he⟩ := ih (endsAssignment_mark hclosing (.inl rfl) _)
      exact ⟨e, primary_of_group hopening hclosing he⟩
  | @noArguments closing rest hclosing =>
      intro opened
      refine ⟨([], closing.span), ?_⟩
      rw [plain_arguments]
      simp [hclosing, Token.Kind.mark?]
  | hasArguments hd ih =>
      intro opened
      obtain ⟨es, hes⟩ := ih opened
      obtain ⟨t, us, rfl, ht⟩ := hd.begins
      refine ⟨es, ?_⟩
      rw [plain_arguments]
      simp only [front?_rightParen_of_beginsUnary ht, hes]
  | @lastArgument closing ts rest _ hclosing ih =>
      intro opened
      obtain ⟨e, he⟩ := ih (endsAssignment_mark hclosing (.inl rfl) rest)
      exact ⟨_, someArguments_of_last hclosing he⟩
  | @argument comma ts us rest _ hcomma _ iha ihs =>
      intro opened
      obtain ⟨e, he⟩ := iha (endsAssignment_mark hcomma (.inr (.inl rfl)) us)
      obtain ⟨⟨es, closed⟩, hes⟩ := ihs opened
      exact ⟨_, someArguments_of_comma hcomma he hes⟩

end

end Grammar

/-- The parser accepts the statements that the grammar derives and no others, and takes all of their
tokens. -/
theorem ofTokens_isOk_iff (maxHops : Nat) (ts : TokenList) :
    ((∃ e, ofTokens maxHops ts = .ok e) ↔ Grammar.Derives maxHops .assignment ts.tokens []) ∧
      ∀ e, ofTokens maxHops ts = .ok e →
        Parse.plain (Parse.assignment ts.stop maxHops ts.tokens) = .ok (e, []) := by
  refine ⟨⟨fun ⟨e, h⟩ => ?_, fun h => ?_⟩, fun e h => ofTokens_eq_ok_iff.mp h⟩
  · exact (Grammar.derives_of_assignment (ofTokens_eq_ok_iff.mp h)).1
  · obtain ⟨e, he⟩ := Grammar.Derives.accepted ts.stop h Parse.endsAssignment_nil
    exact ⟨e, ofTokens_eq_ok_iff.mpr he⟩

end Expr

end Formula
