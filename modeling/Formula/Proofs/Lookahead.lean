import Formula.Proofs.Grammar
import Mathlib.Data.List.Infix

/-!
How far the parser looks. What it makes of a phrase does not depend on the tokens behind it, unless these
carry the phrase on. Only type arguments are looked for over more than the next token, and they are made
of few kinds of tokens.
-/

namespace Formula

/-- What type arguments and the parenthesis behind them are made of. -/
def Token.Kind.isOpening : Kind → Bool
  | ident _ => true
  | mark m => m == .comma || m == .leftParen
  | op o => o == .less || o == .greater
  | _ => false

namespace Expr.Parse

section

variable {α : Type} {f : Token.Kind → Option α} {ts rest : List Token} {a : α} {s : Span}

theorem suffix_of_front? (h : front? f ts = some (a, s, rest)) : rest <:+ ts := by
  obtain ⟨t, rfl, -⟩ := front?_eq_some.mp h
  exact List.suffix_cons t rest

theorem front?_append_of_some (h : front? f ts = some (a, s, rest)) (more : List Token) :
    front? f (ts ++ more) = some (a, s, rest ++ more) := by
  obtain ⟨t, rfl, ht, hs⟩ := front?_eq_some.mp h
  exact front?_eq_some.mpr ⟨t, rfl, ht, hs⟩

end

theorem typeNames_local {ts rest : List Token} {t : Token} {args : List TypeArg}
    (h : typeNames ts = some (args, t :: rest)) :
    ∃ used, ts = used ++ t :: rest ∧ (∀ u ∈ used, u.kind.isOpening = true) ∧
      ∀ rest', typeNames (used ++ t :: rest') = some (args, t :: rest') := by
  fun_induction typeNames ts generalizing args with
  | case1 => cases h
  | case2 ts name span rest' hn hc =>
      obtain ⟨rfl, rfl⟩ := Prod.mk.inj (Option.some.inj h)
      obtain ⟨u, rfl, hu, rfl⟩ := front?_ident_eq_some.mp hn
      refine ⟨[u], rfl, by simp [hu, Token.Kind.isOpening], fun rest' => ?_⟩
      have hcomma : t.kind.mark? .comma = none := by simpa using hc
      rw [typeNames_eq]
      simp [hu, Token.Kind.ident?, hcomma]
  | case3 ts name span rest' hn _ _ more hc ih =>
      obtain ⟨⟨as, r⟩, hr, heq⟩ := Option.map_eq_some_iff.mp h
      obtain ⟨rfl, rfl⟩ := Prod.mk.inj heq
      obtain ⟨u, rfl, hu, rfl⟩ := front?_ident_eq_some.mp hn
      obtain ⟨comma, rfl, hcomma, rfl⟩ := front?_mark_eq_some.mp hc
      obtain ⟨used, rfl, hused, hmore⟩ := ih hr
      refine ⟨u :: comma :: used, rfl, by simpa [hu, hcomma, Token.Kind.isOpening] using hused,
        fun rest' => ?_⟩
      rw [typeNames_eq]
      simp [hu, hcomma, Token.Kind.ident?, Token.Kind.mark?, hmore]

/-- What opens a call stands in front of `rest` alone. -/
theorem callOpening?_local {ts rest : List Token} {args : List TypeArg} {opened : Span}
    (h : callOpening? ts = some (args, opened, rest)) :
    ∃ used, ts = used ++ rest ∧ (∀ t ∈ used, t.kind.isOpening = true) ∧
      ∀ rest', callOpening? (used ++ rest') = some (args, opened, rest') := by
  rw [callOpening?] at h
  split at h
  · next hp =>
    obtain ⟨rfl, rfl, rfl⟩ : [] = args ∧ _ = opened ∧ _ = rest := by simpa using h
    obtain ⟨paren, rfl, hparen, rfl⟩ := front?_mark_eq_some.mp hp
    exact ⟨[paren], rfl, by simp [hparen, Token.Kind.isOpening], fun rest' => by
      simp [callOpening?, hparen, Token.Kind.mark?]⟩
  · obtain ⟨⟨_, _, afterLess⟩, hl, h⟩ := Option.bind_eq_some_iff.mp h
    obtain ⟨⟨as, afterNames⟩, hn, h⟩ := Option.bind_eq_some_iff.mp h
    obtain ⟨⟨_, _, afterGreater⟩, hg, h⟩ := Option.bind_eq_some_iff.mp h
    obtain ⟨⟨_, _, r⟩, hp, h⟩ := Option.map_eq_some_iff.mp h
    obtain ⟨rfl, rfl, rfl⟩ : as = args ∧ _ = opened ∧ r = rest := by simpa using h
    obtain ⟨less, rfl, hless, rfl⟩ := front?_op_eq_some.mp hl
    obtain ⟨greater, rfl, hgreater, rfl⟩ := front?_op_eq_some.mp hg
    obtain ⟨paren, rfl, hparen, rfl⟩ := front?_mark_eq_some.mp hp
    obtain ⟨used, rfl, hused, hmore⟩ := typeNames_local hn
    refine ⟨less :: (used ++ [greater, paren]), by simp, ?_, fun rest' => ?_⟩
    · simpa [hless, hgreater, hparen, Token.Kind.isOpening, or_imp, forall_and] using hused
    · simp [callOpening?, Token.Kind.mark?, Token.Kind.op?, hless, hgreater, hparen, hmore]

theorem suffix_of_callOpening? {ts rest : List Token} {args : List TypeArg} {opened : Span}
    (h : callOpening? ts = some (args, opened, rest)) : rest <:+ ts := by
  obtain ⟨used, rfl, -⟩ := callOpening?_local h
  exact List.suffix_append used rest

theorem callOpening?_append_of_some {ts rest : List Token} {args : List TypeArg} {opened : Span}
    (h : callOpening? ts = some (args, opened, rest)) (more : List Token) :
    callOpening? (ts ++ more) = some (args, opened, rest ++ more) := by
  obtain ⟨used, rfl, -, hlocal⟩ := callOpening?_local h
  rw [List.append_assoc, hlocal]

/-- Nothing opens a call over a token that no opening is made of. -/
theorem callOpening?_of_head {front ts us : List Token}
    (hhead : ∀ t ∈ us.head?, t.kind.isOpening = false) (h : callOpening? (front ++ ts) = none) :
    callOpening? (front ++ us) = none := by
  by_contra hne
  obtain ⟨⟨args, opened, rest⟩, hopen⟩ := Option.ne_none_iff_exists'.mp hne
  obtain ⟨used, heq, hused, hlocal⟩ := callOpening?_local hopen
  obtain ⟨vs, rfl, hmore⟩ | ⟨vs, rfl, -⟩ := List.append_eq_append_iff.mp heq
  · cases vs with
    | nil =>
        rw [List.append_nil] at hlocal
        simp [hlocal] at h
    | cons v vs =>
        have hv := hused v (by simp)
        simp [hhead v (by simp [hmore])] at hv
  · simp [hlocal] at h

/-- Tokens that carry nothing on, nor type arguments that begin in front of them. -/
structure Closes (ts : List Token) : Prop extends EndsAssignment ts where
  sign : front? Token.Kind.unary? ts = none
  head : ∀ t ∈ ts.head?, t.kind.isOpening = false

theorem closes_nil : Closes [] := ⟨endsAssignment_nil, rfl, by simp⟩

theorem closes_mark {t : Token} {m : Token.Mark} (ht : t.kind = .mark m)
    (hm : m = .rightParen ∨ m = .colon) (ts : List Token) : Closes (t :: ts) := by
  refine ⟨endsAssignment_mark ht (hm.imp_right .inr) ts, by simp [ht, Token.Kind.unary?], ?_⟩
  rcases hm with rfl | rfl <;> simp [ht, Token.Kind.isOpening]

/-- What `us` carry on, `ts` carry on as well: `us` begin as `ts` do, or carry nothing on. -/
structure StandsIn (ts us : List Token) : Prop where
  alike : (∃ t ts' us', ts = t :: ts' ∧ us = t :: us') ∨ Closes us
  opening : ∀ front, callOpening? (front ++ ts) = none → callOpening? (front ++ us) = none

theorem Closes.standsIn {us : List Token} (h : Closes us) (ts : List Token) : StandsIn ts us :=
  ⟨.inr h, fun _ => callOpening?_of_head h.head⟩

namespace StandsIn

variable {ts us : List Token}

theorem of_same {t : Token} (ht : t.kind.isOpening = false) (ts us : List Token) :
    StandsIn (t :: ts) (t :: us) :=
  ⟨.inl ⟨t, ts, us, rfl, rfl⟩, fun _ => callOpening?_of_head (by simpa using ht)⟩

theorem of_closing {t : Token} (ht : t.kind = .mark .rightParen) (ts us : List Token) :
    StandsIn (t :: ts) (t :: us) := of_same (by simp [ht, Token.Kind.isOpening]) ts us

theorem append (front : List Token) (h : StandsIn ts us) : StandsIn (front ++ ts) (front ++ us) := by
  refine ⟨?_, fun front' hnone => ?_⟩
  · cases front with
    | nil => exact h.alike
    | cons t front => exact .inl ⟨t, _, _, rfl, rfl⟩
  · rw [← List.append_assoc] at hnone ⊢
    exact h.opening _ hnone

theorem front?_eq_none {α : Type} {f : Token.Kind → Option α} (h : StandsIn ts us)
    (hts : front? f ts = none) (hus : Closes us → front? f us = none) : front? f us = none := by
  obtain ⟨t, ts', us', rfl, rfl⟩ | hcloses := h.alike
  · simpa using hts
  · exact hus hcloses

end StandsIn

section

variable {stop maxHops : Nat} (stop' : Nat)

-- The recursion is the parser's. What ends in a parenthesis of its own may stand in front of anything.
mutual

theorem assignment_local {ts rest : List Token} {e : Expr}
    (h : plain (assignment stop maxHops ts) = .ok (e, rest)) :
    ∃ used, used ++ rest = ts ∧ ∀ rest', StandsIn rest rest' →
      plain (assignment stop' maxHops (used ++ rest')) = .ok (e, rest') := by
  rw [plain_assignment, bind_eq_ok] at h
  obtain ⟨⟨target, r⟩, ht, h⟩ := h
  have := left_of_plain ht
  obtain ⟨used, rfl, hternary⟩ := ternary_local ht
  cases ho : front? Token.Kind.assignment? r with
  | none =>
      simp only [ho] at h
      obtain ⟨rfl, rfl⟩ := Prod.mk.inj (Except.ok.inj h)
      refine ⟨used, rfl, fun rest' hs => ?_⟩
      exact assignment_of_ternary (hternary rest' hs) (hs.front?_eq_none ho (·.assignment))
  | some found =>
      obtain ⟨op, span, afterOp⟩ := found
      simp only [ho] at h
      split at h
      · next hplace =>
        obtain ⟨⟨value, r'⟩, hv, h⟩ := bind_eq_ok.mp h
        obtain ⟨rfl, rfl⟩ := Prod.mk.inj (Except.ok.inj h)
        have := length_front ho
        obtain ⟨used', rfl, hvalue⟩ := assignment_local hv
        obtain ⟨t, rfl, hop, rfl⟩ := front?_eq_some.mp ho
        obtain ⟨hop, hassign⟩ := Token.Kind.assignment?_eq_some.mp hop
        refine ⟨used ++ t :: used', by simp, fun rest' hs => ?_⟩
        rw [List.append_assoc]
        exact assignment_of_target (hternary _ (hs.append (t :: used'))) hop hassign hplace
          (hvalue rest' hs)
      · cases h
termination_by (ts.length, 5)

theorem ternary_local {ts rest : List Token} {e : Expr}
    (h : plain (ternary stop maxHops ts) = .ok (e, rest)) :
    ∃ used, used ++ rest = ts ∧ ∀ rest', StandsIn rest rest' →
      plain (ternary stop' maxHops (used ++ rest')) = .ok (e, rest') := by
  rw [plain_ternary, bind_eq_ok] at h
  obtain ⟨⟨cond, r⟩, hc, h⟩ := h
  have := left_of_plain hc
  obtain ⟨used, rfl, hbinary⟩ := binary_local hc
  cases hq : front? (Token.Kind.mark? .question) r with
  | none =>
      simp only [hq] at h
      obtain ⟨rfl, rfl⟩ := Prod.mk.inj (Except.ok.inj h)
      refine ⟨used, rfl, fun rest' hs => ?_⟩
      exact ternary_of_binary (hbinary rest' hs) (hs.front?_eq_none hq (·.question))
  | some found =>
      obtain ⟨_, _, afterQuestion⟩ := found
      simp only [hq] at h
      obtain ⟨⟨yes, r'⟩, hy, h⟩ := bind_eq_ok.mp h
      cases hm : front? (Token.Kind.mark? .colon) r' with
      | none => simp [hm] at h
      | some found =>
          obtain ⟨_, _, afterColon⟩ := found
          simp only [hm] at h
          obtain ⟨⟨no, r''⟩, hn, h⟩ := bind_eq_ok.mp h
          obtain ⟨rfl, rfl⟩ := Prod.mk.inj (Except.ok.inj h)
          have := left_of_plain hy
          have := length_front hq
          have := length_front hm
          obtain ⟨usedNo, rfl, hno⟩ := assignment_local hn
          obtain ⟨usedYes, rfl, hyes⟩ := assignment_local hy
          obtain ⟨question, rfl, hquestion, -⟩ := front?_mark_eq_some.mp hq
          obtain ⟨colon, rfl, hcolon, -⟩ := front?_mark_eq_some.mp hm
          refine ⟨used ++ question :: (usedYes ++ colon :: usedNo), by simp, fun rest' hs => ?_⟩
          have hbehind := hs.append (colon :: usedNo)
          rw [List.append_assoc, List.cons_append, List.append_assoc]
          exact ternary_of_choice (hbinary _ (hbehind.append (question :: usedYes))) hquestion
            (hyes _ hbehind) hcolon (hno rest' hs)
termination_by (ts.length, 4)

theorem binary_local {least : Nat} {ts rest : List Token} {e : Expr}
    (h : plain (binary stop maxHops least ts) = .ok (e, rest)) :
    ∃ used, used ++ rest = ts ∧ ∀ rest', StandsIn rest rest' →
      plain (binary stop' maxHops least (used ++ rest')) = .ok (e, rest') := by
  rw [plain_binary, bind_eq_ok] at h
  obtain ⟨⟨left, r⟩, hl, h⟩ := h
  have := left_of_plain hl
  obtain ⟨used, rfl, hunary⟩ := unary_local hl
  obtain ⟨used', rfl, htail⟩ := binaryTail_local h
  refine ⟨used ++ used', by simp, fun rest' hs => ?_⟩
  rw [List.append_assoc, plain_binary, hunary _ (hs.append used')]
  exact htail rest' hs
termination_by (ts.length, 3)

theorem binaryTail_local {least : Nat} {left : Expr} {ts rest : List Token} {e : Expr}
    (h : plain (binaryTail stop maxHops least left ts) = .ok (e, rest)) :
    ∃ used, used ++ rest = ts ∧ ∀ rest', StandsIn rest rest' →
      plain (binaryTail stop' maxHops least left (used ++ rest')) = .ok (e, rest') := by
  rw [plain_binaryTail] at h
  cases ho : front? Token.Kind.binary? ts with
  | none =>
      simp only [ho] at h
      obtain ⟨rfl, rfl⟩ := Prod.mk.inj (Except.ok.inj h)
      refine ⟨[], rfl, fun rest' hs => ?_⟩
      rw [List.nil_append, plain_binaryTail]
      simp only [hs.front?_eq_none ho (·.binary)]
  | some found =>
      obtain ⟨⟨op, precedence⟩, span, afterOp⟩ := found
      simp only [ho] at h
      split at h
      · next hlow =>
        obtain ⟨rfl, rfl⟩ := Prod.mk.inj (Except.ok.inj h)
        refine ⟨[], rfl, fun rest' hs => ?_⟩
        rw [List.nil_append, plain_binaryTail]
        obtain ⟨t, _, us, rfl, rfl⟩ | hcloses := hs.alike
        · obtain ⟨_, heq, hop, -⟩ := front?_eq_some.mp ho
          obtain ⟨rfl, -⟩ := List.cons.inj heq
          simp only [front?_cons, hop, Option.map_some, if_pos hlow]
        · simp only [hcloses.binary]
      · next hlow =>
        obtain ⟨⟨right, r⟩, hr, h⟩ := bind_eq_ok.mp h
        have := length_front ho
        have := left_of_plain hr
        obtain ⟨used', rfl, htail⟩ := binaryTail_local h
        obtain ⟨used, rfl, hright⟩ := binary_local hr
        obtain ⟨t, rfl, hop, rfl⟩ := front?_eq_some.mp ho
        refine ⟨t :: (used ++ used'), by simp, fun rest' hs => ?_⟩
        rw [List.cons_append, List.append_assoc, plain_binaryTail]
        simp only [front?_cons, hop, Option.map_some, if_neg hlow]
        rw [hright _ (hs.append used')]
        exact htail rest' hs
termination_by (ts.length, 0)

theorem unary_local {ts rest : List Token} {e : Expr}
    (h : plain (unary stop maxHops ts) = .ok (e, rest)) :
    ∃ used, used ++ rest = ts ∧ ∀ rest', StandsIn rest rest' →
      plain (unary stop' maxHops (used ++ rest')) = .ok (e, rest') := by
  rw [plain_unary] at h
  cases ho : front? Token.Kind.unary? ts with
  | none =>
      simp only [ho] at h
      obtain ⟨used, rfl, hpostfixed⟩ := postfixed_local h
      refine ⟨used, rfl, fun rest' hs => ?_⟩
      rw [plain_unary_of_not_sign ((hs.append used).front?_eq_none ho (·.sign))]
      exact hpostfixed rest' hs
  | some found =>
      obtain ⟨op, span, afterOp⟩ := found
      simp only [ho] at h
      obtain ⟨⟨operand, r⟩, hu, h⟩ := bind_eq_ok.mp h
      obtain ⟨rfl, rfl⟩ := Prod.mk.inj (Except.ok.inj h)
      have := length_front ho
      obtain ⟨used, rfl, hunary⟩ := unary_local hu
      obtain ⟨t, rfl, hop, rfl⟩ := front?_eq_some.mp ho
      obtain ⟨hop, hsign⟩ := Token.Kind.unary?_eq_some.mp hop
      exact ⟨t :: used, rfl, fun rest' hs => unary_of_sign hop hsign (hunary rest' hs)⟩
termination_by (ts.length, 2)

theorem postfixed_local {ts rest : List Token} {e : Expr}
    (h : plain (postfixed stop maxHops ts) = .ok (e, rest)) :
    ∃ used, used ++ rest = ts ∧ ∀ rest', StandsIn rest rest' →
      plain (postfixed stop' maxHops (used ++ rest')) = .ok (e, rest') := by
  rw [plain_postfixed, bind_eq_ok] at h
  obtain ⟨⟨receiver, r⟩, hp, h⟩ := h
  have := left_of_plain hp
  obtain ⟨used, rfl, hprimary⟩ := primary_local hp
  obtain ⟨used', rfl, hchain⟩ := chain_local h
  refine ⟨used ++ used', by simp, fun rest' hs => ?_⟩
  rw [List.append_assoc, plain_postfixed, hprimary]
  exact hchain rest' hs
termination_by (ts.length, 1)

theorem chain_local {hops : Guard} {receiver e : Expr} {ts rest : List Token}
    (h : plain (chain stop maxHops hops receiver ts) = .ok (e, rest)) :
    ∃ used, used ++ rest = ts ∧ ∀ rest', StandsIn rest rest' →
      plain (chain stop' maxHops hops receiver (used ++ rest')) = .ok (e, rest') := by
  rw [plain_chain] at h
  cases hd : front? (Token.Kind.mark? .dot) ts with
  | none =>
      simp only [hd] at h
      obtain ⟨rfl, rfl⟩ := Prod.mk.inj (Except.ok.inj h)
      exact ⟨[], rfl, fun rest' hs =>
        plain_chain_of_not_dot _ _ (hs.front?_eq_none hd (·.dot))⟩
  | some found =>
      obtain ⟨_, dotSpan, afterDot⟩ := found
      simp only [hd] at h
      cases ht : hops.tick? with
      | none => simp [ht] at h
      | some hops' =>
          simp only [ht] at h
          cases hn : front? Token.Kind.ident? afterDot with
          | none => simp [hn] at h
          | some found =>
              obtain ⟨name, nameSpan, afterName⟩ := found
              simp only [hn] at h
              have := length_front hd
              have := length_front hn
              cases hc : callOpening? afterName with
              | none =>
                  simp only [hc] at h
                  obtain ⟨used, rfl, hchain⟩ := chain_local h
                  obtain ⟨t, rfl, hname, rfl⟩ := front?_ident_eq_some.mp hn
                  obtain ⟨dot, rfl, hdot, rfl⟩ := front?_mark_eq_some.mp hd
                  refine ⟨dot :: t :: used, rfl, fun rest' hs => ?_⟩
                  rw [List.cons_append, List.cons_append, plain_chain]
                  simp only [front?_cons, hdot, hname, Token.Kind.mark?, Token.Kind.ident?, if_true,
                    Option.map_some, ht, hs.opening used hc]
                  exact hchain rest' hs
              | some found =>
                  obtain ⟨typeArgs, opened, afterParen⟩ := found
                  simp only [hc] at h
                  obtain ⟨⟨⟨args, closed⟩, r⟩, ha, h⟩ := bind_eq_ok.mp h
                  have := length_callOpening hc
                  have := left_of_plain ha
                  obtain ⟨used, rfl, hchain⟩ := chain_local h
                  obtain ⟨front, closing, -, rfl, hargs⟩ := arguments_local ha
                  obtain ⟨opening, rfl, -, hopening⟩ := callOpening?_local hc
                  obtain ⟨t, rfl, hname, rfl⟩ := front?_ident_eq_some.mp hn
                  obtain ⟨dot, rfl, hdot, rfl⟩ := front?_mark_eq_some.mp hd
                  refine ⟨dot :: t :: (opening ++ (front ++ closing :: used)), by simp,
                    fun rest' hs => ?_⟩
                  rw [List.cons_append, List.cons_append, List.append_assoc, List.append_assoc,
                    List.cons_append, plain_chain]
                  simp only [front?_cons, hdot, hname, Token.Kind.mark?, Token.Kind.ident?, if_true,
                    Option.map_some, ht, hopening]
                  rw [hargs]
                  exact hchain rest' hs
termination_by (ts.length, 0)

theorem arguments_local {opened : Span} {ts rest : List Token} {args : List Expr × Span}
    (h : plain (arguments stop maxHops opened ts) = .ok (args, rest)) :
    ∃ front closing, closing.kind = .mark .rightParen ∧ front ++ closing :: rest = ts ∧ ∀ rest',
      plain (arguments stop' maxHops opened (front ++ closing :: rest')) = .ok (args, rest') := by
  rw [plain_arguments] at h
  cases hp : front? (Token.Kind.mark? .rightParen) ts with
  | none =>
      simp only [hp] at h
      obtain ⟨front, closing, hclosing, rfl, hsome⟩ := someArguments_local h
      cases front with
      | nil => simp [hclosing, Token.Kind.mark?] at hp
      | cons t front =>
          refine ⟨t :: front, closing, hclosing, rfl, fun rest' => ?_⟩
          have hnot : front? (Token.Kind.mark? .rightParen) (t :: front ++ closing :: rest') = none := by
            simpa using hp
          rw [plain_arguments]
          simp only [hnot]
          exact hsome rest'
  | some found =>
      obtain ⟨_, closed, afterParen⟩ := found
      simp only [hp] at h
      obtain ⟨rfl, rfl⟩ := Prod.mk.inj (Except.ok.inj h)
      obtain ⟨closing, rfl, hclosing, rfl⟩ := front?_mark_eq_some.mp hp
      refine ⟨[], closing, hclosing, rfl, fun rest' => ?_⟩
      rw [List.nil_append, plain_arguments]
      simp [hclosing, Token.Kind.mark?]
termination_by (ts.length, 7)

theorem someArguments_local {opened : Span} {ts rest : List Token} {args : List Expr × Span}
    (h : plain (someArguments stop maxHops opened ts) = .ok (args, rest)) :
    ∃ front closing, closing.kind = .mark .rightParen ∧ front ++ closing :: rest = ts ∧ ∀ rest',
      plain (someArguments stop' maxHops opened (front ++ closing :: rest')) = .ok (args, rest') := by
  rw [plain_someArguments, bind_eq_ok] at h
  obtain ⟨⟨arg, r⟩, ha, h⟩ := h
  have := left_of_plain ha
  obtain ⟨used, rfl, harg⟩ := assignment_local ha
  cases hc : front? (Token.Kind.mark? .comma) r with
  | some found =>
      obtain ⟨_, _, afterComma⟩ := found
      simp only [hc] at h
      obtain ⟨⟨⟨es, closed⟩, r'⟩, hs, h⟩ := bind_eq_ok.mp h
      obtain ⟨rfl, rfl⟩ := Prod.mk.inj (Except.ok.inj h)
      have := length_front hc
      obtain ⟨front, closing, hclosing, rfl, hsome⟩ := someArguments_local hs
      obtain ⟨comma, rfl, hcomma, -⟩ := front?_mark_eq_some.mp hc
      refine ⟨used ++ comma :: front, closing, hclosing, by simp, fun rest' => ?_⟩
      have hbehind := StandsIn.of_closing hclosing r' rest'
      rw [List.append_assoc]
      exact someArguments_of_comma hcomma (harg _ (hbehind.append (comma :: front))) (hsome rest')
  | none =>
      simp only [hc] at h
      cases hp : front? (Token.Kind.mark? .rightParen) r with
      | none => simp [hp] at h
      | some found =>
          obtain ⟨_, closed, afterParen⟩ := found
          simp only [hp] at h
          obtain ⟨rfl, rfl⟩ := Prod.mk.inj (Except.ok.inj h)
          obtain ⟨closing, rfl, hclosing, rfl⟩ := front?_mark_eq_some.mp hp
          refine ⟨used, closing, hclosing, rfl, fun rest' => ?_⟩
          exact someArguments_of_last hclosing (harg _ (.of_closing hclosing afterParen rest'))
termination_by (ts.length, 6)

theorem primary_local {ts rest : List Token} {e : Expr}
    (h : plain (primary stop maxHops ts) = .ok (e, rest)) :
    ∃ used, used ++ rest = ts ∧ ∀ rest',
      plain (primary stop' maxHops (used ++ rest')) = .ok (e, rest') := by
  rw [plain_primary] at h
  cases hl : front? Token.Kind.literal? ts with
  | some found =>
      obtain ⟨value, span, afterLiteral⟩ := found
      simp only [hl] at h
      obtain ⟨rfl, rfl⟩ := Prod.mk.inj (Except.ok.inj h)
      obtain ⟨t, rfl, ht, rfl⟩ := front?_eq_some.mp hl
      exact ⟨[t], rfl, primary_of_literal ht⟩
  | none =>
      simp only [hl] at h
      cases hi : front? Token.Kind.ident? ts with
      | some found =>
          obtain ⟨name, span, afterName⟩ := found
          simp only [hi] at h
          obtain ⟨rfl, rfl⟩ := Prod.mk.inj (Except.ok.inj h)
          obtain ⟨t, rfl, ht, rfl⟩ := front?_ident_eq_some.mp hi
          exact ⟨[t], rfl, primary_of_ident ht⟩
      | none =>
          simp only [hi] at h
          cases ho : front? (Token.Kind.mark? .leftParen) ts with
          | none => simp [ho] at h
          | some found =>
              obtain ⟨_, opened, afterParen⟩ := found
              simp only [ho] at h
              obtain ⟨⟨inner, r⟩, hg, h⟩ := bind_eq_ok.mp h
              have := length_front ho
              obtain ⟨used, hused, hinner⟩ := assignment_local hg
              cases hp : front? (Token.Kind.mark? .rightParen) r with
              | none => simp [hp] at h
              | some found =>
                  obtain ⟨_, closed, afterGroup⟩ := found
                  simp only [hp] at h
                  obtain ⟨rfl, rfl⟩ := Prod.mk.inj (Except.ok.inj h)
                  obtain ⟨opening, rfl, hopening, -⟩ := front?_mark_eq_some.mp ho
                  obtain ⟨closing, rfl, hclosing, -⟩ := front?_mark_eq_some.mp hp
                  refine ⟨opening :: (used ++ [closing]), by simp [← hused], fun rest' => ?_⟩
                  rw [List.cons_append, List.append_assoc]
                  exact primary_of_group hopening hclosing
                    (hinner _ (.of_closing hclosing afterGroup rest'))
termination_by (ts.length, 0)

end

/-! What a production leaves is the end of what it was given. -/

section

variable {ts rest : List Token} {e : Expr}

theorem suffix_of_assignment (h : plain (assignment stop maxHops ts) = .ok (e, rest)) : rest <:+ ts := by
  obtain ⟨used, hused, -⟩ := assignment_local stop h
  exact ⟨used, hused⟩

theorem suffix_of_ternary (h : plain (ternary stop maxHops ts) = .ok (e, rest)) : rest <:+ ts := by
  obtain ⟨used, hused, -⟩ := ternary_local stop h
  exact ⟨used, hused⟩

theorem suffix_of_binary {least : Nat} (h : plain (binary stop maxHops least ts) = .ok (e, rest)) :
    rest <:+ ts := by
  obtain ⟨used, hused, -⟩ := binary_local stop h
  exact ⟨used, hused⟩

theorem suffix_of_unary (h : plain (unary stop maxHops ts) = .ok (e, rest)) : rest <:+ ts := by
  obtain ⟨used, hused, -⟩ := unary_local stop h
  exact ⟨used, hused⟩

theorem suffix_of_primary (h : plain (primary stop maxHops ts) = .ok (e, rest)) : rest <:+ ts := by
  obtain ⟨used, hused, -⟩ := primary_local stop h
  exact ⟨used, hused⟩

theorem suffix_of_arguments {opened : Span} {args : List Expr × Span}
    (h : plain (arguments stop maxHops opened ts) = .ok (args, rest)) : rest <:+ ts := by
  obtain ⟨front, closing, -, hused, -⟩ := arguments_local stop h
  exact ⟨front ++ [closing], by simp [hused]⟩

end

/-- The tokens end in the name of a member. -/
def EndsInMember (ts : List Token) : Prop :=
  ∃ dot t name, [dot, t] <:+ ts ∧ dot.kind = .mark .dot ∧ t.kind = .ident name

theorem EndsInMember.mono {ts rest : List Token} (h : EndsInMember rest) (hsuffix : rest <:+ ts) :
    EndsInMember ts := by
  obtain ⟨dot, t, name, hend, hdot, ht⟩ := h
  exact ⟨dot, t, name, hend.trans hsuffix, hdot, ht⟩

theorem callOpening?_dot {dot : Token} (hdot : dot.kind = .mark .dot) (ts : List Token) :
    callOpening? (dot :: ts) = none := by
  simp [callOpening?, hdot, Token.Kind.mark?, Token.Kind.op?]

theorem callOpening?_op {t : Token} {op : Operator} (ht : t.kind = .op op) (hop : op ≠ .less)
    (ts : List Token) : callOpening? (t :: ts) = none := by
  simp [callOpening?, ht, hop, Token.Kind.mark?, Token.Kind.op?]

/-- A chain that reaches to the end goes on with a dot, if with anything. -/
theorem callOpening?_chain {hops : Guard} {receiver e : Expr} {ts more : List Token}
    (h : plain (chain stop maxHops hops receiver ts) = .ok (e, []))
    (hts : ts = [] → callOpening? more = none) : callOpening? (ts ++ more) = none := by
  cases ts with
  | nil => exact hts rfl
  | cons t ts =>
      cases hd : front? (Token.Kind.mark? .dot) (t :: ts) with
      | none => simp [plain_chain_of_not_dot hops receiver hd] at h
      | some found =>
          obtain ⟨_, _, _⟩ := found
          obtain ⟨dot, heq, hdot, -⟩ := front?_mark_eq_some.mp hd
          obtain ⟨rfl, -⟩ := List.cons.inj heq
          exact callOpening?_dot hdot _

section

variable {stop'} {more : List Token} (hmore : EndsUnary more)

include hmore

-- The recursion is that of the loop: on the tokens that are left.
theorem chain_append {hops : Guard} {receiver e : Expr} {ts : List Token}
    (h : plain (chain stop maxHops hops receiver ts) = .ok (e, []))
    (hcall : EndsInMember ts → callOpening? more = none) :
    plain (chain stop' maxHops hops receiver (ts ++ more)) = .ok (e, more) := by
  rw [plain_chain] at h
  cases hd : front? (Token.Kind.mark? .dot) ts with
  | none =>
      simp only [hd] at h
      obtain ⟨rfl, rfl⟩ := Prod.mk.inj (Except.ok.inj h)
      exact plain_chain_of_not_dot _ _ hmore.dot
  | some found =>
      obtain ⟨_, dotSpan, afterDot⟩ := found
      simp only [hd] at h
      cases ht : hops.tick? with
      | none => simp [ht] at h
      | some hops' =>
          simp only [ht] at h
          cases hn : front? Token.Kind.ident? afterDot with
          | none => simp [hn] at h
          | some found =>
              obtain ⟨name, nameSpan, afterName⟩ := found
              simp only [hn] at h
              have := length_front hd
              have := length_front hn
              have hname := (suffix_of_front? hn).trans (suffix_of_front? hd)
              rw [plain_chain]
              simp only [front?_append_of_some hd, ht, front?_append_of_some hn]
              cases hc : callOpening? afterName with
              | none =>
                  simp only [hc] at h
                  have hopens : callOpening? (afterName ++ more) = none := by
                    refine callOpening?_chain h fun hnil => hcall ?_
                    obtain ⟨dot, rfl, hdot, -⟩ := front?_mark_eq_some.mp hd
                    obtain ⟨t, rfl, ht, -⟩ := front?_ident_eq_some.mp hn
                    exact ⟨dot, t, name, by rw [hnil], hdot, ht⟩
                  simp only [hopens]
                  exact chain_append h fun hend => hcall (hend.mono hname)
              | some found =>
                  obtain ⟨typeArgs, opened, afterParen⟩ := found
                  simp only [hc] at h
                  obtain ⟨⟨⟨args, closed⟩, r⟩, ha, h⟩ := bind_eq_ok.mp h
                  have := length_callOpening hc
                  have := left_of_plain ha
                  have hr := suffix_of_arguments ha
                  obtain ⟨front, closing, -, hused, hargs⟩ := arguments_local stop' ha
                  simp only [callOpening?_append_of_some hc]
                  rw [← hused, List.append_assoc, List.cons_append, hargs]
                  exact chain_append h fun hend =>
                    hcall (hend.mono ((hr.trans (suffix_of_callOpening? hc)).trans hname))
termination_by ts.length

/-- What is an operand on its own is one in front of tokens that do not carry it on. -/
theorem unary_append {ts : List Token} {e : Expr} (h : plain (unary stop maxHops ts) = .ok (e, []))
    (hcall : EndsInMember ts → callOpening? more = none) :
    plain (unary stop' maxHops (ts ++ more)) = .ok (e, more) := by
  rw [plain_unary] at h
  cases ho : front? Token.Kind.unary? ts with
  | none =>
      simp only [ho] at h
      obtain ⟨t, us, rfl⟩ : ∃ t us, ts = t :: us :=
        List.exists_cons_of_length_pos (Nat.zero_lt_of_lt (left_of_plain h))
      rw [plain_unary_of_not_sign (by simpa using ho)]
      rw [plain_postfixed] at h ⊢
      obtain ⟨⟨receiver, r⟩, hp, h⟩ := bind_eq_ok.mp h
      have hr := suffix_of_primary hp
      obtain ⟨used, hused, hprimary⟩ := primary_local stop' hp
      rw [← hused, List.append_assoc, hprimary]
      exact chain_append hmore h fun hend => hcall (hend.mono hr)
  | some found =>
      obtain ⟨op, span, afterOp⟩ := found
      simp only [ho] at h
      obtain ⟨⟨operand, r⟩, hu, h⟩ := bind_eq_ok.mp h
      obtain ⟨rfl, rfl⟩ := Prod.mk.inj (Except.ok.inj h)
      have := length_front ho
      have hsuffix := suffix_of_front? ho
      obtain ⟨t, rfl, hop, rfl⟩ := front?_eq_some.mp ho
      obtain ⟨hop, hsign⟩ := Token.Kind.unary?_eq_some.mp hop
      exact unary_of_sign hop hsign (unary_append hu fun hend => hcall (hend.mono hsuffix))
termination_by ts.length

end

end

end Expr.Parse

end Formula
