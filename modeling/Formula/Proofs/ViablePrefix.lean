import Formula.Proofs.Acceptance
import Formula.Proofs.Lookahead
import Formula.Proofs.RoundTrip
import Mathlib

/-!
Where the parser gives up. An error about a token that does not fit is about the first such token: what
stands before it can be carried on to a whole statement.
-/

namespace Formula

/-- The error is about a token that does not fit, and not about a chain that is too long or a target that
is no place. -/
def ParseError.IsMisfit (e : ParseError) : Prop :=
  e.fault.code.text ∈ ["E1001", "E1002", "E1003", "E1006"]

namespace Expr

namespace Parse

theorem closes_literal {t : Token} {value : Literal} (ht : t.kind.literal? = some value)
    (ts : List Token) : Closes (t :: ts) := by
  cases hk : t.kind with
  | ident | op | mark => simp [hk, Token.Kind.literal?] at ht
  | int | float | string | bool | null =>
      exact ⟨⟨⟨⟨⟨by simp [hk, Token.Kind.mark?], by simp [hk, Token.Kind.mark?]⟩,
        by simp [hk, Token.Kind.binary?]⟩, by simp [hk, Token.Kind.mark?]⟩,
        by simp [hk, Token.Kind.assignment?]⟩, by simp [hk, Token.Kind.unary?],
        by simp [hk, Token.Kind.isOpening]⟩

theorem Closes.callOpening?_eq_none {ts : List Token} (h : Closes ts) : callOpening? ts = none :=
  (h.standsIn []).opening [] rfl

/-- A production fails at the first of the tokens `rest`. With other tokens in their place it succeeds,
and whatever follows that token, it fails with the same error, unless that token may be one of those that
type arguments are made of. -/
structure StuckAt {α : Type} (stop : Nat) (parse : List Token → Except ParseError (α × List Token))
    (front rest : List Token) (err : ParseError) : Prop where
  span : err.span = (found stop rest).2
  completed : ∃ more, ∀ c, Closes c → StandsIn (front ++ rest) (front ++ (more ++ c)) ∧
    ∃ a, parse (front ++ (more ++ c)) = .ok (a, c)
  refused : ∀ t us us', rest = t :: us → t.kind.isOpening = false →
    parse (front ++ t :: us') = .error err

def Stuck {α : Type} (stop : Nat) (parse : List Token → Except ParseError (α × List Token))
    (ts : List Token) (err : ParseError) : Prop :=
  ∃ front rest, front ++ rest = ts ∧ StuckAt stop parse front rest err

section

variable {α β : Type} {stop : Nat} {parse : List Token → Except ParseError (α × List Token)}
  {ts : List Token} {err : ParseError}

/-- The first token does not fit, and other tokens do. -/
theorem stuck_here (more : List Token) (hmore : ∀ c, Closes c → Closes (more ++ c))
    (hspan : err.span = (found stop ts).2)
    (hok : ∀ c, Closes c → ∃ a, parse (more ++ c) = .ok (a, c))
    (hrefused : ∀ t us us', ts = t :: us → parse (t :: us') = .error err) :
    Stuck stop parse ts err :=
  ⟨[], ts, rfl, hspan, ⟨more, fun c hc => ⟨(hmore c hc).standsIn ts, hok c hc⟩⟩,
    fun t us us' hts _ => hrefused t us us' hts⟩

/-- What reads the tokens `used` first is stuck with what it goes on with. -/
theorem stuck_append {used : List Token} (h : Stuck stop (fun us => parse (used ++ us)) ts err) :
    Stuck stop parse (used ++ ts) err := by
  obtain ⟨front, rest, rfl, hspan, ⟨more, hmore⟩, hrefused⟩ := h
  refine ⟨used ++ front, rest, by simp, hspan, ⟨more, fun c hc => ?_⟩, fun t us us' hrest ht => ?_⟩
  · obtain ⟨hs, a, ha⟩ := hmore c hc
    rw [List.append_assoc, List.append_assoc]
    exact ⟨hs.append used, a, ha⟩
  · rw [List.append_assoc]
    exact hrefused t us us' hrest ht

theorem stuck_cons {t : Token} (h : Stuck stop (fun us => parse (t :: us)) ts err) :
    Stuck stop parse (t :: ts) err :=
  have happend : Stuck stop (fun us => parse ([t] ++ us)) ts err := h
  stuck_append happend

namespace Stuck

variable (h : Stuck stop parse ts err)

include h

theorem congr {parse' : List Token → Except ParseError (α × List Token)}
    (hsame : ∀ us, StandsIn ts us → parse' us = parse us) : Stuck stop parse' ts err := by
  obtain ⟨front, rest, rfl, hspan, ⟨more, hmore⟩, hrefused⟩ := h
  refine ⟨front, rest, rfl, hspan, ⟨more, fun c hc => ?_⟩, ?_⟩
  · obtain ⟨hs, a, ha⟩ := hmore c hc
    exact ⟨hs, a, (hsame _ hs).trans ha⟩
  · rintro t us us' rfl ht
    exact (hsame _ ((StandsIn.of_same ht us us').append front)).trans (hrefused t us us' rfl ht)

/-- What goes on with `k` when one production is through is stuck with it, if `k` ends behind `more`. -/
theorem bind (k : α × List Token → Except ParseError (β × List Token)) (more : List Token)
    (hmore : ∀ c, Closes c → Closes (more ++ c))
    (hk : ∀ a c, Closes c → ∃ b, k (a, more ++ c) = .ok (b, c)) :
    Stuck stop (fun us => parse us >>= k) ts err := by
  obtain ⟨front, rest, rfl, hspan, ⟨more', hmore'⟩, hrefused⟩ := h
  refine ⟨front, rest, rfl, hspan, ⟨more' ++ more, fun c hc => ?_⟩, fun t us us' hrest ht => ?_⟩
  · obtain ⟨hs, a, ha⟩ := hmore' (more ++ c) (hmore c hc)
    obtain ⟨b, hb⟩ := hk a c hc
    rw [List.append_assoc]
    exact ⟨hs, b, bind_eq_ok.mpr ⟨_, ha, hb⟩⟩
  · exact bind_eq_error.mpr (.inl (hrefused t us us' hrest ht))

end Stuck

/-- A production that is through with the tokens `used` is stuck with what it goes on with. -/
theorem stuck_bind {used : List Token} {a : α} {k : α × List Token → Except ParseError (β × List Token)}
    (hparse : ∀ us, StandsIn ts us → parse (used ++ us) = .ok (a, us))
    (h : Stuck stop (fun us => k (a, us)) ts err) :
    Stuck stop (fun us => parse us >>= k) (used ++ ts) err :=
  stuck_append (h.congr fun us hs => by rw [hparse us hs]; rfl)

end

section

variable (stop maxHops : Nat)

/-- `null` is a whole statement. -/
theorem assignment_null {ts : List Token} (hts : EndsAssignment ts) :
    plain (assignment stop maxHops (.ofKind .null :: ts)) = .ok (.literal default .null, ts) :=
  assignment_of_unary (Grammar.unary_of_primary (.inl rfl) (primary_of_literal rfl ts) hts.toEndsUnary) hts

end

theorem span_notAnOperand (stop : Nat) (ts : List Token) :
    (notAnOperand stop ts).span = (found stop ts).2 := by
  cases ts with
  | nil => rfl
  | cons t ts =>
      rw [notAnOperand]
      split <;> rfl

theorem plain_arguments_of_some {stop maxHops : Nat} {opened : Span} {ts : List Token}
    (h : front? (Token.Kind.mark? .rightParen) ts = none) :
    plain (arguments stop maxHops opened ts) = plain (someArguments stop maxHops opened ts) := by
  rw [plain_arguments, h]

section

variable {stop maxHops : Nat} {err : ParseError}

-- The recursion is the parser's.
mutual

theorem assignment_stuck {ts : List Token} (hmisfit : err.IsMisfit)
    (h : plain (assignment stop maxHops ts) = .error err) :
    Stuck stop (fun us => plain (assignment stop maxHops us)) ts err := by
  rw [plain_assignment, bind_eq_error] at h
  rw [funext (plain_assignment stop maxHops)]
  obtain h | ⟨⟨target, r⟩, ht, h⟩ := h
  · refine (ternary_stuck hmisfit h).bind _ [] (fun _ hc => hc) fun target c hc => ⟨target, ?_⟩
    simp only [List.nil_append, hc.assignment]
  · have := left_of_plain ht
    obtain ⟨used, rfl, hternary⟩ := ternary_local stop ht
    refine stuck_bind hternary ?_
    cases ho : front? Token.Kind.assignment? r with
    | none => simp [ho] at h
    | some found =>
        obtain ⟨op, span, afterOp⟩ := found
        have := length_front ho
        simp only [ho] at h
        split at h
        · next hplace =>
          obtain hv | ⟨_, -, h⟩ := bind_eq_error.mp h
          · obtain ⟨t, rfl, hop, rfl⟩ := front?_eq_some.mp ho
            refine stuck_cons ?_
            simp only [front?_cons, hop, Option.map_some, hplace, if_true]
            exact (assignment_stuck hmisfit hv).bind _ [] (fun _ hc => hc) fun value c _ => ⟨_, rfl⟩
          · cases h
        · obtain rfl := Except.error.inj h
          simp [ParseError.IsMisfit, ParseFault.code, Code.text] at hmisfit
termination_by (ts.length, 5)

theorem ternary_stuck {ts : List Token} (hmisfit : err.IsMisfit)
    (h : plain (ternary stop maxHops ts) = .error err) :
    Stuck stop (fun us => plain (ternary stop maxHops us)) ts err := by
  rw [plain_ternary, bind_eq_error] at h
  rw [funext (plain_ternary stop maxHops)]
  obtain h | ⟨⟨cond, r⟩, hc, h⟩ := h
  · refine (binary_stuck hmisfit h).bind _ [] (fun _ hc => hc) fun cond c hc => ⟨cond, ?_⟩
    simp only [List.nil_append, hc.question]
  · have := left_of_plain hc
    obtain ⟨used, rfl, hbinary⟩ := binary_local stop hc
    refine stuck_bind hbinary ?_
    cases hq : front? (Token.Kind.mark? .question) r with
    | none => simp [hq] at h
    | some found =>
        obtain ⟨_, _, afterQuestion⟩ := found
        have := length_front hq
        simp only [hq] at h
        obtain ⟨question, rfl, hquestion, -⟩ := front?_mark_eq_some.mp hq
        refine stuck_cons ?_
        simp only [front?_cons, hquestion, Token.Kind.mark?, if_true, Option.map_some]
        have hcolon (c : List Token) (_ : Closes c) :
            Closes ([.ofKind (.mark .colon), .ofKind .null] ++ c) := closes_mark rfl (.inr rfl) _
        rw [bind_eq_error] at h
        obtain hy | ⟨⟨yes, r'⟩, hy, h⟩ := h
        · refine (assignment_stuck hmisfit hy).bind _ _ hcolon fun yes c hc =>
            ⟨.ternary (cond.span.merge default) cond yes (.literal default .null), ?_⟩
          simp [Token.Kind.mark?, assignment_null stop maxHops hc.toEndsAssignment, bind, Except.bind,
            Expr.span]
        · have := left_of_plain hy
          obtain ⟨used', rfl, hyes⟩ := assignment_local stop hy
          refine stuck_bind hyes ?_
          cases hm : front? (Token.Kind.mark? .colon) r' with
          | none =>
              simp only [hm] at h
              obtain rfl := Except.error.inj h
              refine stuck_here _ hcolon rfl (fun c hc =>
                ⟨.ternary (cond.span.merge default) cond yes (.literal default .null), ?_⟩) ?_
              · simp [Token.Kind.mark?, assignment_null stop maxHops hc.toEndsAssignment, bind,
                  Except.bind, Expr.span]
              · rintro t us us' rfl
                simp only [front?_cons, Option.map_eq_none_iff] at hm
                simp only [front?_cons, hm, Option.map_none]
                rfl
          | some found =>
              obtain ⟨_, _, afterColon⟩ := found
              have := length_front hm
              simp only [hm] at h
              obtain ⟨colon, rfl, hcolon, -⟩ := front?_mark_eq_some.mp hm
              obtain hn | ⟨_, -, h⟩ := bind_eq_error.mp h
              · refine stuck_cons ?_
                simp only [front?_cons, hcolon, Token.Kind.mark?, if_true, Option.map_some]
                exact (assignment_stuck hmisfit hn).bind _ [] (fun _ hc => hc) fun no c _ => ⟨_, rfl⟩
              · cases h
termination_by (ts.length, 4)

theorem binary_stuck {least : Nat} {ts : List Token} (hmisfit : err.IsMisfit)
        (h : plain (binary stop maxHops least ts) = .error err) :
    Stuck stop (fun us => plain (binary stop maxHops least us)) ts err := by
  rw [plain_binary, bind_eq_error] at h
  rw [funext (plain_binary stop maxHops least)]
  obtain h | ⟨⟨left, r⟩, hl, h⟩ := h
  · refine (unary_stuck hmisfit h).bind _ [] (fun _ hc => hc) fun left c hc => ⟨left, ?_⟩
    simp only [List.nil_append, plain_binaryTail, hc.binary]
  · have := left_of_plain hl
    obtain ⟨used, rfl, hunary⟩ := unary_local stop hl
    exact stuck_bind hunary (binaryTail_stuck hmisfit h)
termination_by (ts.length, 3)

theorem binaryTail_stuck {least : Nat} {left : Expr} {ts : List Token} (hmisfit : err.IsMisfit)
        (h : plain (binaryTail stop maxHops least left ts) = .error err) :
    Stuck stop (fun us => plain (binaryTail stop maxHops least left us)) ts err := by
  rw [plain_binaryTail] at h
  rw [funext (plain_binaryTail stop maxHops least left)]
  cases ho : front? Token.Kind.binary? ts with
  | none => simp [ho] at h
  | some found =>
      obtain ⟨⟨op, precedence⟩, span, afterOp⟩ := found
      have := length_front ho
      simp only [ho] at h
      split at h
      · cases h
      · next hlow =>
        rw [bind_eq_error] at h
        obtain ⟨t, rfl, hop, rfl⟩ := front?_eq_some.mp ho
        refine stuck_cons ?_
        simp only [front?_cons, hop, Option.map_some, if_neg hlow]
        obtain h | ⟨⟨right, r⟩, hr, h⟩ := h
        · refine (binary_stuck hmisfit h).bind _ [] (fun _ hc => hc) fun right c hc =>
            ⟨.binary (left.span.merge right.span) op left right, ?_⟩
          simp only [List.nil_append, plain_binaryTail, hc.binary]
        · have := left_of_plain hr
          obtain ⟨used, rfl, hright⟩ := binary_local stop hr
          exact stuck_bind hright (binaryTail_stuck hmisfit h)
termination_by (ts.length, 0)

theorem unary_stuck {ts : List Token} (hmisfit : err.IsMisfit)
    (h : plain (unary stop maxHops ts) = .error err) :
    Stuck stop (fun us => plain (unary stop maxHops us)) ts err := by
  rw [plain_unary] at h
  cases ho : front? Token.Kind.unary? ts with
  | none =>
      simp only [ho] at h
      exact (postfixed_stuck hmisfit h).congr fun us hs =>
        plain_unary_of_not_sign (hs.front?_eq_none ho (·.sign))
  | some found =>
      obtain ⟨op, span, afterOp⟩ := found
      have := length_front ho
      simp only [ho] at h
      rw [bind_eq_error] at h
      obtain h | ⟨_, -, h⟩ := h
      · obtain ⟨t, rfl, hop, rfl⟩ := front?_eq_some.mp ho
        rw [funext (plain_unary stop maxHops)]
        refine stuck_cons ?_
        simp only [front?_cons, hop, Option.map_some]
        exact (unary_stuck hmisfit h).bind _ [] (fun _ hc => hc) fun operand c _ => ⟨_, rfl⟩
      · cases h
termination_by (ts.length, 2)

theorem postfixed_stuck {ts : List Token} (hmisfit : err.IsMisfit)
    (h : plain (postfixed stop maxHops ts) = .error err) :
    Stuck stop (fun us => plain (postfixed stop maxHops us)) ts err := by
  rw [plain_postfixed, bind_eq_error] at h
  rw [funext (plain_postfixed stop maxHops)]
  obtain h | ⟨⟨receiver, r⟩, hp, h⟩ := h
  · exact (primary_stuck hmisfit h).bind _ [] (fun _ hc => hc) fun receiver c hc =>
      ⟨receiver, plain_chain_of_not_dot _ _ hc.dot⟩
  · have := left_of_plain hp
    obtain ⟨used, rfl, hprimary⟩ := primary_local stop hp
    exact stuck_bind (fun us _ => hprimary us) (chain_stuck hmisfit h)
termination_by (ts.length, 1)

theorem chain_stuck {hops : Guard} {receiver : Expr} {ts : List Token} (hmisfit : err.IsMisfit)
    (h : plain (chain stop maxHops hops receiver ts) = .error err) :
    Stuck stop (fun us => plain (chain stop maxHops hops receiver us)) ts err := by
  rw [plain_chain] at h
  rw [funext (plain_chain stop maxHops hops receiver)]
  cases hd : front? (Token.Kind.mark? .dot) ts with
  | none => simp [hd] at h
  | some found =>
      obtain ⟨_, dotSpan, afterDot⟩ := found
      have := length_front hd
      simp only [hd] at h
      obtain ⟨dot, rfl, hdot, rfl⟩ := front?_mark_eq_some.mp hd
      cases ht : hops.tick? with
      | none =>
          simp only [ht] at h
          obtain rfl := Except.error.inj h
          simp [ParseError.IsMisfit, ParseFault.code, Code.text] at hmisfit
      | some hops' =>
          simp only [ht] at h
          cases hn : front? Token.Kind.ident? afterDot with
          | none =>
              simp only [hn] at h
              obtain rfl := Except.error.inj h
              refine ⟨[dot], afterDot, rfl, rfl, ⟨[.ofKind (.ident "member")], fun c hc => ⟨?_, ?_⟩⟩, ?_⟩
              · exact .of_same (by simp [hdot, Token.Kind.isOpening]) _ _
              · refine ⟨.member (receiver.span.merge default) receiver "member", ?_⟩
                simp only [List.cons_append, List.nil_append, front?_cons, hdot, Token.Kind.mark?,
                  if_true, Option.map_some, Token.kind_ofKind, Token.Kind.ident?,
                  hc.callOpening?_eq_none]
                exact plain_chain_of_not_dot _ _ hc.dot
              · rintro t us us' rfl -
                simp only [front?_cons, Option.map_eq_none_iff] at hn
                simp only [List.cons_append, List.nil_append, front?_cons, hdot, Token.Kind.mark?,
                  if_true, Option.map_some, hn, Option.map_none]
                rfl
          | some found =>
              obtain ⟨name, nameSpan, afterName⟩ := found
              have := length_front hn
              simp only [hn] at h
              obtain ⟨t, rfl, hname, rfl⟩ := front?_ident_eq_some.mp hn
              refine stuck_cons (stuck_cons ?_)
              simp only [front?_cons, hdot, Token.Kind.mark?, if_true, Option.map_some, hname,
                Token.Kind.ident?]
              cases hc : callOpening? afterName with
              | none =>
                  simp only [hc] at h
                  refine (chain_stuck hmisfit h).congr fun us hs => ?_
                  have hnone : callOpening? us = none := hs.opening [] hc
                  simp only [hnone]
              | some found =>
                  obtain ⟨typeArgs, opened, afterParen⟩ := found
                  have := length_callOpening hc
                  simp only [hc] at h
                  rw [bind_eq_error] at h
                  obtain ⟨opening, rfl, -, hopening⟩ := callOpening?_local hc
                  refine stuck_append ?_
                  simp only [hopening]
                  obtain h | ⟨⟨⟨args, closed⟩, r⟩, ha, h⟩ := h
                  · exact (arguments_stuck hmisfit h).bind _ [] (fun _ hc => hc) fun _ c hc =>
                      ⟨_, plain_chain_of_not_dot _ _ hc.dot⟩
                  · have := left_of_plain ha
                    obtain ⟨front, closing, -, rfl, hargs⟩ := arguments_local stop ha
                    rw [List.append_cons]
                    exact stuck_bind (fun us _ => by rw [← List.append_cons, hargs]) (chain_stuck hmisfit h)
termination_by (ts.length, 0)

theorem arguments_stuck {opened : Span} {ts : List Token} (hmisfit : err.IsMisfit)
    (h : plain (arguments stop maxHops opened ts) = .error err) :
    Stuck stop (fun us => plain (arguments stop maxHops opened us)) ts err := by
  rw [plain_arguments] at h
  cases hp : front? (Token.Kind.mark? .rightParen) ts with
  | some found => simp [hp] at h
  | none =>
      simp only [hp] at h
      obtain ⟨front, rest, rfl, hspan, ⟨more, hmore⟩, hrefused⟩ := someArguments_stuck hmisfit h
      cases front with
      | nil =>
          -- Where no argument has begun, there need not be one.
          refine ⟨[], rest, rfl, hspan, ⟨[.ofKind (.mark .rightParen)], fun c _ =>
            ⟨(closes_mark rfl (.inl rfl) c).standsIn rest, ([], default), ?_⟩⟩, ?_⟩
          · rw [plain_arguments]
            simp [Token.Kind.mark?]
          · rintro t us us' rfl ht
            exact (plain_arguments_of_some (by simpa using hp)).trans (hrefused t us us' rfl ht)
      | cons t front =>
          have hnot (us : List Token) : front? (Token.Kind.mark? .rightParen) (t :: us) = none := by
            simpa using hp
          refine ⟨t :: front, rest, rfl, hspan, ⟨more, fun c hc => ?_⟩, fun u us us' hrest hu => ?_⟩
          · obtain ⟨hs, args, hargs⟩ := hmore c hc
            exact ⟨hs, args, (plain_arguments_of_some (hnot _)).trans hargs⟩
          · exact (plain_arguments_of_some (hnot _)).trans (hrefused u us us' hrest hu)
termination_by (ts.length, 7)

theorem someArguments_stuck {opened : Span} {ts : List Token} (hmisfit : err.IsMisfit)
    (h : plain (someArguments stop maxHops opened ts) = .error err) :
    Stuck stop (fun us => plain (someArguments stop maxHops opened us)) ts err := by
  rw [plain_someArguments, bind_eq_error] at h
  rw [funext (plain_someArguments stop maxHops opened)]
  have hparen (c : List Token) (_ : Closes c) : Closes ([.ofKind (.mark .rightParen)] ++ c) :=
    closes_mark rfl (.inl rfl) c
  obtain h | ⟨⟨arg, r⟩, ha, h⟩ := h
  · refine (assignment_stuck hmisfit h).bind _ _ hparen fun arg c _ => ⟨([arg], default), ?_⟩
    simp [Token.Kind.mark?]
  · have := left_of_plain ha
    obtain ⟨used, rfl, harg⟩ := assignment_local stop ha
    refine stuck_bind harg ?_
    cases hc : front? (Token.Kind.mark? .comma) r with
    | some found =>
        obtain ⟨_, _, afterComma⟩ := found
        have := length_front hc
        simp only [hc] at h
        obtain ⟨comma, rfl, hcomma, -⟩ := front?_mark_eq_some.mp hc
        obtain hs | ⟨_, -, h⟩ := bind_eq_error.mp h
        · refine stuck_cons ?_
          simp only [front?_cons, hcomma, Token.Kind.mark?, if_true, Option.map_some]
          exact (someArguments_stuck hmisfit hs).bind _ [] (fun _ hc => hc) fun args c _ => ⟨_, rfl⟩
        · cases h
    | none =>
        simp only [hc] at h
        cases hp : front? (Token.Kind.mark? .rightParen) r with
        | some found => simp [hp] at h
        | none =>
            simp only [hp] at h
            obtain rfl := Except.error.inj h
            refine stuck_here _ hparen rfl (fun c _ => ⟨([arg], default), ?_⟩) ?_
            · simp [Token.Kind.mark?]
            · rintro t us us' rfl
              simp only [front?_cons, Option.map_eq_none_iff] at hc hp
              simp only [front?_cons, hc, hp, Option.map_none]
              rfl
termination_by (ts.length, 6)

theorem primary_stuck {ts : List Token} (hmisfit : err.IsMisfit)
    (h : plain (primary stop maxHops ts) = .error err) :
    Stuck stop (fun us => plain (primary stop maxHops us)) ts err := by
  rw [plain_primary] at h
  cases hl : front? Token.Kind.literal? ts with
  | some found => simp [hl] at h
  | none =>
      simp only [hl] at h
      cases hi : front? Token.Kind.ident? ts with
      | some found => simp [hi] at h
      | none =>
          simp only [hi] at h
          cases ho : front? (Token.Kind.mark? .leftParen) ts with
          | none =>
              simp only [ho] at h
              obtain rfl := Except.error.inj h
              refine stuck_here [.ofKind .null] (fun c _ => closes_literal rfl c)
                (span_notAnOperand stop ts) (fun c _ => ⟨_, primary_of_literal rfl c⟩) ?_
              rintro t us us' rfl
              simp only [front?_cons, Option.map_eq_none_iff] at hl hi ho
              rw [plain_primary]
              simp only [front?_cons, hl, hi, ho, Option.map_none]
              rfl
          | some found =>
              obtain ⟨_, opened, afterParen⟩ := found
              have := length_front ho
              simp only [ho] at h
              obtain ⟨opening, rfl, hopening, rfl⟩ := front?_mark_eq_some.mp ho
              rw [funext (plain_primary stop maxHops)]
              refine stuck_cons ?_
              simp only [front?_cons, hopening, Token.Kind.literal?, Token.Kind.ident?, Token.Kind.mark?,
                if_true, Option.map_some, Option.map_none]
              have hparen (c : List Token) (_ : Closes c) :
                  Closes ([.ofKind (.mark .rightParen)] ++ c) := closes_mark rfl (.inl rfl) c
              rw [bind_eq_error] at h
              obtain hg | ⟨⟨inner, r⟩, hg, h⟩ := h
              · refine (assignment_stuck hmisfit hg).bind _ _ hparen fun inner c _ => ⟨inner, ?_⟩
                simp [Token.Kind.mark?]
              · obtain ⟨used, rfl, hinner⟩ := assignment_local stop hg
                refine stuck_bind hinner ?_
                cases hp : front? (Token.Kind.mark? .rightParen) r with
                | some found => simp [hp] at h
                | none =>
                    simp only [hp] at h
                    obtain rfl := Except.error.inj h
                    refine stuck_here _ hparen rfl (fun c _ => ⟨inner, ?_⟩) ?_
                    · simp [Token.Kind.mark?]
                    · rintro t us us' rfl
                      simp only [front?_cons, Option.map_eq_none_iff] at hp
                      simp only [front?_cons, hp, Option.map_none]
                      rfl
termination_by (ts.length, 0)

end

/-- What is left after a whole expression does not fit. -/
theorem notAtEnd_cons (stop : Nat) (t : Token) (us us' : List Token) :
    notAtEnd stop (t :: us') = notAtEnd stop (t :: us) := by
  simp only [notAtEnd, front?_cons]
  cases Token.Kind.mark? .rightParen t.kind <;> rfl

theorem span_notAtEnd (stop : Nat) (ts : List Token) :
    (notAtEnd stop ts).span = (found stop ts).2 := by
  rw [notAtEnd]
  split
  · next hp =>
    obtain ⟨t, rfl, -, rfl⟩ := front?_mark_eq_some.mp hp
    rfl
  · rfl

end

end Parse

open Parse

/-- An error about a token that does not fit is about the first one: with other tokens in its place, and
in that of all that follows, the statement is whole. Whatever else follows it, the error is the same,
unless it may be a token of type arguments: `a.b < c, d` fails at the comma, and `a.b < c, d > ()` does
not. -/
theorem fails_at_misfit {maxHops : Nat} {ts : TokenList} {err : ParseError}
    (h : ofTokens maxHops ts = .error err) (hmisfit : err.IsMisfit) :
    ∃ front rest, front ++ rest = ts.tokens ∧ err.span = (found ts.stop rest).2 ∧
      (∃ more e, ofTokens maxHops ⟨front ++ more, ts.stop⟩ = .ok e) ∧
      ∀ t us, rest = t :: us → t.kind.isOpening = false →
        ∀ more, ofTokens maxHops ⟨front ++ t :: more, ts.stop⟩ = .error err := by
  rw [ofTokens_eq, bind_eq_error] at h
  obtain h | ⟨⟨e, rest⟩, ha, h⟩ := h
  · obtain ⟨front, rest, hts, hspan, ⟨more, hmore⟩, hrefused⟩ := assignment_stuck hmisfit h
    refine ⟨front, rest, hts, hspan, ⟨more, ?_⟩, fun t us hrest ht more => ?_⟩
    · obtain ⟨-, e, he⟩ := hmore [] closes_nil
      rw [List.append_nil] at he
      exact ⟨e, ofTokens_eq_ok_iff.mpr he⟩
    · exact (ofTokens_eq ..).trans (bind_eq_error.mpr (.inl (hrefused t us more hrest ht)))
  · obtain ⟨used, hused, hwhole⟩ := assignment_local ts.stop ha
    dsimp only at h
    split_ifs at h
    · obtain rfl := Except.error.inj h
      refine ⟨used, rest, hused, span_notAtEnd ts.stop rest, ⟨[], e, ?_⟩, ?_⟩
      · exact ofTokens_eq_ok_iff.mpr (hwhole [] (closes_nil.standsIn rest))
      · rintro t us rfl ht more
        rw [ofTokens_eq, hwhole (t :: more) (.of_same ht us more)]
        exact congrArg Except.error (notAtEnd_cons ts.stop t us more)

/-- `f.g(a ? b : c, d ? 1 2)`. -/
def crowdedTokens : List Token :=
  [⟨.ident "f", ⟨0, 1⟩⟩, ⟨.mark .dot, ⟨1, 2⟩⟩, ⟨.ident "g", ⟨2, 3⟩⟩, ⟨.mark .leftParen, ⟨3, 4⟩⟩,
    ⟨.ident "a", ⟨4, 5⟩⟩, ⟨.mark .question, ⟨6, 7⟩⟩, ⟨.ident "b", ⟨8, 9⟩⟩, ⟨.mark .colon, ⟨10, 11⟩⟩,
    ⟨.ident "c", ⟨12, 13⟩⟩, ⟨.mark .comma, ⟨13, 14⟩⟩, ⟨.ident "d", ⟨15, 16⟩⟩,
    ⟨.mark .question, ⟨17, 18⟩⟩, ⟨.int 1, ⟨19, 20⟩⟩, ⟨.int 2, ⟨21, 22⟩⟩, ⟨.mark .rightParen, ⟨22, 23⟩⟩]

theorem fails_at_misfit_crowded :
    let err : ParseError := ⟨⟨21, 22⟩, .missingColon "integer `2`"⟩
    ofTokens 1 ⟨crowdedTokens, 23⟩ = .error err ∧ err.fault.code.text = "E1001" ∧
      ∃ front rest, front ++ rest = crowdedTokens ∧ err.span = (found 23 rest).2 ∧
        (∃ more e, ofTokens 1 ⟨front ++ more, 23⟩ = .ok e) ∧
        ∀ t us, rest = t :: us → t.kind.isOpening = false →
          ∀ more, ofTokens 1 ⟨front ++ t :: more, 23⟩ = .error err := by
  intro err
  have h : ofTokens 1 ⟨crowdedTokens, 23⟩ = .error err := by cbv
  exact ⟨h, rfl, fails_at_misfit h (by simp [err, ParseError.IsMisfit, ParseFault.code, Code.text])⟩

end Expr

end Formula
