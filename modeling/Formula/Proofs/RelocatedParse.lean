import Formula.Proofs.Productions
import Formula.Proofs.Relocation

/-!
Parsing and the resolution of names commute with relocations.
-/

namespace Formula

variable (m : Relocation)

namespace Expr

namespace Parse

theorem front?_relocate {α : Type} (f : Token.Kind → Option α) (ts : List Token) :
    front? f (ts.map (·.relocate m)) =
      (front? f ts).map fun (a, span, rest) => (a, m.apply span, rest.map (·.relocate m)) := by
  cases ts with
  | nil => rfl
  | cons t ts => simp [Token.relocate, Function.comp_def]

theorem typeNames_relocate (ts : List Token) :
    typeNames (ts.map (·.relocate m)) =
      (typeNames ts).map fun (args, rest) => (args.map (·.relocate m), rest.map (·.relocate m)) := by
  fun_induction typeNames ts with
  | case1 ts hn => rw [typeNames_eq]; simp [front?_relocate, hn]
  | case2 ts name span rest hn hc =>
      rw [typeNames_eq]
      simp [front?_relocate, hn, hc, TypeArg.relocate]
  | case3 ts name span rest hn _ _ more hc ih =>
      rw [typeNames_eq]
      simp [front?_relocate, hn, hc, ih, TypeArg.relocate, Function.comp_def]

theorem callOpening?_relocate (ts : List Token) :
    callOpening? (ts.map (·.relocate m)) = (callOpening? ts).map fun (args, opened, rest) =>
      (args.map (·.relocate m), m.apply opened, rest.map (·.relocate m)) := by
  rw [callOpening?, callOpening?, front?_relocate]
  cases front? (Token.Kind.mark? .leftParen) ts with
  | some found => rfl
  | none =>
      simp only [Option.map_none, front?_relocate, Option.bind_map, Option.map_bind,
        Function.comp_def, typeNames_relocate, Option.map_map]

theorem failAt_relocate (stop : Nat) (ts : List Token) {fault : String → ParseFault}
    (h : ∀ shown, (fault shown).relocate m = fault shown) :
    failAt (m.offset stop) (ts.map (·.relocate m)) fault = (failAt stop ts fault).relocate m := by
  cases ts with
  | nil => simp [failAt, found, ParseError.relocate, h, m.apply_point]
  | cons t ts => simp [failAt, found, ParseError.relocate, h, Token.relocate]

theorem failAt_unclosed_relocate (stop : Nat) (opened : Span) (ts : List Token) :
    failAt (m.offset stop) (ts.map (·.relocate m)) (.unclosedParen (m.apply opened)) =
      (failAt stop ts (.unclosedParen opened)).relocate m := by
  cases ts with
  | nil => simp [failAt, found, ParseError.relocate, ParseFault.relocate, m.apply_point]
  | cons t ts => simp [failAt, found, ParseError.relocate, ParseFault.relocate, Token.relocate]

theorem notAnOperand_relocate (stop : Nat) (ts : List Token) :
    notAnOperand (m.offset stop) (ts.map (·.relocate m)) = (notAnOperand stop ts).relocate m := by
  cases ts with
  | nil => exact failAt_relocate m stop [] fun _ => rfl
  | cons t ts =>
      obtain ⟨kind, span⟩ := t
      have hfail (fault : String → ParseFault) (h : ∀ shown, (fault shown).relocate m = fault shown) :=
        failAt_relocate m stop (⟨kind, span⟩ :: ts) h
      rcases kind with _ | _ | _ | _ | _ | _ | _ | mark
      case mark => cases mark <;> rfl
      all_goals exact hfail _ fun _ => rfl

theorem notAtEnd_relocate (stop : Nat) (ts : List Token) :
    notAtEnd (m.offset stop) (ts.map (·.relocate m)) = (notAtEnd stop ts).relocate m := by
  rw [notAtEnd, notAtEnd, front?_relocate]
  cases front? (Token.Kind.mark? .rightParen) ts with
  | none => exact failAt_relocate m stop ts fun _ => rfl
  | some found => rfl

/-- An outcome at other places. -/
abbrev moved {α β : Type} (f : α → β) :
    Except ParseError (α × List Token) → Except ParseError (β × List Token) :=
  m.outcome (Prod.map f (List.map (·.relocate m)))

abbrev movedArguments :
    Except ParseError ((List Expr × Span) × List Token) →
      Except ParseError ((List Expr × Span) × List Token) :=
  moved m (Prod.map (relocateAll m) m.apply)

open Relocation in
mutual

theorem assignment_relocate (stop maxHops : Nat) (ts : List Token) :
    plain (assignment (m.offset stop) maxHops (ts.map (·.relocate m))) =
      moved m (relocate m) (plain (assignment stop maxHops ts)) := by
  rw [plain_assignment, plain_assignment]
  refine outcome_bind (ternary_relocate stop maxHops ts) ?_
  rintro ⟨target, r⟩ ht
  simp only [Prod.map_apply, front?_relocate]
  cases ho : front? Token.Kind.assignment? r with
  | none => rfl
  | some found =>
      obtain ⟨op, span, afterOp⟩ := found
      have := left_of_plain ht
      have := length_front ho
      simp only [Option.map_some, isPlace_relocate]
      split
      · refine outcome_bind (assignment_relocate stop maxHops afterOp) fun _ _ => ?_
        simp [relocate_ofAssignment]
      · simp [ParseError.relocate, ParseFault.relocate]
termination_by (ts.length, 5)

theorem ternary_relocate (stop maxHops : Nat) (ts : List Token) :
    plain (ternary (m.offset stop) maxHops (ts.map (·.relocate m))) =
      moved m (relocate m) (plain (ternary stop maxHops ts)) := by
  rw [plain_ternary, plain_ternary]
  refine outcome_bind (binary_relocate stop maxHops 1 ts) ?_
  rintro ⟨cond, r⟩ hc
  simp only [Prod.map_apply, front?_relocate]
  cases hq : front? (Token.Kind.mark? .question) r with
  | none => rfl
  | some found =>
      obtain ⟨_, _, afterQuestion⟩ := found
      have := left_of_plain hc
      have := length_front hq
      refine outcome_bind (assignment_relocate stop maxHops afterQuestion) ?_
      rintro ⟨yes, r'⟩ hy
      have := left_of_plain hy
      simp only [Prod.map_apply, front?_relocate]
      cases hm : front? (Token.Kind.mark? .colon) r' with
      | none => exact congrArg Except.error (failAt_relocate m stop r' fun _ => rfl)
      | some found =>
          obtain ⟨_, _, afterColon⟩ := found
          have := length_front hm
          refine outcome_bind (assignment_relocate stop maxHops afterColon) fun _ _ => ?_
          simp [relocate, m.apply_merge]
termination_by (ts.length, 4)

theorem binary_relocate (stop maxHops least : Nat) (ts : List Token) :
    plain (binary (m.offset stop) maxHops least (ts.map (·.relocate m))) =
      moved m (relocate m) (plain (binary stop maxHops least ts)) := by
  rw [plain_binary, plain_binary]
  refine outcome_bind (unary_relocate stop maxHops ts) ?_
  rintro ⟨left, r⟩ hl
  have := left_of_plain hl
  exact binaryTail_relocate stop maxHops least left r
termination_by (ts.length, 3)

theorem binaryTail_relocate (stop maxHops least : Nat) (left : Expr) (ts : List Token) :
    plain (binaryTail (m.offset stop) maxHops least (left.relocate m) (ts.map (·.relocate m))) =
      moved m (relocate m) (plain (binaryTail stop maxHops least left ts)) := by
  rw [plain_binaryTail, plain_binaryTail, front?_relocate]
  cases ho : front? Token.Kind.binary? ts with
  | none => rfl
  | some found =>
      obtain ⟨⟨op, precedence⟩, span, afterOp⟩ := found
      have := length_front ho
      simp only [Option.map_some]
      split
      · rfl
      · refine outcome_bind (binary_relocate stop maxHops (precedence + 1) afterOp) ?_
        rintro ⟨right, r⟩ hr
        have := left_of_plain hr
        have htail := binaryTail_relocate stop maxHops least
          (.binary (left.span.merge right.span) op left right) r
        simpa [relocate, m.apply_merge] using htail
termination_by (ts.length, 0)

theorem unary_relocate (stop maxHops : Nat) (ts : List Token) :
    plain (unary (m.offset stop) maxHops (ts.map (·.relocate m))) =
      moved m (relocate m) (plain (unary stop maxHops ts)) := by
  rw [plain_unary, plain_unary, front?_relocate]
  cases ho : front? Token.Kind.unary? ts with
  | none => exact postfixed_relocate stop maxHops ts
  | some found =>
      obtain ⟨op, span, afterOp⟩ := found
      have := length_front ho
      refine outcome_bind (unary_relocate stop maxHops afterOp) fun _ _ => ?_
      simp [relocate_ofUnary]
termination_by (ts.length, 2)

theorem postfixed_relocate (stop maxHops : Nat) (ts : List Token) :
    plain (postfixed (m.offset stop) maxHops (ts.map (·.relocate m))) =
      moved m (relocate m) (plain (postfixed stop maxHops ts)) := by
  rw [plain_postfixed, plain_postfixed]
  refine outcome_bind (primary_relocate stop maxHops ts) ?_
  rintro ⟨receiver, r⟩ hr
  have := left_of_plain hr
  exact chain_relocate stop maxHops (.new maxHops) receiver r
termination_by (ts.length, 1)

theorem chain_relocate (stop maxHops : Nat) (hops : Guard) (receiver : Expr) (ts : List Token) :
    plain (chain (m.offset stop) maxHops hops (receiver.relocate m) (ts.map (·.relocate m))) =
      moved m (relocate m) (plain (chain stop maxHops hops receiver ts)) := by
  rw [plain_chain, plain_chain, front?_relocate]
  cases hd : front? (Token.Kind.mark? .dot) ts with
  | none => rfl
  | some found =>
      obtain ⟨_, dot, afterDot⟩ := found
      have := length_front hd
      simp only [Option.map_some, front?_relocate]
      cases hops.tick? with
      | none => simp [ParseError.relocate, ParseFault.relocate, m.apply_merge]
      | some hops' =>
          cases hn : front? Token.Kind.ident? afterDot with
          | none => exact congrArg Except.error (failAt_relocate m stop afterDot fun _ => rfl)
          | some found =>
              obtain ⟨name, nameSpan, afterName⟩ := found
              have := length_front hn
              simp only [Option.map_some, callOpening?_relocate]
              cases hc : callOpening? afterName with
              | none =>
                  have hrest := chain_relocate stop maxHops hops'
                    (.member (receiver.span.merge nameSpan) receiver name) afterName
                  simpa [relocate, m.apply_merge] using hrest
              | some found =>
                  obtain ⟨typeArgs, opened, afterParen⟩ := found
                  have := length_callOpening hc
                  refine outcome_bind (arguments_relocate stop maxHops opened afterParen) ?_
                  rintro ⟨⟨args, closed⟩, r⟩ ha
                  have := left_of_plain ha
                  have hrest := chain_relocate stop maxHops hops'
                    (.call (receiver.span.merge closed) receiver name typeArgs args) r
                  simpa [relocate, m.apply_merge] using hrest
termination_by (ts.length, 0)

theorem arguments_relocate (stop maxHops : Nat) (opened : Span) (ts : List Token) :
    plain (arguments (m.offset stop) maxHops (m.apply opened) (ts.map (·.relocate m))) =
      movedArguments m (plain (arguments stop maxHops opened ts)) := by
  rw [plain_arguments, plain_arguments, front?_relocate]
  cases front? (Token.Kind.mark? .rightParen) ts with
  | none => exact someArguments_relocate stop maxHops opened ts
  | some found => rfl
termination_by (ts.length, 7)

theorem someArguments_relocate (stop maxHops : Nat) (opened : Span) (ts : List Token) :
    plain (someArguments (m.offset stop) maxHops (m.apply opened) (ts.map (·.relocate m))) =
      movedArguments m (plain (someArguments stop maxHops opened ts)) := by
  rw [plain_someArguments, plain_someArguments]
  refine outcome_bind (assignment_relocate stop maxHops ts) ?_
  rintro ⟨arg, r⟩ ha
  have := left_of_plain ha
  simp only [Prod.map_apply, front?_relocate]
  cases hc : front? (Token.Kind.mark? .comma) r with
  | some found =>
      obtain ⟨_, _, afterComma⟩ := found
      have := length_front hc
      exact outcome_bind (someArguments_relocate stop maxHops opened afterComma) fun _ _ => rfl
  | none =>
      cases front? (Token.Kind.mark? .rightParen) r with
      | some found => rfl
      | none => simp [failAt_unclosed_relocate]
termination_by (ts.length, 6)

theorem primary_relocate (stop maxHops : Nat) (ts : List Token) :
    plain (primary (m.offset stop) maxHops (ts.map (·.relocate m))) =
      moved m (relocate m) (plain (primary stop maxHops ts)) := by
  rw [plain_primary, plain_primary]
  simp only [front?_relocate]
  cases front? Token.Kind.literal? ts with
  | some found => rfl
  | none =>
      cases front? Token.Kind.ident? ts with
      | some found => rfl
      | none =>
          cases ho : front? (Token.Kind.mark? .leftParen) ts with
          | none => simp [notAnOperand_relocate]
          | some found =>
              obtain ⟨_, opened, afterParen⟩ := found
              have := length_front ho
              refine outcome_bind (assignment_relocate stop maxHops afterParen) ?_
              rintro ⟨inner, r⟩ -
              simp only [Prod.map_apply, front?_relocate]
              cases front? (Token.Kind.mark? .rightParen) r with
              | none => simp [failAt_unclosed_relocate]
              | some found => rfl
termination_by (ts.length, 0)

end

end Parse

theorem ofTokens_relocate (maxHops : Nat) (ts : TokenList) :
    ofTokens maxHops (ts.relocate m) = m.outcome (relocate m) (ofTokens maxHops ts) := by
  rw [ofTokens_eq, ofTokens_eq]
  refine Relocation.outcome_bind (Parse.assignment_relocate m ts.stop maxHops ts.tokens) ?_
  rintro ⟨e, rest⟩ -
  cases rest with
  | nil => rfl
  | cons t rest => exact congrArg Except.error (Parse.notAtEnd_relocate m ts.stop (t :: rest))

end Expr

namespace Scope

variable (scope : Scope)

theorem variableOr_relocate {α β : Type} {f : α → β} (span : Span) (name : String) {a : α} {b : β}
    (h : b = f a) :
    scope.variableOr (m.apply span) name b = m.outcome f (scope.variableOr span name a) := by
  rw [variableOr, variableOr]
  split
  · rw [h, Relocation.outcome_ok]
  · rfl

theorem typeNamed_relocate (span : Span) (name : String) {fault : String → ParseFault}
    (h : (fault name).relocate m = fault name) :
    scope.typeNamed (m.apply span) name fault = m.outcome id (scope.typeNamed span name fault) := by
  rw [typeNamed, typeNamed]
  cases scope.type? name with
  | some tag => rfl
  | none => simp [ParseError.relocate, h]

theorem static?_relocate (e : Expr) :
    scope.static? (e.relocate m) =
      (scope.static? e).map fun (span, tag) => (m.apply span, m.outcome id tag) := by
  cases e with
  | ident span name =>
      simp only [Expr.relocate, static?]
      split
      · rfl
      · rw [typeNamed_relocate m scope span name rfl]
        rfl
  | literal | binary | assign | ternary | member | call => rfl

theorem typeArgs_relocate (args : List TypeArg) :
    scope.typeArgs (args.map (·.relocate m)) = m.outcome id (scope.typeArgs args) := by
  induction args with
  | nil => rfl
  | cons a as ih =>
      rw [List.map_cons, typeArgs, typeArgs]
      refine Relocation.outcome_bind (typeNamed_relocate m scope a.span a.name rfl) fun _ _ => ?_
      exact Relocation.outcome_bind ih fun _ _ => rfl

end Scope

section

variable (scope : Scope)

open Relocation in
mutual

theorem Program.ofExpr_relocate (e : Expr) :
    Program.ofExpr scope (e.relocate m) = m.outcome (Program.relocate m) (Program.ofExpr scope e) := by
  cases e with
  | literal span value =>
      rw [Expr.relocate, Program.ofExpr, Program.ofExpr]
      rfl
  | ident span name =>
      rw [Expr.relocate, Program.ofExpr, Program.ofExpr]
      exact scope.variableOr_relocate m span name rfl
  | binary span op left right =>
      rw [Expr.relocate, Program.ofExpr, Program.ofExpr]
      refine outcome_bind (Program.ofExpr_relocate left) fun _ _ => ?_
      refine outcome_bind (Program.ofExpr_relocate right) fun _ _ => ?_
      simp [Program.relocate, Instr.relocate]
  | assign span target value =>
      rw [Expr.relocate, Program.ofExpr, Program.ofExpr]
      refine outcome_bind (Place.ofTarget_relocate target) fun _ _ => ?_
      exact outcome_bind (Program.ofExpr_relocate value) fun _ _ => rfl
  | ternary span cond yes no =>
      rw [Expr.relocate, Program.ofExpr, Program.ofExpr]
      refine outcome_bind (Program.ofExpr_relocate cond) fun _ _ => ?_
      refine outcome_bind (Program.ofExpr_relocate yes) fun _ _ => ?_
      exact outcome_bind (Program.ofExpr_relocate no) fun _ _ => rfl
  | member span receiver name =>
      rw [Expr.relocate, Program.ofExpr, Program.ofExpr]
      refine outcome_bind (Program.ofReceiver_relocate receiver) fun _ _ => ?_
      simp [Program.relocate, Instr.relocate]
  | call span receiver method typeArgs args =>
      rw [Expr.relocate, Program.ofExpr, Program.ofExpr]
      refine outcome_bind (Program.ofReceiver_relocate receiver) fun _ _ => ?_
      refine outcome_bind (scope.typeArgs_relocate m typeArgs) fun _ _ => ?_
      refine outcome_bind (Program.ofArguments_relocate args) fun _ _ => ?_
      simp [Program.relocate, Instr.relocate]
termination_by (sizeOf e, 0)

theorem Program.ofReceiver_relocate (e : Expr) :
    Program.ofReceiver scope (e.relocate m) =
      m.outcome (Program.relocate m) (Program.ofReceiver scope e) := by
  rw [Program.ofReceiver, Program.ofReceiver, Scope.static?_relocate]
  cases scope.static? e with
  | none => exact Program.ofExpr_relocate e
  | some found => exact outcome_bind rfl fun _ _ => rfl
termination_by (sizeOf e, 1)

theorem Program.ofArguments_relocate (es : List Expr) :
    Program.ofArguments scope (Expr.relocateAll m es) =
      m.outcome (Program.relocateAll m) (Program.ofArguments scope es) := by
  cases es with
  | nil =>
      rw [Expr.relocateAll, Program.ofArguments]
      rfl
  | cons e es =>
      rw [Expr.relocateAll, Program.ofArguments, Program.ofArguments]
      refine outcome_bind (Program.ofExpr_relocate e) fun _ _ => ?_
      exact outcome_bind (Program.ofArguments_relocate es) fun _ _ => rfl
termination_by (sizeOf es, 0)

theorem Place.ofTarget_relocate (e : Expr) :
    Place.ofTarget scope (e.relocate m) = m.outcome (Place.relocate m) (Place.ofTarget scope e) := by
  cases e with
  | ident span name =>
      rw [Expr.relocate, Place.ofTarget, Place.ofTarget]
      exact scope.variableOr_relocate m span name rfl
  | member span receiver name =>
      rw [Expr.relocate, Place.ofTarget, Place.ofTarget]
      exact outcome_bind (Place.ofOwner_relocate receiver) fun _ _ => rfl
  | literal | binary | assign | ternary | call =>
      simp [Expr.relocate, Place.ofTarget, ParseError.relocate, ParseFault.relocate, Expr.span]
termination_by (sizeOf e, 0)

theorem Place.ofOwner_relocate (e : Expr) :
    Place.ofOwner scope (e.relocate m) = m.outcome (Place.relocate m) (Place.ofOwner scope e) := by
  rw [Place.ofOwner, Place.ofOwner, Scope.static?_relocate, Expr.isPlace_relocate]
  cases scope.static? e with
  | some found => exact outcome_bind rfl fun _ _ => rfl
  | none =>
      simp only [Option.map_none]
      split
      · exact Place.ofTarget_relocate e
      · exact outcome_bind (Program.ofExpr_relocate e) fun _ _ => rfl
termination_by (sizeOf e, 1)

end

end

end Formula
