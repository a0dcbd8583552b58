import Formula.Proofs.Layout
import Formula.Proofs.Lookahead
import Formula.Proofs.RoundTrip

/-!
`x op= y` is `x = x op (y)`. The target stands in front of other tokens in either text than on its own,
and the value stands alone in one and in parentheses in the other.
-/

namespace Formula

namespace Operator

theorem isAssignment_of_compoundBase? {op base : Operator} (h : op.compoundBase? = some base) :
    op.isAssignment = true := by
  simp [isAssignment, h]

theorem compoundBase?_ne_less {op base : Operator} (h : op.compoundBase? = some base) :
    base ≠ .less := by
  rintro rfl
  cases op <;> cases h

end Operator

namespace Expr

theorem bare_assign_binary (s s' : Span) (op : Operator) (target value : Expr) :
    (assign s target (binary s' op target value)).bare =
      assign default target.bare (binary default op target.bare value.bare) := by
  rw [bare, relocate, relocate]
  rfl

/-- Token lists of the same kinds make up the same tree, apart from places. -/
theorem ofTokens_of_kinds {maxHops : Nat} {ts : TokenList} (ts' : TokenList) {e : Expr}
    (h : ofTokens maxHops ts = .ok e)
    (hkinds : ts'.tokens.map (·.kind) = ts.tokens.map (·.kind)) :
    ∃ e', ofTokens maxHops ts' = .ok e' ∧ e'.bare = e.bare := by
  have hsame : ts'.relocate .forget = ts.relocate .forget := by
    rw [TokenList.relocate, TokenList.relocate, Token.relocate_forget hkinds]
    rfl
  have houtcome := congrArg (ofTokens maxHops) hsame
  rw [ofTokens_relocate, ofTokens_relocate, h] at houtcome
  cases he : ofTokens maxHops ts' with
  | ok e' =>
      rw [he] at houtcome
      exact ⟨e', rfl, Except.ok.inj houtcome⟩
  | error err => simp [he] at houtcome

namespace Parse

section

variable {stop maxHops : Nat} {ts rest : List Token} {e : Expr}

/-! A place is no assignment, no choice and no operation. -/

theorem ternary_of_place (h : plain (assignment stop maxHops ts) = .ok (e, rest))
    (hplace : e.isPlace = true) : plain (ternary stop maxHops ts) = .ok (e, rest) := by
  rw [plain_assignment] at h
  obtain ⟨⟨target, r⟩, hternary, h⟩ := bind_eq_ok.mp h
  cases ho : front? Token.Kind.assignment? r with
  | none =>
      simp only [ho] at h
      rw [hternary, h]
  | some found =>
      obtain ⟨op, span, afterOp⟩ := found
      simp only [ho] at h
      split at h
      · obtain ⟨⟨value, r'⟩, -, h⟩ := bind_eq_ok.mp h
        obtain ⟨rfl, -⟩ := Prod.mk.inj (Except.ok.inj h)
        simp [Grammar.isPlace_ofAssignment] at hplace
      · cases h

theorem binary_of_place (h : plain (ternary stop maxHops ts) = .ok (e, rest))
    (hplace : e.isPlace = true) : plain (binary stop maxHops 1 ts) = .ok (e, rest) := by
  rw [plain_ternary] at h
  obtain ⟨⟨cond, r⟩, hbinary, h⟩ := bind_eq_ok.mp h
  cases hq : front? (Token.Kind.mark? .question) r with
  | none =>
      simp only [hq] at h
      rw [hbinary, h]
  | some found =>
      obtain ⟨_, _, afterQuestion⟩ := found
      simp only [hq] at h
      obtain ⟨⟨yes, r'⟩, -, h⟩ := bind_eq_ok.mp h
      cases hm : front? (Token.Kind.mark? .colon) r' with
      | none => simp [hm] at h
      | some found =>
          obtain ⟨_, _, afterColon⟩ := found
          simp only [hm] at h
          obtain ⟨⟨no, r''⟩, -, h⟩ := bind_eq_ok.mp h
          obtain ⟨rfl, -⟩ := Prod.mk.inj (Except.ok.inj h)
          cases hplace

theorem unary_of_place {least : Nat} (h : plain (binary stop maxHops least ts) = .ok (e, rest))
    (hplace : e.isPlace = true) : plain (unary stop maxHops ts) = .ok (e, rest) := by
  rw [plain_binary] at h
  obtain ⟨⟨left, r⟩, hunary, htail⟩ := bind_eq_ok.mp h
  obtain ⟨rfl, rfl⟩ := (Grammar.derives_of_binaryTail htail).2 hplace
  exact hunary

/-- What is a target on its own is an operand in front of an operator. -/
theorem unary_of_target {alone : Nat} (h : ofTokens maxHops ⟨ts, alone⟩ = .ok e)
    (hplace : e.isPlace = true) {t : Token} {op : Operator} (ht : t.kind = .op op) (hop : op ≠ .less)
    (us : List Token) : plain (unary stop maxHops (ts ++ t :: us)) = .ok (e, t :: us) := by
  have hternary := ternary_of_place (ofTokens_eq_ok_iff.mp h) hplace
  have hunary := unary_of_place (binary_of_place hternary hplace) hplace
  exact unary_append (endsUnary_op ht us) hunary fun _ => callOpening?_op ht hop us

theorem assignment_of_operator {alone : Nat} {us : List Token} {target value : Expr} {t : Token}
    {op : Operator} (htarget : ofTokens maxHops ⟨ts, alone⟩ = .ok target)
    (hplace : target.isPlace = true) (ht : t.kind = .op op) (hop : op.isAssignment = true)
    (hvalue : plain (assignment stop maxHops us) = .ok (value, [])) :
    plain (assignment stop maxHops (ts ++ t :: us)) = .ok (ofAssignment op target value, []) := by
  have hless : op ≠ .less := by rintro rfl; cases hop
  have hends := endsTernary_assignment ht hop us
  have hunary : plain (unary stop maxHops (ts ++ t :: us)) = .ok (target, t :: us) :=
    unary_of_target htarget hplace ht hless us
  exact assignment_of_target (ternary_of_binary (binary_of_unary 1 hunary hends.binary) hends.question)
    ht hop hplace hvalue

/-- In parentheses, any statement is an operand. -/
theorem unary_of_group {alone : Nat} {opening closing : Token} (hopening : opening.kind = .mark .leftParen)
    (hclosing : closing.kind = .mark .rightParen) (h : ofTokens maxHops ⟨ts, alone⟩ = .ok e) :
    plain (unary stop maxHops (opening :: (ts ++ [closing]))) = .ok (e, []) := by
  obtain ⟨used, rfl, hlocal⟩ := assignment_local stop (ofTokens_eq_ok_iff.mp h)
  have hinner := hlocal [closing] ((closes_mark hclosing (.inl rfl) []).standsIn [])
  rw [List.append_nil]
  exact Grammar.unary_of_primary (.inr (.inr hopening)) (primary_of_group hopening hclosing hinner)
    endsAssignment_nil.toEndsUnary

end

end Parse

section

variable {maxHops alone alone' : Nat} {target source : List Token} {place value : Expr}
  {op base : Operator}

theorem ofTokens_compound (htarget : ofTokens maxHops ⟨target, alone⟩ = .ok place)
    (hplace : place.isPlace = true) (hsource : ofTokens maxHops ⟨source, alone'⟩ = .ok value)
    (hop : op.compoundBase? = some base) {ts : TokenList}
    (hts : ts.tokens.map (·.kind) = target.map (·.kind) ++ .op op :: source.map (·.kind)) :
    ∃ e, ofTokens maxHops ts = .ok e ∧
      e.bare = .assign default place.bare (.binary default base place.bare value.bare) := by
  have hwritten : ofTokens maxHops ⟨target ++ .ofKind (.op op) :: source, alone'⟩ =
      .ok (ofAssignment op place value) :=
    ofTokens_eq_ok_iff.mpr (Parse.assignment_of_operator htarget hplace rfl
      (Operator.isAssignment_of_compoundBase? hop) (ofTokens_eq_ok_iff.mp hsource))
  obtain ⟨e, he, hbare⟩ := ofTokens_of_kinds ts hwritten (by simpa using hts)
  refine ⟨e, he, hbare.trans ?_⟩
  simp only [ofAssignment, hop, bare_assign_binary]

theorem ofTokens_expanded (htarget : ofTokens maxHops ⟨target, alone⟩ = .ok place)
    (hplace : place.isPlace = true) (hsource : ofTokens maxHops ⟨source, alone'⟩ = .ok value)
    (hop : op.compoundBase? = some base) {ts : TokenList}
    (hts : ts.tokens.map (·.kind) =
      target.map (·.kind) ++ .op .assign :: (target.map (·.kind) ++
        .op base :: .mark .leftParen :: (source.map (·.kind) ++ [.mark .rightParen]))) :
    ∃ e, ofTokens maxHops ts = .ok e ∧
      e.bare = .assign default place.bare (.binary default base place.bare value.bare) := by
  let group : List Token := .ofKind (.mark .leftParen) :: (source ++ [.ofKind (.mark .rightParen)])
  have hleft : Parse.plain (Parse.unary 0 maxHops (target ++ .ofKind (.op base) :: group)) =
      .ok (place, .ofKind (.op base) :: group) :=
    Parse.unary_of_target htarget hplace rfl (Operator.compoundBase?_ne_less hop) group
  have hright : Parse.plain (Parse.unary 0 maxHops group) = .ok (value, []) :=
    Parse.unary_of_group rfl rfl hsource
  have hbinary := Parse.binary_of_operation hleft rfl (Operator.isBinary_of_compoundBase? hop) hright rfl
  have hassign := Parse.assignment_of_operator (t := .ofKind (.op .assign)) htarget hplace rfl rfl
    (Parse.assignment_of_ternary (Parse.ternary_of_binary hbinary rfl) rfl)
  have hwritten : ofTokens maxHops ⟨_, 0⟩ = .ok _ := ofTokens_eq_ok_iff.mpr hassign
  obtain ⟨e, he, hbare⟩ := ofTokens_of_kinds ts hwritten (by simpa [group] using hts)
  exact ⟨e, he, hbare.trans (bare_assign_binary ..)⟩

end

end Expr

/-- Trees that are one but for their places compile alike. -/
theorem Program.sameApartFromPlaces_ofExpr (scope : Scope) {e e' : Expr} (h : e.bare = e'.bare) :
    SameApartFromPlaces ((ofExpr scope e).mapError (·.diagnostic))
      ((ofExpr scope e').mapError (·.diagnostic)) := by
  have houtcome := congrArg (ofExpr scope) h
  rw [Expr.bare, Expr.bare, ofExpr_relocate, ofExpr_relocate] at houtcome
  exact sameApartFromPlaces_of_outcome houtcome

namespace Expr

/-- A target, a compound operator and a statement are accepted, and so is the plain assignment that they
stand for, the statement being one operand. Both make up the same tree but for places, and compile to the
same program or fail with the same code. -/
theorem ofTokens_compound_expanded {maxHops alone alone' : Nat} {target source : List Token}
    {place value : Expr} {op base : Operator}
    (htarget : ofTokens maxHops ⟨target, alone⟩ = .ok place) (hplace : place.isPlace = true)
    (hsource : ofTokens maxHops ⟨source, alone'⟩ = .ok value) (hop : op.compoundBase? = some base)
    {ts ts' : TokenList}
    (hts : ts.tokens.map (·.kind) = target.map (·.kind) ++ .op op :: source.map (·.kind))
    (hts' : ts'.tokens.map (·.kind) =
      target.map (·.kind) ++ .op .assign :: (target.map (·.kind) ++
        .op base :: .mark .leftParen :: (source.map (·.kind) ++ [.mark .rightParen]))) :
    ∃ e e', ofTokens maxHops ts = .ok e ∧ ofTokens maxHops ts' = .ok e' ∧ e.bare = e'.bare ∧
      e.bare = .assign default place.bare (.binary default base place.bare value.bare) ∧
      ∀ scope, Program.SameApartFromPlaces ((Program.ofExpr scope e).mapError (·.diagnostic))
        ((Program.ofExpr scope e').mapError (·.diagnostic)) := by
  obtain ⟨e, he, hbare⟩ := ofTokens_compound htarget hplace hsource hop hts
  obtain ⟨e', he', hbare'⟩ := ofTokens_expanded htarget hplace hsource hop hts'
  have hsame : e.bare = e'.bare := hbare.trans hbare'.symm
  exact ⟨e, e', he, he', hsame, hbare, fun scope => Program.sameApartFromPlaces_ofExpr scope hsame⟩

/-- `s.Get(i).n`. -/
def chainTokens : List Token :=
  [.ident "s", .mark .dot, .ident "Get", .mark .leftParen, .ident "i", .mark .rightParen, .mark .dot,
    .ident "n"].map .ofKind

def chainTree : Expr :=
  .member default (.call default (.ident default "s") "Get" [] [.ident default "i"]) "n"

/-- `x = y`. -/
def innerTokens : List Token := [.ident "x", .op .assign, .ident "y"].map .ofKind

def innerTree : Expr := .assign default (.ident default "x") (.ident default "y")

/-- `s.Get(i).n -= x = y`. -/
def compoundTokens : List Token := chainTokens ++ .ofKind (.op .subAssign) :: innerTokens

/-- `s.Get(i).n = s.Get(i).n - (x = y)`. -/
def expandedTokens : List Token :=
  chainTokens ++ .ofKind (.op .assign) :: (chainTokens ++
    .ofKind (.op .sub) :: .ofKind (.mark .leftParen) :: (innerTokens ++ [.ofKind (.mark .rightParen)]))

theorem ofTokens_compound_expanded_chain :
    ofTokens 2 ⟨chainTokens, 0⟩ = .ok chainTree ∧ chainTree.isPlace = true ∧
      ofTokens 2 ⟨innerTokens, 0⟩ = .ok innerTree ∧ Operator.subAssign.compoundBase? = some .sub ∧
      ∃ e e', ofTokens 2 ⟨compoundTokens, 0⟩ = .ok e ∧ ofTokens 2 ⟨expandedTokens, 0⟩ = .ok e' ∧
        e.bare = e'.bare ∧
        e.bare = .assign default chainTree.bare (.binary default .sub chainTree.bare innerTree.bare) ∧
        ∀ scope, Program.SameApartFromPlaces ((Program.ofExpr scope e).mapError (·.diagnostic))
          ((Program.ofExpr scope e').mapError (·.diagnostic)) :=
  have hchain : ofTokens 2 ⟨chainTokens, 0⟩ = .ok chainTree := by cbv
  have hinner : ofTokens 2 ⟨innerTokens, 0⟩ = .ok innerTree := by cbv
  ⟨hchain, rfl, hinner, rfl, ofTokens_compound_expanded hchain rfl hinner rfl rfl rfl⟩

end Expr

end Formula
