import Formula.Compiled
import Formula.Proofs.Acceptance
import Formula.Proofs.Isolation
import Formula.Proofs.Rendering

/-!
The text of a tree is read back as the tree.
-/

namespace Formula

/-- A token of the kind, nowhere in particular. -/
def Token.ofKind (k : Token.Kind) : Token := ⟨k, default⟩

@[simp]
theorem Token.kind_ofKind (k : Token.Kind) : (ofKind k).kind = k := rfl

@[simp]
theorem Token.span_ofKind (k : Token.Kind) : (ofKind k).span = default := rfl

namespace Expr

/-- The tree without its places. -/
def bare (e : Expr) : Expr := e.relocate .forget

@[simp]
theorem span_bare (e : Expr) : e.bare.span = default := by
  rw [bare, span_relocate]
  rfl

theorem bare_binary (s : Span) (op : Operator) (left right : Expr) :
    (binary s op left right).bare = binary (left.bare.span.merge right.bare.span) op left.bare right.bare := by
  rw [span_bare, span_bare, bare, relocate]
  rfl

theorem bare_assign (s : Span) (target value : Expr) :
    (assign s target value).bare =
      assign (target.bare.span.merge value.bare.span) target.bare value.bare := by
  rw [span_bare, span_bare, bare, relocate]
  rfl

theorem bare_ternary (s : Span) (cond yes no : Expr) :
    (ternary s cond yes no).bare =
      ternary (cond.bare.span.merge no.bare.span) cond.bare yes.bare no.bare := by
  rw [span_bare, span_bare, bare, relocate]
  rfl

theorem bare_member (s : Span) (receiver : Expr) (name : String) :
    (member s receiver name).bare = member (receiver.bare.span.merge default) receiver.bare name := by
  rw [span_bare, bare, relocate]
  rfl

theorem bare_call (s : Span) (receiver : Expr) (method : String) (typeArgs : List TypeArg)
    (args : List Expr) :
    (call s receiver method typeArgs args).bare =
      call (receiver.bare.span.merge default) receiver.bare method
        (typeArgs.map (·.relocate .forget)) (args.map bare) := by
  rw [span_bare, bare, relocate, relocateAll_eq_map]
  rfl

@[simp]
theorem isPlace_bare (e : Expr) : e.bare.isPlace = e.isPlace := isPlace_relocate _ e

/-- A tree begins with an operand. After a name, only a chain goes on. -/
theorem IsRenderable.kinds_eq_cons {maxHops : Nat} {e : Expr} (he : e.IsRenderable maxHops) :
    ∃ k ks, e.kinds = k :: ks ∧ k.unary? = none ∧ k.mark? .rightParen = none ∧
      (k.ident? = none ∨ ks = [] ∨ ∃ more, ks = .mark .dot :: more) := by
  induction he with
  | @literal span v hv =>
      refine ⟨v.kind, [], rfl, ?_⟩
      cases v <;> exact ⟨rfl, rfl, .inl rfl⟩
  | ident => exact ⟨_, [], rfl, rfl, rfl, .inr (.inl rfl)⟩
  | binary | assign | ternary => exact ⟨.mark .leftParen, _, rfl, rfl, rfl, .inl rfl⟩
  | member _ _ _ ih | call _ _ _ _ _ ih =>
      obtain ⟨k, ks, hks, hunary, hmark, hident⟩ := ih
      refine ⟨k, _, by simp only [kinds, hks, List.cons_append]; rfl, hunary, hmark, ?_⟩
      rcases hident with h | rfl | ⟨more, rfl⟩
      · exact .inl h
      · exact .inr (.inr ⟨_, rfl⟩)
      · exact .inr (.inr ⟨_, rfl⟩)

namespace Parse

open Token Literal

variable {stop maxHops : Nat} {rest : List Token}

/-- The tokens end an operand: they neither go on with a chain nor open a call. -/
structure EndsChain (ts : List Token) : Prop where
  dot : front? (Token.Kind.mark? .dot) ts = none
  call : callOpening? ts = none

theorem endsChain_mark {m : Mark} (hm : m ≠ .dot ∧ m ≠ .leftParen) (rest : List Token) :
    EndsChain (.ofKind (.mark m) :: rest) := by
  constructor
  · simp [ofKind, Kind.mark?, hm.1]
  · simp [callOpening?, ofKind, Kind.mark?, Kind.op?, hm.2]

theorem endsChain_op {op : Operator} (hop : op ≠ .less) (rest : List Token) :
    EndsChain (.ofKind (.op op) :: rest) := by
  constructor
  · simp [Kind.mark?]
  · simp [callOpening?, Kind.mark?, Kind.op?, hop]

theorem callOpening?_ofKind_less (ts : List Token) :
    callOpening? (.ofKind (.op .less) :: ts) =
      (typeNames ts).bind fun (args, afterNames) =>
        (front? (Kind.op? .greater) afterNames).bind fun (_, _, afterGreater) =>
          (front? (Kind.mark? .leftParen) afterGreater).map fun (_, opened, rest) =>
            (args, opened, rest) := rfl

/-- A tree after `<` is no list of type arguments. -/
theorem callOpening?_less {e : Expr} (he : e.IsRenderable maxHops) (rest : List Token) :
    callOpening? (.ofKind (.op .less) :: (e.kinds.map .ofKind ++ .ofKind (.mark .rightParen) :: rest)) =
      none := by
  obtain ⟨k, ks, hks, -, -, hident⟩ := he.kinds_eq_cons
  rw [callOpening?_ofKind_less, hks, typeNames_eq]
  cases hk : k.ident? with
  | none => simp [ofKind, hk]
  | some name =>
      rcases hident with h | rfl | ⟨more, rfl⟩
      · simp [hk] at h
      · simp [ofKind, hk, Kind.mark?, Kind.op?]
      · simp [ofKind, hk, Kind.mark?, Kind.op?]

theorem typeNames_kinds {args : List TypeArg} (hargs : args ≠ []) (rest : List Token) :
    typeNames (([Kind.mark .comma].intercalate (args.map fun a => [.ident a.name])).map .ofKind ++
        .ofKind (.op .greater) :: rest) =
      some (args.map (·.relocate .forget), .ofKind (.op .greater) :: rest) := by
  induction args with
  | nil => exact absurd rfl hargs
  | cons a as ih =>
      cases as with
      | nil =>
          rw [typeNames_eq]
          simp [ofKind, Kind.ident?, Kind.mark?, TypeArg.relocate, Relocation.forget]
      | cons b bs =>
          have hmore := ih (List.cons_ne_nil b bs)
          have hcut : ([Kind.mark .comma].intercalate ((a :: b :: bs).map fun a =>
              [Kind.ident a.name])).map ofKind ++ ofKind (.op .greater) :: rest =
              .ofKind (.ident a.name) :: .ofKind (.mark .comma) :: (([Kind.mark .comma].intercalate
                ((b :: bs).map fun a => [.ident a.name])).map .ofKind ++
                  .ofKind (.op .greater) :: rest) := by
            simp
          rw [hcut, typeNames_eq]
          simp only [front?_cons, kind_ofKind, span_ofKind, Kind.ident?, Kind.mark?, Option.map_some,
            if_true, hmore]
          rfl

theorem callOpening?_kinds (args : List TypeArg) (rest : List Token) :
    callOpening? ((typeArgsKinds args).map .ofKind ++ .ofKind (.mark .leftParen) :: rest) =
      some (args.map (·.relocate .forget), default, rest) := by
  cases args with
  | nil => rfl
  | cons a as =>
      have hnames := typeNames_kinds (List.cons_ne_nil a as) (.ofKind (.mark .leftParen) :: rest)
      have hkinds : (typeArgsKinds (a :: as)).map ofKind ++ ofKind (.mark .leftParen) :: rest =
          .ofKind (.op .less) :: (([Kind.mark .comma].intercalate
            ((a :: as).map fun a => [.ident a.name])).map .ofKind ++
              .ofKind (.op .greater) :: .ofKind (.mark .leftParen) :: rest) := by
        simp [typeArgsKinds]
      rw [hkinds, callOpening?_ofKind_less, hnames]
      rfl

/-- What the parser makes of the tokens of a tree: the tree, and then the chain that goes on. -/
def ReadsBack (stop maxHops : Nat) (e : Expr) : Prop :=
  ∀ rest, callOpening? rest = none →
    plain (postfixed stop maxHops (e.kinds.map .ofKind ++ rest)) =
      plain (chain stop maxHops ⟨maxHops, e.hops⟩ e.bare rest)

section

variable {e : Expr} (he : e.IsRenderable maxHops) (h : ReadsBack stop maxHops e)

include he h

theorem ReadsBack.unary (hrest : EndsChain rest) :
    plain (unary stop maxHops (e.kinds.map .ofKind ++ rest)) = .ok (e.bare, rest) := by
  obtain ⟨k, ks, hks, hsign, -⟩ := he.kinds_eq_cons
  rw [plain_unary_of_not_sign, h rest hrest.call, plain_chain_of_not_dot _ _ hrest.dot]
  simp [hks, hsign]

theorem ReadsBack.assignment (hrest : EndsChain rest) (hends : EndsAssignment rest) :
    plain (assignment stop maxHops (e.kinds.map .ofKind ++ rest)) = .ok (e.bare, rest) :=
  assignment_of_unary (h.unary he hrest) hends

end

theorem ReadsBack.of_primary {e : Expr} (hhops : e.hops = 0)
    (h : ∀ rest, plain (primary stop maxHops (e.kinds.map .ofKind ++ rest)) = .ok (e.bare, rest)) :
    ReadsBack stop maxHops e := by
  intro rest _
  rw [plain_postfixed, h, hhops]
  rfl

/-- A group is read back if what stands in it is. -/
theorem ReadsBack.of_group {e : Expr} (ks : List Kind)
    (hkinds : e.kinds = .mark .leftParen :: ks ++ [.mark .rightParen]) (hhops : e.hops = 0)
    (h : ∀ rest, plain (Parse.assignment stop maxHops
        (ks.map .ofKind ++ .ofKind (.mark .rightParen) :: rest)) =
      .ok (e.bare, .ofKind (.mark .rightParen) :: rest)) : ReadsBack stop maxHops e := by
  refine .of_primary hhops fun rest => ?_
  have htokens : e.kinds.map ofKind ++ rest =
      .ofKind (.mark .leftParen) :: (ks.map .ofKind ++ .ofKind (.mark .rightParen) :: rest) := by
    simp [hkinds]
  rw [htokens]
  exact primary_of_group rfl rfl (h rest)

section

variable {span : Span}

theorem ReadsBack.binary {op : Operator} {left right : Expr} (hop : op.isBinary = true)
    (hl : left.IsRenderable maxHops) (hr : right.IsRenderable maxHops)
    (ihl : ReadsBack stop maxHops left) (ihr : ReadsBack stop maxHops right) :
    ReadsBack stop maxHops (.binary span op left right) := by
  refine .of_group (left.kinds ++ .op op :: right.kinds) (by simp [kinds]) rfl fun rest => ?_
  rw [List.map_append, List.map_cons, List.append_assoc, List.cons_append]
  have hends := endsAssignment_mark (t := ofKind (.mark .rightParen)) rfl (.inl rfl) rest
  have hclose : EndsChain (ofKind (.mark .rightParen) :: rest) := endsChain_mark (by decide) rest
  have hopEnds : EndsChain (.ofKind (.op op) ::
      (right.kinds.map .ofKind ++ .ofKind (.mark .rightParen) :: rest)) := by
    by_cases hless : op = .less
    · subst hless
      exact ⟨rfl, callOpening?_less hr rest⟩
    · exact endsChain_op hless _
  have hbinary := binary_of_operation (ihl.unary hl hopEnds) rfl hop (ihr.unary hr hclose) hends.binary
  rw [bare_binary]
  exact assignment_of_ternary (ternary_of_binary hbinary hends.question) hends.assignment

theorem ReadsBack.assign {target value : Expr} (hplace : target.isPlace = true)
    (ht : target.IsRenderable maxHops) (hv : value.IsRenderable maxHops)
    (iht : ReadsBack stop maxHops target) (ihv : ReadsBack stop maxHops value) :
    ReadsBack stop maxHops (.assign span target value) := by
  refine .of_group (target.kinds ++ .op .assign :: value.kinds) (by simp [kinds]) rfl fun rest => ?_
  rw [List.map_append, List.map_cons, List.append_assoc, List.cons_append]
  have hends := endsAssignment_mark (t := ofKind (.mark .rightParen)) rfl (.inl rfl) rest
  have hclose : EndsChain (ofKind (.mark .rightParen) :: rest) := endsChain_mark (by decide) rest
  have hop : Operator.assign.isAssignment = true := rfl
  let more : List Token := value.kinds.map .ofKind ++ .ofKind (.mark .rightParen) :: rest
  have hassign := endsTernary_assignment (t := ofKind (.op .assign)) rfl hop more
  have hne : Operator.assign ≠ .less := by decide
  have hunary := iht.unary ht (endsChain_op hne more)
  have htarget := ternary_of_binary (binary_of_unary 1 hunary hassign.binary) hassign.question
  have hvalue : plain (Parse.assignment stop maxHops more) =
      .ok (value.bare, .ofKind (.mark .rightParen) :: rest) := ihv.assignment hv hclose hends
  rw [assignment_of_target htarget rfl hop ((isPlace_bare target).trans hplace) hvalue, bare_assign]
  rfl

theorem ReadsBack.ternary {cond yes no : Expr} (hc : cond.IsRenderable maxHops)
    (hy : yes.IsRenderable maxHops) (hn : no.IsRenderable maxHops)
    (ihc : ReadsBack stop maxHops cond) (ihy : ReadsBack stop maxHops yes)
    (ihn : ReadsBack stop maxHops no) : ReadsBack stop maxHops (.ternary span cond yes no) := by
  refine .of_group (cond.kinds ++ .mark .question :: (yes.kinds ++ .mark .colon :: no.kinds))
    (by simp [kinds]) rfl fun rest => ?_
  rw [List.map_append, List.map_cons, List.map_append, List.map_cons, List.append_assoc,
    List.cons_append, List.append_assoc, List.cons_append]
  have hends := endsAssignment_mark (t := ofKind (.mark .rightParen)) rfl (.inl rfl) rest
  have hclose : EndsChain (ofKind (.mark .rightParen) :: rest) := endsChain_mark (by decide) rest
  let afterColon : List Token := no.kinds.map .ofKind ++ .ofKind (.mark .rightParen) :: rest
  let afterQuestion : List Token := yes.kinds.map .ofKind ++ .ofKind (.mark .colon) :: afterColon
  have hquestion : EndsChain (ofKind (.mark .question) :: afterQuestion) :=
    endsChain_mark (by decide) afterQuestion
  have hcolon : EndsChain (ofKind (.mark .colon) :: afterColon) := endsChain_mark (by decide) afterColon
  have hcond := binary_of_unary 1 (ihc.unary hc hquestion)
    (endsBinary_question (t := ofKind (.mark .question)) rfl afterQuestion).binary
  have hyes := ihy.assignment hy hcolon (endsAssignment_mark rfl (.inr (.inr rfl)) afterColon)
  have hno := ihn.assignment hn hclose hends
  refine assignment_of_ternary ?_ hends.assignment
  rw [ternary_of_choice hcond rfl hyes rfl hno, bare_ternary]

theorem someArguments_kinds {args : List Expr} (hargs : args ≠ [])
    (h : ∀ a ∈ args, a.IsRenderable maxHops) (ih : ∀ a ∈ args, ReadsBack stop maxHops a)
    (opened : Span) (rest : List Token) :
    plain (someArguments stop maxHops opened
        (([Kind.mark .comma].intercalate (args.map (·.kinds))).map .ofKind ++
          .ofKind (.mark .rightParen) :: rest)) =
      .ok ((args.map bare, default), rest) := by
  induction args with
  | nil => exact absurd rfl hargs
  | cons a as iha =>
      obtain ⟨ha, has⟩ := List.forall_mem_cons.mp h
      obtain ⟨iha', ihas⟩ := List.forall_mem_cons.mp ih
      cases as with
      | nil =>
          have harg := iha'.assignment ha (endsChain_mark (m := .rightParen) (by decide) rest)
            (endsAssignment_mark rfl (.inl rfl) rest)
          rw [List.map_singleton, List.intercalate_singleton]
          exact someArguments_of_last rfl harg
      | cons b bs =>
          let more : List Token := ([Kind.mark .comma].intercalate ((b :: bs).map (·.kinds))).map .ofKind ++
            .ofKind (.mark .rightParen) :: rest
          have hmore : plain (someArguments stop maxHops opened more) =
              .ok (((b :: bs).map bare, default), rest) := iha (List.cons_ne_nil b bs) has ihas
          have harg := iha'.assignment ha (endsChain_mark (m := .comma) (by decide) more)
            (endsAssignment_mark rfl (.inr (.inl rfl)) more)
          have htokens : ([Kind.mark .comma].intercalate ((a :: b :: bs).map (·.kinds))).map ofKind ++
              ofKind (.mark .rightParen) :: rest =
              a.kinds.map .ofKind ++ .ofKind (.mark .comma) :: more := by
            simp [more]
          rw [htokens]
          exact someArguments_of_comma rfl harg hmore

theorem arguments_kinds {args : List Expr} (h : ∀ a ∈ args, a.IsRenderable maxHops)
    (ih : ∀ a ∈ args, ReadsBack stop maxHops a) (opened : Span) (rest : List Token) :
    plain (arguments stop maxHops opened
        (([Kind.mark .comma].intercalate (args.map (·.kinds))).map .ofKind ++
          .ofKind (.mark .rightParen) :: rest)) =
      .ok ((args.map bare, default), rest) := by
  cases args with
  | nil =>
      rw [plain_arguments]
      simp [Kind.mark?]
  | cons a as =>
      have hsome := someArguments_kinds (List.cons_ne_nil a as) h ih opened rest
      obtain ⟨k, ks, hks, -, hmark, -⟩ := (h a (List.mem_cons_self ..)).kinds_eq_cons
      obtain ⟨more, hmore⟩ : ∃ more, [Kind.mark .comma].intercalate ((a :: as).map (·.kinds)) = k :: more := by
        cases as with
        | nil => exact ⟨ks, by simp [hks]⟩
        | cons b bs =>
            exact ⟨ks ++ .mark .comma :: [Kind.mark .comma].intercalate ((b :: bs).map (·.kinds)),
              by simp [hks]⟩
      rw [hmore, List.map_cons, List.cons_append] at hsome ⊢
      rw [plain_arguments]
      simp only [front?_cons, kind_ofKind, hmark, Option.map_none, hsome]

theorem ReadsBack.member {receiver : Expr} {name : String} (hhops : receiver.hops < maxHops)
    (ih : ReadsBack stop maxHops receiver) : ReadsBack stop maxHops (.member span receiver name) := by
  intro rest hrest
  rw [kinds, List.map_append, List.append_assoc, List.map_cons, List.map_cons, List.cons_append,
    List.cons_append, ih _ rfl, bare_member]
  exact plain_chain_member rfl rfl hhops receiver.bare hrest

theorem ReadsBack.call {receiver : Expr} {method : String} {typeArgs : List TypeArg}
    {args : List Expr} (hhops : receiver.hops < maxHops) (hargs : ∀ a ∈ args, a.IsRenderable maxHops)
    (ih : ReadsBack stop maxHops receiver) (ihargs : ∀ a ∈ args, ReadsBack stop maxHops a) :
    ReadsBack stop maxHops (.call span receiver method typeArgs args) := by
  intro rest hrest
  let afterParen : List Token :=
    ([Kind.mark .comma].intercalate (args.map (·.kinds))).map .ofKind ++ .ofKind (.mark .rightParen) :: rest
  let afterName : List Token := (typeArgsKinds typeArgs).map .ofKind ++ .ofKind (.mark .leftParen) :: afterParen
  have htokens : (Expr.call span receiver method typeArgs args).kinds.map ofKind ++ rest =
      receiver.kinds.map .ofKind ++ .ofKind (.mark .dot) :: .ofKind (.ident method) :: afterName := by
    simp [kinds, allKinds_eq_map, afterName, afterParen]
  rw [htokens, ih _ rfl, bare_call]
  exact plain_chain_call rfl rfl hhops receiver.bare (callOpening?_kinds typeArgs afterParen)
    (arguments_kinds hargs ihargs default rest)

end

/-- The parser makes the tree of its tokens, in front of whatever does not open a call. -/
theorem readsBack_of_isRenderable {e : Expr} (he : e.IsRenderable maxHops) : ReadsBack stop maxHops e := by
  induction he with
  | @literal span v hv =>
      exact .of_primary rfl fun rest => primary_of_literal (t := ofKind v.kind) (literal?_kind v) rest
  | @ident span name hname =>
      exact .of_primary rfl fun rest => primary_of_ident (t := ofKind (.ident name)) rfl rest
  | binary hop hl hr ihl ihr => exact .binary hop hl hr ihl ihr
  | assign hplace ht hv iht ihv => exact .assign hplace ht hv iht ihv
  | ternary hc hy hn ihc ihy ihn => exact .ternary hc hy hn ihc ihy ihn
  | member hhops _ _ ih => exact .member hhops ih
  | call hhops _ _ _ hargs ih ihargs => exact .call hhops hargs ih ihargs

end Parse

theorem IsRenderable.exists_ofSource {maxHops : Nat} {e : Expr} (he : e.IsRenderable maxHops) :
    ∃ e', ofSource maxHops e.text ⟨0, Text.bytes e.text.toList⟩ = .ok e' ∧ e'.bare = e.bare := by
  obtain ⟨ts, hts, hkinds⟩ := he.scans endsWord_nil .nil 0
  rw [List.append_nil] at hts hkinds
  have hscan : TokenList.scan e.text ⟨0, Text.bytes e.text.toList⟩ =
      .ok ⟨ts, Text.bytes e.text.toList⟩ := by
    have h := @TokenList.scan_behind e.text [] e.text.toList (by simp)
    simp only [Span.behind, Text.bytes_nil, Nat.zero_add, hts] at h
    exact h
  have hparse : ofTokens maxHops ⟨e.kinds.map .ofKind, 0⟩ = .ok e.bare := by
    have hread : Parse.ReadsBack 0 maxHops e := Parse.readsBack_of_isRenderable he
    have h := hread.assignment he ⟨rfl, rfl⟩ Parse.endsAssignment_nil
    rw [List.append_nil] at h
    exact ofTokens_eq_ok_iff.mpr h
  have hbare : (TokenList.mk ts (Text.bytes e.text.toList)).relocate .forget =
      ⟨e.kinds.map .ofKind, 0⟩ := by
    rw [TokenList.relocate, ← hkinds, List.map_map]
    rfl
  have hmoved := ofTokens_relocate .forget maxHops ⟨ts, Text.bytes e.text.toList⟩
  rw [hbare, hparse] at hmoved
  cases hof : ofTokens maxHops ⟨ts, Text.bytes e.text.toList⟩ with
  | error err =>
      rw [hof] at hmoved
      cases hmoved
  | ok e' =>
      rw [hof] at hmoved
      refine ⟨e', ?_, (Except.ok.inj hmoved).symm⟩
      rw [ofSource, hscan]
      simp only [hof]

/-- The text of a tree is scanned and parsed to the tree, and so no other tree has the same text. -/
theorem ofSource_text {maxHops : Nat} {e : Expr} (he : e.IsRenderable maxHops) :
    (∃ e', ofSource maxHops e.text ⟨0, Text.bytes e.text.toList⟩ = .ok e' ∧ e'.bare = e.bare) ∧
      ∀ f : Expr, f.IsRenderable maxHops → f.text = e.text → f.bare = e.bare := by
  refine ⟨he.exists_ofSource, fun f hf htext => ?_⟩
  obtain ⟨e', hread, hbare⟩ := he.exists_ofSource
  obtain ⟨f', hread', hbare'⟩ := hf.exists_ofSource
  rw [htext, hread] at hread'
  rw [← hbare, ← hbare', Except.ok.inj hread']

/-- `(a.b = (1.f<A, B>("x;", c) ? (2 < d) : null))` -/
theorem ofSource_text_assignment :
    let e : Expr := .assign default (.member default (.ident default "a") "b")
      (.ternary default
        (.call default (.literal default (.int 1)) "f" [⟨"A", default⟩, ⟨"B", default⟩]
          [.literal default (.string "x;"), .ident default "c"])
        (.binary default .less (.literal default (.int 2)) (.ident default "d"))
        (.literal default .null))
    e.IsRenderable 1 ∧
      (∃ e', ofSource 1 e.text ⟨0, Text.bytes e.text.toList⟩ = .ok e' ∧ e'.bare = e.bare) ∧
      ∀ f : Expr, f.IsRenderable 1 → f.text = e.text → f.bare = e.bare := by
  intro e
  have hname (c : Char) (hc : Text.isNameStart c = true) : IsName (String.ofList [c]) := by
    refine ⟨⟨c, [], String.toList_ofList, hc, by simp⟩, ?_⟩
    have hlength : (String.ofList [c]).length = 1 := String.length_ofList
    refine ⟨?_, ?_, ?_⟩ <;> exact fun h => absurd (h ▸ hlength) (by decide)
  have hplace : IsRenderable 1 (.member default (.ident default "a") "b") :=
    .member (by decide) (.ident (hname 'a' (by decide))) (hname 'b' (by decide))
  have hcond : IsRenderable 1 (.call default (.literal default (.int 1)) "f"
      [⟨"A", default⟩, ⟨"B", default⟩] [.literal default (.string "x;"), .ident default "c"]) := by
    refine .call (by decide) (.literal (by decide)) (hname 'f' (by decide)) ?_ ?_
    · simpa using ⟨hname 'A' (by decide), hname 'B' (by decide)⟩
    · simpa using ⟨.literal (by decide), .ident (hname 'c' (by decide))⟩
  have hless : IsRenderable 1 (.binary default .less (.literal default (.int 2)) (.ident default "d")) :=
    .binary rfl (.literal (by decide)) (.ident (hname 'd' (by decide)))
  have he : e.IsRenderable 1 := .assign rfl hplace (.ternary hcond hless (.literal (by decide)))
  exact ⟨he, ofSource_text he⟩

end Expr

end Formula
