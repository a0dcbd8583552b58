import Formula.Proofs.Vocabulary

/-!
Formulas that assign nothing and call none of some methods, such as those that change their receiver. What
the tokens do not do, the trees that they make up do not do either.
-/

namespace Formula

variable {off : List String}

/-- No operator of the tokens assigns, and no name behind a dot is one of `off`. -/
def Token.ReadOnly (off : List String) (ts : List Token) : Prop :=
  (∀ t ∈ ts, ∀ op, t.kind = .op op → op.isAssignment = false) ∧
    ∀ dot t name, [dot, t] <:+: ts → dot.kind = .mark .dot → t.kind = .ident name → name ∉ off

theorem Token.ReadOnly.of_infix {ts us : List Token} (h : ReadOnly off ts) (hus : us <:+: ts) :
    ReadOnly off us :=
  ⟨fun t ht => h.1 t (hus.subset ht), fun dot t name hin => h.2 dot t name (hin.trans hus)⟩

theorem Token.readOnly_nil : ReadOnly off [] := by
  simp [ReadOnly]

theorem Token.readOnly_cons {t : Token} {ts : List Token} :
    ReadOnly off (t :: ts) ↔ (∀ op, t.kind = .op op → op.isAssignment = false) ∧
      (t.kind = .mark .dot → ∀ u, ts.head? = some u → ∀ name, u.kind = .ident name → name ∉ off) ∧
      ReadOnly off ts := by
  have hpair (dot u : Token) :
      [dot, u] <:+: t :: ts ↔ dot = t ∧ ts.head? = some u ∨ [dot, u] <:+: ts := by
    rw [List.infix_cons_iff, List.cons_prefix_cons]
    cases ts with
    | nil => simp
    | cons v vs => simp [eq_comm (a := u)]
  simp only [ReadOnly, hpair, List.forall_mem_cons]
  constructor
  · rintro ⟨⟨hop, hops⟩, hnames⟩
    exact ⟨hop, fun ht u hu name => hnames t u name (.inl ⟨rfl, hu⟩) ht, hops,
      fun dot u name hin => hnames dot u name (.inr hin)⟩
  · rintro ⟨hop, hname, hops, hnames⟩
    refine ⟨⟨hop, hops⟩, fun dot u name hin hdot => ?_⟩
    rcases hin with ⟨rfl, hu⟩ | hin
    · exact hname hdot u hu name
    · exact hnames dot u name hin hdot

/-- So are the tokens of each statement. -/
def ReadOnly (off : List String) (source : String) : Prop :=
  ∀ span ∈ Statement.split source, ∀ ts, TokenList.scan source span = .ok ts →
    Token.ReadOnly off ts.tokens

namespace Expr

mutual

/-- Nothing is assigned, and no method with one of the names `off` is called. -/
def ReadOnly (off : List String) : Expr → Prop
  | literal _ _ | ident _ _ => True
  | binary _ _ left right => left.ReadOnly off ∧ right.ReadOnly off
  | assign _ _ _ => False
  | ternary _ cond yes no => cond.ReadOnly off ∧ yes.ReadOnly off ∧ no.ReadOnly off
  | member _ receiver _ => receiver.ReadOnly off
  | call _ receiver method _ args => receiver.ReadOnly off ∧ method ∉ off ∧ AllReadOnly off args

def AllReadOnly (off : List String) : List Expr → Prop
  | [] => True
  | e :: es => e.ReadOnly off ∧ AllReadOnly off es

end

def Phrase.ReadOnly (off : List String) : Phrase → Prop
  | expr e => e.ReadOnly off
  | arguments es _ => AllReadOnly off es

theorem readOnly_ofUnary (op : Operator) (span : Span) {operand : Expr} (h : operand.ReadOnly off) :
    (ofUnary op span operand).ReadOnly off := by
  rw [ofUnary.eq_def]
  split <;> simpa [ReadOnly] using h

/-- What tokens make up assigns and calls nothing that they do not. -/
theorem Makes.readOnly {ts : List Token} {p : Phrase} (h : Makes ts p)
    (hts : Token.ReadOnly off ts) : p.ReadOnly off := by
  induction h with
  | literal | ident | noArguments => trivial
  | @group opening closing ts e _ ih => exact ih (hts.of_infix ⟨[opening], [closing], by simp⟩)
  | @member dot t ts receiver name _ _ _ ih => exact ih (hts.of_infix ⟨[], [dot, t], by simp⟩)
  | @call dot t ts os us receiver method typeArgs args closed hdot ht _ _ _ ih ihargs =>
      refine ⟨ih (hts.of_infix ⟨[], dot :: t :: (os ++ us), by simp⟩), ?_,
        ihargs (hts.of_infix ⟨ts ++ dot :: t :: os, [], by simp⟩)⟩
      exact hts.2 dot t method ⟨ts, os ++ us, by simp⟩ hdot ht
  | @unary t ts op operand _ _ _ ih =>
      exact readOnly_ofUnary op t.span (ih (hts.of_infix ⟨[t], [], by simp⟩))
  | @binary t ts us op left right _ _ _ ihl ihr =>
      exact ⟨ihl (hts.of_infix ⟨[], t :: us, by simp⟩), ihr (hts.of_infix ⟨ts ++ [t], [], by simp⟩)⟩
  | @ternary question colon ts us vs cond yes no _ _ _ _ ihc ihy ihn =>
      exact ⟨ihc (hts.of_infix ⟨[], question :: (us ++ colon :: vs), by simp⟩),
        ihy (hts.of_infix ⟨ts ++ [question], colon :: vs, by simp⟩),
        ihn (hts.of_infix ⟨ts ++ question :: (us ++ [colon]), [], by simp⟩)⟩
  | @assignment t ts us op target value ht hop _ _ _ _ =>
      -- Trees of assignments come from operators that assign, and from nothing else.
      have hnone := hts.1 t (by simp) op ht
      rw [hop] at hnone
      cases hnone
  | @lastArgument closing ts e _ ih => exact ⟨ih (hts.of_infix ⟨[], [closing], by simp⟩), trivial⟩
  | @argument comma ts us e es closed _ _ ih ihs =>
      exact ⟨ih (hts.of_infix ⟨[], comma :: us, by simp⟩),
        ihs (hts.of_infix ⟨ts ++ [comma], [], by simp⟩)⟩

theorem readOnly_of_ofSource {maxHops : Nat} {source : String} {span : Span} {e : Expr}
    (h : ofSource maxHops source span = .ok e) (hspan : span ∈ Statement.split source)
    (hsource : Formula.ReadOnly off source) : e.ReadOnly off := by
  obtain ⟨ts, hts, hmakes⟩ := makes_of_ofSource h
  exact hmakes.readOnly (hsource span hspan ts hts)

end Expr

end Formula
