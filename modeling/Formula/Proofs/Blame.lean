import Formula.Proofs.Composition
import Formula.Proofs.Conduct
import Formula.Proofs.Whereabouts

/-!
Which places errors and diagnostics are about.
-/

namespace Formula

/-- A result, or an error about places of which `P` is true. -/
def Blames {α : Type} (P : Span → Prop) (x : Except ParseError α) : Prop :=
  ∀ err, x = .error err → ∀ s ∈ Expr.Parse.places err, P s

section

variable {P : Span → Prop} {α β : Type}

theorem Blames.ok (a : α) : Blames P (.ok a : Except ParseError α) := fun _ h => by cases h

theorem Blames.error {span : Span} {fault : ParseFault} (hspan : P span)
    (hfault : ∀ opened found, fault ≠ .unclosedParen opened found) :
    Blames P (.error ⟨span, fault⟩ : Except ParseError α) := by
  rintro _ ⟨⟩ s hs
  cases fault <;> simp_all [Expr.Parse.places]

theorem Blames.bind {x : Except ParseError α} {f : α → Except ParseError β} (hx : Blames P x)
    (hf : ∀ a, Blames P (f a)) : Blames P (x >>= f) := by
  cases x with
  | error e => exact fun err h => hx err (congrArg _ (Except.error.inj h))
  | ok a => exact hf a

namespace Scope

variable (scope : Scope)

theorem variableOr_blames {span : Span} (hspan : P span) (name : String) (a : α) :
    Blames P (scope.variableOr span name a) := by
  rw [variableOr]
  split
  · exact .ok a
  · exact .error hspan (by simp)

theorem typeNamed_blames {span : Span} (hspan : P span) (name : String) {fault : String → ParseFault}
    (hfault : ∀ opened found, fault name ≠ .unclosedParen opened found) :
    Blames P (scope.typeNamed span name fault) := by
  rw [typeNamed]
  split
  · exact .ok _
  · exact .error hspan hfault

theorem typeArgs_blames {args : List TypeArg} (h : ∀ s ∈ args.map (·.span), P s) :
    Blames P (scope.typeArgs args) := by
  induction args with
  | nil => exact .ok _
  | cons a args ih =>
      obtain ⟨ha, hargs⟩ := List.forall_mem_cons.mp h
      exact (scope.typeNamed_blames ha _ (by simp)).bind fun _ => (ih hargs).bind fun _ => .ok _

theorem static?_blames {e : Expr} {span : Span} {tag : Except ParseError TypeTag}
    (he : scope.static? e = some (span, tag)) (h : ∀ s ∈ e.spans, P s) : Blames P tag := by
  cases e with
  | ident s name =>
      rw [static?] at he
      split at he
      · cases he
      · cases he
        exact scope.typeNamed_blames (h span (by simp [Expr.spans])) name (by simp)
  | literal | binary | assign | ternary | member | call => cases he

end Scope

variable (scope : Scope)

mutual

/-- An expression that has no program has a name to blame, or a target that is no place. -/
theorem Program.ofExpr_blames (e : Expr) (h : ∀ s ∈ e.spans, P s) :
    Blames P (Program.ofExpr scope e) := by
  cases e with
  | literal =>
      rw [Program.ofExpr]
      exact .ok _
  | ident span name =>
      rw [Program.ofExpr]
      exact scope.variableOr_blames (h span (by simp [Expr.spans])) name _
  | binary span op left right =>
      simp only [Expr.spans, List.forall_mem_cons, List.forall_mem_append] at h
      rw [Program.ofExpr]
      refine (Program.ofExpr_blames left h.2.1).bind fun _ => ?_
      exact (Program.ofExpr_blames right h.2.2).bind fun _ => .ok _
  | assign span target value =>
      simp only [Expr.spans, List.forall_mem_cons, List.forall_mem_append] at h
      rw [Program.ofExpr]
      refine (Place.ofTarget_blames target h.2.1).bind fun _ => ?_
      exact (Program.ofExpr_blames value h.2.2).bind fun _ => .ok _
  | ternary span cond yes no =>
      simp only [Expr.spans, List.forall_mem_cons, List.forall_mem_append] at h
      rw [Program.ofExpr]
      refine (Program.ofExpr_blames cond h.2.1).bind fun _ => ?_
      refine (Program.ofExpr_blames yes h.2.2.1).bind fun _ => ?_
      exact (Program.ofExpr_blames no h.2.2.2).bind fun _ => .ok _
  | member span receiver name =>
      simp only [Expr.spans, List.forall_mem_cons] at h
      rw [Program.ofExpr]
      exact (Program.ofReceiver_blames receiver h.2).bind fun _ => .ok _
  | call span receiver method typeArgs args =>
      simp only [Expr.spans, List.forall_mem_cons, List.forall_mem_append] at h
      rw [Program.ofExpr]
      refine (Program.ofReceiver_blames receiver h.2.1).bind fun _ => ?_
      refine (scope.typeArgs_blames h.2.2.1).bind fun _ => ?_
      exact (Program.ofArguments_blames args h.2.2.2).bind fun _ => .ok _
termination_by (sizeOf e, 0)

theorem Program.ofReceiver_blames (e : Expr) (h : ∀ s ∈ e.spans, P s) :
    Blames P (Program.ofReceiver scope e) := by
  rw [Program.ofReceiver]
  split
  · next hs => exact (scope.static?_blames hs h).bind fun _ => .ok _
  · exact Program.ofExpr_blames e h
termination_by (sizeOf e, 1)

theorem Program.ofArguments_blames (es : List Expr) (h : ∀ s ∈ Expr.allSpans es, P s) :
    Blames P (Program.ofArguments scope es) := by
  cases es with
  | nil =>
      rw [Program.ofArguments]
      exact .ok _
  | cons e es =>
      simp only [Expr.allSpans, List.forall_mem_append] at h
      rw [Program.ofArguments]
      refine (Program.ofExpr_blames e h.1).bind fun _ => ?_
      exact (Program.ofArguments_blames es h.2).bind fun _ => .ok _
termination_by (sizeOf es, 0)

theorem Place.ofTarget_blames (e : Expr) (h : ∀ s ∈ e.spans, P s) :
    Blames P (Place.ofTarget scope e) := by
  have hspan := h _ e.span_mem_spans
  cases e with
  | ident span name =>
      rw [Place.ofTarget]
      exact scope.variableOr_blames hspan name _
  | member span receiver name =>
      simp only [Expr.spans, List.forall_mem_cons] at h
      rw [Place.ofTarget]
      exact (Place.ofOwner_blames receiver h.2).bind fun _ => .ok _
  | literal | binary | assign | ternary | call =>
      rw [Place.ofTarget]
      · exact .error hspan (by simp)
      all_goals simp
termination_by (sizeOf e, 0)

theorem Place.ofOwner_blames (e : Expr) (h : ∀ s ∈ e.spans, P s) :
    Blames P (Place.ofOwner scope e) := by
  rw [Place.ofOwner]
  split
  · next hs => exact (scope.static?_blames hs h).bind fun _ => .ok _
  · split
    · exact Place.ofTarget_blames e h
    · exact (Program.ofExpr_blames e h).bind fun _ => .ok _
termination_by (sizeOf e, 1)

end

end

/-- The diagnostic has a primary place, and `P` is true of all places that it names. -/
structure Diagnostic.Points (P : Span → Prop) (d : Diagnostic) : Prop where
  primary : ∃ span, d.primarySpan? = some span
  labels : ∀ l ∈ d.labels, P l.span

section

variable {P : Span → Prop}

theorem ScanError.points {e : ScanError} (h : P e.span) : e.diagnostic.Points P := by
  cases e with
  | mk span fault =>
      cases fault <;> exact ⟨⟨span, rfl⟩, by simpa [diagnostic, Diagnostic.withSuggestion,
        Diagnostic.withLabel, Diagnostic.error] using h⟩

theorem ParseError.points {e : ParseError} (h : ∀ s ∈ Expr.Parse.places e, P s) :
    e.diagnostic.Points P := by
  cases e with
  | mk span fault =>
      cases fault <;> exact ⟨⟨span, rfl⟩, by simpa [diagnostic, Expr.Parse.places, Diagnostic.withNote,
        Diagnostic.withRelated, Diagnostic.withLabel, Diagnostic.error] using h⟩

theorem EvalError.points {e : EvalError} {span : Span} (he : e.span? = some span) (h : P span) :
    e.diagnostic.Points P := by
  cases e with
  | mk fault span? statement? =>
      obtain rfl : span? = some span := he
      cases statement? <;> exact ⟨⟨span, rfl⟩, by simpa [diagnostic, Diagnostic.inStatement,
        Diagnostic.withNote, Diagnostic.withLabel, Diagnostic.error] using h⟩

end

section

variable {maxHops : Nat} {source : String} {before body : List Char}
  (hbody : before ++ body <+: source.toList)

include hbody

theorem Expr.points_of_ofSource {d : Diagnostic}
    (h : Expr.ofSource maxHops source (.behind before body) = .error d) :
    d.Points (Span.Stands before body) := by
  rw [ofSource] at h
  cases hts : TokenList.scan source (.behind before body) with
  | error e =>
      have hplaced : Token.Placed before body _ (Token.scanFrom (Text.bytes before) body) :=
        Token.placed_scanFrom [] rfl
      rw [hts] at h
      rw [TokenList.scan_behind hbody] at hts
      cases htokens : Token.scanFrom (Text.bytes before) body with
      | ok tokens => simp [htokens, Except.map] at hts
      | error e' =>
          rw [htokens] at hts hplaced
          obtain rfl := Except.error.inj hts
          exact Except.error.inj h ▸ ScanError.points hplaced
  | ok ts =>
      obtain ⟨hstands, -, hregion⟩ := TokenList.placed_of_scan hbody hts
      simp only [hts] at h
      cases he : ofTokens maxHops ts with
      | ok e => simp [he] at h
      | error e =>
          rw [he] at h
          exact Except.error.inj h ▸ ParseError.points (places_of_ofTokens hregion hstands he)

theorem Program.points_of_ofSource {scope : Scope} {d : Diagnostic}
    (h : Program.ofSource maxHops scope source (.behind before body) = .error d) :
    d.Points (Span.Stands before body) := by
  rw [ofSource] at h
  cases he : Expr.ofSource maxHops source (.behind before body) with
  | error d' =>
      rw [he] at h
      exact Except.error.inj h ▸ Expr.points_of_ofSource hbody he
  | ok e =>
      simp only [he] at h
      cases hp : ofExpr scope e with
      | ok p => simp [hp] at h
      | error err =>
          rw [hp] at h
          have hblames := Program.ofExpr_blames scope e (Expr.stands_of_ofSource hbody he).1
          exact Except.error.inj h ▸ ParseError.points (hblames err hp)

end

end Formula
