import Formula.Engine
import Formula.Proofs.Makeup

/-!
What a formula compiles to depends on no names but those that stand in it.
-/

namespace Formula

/-- The name is an identifier in a statement of the source. -/
def Mentions (source name : String) : Prop :=
  ∃ span ∈ Statement.split source, ∃ ts, TokenList.scan source span = .ok ts ∧
    ∃ t ∈ ts.tokens, t.kind = .ident name

namespace Scope

/-- The name stands for the same in both scopes. -/
def Agree (scope scope' : Scope) (name : String) : Prop :=
  scope.isVariable name = scope'.isVariable name ∧ scope.type? name = scope'.type? name

variable {scope scope' : Scope}

theorem typeNamed_congr {name : String} (h : Agree scope scope' name) (span : Span)
    (fault : String → ParseFault) :
    scope.typeNamed span name fault = scope'.typeNamed span name fault := by
  rw [typeNamed, typeNamed, h.2]

theorem static?_congr {e : Expr} (h : ∀ name ∈ e.names, Agree scope scope' name) :
    scope.static? e = scope'.static? e := by
  cases e with
  | ident span name =>
      have hname := h name (by simp [Expr.names])
      rw [static?, static?, hname.1, typeNamed_congr hname]
  | literal | binary | assign | ternary | member | call => rfl

theorem typeArgs_congr {args : List TypeArg} (h : ∀ a ∈ args, Agree scope scope' a.name) :
    scope.typeArgs args = scope'.typeArgs args := by
  induction args with
  | nil => rfl
  | cons a args ih =>
      obtain ⟨ha, hargs⟩ := List.forall_mem_cons.mp h
      rw [typeArgs, typeArgs, typeNamed_congr ha, ih hargs]

end Scope

section

variable {scope scope' : Scope}

open Scope in
mutual

/-- The program of an expression is the same in scopes in which its names stand for the same. -/
theorem Program.ofExpr_congr (e : Expr) (h : ∀ name ∈ e.names, Agree scope scope' name) :
    Program.ofExpr scope e = Program.ofExpr scope' e := by
  cases e with
  | literal => rw [Program.ofExpr, Program.ofExpr]
  | ident span name =>
      rw [Program.ofExpr, Program.ofExpr, variableOr, variableOr, (h name (by simp [Expr.names])).1]
  | binary span op left right =>
      simp only [Expr.names, List.forall_mem_append] at h
      rw [Program.ofExpr, Program.ofExpr, Program.ofExpr_congr left h.1, Program.ofExpr_congr right h.2]
  | assign span target value =>
      simp only [Expr.names, List.forall_mem_append] at h
      rw [Program.ofExpr, Program.ofExpr, Place.ofTarget_congr target h.1,
        Program.ofExpr_congr value h.2]
  | ternary span cond yes no =>
      simp only [Expr.names, List.forall_mem_append] at h
      rw [Program.ofExpr, Program.ofExpr, Program.ofExpr_congr cond h.1, Program.ofExpr_congr yes h.2.1,
        Program.ofExpr_congr no h.2.2]
  | member span receiver name =>
      simp only [Expr.names] at h
      rw [Program.ofExpr, Program.ofExpr, Program.ofReceiver_congr receiver h]
  | call span receiver method typeArgs args =>
      simp only [Expr.names, List.forall_mem_append, List.forall_mem_map] at h
      rw [Program.ofExpr, Program.ofExpr, Program.ofReceiver_congr receiver h.1, typeArgs_congr h.2.1,
        Program.ofArguments_congr args h.2.2]
termination_by (sizeOf e, 0)

theorem Program.ofReceiver_congr (e : Expr) (h : ∀ name ∈ e.names, Agree scope scope' name) :
    Program.ofReceiver scope e = Program.ofReceiver scope' e := by
  rw [Program.ofReceiver, Program.ofReceiver, static?_congr h, Program.ofExpr_congr e h]
termination_by (sizeOf e, 1)

theorem Program.ofArguments_congr (es : List Expr)
    (h : ∀ name ∈ Expr.allNames es, Agree scope scope' name) :
    Program.ofArguments scope es = Program.ofArguments scope' es := by
  cases es with
  | nil => rw [Program.ofArguments, Program.ofArguments]
  | cons e es =>
      simp only [Expr.allNames, List.forall_mem_append] at h
      rw [Program.ofArguments, Program.ofArguments, Program.ofExpr_congr e h.1,
        Program.ofArguments_congr es h.2]
termination_by (sizeOf es, 0)

theorem Place.ofTarget_congr (e : Expr) (h : ∀ name ∈ e.names, Agree scope scope' name) :
    Place.ofTarget scope e = Place.ofTarget scope' e := by
  cases e with
  | ident span name =>
      rw [Place.ofTarget, Place.ofTarget, variableOr, variableOr, (h name (by simp [Expr.names])).1]
  | member span receiver name =>
      simp only [Expr.names] at h
      rw [Place.ofTarget, Place.ofTarget, Place.ofOwner_congr receiver h]
  | literal | binary | assign | ternary | call => simp [Place.ofTarget]
termination_by (sizeOf e, 0)

theorem Place.ofOwner_congr (e : Expr) (h : ∀ name ∈ e.names, Agree scope scope' name) :
    Place.ofOwner scope e = Place.ofOwner scope' e := by
  rw [Place.ofOwner, Place.ofOwner, static?_congr h, Place.ofTarget_congr e h, Program.ofExpr_congr e h]
termination_by (sizeOf e, 1)

end

end

section

variable {maxHops : Nat} {source : String} {span : Span}

theorem Expr.makes_of_ofSource {e : Expr} (h : Expr.ofSource maxHops source span = .ok e) :
    ∃ ts, TokenList.scan source span = .ok ts ∧ Makes ts.tokens (.expr e) := by
  rw [ofSource] at h
  cases hts : TokenList.scan source span with
  | error err => simp [hts] at h
  | ok ts =>
      simp only [hts] at h
      cases he : ofTokens maxHops ts with
      | error err => simp [he] at h
      | ok e' =>
          simp only [he] at h
          obtain rfl := Except.ok.inj h
          exact ⟨ts, rfl, makes_of_ofTokens he⟩

theorem Expr.mentions_of_ofSource {e : Expr} (h : Expr.ofSource maxHops source span = .ok e)
    (hspan : span ∈ Statement.split source) : ∀ name ∈ e.names, Mentions source name := by
  obtain ⟨ts, hts, hmakes⟩ := makes_of_ofSource h
  exact fun name hname => ⟨span, hspan, ts, hts, hmakes.exists_token name hname⟩

theorem Program.exists_of_ofSource {scope : Scope} {p : Program}
    (h : ofSource maxHops scope source span = .ok p) :
    ∃ e, Expr.ofSource maxHops source span = .ok e ∧ ofExpr scope e = .ok p := by
  rw [ofSource] at h
  cases he : Expr.ofSource maxHops source span with
  | error d => simp [he] at h
  | ok e =>
      simp only [he] at h
      cases hp : ofExpr scope e with
      | error err => simp [hp] at h
      | ok p' =>
          simp only [hp] at h
          obtain rfl := Except.ok.inj h
          exact ⟨e, rfl, hp⟩

theorem CompiledStatement.ofSource_of_outcome {scope : Scope} {p : Program}
    (h : (compile maxHops scope source span).outcome = .ok p) :
    Program.ofSource maxHops scope source span = .ok p := by
  rw [compile] at h
  cases hp : Program.ofSource maxHops scope source span with
  | error d =>
      rw [hp] at h
      cases h
  | ok p' =>
      rw [hp] at h
      exact h

/-- A formula compiles to the same in scopes in which the names in it stand for the same. -/
theorem CompiledFormula.compile_congr {scope scope' : Scope}
    (h : ∀ name, Mentions source name → Scope.Agree scope scope' name) :
    compile maxHops scope source = compile maxHops scope' source := by
  rw [compile, compile]
  congr 1
  refine List.map_congr_left fun span hspan => ?_
  rw [CompiledStatement.compile, CompiledStatement.compile, Program.ofSource, Program.ofSource]
  cases he : Expr.ofSource maxHops source span with
  | error d => rfl
  | ok e =>
      simp only
      have hnames := Expr.mentions_of_ofSource he hspan
      rw [Program.ofExpr_congr e fun name hname => h name (hnames name hname)]

end

end Formula
