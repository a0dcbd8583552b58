import Formula.Proofs.Lexemes
import Formula.Proofs.Productions

/-!
The trees whose text can be read back, and the tokens that their text is made of.
-/

namespace Formula

def IsWord (w : String) : Prop :=
  ∃ c cs, w.toList = c :: cs ∧ Text.isNameStart c = true ∧ ∀ d ∈ cs, Text.isNameChar d = true

/-- A word that is no keyword. -/
structure IsName (name : String) : Prop where
  isWord : IsWord name
  not_keyword : name ≠ "true" ∧ name ≠ "false" ∧ name ≠ "null"

namespace Literal

/-- There is no sign before a number, and no way to write a quote in a string. -/
def IsRenderable : Literal → Prop
  | null | bool _ => True
  | int n => 0 ≤ n.toInt
  | float _ => False
  | string s => '"' ∉ s.toList

instance (v : Literal) : Decidable v.IsRenderable :=
  match v with
  | null | bool _ => inferInstanceAs (Decidable True)
  | int n => inferInstanceAs (Decidable (0 ≤ n.toInt))
  | float _ => inferInstanceAs (Decidable False)
  | string s => inferInstanceAs (Decidable ('"' ∉ s.toList))

def kind : Literal → Token.Kind
  | null => .null
  | bool b => .bool b
  | int n => .int n
  | float x => .float x
  | string s => .string s

theorem literal?_kind (v : Literal) : v.kind.literal? = some v := by cases v <;> rfl

end Literal

namespace Expr

/-- How many members and methods the chain has that the expression ends. -/
def hops : Expr → Nat
  | member _ receiver _ => receiver.hops + 1
  | call _ receiver _ _ _ => receiver.hops + 1
  | _ => 0

inductive IsRenderable (maxHops : Nat) : Expr → Prop
  | literal {span value} : value.IsRenderable → IsRenderable maxHops (.literal span value)
  | ident {span name} : IsName name → IsRenderable maxHops (.ident span name)
  | binary {span op left right} :
      op.isBinary = true → IsRenderable maxHops left → IsRenderable maxHops right →
      IsRenderable maxHops (.binary span op left right)
  | assign {span target value} :
      target.isPlace = true → IsRenderable maxHops target → IsRenderable maxHops value →
      IsRenderable maxHops (.assign span target value)
  | ternary {span cond yes no} :
      IsRenderable maxHops cond → IsRenderable maxHops yes → IsRenderable maxHops no →
      IsRenderable maxHops (.ternary span cond yes no)
  | member {span receiver name} :
      receiver.hops < maxHops → IsRenderable maxHops receiver → IsName name →
      IsRenderable maxHops (.member span receiver name)
  | call {span receiver method typeArgs args} :
      receiver.hops < maxHops → IsRenderable maxHops receiver → IsName method →
      (∀ a ∈ typeArgs, IsName a.name) → (∀ a ∈ args, IsRenderable maxHops a) →
      IsRenderable maxHops (.call span receiver method typeArgs args)

def typeArgsKinds (args : List TypeArg) : List Token.Kind :=
  if args.isEmpty then []
  else .op .less :: [Token.Kind.mark .comma].intercalate (args.map fun a => [.ident a.name]) ++
    [.op .greater]

mutual

/-- The tokens of the text, without their places. -/
def kinds : Expr → List Token.Kind
  | literal _ value => [value.kind]
  | ident _ name => [.ident name]
  | binary _ op left right =>
    .mark .leftParen :: left.kinds ++ .op op :: right.kinds ++ [.mark .rightParen]
  | assign _ target value =>
    .mark .leftParen :: target.kinds ++ .op .assign :: value.kinds ++ [.mark .rightParen]
  | ternary _ cond yes no =>
    .mark .leftParen :: cond.kinds ++ .mark .question :: yes.kinds ++ .mark .colon :: no.kinds ++
      [.mark .rightParen]
  | member _ receiver name => receiver.kinds ++ [.mark .dot, .ident name]
  | call _ receiver method typeArgs args =>
    receiver.kinds ++ [.mark .dot, .ident method] ++ typeArgsKinds typeArgs ++
      .mark .leftParen :: [Token.Kind.mark .comma].intercalate (allKinds args) ++ [.mark .rightParen]

def allKinds : List Expr → List (List Token.Kind)
  | [] => []
  | e :: es => e.kinds :: allKinds es

end

theorem allKinds_eq_map (es : List Expr) : allKinds es = es.map (·.kinds) := by
  induction es with
  | nil => rfl
  | cons e es ih => rw [allKinds, ih, List.map_cons]

theorem texts_eq_map (es : List Expr) : texts es = es.map (·.text) := by
  induction es with
  | nil => rfl
  | cons e es ih => rw [texts, ih, List.map_cons]

end Expr

open Token

/-- Neither a name nor a number goes on. -/
structure EndsWord (rest : List Char) : Prop where
  name : rest.takeWhile Text.isNameChar = []
  number : numberRun rest = []

theorem endsWord_nil : EndsWord [] := ⟨rfl, rfl⟩

theorem endsWord_cons {c : Char} (hc : c ∈ [' ', ',', ')', '<', '>', '(']) (rest : List Char) :
    EndsWord (c :: rest) := by
  simp only [List.mem_cons, List.not_mem_nil, or_false] at hc
  rcases hc with rfl | rfl | rfl | rfl | rfl | rfl <;> exact ⟨rfl, rfl⟩

theorem endsWord_dot {name : String} (h : IsName name) (rest : List Char) :
    EndsWord ('.' :: (name.toList ++ rest)) := by
  obtain ⟨c, cs, hname, hc, -⟩ := h.isWord
  have hdigit : c.isDigit = false := by
    rw [Bool.eq_false_iff]
    intro hd
    simp [not_isNameStart_of_isDigit hd] at hc
  constructor
  · rfl
  · simp [numberRun, hname, hdigit]

theorem endsWord_typeArgs (args : List TypeArg) (rest : List Char) :
    EndsWord ((Expr.typeArgsText args).toList ++ '(' :: rest) := by
  cases args with
  | nil => exact endsWord_cons (by simp) rest
  | cons a as =>
      have hless : (Expr.typeArgsText (a :: as)).toList ++ '(' :: rest =
          '<' :: ((", ".intercalate ((a :: as).map (·.name)) ++ ">").toList ++ '(' :: rest) := by
        simp [Expr.typeArgsText]
      rw [hless]
      exact endsWord_cons (by simp) _

namespace Token.Scans

variable {rest : List Char} {ks : List Kind}

theorem wordText {w : String} (hw : IsWord w) (hrest : EndsWord rest) (h : Scans rest ks) :
    Scans (w.toList ++ rest) (.ofWord w :: ks) := by
  obtain ⟨c, cs, hcs, hc, hd⟩ := hw
  have hword := Scans.word hc hd hrest.name h
  rwa [← hcs, String.ofList_toList] at hword

theorem name {name : String} (hname : IsName name) (hrest : EndsWord rest) (h : Scans rest ks) :
    Scans (name.toList ++ rest) (.ident name :: ks) := by
  have hkind : Kind.ofWord name = .ident name := by
    obtain ⟨h₁, h₂, h₃⟩ := hname.not_keyword
    rw [Kind.ofWord.eq_def]
    split <;> first | contradiction | rfl
  rw [← hkind]
  exact wordText hname.isWord hrest h

theorem literal {v : Literal} (hv : v.IsRenderable) (hrest : EndsWord rest) (h : Scans rest ks) :
    Scans (v.text.toList ++ rest) (v.kind :: ks) := by
  cases v with
  | null => exact wordText ⟨'n', ['u', 'l', 'l'], rfl, rfl, List.all_eq_true.mp rfl⟩ hrest h
  | bool b =>
      cases b with
      | true => exact wordText ⟨'t', ['r', 'u', 'e'], rfl, rfl, List.all_eq_true.mp rfl⟩ hrest h
      | false => exact wordText ⟨'f', ['a', 'l', 's', 'e'], rfl, rfl, List.all_eq_true.mp rfl⟩ hrest h
  | int n =>
      obtain ⟨c, cs, hcs, hdigits, hread⟩ := Formula.Number.digits_of_nonneg hv
      rw [Literal.text, hcs]
      exact Scans.number hdigits hread hrest.number h
  | float x => exact hv.elim
  | string s => simpa [Literal.text, Literal.kind] using Scans.string hv h

theorem space (h : Scans rest ks) : Scans (' ' :: rest) ks := gap (by decide) h

theorem comma (h : Scans rest ks) : Scans (',' :: ' ' :: rest) (.mark .comma :: ks) :=
  mark .comma h.space

/-- Phrases with commas between them. -/
theorem intercalate {α : Type} {text : α → List Char} {kinds : α → List Kind} {xs : List α}
    (hxs : ∀ x ∈ xs, ∀ {rest ks}, EndsWord rest → Scans rest ks →
      Scans (text x ++ rest) (kinds x ++ ks))
    (hrest : EndsWord rest) (h : Scans rest ks) :
    Scans ([',', ' '].intercalate (xs.map text) ++ rest)
      ([.mark .comma].intercalate (xs.map kinds) ++ ks) := by
  induction xs with
  | nil => exact h
  | cons x xs ih =>
      obtain ⟨hx, hxs⟩ := List.forall_mem_cons.mp hxs
      cases xs with
      | nil => simpa using hx hrest h
      | cons y ys =>
          simpa using hx (endsWord_cons (by simp) _) (comma (ih hxs))

theorem typeArgs {args : List TypeArg} (hargs : ∀ a ∈ args, IsName a.name)
    (h : Scans ('(' :: rest) ks) :
    Scans ((Expr.typeArgsText args).toList ++ '(' :: rest) (Expr.typeArgsKinds args ++ ks) := by
  cases args with
  | nil => exact h
  | cons a as =>
      let text (a : TypeArg) : List Char := a.name.toList
      let kinds (a : TypeArg) : List Kind := [.ident a.name]
      have hname : ∀ x ∈ a :: as, ∀ {rest ks}, EndsWord rest → Scans rest ks →
          Scans (text x ++ rest) (kinds x ++ ks) := fun x hx _ _ hrest => name (hargs x hx) hrest
      have hgreater : Scans ('>' :: '(' :: rest) (.op .greater :: ks) :=
        operator .greater (by decide) h
      have hnames := intercalate hname (endsWord_cons (by simp) _) hgreater
      obtain ⟨c, cs, hcs, hc, -⟩ := (hargs a (List.mem_cons_self ..)).isWord
      obtain ⟨more, hmore⟩ : ∃ more, [',', ' '].intercalate ((a :: as).map text) = c :: more := by
        cases as with
        | nil => exact ⟨cs, by simp [text, hcs]⟩
        | cons b bs =>
            exact ⟨cs ++ ',' :: ' ' :: [',', ' '].intercalate ((b :: bs).map text), by simp [text, hcs]⟩
      have hfirst : c ∉ Operator.chars := fun hmem => by
        simp [(only_operator_of_mem_chars hmem).2.1] at hc
      rw [hmore, List.cons_append] at hnames
      have hless := operator .less hfirst hnames
      rw [← List.cons_append, ← hmore] at hless
      simpa [Expr.typeArgsText, Expr.typeArgsKinds, Operator.symbol, text, kinds,
        Function.comp_def] using hless

/-- Two phrases with an operator between them. -/
theorem operation {text text' : List Char} {kinds kinds' : List Kind} (op : Operator)
    (hleft : ∀ {rest ks}, EndsWord rest → Scans rest ks → Scans (text ++ rest) (kinds ++ ks))
    (hright : ∀ {rest ks}, EndsWord rest → Scans rest ks → Scans (text' ++ rest) (kinds' ++ ks))
    (hrest : EndsWord rest) (h : Scans rest ks) :
    Scans (text ++ ' ' :: (op.symbol.toList ++ ' ' :: (text' ++ rest))) (kinds ++ .op op :: (kinds' ++ ks)) :=
  hleft (endsWord_cons (by simp) _) (operator op (by decide) (hright hrest h).space).space

end Token.Scans

namespace Expr

/-- A text of a tree makes up its tokens, in front of what does not carry its last word on. -/
theorem IsRenderable.scans {maxHops : Nat} {e : Expr} (he : e.IsRenderable maxHops) {rest : List Char}
    {ks : List Kind} (hrest : EndsWord rest) (h : Scans rest ks) :
    Scans (e.text.toList ++ rest) (e.kinds ++ ks) := by
  induction he generalizing rest ks with
  | literal hv => exact .literal hv hrest h
  | ident hname => exact .name hname hrest h
  | @binary span op left right hop _ _ ihl ihr =>
      have hclose : Scans (')' :: rest) (.mark .rightParen :: ks) := .mark .rightParen h
      have := Scans.mark .leftParen (.operation op ihl ihr (endsWord_cons (by simp) _) hclose)
      simpa [text, kinds, Mark.char] using this
  | assign hplace _ _ iht ihv =>
      have hclose : Scans (')' :: rest) (.mark .rightParen :: ks) := .mark .rightParen h
      have := Scans.mark .leftParen (.operation .assign iht ihv (endsWord_cons (by simp) _) hclose)
      simpa [text, kinds, Mark.char, Operator.symbol] using this
  | ternary _ _ _ ihc ihy ihn =>
      have hclose : Scans (')' :: rest) (.mark .rightParen :: ks) := .mark .rightParen h
      have hno := ihn (endsWord_cons (by simp) _) hclose
      have hyes := ihy (endsWord_cons (by simp) _) (Scans.mark .colon hno.space).space
      have hcond := ihc (endsWord_cons (by simp) _) (Scans.mark .question hyes.space).space
      simpa [text, kinds, Mark.char] using Scans.mark .leftParen hcond
  | member _ _ hname ih =>
      have := ih (endsWord_dot hname rest) (.mark .dot (.name hname hrest h))
      simpa [text, kinds] using this
  | @call span receiver method typeArgs args _ _ hmethod htypeArgs _ ih ihargs =>
      have hclose : Scans (')' :: rest) (.mark .rightParen :: ks) := .mark .rightParen h
      have hargs := Scans.intercalate ihargs (endsWord_cons (by simp) _) hclose
      have hopen : Scans ('(' :: _) _ := .mark .leftParen hargs
      have htypes := Scans.typeArgs htypeArgs hopen
      have hdot := Scans.mark .dot (.name hmethod (endsWord_typeArgs typeArgs _) htypes)
      have := ih (endsWord_dot hmethod _) hdot
      simpa [text, kinds, texts_eq_map, allKinds_eq_map, Mark.char, Function.comp_def] using this

end Expr

end Formula
