import Formula.Proofs.Composition
import Formula.Proofs.Lexemes
import Formula.Proofs.Makeup
import Formula.Proofs.Reading
import Mathlib

/-!
Arithmetic on ints and booleans. It is exact, or it is refused where a divisor is zero or a result is no
64-bit integer.
-/

namespace Formula

namespace Number

/-- Of the quotients of 64-bit integers one is too large. -/
theorem inInt64_tdiv_iff {m n : Int} (hm : inInt64 m) (hn : n ≠ 0) :
    inInt64 (m.tdiv n) ↔ ¬(m = minInt64 ∧ n = -1) := by
  rw [inInt64_iff, minInt64, maxInt64] at *
  have habs := Int.natAbs_tdiv m n
  constructor
  · rintro ⟨-, hle⟩ ⟨rfl, rfl⟩
    exact absurd hle (by decide)
  · intro hcorner
    by_cases hunit : n.natAbs = 1
    · obtain rfl | rfl : n = 1 ∨ n = -1 := by omega
      · rw [Int.tdiv_one]
        exact hm
      · rw [Int.tdiv_neg, Int.tdiv_one]
        omega
    · have hhalf : m.natAbs / n.natAbs ≤ m.natAbs / 2 := Nat.div_le_div_left (by omega) (by decide)
      change _ = m.natAbs / n.natAbs at habs
      omega

theorem inInt64_tmod {m n : Int} (hn : inInt64 n) (hzero : n ≠ 0) : inInt64 (m.tmod n) := by
  rw [inInt64_iff, minInt64, maxInt64] at *
  have habs := Int.natAbs_tmod m n
  have hlt := Nat.mod_lt m.natAbs (show 0 < n.natAbs by omega)
  omega

end Number

/-- The operations of arithmetic. -/
inductive Arithmetic.Operation where
  | add | sub | mul | div | mod
deriving DecidableEq, Repr

namespace Arithmetic.Operation

def operator : Operation → Operator
  | add => .add
  | sub => .sub
  | mul => .mul
  | div => .div
  | mod => .mod

/-- The exact result. Division truncates toward zero, and a remainder has the sign of the dividend. -/
def apply : Operation → Int → Int → Int
  | add, m, n => m + n
  | sub, m, n => m - n
  | mul, m, n => m * n
  | div, m, n => m.tdiv n
  | mod, m, n => m.tmod n

/-- No divisor is zero, and no remainder is that of the quotient that is too large. -/
def Defined : Operation → Int → Int → Prop
  | add, _, _ | sub, _, _ | mul, _, _ => True
  | div, _, n => n ≠ 0
  | mod, m, n => n ≠ 0 ∧ ¬(m = Number.minInt64 ∧ n = -1)

/-- The operation is defined, and its result is a 64-bit integer. -/
def Fits (o : Operation) (m n : Int) : Prop := o.Defined m n ∧ Number.inInt64 (o.apply m n)

instance : (o : Operation) → (m n : Int) → Decidable (o.Defined m n)
  | add, _, _ | sub, _, _ | mul, _, _ => isTrue trivial
  | div, _, n => inferInstanceAs (Decidable (n ≠ 0))
  | mod, m, n => inferInstanceAs (Decidable (n ≠ 0 ∧ ¬(m = Number.minInt64 ∧ n = -1)))

instance (o : Operation) (m n : Int) : Decidable (o.Fits m n) := inferInstanceAs (Decidable (_ ∧ _))

end Arithmetic.Operation

/-- A fault of arithmetic: a zero divisor or an overflow. -/
def Fault.IsArithmetic (f : Fault) : Prop := f.code = .zeroDivision ∨ f.code = .integerOverflow

namespace Value

/-- The number that an int is, or that a boolean counts as. -/
def number? : Value → Option Int
  | int n => some n.toInt
  | bool b => some (if b then 1 else 0)
  | _ => none

theorem coerced_of_number? {v : Value} {m : Int} (h : v.number? = some m) :
    ∃ a : Int64, v.coerced = int a ∧ a.toInt = m := by
  cases v with
  | int n => exact ⟨n, rfl, Option.some.inj h⟩
  | bool b =>
      refine ⟨if b then 1 else 0, rfl, ?_⟩
      rw [← Option.some.inj h]
      cases b <;> rfl
  | null | float | string | enum | object | typeRoot => cases h

theorem exactInt_of_inInt64 {n : Int} (h : Number.inInt64 n) (operation : String) :
    exactInt operation n = .ok (int (Int64.ofInt n)) := by rw [exactInt, if_pos h]

theorem exactInt_of_not_inInt64 {n : Int} (h : ¬Number.inInt64 n) (operation : String) :
    exactInt operation n = .error (.integerOverflow operation) := by rw [exactInt, if_neg h]

section

open Arithmetic

variable {H : Host} {o : Operation} {a b : Int64}

theorem ne_zero_iff : b.toInt ≠ 0 ↔ b ≠ 0 := by
  rw [ne_eq, ← Int64.toInt_zero, Int64.toInt_inj]

theorem intBinary_of_fits (h : o.Fits a.toInt b.toInt) :
    intBinary o.operator a b = .ok (int (Int64.ofInt (o.apply a.toInt b.toInt))) := by
  obtain ⟨hdefined, hin⟩ := h
  cases o with
  | add | sub | mul => exact exactInt_of_inInt64 hin _
  | div =>
      have hzero : b ≠ 0 := ne_zero_iff.mp hdefined
      exact (if_neg hzero).trans (exactInt_of_inInt64 hin _)
  | mod =>
      have hzero : b ≠ 0 := ne_zero_iff.mp hdefined.1
      have hquotient := (Number.inInt64_tdiv_iff (Number.inInt64_toInt a) hdefined.1).mpr hdefined.2
      change modInt a b = _
      rw [modInt, if_neg hzero, if_pos hquotient]
      exact exactInt_of_inInt64 hin _

theorem intBinary_of_not_fits (h : ¬o.Fits a.toInt b.toInt) :
    ∃ f, intBinary o.operator a b = .error f ∧ f.IsArithmetic := by
  have overflow {n : Int} (hin : ¬Number.inInt64 n) (operation : String) :
      ∃ f, exactInt operation n = .error f ∧ f.IsArithmetic :=
    ⟨_, exactInt_of_not_inInt64 hin operation, .inr rfl⟩
  cases o with
  | add | sub | mul => exact overflow (fun hin => h ⟨trivial, hin⟩) _
  | div =>
      change ∃ f, divInt a b = .error f ∧ f.IsArithmetic
      rw [divInt]
      by_cases hzero : b = 0
      · exact ⟨_, if_pos hzero, .inl rfl⟩
      · rw [if_neg hzero]
        exact overflow (fun hin => h ⟨ne_zero_iff.mpr hzero, hin⟩) _
  | mod =>
      change ∃ f, modInt a b = .error f ∧ f.IsArithmetic
      rw [modInt]
      by_cases hzero : b = 0
      · exact ⟨_, if_pos hzero, .inl rfl⟩
      · have hne := ne_zero_iff.mpr hzero
        have hquotient : ¬Number.inInt64 (a.toInt.tdiv b.toInt) := fun hin =>
          h ⟨⟨hne, (Number.inInt64_tdiv_iff (Number.inInt64_toInt a) hne).mp hin⟩,
            Number.inInt64_tmod (Number.inInt64_toInt b) hne⟩
        rw [if_neg hzero, if_neg hquotient]
        exact ⟨_, rfl, .inr rfl⟩

theorem binary_of_coerced {v w : Value} (hv : v.coerced = int a) (hw : w.coerced = int b)
    (mem : Memory H) : v.binary mem o.operator w = intBinary o.operator a b := by
  cases o <;> rw [binary, hv, hw] <;> rfl

variable {v w : Value} {m n : Int} (hv : v.number? = some m) (hw : w.number? = some n)

include hv hw

theorem binary_of_fits (h : o.Fits m n) (mem : Memory H) :
    v.binary mem o.operator w = .ok (int (Int64.ofInt (o.apply m n))) := by
  obtain ⟨a, ha, rfl⟩ := coerced_of_number? hv
  obtain ⟨b, hb, rfl⟩ := coerced_of_number? hw
  rw [binary_of_coerced ha hb, intBinary_of_fits h]

theorem binary_of_not_fits (h : ¬o.Fits m n) (mem : Memory H) :
    ∃ f, v.binary mem o.operator w = .error f ∧ f.IsArithmetic := by
  obtain ⟨a, ha, rfl⟩ := coerced_of_number? hv
  obtain ⟨b, hb, rfl⟩ := coerced_of_number? hw
  rw [binary_of_coerced ha hb]
  exact intBinary_of_not_fits h

end

end Value

/-- Expressions of arithmetic. -/
inductive Arithmetic where
  | int (n : Int64)
  | bool (b : Bool)
  | var (name : String)
  | neg (a : Arithmetic)
  | op (o : Arithmetic.Operation) (a b : Arithmetic)

namespace Arithmetic

/-- The exact value. -/
def value (ρ : String → Int) : Arithmetic → Int
  | int n => n.toInt
  | bool b => if b then 1 else 0
  | var name => ρ name
  | neg a => -a.value ρ
  | op o a b => o.apply (a.value ρ) (b.value ρ)

/-- Every operation is defined, and every result of one is a 64-bit integer. -/
def IsExact (ρ : String → Int) : Arithmetic → Prop
  | int _ | bool _ | var _ => True
  | neg a => a.IsExact ρ ∧ Number.inInt64 (-a.value ρ)
  | op o a b => a.IsExact ρ ∧ b.IsExact ρ ∧ o.Fits (a.value ρ) (b.value ρ)

instance decidableIsExact (ρ : String → Int) : (a : Arithmetic) → Decidable (a.IsExact ρ)
  | int _ | bool _ | var _ => isTrue trivial
  | neg a =>
    have := decidableIsExact ρ a
    inferInstanceAs (Decidable (a.IsExact ρ ∧ Number.inInt64 (-a.value ρ)))
  | op o a b =>
    have := decidableIsExact ρ a
    have := decidableIsExact ρ b
    inferInstanceAs (Decidable (a.IsExact ρ ∧ b.IsExact ρ ∧ o.Fits (a.value ρ) (b.value ρ)))

def vars : Arithmetic → List String
  | int _ | bool _ => []
  | var name => [name]
  | neg a => a.vars
  | op _ a b => a.vars ++ b.vars

def IsOperation : Arithmetic → Prop
  | int _ | bool _ | var _ => False
  | neg _ | op _ _ _ => True

/-- The trees that stand for arithmetic. -/
inductive Writes : Arithmetic → Expr → Prop
  | int (n : Int64) (span : Span) : Writes (int n) (.literal span (.int n))
  | bool (b : Bool) (span : Span) : Writes (bool b) (.literal span (.bool b))
  | var (name : String) (span : Span) : Writes (var name) (.ident span name)
  | neg {a : Arithmetic} {e : Expr} (span : Span) : Writes a e → Writes (neg a) (.ofUnary .sub span e)
  | op (o : Operation) {a b : Arithmetic} {left right : Expr} (span : Span) :
      Writes a left → Writes b right → Writes (op o a b) (.binary span o.operator left right)

/-- The variables are there, and hold these numbers. -/
def Reads (b : Bindings) (ρ : String → Int) (a : Arithmetic) : Prop :=
  ∀ name ∈ a.vars, ∃ x, b.find? name = some x ∧ x.get.number? = some (ρ name)

theorem Writes.compiles {a : Arithmetic} {e : Expr} (h : a.Writes e) {scope : Scope}
    (hvars : ∀ name ∈ a.vars, scope.isVariable name = true) :
    ∃ p, Program.ofExpr scope e = .ok p := by
  have binary {left right : Expr} (span : Span) (op : Operator)
      (hl : ∃ p, Program.ofExpr scope left = .ok p) (hr : ∃ p, Program.ofExpr scope right = .ok p) :
      ∃ p, Program.ofExpr scope (.binary span op left right) = .ok p := by
    obtain ⟨l, hl⟩ := hl
    obtain ⟨r, hr⟩ := hr
    refine ⟨l ++ r ++ [.binary span op], ?_⟩
    rw [Program.ofExpr, hl, hr]
    rfl
  have literal (span : Span) (value : Literal) :
      ∃ p, Program.ofExpr scope (.literal span value) = .ok p :=
    ⟨[.push span value], by rw [Program.ofExpr]⟩
  induction h with
  | int n span => exact literal span (.int n)
  | bool b span => exact literal span (.bool b)
  | var name span =>
      refine ⟨[.load span name], ?_⟩
      rw [Program.ofExpr, Scope.variableOr, if_pos (hvars name (by simp [vars]))]
  | neg span _ ih => exact binary _ .mul (literal span (.int (-1))) (ih hvars)
  | op o span _ _ ihl ihr =>
      exact binary span o.operator (ihl fun name hn => hvars name (List.mem_append_left _ hn))
        (ihr fun name hn => hvars name (List.mem_append_right _ hn))

section

variable {H : Host} {r : Registry H} {scope : Scope} {ρ : String → Int} {w : World H}

/-- What the evaluation of an expression ends in: its exact value if there is one, which is an int
unless nothing was computed, and else a fault of arithmetic. It changes nothing. -/
def Outcome (ρ : String → Int) (a : Arithmetic) (w : World H)
    (x : EStateM.Result EvalError (World H) Value) : Prop :=
  a.IsExact ρ ∧ (∃ v, x = .ok v w ∧ v.number? = some (a.value ρ) ∧ (a.IsOperation → ∃ n, v = .int n)) ∨
    ¬a.IsExact ρ ∧ ∃ e : EvalError, x = .error e w ∧ e.fault.IsArithmetic

theorem outcome_of_number {a : Arithmetic} (ha : a.IsExact ρ) (hoperation : ¬a.IsOperation) {v : Value}
    (hv : v.number? = some (a.value ρ)) : Outcome ρ a w (.ok v w) :=
  .inl ⟨ha, v, rfl, hv, fun h => absurd h hoperation⟩

theorem outcome_literal {a : Arithmetic} (ha : a.IsExact ρ) (hoperation : ¬a.IsOperation)
    {value : Literal} (hvalue : (Value.ofLiteral value).number? = some (a.value ρ)) (span : Span) :
    Outcome ρ a w ((Expr.literal span value).eval r scope w) := by
  rw [Expr.eval]
  exact outcome_of_number ha hoperation hvalue

theorem outcome_load {name : String} {x : Variable} (hx : w.bindings.find? name = some x)
    (hnumber : x.get.number? = some (ρ name)) (span : Span) :
    Outcome ρ (.var name) w ((Expr.ident span name).eval r scope w) := by
  have hadmits : r.directory.Admits x.get := by
    rw [Directory.Admits]
    cases hv : x.get with
    | int | bool => rfl
    | null | float | string | enum | object | typeRoot => simp [hv, Value.number?] at hnumber
  have hcopy : r.copyOnLoad x.get w.memory = .ok x.get w.memory := by
    cases hv : x.get with
    | int | bool => rfl
    | null | float | string | enum | object | typeRoot => simp [hv, Value.number?] at hnumber
  rw [Expr.eval, Eval.located_ok (Eval.load_ok hx hadmits hcopy)]
  exact outcome_of_number (a := .var name) trivial (fun h => h) hnumber

section

variable {op : Operator} {x y : Value}

theorem located_binary_of_ok {v : Value} (h : x.binary w.memory op y = .ok v) (span : Span) :
    Eval.located span (do x.binary (← Eval.memory) op y) w = .ok v w := by
  have hrun : (do x.binary (← Eval.memory) op y : Eval H Value) w =
      (liftM (x.binary w.memory op y) : Eval H Value) w := rfl
  rw [Eval.located, hrun, h]
  rfl

theorem located_binary_of_error {f : Fault} (h : x.binary w.memory op y = .error f) (span : Span) :
    Eval.located span (do x.binary (← Eval.memory) op y) w = .error ((EvalError.of f).orSpan span) w := by
  have hrun : (do x.binary (← Eval.memory) op y : Eval H Value) w =
      (liftM (x.binary w.memory op y) : Eval H Value) w := rfl
  rw [Eval.located, hrun, h]
  rfl

end

/-- An operation comes to its operands from left to right, and then fits or not. -/
theorem Outcome.op {a b : Arithmetic} {left right : Expr} (hleft : Outcome ρ a w (left.eval r scope w))
    (hright : Outcome ρ b w (right.eval r scope w)) (o : Operation) (span : Span) :
    Outcome ρ (.op o a b) w ((Expr.binary span o.operator left right).eval r scope w) := by
  rw [Expr.eval]
  rcases hleft with ⟨ha, x, hx, hm, -⟩ | ⟨ha, e, he, hfault⟩
  · rw [run_bind_of_ok hx]
    rcases hright with ⟨hb, y, hy, hn, -⟩ | ⟨hb, e, he, hfault⟩
    · rw [run_bind_of_ok hy]
      by_cases hfits : o.Fits (a.value ρ) (b.value ρ)
      · have hbinary := Value.binary_of_fits hm hn hfits w.memory
        have hresult : (Value.int (Int64.ofInt (o.apply (a.value ρ) (b.value ρ)))).number? =
            some ((Arithmetic.op o a b).value ρ) :=
          congrArg some (Number.toInt_ofInt hfits.2)
        exact .inl ⟨⟨ha, hb, hfits⟩, _, located_binary_of_ok hbinary span, hresult, fun _ => ⟨_, rfl⟩⟩
      · obtain ⟨f, hf, hfault⟩ := Value.binary_of_not_fits hm hn hfits w.memory
        exact .inr ⟨fun h => hfits h.2.2, _, located_binary_of_error hf span, hfault⟩
    · rw [run_bind_of_error he]
      exact .inr ⟨fun h => hb h.2.1, e, rfl, hfault⟩
  · rw [run_bind_of_error he]
    exact .inr ⟨fun h => ha h.1, e, rfl, hfault⟩

/-- A minus stands for a multiplication by `-1`, which is exact where the negation is. -/
theorem outcome_neg {a : Arithmetic} {x : EStateM.Result EvalError (World H) Value}
    (h : Outcome ρ (.op .mul (.int (-1)) a) w x) : Outcome ρ (.neg a) w x := by
  have hvalue : (Arithmetic.op .mul (.int (-1)) a).value ρ = (Arithmetic.neg a).value ρ :=
    Int.neg_one_mul (a.value ρ)
  have hexact : (Arithmetic.op .mul (.int (-1)) a).IsExact ρ ↔ (Arithmetic.neg a).IsExact ρ := by
    change True ∧ a.IsExact ρ ∧ True ∧ Number.inInt64 ((Arithmetic.op .mul (.int (-1)) a).value ρ) ↔
      a.IsExact ρ ∧ Number.inInt64 ((Arithmetic.neg a).value ρ)
    rw [hvalue, true_and, true_and]
  rw [Outcome, ← hvalue, ← hexact]
  exact h

/-- Evaluation of arithmetic is exact, or it is refused. -/
theorem Writes.outcome {a : Arithmetic} {e : Expr} (h : a.Writes e) (hreads : Reads w.bindings ρ a) :
    Outcome ρ a w (e.eval r scope w) := by
  induction h with
  | int n span => exact outcome_literal (a := .int n) trivial (fun h => h) rfl span
  | bool b span => exact outcome_literal (a := .bool b) trivial (fun h => h) rfl span
  | var name span =>
      obtain ⟨x, hx, hnumber⟩ := hreads name (List.mem_singleton_self name)
      exact outcome_load hx hnumber span
  | neg span _ ih =>
      have hminus : Outcome ρ (.int (-1)) w ((Expr.literal span (.int (-1))).eval r scope w) :=
        outcome_literal (a := .int (-1)) trivial (fun h => h) rfl span
      exact outcome_neg (hminus.op (ih hreads) .mul _)
  | op o span _ _ ihl ihr =>
      exact (ihl fun name hn => hreads name (List.mem_append_left _ hn)).op
        (ihr fun name hn => hreads name (List.mem_append_right _ hn)) o span

end

end Arithmetic

/-- The tokens that arithmetic is written with. -/
def Token.Kind.IsArithmetic : Token.Kind → Prop
  | int _ | bool _ | ident _ => True
  | op o => ∃ operation : Arithmetic.Operation, operation.operator = o
  | mark m => m = .leftParen ∨ m = .rightParen
  | float _ | string _ | null => False

namespace Token.Kind

variable {k : Token.Kind}

theorem paren_of_isArithmetic (h : k.IsArithmetic) {m : Mark} (hk : k = .mark m) :
    m = .leftParen ∨ m = .rightParen := by
  subst hk
  exact h

theorem operation_of_isArithmetic (h : k.IsArithmetic) {op : Operator} (hk : k = .op op) :
    ∃ o : Arithmetic.Operation, o.operator = op := by
  subst hk
  exact h

theorem exists_writes_of_literal (h : k.IsArithmetic) {value : Literal} (hvalue : k.literal? = some value)
    (span : Span) : ∃ a : Arithmetic, a.Writes (.literal span value) := by
  cases k with
  | int n =>
      obtain rfl := Option.some.inj hvalue
      exact ⟨.int n, .int n span⟩
  | bool b =>
      obtain rfl := Option.some.inj hvalue
      exact ⟨.bool b, .bool b span⟩
  | ident | op | mark => cases hvalue
  | float | string | null => exact h.elim

end Token.Kind

/-- What the tokens of arithmetic make up is arithmetic. -/
theorem Expr.Makes.writes {ts : List Token} {p : Phrase} (h : Makes ts p)
    (hts : ∀ t ∈ ts, t.kind.IsArithmetic) : ∀ e, p = .expr e → ∃ a : Arithmetic, a.Writes e := by
  induction h with
  | @literal t value hvalue =>
      rintro e ⟨⟩
      exact Token.Kind.exists_writes_of_literal (hts t (by simp)) hvalue t.span
  | @ident t name =>
      rintro e ⟨⟩
      exact ⟨.var name, .var name t.span⟩
  | group _ ih => exact ih fun t ht => hts t (by simp [ht])
  | @member dot t ts receiver name hdot _ _ _ =>
      rcases Token.Kind.paren_of_isArithmetic (hts dot (by simp)) hdot with h | h <;> cases h
  | @call dot t ts os us receiver method typeArgs args closed hdot _ _ _ _ _ _ =>
      rcases Token.Kind.paren_of_isArithmetic (hts dot (by simp)) hdot with h | h <;> cases h
  | @unary t ts op operand hkind hop _ ih =>
      rintro e ⟨⟩
      obtain ⟨a, ha⟩ := ih (fun u hu => hts u (by simp [hu])) operand rfl
      obtain ⟨o, rfl⟩ := Token.Kind.operation_of_isArithmetic (hts t (by simp)) hkind
      -- the minus is the only sign among the operations
      obtain rfl : o = .sub := by cases o <;> simp [Arithmetic.Operation.operator] at hop ⊢
      exact ⟨.neg a, .neg t.span ha⟩
  | @binary t ts us op left right hkind _ _ ihl ihr =>
      rintro e ⟨⟩
      obtain ⟨a, ha⟩ := ihl (fun u hu => hts u (by simp [hu])) left rfl
      obtain ⟨b, hb⟩ := ihr (fun u hu => hts u (by simp [hu])) right rfl
      obtain ⟨o, rfl⟩ := Token.Kind.operation_of_isArithmetic (hts t (by simp)) hkind
      exact ⟨.op o a b, .op o _ ha hb⟩
  | @ternary question colon ts us vs cond yes no hquestion _ _ _ _ _ _ =>
      rcases Token.Kind.paren_of_isArithmetic (hts question (by simp)) hquestion with h | h <;> cases h
  | @assignment t ts us op target value hkind hop _ _ _ _ =>
      obtain ⟨o, rfl⟩ := Token.Kind.operation_of_isArithmetic (hts t (by simp)) hkind
      cases o <;> cases hop
  | noArguments | lastArgument | argument => rintro e ⟨⟩

theorem Fault.IsArithmetic.not_isSoft {f : Fault} (h : f.IsArithmetic) : f.isSoft = false := by
  rw [isSoft]
  rcases h with h | h <;> rw [h] <;> rfl

theorem Fault.IsArithmetic.text_code {f : Fault} (h : f.IsArithmetic) :
    f.code.text = "E6001" ∨ f.code.text = "E6002" := by
  rcases h with h | h <;> rw [h]
  · exact .inl rfl
  · exact .inr rfl

theorem Arithmetic.Reads.isVariable {b : Bindings} {ρ : String → Int} {a : Arithmetic}
    (h : a.Reads b ρ) (types : Directory) :
    ∀ name ∈ a.vars, (Scope.of types b).isVariable name = true := by
  intro name hname
  obtain ⟨x, hx, -⟩ := h name hname
  change (b.find? name).isSome = true
  rw [hx]
  rfl

namespace Engine

variable {H : Host}

section

variable {e : Engine H} {s : Session H} {formula : String} {span : Span} {ts : TokenList} {tree : Expr}
  {a : Arithmetic} {ρ : String → Int} (hs : s.cache.Coherent e) (hsplit : Statement.split formula = [span])
  (hscan : TokenList.scan formula span = .ok ts) (hparse : Expr.ofTokens e.config.maxHops ts = .ok tree)
  (ha : a.Writes tree) (hreads : a.Reads s.world.bindings ρ) (uid : String)

include hs hsplit hscan hparse ha hreads

theorem effect_of_isExact (hoperation : a.IsOperation) (hexact : a.IsExact ρ) :
    ∃ n : Int64, n.toInt = a.value ρ ∧ e.effect uid formula s = (.ok ⟨[.int n], []⟩, s.world) := by
  let scope := Scope.of e.registry.directory s.world.bindings
  obtain ⟨p, hcompile⟩ : ∃ p, Program.ofExpr scope tree = .ok p := ha.compiles (hreads.isVariable _)
  have houtcome : a.Outcome ρ s.world (tree.eval e.registry scope s.world) := ha.outcome hreads
  rcases houtcome with ⟨-, v, hrun, hnumber, hint⟩ | ⟨hnot, -⟩
  · obtain ⟨n, rfl⟩ := hint hoperation
    exact ⟨n, Option.some.inj hnumber, effect_single_of_ok hs hsplit hscan hparse hcompile hrun uid⟩
  · exact absurd hexact hnot

theorem effect_of_not_isExact (hnot : ¬a.IsExact ρ) :
    ∃ err : EvalError, (err.fault.code.text = "E6001" ∨ err.fault.code.text = "E6002") ∧
      e.effect uid formula s = (.error err, s.world) := by
  let scope := Scope.of e.registry.directory s.world.bindings
  obtain ⟨p, hcompile⟩ : ∃ p, Program.ofExpr scope tree = .ok p := ha.compiles (hreads.isVariable _)
  have houtcome : a.Outcome ρ s.world (tree.eval e.registry scope s.world) := ha.outcome hreads
  rcases houtcome with ⟨hexact, -⟩ | ⟨-, err, hrun, hfault⟩
  · exact absurd hexact hnot
  · exact ⟨err.inStatement (span.slice formula), hfault.text_code,
      effect_single_of_error hs hsplit hscan hparse hcompile hrun hfault.not_isSoft uid⟩

end

/-- Integer arithmetic is exact or refused. A statement of operators `+ - * / %`, parentheses, ints,
booleans and variables that hold ints or booleans yields an int exactly if every operation is defined
and every result of one is a 64-bit integer. The int is then the exact value, and otherwise the error is
a zero divisor or an overflow. -/
theorem effect_arithmetic (e : Engine H) (s : Session H) (hs : s.cache.Coherent e)
    (uid formula : String) {span : Span} {ts : TokenList} {tree : Expr}
    (hsplit : Statement.split formula = [span]) (hscan : TokenList.scan formula span = .ok ts)
    (hparse : Expr.ofTokens e.config.maxHops ts = .ok tree)
    (htokens : ∀ t ∈ ts.tokens, t.kind.IsArithmetic) :
    (∃ a : Arithmetic, a.Writes tree) ∧
      ∀ a : Arithmetic, a.Writes tree → a.IsOperation →
        ∀ ρ : String → Int, a.Reads s.world.bindings ρ →
          (∀ n : Int64, (e.effect uid formula s).1 = .ok ⟨[.int n], []⟩ ↔
            a.IsExact ρ ∧ n.toInt = a.value ρ) ∧
          (¬a.IsExact ρ → ∃ err : EvalError, (e.effect uid formula s).1 = .error err ∧
            (err.fault.code.text = "E6001" ∨ err.fault.code.text = "E6002")) ∧
          (e.effect uid formula s).2 = s.world := by
  refine ⟨(Expr.makes_of_ofTokens hparse).writes htokens tree rfl, fun a ha hoperation ρ hreads => ?_⟩
  by_cases hexact : a.IsExact ρ
  · obtain ⟨i, hvalue, heffect⟩ :=
      effect_of_isExact hs hsplit hscan hparse ha hreads uid hoperation hexact
    rw [heffect]
    refine ⟨fun n => ?_, fun h => absurd hexact h, rfl⟩
    constructor
    · intro h
      obtain rfl : i = n := by simpa using h
      exact ⟨hexact, hvalue⟩
    · rintro ⟨-, hn⟩
      rw [Int64.toInt_inj.mp (hn.trans hvalue.symm)]
  · obtain ⟨err, hcode, heffect⟩ := effect_of_not_isExact hs hsplit hscan hparse ha hreads uid hexact
    rw [heffect]
    refine ⟨fun n => ?_, fun _ => ⟨err, rfl, hcode⟩, rfl⟩
    constructor
    · intro h
      cases h
    · rintro ⟨h, -⟩
      exact absurd h hexact

end Engine

/-- The least integer and a boolean. -/
def Sample.corner : Session Sample.host where
  world := ⟨Sample.memory, ⟨[.infer "m" (.int Int64.minValue), .infer "t" (.bool true)]⟩⟩
  cache := .empty

/-- The negation of the least integer plus one is the greatest integer. -/
theorem Engine.effect_arithmetic_corner :
    let e : Engine Sample.host := ⟨Sample.registry, .default⟩
    let formula := "-(m + t) / 2"
    let ts : TokenList := ⟨[⟨.op .sub, ⟨0, 1⟩⟩, ⟨.mark .leftParen, ⟨1, 2⟩⟩, ⟨.ident "m", ⟨2, 3⟩⟩,
      ⟨.op .add, ⟨4, 5⟩⟩, ⟨.ident "t", ⟨6, 7⟩⟩, ⟨.mark .rightParen, ⟨7, 8⟩⟩, ⟨.op .div, ⟨9, 10⟩⟩,
      ⟨.int 2, ⟨11, 12⟩⟩], 12⟩
    let sum : Expr := .binary ⟨2, 7⟩ .add (.ident ⟨2, 3⟩ "m") (.ident ⟨6, 7⟩ "t")
    let tree : Expr := .binary ⟨0, 12⟩ .div (.ofUnary .sub ⟨0, 1⟩ sum) (.literal ⟨11, 12⟩ (.int 2))
    let a : Arithmetic := .op .div (.neg (.op .add (.var "m") (.var "t"))) (.int 2)
    let ρ : String → Int := fun name => if name = "m" then Number.minInt64 else 1
    Sample.corner.cache.Coherent e ∧ Statement.split formula = [⟨0, 12⟩] ∧
      TokenList.scan formula ⟨0, 12⟩ = .ok ts ∧ Expr.ofTokens e.config.maxHops ts = .ok tree ∧
      (∀ t ∈ ts.tokens, t.kind.IsArithmetic) ∧ a.Writes tree ∧ a.IsOperation ∧
      a.Reads Sample.corner.world.bindings ρ ∧ a.IsExact ρ ∧ a.value ρ = 4611686018427387903 ∧
      (e.effect "f" formula Sample.corner).1 = .ok ⟨[.int 4611686018427387903], []⟩ := by
  intro e formula ts sum tree a ρ
  have hs : Sample.corner.cache.Coherent e := Cache.coherent_empty
  have hsplit : Statement.split formula = [⟨0, 12⟩] := by decide +kernel
  have hscan : TokenList.scan formula ⟨0, 12⟩ = .ok ts := by cbv
  have hparse : Expr.ofTokens e.config.maxHops ts = .ok tree := by cbv
  have htokens : ∀ t ∈ ts.tokens, t.kind.IsArithmetic := by
    simp only [ts, List.forall_mem_cons]
    exact ⟨⟨.sub, rfl⟩, .inl rfl, trivial, ⟨.add, rfl⟩, trivial, .inr rfl, ⟨.div, rfl⟩, trivial, by simp⟩
  have ha : a.Writes tree :=
    .op .div _ (.neg _ (.op .add _ (.var "m" _) (.var "t" _))) (.int 2 _)
  have hreads : a.Reads Sample.corner.world.bindings ρ := by
    intro name hname
    obtain rfl | rfl : name = "m" ∨ name = "t" := by simpa [a, Arithmetic.vars] using hname
    · exact ⟨_, rfl, rfl⟩
    · exact ⟨_, rfl, rfl⟩
  have hexact : a.IsExact ρ := by decide
  have hvalue : a.value ρ = 4611686018427387903 := by decide
  obtain ⟨-, heffect⟩ := e.effect_arithmetic Sample.corner hs "f" formula hsplit hscan hparse htokens
  exact ⟨hs, hsplit, hscan, hparse, htokens, ha, trivial, hreads, hexact, hvalue,
    ((heffect a ha trivial ρ hreads).1 4611686018427387903).mpr ⟨hexact, hvalue.symm⟩⟩

end Formula
