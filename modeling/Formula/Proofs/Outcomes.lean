import Formula.Program.Run

/-!
What operators, conversions and the choice of an overload can yield. Whatever they are given, their
faults are not internal ones, apart from that of an operator between two operands that is none.
-/

namespace Formula

theorem bind_eq_ok {ε α β : Type} {x : Except ε α} {f : α → Except ε β} {b : β} :
    x >>= f = .ok b ↔ ∃ a, x = .ok a ∧ f a = .ok b := by
  cases x <;> simp [bind, Except.bind]

theorem bind_eq_error {ε α β : Type} {x : Except ε α} {f : α → Except ε β} {e : ε} :
    x >>= f = .error e ↔ x = .error e ∨ ∃ a, x = .ok a ∧ f a = .error e := by
  cases x <;> simp [bind, Except.bind]

def Fault.IsInternal (f : Fault) : Prop := f.code = .malformedProgram

/-- A result of which `P` holds, or a fault that is not internal. -/
def Yields {α : Type} (x : Except Fault α) (P : α → Prop) : Prop :=
  match x with
  | .ok a => P a
  | .error f => ¬f.IsInternal

namespace Yields

variable {α β : Type} {x : Except Fault α} {P Q : α → Prop}

theorem error {f : Fault} (h : f.code ≠ .malformedProgram) : Yields (.error f : Except Fault α) P := h

theorem imp (h : Yields x P) (hPQ : ∀ a, P a → Q a) : Yields x Q := by
  cases x with
  | ok a => exact hPQ a h
  | error f => exact h

theorem bind {f : α → Except Fault β} {R : β → Prop} (hx : Yields x P)
    (hf : ∀ a, P a → Yields (f a) R) : Yields (x >>= f) R := by
  cases x with
  | ok a => exact hf a hx
  | error f => exact hx

theorem map {f : α → β} {R : β → Prop} (hx : Yields x P) (hf : ∀ a, P a → R (f a)) :
    Yields (x.map f) R := by
  cases x with
  | ok a => exact hf a hx
  | error f => exact hx

theorem of_ok {a : α} (h : Yields x P) (hx : x = .ok a) : P a := by
  subst hx
  exact h

end Yields

/-- The variants that the registered type of a name declares. -/
def Directory.Declares (types : Directory) (name : String) (e : EnumValue) : Prop :=
  ∃ info, types.find? name = some info ∧
    ((∃ variant, info.variant? variant = some e) ∨ ∃ ordinal, info.variantAt? ordinal = some e)

theorem Directory.variant_yields (types : Directory) (name variant : String) :
    Yields (types.variant name variant) (types.Declares name) := by
  rw [Directory.variant]
  cases hi : types.find? name with
  | none => exact .error (by simp [Fault.code])
  | some info =>
      simp only
      cases he : info.variant? variant with
      | none => exact .error (by simp [Fault.code])
      | some e => exact ⟨info, hi, .inl ⟨variant, he⟩⟩

theorem Directory.checkAllowed_yields (types : Directory) (v : Value) :
    Yields (types.checkAllowed v) fun _ => True := by
  cases v with
  | object o =>
      rw [Directory.checkAllowed]
      split
      · trivial
      · exact .error (by simp [Fault.code])
  | enum e =>
      rw [Directory.checkAllowed]
      split
      · trivial
      · exact .error (by simp [Fault.code])
  | null | bool | int | float | string | typeRoot => trivial

namespace Value

variable {H : Host}

/-- Neither an object nor an enumeration value, and no type. -/
def IsScalar : Value → Prop
  | null | bool _ | int _ | float _ | string _ => True
  | _ => False

theorem exactInt_yields (operation : String) (n : Int) : Yields (exactInt operation n) IsScalar := by
  rw [exactInt]
  split
  · trivial
  · exact .error (by simp [Fault.code])

theorem divInt_yields (a b : Int64) : Yields (divInt a b) IsScalar := by
  rw [divInt]
  split
  · exact .error (by simp [Fault.code])
  · exact exactInt_yields _ _

theorem modInt_yields (a b : Int64) : Yields (modInt a b) IsScalar := by
  rw [modInt]
  split
  · exact .error (by simp [Fault.code])
  · split
    · exact exactInt_yields _ _
    · exact .error (by simp [Fault.code])

theorem shiftAmount_yields (b : Int64) : Yields (shiftAmount b) fun _ => True := by
  rw [shiftAmount]
  split
  · trivial
  · exact .error (by simp [Fault.code])

theorem intBinary_yields (op : Operator) (a b : Int64) : Yields (intBinary op a b) IsScalar := by
  cases op with
  | add | sub | mul => exact exactInt_yields _ _
  | div => exact divInt_yields a b
  | mod => exact modInt_yields a b
  | shiftLeft | shiftRight => exact (shiftAmount_yields b).map fun _ _ => trivial
  | _ => simp [intBinary, Yields, IsScalar, Fault.IsInternal, Fault.code]

theorem floatBinary_yields (op : Operator) (x y : Number.Double) :
    Yields (floatBinary op x y) IsScalar := by
  cases op <;> simp [floatBinary, Yields, IsScalar, Fault.IsInternal, Fault.code]

theorem boolBinary_yields (op : Operator) (a b : Bool) : Yields (boolBinary op a b) IsScalar := by
  cases op <;> simp [boolBinary, Yields, IsScalar, Fault.IsInternal, Fault.code]

theorem plainBinary_yields (op : Operator) (left right : Value) :
    Yields (plainBinary op left right) IsScalar := by
  rw [plainBinary.eq_def]
  split
  · exact intBinary_yields ..
  · exact floatBinary_yields ..
  · exact floatBinary_yields ..
  · exact floatBinary_yields ..
  · exact boolBinary_yields ..
  · exact .error (by simp [Fault.code])

/-- The fault of an operator that does not stand between two operands. -/
def notBinary (op : Operator) : Fault := .internal ("`" ++ op.symbol ++ "` is not a binary operator")

theorem coercedBinary_yields (m : Memory H) (op : Operator) (left right : Value) :
    Yields (coercedBinary m op left right) IsScalar ∨
      op.isBinary = false ∧ coercedBinary m op left right = .error (notBinary op) := by
  rw [coercedBinary.eq_def]
  split
  · exact .inl trivial
  · exact .inl trivial
  · split
    · exact .inl trivial
    · split
      · exact .inl (plainBinary_yields ..)
      · next h => exact .inr ⟨by simpa using h, rfl⟩

theorem binary_yields (m : Memory H) (op : Operator) (left right : Value) :
    Yields (binary m op left right) IsScalar ∨
      op.isBinary = false ∧ binary m op left right = .error (notBinary op) := by
  rw [binary]
  split <;> exact coercedBinary_yields ..

/-- What a conversion makes of a value: a scalar of the target type, or a variant that the target
declares. -/
def Remade (types : Directory) (target : TypeTag) (w : Value) : Prop :=
  w.IsScalar ∧ w.typeTag = target ∨
    ∃ name e, target = .enum name ∧ w = .enum e ∧ types.Declares name e

theorem convertOther_yields (types : Directory) (m : Memory H) (v : Value) (target : TypeTag) :
    Yields (v.convertOther types m target) (Remade types target) := by
  have refused (P : Value → Prop) : Yields (.error (.notConvertible (m.describe v) target.name)) P :=
    .error (by simp [Fault.code])
  rw [convertOther.eq_def]
  cases target with
  | int => cases v.toInt? with
    | none => exact refused _
    | some n => exact .inl ⟨trivial, rfl⟩
  | float => cases v.toFloat? with
    | none => exact refused _
    | some x => exact .inl ⟨trivial, rfl⟩
  | bool => cases v.toBool? with
    | none => exact refused _
    | some b => exact .inl ⟨trivial, rfl⟩
  | string => exact .inl ⟨trivial, rfl⟩
  | object | null => exact refused _
  | enum name =>
      cases v with
      | string s =>
          exact (types.variant_yields name _).map fun e he => .inr ⟨name, e, rfl, rfl, he⟩
      | int n =>
          simp only [Directory.typeOf, TypeTag.name]
          cases hi : types.find? name with
          | none => exact .error (by simp [Fault.code])
          | some info =>
              simp only [bind, Except.bind]
              cases he : info.variantAt? n with
              | none => exact .error (by simp [Fault.code])
              | some e => exact .inr ⟨name, e, rfl, rfl, info, hi, .inr ⟨n, he⟩⟩
      | null | bool | float | enum | object | typeRoot => exact refused _

theorem convert_yields (types : Directory) (m : Memory H) (v : Value) (target : TypeTag) :
    Yields (v.convert types m target) fun w =>
      w = v ∧ (v = .null ∨ target = .null ∨ v.typeTag = target) ∨ Remade types target w := by
  rw [convert]
  split
  · next h =>
    refine .inl ⟨rfl, ?_⟩
    simp only [Bool.or_eq_true, beq_iff_eq, or_assoc] at h
    refine h.imp_left fun hn => ?_
    cases v <;> simp [isNull] at hn ⊢
  · exact (convertOther_yields types m v target).imp fun _ => .inr

end Value

namespace ParamType

/-- What a parameter makes of an argument: nothing else, or a variant of its enumeration. -/
def Accepts (types : Directory) (p : ParamType) (v w : Value) : Prop :=
  w = v ∧ (p = .any ∨ p = .exact v.typeTag) ∨
    ∃ name e, p = .exact (.enum name) ∧ w = .enum e ∧ types.Declares name e

inductive AcceptsAll (types : Directory) : List ParamType → List Value → List Value → Prop
  | nil : AcceptsAll types [] [] []
  | cons {p v w ps vs ws} : p.Accepts types v w → AcceptsAll types ps vs ws →
      AcceptsAll types (p :: ps) (v :: vs) (w :: ws)

theorem accept_yields (types : Directory) (p : ParamType) (v : Value) :
    Yields (p.accept types v) fun w? => ∀ w, w? = some w → p.Accepts types v w := by
  rw [accept.eq_def]
  cases p with
  | any =>
      rintro w ⟨⟩
      exact .inl ⟨rfl, .inl rfl⟩
  | exact tag =>
      simp only
      by_cases ht : tag = v.typeTag
      · rw [if_pos ht]
        rintro w ⟨⟩
        exact .inl ⟨rfl, .inr (by rw [ht])⟩
      · rw [if_neg ht]
        split
        · refine (types.variant_yields _ _).map fun e he w hw => ?_
          exact .inr ⟨_, e, rfl, (Option.some.inj hw).symm, he⟩
        · rintro w ⟨⟩

theorem acceptAll_yields (types : Directory) (ps : List ParamType) (vs : List Value) :
    Yields (acceptAll types ps vs) fun ws? => ∀ ws, ws? = some ws → AcceptsAll types ps vs ws := by
  induction ps generalizing vs with
  | nil =>
      cases vs with
      | nil =>
          rintro ws ⟨⟩
          exact .nil
      | cons v vs => rintro ws ⟨⟩
  | cons p ps ih =>
      cases vs with
      | nil => rintro ws ⟨⟩
      | cons v vs =>
          rw [acceptAll]
          refine (accept_yields types p v).bind fun w? hw => ?_
          cases w? with
          | none => rintro ws ⟨⟩
          | some w =>
              refine (ih vs).bind fun ws? hws us hus => ?_
              obtain ⟨ws, rfl, rfl⟩ := Option.map_eq_some_iff.mp hus
              exact .cons (hw w rfl) (hws ws rfl)

theorem AcceptsAll.mem {types : Directory} {ps : List ParamType} {vs ws : List Value}
    (h : AcceptsAll types ps vs ws) {w : Value} (hw : w ∈ ws) :
    w ∈ vs ∨ ∃ name e, w = .enum e ∧ types.Declares name e := by
  induction h with
  | nil => simp at hw
  | cons hv _ ih =>
      rcases List.mem_cons.mp hw with rfl | hw
      · rcases hv with ⟨rfl, -⟩ | ⟨name, e, -, rfl, he⟩
        · exact .inl (List.mem_cons_self ..)
        · exact .inr ⟨name, e, rfl, he⟩
      · exact (ih hw).imp_left (List.mem_cons_of_mem _)

end ParamType

namespace Method

variable {H : Host}

/-- An overload that takes the arguments, with what it gets. -/
def Fits (types : Directory) (args : List Value) (typeArgs : List TypeTag) (f : Method H)
    (ws : List Value) : Prop :=
  f.generics = typeArgs.length ∧ ParamType.AcceptsAll types f.params args ws

theorem firstAccepting_ok {types : Directory} {args ws : List Value} {typeArgs : List TypeTag}
    {fault? : Option Fault} {fs : List (Method H)} {f : Method H}
    (h : firstAccepting types args typeArgs fault? fs = .ok (f, ws)) :
    f ∈ fs ∧ f.Fits types args typeArgs ws := by
  induction fs generalizing fault? with
  | nil => simp [firstAccepting] at h
  | cons g fs ih =>
      rw [firstAccepting] at h
      have tail {fault? : Option Fault}
          (h : firstAccepting types args typeArgs fault? fs = .ok (f, ws)) :
          f ∈ g :: fs ∧ f.Fits types args typeArgs ws := (ih h).imp_left (List.mem_cons_of_mem _)
      split at h
      · next hfit =>
        have ha := ParamType.acceptAll_yields types g.params args
        cases hr : ParamType.acceptAll types g.params args with
        | error fault => rw [hr] at h; exact tail h
        | ok ws? =>
            cases ws? with
            | none => rw [hr] at h; exact tail h
            | some us =>
                rw [hr] at h
                obtain ⟨rfl, rfl⟩ := Prod.mk.inj (Except.ok.inj h)
                simp only [fits, Bool.and_eq_true, beq_iff_eq] at hfit
                exact ⟨List.mem_cons_self .., hfit.2, ha.of_ok hr us rfl⟩
      · exact tail h

theorem firstAccepting_error {types : Directory} {args : List Value} {typeArgs : List TypeTag}
    {fault? : Option Fault} {fs : List (Method H)} {fault : Fault}
    (h : firstAccepting types args typeArgs fault? fs = .error (some fault))
    (hfault : ∀ f, fault? = some f → ¬f.IsInternal) : ¬fault.IsInternal := by
  induction fs generalizing fault? with
  | nil => exact hfault fault (Except.error.inj h)
  | cons g fs ih =>
      rw [firstAccepting] at h
      split at h
      · have ha := ParamType.acceptAll_yields types g.params args
        cases hr : ParamType.acceptAll types g.params args with
        | error fault' =>
            rw [hr] at h ha
            refine ih h fun f hf => ?_
            rcases Option.or_eq_some_iff.mp hf with hf | ⟨-, hf⟩
            · exact hfault f hf
            · exact Option.some.inj hf ▸ ha
        | ok ws? =>
            cases ws? with
            | none => rw [hr] at h; exact ih h hfault
            | some us => rw [hr] at h; simp at h
      · exact ih h hfault

theorem select_yields (types : Directory) (owner name : String)
    (overloads? : Option (List (Method H))) (args : List Value) (typeArgs : List TypeTag) :
    Yields (select types owner name overloads? args typeArgs) fun (f, ws) =>
      (∃ fs, overloads? = some fs ∧ f ∈ fs) ∧ f.Fits types args typeArgs ws := by
  rw [select.eq_def]
  cases overloads? with
  | none => exact .error (by simp [Fault.code])
  | some fs =>
      simp only
      cases hr : firstAccepting types args typeArgs none fs with
      | ok chosen =>
          have h := firstAccepting_ok hr
          exact ⟨⟨fs, rfl, h.1⟩, h.2⟩
      | error fault? =>
          cases fault? with
          | none => exact .error (by simp [Fault.code])
          | some fault => exact firstAccepting_error hr (by simp)

end Method

end Formula
