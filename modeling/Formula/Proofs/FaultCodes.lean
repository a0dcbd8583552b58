import Formula.Program.Run

/-!
The codes of the faults that the engine raises by itself: in operators and conversions, in the choice of
an overload, and where a type or a member is looked up.
-/

namespace Formula

/-- The computation succeeds, or fails with one of the codes. -/
structure FailsIn {α : Type} (codes : List Code) (x : Except Fault α) : Prop where
  mem : ∀ f, x = .error f → f.code ∈ codes

namespace FailsIn

variable {α β : Type} {codes codes' : List Code} {x : Except Fault α}

theorem ok (codes : List Code) (a : α) : FailsIn codes (.ok a : Except Fault α) := ⟨nofun⟩

theorem error {f : Fault} (h : f.code ∈ codes) : FailsIn codes (.error f : Except Fault α) :=
  ⟨fun _ hf => Except.error.inj hf ▸ h⟩

theorem mono (h : FailsIn codes x) (hsub : codes ⊆ codes') : FailsIn codes' x :=
  ⟨fun f hf => hsub (h.mem f hf)⟩

theorem bind {f : α → Except Fault β} (hx : FailsIn codes x) (hf : ∀ a, FailsIn codes (f a)) :
    FailsIn codes (x >>= f) := by
  cases x with
  | ok a => exact hf a
  | error fault => exact .error (hx.mem fault rfl)

theorem map (hx : FailsIn codes x) (f : α → β) : FailsIn codes (x.map f) := by
  cases x with
  | ok a => exact ok codes (f a)
  | error fault => exact .error (hx.mem fault rfl)

end FailsIn

section

variable (types : Directory)

theorem Directory.typeOf_failsIn (tag : TypeTag) : FailsIn [.unregisteredType] (types.typeOf tag) := by
  rw [Directory.typeOf]
  split
  · exact .ok _ _
  · exact .error (List.mem_singleton_self _)

theorem Directory.variant_failsIn (enumName name : String) :
    FailsIn [.unregisteredType, .unknownVariant] (types.variant enumName name) := by
  rw [Directory.variant]
  split
  · exact .error (by simp [Fault.code])
  · split
    · exact .ok _ _
    · exact .error (by simp [Fault.code])

theorem Directory.checkAllowed_failsIn (v : Value) :
    FailsIn [.unregisteredType] (types.checkAllowed v) := by
  rw [Directory.checkAllowed.eq_def]
  split
  · split
    · exact .ok _ _
    · exact .error (List.mem_singleton_self _)
  · split
    · exact .ok _ _
    · exact .error (List.mem_singleton_self _)
  · exact .ok _ _

end

namespace Value

variable {H : Host}

theorem exactInt_failsIn (operation : String) (n : Int) :
    FailsIn [.integerOverflow] (exactInt operation n) := by
  rw [exactInt]
  split
  · exact .ok _ _
  · exact .error (List.mem_singleton_self _)

theorem divInt_failsIn (a b : Int64) : FailsIn [.zeroDivision, .integerOverflow] (divInt a b) := by
  rw [divInt]
  split
  · exact .error (by simp [Fault.code])
  · exact (exactInt_failsIn _ _).mono (by simp)

theorem modInt_failsIn (a b : Int64) : FailsIn [.zeroDivision, .integerOverflow] (modInt a b) := by
  rw [modInt]
  split
  · exact .error (by simp [Fault.code])
  · split
    · exact (exactInt_failsIn _ _).mono (by simp)
    · exact .error (by simp [Fault.code])

theorem shiftAmount_failsIn (b : Int64) : FailsIn [.shiftOutOfRange] (shiftAmount b) := by
  rw [shiftAmount]
  split
  · exact .ok _ _
  · exact .error (List.mem_singleton_self _)

/-- The codes of arithmetic on two operands of the right types, and on others. -/
def arithmeticCodes : List Code := [.zeroDivision, .integerOverflow, .shiftOutOfRange, .invalidOperands]

theorem intBinary_failsIn (op : Operator) (a b : Int64) : FailsIn arithmeticCodes (intBinary op a b) := by
  cases op with
  | add | sub | mul => exact (exactInt_failsIn _ _).mono (by simp [arithmeticCodes])
  | div => exact (divInt_failsIn a b).mono (by simp [arithmeticCodes])
  | mod => exact (modInt_failsIn a b).mono (by simp [arithmeticCodes])
  | shiftLeft | shiftRight =>
      exact ((shiftAmount_failsIn b).map _).mono (by simp [arithmeticCodes])
  | greater | greaterEqual | less | lessEqual | bitAnd | bitOr | xor => exact .ok _ _
  | _ => exact .error (by simp [Fault.code, arithmeticCodes])

theorem floatBinary_failsIn (op : Operator) (x y : Number.Double) :
    FailsIn arithmeticCodes (floatBinary op x y) := by
  cases op with
  | add | sub | mul | div | mod | greater | greaterEqual | less | lessEqual => exact .ok _ _
  | _ => exact .error (by simp [Fault.code, arithmeticCodes])

theorem boolBinary_failsIn (op : Operator) (a b : Bool) : FailsIn arithmeticCodes (boolBinary op a b) := by
  cases op with
  | and | bitAnd | or | bitOr | xor => exact .ok _ _
  | _ => exact .error (by simp [Fault.code, arithmeticCodes])

theorem plainBinary_failsIn (op : Operator) (left right : Value) :
    FailsIn arithmeticCodes (plainBinary op left right) := by
  rw [plainBinary.eq_def]
  split
  · exact intBinary_failsIn ..
  · exact floatBinary_failsIn ..
  · exact floatBinary_failsIn ..
  · exact floatBinary_failsIn ..
  · exact boolBinary_failsIn ..
  · exact .error (by simp [Fault.code, arithmeticCodes])

theorem coercedBinary_failsIn (m : Memory H) (op : Operator) (left right : Value) :
    FailsIn (.malformedProgram :: arithmeticCodes) (coercedBinary m op left right) := by
  rw [coercedBinary.eq_def]
  split
  · exact .ok _ _
  · exact .ok _ _
  · split
    · exact .ok _ _
    · split
      · exact (plainBinary_failsIn ..).mono (List.subset_cons_self _ _)
      · exact .error (List.mem_cons_self ..)

theorem binary_failsIn (m : Memory H) (op : Operator) (left right : Value) :
    FailsIn (.malformedProgram :: arithmeticCodes) (binary m op left right) := by
  rw [binary]
  split <;> exact coercedBinary_failsIn ..

def conversionCodes : List Code := [.notConvertible, .unregisteredType, .unknownVariant]

theorem convertOther_failsIn (types : Directory) (m : Memory H) (v : Value) (target : TypeTag) :
    FailsIn conversionCodes (v.convertOther types m target) := by
  have refused :
      FailsIn conversionCodes (.error (.notConvertible (m.describe v) target.name) : Except Fault Value) :=
    .error (by simp [Fault.code, conversionCodes])
  rw [convertOther.eq_def]
  cases target with
  | int => cases v.toInt? with
    | none => exact refused
    | some n => exact .ok _ _
  | float => cases v.toFloat? with
    | none => exact refused
    | some x => exact .ok _ _
  | bool => cases v.toBool? with
    | none => exact refused
    | some b => exact .ok _ _
  | object | null => exact refused
  | string => exact .ok _ _
  | enum name =>
      cases v with
      | string s => exact ((types.variant_failsIn name _).map _).mono (by simp [conversionCodes])
      | int n =>
          refine ((types.typeOf_failsIn (.enum name)).mono (by simp [conversionCodes])).bind fun info => ?_
          cases info.variantAt? n with
          | some e => exact .ok _ _
          | none => exact .error (by simp [Fault.code, conversionCodes])
      | null | bool | float | enum | object | typeRoot => exact refused

theorem convert_failsIn (types : Directory) (m : Memory H) (v : Value) (target : TypeTag) :
    FailsIn conversionCodes (v.convert types m target) := by
  rw [convert]
  split
  · exact .ok _ v
  · exact convertOther_failsIn ..

end Value

namespace ParamType

theorem accept_failsIn (types : Directory) (p : ParamType) (v : Value) :
    FailsIn [.unregisteredType, .unknownVariant] (p.accept types v) := by
  rw [accept.eq_def]
  cases p with
  | any => exact .ok _ _
  | exact tag =>
      simp only
      split
      · exact .ok _ _
      · split
        · exact (types.variant_failsIn _ _).map _
        · exact .ok _ _

theorem acceptAll_failsIn (types : Directory) (ps : List ParamType) (vs : List Value) :
    FailsIn [.unregisteredType, .unknownVariant] (acceptAll types ps vs) := by
  fun_induction acceptAll types ps vs with
  | case1 => exact .ok _ _
  | case2 p ps v vs ih =>
      refine (p.accept_failsIn types v).bind fun w? => ?_
      cases w? with
      | none => exact .ok _ _
      | some w => exact ih.bind fun ws? => .ok _ _
  | case3 => exact .ok _ _

end ParamType

namespace Method

variable {H : Host}

theorem code_of_firstAccepting {types : Directory} {args : List Value} {typeArgs : List TypeTag}
    {fault? : Option Fault} {fs : List (Method H)} {fault : Fault}
    (h : firstAccepting types args typeArgs fault? fs = .error (some fault))
    (hfault : ∀ f ∈ fault?, f.code ∈ [.unregisteredType, .unknownVariant]) :
    fault.code ∈ [Code.unregisteredType, .unknownVariant] := by
  fun_induction firstAccepting types args typeArgs fault? fs with
  | case1 => exact hfault fault (Except.error.inj h)
  | case2 => cases h
  | case3 _ _ _ _ _ ih => exact ih h hfault
  | case4 _ g fs _ f hf ih =>
      refine ih h fun f' hf' => ?_
      rcases Option.or_eq_some_iff.mp hf' with hf' | ⟨-, hf'⟩
      · exact hfault f' hf'
      · obtain rfl := Option.some.inj hf'
        exact (ParamType.acceptAll_failsIn types g.params args).mem f hf
  | case5 _ _ _ _ ih => exact ih h hfault

theorem select_failsIn (types : Directory) (owner name : String) (overloads? : Option (List (Method H)))
    (args : List Value) (typeArgs : List TypeTag) :
    FailsIn [.unknownMethod, .noOverload, .unregisteredType, .unknownVariant]
      (select types owner name overloads? args typeArgs) := by
  rw [select.eq_def]
  split
  · exact .error (by simp [Fault.code])
  · split
    · exact .ok _ _
    · next fault h =>
      exact .error (List.mem_cons_of_mem _ (List.mem_cons_of_mem _ (code_of_firstAccepting h (by simp))))
    · exact .error (by simp [Fault.code])

end Method

section

variable {H : Host} (r : Registry H)

theorem Registry.typeOf_failsIn (v : Value) : FailsIn [.unregisteredType] (r.typeOf v) := by
  rw [Registry.typeOf]
  split
  · exact .ok _ _
  · exact .error (List.mem_singleton_self _)

theorem Eval.findMember_failsIn (owner : Value) (name : String) :
    FailsIn [.unregisteredType, .unknownMember] (Eval.findMember r owner name) := by
  refine ((r.typeOf_failsIn owner).mono (by simp)).bind fun t => ?_
  split
  · exact .ok _ _
  · exact .error (by simp [Fault.code])

theorem Program.result_failsIn (stack : List Value) : FailsIn [.malformedProgram] (result stack) := by
  rw [result.eq_def]
  split
  · exact .ok _ _
  · exact .error (List.mem_singleton_self _)
  · exact .error (List.mem_singleton_self _)

end

end Formula
