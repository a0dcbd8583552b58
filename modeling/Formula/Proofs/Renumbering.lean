import Formula.Host.Overload
import Formula.Proofs.Outcomes

/-!
Objects under other numbers. A memory that has been filled in the meantime holds the same objects as
before, and takes on the same new ones, but gives them higher numbers. Equality, texts, operators,
conversions and the choice of an overload do not depend on the numbers.
-/

namespace Formula

variable {H : Host}

/-- Numbers from `first` on are raised by `gap`. -/
structure Renumbering where
  first : Nat
  gap : Nat

namespace Renumbering

variable (ρ : Renumbering)

def number (n : Nat) : Nat := if n < ρ.first then n else n + ρ.gap

def object (o : ObjectRef) : ObjectRef := ⟨ρ.number o.id, o.typeName⟩

def value : Value → Value
  | .object o => .object (ρ.object o)
  | v => v

/-- What belongs to the host is left as it is. -/
def content : Content H → Content H
  | .list items => .list (items.map ρ.value)
  | .host o => .host o

theorem number_of_lt {n : Nat} (h : n < ρ.first) : ρ.number n = n := if_pos h

theorem number_of_le {n : Nat} (h : ρ.first ≤ n) : ρ.number n = n + ρ.gap := if_neg (by omega)

@[simp]
theorem number_inj {m n : Nat} : ρ.number m = ρ.number n ↔ m = n := by
  simp only [number]
  split <;> split <;> omega

@[simp]
theorem beq_number (m n : Nat) : (ρ.number m == ρ.number n) = (m == n) := by
  rw [Bool.eq_iff_iff]
  simp

@[simp]
theorem typeName_object (o : ObjectRef) : (ρ.object o).typeName = o.typeName := rfl

variable (v w : Value)

@[simp]
theorem typeTag_value : (ρ.value v).typeTag = v.typeTag := by cases v <;> rfl

@[simp]
theorem typeName_value : (ρ.value v).typeName = v.typeName := by cases v <;> rfl

@[simp]
theorem isNull_value : (ρ.value v).isNull = v.isNull := by cases v <;> rfl

@[simp]
theorem isTypeRoot_value : (ρ.value v).isTypeRoot = v.isTypeRoot := by cases v <;> rfl

@[simp]
theorem isString_value : (ρ.value v).isString = v.isString := by cases v <;> rfl

@[simp]
theorem int?_value : (ρ.value v).int? = v.int? := by cases v <;> rfl

@[simp]
theorem float?_value : (ρ.value v).float? = v.float? := by cases v <;> rfl

@[simp]
theorem string?_value : (ρ.value v).string? = v.string? := by cases v <;> rfl

@[simp]
theorem object?_value : (ρ.value v).object? = v.object?.map ρ.object := by cases v <;> rfl

@[simp]
theorem coerced_value : (ρ.value v).coerced = ρ.value v.coerced := by cases v <;> rfl

@[simp]
theorem equal_value : (ρ.value v).equal (ρ.value w) = v.equal w := by
  cases v <;> cases w <;> simp [value, object, Value.equal]

variable {v}

theorem value_of_isScalar (h : v.IsScalar) : ρ.value v = v := by
  cases v with
  | null | bool | int | float | string => rfl
  | enum | object | typeRoot => exact h.elim

end Renumbering

/-- `m'` holds what `m` does, under other numbers. -/
structure Memory.Renumbered (ρ : Renumbering) (m m' : Memory H) : Prop where
  state : m'.state = m.state
  size : m'.cells.size = m.cells.size + ρ.gap
  first_le : ρ.first ≤ m.cells.size
  get? : ∀ o, m'.get? (ρ.object o) = (m.get? o).map ρ.content

variable {ρ : Renumbering} {m m' : Memory H}

namespace Memory.Renumbered

variable (h : Renumbered ρ m m')

include h

/-- New objects correspond. -/
theorem alloc (typeName : String) (c : Content H) :
    (m'.alloc typeName (ρ.content c)).1 = ρ.object (m.alloc typeName c).1 ∧
      Renumbered ρ (m.alloc typeName c).2 (m'.alloc typeName (ρ.content c)).2 := by
  have hnumber : ρ.number m.cells.size = m'.cells.size := by rw [ρ.number_of_le h.first_le, h.size]
  refine ⟨by simp [Memory.alloc, Renumbering.object, hnumber], h.state, ?_, ?_, fun o => ?_⟩
  · simp only [Memory.alloc, Array.size_push, h.size]
    omega
  · simpa only [Memory.alloc, Array.size_push] using Nat.le_succ_of_le h.first_le
  · have hget := h.get? o
    by_cases ho : o.id = m.cells.size
    · simp [Memory.alloc, Memory.get?, Renumbering.object, ho, hnumber]
    · rw [get?_alloc_of_ne ho, get?_alloc_of_ne, hget]
      rw [← hnumber]
      simpa [Renumbering.object] using ho

theorem items?_object (o : ObjectRef) :
    m'.items? (ρ.object o) = (m.items? o).map (List.map ρ.value) := by
  rw [Memory.items?, Memory.items?, h.get?]
  cases m.get? o with
  | none => rfl
  | some c => cases c <;> rfl

omit h

mutual

theorem objectText (h : Renumbered ρ m m') (within : List Nat) (o : ObjectRef) :
    m'.objectText (within.map ρ.number) (ρ.object o) = m.objectText within o := by
  have hmem : (ρ.object o).id ∈ within.map ρ.number ↔ o.id ∈ within := by
    simp [Renumbering.object]
  rw [Memory.objectText, Memory.objectText]
  by_cases hn : o.id ∈ within
  · rw [dif_pos hn, dif_pos (hmem.mpr hn)]
  · rw [dif_neg hn, dif_neg (mt hmem.mp hn)]
    have hitems := h.items?_object o
    cases hi : m.items? o with
    | none =>
        rw [hi] at hitems
        split <;> simp_all
    | some items =>
        rw [hi] at hitems
        have htexts := itemTexts h (o.id :: within) items
        split
        · simp_all
        · next items' hi' =>
          obtain rfl := Option.some.inj (hi'.symm.trans hitems)
          exact congrArg (fun ts => "[" ++ ", ".intercalate ts ++ "]") htexts
termination_by (m.unshown within, 0)
decreasing_by exact Prod.Lex.left _ _ (unshown_lt hi hn)

theorem itemTexts (h : Renumbered ρ m m') (within : List Nat) (vs : List Value) :
    m'.itemTexts (within.map ρ.number) (vs.map ρ.value) = m.itemTexts within vs := by
  cases vs with
  | nil => rw [List.map_nil, Memory.itemTexts, Memory.itemTexts]
  | cons v vs =>
      have htail := itemTexts h within vs
      cases v with
      | object o =>
          rw [List.map_cons, Renumbering.value, Memory.itemTexts, Memory.itemTexts,
            objectText h within o, htail]
      | null | bool | int | float | string | enum | typeRoot =>
          simp only [List.map_cons, Renumbering.value, Memory.itemTexts, htail]
termination_by (m.unshown within, vs.length)
decreasing_by
  · exact Prod.Lex.right _ (by simp)
  · exact Prod.Lex.right _ (by simp)

end

include h

@[simp]
theorem text (v : Value) : m'.text (ρ.value v) = m.text v := by
  cases v with
  | object o => exact h.objectText [] o
  | null | bool | int | float | string | enum | typeRoot => rfl

@[simp]
theorem describe (v : Value) : m'.describe (ρ.value v) = m.describe v := by
  have htext := h.text v
  cases v with
  | object o => exact congrArg (· ++ " (" ++ (Value.object o).typeName ++ ")") htext
  | null | bool | int | float | string | enum | typeRoot => rfl

end Memory.Renumbered

/-- Where no object can come out, no number is changed. -/
theorem Except.map_value_eq_self {x : Except Fault Value} (h : ∀ v, x = .ok v → ρ.value v = v) :
    x.map ρ.value = x := by
  cases x with
  | ok v => exact congrArg Except.ok (h v rfl)
  | error f => rfl

namespace Value

theorem plainBinary_renumbered (ρ : Renumbering) (op : Operator) (v w : Value) :
    plainBinary op (ρ.value v) (ρ.value w) = plainBinary op v w := by
  cases v <;> cases w <;> rfl

theorem coercedBinary_renumbered (h : m.Renumbered ρ m') (op : Operator) (v w : Value) :
    coercedBinary m' op (ρ.value v) (ρ.value w) = coercedBinary m op v w := by
  simp only [coercedBinary.eq_def, h.text, ρ.equal_value, ρ.isString_value, plainBinary_renumbered]

/-- What an operator yields is no object. -/
theorem binary_renumbered (h : m.Renumbered ρ m') (op : Operator) (v w : Value) :
    (ρ.value v).binary m' op (ρ.value w) = (v.binary m op w).map ρ.value := by
  rw [Except.map_value_eq_self fun u hu => ?_]
  · simp only [binary, ρ.coerced_value, coercedBinary_renumbered h]
  · rcases binary_yields m op v w with hy | ⟨-, hy⟩
    · exact ρ.value_of_isScalar (hy.of_ok hu)
    · rw [hy] at hu
      cases hu

theorem value_of_remade {types : Directory} {tag : TypeTag} {v : Value} (h : Remade types tag v) :
    ρ.value v = v := by
  rcases h with ⟨hv, -⟩ | ⟨name, e, -, rfl, -⟩
  · exact ρ.value_of_isScalar hv
  · rfl

theorem convert_renumbered (h : m.Renumbered ρ m') (types : Directory) (v : Value) (tag : TypeTag) :
    (ρ.value v).convert types m' tag = (v.convert types m tag).map ρ.value := by
  have hother : (ρ.value v).convertOther types m' tag = v.convertOther types m tag := by
    have hdescribe := h.describe v
    have htext := h.text v
    cases v with
    | object o =>
        simp only [convertOther.eq_def, hdescribe, htext]
        rfl
    | null | bool | int | float | string | enum | typeRoot =>
        simp only [convertOther.eq_def, hdescribe, htext]
        rfl
  rw [convert, convert, ρ.isNull_value, ρ.typeTag_value]
  split
  · rfl
  · rw [hother, Except.map_value_eq_self]
    exact fun u hu => value_of_remade ((convertOther_yields types m v tag).of_ok hu)

end Value

namespace ParamType

/-- The choice of an overload does not tell objects of one type. -/
theorem accept_renumbered (types : Directory) (p : ParamType) (v : Value) :
    p.accept types (ρ.value v) = (p.accept types v).map (Option.map ρ.value) := by
  cases p with
  | any => rfl
  | exact tag =>
      have hvariant (name s : String) : (types.variant name s).map (fun e => some (Value.enum e)) =
          ((types.variant name s).map fun e => some (Value.enum e)).map (Option.map ρ.value) := by
        cases types.variant name s <;> rfl
      simp only [accept, ρ.typeTag_value]
      split
      · rfl
      · cases tag <;> cases v <;> first | rfl | exact hvariant _ _

theorem acceptAll_renumbered (types : Directory) (ps : List ParamType) (vs : List Value) :
    acceptAll types ps (vs.map ρ.value) =
      (acceptAll types ps vs).map (Option.map (List.map ρ.value)) := by
  induction ps generalizing vs with
  | nil => cases vs <;> rfl
  | cons p ps ih =>
      cases vs with
      | nil => rfl
      | cons v vs =>
          rw [List.map_cons, acceptAll, acceptAll, accept_renumbered, ih]
          cases p.accept types v with
          | error f => rfl
          | ok w? =>
              cases w? with
              | none => rfl
              | some w =>
                  cases acceptAll types ps vs with
                  | error f => rfl
                  | ok ws? => cases ws? <;> rfl

end ParamType

namespace Method

theorem firstAccepting_renumbered (types : Directory) (args : List Value) (typeArgs : List TypeTag)
    (fault? : Option Fault) (fs : List (Method H)) :
    firstAccepting types (args.map ρ.value) typeArgs fault? fs =
      (firstAccepting types args typeArgs fault? fs).map (Prod.map id (List.map ρ.value)) := by
  induction fs generalizing fault? with
  | nil => rfl
  | cons f fs ih =>
      have hfits : f.fits (args.map ρ.value) typeArgs = f.fits args typeArgs := by
        rw [fits, fits, List.length_map]
      rw [firstAccepting, firstAccepting, hfits, ParamType.acceptAll_renumbered]
      split
      · cases ParamType.acceptAll types f.params args with
        | error fault => exact ih _
        | ok ws? =>
            cases ws? with
            | none => exact ih _
            | some ws => rfl
      · exact ih _

theorem select_renumbered (types : Directory) (owner name : String)
    (overloads? : Option (List (Method H))) (args : List Value) (typeArgs : List TypeTag) :
    select types owner name overloads? (args.map ρ.value) typeArgs =
      (select types owner name overloads? args typeArgs).map (Prod.map id (List.map ρ.value)) := by
  cases overloads? with
  | none => rfl
  | some fs =>
      have hnames : (args.map ρ.value).map (·.typeName) = args.map (·.typeName) := by simp
      rw [select, select, firstAccepting_renumbered, hnames]
      cases firstAccepting types args typeArgs none fs with
      | ok chosen => rfl
      | error fault? => cases fault? <;> rfl

end Method

end Formula
