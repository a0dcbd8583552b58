import Formula.Proofs.Rerun

/-!
The builtin types change nothing but lists, and those by six methods only.
-/

namespace Formula

variable {H : Host} {ρ : Renumbering} {m₀ : Memory H} {off : List String}

theorem Call.receiverText_repeats (c : Call) :
    Repeats (Memory.Rerun ρ m₀) ρ.value (c.receiverText : Action H Value)
      (ρ.call c).receiverText :=
  .bind_get fun _ _ h => .pure (congrArg Value.string (h.text c.receiver))

namespace Builtin

namespace Strings

theorem readLength_repeats (o : Value) :
    Repeats (Memory.Rerun ρ m₀) ρ.value (readLength o) (readLength (ρ.value o)) := by
  cases o with
  | string s => exact .pure rfl
  | null | bool | int | float | enum | object | typeRoot => exact .throw _

theorem receiver_repeats (c : Call) {f : String → Value} (hf : ∀ s, (f s).IsScalar) :
    Repeats (Memory.Rerun ρ m₀) ρ.value (do return f (← c.receiverString) : Action H Value)
      (do return f (← (ρ.call c).receiverString) : Action H Value) := by
  rw [ρ.receiverString_call]
  exact .andThen _ fun s => .pure (ρ.value_of_isScalar (hf s)).symm

theorem argument_repeats (c : Call) {f : String → String → Value} (hf : ∀ s t, (f s t).IsScalar) :
    Repeats (Memory.Rerun ρ m₀) ρ.value
      (do return f (← c.receiverString) (← c.string 0) : Action H Value)
      (do return f (← (ρ.call c).receiverString) (← (ρ.call c).string 0) : Action H Value) := by
  rw [ρ.receiverString_call, ρ.string_call]
  exact .andThen _ fun s => .andThen _ fun t => .pure (ρ.value_of_isScalar (hf s t)).symm

theorem steady_typeDef : (typeDef : TypeDef H).Steady off := by
  -- From the last method back to the first: `ToString`, `Replace`, both `Substring`, then those that
  -- compute a scalar from one other text, and from none.
  refine .method (fun ρ m₀ c => .pure rfl) ?_
  apply TypeDef.Steady.method
  · intro ρ m₀ c
    simp only [ρ.receiverString_call, ρ.string_call]
    exact .andThen _ fun s => .andThen _ fun old => .andThen _ fun new => .andThen _ fun _ => .pure rfl
  apply TypeDef.Steady.method
  · intro ρ m₀ c
    simp only [ρ.receiverString_call, ρ.int_call]
    exact .andThen _ fun s => .andThen _ fun start => .andThen _ fun n => .andThen _ fun _ => .pure rfl
  apply TypeDef.Steady.method
  · intro ρ m₀ c
    simp only [ρ.receiverString_call, ρ.int_call]
    exact .andThen _ fun s => .andThen _ fun start => .andThen _ fun _ => .pure rfl
  refine .method (fun ρ m₀ c => argument_repeats c fun _ _ => trivial) ?_
  refine .method (fun ρ m₀ c => argument_repeats c fun _ _ => trivial) ?_
  refine .method (fun ρ m₀ c => argument_repeats c fun _ _ => trivial) ?_
  refine .method (fun ρ m₀ c => argument_repeats c fun _ _ => trivial) ?_
  refine .method (fun ρ m₀ c => receiver_repeats c fun _ => trivial) ?_
  refine .method (fun ρ m₀ c => receiver_repeats c fun _ => trivial) ?_
  refine .method (fun ρ m₀ c => receiver_repeats c fun _ => trivial) ?_
  exact .computed (fun ρ m₀ o => readLength_repeats o) (.ofTag .string)

end Strings

namespace Primitive

theorem value_comparison (ρ : Renumbering) (o : Ordering) :
    ρ.value (comparison o) = comparison o := by
  cases o <;> rfl

theorem steady_int : (Primitive.int : TypeDef H).Steady off := by
  apply TypeDef.Steady.method
  · intro ρ m₀ c
    rw [ρ.receiverInt_call, ρ.int_call]
    exact .andThen _ fun a => .andThen _ fun b => .pure (value_comparison ρ _).symm
  exact .method (fun ρ m₀ c => c.receiverText_repeats) (.ofTag .int)

theorem steady_float : (Primitive.float : TypeDef H).Steady off := by
  apply TypeDef.Steady.method
  · intro ρ m₀ c
    rw [ρ.receiverFloat_call, ρ.float_call]
    exact .andThen _ fun x => .andThen _ fun y => .pure (value_comparison ρ _).symm
  exact .method (fun ρ m₀ c => c.receiverText_repeats) (.ofTag .float)

theorem steady_bool : (Primitive.bool : TypeDef H).Steady off :=
  .method (fun _ _ c => c.receiverText_repeats) (.ofTag .bool)

end Primitive

namespace Math

variable {d : TypeDef H} {name : String}

theorem steady_unary (f : Number.Double → Number.Double) (h : d.Steady off) :
    (unary d name f).Steady off := by
  apply TypeDef.Steady.staticMethod _ h
  intro ρ m₀ c
  rw [ρ.float_call]
  exact .andThen _ fun x => .pure rfl

theorem steady_binary (f : Number.Double → Number.Double → Number.Double) (h : d.Steady off) :
    (binary d name f).Steady off := by
  apply TypeDef.Steady.staticMethod _ h
  intro ρ m₀ c
  rw [ρ.float_call, ρ.float_call]
  exact .andThen _ fun x => .andThen _ fun y => .pure rfl

theorem steady_binaryInt (f : Int64 → Int64 → Int64) (h : d.Steady off) :
    (binaryInt d name f).Steady off := by
  apply TypeDef.Steady.staticMethod _ h
  intro ρ m₀ c
  rw [ρ.int_call, ρ.int_call]
  exact .andThen _ fun a => .andThen _ fun b => .pure rfl

theorem steady_typeDef : (typeDef : TypeDef H).Steady off := by
  -- From the last method back to the first, and then the constants.
  iterate 4 apply steady_unary
  apply steady_binary
  apply TypeDef.Steady.staticMethod
  · intro ρ m₀ c
    simp only [ρ.float_call]
    exact .andThen _ fun x => .andThen _ fun low => .andThen _ fun high => .andThen _ fun _ => .pure rfl
  apply TypeDef.Steady.staticMethod
  · intro ρ m₀ c
    simp only [ρ.int_call]
    exact .andThen _ fun n => .andThen _ fun low => .andThen _ fun high => .andThen _ fun _ => .pure rfl
  apply steady_binary
  apply steady_binaryInt
  apply steady_binary
  apply steady_binaryInt
  apply steady_unary
  apply TypeDef.Steady.staticMethod
  · intro ρ m₀ c
    rw [ρ.int_call]
    exact .andThen _ fun n => .andThen _ fun _ => .pure rfl
  refine .staticProperty (fun ρ m₀ => .pure rfl) ?_
  exact .staticProperty (fun ρ m₀ => .pure rfl) (.ofTag _)

end Math

namespace Convert

theorem first_repeats (tag : TypeTag) (c : Call) :
    Repeats (Memory.Rerun ρ m₀) ρ.value (first tag c) (first tag (ρ.call c)) := by
  rw [first, first, ρ.arg_call]
  refine (Repeats.liftExcept ρ.value (c.arg 0)).bind fun v => .bind_get fun m m' h => ?_
  rw [ρ.types_call, Value.convert_renumbered h.toRenumbered]
  exact .liftExcept ρ.value _

theorem steady_typeDef : (typeDef : TypeDef H).Steady off := by
  refine .staticMethod (fun ρ m₀ c => first_repeats .string c) ?_
  refine .staticMethod (fun ρ m₀ c => first_repeats .bool c) ?_
  refine .staticMethod (fun ρ m₀ c => first_repeats .float c) ?_
  refine .staticMethod (fun ρ m₀ c => first_repeats .int c) ?_
  refine .staticGenericMethod (fun ρ m₀ c => ?_) (.ofTag _)
  rw [ρ.arg_call]
  refine (Repeats.liftExcept ρ.value (c.arg 0)).bind fun v => .bind_get fun m m' h => ?_
  rw [ρ.typeArg_call]
  refine .andThen _ fun tag => ?_
  rw [ρ.types_call, Value.convert_renumbered h.toRenumbered]
  exact .liftExcept ρ.value _

end Convert

namespace Sequence

/-- The methods that change the list. -/
def mutators : List String := ["Add", "Insert", "RemoveAt", "Clear", "Set", "Remove"]

theorem items_repeats (c : Call) :
    Repeats (Memory.Rerun ρ m₀) (List.map ρ.value) (items c) (items (ρ.call c)) := by
  rw [items, items, ρ.receiverObject_call]
  exact (Repeats.liftExcept ρ.object _).bind fun o => Action.read_repeats o

variable (ρ) in
theorem position?_map (v : Value) (vs : List Value) :
    position? (ρ.value v) (vs.map ρ.value) = position? v vs := by
  rw [position?, position?, List.findIdx?_map]
  congr 1
  funext w
  exact ρ.equal_value w v

variable (ρ) in
theorem indexOf_map (v : Value) (vs : List Value) :
    indexOf (ρ.value v) (vs.map ρ.value) = indexOf v vs := by
  rw [indexOf, indexOf, position?_map]

variable (ρ) in
theorem getAt_map (i : Int64) (vs : List Value) :
    getAt i (vs.map ρ.value) = (getAt i vs).map ρ.value := by
  rw [getAt, getAt, List.length_map]
  cases slot i vs.length with
  | error f => rfl
  | ok n =>
      have hget : (vs.map ρ.value).getD n .null = ρ.value (vs.getD n .null) := by
        simp only [List.getD_eq_getElem?_getD, List.getElem?_map]
        cases vs[n]? <;> rfl
      exact congrArg Except.ok hget

theorem steady_mutator {d : TypeDef H} {name : String} (params : List ParamType)
    (f : Call → Except Fault (List Value → Except Fault (List Value))) (hname : name ∈ mutators)
    (h : d.Steady mutators) : (mutator d name params f).Steady mutators :=
  h.addMethod fun hn => absurd hname hn

theorem steady_typeDef : (typeDef : TypeDef H).Steady mutators := by
  -- From the last method back to the first: `Get`, `IndexOf`, `Contains`, and then the mutators.
  apply TypeDef.Steady.method
  · intro ρ m₀ c
    rw [ρ.int_call]
    refine .andThen _ fun i => (items_repeats c).bind fun vs => ?_
    rw [getAt_map]
    exact .liftExcept ρ.value _
  apply TypeDef.Steady.method
  · intro ρ m₀ c
    rw [ρ.arg_call]
    refine (Repeats.liftExcept ρ.value (c.arg 0)).bind fun v => (items_repeats c).bind fun vs => ?_
    rw [indexOf_map]
    exact .pure rfl
  apply TypeDef.Steady.method
  · intro ρ m₀ c
    rw [ρ.arg_call]
    refine (Repeats.liftExcept ρ.value (c.arg 0)).bind fun v => (items_repeats c).bind fun vs => ?_
    rw [List.any_map]
    refine .pure ?_
    simp only [Function.comp_def, ρ.equal_value]
    rfl
  refine .addMethod (fun hname => absurd (show "Remove" ∈ mutators by decide) hname) ?_
  iterate 5 refine steady_mutator _ _ (by decide) ?_
  refine .staticMethod (fun ρ m₀ c => Action.newList_repeats []) ?_
  exact .items (fun ρ vs => by rw [List.length_map]) (fun _ _ _ => .pure rfl) (.ofTag _)

end Sequence

end Builtin

namespace Registry

theorem steady_builtins : (builtins : Registry H).Steady Builtin.Sequence.mutators := by
  refine forall_mem_registerAll (fun t ht => by simp [empty] at ht) ?_
  simp only [List.map_cons, List.map_nil, List.forall_mem_cons]
  exact ⟨Builtin.Strings.steady_typeDef.toHostType, Builtin.Primitive.steady_int.toHostType,
    Builtin.Primitive.steady_float.toHostType, Builtin.Primitive.steady_bool.toHostType,
    Builtin.Sequence.steady_typeDef.toHostType, Builtin.Math.steady_typeDef.toHostType,
    Builtin.Convert.steady_typeDef.toHostType, by simp⟩

end Registry

end Formula
